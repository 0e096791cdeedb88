import Pyrs.Library.StableFacts
import Pyrs.Model.Compiler.Module

/-!
# The code objects that the compiler emits

Every operand of an emitted instruction is in range: a jump stays within the code, and an index is
one of a constant, name or cell that its code object has.  The virtual machine checks each of these
when it executes the instruction; on compiled code no check fails.
-/

namespace Pyrs

/-! ## Operands in range -/

/-- What the argument of an instruction refers to. -/
inductive Operand
  | plain | target | const | code | name | shiftedName | cell

@[reducible] def Opcode.operand : Opcode → Operand
  | .jump | .jumpIfFalse | .jumpIfTrue | .jumpIfNone | .forIter | .setupExcept => .target
  | .loadConst | .binarySubConst | .compareLtConst | .importName => .const
  | .makeFunction | .buildClass => .code
  | .loadName | .loadFast | .storeName | .storeFast | .storeAttr | .storeGlobal | .deleteName
  | .deleteAttr | .importNameCpython | .importFromCpython => .name
  | .loadGlobal | .loadAttr => .shiftedName
  | .loadDeref | .storeDeref | .loadClosure => .cell
  | _ => .plain

/-- The argument of an instruction refers to something its code object has, where a jump stays below
`limit`. -/
def Operand.InRange (code : CodeObject) (limit : Nat) : Operand → Option Nat → Prop
  | .plain, _ => True
  | .target, some idx => idx < limit
  | .const, some idx => idx < code.constants.length
  | .code, some idx => ∃ nested, code.constants[idx]? = some (.code nested)
  | .name, some idx => idx < code.names.length
  | .shiftedName, some arg => arg >>> 1 < code.names.length
  | .cell, some idx => idx < code.cellvars.length + code.freevars.length
  | _, none => False

/-- A code object whose operands are in range, which ends in a return, and whose nested code objects
are like that too. -/
inductive CodeObject.WellFormed : CodeObject → Prop
  | intro {code : CodeObject}
      (hoperands : ∀ instr ∈ code.instructions,
        instr.opcode.operand.InRange code code.instructions.length instr.arg)
      (hreturn : code.instructions.getLast? = some ⟨.returnValue, none⟩)
      (hnested : ∀ nested, Value.code nested ∈ code.constants → nested.WellFormed) :
      CodeObject.WellFormed code

/-! ## The state of the code generator -/

namespace Compiler

open StableFacts

/-- What later states of the code generator keep. -/
inductive Fact
  | target (ip : Nat)
  | jump (index : Nat)
  | const (idx : Nat)
  | codeConst (idx : Nat)
  | name (idx : Nat)
  | cell (idx : Nat)
  | nested (codeObject : CodeObject)

def Fact.Holds (compiler : Compiler) : Fact → Prop
  | .target ip => ip ≤ compiler.code.instructions.length
  | .jump index =>
    ∃ opcode, (compiler.code.instructions.map (·.opcode))[index]? = some opcode ∧
      opcode.operand = .target
  | .const idx => idx < compiler.code.constants.length
  | .codeConst idx => ∃ code, compiler.code.constants[idx]? = some (.code code)
  | .name idx => idx < compiler.code.names.length
  | .cell idx => idx < compiler.code.cellvars.length + compiler.code.freevars.length
  | .nested codeObject => codeObject.WellFormed

def LoopContext.facts (context : LoopContext) : List Fact :=
  .target (context.continueTarget.getD context.start) ::
    (context.breaks.map Fact.jump ++ context.continues.map Fact.jump)

def FinallyReturnContext.facts (context : FinallyReturnContext) : List Fact :=
  context.pendingReturnJumps.map Fact.jump

/-- The facts about the jumps that the open loops and deferred returns wait for. -/
def contextFacts (compiler : Compiler) : List Fact :=
  compiler.loopStack.flatMap LoopContext.facts ++
    compiler.finallyReturnStack.flatMap FinallyReturnContext.facts

/-- The invariant of the code generator.  A jump may go to the end of the code, where more
follows. -/
structure Sound (compiler : Compiler) : Prop where
  operands : ∀ instr ∈ compiler.code.instructions,
    instr.opcode.operand.InRange compiler.code (compiler.code.instructions.length + 1) instr.arg
  none_const : 0 < compiler.code.constants.length
  nested : ∀ code, Value.code code ∈ compiler.code.constants → code.WellFormed
  cells : ∀ entry ∈ compiler.cellIndex,
    entry.2 < compiler.code.cellvars.length + compiler.code.freevars.length
  contexts : ∀ fact ∈ compiler.contextFacts, fact.Holds compiler

/-- Instructions keep their opcodes, and tables only get longer. -/
structure Grows (compiler later : Compiler) : Prop where
  opcodes : compiler.code.instructions.map (·.opcode) <+: later.code.instructions.map (·.opcode)
  constants : compiler.code.constants <+: later.code.constants
  names : compiler.code.names.length ≤ later.code.names.length
  cellvars : later.code.cellvars = compiler.code.cellvars
  freevars : later.code.freevars = compiler.code.freevars

variable {K : List Fact} {compiler later : Compiler} {fact : Fact} {kind : Operand}
  {arg : Option Nat} {idx target jump : Nat} {name : String}

theorem Grows.length_le (h : Grows compiler later) :
    compiler.code.instructions.length ≤ later.code.instructions.length := by
  simpa using h.opcodes.length_le

theorem getElem?_of_prefix {α : Type} {l l' : List α} {a : α} (h : l <+: l')
    (ha : l[idx]? = some a) : l'[idx]? = some a := by
  obtain ⟨suffix, rfl⟩ := h
  rw [List.getElem?_append_left (List.getElem?_eq_some_iff.1 ha).1, ha]

theorem Fact.Holds.mono (h : Grows compiler later)
    (hfact : fact.Holds compiler) : fact.Holds later := by
  cases fact with
  | target ip => exact Nat.le_trans (show ip ≤ _ from hfact) h.length_le
  | jump index =>
    obtain ⟨opcode, hindex, hopcode⟩ := hfact
    exact ⟨opcode, getElem?_of_prefix h.opcodes hindex, hopcode⟩
  | const idx => exact Nat.lt_of_lt_of_le (show idx < _ from hfact) h.constants.length_le
  | codeConst idx =>
    obtain ⟨code, hidx⟩ := hfact
    exact ⟨code, getElem?_of_prefix h.constants hidx⟩
  | name idx => exact Nat.lt_of_lt_of_le (show idx < _ from hfact) h.names
  | cell idx => simpa only [Holds, h.cellvars, h.freevars] using hfact
  | nested codeObject => exact hfact

instance : FactLogic Compiler Fact where
  Invariant := Sound
  Grows := Grows
  Holds compiler fact := fact.Holds compiler
  grows_refl _ := ⟨List.prefix_rfl, List.prefix_rfl, Nat.le_refl _, rfl, rfl⟩
  grows_trans h h' := ⟨h.opcodes.trans h'.opcodes, h.constants.trans h'.constants,
    Nat.le_trans h.names h'.names, h'.cellvars.trans h.cellvars, h'.freevars.trans h.freevars⟩
  holds_mono := Fact.Holds.mono

theorem InRange.mono (h : Grows compiler later) {limit limit' : Nat} (hlimit : limit ≤ limit')
    (hrange : kind.InRange compiler.code limit arg) : kind.InRange later.code limit' arg := by
  have hconstants := h.constants.length_le
  have hnames := h.names
  cases kind with
  | plain => trivial
  | code =>
    cases arg with
    | none => exact hrange
    | some idx =>
      obtain ⟨nested, hidx⟩ := hrange
      exact ⟨nested, getElem?_of_prefix h.constants hidx⟩
  | _ =>
    cases arg with
    | none => exact hrange
    | some idx => simp only [Operand.InRange, h.cellvars, h.freevars] at hrange ⊢; omega

/-- What is new in a later state decides whether the invariant is kept. -/
theorem Sound.grow (h : Sound compiler) (hgrows : Grows compiler later)
    (hoperands : ∀ instr ∈ later.code.instructions, instr ∈ compiler.code.instructions ∨
      instr.opcode.operand.InRange later.code (later.code.instructions.length + 1) instr.arg)
    (hnested : ∀ code, Value.code code ∈ later.code.constants →
      Value.code code ∈ compiler.code.constants ∨ code.WellFormed)
    (hcells : later.cellIndex = compiler.cellIndex)
    (hcontexts : ∀ fact ∈ later.contextFacts, fact ∈ compiler.contextFacts ∨ fact.Holds later) :
    Sound later where
  operands instr hinstr :=
    (hoperands instr hinstr).elim (fun hold =>
      InRange.mono hgrows (Nat.succ_le_succ hgrows.length_le) (h.operands instr hold)) id
  none_const := Nat.lt_of_lt_of_le h.none_const hgrows.constants.length_le
  nested code hcode := (hnested code hcode).elim (h.nested code) id
  cells := by simpa only [hcells, hgrows.cellvars, hgrows.freevars] using h.cells
  contexts fact hfact :=
    (hcontexts fact hfact).elim (fun hold => (h.contexts fact hold).mono hgrows) id

/-- A routine that keeps the invariant, and that hands nothing out. -/
abbrev Safe {α : Type} (K : List Fact) (x : CompileM α) : Prop :=
  Keeps K x fun _ => []

/-! ## Emission -/

/-- The argument of an instruction of this kind is in range, by what is known. -/
class Fits (K : List Fact) (kind : Operand) (arg : Option Nat) : Prop where
  inRange (compiler : Compiler) : Sound compiler → (∀ fact ∈ K, fact.Holds compiler) →
    kind.InRange compiler.code (compiler.code.instructions.length + 1) arg

instance : Fits K .plain arg :=
  ⟨fun _ _ _ => trivial⟩

instance [h : Knows K (.target target)] : Fits K .target (some target) :=
  ⟨fun _ _ hK => Nat.lt_succ_of_le (hK _ h.mem)⟩

instance : Fits K .const (some 0) :=
  ⟨fun _ hsound _ => hsound.none_const⟩

instance [h : Knows K (.const idx)] : Fits K .const (some idx) :=
  ⟨fun _ _ hK => hK _ h.mem⟩

instance [h : Knows K (.codeConst idx)] : Fits K .code (some idx) :=
  ⟨fun _ _ hK => hK _ h.mem⟩

instance [h : Knows K (.name idx)] : Fits K .name (some idx) :=
  ⟨fun _ _ hK => hK _ h.mem⟩

instance [h : Knows K (.name idx)] : Fits K .shiftedName (some (idx <<< 1)) where
  inRange compiler _ hK := by
    have hidx : idx < compiler.code.names.length := hK _ h.mem
    change (idx <<< 1) >>> 1 < _
    rwa [Nat.shiftLeft_shiftRight]

instance [h : Knows K (.cell idx)] : Fits K .cell (some idx) :=
  ⟨fun _ _ hK => hK _ h.mem⟩

theorem grows_emit (compiler : Compiler) (instrs : List Instruction) :
    Grows compiler { compiler with code := { compiler.code with
      instructions := compiler.code.instructions ++ instrs } } :=
  ⟨by simp, List.prefix_rfl, Nat.le_refl _, rfl, rfl⟩

theorem run_emit {opcode : Opcode} (h : Sound compiler) (harg : opcode.operand.InRange compiler.code
      (compiler.code.instructions.length + 1) arg)
    {result : Unit × Compiler} (hrun : emit opcode arg compiler = .ok result) :
    Kept compiler (fun _ => []) result ∧
      result.2.code.instructions =
        compiler.code.instructions ++ [emittedInstruction opcode arg] := by
  cases hrun
  have hgrows := grows_emit compiler [emittedInstruction opcode arg]
  have hemitted : (emittedInstruction opcode arg).opcode.operand.InRange compiler.code
      (compiler.code.instructions.length + 1) (emittedInstruction opcode arg).arg := by
    unfold emittedInstruction
    split
    · trivial
    · exact harg
  refine ⟨⟨h.grow hgrows (fun other hother => ?_) (fun _ => .inl) rfl fun _ => .inl,
    hgrows, by simp⟩, rfl⟩
  exact (List.mem_append.1 hother).imp id fun hmem => by
    rw [List.mem_singleton.1 hmem]
    exact InRange.mono hgrows (Nat.succ_le_succ hgrows.length_le) hemitted

instance {opcode : Opcode} [hfits : Fits K opcode.operand arg] :
    Safe K (emit opcode arg) where
  run compiler _ hsound hK hrun := (run_emit hsound (hfits.inRange compiler hsound hK) hrun).1

/-! ## Tables -/

/-- A constant without code. -/
class PlainConst (value : Value) : Prop where
  ne_code (code : CodeObject) : value ≠ .code code

instance : PlainConst .none := ⟨fun _ h => by cases h⟩
instance {value : Bool} : PlainConst (.bool value) := ⟨fun _ h => by cases h⟩
instance {value : Int} : PlainConst (.int value) := ⟨fun _ h => by cases h⟩
instance {value : String} : PlainConst (.str value) := ⟨fun _ h => by cases h⟩
instance {value : Constant} : PlainConst (constantToValue value) :=
  ⟨fun _ h => by cases value <;> cases h⟩

instance {c : Prop} [Decidable c] {value other : Value} [PlainConst value] [PlainConst other] :
    PlainConst (if c then value else other) := by
  split <;> infer_instance

theorem run_addConst {value : Value} (h : Sound compiler)
    (hvalue : ∀ code, value = .code code → code.WellFormed) {P : Nat → List Fact}
    (hP : ∀ later : Compiler,
      later.code.constants[compiler.code.constants.length]? = some value →
      ∀ fact ∈ P compiler.code.constants.length, fact.Holds later)
    {result : Nat × Compiler} (hrun : addConst value compiler = .ok result) :
    Kept compiler P result := by
  cases hrun
  have hgrows : Grows compiler
      { compiler with code := (compiler.code.addConst value).1 } :=
    ⟨List.prefix_rfl, List.prefix_append _ _, Nat.le_refl _, rfl, rfl⟩
  refine ⟨h.grow hgrows (fun _ => .inl) (fun code hcode => ?_) rfl fun _ => .inl,
    hgrows, hP _ (by simp [CodeObject.addConst])⟩
  exact (List.mem_append.1 hcode).imp id fun hmem => hvalue code (List.mem_singleton.1 hmem).symm

instance {value : Value} [hvalue : PlainConst value] :
    Keeps K (addConst value) fun idx => [.const idx] where
  run _ _ hsound _ := run_addConst hsound (fun code h => (hvalue.ne_code code h).elim)
    (by simpa [Fact.Holds] using fun _ h => (List.getElem?_eq_some_iff.1 h).1)

instance {code : CodeObject} [hcode : Knows K (.nested code)] :
    Keeps K (addConst (.code code)) fun idx => [.codeConst idx] where
  run compiler _ hsound hK := run_addConst hsound
    (fun other h => Value.code.inj h ▸ (hK _ hcode.mem : Fact.Holds compiler (.nested code)))
    (by simpa [Fact.Holds] using fun _ h => ⟨code, h⟩)

instance : Keeps K (addName name) fun idx => [.name idx] where
  run compiler result hsound _ hrun := by
    cases hrun
    unfold CodeObject.addName
    dsimp only
    split
    next idx hidx =>
      refine ⟨hsound, FactLogic.grows_refl compiler, ?_⟩
      simpa [FactLogic.Holds, Fact.Holds] using (List.findIdx?_eq_some_iff_findIdx_eq.1 hidx).1
    next =>
      have hgrows : Grows compiler { compiler with code := { compiler.code with
          names := compiler.code.names ++ [name] } } :=
        ⟨List.prefix_rfl, List.prefix_rfl, by simp, rfl, rfl⟩
      exact ⟨hsound.grow hgrows (fun _ => .inl) (fun _ => .inl) rfl fun _ => .inl,
        hgrows, by simp [FactLogic.Holds, Fact.Holds]⟩

instance : Keeps K (derefIndex name) fun idx => [.cell idx] where
  run compiler result hsound _ hrun := by
    unfold derefIndex at hrun
    obtain ⟨mid, hget, hrun⟩ := exists_of_bind_eq_ok hrun
    cases hget
    cases hlookup : compiler.cellIndex.lookup name with
    | none => simp only [hlookup] at hrun; cases hrun
    | some idx =>
      simp only [hlookup] at hrun
      cases hrun
      have hmem : (name, idx) ∈ compiler.cellIndex := by
        obtain ⟨before, after, hentries, -⟩ := List.lookup_eq_some_iff.1 hlookup
        simp [hentries]
      exact ⟨hsound, FactLogic.grows_refl compiler,
        by simpa [FactLogic.Holds, Fact.Holds] using hsound.cells _ hmem⟩

/-- A step that leaves the code alone. -/
theorem kept_of_code_eq {α : Type} {P : α → List Fact} {a : α} (h : Sound compiler)
    (hcode : later.code = compiler.code)
    (hcells : later.cellIndex = compiler.cellIndex)
    (hcontexts : ∀ fact ∈ later.contextFacts, fact ∈ compiler.contextFacts ∨ fact.Holds compiler)
    (hP : ∀ fact ∈ P a, fact.Holds compiler) : Kept compiler P (a, later) := by
  have hgrows : Grows compiler later := by
    constructor <;> simp [hcode]
  exact ⟨h.grow hgrows (fun _ => .inl ∘ (hcode ▸ id)) (fun _ => .inl ∘ (hcode ▸ id)) hcells
    (fun fact hfact => (hcontexts fact hfact).imp id (·.mono hgrows)),
    hgrows, fun fact hfact => (hP fact hfact).mono hgrows⟩

instance {kind : String} : Safe K (freshTemp kind) where
  run _ _ hsound _ hrun := by
    cases hrun
    exact kept_of_code_eq hsound rfl rfl (fun _ => .inl) (by simp)

instance : Safe K (ensureLocalName name) where
  run compiler _ hsound _ hrun := by
    cases hrun
    dsimp only
    split <;> exact kept_of_code_eq hsound rfl rfl (fun _ => .inl) (by simp)

/-! ## Jumps -/

/-- An opcode whose argument is a jump target. -/
class IsJump (opcode : Opcode) : Prop where
  operand_eq : opcode.operand = .target

instance : IsJump .jump := ⟨rfl⟩
instance : IsJump .jumpIfFalse := ⟨rfl⟩
instance : IsJump .jumpIfTrue := ⟨rfl⟩
instance : IsJump .jumpIfNone := ⟨rfl⟩
instance : IsJump .forIter := ⟨rfl⟩
instance : IsJump .setupExcept := ⟨rfl⟩
instance {op : BoolOp} : IsJump (boolOpJump op) := ⟨by cases op <;> rfl⟩

instance : Keeps K currentIp fun ip => [.target ip] where
  run compiler _ hsound _ hrun := by
    cases hrun
    exact ⟨hsound, FactLogic.grows_refl compiler, by simp [FactLogic.Holds, Fact.Holds]⟩

instance {opcode : Opcode} [hjump : IsJump opcode] :
    Keeps K (emitJump opcode) fun index => [.jump index] where
  run compiler result hsound hK hrun := by
    obtain ⟨mid, hip, hrun⟩ := exists_of_bind_eq_ok hrun
    cases hip
    obtain ⟨mid, hemit, hrun⟩ := exists_of_bind_eq_ok hrun
    cases hrun
    obtain ⟨hkept, hinstrs⟩ := run_emit hsound
      (by rw [hjump.operand_eq]; exact Nat.succ_pos _) hemit
    refine ⟨hkept.invariant, hkept.grows, ?_⟩
    simp [FactLogic.Holds, Fact.Holds, hinstrs, emittedInstruction, hjump.operand_eq]

theorem grows_patch {index : Nat} {instr : Instruction}
    (hinstr : compiler.code.instructions[index]? = some instr) :
    Grows compiler { compiler with code := { compiler.code with
      instructions := compiler.code.instructions.set index (instr.setTarget target) } } where
  opcodes := by
    obtain ⟨hindex, hinstr⟩ := List.getElem?_eq_some_iff.1 hinstr
    have hself : (compiler.code.instructions.map (·.opcode)).set index instr.opcode =
        compiler.code.instructions.map (·.opcode) := by
      subst hinstr
      rw [← List.map_set, List.set_getElem_self]
    simp [Instruction.setTarget, hself]
  constants := List.prefix_rfl
  names := Nat.le_refl _
  cellvars := rfl
  freevars := rfl

instance {index : Nat} [hindex : Knows K (.jump index)] [htarget : Knows K (.target target)] :
    Safe K (patchJump index target) where
  run compiler result hsound hK hrun := by
    obtain ⟨mid, hget, hrun⟩ := exists_of_bind_eq_ok hrun
    cases hget
    cases hinstr : compiler.code.instructions[index]? with
    | none => simp only [hinstr] at hrun; cases hrun
    | some instr =>
      simp only [hinstr] at hrun
      cases hrun
      have hgrows := @grows_patch compiler target index instr hinstr
      have hle : target ≤ compiler.code.instructions.length := hK _ htarget.mem
      obtain ⟨opcode, hopcode, hjump⟩ : Fact.Holds compiler (.jump index) := hK _ hindex.mem
      obtain rfl : instr.opcode = opcode := by simpa [hinstr] using hopcode
      refine ⟨hsound.grow hgrows (fun other hother => ?_) (fun _ => .inl) rfl fun _ => .inl,
        hgrows, by simp⟩
      refine (List.mem_or_eq_of_mem_set hother).imp id ?_
      rintro rfl
      simp [Instruction.setTarget, hjump, Operand.InRange]
      omega

/-- The facts that a list of jumps is known by. -/
abbrev jumps (indices : List Nat) : List Fact :=
  indices.flatMap fun index => [.jump index]

/-- Every one of the jumps is known. -/
class KnowsJumps (K : List Fact) (indices : List Nat) : Prop where
  mem : ∀ index ∈ indices, Fact.jump index ∈ K

instance : KnowsJumps K [] := ⟨by simp⟩

instance {index : Nat} {indices : List Nat} [h : Knows K (.jump index)]
    [hs : KnowsJumps K indices] : KnowsJumps K (index :: indices) :=
  ⟨by simpa using ⟨h.mem, hs.mem⟩⟩

instance {left right : List Nat} [hl : KnowsJumps K left] [hr : KnowsJumps K right] :
    KnowsJumps K (left ++ right) :=
  ⟨fun index h => (List.mem_append.1 h).elim (hl.mem index) (hr.mem index)⟩

instance {indices : List Nat} : KnowsJumps (jumps indices ++ K) indices :=
  ⟨by simp +contextual⟩

instance (priority := low) {A : List Fact} {indices : List Nat} [h : KnowsJumps K indices] :
    KnowsJumps (A ++ K) indices :=
  ⟨fun index hindex => List.mem_append_right _ (h.mem index hindex)⟩

instance {index : Nat} [h : Knows K (.jump index)] :
    Keeps K (pure index : CompileM Nat) fun index => [.jump index] :=
  .pure_of_known (by simpa using h.mem)

instance {indices : List Nat} [h : KnowsJumps K indices] :
    Keeps K (pure indices : CompileM (List Nat)) jumps :=
  .pure_of_known fun fact hfact => by
    obtain ⟨index, hindex, hfact⟩ := List.mem_flatMap.1 hfact
    exact List.mem_singleton.1 hfact ▸ h.mem index hindex

instance {indices : List Nat} [hindices : KnowsJumps K indices]
    [Knows K (.target target)] : Safe K (patchJumps indices target) :=
  .forM_of_mem fun index hindex => by
    have : Knows K (.jump index) := ⟨hindices.mem index hindex⟩
    infer_instance

/-! ## Loops and deferred returns -/

instance {pops : Nat} [htarget : Knows K (.target target)] :
    Safe K (pushLoopContext ⟨target, some target, pops, [], []⟩) where
  run compiler _ hsound hK hrun := by
    have hstart : Fact.Holds compiler (.target target) := hK _ htarget.mem
    cases hrun
    exact kept_of_code_eq hsound rfl rfl (by simp [contextFacts, LoopContext.facts]; grind)
      (by simp)

instance : Keeps K popLoopContext LoopContext.facts where
  run compiler _ hsound _ hrun := by
    obtain ⟨mid, hget, hrun⟩ := exists_of_bind_eq_ok hrun
    cases hget
    cases hstack : compiler.loopStack with
    | nil => simp only [hstack] at hrun; cases hrun
    | cons context rest =>
      simp only [hstack] at hrun
      cases hrun
      exact kept_of_code_eq hsound rfl rfl (by simp [contextFacts, hstack]; grind)
        fun fact hfact => hsound.contexts fact (by simp [contextFacts, hstack, hfact])

class KnowsAll (K L : List Fact) : Prop where
  mem : ∀ fact ∈ L, fact ∈ K

instance {L : List Fact} : KnowsAll (L ++ K) L := ⟨fun _ => List.mem_append_left _⟩

instance (priority := low) {A L : List Fact} [h : KnowsAll K L] : KnowsAll (A ++ K) L :=
  ⟨fun fact hfact => List.mem_append_right _ (h.mem fact hfact)⟩

instance {context : LoopContext} [hcontext : KnowsAll K (LoopContext.facts context)]
    [Knows K (.target target)] : Safe K (resolveLoopContext context target) := by
  have : Knows K (.target (context.continueTarget.getD context.start)) :=
    ⟨hcontext.mem _ (by simp [LoopContext.facts])⟩
  have : KnowsJumps K context.breaks :=
    ⟨fun index hindex => hcontext.mem _ (by simp [LoopContext.facts, hindex])⟩
  have : KnowsJumps K context.continues :=
    ⟨fun index hindex => hcontext.mem _ (by simp [LoopContext.facts, hindex])⟩
  unfold resolveLoopContext
  infer_instance

instance [hjump : Knows K (.jump jump)] : Safe K (addBreak jump) where
  run compiler _ hsound hK hrun := by
    have hnew : Fact.Holds compiler (.jump jump) := hK _ hjump.mem
    cases hrun
    dsimp only
    split
    next => exact ⟨hsound, FactLogic.grows_refl compiler, by simp⟩
    next hstack =>
      exact kept_of_code_eq hsound rfl rfl
        (by simp [contextFacts, LoopContext.facts, hstack]; grind) (by simp)

instance [hjump : Knows K (.jump jump)] : Safe K (addContinue jump) where
  run compiler _ hsound hK hrun := by
    have hnew : Fact.Holds compiler (.jump jump) := hK _ hjump.mem
    obtain ⟨mid, hget, hrun⟩ := exists_of_bind_eq_ok hrun
    cases hget
    cases hstack : compiler.loopStack with
    | nil => simp only [hstack] at hrun; cases hrun
    | cons context rest =>
      simp only [hstack] at hrun
      cases hrun
      exact kept_of_code_eq hsound rfl rfl
        (by simp [contextFacts, LoopContext.facts, hstack]; grind) (by simp)

instance {returnValueName returnFlagName : String} :
    Safe K (addFinallyReturnContext returnValueName returnFlagName) where
  run compiler _ hsound _ hrun := by
    cases hrun
    exact kept_of_code_eq hsound rfl rfl
      (by simp [contextFacts, FinallyReturnContext.facts]; grind) (by simp)

instance [hjump : Knows K (.jump jump)] : Safe K (addPendingReturn jump) where
  run compiler _ hsound hK hrun := by
    have hnew : Fact.Holds compiler (.jump jump) := hK _ hjump.mem
    cases hrun
    dsimp only
    split
    next => exact ⟨hsound, FactLogic.grows_refl compiler, by simp⟩
    next hstack =>
      exact kept_of_code_eq hsound rfl rfl
        (by simp [contextFacts, FinallyReturnContext.facts, hstack]; grind) (by simp)

instance : Keeps K popFinallyReturnContext FinallyReturnContext.facts where
  run compiler _ hsound _ hrun := by
    obtain ⟨mid, hget, hrun⟩ := exists_of_bind_eq_ok hrun
    cases hget
    cases hstack : compiler.finallyReturnStack with
    | nil => simp only [hstack] at hrun; cases hrun
    | cons context rest =>
      simp only [hstack] at hrun
      cases hrun
      exact kept_of_code_eq hsound rfl rfl (by simp [contextFacts, hstack]; grind)
        fun fact hfact => hsound.contexts fact (by simp [contextFacts, hstack, hfact])

instance {context : FinallyReturnContext}
    [hcontext : KnowsAll K (FinallyReturnContext.facts context)] [Knows K (.target target)] :
    Safe K (patchDeferredReturnsTo context target) := by
  have : KnowsJumps K context.pendingReturnJumps :=
    ⟨fun index hindex => hcontext.mem _ (by simp [FinallyReturnContext.facts, hindex])⟩
  unfold patchDeferredReturnsTo
  infer_instance

/-! ## Names -/

instance : Safe K (mangledName name) := by
  unfold mangledName; infer_instance

instance : Safe K (nameKind name) := by
  unfold nameKind; infer_instance

instance {value : Value} [PlainConst value] : Safe K (emitConst value) := by
  unfold emitConst; infer_instance

instance {α : Type} {message : String} : Safe K (compileError message : CompileM α) := by
  unfold compileError; infer_instance

instance : Safe K (emitLoadName name) :=
  .bind inferInstance fun _ => .bind inferInstance fun _ => .bind inferInstance fun kind => by
    cases kind <;> infer_instance

instance : Safe K (emitStoreName name) := by
  unfold emitStoreName; infer_instance

instance : Safe K (emitDeleteName name) := by
  unfold emitDeleteName; infer_instance

instance : Safe K (emitStoreNameScoped name) :=
  .bind inferInstance fun _ => .bind inferInstance fun _ => .bind inferInstance fun kind => by
    cases kind <;> infer_instance

instance : Safe K (emitLoadAttr name) := by
  unfold emitLoadAttr; infer_instance

instance {freevars : List String} : Safe K (emitClosureTuple freevars) := by
  unfold emitClosureTuple; infer_instance

instance : Safe K initAnnotations := by
  unfold initAnnotations; infer_instance

instance : Safe K inFunction := by
  unfold inFunction; infer_instance

instance : Safe K pushFinallyReturnContext := by
  unfold pushFinallyReturnContext; infer_instance

instance : Safe K compileContinue := by
  unfold compileContinue; infer_instance

instance : Safe K compileBreak :=
  .bind inferInstance fun compiler => by
    split <;> infer_instance

instance : Safe K emitReturnOrDefer :=
  .bind inferInstance fun compiler => by
    split <;> infer_instance

end Compiler

end Pyrs
