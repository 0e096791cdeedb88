import Pyrs.Model.Frame
import Pyrs.Properties.CodeObjects

/-!
# Every code object that the compiler emits is well formed

Each routine of the compiler keeps the invariant of the code generator, by induction on the nesting
of the program; at the end of a code object the invariant says that it is well formed.
-/

namespace Pyrs

namespace Compiler

open StableFacts

set_option synthInstance.maxSize 40000
-- Mutual lemmas use the sound routines through each other.
set_option linter.unusedSectionVars false

variable {K : List Fact}

/-! ## The end of a code object -/

instance : Safe K recordFutureImport where
  run compiler _ hsound _ hrun := by
    cases hrun
    have hgrows : Grows compiler { compiler with code := { compiler.code with
        futureAnnotationsImport := compiler.futureAnnotationsImport } } :=
      ⟨List.prefix_rfl, List.prefix_rfl, Nat.le_refl _, rfl, rfl⟩
    exact ⟨hsound.grow hgrows (fun _ => .inl) (fun _ => .inl) rfl fun _ => .inl, hgrows, by simp⟩

/-- Where a code object ends every jump has an instruction to go to. -/
theorem wellFormed_of_return {compiler : Compiler} (h : Sound compiler) {result : Unit × Compiler}
    (hrun : emit .returnValue none compiler = .ok result) :
    result.2.code.WellFormed ∧ Grows compiler result.2 := by
  have hreturn : Opcode.returnValue.operand.InRange compiler.code
      (compiler.code.instructions.length + 1) none := trivial
  obtain ⟨hkept, hinstrs⟩ := run_emit h hreturn hrun
  refine ⟨.intro (fun instr hinstr => ?_) (by simp [hinstrs, emittedInstruction])
    hkept.invariant.nested, hkept.grows⟩
  rw [hinstrs] at hinstr ⊢
  obtain hold | hnew := List.mem_append.1 hinstr
  · exact InRange.mono hkept.grows (by simp) (h.operands instr hold)
  · obtain rfl := List.mem_singleton.1 hnew
    trivial

theorem wellFormed_of_finish {compiler : Compiler} (h : Sound compiler) {result : Unit × Compiler}
    (hrun : finish compiler = .ok result) :
    result.2.code.WellFormed ∧ Grows compiler result.2 := by
  obtain ⟨mid, hrecord, hrun⟩ := exists_of_bind_eq_ok hrun
  have hmid := Keeps.run_ok h hrecord
  obtain ⟨last, hload, hrun⟩ := exists_of_bind_eq_ok hrun
  have hlast := Keeps.run_ok hmid.invariant hload
  obtain ⟨hwell, hgrows⟩ := wellFormed_of_return hlast.invariant hrun
  exact ⟨hwell, FactLogic.grows_trans hmid.grows (FactLogic.grows_trans hlast.grows hgrows)⟩

/-- The code generator at the start of a code object. -/
theorem sound_new {compiler : Compiler} (hinstrs : compiler.code.instructions = [])
    (hconstants : compiler.code.constants = [.none])
    (hcells : compiler.cellIndex =
      (compiler.code.cellvars ++ compiler.code.freevars).zipIdx.reverse)
    (hloops : compiler.loopStack = []) (hreturns : compiler.finallyReturnStack = []) :
    Sound compiler where
  operands := by simp [hinstrs]
  none_const := by simp [hconstants]
  nested := by simp [hconstants]
  cells entry hentry := by
    rw [hcells] at hentry
    simpa using (List.mem_zipIdx (List.mem_reverse.1 hentry)).2.1
  contexts := by simp [contextFacts, hloops, hreturns]

/-! ## Docstrings in the first place -/

theorem inRange_of_constants {code other : CodeObject} {limit : Nat} {kind : Operand}
    {arg : Option Nat} (h : kind.InRange code limit arg)
    (hlength : other.constants.length = code.constants.length)
    (hcode : ∀ (idx : Nat) (nested : CodeObject), code.constants[idx]? = some (.code nested) →
      other.constants[idx]? = some (.code nested))
    (hnames : other.names = code.names) (hcellvars : other.cellvars = code.cellvars)
    (hfreevars : other.freevars = code.freevars) : kind.InRange other limit arg := by
  cases kind <;> cases arg <;>
    simp only [Operand.InRange, hlength, hnames, hcellvars, hfreevars] at h ⊢ <;> try exact h
  obtain ⟨nested, hidx⟩ := h
  exact ⟨nested, hcode _ nested hidx⟩

theorem wellFormed_promote {code : CodeObject} (h : code.WellFormed) {doc : String}
    (hdocs : [Value.none, .str doc] <+: code.constants) :
    (promoteDocstringConstant code 1).WellFormed := by
  obtain ⟨rest, hconstants⟩ := hdocs
  obtain ⟨hoperands, hreturn, hnested⟩ := h
  have hpromoted : (promoteDocstringConstant code 1).constants = .str doc :: .none :: rest := by
    simp [promoteDocstringConstant, ← hconstants]
  have hlength : (promoteDocstringConstant code 1).constants.length = code.constants.length := by
    simp [hpromoted, ← hconstants]
  have hinstrs : (promoteDocstringConstant code 1).instructions =
      code.instructions.map (·.swapDocConst 1) := rfl
  refine .intro ?_ ?_ ?_
  · rw [hinstrs, List.length_map]
    simp only [List.mem_map]
    rintro _ ⟨instr, hinstr, rfl⟩
    have hrange := hoperands instr hinstr
    unfold Instruction.swapDocConst
    split
    next arg =>
      have harg : arg < code.constants.length := hrange
      change swapDocConst 1 arg < (promoteDocstringConstant code 1).constants.length
      rw [hlength, ← hconstants] at *
      unfold swapDocConst
      split_ifs <;> simp_all
    next =>
      refine inRange_of_constants hrange hlength (fun idx nested hidx => ?_) rfl rfl rfl
      rw [hpromoted]
      rw [← hconstants] at hidx
      match idx with
      | 0 => simp at hidx
      | 1 => simp at hidx
      | idx + 2 => simpa using hidx
  · rw [hinstrs, List.getLast?_map, hreturn]
    rfl
  · intro nested hmem
    refine hnested nested ?_
    rw [hpromoted] at hmem
    simpa [← hconstants] using hmem

section Routines

/-- Recursive calls that keep the invariant. -/
class SoundRoutines (routines : Routines) : Prop where
  compileExpr (K : List Fact) (expr : Expr) : Safe K (routines.compileExpr expr)
  compileStmt (K : List Fact) (stmt : Stmt) : Safe K (routines.compileStmt stmt)

variable {analyses : Analyses} {routines : Routines} [hroutines : SoundRoutines routines]

variable {name subjectTemp matchArgsTemp ctxTemp excTemp : String}
  {expr value test left right iter context : Expr} {returns metaclass : Option Expr}
  {body orelse finalbody : List Stmt}
  {sig : Signature} {typeParams : List TypeParam} {bindings : List (String × String)}
  {bases args : List CallArg} {keywords : List (String × Expr)} {isAsync storeTarget : Bool}
  {entry : DictEntry} {target : AssignTarget} {targets : List AssignTarget} {pattern : Pattern}
  {handler : ExceptHandler} {handlers : List ExceptHandler} {importAlias : ImportAlias} {idx : Nat}

instance {expr : Expr} : Safe K (routines.compileExpr expr) :=
  hroutines.compileExpr K expr

instance {stmt : Stmt} : Safe K (routines.compileStmt stmt) :=
  hroutines.compileStmt K stmt

instance {expr : Option Expr} : Safe K (compileOptional routines expr) := by
  cases expr <;> (unfold compileOptional; infer_instance)

instance : Safe K (compileBodyStmts routines body) := by
  unfold compileBodyStmts; infer_instance

instance : Safe K (compileAnnotatedBody analyses routines body) := by
  unfold compileAnnotatedBody; infer_instance

instance : Safe K (emitDocstring body) := by
  unfold emitDocstring; infer_instance

instance : Safe K emitClassCell := by
  unfold emitClassCell; infer_instance

instance : Safe K (emitAnnotationExpr analyses routines expr) := by
  unfold emitAnnotationExpr; infer_instance

instance : Safe K (emitFunctionAnnotations analyses routines sig returns) := by
  unfold emitFunctionAnnotations
  dsimp only
  split <;> infer_instance

instance {code : CodeObject} [Knows K (.nested code)] :
    Safe K (emitFunctionWithDefaults analyses routines sig returns code) := by
  unfold emitFunctionWithDefaults
  dsimp only
  infer_instance

theorem run_compileNested {compiler outer : Compiler} {action : CompileM Unit}
    {result : CodeObject × Compiler} (hrun : compileNested compiler action outer = .ok result) :
    result.2 = outer ∧ ∃ inner, action compiler = .ok inner ∧ result.1 = inner.2.code := by
  obtain ⟨mid, hlift, hrun⟩ := exists_of_bind_eq_ok hrun
  cases haction : action compiler with
  | error failure => rw [haction] at hlift; cases hlift
  | ok inner =>
    rw [haction] at hlift
    cases hlift
    cases hrun
    exact ⟨rfl, inner, rfl, rfl⟩

theorem wellFormed_functionBody {body : List Stmt} {compiler : Compiler} (h : Sound compiler)
    (hconstants : compiler.code.constants = [.none]) {inner : Unit × Compiler}
    (hrun : compileFunctionBody analyses routines body compiler = .ok inner) :
    (if (bodyDocstring body).isSome then promoteDocstringConstant inner.2.code 1
      else inner.2.code).WellFormed := by
  obtain ⟨mid, hdoc, hrun⟩ := exists_of_bind_eq_ok hrun
  have hmid := Keeps.run_ok h hdoc
  obtain ⟨last, hbody, hrun⟩ := exists_of_bind_eq_ok hrun
  have hlast := Keeps.run_ok hmid.invariant hbody
  obtain ⟨hwell, hgrows⟩ := wellFormed_of_finish hlast.invariant hrun
  cases hdocstring : bodyDocstring body with
  | none => exact hwell
  | some doc =>
    have hdocs := hlast.grows.constants.trans hgrows.constants
    rw [hdocstring] at hdoc
    cases hdoc
    exact wellFormed_promote hwell (by simpa [CodeObject.addConst, hconstants] using hdocs)

instance : Keeps K (compileFunction analyses routines name isAsync sig body)
    fun code => [.nested code] := by
  unfold compileFunction
  refine .bind inferInstance fun outer => .bind inferInstance fun scope => .of_same ?_
  intro compiler result hK hrun
  obtain ⟨mid, hnested, hrun⟩ := exists_of_bind_eq_ok hrun
  cases hrun
  obtain ⟨hsame, inner, haction, hcode⟩ := run_compileNested hnested
  have hwell := wellFormed_functionBody (sound_new rfl rfl rfl rfl rfl) rfl haction
  exact ⟨hsame, fun fact hfact => by rw [List.mem_singleton.1 hfact, hcode]; exact hwell⟩

instance : Keeps K (compileClass analyses routines name body) fun code => [.nested code] := by
  unfold compileClass
  refine .bind inferInstance fun outer => .bind inferInstance fun scope => .of_same ?_
  intro compiler result hK hrun
  obtain ⟨hsame, inner, haction, hcode⟩ := run_compileNested hrun
  obtain ⟨first, hdoc, haction⟩ := exists_of_bind_eq_ok haction
  have hfirst := Keeps.run_ok (sound_new rfl rfl rfl rfl rfl) hdoc
  obtain ⟨second, hbody, haction⟩ := exists_of_bind_eq_ok haction
  have hsecond := Keeps.run_ok hfirst.invariant hbody
  obtain ⟨last, hcell, haction⟩ := exists_of_bind_eq_ok haction
  have hlast := Keeps.run_ok hsecond.invariant hcell
  have hwell := (wellFormed_of_finish hlast.invariant haction).1
  exact ⟨hsame, fun fact hfact => by rw [List.mem_singleton.1 hfact, hcode]; exact hwell⟩

instance : Safe K (emitTypeParamHelper analyses routines name bindings expr) := by
  unfold emitTypeParamHelper
  dsimp only
  infer_instance

instance : Safe K (emitTypeParamExprWithBindings analyses routines expr bindings) := by
  unfold emitTypeParamExprWithBindings; infer_instance

instance {param : TypeParam} : Safe K (emitTypeParamObject analyses routines param bindings) := by
  unfold emitTypeParamObject
  refine .bind inferInstance fun _ => ?_
  dsimp only
  split <;> infer_instance

instance : Safe K (emitTypeParamTemps analyses routines typeParams) := by
  unfold emitTypeParamTemps; infer_instance

instance : Safe K (emitTypeParamsTupleFromTemps bindings) := by
  unfold emitTypeParamsTupleFromTemps; infer_instance

instance : Safe K (emitDeleteTypeParamTemps bindings) := by
  unfold emitDeleteTypeParamTemps; infer_instance

instance : Safe K (emitTypeParamsTuple analyses routines typeParams) := by
  unfold emitTypeParamsTuple; infer_instance

instance : Safe K (compileFunctionDefStmt analyses routines name typeParams isAsync sig returns
    body storeTarget) := by
  unfold compileFunctionDefStmt
  dsimp only
  infer_instance

instance {base : CallArg} : Safe K (emitClassBase routines base) := by
  cases base <;> (unfold emitClassBase; infer_instance)

instance : Safe K (emitClassTypeParams analyses routines typeParams) := by
  unfold emitClassTypeParams; infer_instance

instance {temps : Option TypeParamTemps} [Knows K (.codeConst idx)] :
    Safe K (emitBuildClass routines name temps bases metaclass keywords idx) := by
  unfold emitBuildClass; infer_instance

instance : Safe K (compileClassDef analyses routines name typeParams bases metaclass keywords body
    storeTarget) :=
  .bind inferInstance fun _ => .bind inferInstance fun _ => .bind inferInstance fun temps =>
    .bind inferInstance fun _ => by
      dsimp only
      cases temps <;> infer_instance

instance : Safe K (compileTypeAliasStmt analyses routines name typeParams value) := by
  unfold compileTypeAliasStmt
  dsimp only
  infer_instance

instance {stmt : Stmt} : Safe K (compileDecoratedTarget analyses routines stmt) := by
  unfold compileDecoratedTarget
  split <;> infer_instance

instance {decorators : List Expr} {stmt : Stmt} :
    Safe K (compileDecoratedStmt analyses routines decorators stmt) := by
  unfold compileDecoratedStmt
  split <;> infer_instance

/-! ## Expressions -/

instance {clauses : List ComprehensionClause} :
    Safe K (emitCompFunction analyses routines name clauses body) := by
  unfold emitCompFunction
  dsimp only
  infer_instance

instance {positional keywords : Nat} : Safe K (packCallCounts positional keywords) := by
  unfold packCallCounts; infer_instance

instance {arg : CallArg} : Safe K (emitTempArg routines arg) := by
  unfold emitTempArg; infer_instance

instance {arg : TempArg} : Safe K (emitPositionalTemp arg) := by
  cases arg <;> (unfold emitPositionalTemp; infer_instance)

instance {arg : TempArg} : Safe K (emitKeywordTemp arg) := by
  cases arg <;> (unfold emitKeywordTemp; infer_instance)

instance : Safe K (compileStarredCall routines args) := by
  unfold compileStarredCall; infer_instance

instance {arg : CallArg} : Safe K (emitCallArg routines arg) := by
  cases arg <;> (unfold emitCallArg; infer_instance)

instance : Safe K (compilePlainCall routines args) := by
  unfold compilePlainCall
  dsimp only
  infer_instance

instance : Safe K (emitDictEntry routines entry) := by
  cases entry <;> (unfold emitDictEntry; infer_instance)

instance : Safe K (emitDictPair routines entry) := by
  cases entry <;> (unfold emitDictPair; infer_instance)

instance {entries : List DictEntry} : Safe K (compileDict routines entries) := by
  unfold compileDict; infer_instance

instance {conversion : Option Char} : Safe K (templateConversionCode conversion) := by
  unfold templateConversionCode
  split <;> infer_instance

instance {conversion : Option Char} {hasFormatSpec : Bool} :
    Safe K (templateInterpolationArg conversion hasFormatSpec) := by
  unfold templateInterpolationArg; infer_instance

instance {interpolation : TemplateInterpolation} :
    Safe K (emitInterpolation routines interpolation) := by
  unfold emitInterpolation
  dsimp only
  infer_instance

instance {strings : List String} {interpolations : List TemplateInterpolation} :
    Safe K (compileTemplateLiteral routines strings interpolations) := by
  unfold compileTemplateLiteral
  dsimp only
  infer_instance

instance {op : BinaryOp} {arg : Option Nat} : Fits K (binaryOpcode op).operand arg := by
  cases op <;> exact inferInstanceAs (Fits K .plain arg)

instance {op : UnaryOp} {arg : Option Nat} : Fits K (unaryOpcode op).operand arg := by
  cases op <;> exact inferInstanceAs (Fits K .plain arg)

instance {op : AugOp} {arg : Option Nat} : Fits K (augOpcode op).operand arg := by
  cases op <;> exact inferInstanceAs (Fits K .plain arg)

instance {op : BinaryOp} : Safe K (compileBinary routines left op right) := by
  unfold compileBinary
  split
  next opcode value hop =>
    have (idx : Nat) (L : List Fact) [Knows L (.const idx)] : Fits L opcode.operand (some idx) := by
      cases op <;> cases hop <;> exact inferInstanceAs (Fits L .const (some idx))
    infer_instance
  next => infer_instance

instance {op : BoolOp} : Safe K (compileBoolOp routines op left right) := by
  unfold compileBoolOp; infer_instance

instance {body orelse : Expr} : Safe K (compileIfExpr routines test body orelse) := by
  unfold compileIfExpr; infer_instance

theorem keeps_compileExpr (expr : Expr) : Safe K (compileExpr analyses routines expr) := by
  cases expr <;> (unfold compileExpr; dsimp only; infer_instance)

/-! ## Targets -/

instance {items : List AssignTarget} : Safe K (emitUnpack items) := by
  unfold emitUnpack
  dsimp only
  cases items.findIdx? (·.isStarred) <;> infer_instance

mutual

theorem keeps_storeTarget (K : List Fact) :
    ∀ target, Safe K (compileStoreTargetFromStack routines target)
  | .name name => by unfold compileStoreTargetFromStack; infer_instance
  | .starred item => by
    unfold compileStoreTargetFromStack
    exact keeps_storeTarget K item
  | .tuple items | .list items => by
    unfold compileStoreTargetFromStack
    exact .bind inferInstance fun _ => keeps_storeTargetsReversed _ items
  | .attribute value name => by unfold compileStoreTargetFromStack; infer_instance
  | .subscript value index => by unfold compileStoreTargetFromStack; infer_instance

theorem keeps_storeTargetsReversed (K : List Fact) :
    ∀ items, Safe K (compileStoreTargetsReversed routines items)
  | [] => by unfold compileStoreTargetsReversed; infer_instance
  | item :: items => by
    unfold compileStoreTargetsReversed
    exact .bind (keeps_storeTargetsReversed K items) fun _ => keeps_storeTarget _ item

end

instance : Safe K (compileStoreTargetFromStack routines target) :=
  keeps_storeTarget K target

instance : Safe K (compileStoreTargets routines targets) := by
  fun_induction compileStoreTargets routines targets generalizing K <;> infer_instance

instance : Safe K (compileAssignTargets routines targets value) := by
  unfold compileAssignTargets; infer_instance

mutual

theorem keeps_deleteTarget (K : List Fact) :
    ∀ target, Safe K (compileDeleteTarget routines target)
  | .name name => by unfold compileDeleteTarget; infer_instance
  | .starred item => by unfold compileDeleteTarget; infer_instance
  | .tuple items | .list items => by
    unfold compileDeleteTarget
    exact keeps_delete K items
  | .attribute value name => by unfold compileDeleteTarget; infer_instance
  | .subscript value index => by unfold compileDeleteTarget; infer_instance

theorem keeps_delete (K : List Fact) :
    ∀ targets, Safe K (compileDelete routines targets)
  | [] => by unfold compileDelete; infer_instance
  | target :: targets => by
    unfold compileDelete
    exact .bind (keeps_deleteTarget K target) fun _ => keeps_delete _ targets

end

instance : Safe K (compileDelete routines targets) :=
  keeps_delete K targets

instance {annotationExpr : Expr} {value : Option Expr} {simple : Bool} :
    Safe K (compileAnnAssign analyses routines target annotationExpr value simple) := by
  unfold compileAnnAssign
  dsimp only
  split <;> infer_instance

instance {op : AugOp} : Safe K (compileAugAssign routines target op value) := by
  cases target <;> (unfold compileAugAssign; infer_instance)

/-! ## Patterns -/

instance {targetTemp : String} {index : Int} :
    Safe K (emitExtractPatternItem subjectTemp index targetTemp) := by
  unfold emitExtractPatternItem; infer_instance

instance {failJumps : List Nat} [KnowsJumps K failJumps] : Safe K (emitTestOutcome failJumps) := by
  unfold emitTestOutcome; infer_instance

instance {valueTemp : String} {emitName : CompileM Unit} [∀ K, Safe K emitName] :
    Safe K (emitPatternAttribute subjectTemp emitName valueTemp) := by
  unfold emitPatternAttribute; infer_instance

instance {emitName : CompileM Unit} [∀ K, Safe K emitName] :
    Keeps K (emitPatternHasAttribute subjectTemp emitName) fun index => [.jump index] := by
  unfold emitPatternHasAttribute; infer_instance

instance {classTemp : String} : Safe K (emitMatchArgs classTemp matchArgsTemp) := by
  unfold emitMatchArgs; infer_instance

instance {items : List Pattern} : Keeps K (emitSequenceLengthTest items subjectTemp) jumps := by
  unfold emitSequenceLengthTest
  dsimp only
  infer_instance

instance : Keeps K (emitMatchArgsLengthTest matchArgsTemp idx) fun index => [.jump index] := by
  unfold emitMatchArgsLengthTest; infer_instance

mutual

theorem keeps_patternTest (K : List Fact) (subjectTemp : String) :
    ∀ pattern, Safe K (compilePatternTest routines subjectTemp pattern)
  | .wildcard | .capture _ | .star _ | .constant _ | .value _ => by
    unfold compilePatternTest; infer_instance
  | .sequence items => by
    have (L : List Fact) (starIndex : Option Nat) (length : Nat) :=
      keeps_sequenceTests L subjectTemp starIndex length 0 items
    unfold compilePatternTest
    dsimp only
    infer_instance
  | .mapping entries rest => by
    have (L : List Fact) := keeps_mappingTests L subjectTemp entries
    unfold compilePatternTest
    infer_instance
  | .class cls positional keywords => by
    have (L : List Fact) (temp : String) := keeps_positionalTests L subjectTemp temp 0 positional
    have (L : List Fact) := keeps_keywordTests L subjectTemp keywords
    unfold compilePatternTest
    infer_instance
  | .or [] => by unfold compilePatternTest; infer_instance
  | .or (option :: options) => by
    have := keeps_patternTest K subjectTemp option
    have (L : List Fact) := keeps_optionTests L subjectTemp options
    unfold compilePatternTest
    infer_instance
  | .as pattern _ => by
    unfold compilePatternTest
    exact keeps_patternTest K subjectTemp pattern

theorem keeps_sequenceTests (K : List Fact) (subjectTemp : String) (starIndex : Option Nat)
    (length idx : Nat) : ∀ items,
      Keeps K (compileSequenceItemTests routines subjectTemp starIndex length idx items) jumps
  | [] => by unfold compileSequenceItemTests; infer_instance
  | item :: items => by
    have (L : List Fact) (temp : String) := keeps_patternTest L temp item
    have (L : List Fact) := keeps_sequenceTests L subjectTemp starIndex length (idx + 1) items
    unfold compileSequenceItemTests
    infer_instance

theorem keeps_mappingTests (K : List Fact) (subjectTemp : String) :
    ∀ entries, Keeps K (compileMappingEntryTests routines subjectTemp entries) jumps
  | [] => by unfold compileMappingEntryTests; infer_instance
  | (key, pattern) :: entries => by
    have (L : List Fact) (temp : String) := keeps_patternTest L temp pattern
    have (L : List Fact) := keeps_mappingTests L subjectTemp entries
    unfold compileMappingEntryTests
    infer_instance

theorem keeps_positionalTests (K : List Fact) (subjectTemp matchArgsTemp : String) (idx : Nat) :
    ∀ patterns,
      Keeps K (compilePositionalTests routines subjectTemp matchArgsTemp idx patterns) jumps
  | [] => by unfold compilePositionalTests; infer_instance
  | pattern :: patterns => by
    have (L : List Fact) (temp : String) := keeps_patternTest L temp pattern
    have (L : List Fact) := keeps_positionalTests L subjectTemp matchArgsTemp (idx + 1) patterns
    unfold compilePositionalTests
    infer_instance

theorem keeps_keywordTests (K : List Fact) (subjectTemp : String) :
    ∀ keywords, Keeps K (compileKeywordTests routines subjectTemp keywords) jumps
  | [] => by unfold compileKeywordTests; infer_instance
  | (name, pattern) :: keywords => by
    have (L : List Fact) (temp : String) := keeps_patternTest L temp pattern
    have (L : List Fact) := keeps_keywordTests L subjectTemp keywords
    unfold compileKeywordTests
    infer_instance

theorem keeps_optionTests (K : List Fact) (subjectTemp : String) :
    ∀ options, Keeps K (compileOptionTests routines subjectTemp options) jumps
  | [] => by unfold compileOptionTests; infer_instance
  | option :: options => by
    have (L : List Fact) := keeps_patternTest L subjectTemp option
    have (L : List Fact) := keeps_optionTests L subjectTemp options
    unfold compileOptionTests
    infer_instance

end

instance : Safe K (compilePatternTest routines subjectTemp pattern) :=
  keeps_patternTest K subjectTemp pattern

instance {length : Nat} : Safe K (emitStarBinding subjectTemp name length idx) := by
  unfold emitStarBinding
  dsimp only
  infer_instance

instance {entries : List (Expr × Pattern)} :
    Safe K (emitMappingRest routines subjectTemp name entries) := by
  unfold emitMappingRest; infer_instance

mutual

theorem keeps_patternBindings (K : List Fact) (subjectTemp : String) :
    ∀ pattern, Safe K (compilePatternBindings routines subjectTemp pattern)
  | .wildcard | .constant _ | .value _ | .star none | .capture _ | .star (some _) => by
    unfold compilePatternBindings; infer_instance
  | .as pattern _ => by
    have := keeps_patternBindings K subjectTemp pattern
    unfold compilePatternBindings
    infer_instance
  | .sequence items => by
    unfold compilePatternBindings
    exact keeps_sequenceBindings K subjectTemp _ _ 0 items
  | .mapping entries rest => by
    have := keeps_mappingBindings K subjectTemp entries
    cases rest <;> (unfold compilePatternBindings; infer_instance)
  | .class cls positional keywords => by
    have (L : List Fact) (temp : String) := keeps_positionalBindings L subjectTemp temp 0 positional
    have (L : List Fact) := keeps_keywordBindings L subjectTemp keywords
    unfold compilePatternBindings
    infer_instance
  | .or options => by
    have := keeps_optionBindings K subjectTemp options
    unfold compilePatternBindings
    infer_instance

theorem keeps_sequenceBindings (K : List Fact) (subjectTemp : String) (starIndex : Option Nat)
    (length idx : Nat) : ∀ items,
      Safe K (compileSequenceItemBindings routines subjectTemp starIndex length idx items)
  | [] => by unfold compileSequenceItemBindings; infer_instance
  | item :: items => by
    have (L : List Fact) (temp : String) := keeps_patternBindings L temp item
    have (L : List Fact) := keeps_sequenceBindings L subjectTemp starIndex length (idx + 1) items
    unfold compileSequenceItemBindings
    dsimp only
    split <;> infer_instance

theorem keeps_mappingBindings (K : List Fact) (subjectTemp : String) :
    ∀ entries, Safe K (compileMappingEntryBindings routines subjectTemp entries)
  | [] => by unfold compileMappingEntryBindings; infer_instance
  | (key, pattern) :: entries => by
    have (L : List Fact) (temp : String) := keeps_patternBindings L temp pattern
    have (L : List Fact) := keeps_mappingBindings L subjectTemp entries
    unfold compileMappingEntryBindings
    infer_instance

theorem keeps_positionalBindings (K : List Fact) (subjectTemp matchArgsTemp : String) (idx : Nat) :
    ∀ patterns,
      Safe K (compilePositionalBindings routines subjectTemp matchArgsTemp idx patterns)
  | [] => by unfold compilePositionalBindings; infer_instance
  | pattern :: patterns => by
    have (L : List Fact) (temp : String) := keeps_patternBindings L temp pattern
    have (L : List Fact) := keeps_positionalBindings L subjectTemp matchArgsTemp (idx + 1) patterns
    unfold compilePositionalBindings
    infer_instance

theorem keeps_keywordBindings (K : List Fact) (subjectTemp : String) :
    ∀ keywords, Safe K (compileKeywordBindings routines subjectTemp keywords)
  | [] => by unfold compileKeywordBindings; infer_instance
  | (name, pattern) :: keywords => by
    have (L : List Fact) (temp : String) := keeps_patternBindings L temp pattern
    have (L : List Fact) := keeps_keywordBindings L subjectTemp keywords
    unfold compileKeywordBindings
    infer_instance

theorem keeps_optionBindings (K : List Fact) (subjectTemp : String) :
    ∀ options, Keeps K (compileOptionBindings routines subjectTemp options) jumps
  | [] => by unfold compileOptionBindings; infer_instance
  | [option] => by
    have (L : List Fact) := keeps_patternBindings L subjectTemp option
    unfold compileOptionBindings
    infer_instance
  | option :: other :: options => by
    have (L : List Fact) := keeps_patternBindings L subjectTemp option
    have (L : List Fact) := keeps_optionBindings L subjectTemp (other :: options)
    unfold compileOptionBindings
    infer_instance

end

instance : Safe K (compilePatternBindings routines subjectTemp pattern) :=
  keeps_patternBindings K subjectTemp pattern

/-! ## Statements -/

instance {context : FinallyReturnContext} : Safe K (emitFinallyReturnEpilogue context) := by
  unfold emitFinallyReturnEpilogue; infer_instance

instance : Safe K (compileBody routines body) := by
  unfold compileBody; infer_instance

instance : Safe K (compileIf routines test body orelse) := by
  unfold compileIf; infer_instance

instance {loopStart exitJump : Nat} [Knows K (.target loopStart)] [Knows K (.jump exitJump)] :
    Safe K (finishLoop routines loopStart exitJump orelse) := by
  unfold finishLoop; infer_instance

instance : Safe K (compileWhile routines test body orelse) := by
  unfold compileWhile; infer_instance

instance : Safe K (compileFor routines target iter body orelse) := by
  unfold compileFor; infer_instance

instance : Safe K (compileAsyncFor routines target iter body orelse) := by
  unfold compileAsyncFor; infer_instance

instance : Safe K (emitWithExit ctxTemp) := by
  unfold emitWithExit; infer_instance

instance {target : Option AssignTarget} :
    Safe K (emitWithEnter routines context target ctxTemp excTemp) := by
  cases target <;> (unfold emitWithEnter; infer_instance)

instance : Safe K (emitWithHandlerExit ctxTemp excTemp) := by
  unfold emitWithHandlerExit; infer_instance

instance {target : Option AssignTarget} : Safe K (compileWith routines context target body) := by
  unfold compileWith; infer_instance

instance {target : Option AssignTarget} :
    Safe K (compileAsyncWith routines context target body) := by
  cases target <;> (unfold compileAsyncWith; infer_instance)

instance {value cause : Option Expr} : Safe K (compileRaise routines value cause) := by
  cases value <;> cases cause <;> (unfold compileRaise; infer_instance)

instance {message : Option Expr} : Safe K (compileAssert routines test message) := by
  cases message <;> (unfold compileAssert; infer_instance)

instance {guard : Option Expr} : Keeps K (compileGuard routines guard) jumps := by
  cases guard <;> (unfold compileGuard; infer_instance)

instance {case : MatchCase} :
    Keeps K (compileMatchCase routines subjectTemp case) fun index => [.jump index] := by
  unfold compileMatchCase; infer_instance

instance {subject : Expr} {cases : List MatchCase} :
    Safe K (compileMatch routines subject cases) := by
  unfold compileMatch; infer_instance

instance {name : Option String} : Safe K (emitHandlerName name) := by
  cases name <;> (unfold emitHandlerName; infer_instance)

instance {name : Option String} : Safe K (emitHandlerBody routines name body) := by
  unfold emitHandlerBody; infer_instance

instance : Keeps K (compileExceptHandler routines handler) fun index => [.jump index] := by
  unfold compileExceptHandler
  split <;> infer_instance

instance : Keeps K (compileGuardedBody routines body orelse) fun index => [.jump index] := by
  unfold compileGuardedBody; infer_instance

instance : Safe K (compileTryExcept routines body handlers orelse) := by
  unfold compileTryExcept; infer_instance

instance {remainingName : String} :
    Safe K (compileExceptStarHandler routines remainingName handler) := by
  obtain ⟨typeExpr, name, isStar, body⟩ := handler
  cases typeExpr <;> (unfold compileExceptStarHandler; dsimp only; infer_instance)

instance : Safe K (compileTryExceptStar routines body handlers orelse) := by
  unfold compileTryExceptStar; infer_instance

instance {emitProtected : CompileM Unit} [∀ K, Safe K emitProtected] :
    Safe K (compileFinally routines emitProtected finalbody) := by
  unfold compileFinally; infer_instance

instance : Safe K (compileTry routines body handlers orelse finalbody) := by
  unfold compileTry compileTryFinally compileTryExceptStarFinally compileTryExceptFinally
  infer_instance

instance {module : String} : Safe K (emitImportAttrChain module) := by
  unfold emitImportAttrChain; infer_instance

instance : Safe K (compileImportAlias importAlias) := by
  unfold compileImportAlias; infer_instance

instance : Safe K (compileFromAlias importAlias) := by
  unfold compileFromAlias; infer_instance

instance {module : Option String} {names : List ImportAlias} {level : Nat} :
    Safe K (compileImportFrom module names level) := by
  unfold compileImportFrom; infer_instance

instance {value : Option Expr} : Safe K (compileReturn routines value) := by
  unfold compileReturn
  dsimp only
  infer_instance

theorem keeps_compileStmt (stmt : Stmt) : Safe K (compileStmt analyses routines stmt) := by
  cases stmt <;> (unfold compileStmt; infer_instance)

end Routines

/-! ## Modules -/

instance {fuel : Nat} : SoundRoutines (routines analyses fuel) := by
  induction fuel with
  | zero => exact ⟨fun _ _ => Keeps.throw, fun _ _ => Keeps.throw⟩
  | succ fuel ih => exact ⟨fun _ => keeps_compileExpr, fun _ => keeps_compileStmt⟩

instance {names : List ImportAlias} : Safe K (checkFutureFeatures names) := by
  unfold checkFutureFeatures; infer_instance

instance {seen annotations : Bool} {body : List Stmt} :
    Safe K (validateFutureStmts seen annotations body) := by
  fun_induction validateFutureStmts seen annotations body generalizing K <;> infer_instance

instance {body : List Stmt} : Safe K (validateFutureImports body) := by
  unfold validateFutureImports; infer_instance

instance {annotations : Bool} : Safe K (setFutureImports annotations) where
  run _ _ hsound _ hrun := by
    cases hrun
    exact kept_of_code_eq hsound rfl rfl (fun _ => .inl) (by simp)

instance {routines : Routines} [SoundRoutines routines] {module : Module} :
    Safe K (compileModuleBody analyses routines module) := by
  unfold compileModuleBody; infer_instance

end Compiler

open Compiler Results StableFacts

theorem wellFormed_of_compileModule {analyses : Analyses} {fuel : Nat} {formatting : Formatting}
    {module : Module} {code : CodeObject}
    (h : compileModule analyses fuel formatting module = .ok code) : code.WellFormed := by
  obtain ⟨scope, -, h⟩ := bind_eq_ok.1 h
  obtain ⟨last, hrun, h⟩ := bind_eq_ok.1 h
  cases h
  obtain ⟨mid, hbody, hfinish⟩ := exists_of_bind_eq_ok hrun
  have hmid := Keeps.run_ok (sound_new rfl rfl rfl rfl rfl) hbody
  exact (wellFormed_of_finish hmid.invariant hfinish).1

theorem wellFormed_of_compileExpression {analyses : Analyses} {fuel : Nat}
    {formatting : Formatting} {expr : Expr} {code : CodeObject}
    (h : compileExpression analyses fuel formatting expr = .ok code) : code.WellFormed := by
  obtain ⟨scope, -, h⟩ := bind_eq_ok.1 h
  obtain ⟨last, hrun, h⟩ := bind_eq_ok.1 h
  cases h
  obtain ⟨mid, hexpr, hfinish⟩ := exists_of_bind_eq_ok hrun
  have hmid := Keeps.run_ok (sound_new rfl rfl rfl rfl rfl) hexpr
  obtain ⟨recorded, hrecord, hreturn⟩ := exists_of_bind_eq_ok hfinish
  have hrecorded := Keeps.run_ok hmid.invariant hrecord
  exact (wellFormed_of_return hrecorded.invariant hreturn).1

/-- The code objects of a compilation: that of a module or an expression, and those nested in it. -/
inductive CodeObject.IsCompiled (analyses : Analyses) (formatting : Formatting) :
    CodeObject → Prop
  | module {fuel : Nat} {module : Module} {code : CodeObject}
      (h : compileModule analyses fuel formatting module = .ok code) :
      IsCompiled analyses formatting code
  | expression {fuel : Nat} {expr : Expr} {code : CodeObject}
      (h : compileExpression analyses fuel formatting expr = .ok code) :
      IsCompiled analyses formatting code
  | nested {outer inner : CodeObject} (h : IsCompiled analyses formatting outer)
      (hmem : Value.code inner ∈ outer.constants) : IsCompiled analyses formatting inner

/-- Whatever the analyses answer, compiled code is well formed. -/
theorem compiled_wellFormed {analyses : Analyses} {formatting : Formatting} {code : CodeObject}
    (h : code.IsCompiled analyses formatting) : code.WellFormed := by
  induction h with
  | module h => exact wellFormed_of_compileModule h
  | expression h => exact wellFormed_of_compileExpression h
  | nested h hmem ih =>
    obtain ⟨-, -, hnested⟩ := ih
    exact hnested _ hmem

/-- `while None: break`, and `def f(): pass`. -/
def loopAndFunction : Except CompileFailure CodeObject :=
  compileModule (plainAnalyses ∅) 3 ⟨fun _ => "", fun _ => ""⟩
    ⟨[.whileStmt (.constant .none) [.breakStmt] [],
      .functionDef "f" [] false [] [] none none [] none [.pass]]⟩

theorem exists_loopAndFunction : ∃ code, loopAndFunction = .ok code := by
  have hok : loopAndFunction.isOk := by decide +kernel
  cases h : loopAndFunction with
  | error failure => rw [h] at hok; cases hok
  | ok code => exact ⟨code, rfl⟩

theorem compiled_wellFormed_loopAndFunction : ∃ code : CodeObject,
    code.IsCompiled (plainAnalyses ∅) ⟨fun _ => "", fun _ => ""⟩ ∧ code.WellFormed := by
  obtain ⟨code, h⟩ := exists_loopAndFunction
  exact ⟨code, .module h, compiled_wellFormed (.module h)⟩

/-! ## Runs of compiled code -/

/-- The next instruction and every handler lie within the code. -/
structure Control.InCode (code : CodeObject) (control : Control) : Prop where
  ip_lt : control.ip < code.instructions.length
  handlers_lt : ∀ handler ∈ control.handlers, handler < code.instructions.length

/-- Behind an instruction that does not return there is another one. -/
theorem CodeObject.WellFormed.succ_lt {code : CodeObject} (h : code.WellFormed) {ip : Nat}
    {instr : Instruction} (hinstr : code.instructions[ip]? = some instr)
    (hopcode : instr.opcode ≠ .returnValue) : ip + 1 < code.instructions.length := by
  obtain ⟨-, hreturn, -⟩ := h
  obtain ⟨hlt, heq⟩ := List.getElem?_eq_some_iff.1 hinstr
  rw [List.getLast?_eq_getElem?] at hreturn
  refine Nat.lt_of_le_of_ne hlt fun hlast => hopcode ?_
  rw [← hlast, Nat.add_sub_cancel, hinstr] at hreturn
  rw [Option.some.inj hreturn]

theorem Control.Step.inCode {code : CodeObject} (h : code.WellFormed) {control next : Control}
    (hstep : Control.Step code control next) (hcontrol : control.InCode code) :
    next.InCode code := by
  obtain ⟨hip, hhandlers⟩ := hcontrol
  cases hstep with
  | next hinstr hopcode =>
    exact ⟨h.succ_lt hinstr fun heq => hopcode (by simp [heq]), hhandlers⟩
  | target hinstr hopcode =>
    refine ⟨?_, hhandlers⟩
    obtain ⟨hoperands, -, -⟩ := h
    have hrange := hoperands _ (List.mem_of_getElem? hinstr)
    simp only [List.mem_cons, List.not_mem_nil, or_false] at hopcode
    obtain rfl | rfl | rfl | rfl | rfl := hopcode <;> exact hrange
  | setupExcept hinstr =>
    have hsucc := h.succ_lt hinstr (by simp)
    obtain ⟨hoperands, -, -⟩ := h
    exact ⟨hsucc, List.forall_mem_cons.2 ⟨hoperands _ (List.mem_of_getElem? hinstr), hhandlers⟩⟩
  | popBlock hinstr =>
    exact ⟨h.succ_lt hinstr (by simp), (List.forall_mem_cons.1 hhandlers).2⟩
  | unwind =>
    obtain ⟨hhandler, hhandlers⟩ := List.forall_mem_cons.1 hhandlers
    exact ⟨hhandler, hhandlers⟩

/-- A frame of well-formed code never runs past the end of its instructions, and the operand of each
instruction it comes to is in range. -/
theorem wellFormed_runs_inRange {code : CodeObject} (h : code.WellFormed) {control : Control}
    (hrun : Relation.ReflTransGen (Control.Step code) ⟨0, []⟩ control) :
    ∃ instr, code.instructions[control.ip]? = some instr ∧
      instr.opcode.operand.InRange code code.instructions.length instr.arg := by
  have hstart : Control.InCode code ⟨0, []⟩ := by
    obtain ⟨-, hreturn, -⟩ := h
    exact ⟨List.length_pos_of_mem (List.mem_of_getLast? hreturn), by simp⟩
  have hcontrol : control.InCode code := by
    induction hrun with
    | refl => exact hstart
    | tail _ hstep ih => exact hstep.inCode h ih
  obtain ⟨hoperands, -, -⟩ := h
  have hinstr := List.getElem?_eq_getElem hcontrol.ip_lt
  exact ⟨_, hinstr, hoperands _ (List.mem_of_getElem? hinstr)⟩

/-- `while None:` around `try: None` with `except: pass`. -/
def guardedLoop : Except CompileFailure CodeObject :=
  compileModule (plainAnalyses ∅) 5 ⟨fun _ => "", fun _ => ""⟩
    ⟨[.whileStmt (.constant .none)
      [.tryStmt [.expr (.constant .none)] [⟨none, none, false, [.pass]⟩] [] []] []]⟩

/-- An exception in the first turn of the loop, its handler, and the end of the loop. -/
theorem wellFormed_runs_inRange_guardedLoop : ∃ code : CodeObject, guardedLoop = .ok code ∧
    Relation.ReflTransGen (Control.Step code) ⟨0, []⟩ ⟨13, []⟩ ∧
    ∃ instr, code.instructions[13]? = some instr ∧
      instr.opcode.operand.InRange code code.instructions.length instr.arg := by
  have hinstrs : guardedLoop.toOption.map CodeObject.instructions =
      some [⟨.loadConst, some 1⟩, ⟨.jumpIfFalse, some 13⟩, ⟨.setupExcept, some 7⟩,
        ⟨.loadConst, some 2⟩, ⟨.popTop, none⟩, ⟨.popBlock, none⟩, ⟨.jump, some 12⟩,
        ⟨.popTop, none⟩, ⟨.nop, none⟩, ⟨.clearException, none⟩, ⟨.jump, some 12⟩,
        ⟨.raise, some 1⟩, ⟨.jump, some 0⟩, ⟨.loadConst, some 0⟩, ⟨.returnValue, none⟩] := by
    decide +kernel
  cases h : guardedLoop with
  | error failure => rw [h] at hinstrs; cases hinstrs
  | ok code =>
    rw [h] at hinstrs
    replace hinstrs := Option.some.inj hinstrs
    have hinstr : ∀ ip : ℕ, code.instructions[ip]? = _ := fun ip => by rw [hinstrs]
    have hraises : Relation.ReflTransGen (Control.Step code) ⟨0, []⟩ ⟨4, [7]⟩ := by
      refine .tail (.tail (.tail (.tail .refl (.next (hinstr 0) (by decide)))
        (.next (hinstr 1) (by decide))) (.setupExcept (hinstr 2))) (.next (hinstr 3) (by decide))
    have hhandled : Relation.ReflTransGen (Control.Step code) ⟨7, []⟩ ⟨12, []⟩ := by
      refine .tail (.tail (.tail (.tail .refl (.next (hinstr 7) (by decide)))
        (.next (hinstr 8) (by decide))) (.next (hinstr 9) (by decide)))
        (.target (hinstr 10) (by decide))
    have hends : Relation.ReflTransGen (Control.Step code) ⟨12, []⟩ ⟨13, []⟩ := by
      refine .tail (.tail (.tail .refl (.target (hinstr 12) (by decide)))
        (.next (hinstr 0) (by decide))) (.target (hinstr 1) (by decide))
    have hrun := (hraises.tail .unwind).trans (hhandled.trans hends)
    exact ⟨code, rfl, hrun, wellFormed_runs_inRange (wellFormed_of_compileModule h) hrun⟩

end Pyrs
