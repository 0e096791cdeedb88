import Pyrs.Library.Results
import Mathlib.Tactic.Linarith
import Pyrs.Model.Translation

/-!
# The stack check of translated bytecode

CPython's operands of every translated instruction, and the paths through the code that pop and push
them.  On instructions whose effect the table of the check describes, and where paths meet with one
depth, a code that the check accepts never pops more than the stack holds.

The counts of an instruction are computed in `i32`.  A release build wraps where a debug build
panics, so both builds are in the model, and the condition keeps the counts small enough for either.
-/

namespace Pyrs.Translation

/-! ## CPython's effects -/

/-- The operands that an instruction pops, and what it pushes on each way on. -/
structure Effect where
  pops : ℕ
  branches : List (ℕ × ℕ)

/-- An effect without a jump. -/
def straight (ip pops pushes : ℕ) : Option Effect := some ⟨pops, [(ip + 1, pushes)]⟩

/-- The effect of the instruction of CPython that is translated to this one.  The jump of `FOR_ITER`
goes behind its `END_FOR` and `POP_ITER`, and the one of `SEND` takes in its `END_SEND`, which has
no effect of its own here.  An opcode that the translation does not emit has none. -/
def cpythonEffect (ip : ℕ) (instr : Instruction) : Option Effect :=
  match instr.opcode, instr.arg with
  | .nop, _ | .makeCell, _ | .deleteFast, _ | .deleteName, _ | .setupAnnotations, _ =>
    straight ip 0 0
  | .loadConst, _ | .loadName, _ | .loadLocals, _ | .loadFast, _ | .loadFastAndClear, _
  | .loadDeref, _ | .loadClosure, _ | .loadBuildClass, _ | .pushNull, _ => straight ip 0 1
  | .loadFast2, _ => straight ip 0 2
  | .loadGlobal, some arg => straight ip 0 (1 + (arg &&& 1).toNat)
  | .loadAttr, some arg => straight ip 1 (1 + (arg &&& 1).toNat)
  | .loadSuperAttr, some arg => straight ip 3 (1 + (arg &&& 1).toNat)
  | .loadSpecial, _ | .pushExcInfo, _ | .getLen, _ | .matchMapping, _ | .matchSequence, _
  | .importFromCpython, _ => straight ip 1 2
  | .storeName, _ | .storeFast, _ | .storeGlobal, _ | .storeDeref, _ | .deleteAttr, _ | .popTop, _
  | .popExcept, _ | .endFor, _ => straight ip 1 0
  | .loadFromDictOrGlobals, _ | .loadFromDictOrDeref, _ | .storeFastLoadFast, _ | .unaryNeg, _
  | .unaryNot, _ | .unaryPos, _ | .unaryInvert, _ | .convertValue, _ | .formatSimple, _
  | .callIntrinsic1, _ | .toBool, _ | .getIter, _ | .getAwaitable, _ | .yieldValue, _
  | .makeFunctionStack, _ => straight ip 1 1
  | .binaryAdd, _ | .inplaceAdd, _ | .binarySub, _ | .binaryMul, _ | .binaryMatMul, _
  | .binaryDiv, _ | .binaryPow, _ | .binaryFloorDiv, _ | .binaryMod, _ | .binaryLShift, _
  | .binaryRShift, _ | .binaryAnd, _ | .binaryXor, _ | .binaryOr, _ | .compareEq, _
  | .compareNe, _ | .compareLt, _ | .compareLe, _ | .compareGt, _ | .compareGe, _ | .compareIn, _
  | .compareNotIn, _ | .compareIs, _ | .compareIsNot, _ | .subscript, _ | .buildTemplate, _
  | .formatWithSpec, _ | .callIntrinsic2, _ | .setFunctionAttribute, _
  | .importNameCpython, _ => straight ip 2 1
  | .storeFastStoreFast, _ | .storeAttrCpython, _ | .deleteSubscript, _ => straight ip 2 0
  | .checkExcMatch, _ => straight ip 2 2
  | .matchKeys, _ => straight ip 2 3
  | .matchClass, _ | .binarySlice, _ => straight ip 3 1
  | .storeSubscript, some arg => if arg = 1 then straight ip 3 0 else none
  | .storeSlice, _ => straight ip 4 0
  | .callFunctionEx, _ => straight ip 4 1
  | .withExceptStart, _ => straight ip 5 6
  | .copy, some depth => straight ip depth.toNat (depth.toNat + 1)
  | .swap, some depth => straight ip depth.toNat depth.toNat
  | .buildList, some count | .buildSet, some count | .buildTuple, some count
  | .buildString, some count | .buildSlice, some count => straight ip count.toNat 1
  | .buildInterpolation, some arg => straight ip (2 + (arg &&& 1).toNat) 1
  | .buildDict, some count => straight ip (count.toNat * 2) 1
  | .listAppend, some oparg | .setAdd, some oparg | .listExtend, some oparg
  | .setUpdate, some oparg | .dictUpdate, some oparg =>
    straight ip (oparg.toNat + 1) oparg.toNat
  -- The callable of the call and what goes with it lie below the dict.
  | .dictMerge, some oparg => straight ip (5 + (oparg.toNat - 1)) (4 + (oparg.toNat - 1))
  | .mapAdd, some oparg => straight ip (oparg.toNat + 2) oparg.toNat
  | .unpackSequenceCpython, some count => straight ip 1 count.toNat
  | .unpackExCpython, some counts =>
    straight ip 1 ((counts &&& 0xFF).toNat + (counts >>> 8).toNat + 1)
  | .jumpIfFalse, some target | .jumpIfTrue, some target | .jumpIfNone, some target
  | .jumpIfNotNone, some target => some ⟨1, [(ip + 1, 0), (target.toNat, 0)]⟩
  | .jump, some target => some ⟨0, [(target.toNat, 0)]⟩
  | .forIter, some target => some ⟨1, [(ip + 1, 2), (target.toNat, 0)]⟩
  | .send, some target => some ⟨2, [(ip + 1, 2), (target.toNat, 1)]⟩
  | .callCpython, some arg => straight ip ((arg &&& 0xFFFF).toNat + 2) 1
  | .callCpythonKwStack, some argc => straight ip (argc.toNat + 3) 1
  | .raise, some argc => some ⟨argc.toNat, []⟩
  | .reraise, some oparg => some ⟨oparg.toNat + 1, []⟩
  | .returnValue, _ => some ⟨1, []⟩
  | .returnConst, _ => some ⟨0, []⟩
  | _, _ => none

/-- A path through the code, with the depth of the stack at its end. -/
inductive Reaches (instructions : List Instruction) : ℕ → ℕ → Prop
  | start : Reaches instructions 0 0
  | step {ip depth : ℕ} {instr : Instruction} {effect : Effect} {target pushes : ℕ}
      (path : Reaches instructions ip depth) (hinstr : instructions[ip]? = some instr)
      (heffect : cpythonEffect ip instr = some effect) (hpops : effect.pops ≤ depth)
      (hbranch : (target, pushes) ∈ effect.branches) :
      Reaches instructions target (depth - effect.pops + pushes)

/-- The instructions that the table of the check describes.  The others are operators that it lacks,
instructions whose operands it does not ask for, calls whose `NULL` or `self` it does not count, a
`DICT_MERGE` whose call it does not count, and counts that it does not read as CPython does. -/
def Described (instr : Instruction) : Prop :=
  match instr.opcode, instr.arg with
  | .inplaceAdd, _ | .binaryMatMul, _ | .binaryLShift, _ | .binaryRShift, _ | .binaryAnd, _
  | .binaryXor, _ | .binaryOr, _ | .getLen, _ | .matchKeys, _ | .matchMapping, _
  | .matchSequence, _ | .endFor, _ | .reraise, _ | .returnValue, _ | .callCpython, _
  | .callCpythonKwStack, _ | .dictMerge, _ => False
  | .raise, some argc => argc = 0
  | .unpackExCpython, some counts => counts.toNat < 2 ^ 8
  | .buildList, some count | .buildSet, some count | .buildTuple, some count
  | .buildString, some count | .unpackSequenceCpython, some count => count.toNat < 2 ^ 31
  | .buildDict, some count | .listAppend, some count | .setAdd, some count
  | .listExtend, some count | .setUpdate, some count | .dictUpdate, some count
  | .mapAdd, some count => count.toNat < 2 ^ 30
  | _, _ => True

/-! ## The table -/

/-- Successors are those of an effect. -/
def FollowsEffect (stackDepth : ℤ) (successors : List (ℕ × ℤ)) (effect : Effect) : Prop :=
  effect.pops ≤ stackDepth ∧
    (successors = effect.branches.map fun branch =>
      (branch.1, stackDepth - effect.pops + branch.2)) ∧
    ∀ successor ∈ successors, successor.2 < 2 ^ 31

/-- What the loop checks of depths. -/
def Nonnegative (successors : List (ℕ × ℤ)) : Prop := ∀ successor ∈ successors, 0 ≤ successor.2

variable {checks : Bool} {ip : ℕ} {stackDepth : ℤ} {instr : Instruction} {successors : List (ℕ × ℤ)}

lemma required_eq_ok {text : String} {arg : UInt32} {β : Type} {rest : UInt32 → Checked β}
    {result : β} (h : (required text (some arg) >>= rest) = .ok result) :
    rest arg = .ok result := h

lemma i32_eq_ok {value result : ℤ} (h : i32 checks value = .ok result) :
    result = value.bmod (2 ^ 32) := by
  rw [i32] at h
  split at h
  · cases h
  · cases h
    rfl

/-- A wrapped sum of two depths is negative. -/
lemma i32_ok {value result : ℤ} (h : i32 checks value = .ok result) (hvalue : 0 ≤ value)
    (hlt : value < 2 ^ 32) (hresult : 0 ≤ result) : result = value := by
  have heq := i32_eq_ok h
  rw [Int.bmod_def] at heq
  split at heq <;> omega

lemma i32_lt {value result : ℤ} (h : i32 checks value = .ok result) : result < 2 ^ 31 := by
  have hlt : value.bmod (2 ^ 32) < ((2 ^ 32 : ℕ) + 1) / 2 := Int.bmod_lt (by decide)
  rw [i32_eq_ok h]
  exact hlt

/-- What is in range is not wrapped. -/
lemma i32_of_lt {value result : ℤ} (h : i32 checks value = .ok result) (hvalue : 0 ≤ value)
    (hlt : value < 2 ^ 31) : result = value := by
  have heq := i32_eq_ok h
  rw [Int.bmod_def] at heq
  split at heq <;> omega

lemma pop_ok {count depth : ℤ} (hcount : 0 ≤ count) (hdepth : stackDepth < 2 ^ 31)
    (h : pop checks ip stackDepth instr count = .ok depth) :
    count ≤ stackDepth ∧ depth = stackDepth - count := by
  rw [pop] at h
  split at h
  · cases h
  · next hle => exact ⟨not_lt.1 hle, i32_of_lt h (by omega) (by omega)⟩

lemma jump_follows (hdepth : 0 ≤ stackDepth ∧ stackDepth < 2 ^ 31) (target : ℕ) :
    FollowsEffect stackDepth [(target, stackDepth)] ⟨0, [(target, 0)]⟩ :=
  ⟨by simpa using hdepth.1, by simp, by simpa using hdepth.2⟩

lemma push_follows {pushes : ℕ} {count : ℤ} (hcount : count = pushes)
    (hpushes : pushes ≤ 2 ^ 31) (hdepth : 0 ≤ stackDepth ∧ stackDepth < 2 ^ 31)
    (hdepths : Nonnegative successors) (h : push checks ip stackDepth count = .ok successors) :
    FollowsEffect stackDepth successors ⟨0, [(ip + 1, pushes)]⟩ := by
  obtain ⟨sum, hsum, hresult⟩ := Results.bind_eq_ok.1 h
  cases hresult
  have hlt := i32_lt hsum
  rw [i32_ok hsum (by omega) (by omega) (hdepths _ List.mem_cons_self), hcount] at hlt ⊢
  exact ⟨by simpa using hdepth.1, by simp, by simpa using hlt⟩

lemma next_follows {pops pushes : ℕ} {popped pushed : ℤ} (hpopped : popped = pops)
    (hpushed : pushed = pushes) (hpushes : pushes ≤ 2 ^ 31)
    (hdepth : 0 ≤ stackDepth ∧ stackDepth < 2 ^ 31) (hdepths : Nonnegative successors)
    (h : next checks ip stackDepth instr popped pushed = .ok successors) :
    FollowsEffect stackDepth successors ⟨pops, [(ip + 1, pushes)]⟩ := by
  obtain ⟨depth, hpop, hrest⟩ := Results.bind_eq_ok.1 h
  obtain ⟨sum, hsum, hresult⟩ := Results.bind_eq_ok.1 hrest
  obtain ⟨hle, rfl⟩ := pop_ok (by omega) hdepth.2 hpop
  cases hresult
  have hlt := i32_lt hsum
  rw [i32_ok hsum (by omega) (by omega) (hdepths _ List.mem_cons_self), hpopped, hpushed] at hlt ⊢
  rw [hpopped] at hle
  exact ⟨hle, rfl, by simpa using hlt⟩

lemma positive_ok {name : String} {arg least : ℤ} (h : positive ip name arg least = .ok ()) :
    least ≤ arg := by
  rw [positive] at h
  split at h
  · cases h
  · next hle => exact not_lt.1 hle

/-! ## Arguments -/

lemma bmod_eq_ite {value : ℕ} (h : value < 2 ^ 32) :
    (value : ℤ).bmod (2 ^ 32) = if value < 2 ^ 31 then (value : ℤ) else value - 2 ^ 32 := by
  rw [Int.bmod_def]
  split
  · omega
  · omega

lemma asI32_eq_ite (arg : UInt32) :
    asI32 arg = if arg.toNat < 2 ^ 31 then (arg.toNat : ℤ) else arg.toNat - 2 ^ 32 :=
  bmod_eq_ite arg.toNat_lt

lemma asI32_eq {a : UInt32} (h : a.toNat < 2 ^ 31) : asI32 a = a.toNat := by
  rw [asI32_eq_ite, if_pos h]

lemma asI32_of_nonneg {arg : UInt32} (h : 0 ≤ asI32 arg) : asI32 arg = arg.toNat := by
  have hlt := arg.toNat_lt
  rw [asI32_eq_ite] at h ⊢
  split at h
  · next hsmall => rw [if_pos hsmall]
  · omega

lemma asI32_eq_of_le {arg : UInt32} {least : ℤ} (hleast : 0 ≤ least) (h : least ≤ asI32 arg) :
    asI32 arg = arg.toNat := asI32_of_nonneg (hleast.trans h)

lemma asI32_lt (arg : UInt32) : asI32 arg < 2 ^ 31 := by
  have hlt := arg.toNat_lt
  rw [asI32_eq_ite]
  split <;> omega

lemma toNat_and_le (arg mask : UInt32) : (arg &&& mask).toNat ≤ mask.toNat := by
  rw [UInt32.toNat_and]
  exact Nat.and_le_right

lemma asI32_and {arg mask : UInt32} (h : mask.toNat < 2 ^ 31) :
    asI32 (arg &&& mask) = (arg &&& mask).toNat :=
  asI32_eq ((toNat_and_le arg mask).trans_lt h)

/-- The lowest bit of an argument. -/
lemma and_one_cases (arg : UInt32) : arg &&& 1 = 0 ∨ arg &&& 1 = 1 := by
  have hle := toNat_and_le arg 1
  rw [← UInt32.toNat_inj, ← UInt32.toNat_inj]
  have hone : (1 : UInt32).toNat = 1 := rfl
  have hzero : (0 : UInt32).toNat = 0 := rfl
  omega

lemma ite_and_one (arg : UInt32) :
    (if arg &&& 1 = 1 then 2 else 1 : ℤ) = (1 + (arg &&& 1).toNat : ℕ) := by
  rcases and_one_cases arg with h | h
  · rw [h]
    rfl
  · rw [h]
    rfl

lemma one_add_and_one (arg : UInt32) : 1 + asI32 (arg &&& 1) = (1 + (arg &&& 1).toNat : ℕ) := by
  rw [asI32_and (by decide), Nat.cast_add, Nat.cast_one]

lemma ite_and_one_ne (arg : UInt32) :
    (if arg &&& 1 ≠ 0 then 3 else 2 : ℤ) = (2 + (arg &&& 1).toNat : ℕ) := by
  rcases and_one_cases arg with h | h
  · rw [h]
    rfl
  · rw [h]
    rfl

lemma add_and_one_le (n : ℕ) (hn : n < 2 ^ 31) (arg : UInt32) :
    n + (arg &&& 1).toNat ≤ 2 ^ 31 := by
  have hle := toNat_and_le arg 1
  have hone : (1 : UInt32).toNat = 1 := rfl
  omega

/-- The two readings of the sizes of an unpacking agree where only the first is given. -/
lemma unpackEx_counts (arg : UInt32) (h : arg.toNat < 2 ^ 8) :
    asI32 (arg &&& 0xFFFF) + asI32 (arg >>> 16) + 1 =
      ((arg &&& 0xFF).toNat + (arg >>> 8).toNat + 1 : ℕ) := by
  have hhigh : (arg >>> 16).toNat = 0 := by
    rw [UInt32.toNat_shiftRight]
    exact Nat.shiftRight_eq_zero _ _ (h.trans (by decide))
  have hafter : (arg >>> 8).toNat = 0 := by
    rw [UInt32.toNat_shiftRight]
    exact Nat.shiftRight_eq_zero _ _ h
  have hlow : (arg &&& 0xFFFF).toNat = arg.toNat := by
    rw [UInt32.toNat_and]
    exact Nat.and_two_pow_sub_one_of_lt_two_pow (n := 16) (h.trans (by norm_num))
  have hbefore : (arg &&& 0xFF).toNat = arg.toNat := by
    rw [UInt32.toNat_and]
    exact Nat.and_two_pow_sub_one_of_lt_two_pow (n := 8) h
  rw [asI32_and (by decide), asI32_eq (by rw [hhigh]; norm_num), hhigh, hafter, hlow, hbefore]
  push_cast
  rfl

/-- **The table follows CPython** on the instructions that it describes. -/
lemma effect_follows {effect : Effect} (hdescribed : Described instr)
    (heffect : cpythonEffect ip instr = some effect)
    (hdepth : 0 ≤ stackDepth ∧ stackDepth < 2 ^ 31) (hdepths : Nonnegative successors)
    (h : Translation.effect checks ip stackDepth instr = .ok successors) :
    FollowsEffect stackDepth successors effect := by
  obtain ⟨opcode, arg⟩ := instr
  cases opcode
  case nop | makeCell | deleteFast | deleteName | setupAnnotations =>
    cases heffect
    cases h
    exact jump_follows hdepth _
  case loadConst | loadName | loadLocals | loadFast | loadFastAndClear | loadDeref | loadClosure |
      loadBuildClass | pushNull | loadFast2 =>
    cases heffect
    exact push_follows rfl (by decide) hdepth hdepths h
  case loadSpecial | pushExcInfo | importFromCpython | storeName | storeFast | storeGlobal |
      storeDeref | deleteAttr | popTop | popExcept | loadFromDictOrGlobals | loadFromDictOrDeref |
      storeFastLoadFast | unaryNeg | unaryNot | unaryPos | unaryInvert | convertValue |
      formatSimple | callIntrinsic1 | toBool | getIter | getAwaitable | yieldValue |
      makeFunctionStack | binaryAdd | binarySub | binaryMul | binaryDiv | binaryPow |
      binaryFloorDiv | binaryMod | compareEq | compareNe | compareLt | compareLe | compareGt |
      compareGe | compareIn | compareNotIn | compareIs | compareIsNot | subscript | buildTemplate |
      formatWithSpec | callIntrinsic2 | setFunctionAttribute | importNameCpython |
      storeFastStoreFast | storeAttrCpython | deleteSubscript | checkExcMatch | matchClass |
      binarySlice | storeSlice | callFunctionEx | withExceptStart =>
    cases heffect
    exact next_follows rfl rfl (by decide) hdepth hdepths h
  case inplaceAdd | binaryMatMul | binaryLShift | binaryRShift | binaryAnd | binaryXor | binaryOr |
      getLen | matchKeys | matchMapping | matchSequence | endFor | reraise | returnValue |
      callCpython | callCpythonKwStack | dictMerge =>
    exact absurd hdescribed id
  case storeAttr | binarySubConst | compareLtConst | makeFunction | buildClass |
      callFunction | callFunction1 | callFunctionKw | callFunctionVar | importName |
      unpackSequence | unpackEx | dictSet | dupTop | setupExcept | popBlock | matchException |
      matchExceptionStar | clearException | yieldFrom =>
    cases heffect
  case returnConst =>
    cases heffect
    cases h
    exact ⟨by simpa using hdepth.1, rfl, by simp⟩
  all_goals
    cases arg
    case none => cases heffect
  case loadGlobal.some arg =>
    cases heffect
    exact push_follows (ite_and_one arg) (add_and_one_le 1 (by decide) arg) hdepth hdepths h
  case loadAttr.some arg | loadSuperAttr.some arg =>
    cases heffect
    exact next_follows rfl (one_add_and_one arg) (add_and_one_le 1 (by decide) arg) hdepth hdepths h
  case copy.some arg =>
    cases heffect
    obtain ⟨_, hpositive, hnext⟩ := Results.bind_eq_ok.1 (required_eq_ok h)
    have harg := asI32_eq_of_le (by decide) (positive_ok hpositive)
    have hlt := asI32_lt arg
    exact next_follows harg (by rw [harg, Nat.cast_add, Nat.cast_one]) (by omega) hdepth hdepths
      hnext
  case swap.some arg =>
    cases heffect
    obtain ⟨_, hpositive, hnext⟩ := Results.bind_eq_ok.1 (required_eq_ok h)
    have harg := asI32_eq_of_le (by decide) (positive_ok hpositive)
    have hlt := asI32_lt arg
    exact next_follows harg harg (by omega) hdepth hdepths hnext
  case buildList.some arg | buildSet.some arg | buildTuple.some arg | buildString.some arg =>
    cases heffect
    have harg := asI32_eq (a := arg) (by simpa [Described] using hdescribed)
    have hnext := required_eq_ok h
    exact next_follows harg rfl (by decide) hdepth hdepths hnext
  case buildDict.some arg =>
    cases heffect
    obtain ⟨count, hcount, hnext⟩ := Results.bind_eq_ok.1 (required_eq_ok h)
    have hlt : arg.toNat < 2 ^ 30 := by simpa [Described] using hdescribed
    have harg : asI32 arg = arg.toNat := asI32_eq (by omega)
    have hpops : count = (arg.toNat * 2 : ℕ) := by
      rw [i32_of_lt hcount (by omega) (by omega), harg, Nat.cast_mul, Nat.cast_two]
    exact next_follows hpops rfl (by decide) hdepth hdepths hnext
  case listAppend.some arg | setAdd.some arg | listExtend.some arg | setUpdate.some arg |
      mapAdd.some arg =>
    cases heffect
    obtain ⟨_, hpositive, hrest⟩ := Results.bind_eq_ok.1 (required_eq_ok h)
    obtain ⟨count, hcount, hnext⟩ := Results.bind_eq_ok.1 hrest
    have hlt : arg.toNat < 2 ^ 30 := by simpa [Described] using hdescribed
    have harg : asI32 arg = arg.toNat := asI32_eq (by omega)
    refine next_follows ?_ harg (by omega) hdepth hdepths hnext
    rw [i32_of_lt hcount (by omega) (by omega), harg, Nat.cast_add]
    rfl
  case dictUpdate.some arg =>
    cases heffect
    obtain ⟨_, hpositive, hrest⟩ := Results.bind_eq_ok.1 h
    obtain ⟨count, hcount, hnext⟩ := Results.bind_eq_ok.1 hrest
    have hlt : arg.toNat < 2 ^ 30 := by simpa [Described] using hdescribed
    have harg : asI32 arg = arg.toNat := asI32_eq (by omega)
    have hcount : i32 checks (asI32 arg + 1) = .ok count := hcount
    have hpops : count = (arg.toNat + 1 : ℕ) := by
      rw [i32_of_lt hcount (by omega) (by omega), harg, Nat.cast_add, Nat.cast_one]
    exact next_follows hpops harg (by omega) hdepth hdepths hnext
  case buildInterpolation.some arg =>
    cases heffect
    exact next_follows (ite_and_one_ne arg) rfl (by decide) hdepth hdepths (required_eq_ok h)
  case buildSlice.some arg =>
    cases heffect
    have h : (if asI32 arg ≠ 2 ∧ asI32 arg ≠ 3 then
        .error (.invalidArg "BUILD_SLICE" (asI32 arg) ip)
      else next checks ip stackDepth ⟨.buildSlice, some arg⟩ (asI32 arg) 1) = .ok successors := h
    split at h
    · cases h
    · exact next_follows (asI32_of_nonneg (by omega)) rfl (by decide) hdepth hdepths h
  case unpackSequenceCpython.some arg =>
    cases heffect
    have hlt : arg.toNat < 2 ^ 31 := by simpa [Described] using hdescribed
    have hnext := required_eq_ok h
    exact next_follows rfl (asI32_eq hlt) hlt.le hdepth hdepths hnext
  case unpackExCpython.some arg =>
    cases heffect
    have hcounts := unpackEx_counts arg (by simpa [Described] using hdescribed)
    have hnext := required_eq_ok h
    have hbefore := toNat_and_le arg 0xFF
    have hafter : (arg >>> 8).toNat ≤ arg.toNat := by
      rw [UInt32.toNat_shiftRight]
      exact Nat.shiftRight_le _ _
    have hlt : arg.toNat < 2 ^ 8 := by simpa [Described] using hdescribed
    have hmask : (0xFF : UInt32).toNat = 255 := rfl
    exact next_follows rfl hcounts (by omega) hdepth hdepths hnext
  case storeSubscript.some arg =>
    by_cases harg : arg = 1
    · subst harg
      cases heffect
      exact next_follows rfl rfl (by decide) hdepth hdepths h
    · have heffect : (if arg = 1 then straight ip 3 0 else none) = some effect := heffect
      rw [if_neg harg] at heffect
      cases heffect
  case jumpIfFalse.some target | jumpIfTrue.some target | jumpIfNone.some target |
      jumpIfNotNone.some target =>
    cases heffect
    obtain ⟨depth, hpop, hresult⟩ := Results.bind_eq_ok.1 (required_eq_ok h)
    obtain ⟨hle, rfl⟩ := pop_ok (by decide) hdepth.2 hpop
    cases hresult
    exact ⟨hle, by simp, by simp; omega⟩
  case jump.some target =>
    cases heffect
    cases h
    exact jump_follows hdepth _
  case raise.some argc =>
    cases heffect
    cases h
    have hzero : argc = 0 := hdescribed
    subst hzero
    exact ⟨by simpa using hdepth.1, rfl, by simp⟩
  case forIter.some target =>
    cases heffect
    obtain ⟨depth, hpop, hrest⟩ := Results.bind_eq_ok.1 (required_eq_ok h)
    obtain ⟨sum, hsum, hresult⟩ := Results.bind_eq_ok.1 hrest
    obtain ⟨hle, rfl⟩ := pop_ok (by decide) hdepth.2 hpop
    cases hresult
    have hlt := i32_lt hsum
    rw [i32_ok hsum (by omega) (by omega) (hdepths _ List.mem_cons_self)] at hlt ⊢
    exact ⟨hle, by simp, by simp; omega⟩
  case send.some target =>
    cases heffect
    obtain ⟨depth, hpop, hrest⟩ := Results.bind_eq_ok.1 (required_eq_ok h)
    obtain ⟨sum, hsum, hrest⟩ := Results.bind_eq_ok.1 hrest
    obtain ⟨jumped, hjumped, hresult⟩ := Results.bind_eq_ok.1 hrest
    obtain ⟨hle, rfl⟩ := pop_ok (by decide) hdepth.2 hpop
    cases hresult
    have hlt := i32_lt hsum
    rw [i32_of_lt hjumped (by omega) (by omega),
      i32_ok hsum (by omega) (by omega) (hdepths _ List.mem_cons_self)] at *
    exact ⟨hle, by simp, by simp; omega⟩

/-! ## The check -/

variable {instructions : List Instruction}

/-- The depth that the check keeps is one that a path has. -/
def Justified (instructions : List Instruction) (entry : ℕ × ℤ) : Prop :=
  ∃ depth : ℕ, Reaches instructions entry.1 depth ∧ entry.2 = depth ∧ entry.2 < 2 ^ 31

/-- An instruction that the check has looked at; what comes behind it is closed, too. -/
def Processed (checks : Bool) (instructions : List Instruction) (closed : Finset ℕ) (ip : ℕ) :
    Prop :=
  ∃ (depth : ℕ) (instr : Instruction) (successors : List (ℕ × ℤ)), Reaches instructions ip depth ∧
    depth < 2 ^ 31 ∧ instructions[ip]? = some instr ∧
    effect checks ip depth instr = .ok successors ∧ Nonnegative successors ∧
    ∀ successor ∈ successors, successor.1 < instructions.length → successor.1 ∈ closed

/-- What follows an instruction with an effect is justified by the paths through it. -/
lemma justified_successors {depth : ℕ} {effect : Effect} (hreaches : Reaches instructions ip depth)
    (hinstr : instructions[ip]? = some instr) (heffect : cpythonEffect ip instr = some effect)
    (hfollows : FollowsEffect depth successors effect) :
    ∀ successor ∈ successors, Justified instructions successor := by
  obtain ⟨hpops, rfl, hlt⟩ := hfollows
  intro successor hmem
  have hlt := hlt successor hmem
  obtain ⟨⟨target, pushes⟩, hbranch, rfl⟩ := List.mem_map.1 hmem
  have hpops : effect.pops ≤ depth := by exact_mod_cast hpops
  refine ⟨_, hreaches.step hinstr heffect hpops hbranch, ?_, hlt⟩
  rw [Nat.cast_add, Nat.cast_sub hpops]

lemma validateLoop_nil (seen : Finset ℕ) : validateLoop checks instructions [] seen = .ok () := by
  rw [validateLoop]

/-- A round that looks at an instruction. -/
lemma validateLoop_round {queue : List (ℕ × ℤ)} {seen : Finset ℕ} (hlt : ip < instructions.length)
    (hnew : ip ∉ seen)
    (hsuccessors : translatedSuccessors checks ip stackDepth instructions[ip] instructions.length =
      .ok successors)
    (hcheck : checkSuccessors ip instructions[ip].opcode instructions.length successors = .ok ()) :
    validateLoop checks instructions ((ip, stackDepth) :: queue) seen =
      validateLoop checks instructions (queue ++ successors) (insert ip seen) := by
  rw [validateLoop, dif_pos hlt, if_neg hnew, hsuccessors]
  simp only [hcheck]

lemma translatedSuccessors_ok {codeLen : ℕ}
    (h : translatedSuccessors checks ip stackDepth instr codeLen = .ok successors) :
    effect checks ip stackDepth instr = .ok successors := by
  obtain ⟨_, heffect, hresult⟩ := Results.bind_eq_ok.1 h
  split at hresult
  · cases hresult
  · cases hresult
    exact heffect

lemma nonnegative_of_check {opcode : Opcode} {codeLen : ℕ}
    (h : checkSuccessors ip opcode codeLen successors = .ok ()) : Nonnegative successors := by
  induction successors with
  | nil => exact fun _ hmem => absurd hmem List.not_mem_nil
  | cons successor successors ih =>
    rw [checkSuccessors] at h
    split at h
    · cases h
    split at h
    · cases h
    · next hle _ => exact List.forall_mem_cons.2 ⟨not_lt.1 hle, ih h⟩

/-- The code consists of instructions that the translation emits. -/
def Translated (instructions : List Instruction) : Prop :=
  ∀ ip instr, instructions[ip]? = some instr → (cpythonEffect ip instr).isSome

/-- The table describes every instruction that a path arrives at. -/
def PathsDescribed (instructions : List Instruction) : Prop :=
  ∀ ip depth instr, Reaches instructions ip depth → instructions[ip]? = some instr → Described instr

/-- Paths that meet have one depth. -/
def PathsAgree (instructions : List Instruction) : Prop :=
  ∀ ip depth depth', Reaches instructions ip depth → Reaches instructions ip depth' →
    depth = depth'

/-- The loop looks at everything that its queue leads to. -/
lemma validateLoop_closed (htranslated : Translated instructions)
    (hdescribed : PathsDescribed instructions) {queue : List (ℕ × ℤ)} {seen : Finset ℕ}
    (hqueue : ∀ entry ∈ queue, Justified instructions entry)
    (h : validateLoop checks instructions queue seen = .ok ()) :
    ∃ closed : Finset ℕ, seen ⊆ closed ∧
      (∀ entry ∈ queue, entry.1 < instructions.length → entry.1 ∈ closed) ∧
      ∀ ip ∈ closed, ip ∈ seen ∨ Processed checks instructions closed ip := by
  fun_induction validateLoop checks instructions queue seen with
  | case1 seen =>
    exact ⟨seen, Finset.Subset.refl _, fun _ hmem => absurd hmem List.not_mem_nil,
      fun _ hmem => .inl hmem⟩
  | case2 seen ip stackDepth queue hlt hseen ih =>
    obtain ⟨closed, hsubset, hclosed, hprocessed⟩ := ih (List.forall_mem_cons.1 hqueue).2 h
    exact ⟨closed, hsubset, List.forall_mem_cons.2 ⟨fun _ => hsubset hseen, hclosed⟩, hprocessed⟩
  | case3 => cases h
  | case4 => cases h
  | case5 seen ip stackDepth queue hlt hseen successors hsuccessors hcheck ih =>
    obtain ⟨⟨depth, hreaches, hdepth, hentry⟩, hrest⟩ := List.forall_mem_cons.1 hqueue
    obtain rfl : stackDepth = depth := hdepth
    have hsmall : (depth : ℤ) < 2 ^ 31 := hentry
    have hnonnegative := nonnegative_of_check hcheck
    have hinstr : instructions[ip]? = some instructions[ip] := List.getElem?_eq_getElem hlt
    obtain ⟨effect, heffect⟩ := Option.isSome_iff_exists.1 (htranslated ip _ hinstr)
    have hok := translatedSuccessors_ok hsuccessors
    have hfollows := effect_follows (hdescribed ip depth _ hreaches hinstr) heffect
      ⟨Int.natCast_nonneg _, hsmall⟩ hnonnegative hok
    have hjustified := justified_successors hreaches hinstr heffect hfollows
    obtain ⟨closed, hsubset, hclosed, hprocessed⟩ :=
      ih (List.forall_mem_append.2 ⟨hrest, hjustified⟩) h
    obtain ⟨hclosed, hsuccessorsClosed⟩ := List.forall_mem_append.1 hclosed
    have hmem : ip ∈ closed := hsubset (Finset.mem_insert_self _ _)
    refine ⟨closed, (Finset.subset_insert _ _).trans hsubset,
      List.forall_mem_cons.2 ⟨fun _ => hmem, hclosed⟩, fun other hother => ?_⟩
    rcases hprocessed other hother with hseenOther | hprocessedOther
    · rcases Finset.mem_insert.1 hseenOther with rfl | hseenOther
      · have hsmall : depth < 2 ^ 31 := by exact_mod_cast hsmall
        exact .inr ⟨depth, _, successors, hreaches, hsmall, hinstr, hok, hnonnegative,
          hsuccessorsClosed⟩
      · exact .inl hseenOther
    · exact .inr hprocessedOther
  | case6 seen ip stackDepth queue hlarge ih =>
    obtain ⟨closed, hsubset, hclosed, hprocessed⟩ := ih (List.forall_mem_cons.1 hqueue).2 h
    exact ⟨closed, hsubset, List.forall_mem_cons.2 ⟨fun hlt => absurd hlt hlarge, hclosed⟩,
      hprocessed⟩

/-- What the check has looked at follows CPython. -/
lemma Processed.follows {closed : Finset ℕ} {effect : Effect}
    (hdescribed : PathsDescribed instructions) (h : Processed checks instructions closed ip)
    (hinstr : instructions[ip]? = some instr) (heffect : cpythonEffect ip instr = some effect) :
    ∃ (depth : ℕ) (successors : List (ℕ × ℤ)), Reaches instructions ip depth ∧
      FollowsEffect depth successors effect ∧
      ∀ successor ∈ successors, successor.1 < instructions.length → successor.1 ∈ closed := by
  obtain ⟨depth, stored, successors, hreaches, hlt, hstored, hok, hnonnegative, hclosed⟩ := h
  obtain rfl : stored = instr := by
    rw [hinstr] at hstored
    exact (Option.some.inj hstored).symm
  exact ⟨depth, successors, hreaches, effect_follows (hdescribed ip depth _ hreaches hinstr) heffect
    ⟨Int.natCast_nonneg _, by exact_mod_cast hlt⟩ hnonnegative hok, hclosed⟩

/-- The check looks at everything that a path arrives at. -/
lemma reaches_closed {closed : Finset ℕ} (hdescribed : PathsDescribed instructions)
    (hstart : 0 < instructions.length → 0 ∈ closed)
    (hprocessed : ∀ ip ∈ closed, Processed checks instructions closed ip) {ip depth : ℕ}
    (hpath : Reaches instructions ip depth) : ip < instructions.length → ip ∈ closed := by
  induction hpath with
  | start => exact hstart
  | @step ip depth instr effect target pushes path hinstr heffect hpops hbranch ih =>
    intro hlt
    have hmem : ip ∈ closed := ih (List.getElem?_eq_some_iff.1 hinstr).1
    obtain ⟨kept, successors, -, ⟨-, hsuccessors, -⟩, hclosed⟩ :=
      (hprocessed ip hmem).follows hdescribed hinstr heffect
    have hsuccessor : (target, (kept : ℤ) - effect.pops + pushes) ∈ successors := by
      rw [hsuccessors]
      exact List.mem_map.2 ⟨(target, pushes), hbranch, rfl⟩
    exact hclosed _ hsuccessor hlt

/-- **A code that the check accepts never pops more than its stack holds**, as far as the table
describes its instructions and its paths meet with one depth. -/
theorem validated_paths_never_underflow (checks : Bool) (htranslated : Translated instructions)
    (haccepted : validateTranslatedCode checks instructions = .ok ())
    (hdescribed : PathsDescribed instructions) (hagree : PathsAgree instructions)
    {ip depth : ℕ} {instr : Instruction} {effect : Effect} (hpath : Reaches instructions ip depth)
    (hinstr : instructions[ip]? = some instr) (heffect : cpythonEffect ip instr = some effect) :
    effect.pops ≤ depth := by
  have hstart : ∀ entry ∈ [((0 : ℕ), (0 : ℤ))], Justified instructions entry := by
    intro entry hmem
    obtain rfl := List.mem_singleton.1 hmem
    exact ⟨0, .start, rfl, by decide⟩
  obtain ⟨closed, -, hqueue, hprocessed⟩ :=
    validateLoop_closed htranslated hdescribed hstart haccepted
  have hprocessed : ∀ ip ∈ closed, Processed checks instructions closed ip := by
    intro ip hmem
    rcases hprocessed ip hmem with hseen | hprocessed
    · exact absurd hseen (Finset.notMem_empty ip)
    · exact hprocessed
  have hmem : ip ∈ closed :=
    reaches_closed hdescribed (fun hlt => hqueue _ List.mem_cons_self hlt) hprocessed hpath
      (List.getElem?_eq_some_iff.1 hinstr).1
  obtain ⟨kept, successors, hreaches, ⟨hpops, -⟩, -⟩ :=
    (hprocessed ip hmem).follows hdescribed hinstr heffect
  have hdepth : kept = depth := hagree ip kept depth hreaches hpath
  rw [← hdepth]
  exact_mod_cast hpops

/-! ## Two codes -/

/-- A constant that is dropped. -/
def dropConstant : List Instruction :=
  [⟨.loadConst, some 0⟩, ⟨.popTop, none⟩, ⟨.returnConst, some 0⟩]

lemma dropConstant_reaches (h : Reaches dropConstant ip depth) :
    (ip, depth) ∈ [(0, 0), (1, 1), (2, 0)] := by
  induction h with
  | start => exact List.mem_cons_self
  | step path hinstr heffect hpops hbranch ih =>
    simp only [List.mem_cons, List.not_mem_nil, or_false, Prod.mk.injEq] at ih
    rcases ih with ⟨rfl, rfl⟩ | ⟨rfl, rfl⟩ | ⟨rfl, rfl⟩
    · cases hinstr
      cases heffect
      obtain ⟨rfl, rfl⟩ := Prod.mk.inj (List.mem_singleton.1 hbranch)
      decide
    · cases hinstr
      cases heffect
      obtain ⟨rfl, rfl⟩ := Prod.mk.inj (List.mem_singleton.1 hbranch)
      decide
    · cases hinstr
      cases heffect
      cases hbranch

lemma dropConstant_agree : PathsAgree dropConstant := by
  intro ip depth depth' h h'
  have hmem := dropConstant_reaches h
  have hmem' := dropConstant_reaches h'
  simp only [List.mem_cons, List.not_mem_nil, or_false, Prod.mk.injEq] at hmem hmem'
  omega

lemma dropConstant_instr {ip : ℕ} {instr : Instruction} (h : dropConstant[ip]? = some instr) :
    ip = 0 ∧ instr = ⟨.loadConst, some 0⟩ ∨ ip = 1 ∧ instr = ⟨.popTop, none⟩ ∨
      ip = 2 ∧ instr = ⟨.returnConst, some 0⟩ := by
  match ip with
  | 0 => exact .inl ⟨rfl, (Option.some.inj h).symm⟩
  | 1 => exact .inr (.inl ⟨rfl, (Option.some.inj h).symm⟩)
  | 2 => exact .inr (.inr ⟨rfl, (Option.some.inj h).symm⟩)
  | _ + 3 => cases h

lemma dropConstant_translated : Translated dropConstant := by
  intro ip instr h
  rcases dropConstant_instr h with ⟨-, rfl⟩ | ⟨-, rfl⟩ | ⟨-, rfl⟩ <;> rfl

lemma dropConstant_described : PathsDescribed dropConstant := by
  intro ip depth instr _ h
  rcases dropConstant_instr h with ⟨-, rfl⟩ | ⟨-, rfl⟩ | ⟨-, rfl⟩ <;> exact trivial

theorem validated_paths_never_underflow_dropConstant :
    ∃ effect, cpythonEffect 1 ⟨.popTop, none⟩ = some effect ∧ effect.pops = 1 ∧
      effect.pops ≤ 1 := by
  have haccepted : validateTranslatedCode false dropConstant = .ok () := by
    rw [validateTranslatedCode, validateLoop_round (by decide) (by decide) rfl rfl,
      List.nil_append, validateLoop_round (by decide) (by decide) rfl rfl, List.nil_append,
      validateLoop_round (by decide) (by decide) rfl rfl]
    exact validateLoop_nil _
  have hpath : Reaches dropConstant 1 1 :=
    @Reaches.step _ 0 0 ⟨.loadConst, some 0⟩ ⟨0, [(1, 1)]⟩ 1 1 .start rfl rfl (Nat.zero_le _)
      (.head _)
  exact ⟨_, rfl, rfl, validated_paths_never_underflow false dropConstant_translated haccepted
    dropConstant_described dropConstant_agree hpath rfl rfl⟩

/-- An operator that the table lacks, on an empty stack. -/
def bareXor : List Instruction := [⟨.binaryXor, none⟩, ⟨.returnConst, some 0⟩]

/-- The check accepts an operator that has no operands. -/
theorem bareXor_underflows :
    Translated bareXor ∧ validateTranslatedCode false bareXor = .ok () ∧
      ¬∀ (ip depth : ℕ) (instr : Instruction) (effect : Effect), Reaches bareXor ip depth →
        bareXor[ip]? = some instr → cpythonEffect ip instr = some effect →
        effect.pops ≤ depth := by
  refine ⟨?_, ?_, fun h => ?_⟩
  · intro ip instr h
    match ip with
    | 0 => cases h; rfl
    | 1 => cases h; rfl
    | _ + 2 => cases h
  · rw [validateTranslatedCode, validateLoop_round (by decide) (by decide) rfl rfl,
      List.nil_append, validateLoop_round (by decide) (by decide) rfl rfl]
    exact validateLoop_nil _
  · have hpops := h 0 0 ⟨.binaryXor, none⟩ ⟨2, [(1, 1)]⟩ .start rfl rfl
    exact absurd hpops (by decide)

end Pyrs.Translation
