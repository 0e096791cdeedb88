import Mathlib.Data.UInt

/-!
# Translated bytecode

The instructions that `bytecode/cpython.rs` translates CPython's into, and the check that they are
put to: a worklist over the control flow with one stack depth for each instruction.  The depth is an
`i32`: where it overflows, a build with overflow checks panics, and one without them wraps.
-/

namespace Pyrs.Translation

/-- All opcodes of `bytecode/mod.rs`; the translation emits some of them. -/
inductive Opcode
  | nop | makeCell | loadConst | loadName | loadLocals | loadFromDictOrGlobals
  | loadFromDictOrDeref | loadFast | loadFast2 | loadFastAndClear | loadDeref | loadClosure
  | loadGlobal | loadBuildClass | pushNull | loadAttr | loadSuperAttr | loadSpecial
  | storeName | storeFast | storeFastLoadFast | storeFastStoreFast | storeAttr | storeAttrCpython
  | storeGlobal | storeDeref | deleteName | deleteFast | deleteAttr | deleteSubscript
  | binaryAdd | inplaceAdd | binarySub | binarySubConst | binaryMul | binaryMatMul | binaryDiv
  | binaryPow | binaryFloorDiv | binaryMod | binaryLShift | binaryRShift | binaryAnd | binaryXor
  | binaryOr
  | compareEq | compareNe | compareLt | compareLtConst | compareLe | compareGt | compareGe
  | compareIn | compareNotIn | compareIs | compareIsNot
  | unaryNeg | unaryNot | unaryPos | unaryInvert
  | convertValue | formatSimple | formatWithSpec | toBool
  | makeFunction | buildClass | callFunction | callFunction1 | callFunctionKw | callFunctionVar
  | callFunctionEx | importName | importNameCpython | importFromCpython
  | buildList | buildSet | buildTuple | buildString | buildInterpolation | buildTemplate
  | buildDict | dictMerge | buildSlice | getLen | binarySlice | storeSlice | copy | swap
  | unpackSequence | unpackSequenceCpython | unpackEx | unpackExCpython
  | listAppend | setAdd | listExtend | setUpdate | mapAdd | dictSet | dictUpdate
  | subscript | storeSubscript | dupTop
  | jumpIfFalse | jumpIfTrue | jumpIfNone | jumpIfNotNone | jump
  | setupExcept | setupAnnotations | popBlock | raise | matchException | checkExcMatch
  | matchExceptionStar | matchClass | matchKeys | matchMapping | matchSequence | clearException
  | pushExcInfo | popExcept | withExceptStart | reraise | popTop | endFor | getIter | getAwaitable
  | forIter | yieldValue | yieldFrom | send
  | callCpython | callCpythonKwStack | callIntrinsic1 | callIntrinsic2 | makeFunctionStack
  | setFunctionAttribute | returnConst | returnValue
deriving DecidableEq

/-- An instruction of the translated code. -/
structure Instruction where
  opcode : Opcode
  arg : Option UInt32
deriving DecidableEq

/-- The errors of the check: a fixed message, or one that names the instruction. -/
inductive CpythonError
  | message (text : String)
  | stackUnderflow (ip : ℕ) (opcode : Opcode)
  | invalidArg (name : String) (arg : ℤ) (ip : ℕ)
  | jumpTargetOutOfRange (ip : ℕ)
  | jumpTargetOutOfRangeAt (target ip : ℕ)
  | panicked
deriving DecidableEq

/-- A result or an error of the translator. -/
abbrev Checked := Except CpythonError

/-! ## The effect of an instruction -/

/-- The result of an operation on `i32`, with or without overflow checks. -/
def i32 (checks : Bool) (value : ℤ) : Checked ℤ :=
  if checks ∧ ¬(-2 ^ 31 ≤ value ∧ value < 2 ^ 31) then .error .panicked
  else .ok (value.bmod (2 ^ 32))

/-- `as i32` -/
def asI32 (value : UInt32) : ℤ := (value.toNat : ℤ).bmod (2 ^ 32)

/-- The argument, or the error that there is none. -/
def required (text : String) : Option UInt32 → Checked UInt32
  | some arg => .ok arg
  | none => .error (.message text)

section

variable (checks : Bool) (ip : ℕ) (stackDepth : ℤ) (instr : Instruction)

/-- The closure `pop`. -/
def pop (count : ℤ) : Checked ℤ :=
  if stackDepth < count then .error (.stackUnderflow ip instr.opcode)
  else i32 checks (stackDepth - count)

/-- On to the next instruction, without operands. -/
def push (pushes : ℤ) : Checked (List (ℕ × ℤ)) := do
  return [(ip + 1, ← i32 checks (stackDepth + pushes))]

/-- On to the next instruction, with operands. -/
def next (pops pushes : ℤ) : Checked (List (ℕ × ℤ)) := do
  return [(ip + 1, ← i32 checks ((← pop checks ip stackDepth instr pops) + pushes))]

/-- An argument that has to be positive. -/
def positive (name : String) (arg least : ℤ) : Checked Unit :=
  if arg < least then .error (.invalidArg name arg ip) else .ok ()

/-- The effects that `translated_successors` knows; the others are none. -/
def effect : Checked (List (ℕ × ℤ)) :=
  match instr.opcode with
  | .nop | .makeCell | .deleteFast | .setupExcept | .popBlock | .clearException | .endFor
  | .setupAnnotations => .ok [(ip + 1, stackDepth)]
  | .loadConst | .loadName | .loadLocals | .loadFast | .loadDeref | .loadClosure | .loadBuildClass
  | .pushNull => push checks ip stackDepth 1
  | .loadFromDictOrGlobals | .loadFromDictOrDeref => next checks ip stackDepth instr 1 1
  | .loadFast2 => push checks ip stackDepth 2
  | .loadFastAndClear => push checks ip stackDepth 1
  | .loadGlobal => push checks ip stackDepth (if (instr.arg.getD 0) &&& 1 = 1 then 2 else 1)
  | .loadAttr => do
    let raw ← required "missing LOAD_ATTR arg" instr.arg
    next checks ip stackDepth instr 1 (1 + asI32 (raw &&& 1))
  | .loadSuperAttr => do
    let raw ← required "missing LOAD_SUPER_ATTR arg" instr.arg
    next checks ip stackDepth instr 3 (1 + asI32 (raw &&& 1))
  | .loadSpecial => next checks ip stackDepth instr 1 2
  | .storeName | .storeFast | .storeGlobal | .storeDeref | .deleteAttr | .popTop | .popExcept =>
    next checks ip stackDepth instr 1 0
  | .pushExcInfo => next checks ip stackDepth instr 1 2
  | .withExceptStart => next checks ip stackDepth instr 5 6
  | .unaryNeg | .unaryNot | .unaryPos | .unaryInvert | .convertValue | .formatSimple
  | .callIntrinsic1 | .toBool => next checks ip stackDepth instr 1 1
  | .callIntrinsic2 => next checks ip stackDepth instr 2 1
  | .storeFastLoadFast => next checks ip stackDepth instr 1 1
  | .storeFastStoreFast => next checks ip stackDepth instr 2 0
  | .storeAttr | .storeAttrCpython => next checks ip stackDepth instr 2 0
  | .copy => do
    let depth := asI32 (← required "missing COPY depth" instr.arg)
    positive ip "COPY" depth 1
    next checks ip stackDepth instr depth (depth + 1)
  | .swap => do
    let depth := asI32 (← required "missing SWAP depth" instr.arg)
    positive ip "SWAP" depth 2
    next checks ip stackDepth instr depth depth
  | .binaryAdd | .binarySub | .binaryMul | .binaryDiv | .binaryPow | .binaryFloorDiv | .binaryMod
  | .compareEq | .compareNe | .compareLt | .compareLe | .compareGt | .compareGe | .compareIn
  | .compareNotIn | .compareIs | .compareIsNot | .subscript | .matchException =>
    next checks ip stackDepth instr 2 1
  | .matchClass => next checks ip stackDepth instr 3 1
  | .matchKeys | .matchMapping | .matchSequence => push checks ip stackDepth 1
  | .getLen => push checks ip stackDepth 1
  | .checkExcMatch => next checks ip stackDepth instr 2 2
  | .matchExceptionStar => next checks ip stackDepth instr 2 2
  | .buildList | .buildSet | .buildTuple | .buildString => do
    let count := asI32 (← required "missing build count" instr.arg)
    next checks ip stackDepth instr count 1
  | .buildInterpolation => do
    let raw ← required "missing BUILD_INTERPOLATION arg" instr.arg
    next checks ip stackDepth instr (if raw &&& 1 ≠ 0 then 3 else 2) 1
  | .buildTemplate => next checks ip stackDepth instr 2 1
  | .formatWithSpec => next checks ip stackDepth instr 2 1
  | .buildDict => do
    let count := asI32 (← required "missing dict count" instr.arg)
    next checks ip stackDepth instr (← i32 checks (count * 2)) 1
  | .listAppend | .setAdd | .listExtend | .setUpdate => do
    let oparg := asI32 (← required "missing LIST_* arg" instr.arg)
    positive ip "LIST_*" oparg 1
    next checks ip stackDepth instr (← i32 checks (oparg + 1)) oparg
  | .mapAdd => do
    let oparg := asI32 (← required "missing MAP_ADD arg" instr.arg)
    positive ip "MAP_ADD" oparg 1
    next checks ip stackDepth instr (← i32 checks (oparg + 2)) oparg
  | .dictMerge => do
    let oparg := asI32 (← required "missing DICT_MERGE arg" instr.arg)
    positive ip "DICT_MERGE" oparg 1
    next checks ip stackDepth instr (← i32 checks (oparg + 1)) oparg
  | .buildSlice => do
    let count := asI32 (instr.arg.getD 3)
    if count ≠ 2 ∧ count ≠ 3 then .error (.invalidArg "BUILD_SLICE" count ip)
    else next checks ip stackDepth instr count 1
  | .binarySlice => next checks ip stackDepth instr 3 1
  | .unpackSequence | .unpackSequenceCpython => do
    let count := asI32 (← required "missing unpack count" instr.arg)
    next checks ip stackDepth instr 1 count
  | .unpackEx | .unpackExCpython => do
    let packed ← required "missing unpack sizes" instr.arg
    next checks ip stackDepth instr 1 (asI32 (packed &&& 0xFFFF) + asI32 (packed >>> 16) + 1)
  | .dictSet => next checks ip stackDepth instr 3 1
  | .dictUpdate => do
    let oparg := asI32 (instr.arg.getD 1)
    positive ip "DICT_UPDATE" oparg 1
    next checks ip stackDepth instr (← i32 checks (oparg + 1)) oparg
  | .storeSubscript =>
    if instr.arg = some 1 then next checks ip stackDepth instr 3 0
    else next checks ip stackDepth instr 3 1
  | .storeSlice => next checks ip stackDepth instr 4 0
  | .deleteSubscript => next checks ip stackDepth instr 2 0
  | .dupTop => next checks ip stackDepth instr 1 2
  | .jumpIfFalse | .jumpIfTrue | .jumpIfNone | .jumpIfNotNone => do
    let target ← required "missing jump target" instr.arg
    let depth ← pop checks ip stackDepth instr 1
    return [(ip + 1, depth), (target.toNat, depth)]
  | .jump => do
    let target ← required "missing jump target" instr.arg
    return [(target.toNat, stackDepth)]
  | .getIter | .getAwaitable => next checks ip stackDepth instr 1 1
  | .forIter => do
    let target ← required "missing for-iter target" instr.arg
    let depth ← pop checks ip stackDepth instr 1
    return [(ip + 1, ← i32 checks (depth + 2)), (target.toNat, depth)]
  | .yieldValue => next checks ip stackDepth instr 1 1
  | .yieldFrom => .ok [(ip + 1, stackDepth)]
  | .send => do
    let target ← required "missing send target" instr.arg
    let depth ← pop checks ip stackDepth instr 2
    return [(ip + 1, ← i32 checks (depth + 2)), (target.toNat, ← i32 checks (depth + 1))]
  | .makeFunction => next checks ip stackDepth instr 2 1
  | .makeFunctionStack => next checks ip stackDepth instr 1 1
  | .setFunctionAttribute => next checks ip stackDepth instr 2 1
  | .buildClass => next checks ip stackDepth instr 3 1
  | .callFunction => do
    let argc := asI32 (← required "missing call argc" instr.arg)
    next checks ip stackDepth instr (← i32 checks (argc + 1)) 1
  | .callFunctionKw => next checks ip stackDepth instr 1 1
  | .callFunctionVar => next checks ip stackDepth instr 3 1
  | .callFunctionEx => next checks ip stackDepth instr 4 1
  | .callCpython => do
    let argc := asI32 ((← required "missing call argc" instr.arg) &&& 0xFFFF)
    next checks ip stackDepth instr (argc + 1) 1
  | .callCpythonKwStack => do
    let argc := asI32 (← required "missing call argc" instr.arg)
    next checks ip stackDepth instr (← i32 checks (argc + 2)) 1
  | .importName => push checks ip stackDepth 1
  | .importNameCpython => next checks ip stackDepth instr 2 1
  | .importFromCpython => next checks ip stackDepth instr 1 2
  | .raise | .reraise | .returnConst | .returnValue => .ok []
  | _ => .ok [(ip + 1, stackDepth)]

/-- Where an instruction leads, with the depth of the stack there. -/
def translatedSuccessors (codeLen : ℕ) : Checked (List (ℕ × ℤ)) := do
  let successors ← effect checks ip stackDepth instr
  if successors.any fun successor => codeLen < successor.1 then
    .error (.jumpTargetOutOfRange ip)
  else return successors

end

/-! ## The check -/

/-- What the loop checks of every successor. -/
def checkSuccessors (ip : ℕ) (opcode : Opcode) (codeLen : ℕ) : List (ℕ × ℤ) → Checked Unit
  | [] => .ok ()
  | (nextIp, nextDepth) :: successors =>
    if nextDepth < 0 then .error (.stackUnderflow ip opcode)
    else if codeLen < nextIp then .error (.jumpTargetOutOfRangeAt nextIp ip)
    else checkSuccessors ip opcode codeLen successors

/-- The loop: an instruction that was seen before is not looked at again. -/
def validateLoop (checks : Bool) (instructions : List Instruction) (queue : List (ℕ × ℤ))
    (seen : Finset ℕ) : Checked Unit :=
  match queue with
  | [] => .ok ()
  | (ip, stackDepth) :: queue =>
    if h : ip < instructions.length then
      if ip ∈ seen then validateLoop checks instructions queue seen
      else
        match translatedSuccessors checks ip stackDepth instructions[ip] instructions.length with
        | .error error => .error error
        | .ok successors =>
          match checkSuccessors ip instructions[ip].opcode instructions.length successors with
          | .error error => .error error
          | .ok () => validateLoop checks instructions (queue ++ successors) (insert ip seen)
    else validateLoop checks instructions queue seen
termination_by ((Finset.range instructions.length \ seen).card, queue.length)
decreasing_by
  · exact Prod.Lex.right _ (Nat.lt_succ_self _)
  · refine Prod.Lex.left _ _ (Finset.card_lt_card ?_)
    refine Finset.ssubset_iff_subset_ne.2 ⟨?_, fun heq => ?_⟩
    · exact Finset.sdiff_subset_sdiff (Finset.Subset.refl _) (Finset.subset_insert _ _)
    · have hmem : ip ∈ Finset.range instructions.length \ seen :=
        Finset.mem_sdiff.2 ⟨Finset.mem_range.2 h, by assumption⟩
      rw [← heq, Finset.mem_sdiff] at hmem
      exact hmem.2 (Finset.mem_insert_self _ _)
  · exact Prod.Lex.right _ (Nat.lt_succ_self _)

def validateTranslatedCode (checks : Bool) (instructions : List Instruction) : Checked Unit :=
  validateLoop checks instructions [(0, 0)] ∅

end Pyrs.Translation
