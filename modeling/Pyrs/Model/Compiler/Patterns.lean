import Pyrs.Model.Compiler.Expressions

/-!
# Patterns of a `match` statement

A pattern is compiled twice: into a test that leaves a boolean on the stack, and into the stores of
the names it captures.
-/

namespace Pyrs

/-! ## Validation -/

/-- The patterns that match every value. -/
inductive IrrefutablePatternKind
  | wildcard
  | capture (name : String)

/-- The error for a `case` behind such a pattern. -/
def IrrefutablePatternKind.unreachableMessage : IrrefutablePatternKind → String
  | .wildcard => "wildcard makes remaining patterns unreachable"
  | .capture name => s!"name capture '{name}' makes remaining patterns unreachable"

mutual

/-- `irrefutable_pattern_kind`. -/
def irrefutablePatternKind : Pattern → Option IrrefutablePatternKind
  | .wildcard => some .wildcard
  | .capture name => some (.capture name)
  | .as pattern _ => irrefutablePatternKind pattern
  | .or options => firstIrrefutablePatternKind options
  | .constant _ | .value _ | .sequence _ | .mapping _ _ | .class _ _ _ | .star _ => none

/-- The first of the alternatives that matches every value. -/
def firstIrrefutablePatternKind : List Pattern → Option IrrefutablePatternKind
  | [] => none
  | pattern :: patterns =>
    (irrefutablePatternKind pattern).or (firstIrrefutablePatternKind patterns)

end

/-- `insert_pattern_binding`. -/
def insertPatternBinding (bound : Finset String) (name : String) :
    Except CompileFailure (Finset String) :=
  if name ∈ bound then throw (.error s!"multiple assignments to name '{name}' in pattern")
  else pure (insert name bound)

/-- `merge_pattern_bindings`.  Which of several repeated names the message mentions is the choice of
a hash set; here it is the first in order. -/
def mergePatternBindings (bound incoming : Finset String) :
    Except CompileFailure (Finset String) :=
  (sortedNames incoming).foldlM insertPatternBinding bound

/-- The text of a list of names under `{:?}`, for names without characters to escape. -/
def debugNames (names : Finset String) : String :=
  "[" ++ ", ".intercalate ((sortedNames names).map fun name => "\"" ++ name ++ "\"") ++ "]"

/-- The error for alternatives that bind different names. -/
def alternativesMessage (expected bindings : Finset String) : String :=
  "alternative patterns bind different names: expected " ++ debugNames expected ++ ", got " ++
    debugNames bindings

mutual

/-- `validate_pattern_bindings`: the names a pattern binds, each once. -/
def validatePatternBindings : Pattern → Except CompileFailure (Finset String)
  | .wildcard | .constant _ | .value _ | .star none => pure ∅
  | .capture name | .star (some name) => insertPatternBinding ∅ name
  | .as pattern name => do
    let bound ← mergePatternBindings ∅ (← validatePatternBindings pattern)
    insertPatternBinding bound name
  | .sequence items => validatePatternsBindings ∅ items
  | .mapping entries rest => do
    let bound ← validateEntriesBindings ∅ entries
    match rest with
    | some name => insertPatternBinding bound name
    | none => pure bound
  | .class _ positional keywords => do
    let bound ← validatePatternsBindings ∅ positional
    validateKeywordsBindings bound keywords
  | .or options => do
    pure ((← validateOptionsBindings none options).getD ∅)

/-- The names that patterns bind, one after the other. -/
def validatePatternsBindings (bound : Finset String) :
    List Pattern → Except CompileFailure (Finset String)
  | [] => pure bound
  | pattern :: patterns => do
    let bound ← mergePatternBindings bound (← validatePatternBindings pattern)
    validatePatternsBindings bound patterns

/-- The names that the entries of a mapping bind. -/
def validateEntriesBindings (bound : Finset String) :
    List (Expr × Pattern) → Except CompileFailure (Finset String)
  | [] => pure bound
  | (_, pattern) :: entries => do
    let bound ← mergePatternBindings bound (← validatePatternBindings pattern)
    validateEntriesBindings bound entries

/-- The names that the keywords of a class bind. -/
def validateKeywordsBindings (bound : Finset String) :
    List (String × Pattern) → Except CompileFailure (Finset String)
  | [] => pure bound
  | (_, pattern) :: keywords => do
    let bound ← mergePatternBindings bound (← validatePatternBindings pattern)
    validateKeywordsBindings bound keywords

/-- The options of an or-pattern: all but the last are refutable, and all bind the same names. -/
def validateOptionsBindings (expected : Option (Finset String)) :
    List Pattern → Except CompileFailure (Option (Finset String))
  | [] => pure expected
  | option :: options => do
    if !options.isEmpty then
      match irrefutablePatternKind option with
      | some kind => throw (.error kind.unreachableMessage)
      | none => pure ()
    let bindings ← validatePatternBindings option
    match expected with
    | some expected =>
      if bindings ≠ expected then throw (.error (alternativesMessage expected bindings))
      validateOptionsBindings (some expected) options
    | none => validateOptionsBindings (some bindings) options

end

/-- `validate_match_cases`. -/
def validateMatchCases : List MatchCase → Except CompileFailure Unit
  | [] => pure ()
  | case :: cases => do
    let _ ← validatePatternBindings case.pattern
    if !cases.isEmpty && case.guard.isNone then
      match irrefutablePatternKind case.pattern with
      | some kind => throw (.error kind.unreachableMessage)
      | none => pure ()
    validateMatchCases cases

section Patterns

variable (routines : Routines)

/-! ## Parts of a test -/

/-- `emit_extract_pattern_item`. -/
def emitExtractPatternItem (subjectTemp : String) (index : Int) (targetTemp : String) :
    CompileM Unit := do
  emitLoadName subjectTemp
  emitConst (.int index)
  emit .subscript none
  emitStoreName targetTemp

/-- A pattern with a star. -/
def Pattern.isStar : Pattern → Bool
  | .star _ => true
  | _ => false

/-- The index under which an item of a sequence pattern is read: from the end behind a star. -/
def patternItemIndex (starIndex : Option Nat) (length idx : Nat) : Int :=
  match starIndex with
  | some star => if idx > star then -((length - idx : Nat) : Int) else idx
  | none => idx

/-- The end of a test with failures: `True`, or `False` where the failures jump to. -/
def emitTestOutcome (failJumps : List Nat) : CompileM Unit := do
  emitConst (.bool true)
  let endJump ← emitJump .jump
  patchJumps failJumps (← currentIp)
  emitConst (.bool false)
  patchJump endJump (← currentIp)

/-- `getattr(subject, name)` into a temporary, for the name that `emitName` pushes. -/
def emitPatternAttribute (subjectTemp : String) (emitName : CompileM Unit) (valueTemp : String) :
    CompileM Unit := do
  emitLoadName "getattr"
  emitLoadName subjectTemp
  emitName
  emit .callFunction (some 2)
  emitStoreName valueTemp

/-- `hasattr(subject, name)` and the jump for its failure. -/
def emitPatternHasAttribute (subjectTemp : String) (emitName : CompileM Unit) : CompileM Nat := do
  emitLoadName "hasattr"
  emitLoadName subjectTemp
  emitName
  emit .callFunction (some 2)
  emitJump .jumpIfFalse

/-- `getattr(class, "__match_args__", ())` into a temporary. -/
def emitMatchArgs (classTemp matchArgsTemp : String) : CompileM Unit := do
  emitLoadName "getattr"
  emitLoadName classTemp
  emitConst (.str "__match_args__")
  emit .buildTuple (some 0)
  emit .callFunction (some 3)
  emitStoreName matchArgsTemp

/-- The test of a sequence pattern for a list or tuple of the right length. -/
def emitSequenceLengthTest (items : List Pattern) (subjectTemp : String) :
    CompileM (List Nat) := do
  emitLoadName "isinstance"
  emitLoadName subjectTemp
  emitLoadName "list"
  emitLoadName "tuple"
  emit .buildTuple (some 2)
  emit .callFunction (some 2)
  let typeJump ← emitJump .jumpIfFalse
  emitLoadName "len"
  emitLoadName subjectTemp
  emit .callFunction (some 1)
  if items.any (·.isStar) then
    emitConst (.int ((items.length - items.countP (·.isStar) : Nat) : Int))
    emit .compareGe none
  else
    emitConst (.int items.length)
    emit .compareEq none
  let lengthJump ← emitJump .jumpIfFalse
  pure [typeJump, lengthJump]

/-- The test that `__match_args__` has an entry for a positional subpattern. -/
def emitMatchArgsLengthTest (matchArgsTemp : String) (idx : Nat) : CompileM Nat := do
  emitLoadName "len"
  emitLoadName matchArgsTemp
  emit .callFunction (some 1)
  emitConst (.int (idx + 1 : Nat))
  emit .compareGe none
  emitJump .jumpIfFalse

/-! ## Tests -/

mutual

/-- `compile_pattern_test`. -/
def compilePatternTest (subjectTemp : String) : Pattern → CompileM Unit
  | .wildcard | .capture _ | .star _ => emitConst (.bool true)
  | .constant value => do
    emitLoadName subjectTemp
    emitConst (constantToValue value)
    emit .compareEq none
  | .value expr => do
    emitLoadName subjectTemp
    routines.compileExpr expr
    emit .compareEq none
  | .sequence items => do
    if items.countP (·.isStar) > 1 then
      compileError "multiple starred patterns in sequence pattern"
    let lengthJumps ← emitSequenceLengthTest items subjectTemp
    let itemJumps ← compileSequenceItemTests subjectTemp (items.findIdx? (·.isStar)) items.length 0
      items
    emitTestOutcome (lengthJumps ++ itemJumps)
  | .mapping entries _ => do
    emitLoadName "isinstance"
    emitLoadName subjectTemp
    emitLoadName "dict"
    emit .callFunction (some 2)
    let typeJump ← emitJump .jumpIfFalse
    let entryJumps ← compileMappingEntryTests subjectTemp entries
    emitTestOutcome (typeJump :: entryJumps)
  | .class cls positional keywords => do
    let classTemp ← freshTemp "match_class"
    routines.compileExpr cls
    emitStoreName classTemp
    emitLoadName "isinstance"
    emitLoadName subjectTemp
    emitLoadName classTemp
    emit .callFunction (some 2)
    let typeJump ← emitJump .jumpIfFalse
    let matchArgsTemp ← freshTemp "match_args"
    emitMatchArgs classTemp matchArgsTemp
    let positionalJumps ← compilePositionalTests subjectTemp matchArgsTemp 0 positional
    let keywordJumps ← compileKeywordTests subjectTemp keywords
    emitTestOutcome (typeJump :: (positionalJumps ++ keywordJumps))
  | .or options =>
    match options with
    | [] => emitConst (.bool false)
    | option :: options => do
      compilePatternTest subjectTemp option
      let endJumps ← compileOptionTests subjectTemp options
      patchJumps endJumps (← currentIp)
  | .as pattern _ => compilePatternTest subjectTemp pattern

/-- The items of a sequence pattern, from the index `idx` on. -/
def compileSequenceItemTests (subjectTemp : String) (starIndex : Option Nat) (length idx : Nat) :
    List Pattern → CompileM (List Nat)
  | [] => pure []
  | item :: items => do
    let itemJumps ←
      if item.isStar then pure []
      else do
        let itemTemp ← freshTemp "match_seq_item"
        emitExtractPatternItem subjectTemp (patternItemIndex starIndex length idx) itemTemp
        compilePatternTest itemTemp item
        let jump ← emitJump .jumpIfFalse
        pure [jump]
    let jumps ← compileSequenceItemTests subjectTemp starIndex length (idx + 1) items
    pure (itemJumps ++ jumps)

/-- The tests of the entries of a mapping. -/
def compileMappingEntryTests (subjectTemp : String) :
    List (Expr × Pattern) → CompileM (List Nat)
  | [] => pure []
  | (key, pattern) :: entries => do
    routines.compileExpr key
    emitLoadName subjectTemp
    emit .compareIn none
    let keyJump ← emitJump .jumpIfFalse
    let valueTemp ← freshTemp "match_map_value"
    emitLoadName subjectTemp
    routines.compileExpr key
    emit .subscript none
    emitStoreName valueTemp
    compilePatternTest valueTemp pattern
    let valueJump ← emitJump .jumpIfFalse
    let jumps ← compileMappingEntryTests subjectTemp entries
    pure (keyJump :: valueJump :: jumps)

/-- The positional subpatterns of a class pattern, from the index `idx` on. -/
def compilePositionalTests (subjectTemp matchArgsTemp : String) (idx : Nat) :
    List Pattern → CompileM (List Nat)
  | [] => pure []
  | pattern :: patterns => do
    let lengthJump ← emitMatchArgsLengthTest matchArgsTemp idx
    let nameTemp ← freshTemp "match_attr_name"
    emitExtractPatternItem matchArgsTemp idx nameTemp
    let attrJump ← emitPatternHasAttribute subjectTemp (emitLoadName nameTemp)
    let valueTemp ← freshTemp "match_attr_value"
    emitPatternAttribute subjectTemp (emitLoadName nameTemp) valueTemp
    compilePatternTest valueTemp pattern
    let valueJump ← emitJump .jumpIfFalse
    let jumps ← compilePositionalTests subjectTemp matchArgsTemp (idx + 1) patterns
    pure (lengthJump :: attrJump :: valueJump :: jumps)

/-- The tests of the keywords of a class. -/
def compileKeywordTests (subjectTemp : String) :
    List (String × Pattern) → CompileM (List Nat)
  | [] => pure []
  | (name, pattern) :: keywords => do
    let attrJump ← emitPatternHasAttribute subjectTemp (emitConst (.str name))
    let valueTemp ← freshTemp "match_kw_attr"
    emitPatternAttribute subjectTemp (emitConst (.str name)) valueTemp
    compilePatternTest valueTemp pattern
    let valueJump ← emitJump .jumpIfFalse
    let jumps ← compileKeywordTests subjectTemp keywords
    pure (attrJump :: valueJump :: jumps)

/-- `compile_or_pattern_test`, after the first option: the jumps taken when an option matches. -/
def compileOptionTests (subjectTemp : String) : List Pattern → CompileM (List Nat)
  | [] => pure []
  | option :: options => do
    emit .dupTop none
    let doneJump ← emitJump .jumpIfTrue
    emit .popTop none
    compilePatternTest subjectTemp option
    let jumps ← compileOptionTests subjectTemp options
    pure (doneJump :: jumps)

end

/-! ## Bindings -/

/-- The slice that a starred item of a sequence pattern captures, as a list. -/
def emitStarBinding (subjectTemp name : String) (length idx : Nat) : CompileM Unit := do
  let trailing := length - (idx + 1)
  emitLoadName "list"
  emitLoadName subjectTemp
  emitConst (.int idx)
  emitConst (if trailing = 0 then .none else .int (-(trailing : Int)))
  emitConst .none
  emit .buildSlice (some 3)
  emit .subscript none
  emit .callFunction (some 1)
  emitStoreNameScoped name

/-- The copy of a mapping without the keys of the pattern, for a `**rest` capture. -/
def emitMappingRest (subjectTemp name : String) (entries : List (Expr × Pattern)) :
    CompileM Unit := do
  let restTemp ← freshTemp "match_map_rest"
  emitLoadName "dict"
  emitLoadName subjectTemp
  emit .callFunction (some 1)
  emitStoreName restTemp
  entries.forM fun (key, _) => do
    emitLoadName restTemp
    routines.compileExpr key
    emit .deleteSubscript none
  emitLoadName restTemp
  emitStoreNameScoped name

mutual

/-- `compile_pattern_bindings`. -/
def compilePatternBindings (subjectTemp : String) : Pattern → CompileM Unit
  | .wildcard | .constant _ | .value _ | .star none => pure ()
  | .capture name | .star (some name) => do
    emitLoadName subjectTemp
    emitStoreNameScoped name
  | .as pattern name => do
    compilePatternBindings subjectTemp pattern
    emitLoadName subjectTemp
    emitStoreNameScoped name
  | .sequence items =>
    compileSequenceItemBindings subjectTemp (items.findIdx? (·.isStar)) items.length 0 items
  | .mapping entries rest => do
    compileMappingEntryBindings subjectTemp entries
    match rest with
    | some name => emitMappingRest routines subjectTemp name entries
    | none => pure ()
  | .class cls positional keywords => do
    let classTemp ← freshTemp "match_class_bind"
    routines.compileExpr cls
    emitStoreName classTemp
    let matchArgsTemp ← freshTemp "match_args_bind"
    emitMatchArgs classTemp matchArgsTemp
    compilePositionalBindings subjectTemp matchArgsTemp 0 positional
    compileKeywordBindings subjectTemp keywords
  | .or options => do
    let endJumps ← compileOptionBindings subjectTemp options
    patchJumps endJumps (← currentIp)

/-- The items of a sequence pattern, from the index `idx` on. -/
def compileSequenceItemBindings (subjectTemp : String) (starIndex : Option Nat)
    (length idx : Nat) : List Pattern → CompileM Unit
  | [] => pure ()
  | item :: items => do
    match item with
    | .star (some name) => emitStarBinding subjectTemp name length idx
    | .star none => pure ()
    | item =>
      let temp ← freshTemp "match_bind_item"
      emitExtractPatternItem subjectTemp (patternItemIndex starIndex length idx) temp
      compilePatternBindings temp item
    compileSequenceItemBindings subjectTemp starIndex length (idx + 1) items

/-- The names that the entries of a mapping bind, stored. -/
def compileMappingEntryBindings (subjectTemp : String) : List (Expr × Pattern) → CompileM Unit
  | [] => pure ()
  | (key, pattern) :: entries => do
    let temp ← freshTemp "match_map_bind"
    emitLoadName subjectTemp
    routines.compileExpr key
    emit .subscript none
    emitStoreName temp
    compilePatternBindings temp pattern
    compileMappingEntryBindings subjectTemp entries

/-- The positional subpatterns of a class pattern, from the index `idx` on. -/
def compilePositionalBindings (subjectTemp matchArgsTemp : String) (idx : Nat) :
    List Pattern → CompileM Unit
  | [] => pure ()
  | pattern :: patterns => do
    let nameTemp ← freshTemp "match_attr_name_bind"
    emitExtractPatternItem matchArgsTemp idx nameTemp
    let valueTemp ← freshTemp "match_attr_bind"
    emitPatternAttribute subjectTemp (emitLoadName nameTemp) valueTemp
    compilePatternBindings valueTemp pattern
    compilePositionalBindings subjectTemp matchArgsTemp (idx + 1) patterns

/-- The names that the keywords of a class bind, stored. -/
def compileKeywordBindings (subjectTemp : String) : List (String × Pattern) → CompileM Unit
  | [] => pure ()
  | (name, pattern) :: keywords => do
    let valueTemp ← freshTemp "match_kw_attr_bind"
    emitPatternAttribute subjectTemp (emitConst (.str name)) valueTemp
    compilePatternBindings valueTemp pattern
    compileKeywordBindings subjectTemp keywords

/-- The options of an or-pattern: all but the last are tested again, and the jumps that follow
their bindings are returned. -/
def compileOptionBindings (subjectTemp : String) : List Pattern → CompileM (List Nat)
  | [] => pure []
  | [option] => do
    compilePatternBindings subjectTemp option
    pure []
  | option :: options => do
    compilePatternTest routines subjectTemp option
    let nextOption ← emitJump .jumpIfFalse
    compilePatternBindings subjectTemp option
    let endJump ← emitJump .jump
    patchJump nextOption (← currentIp)
    let jumps ← compileOptionBindings subjectTemp options
    pure (endJump :: jumps)

end

end Patterns

end Pyrs
