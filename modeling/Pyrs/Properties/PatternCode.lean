import Pyrs.Model.PatternExecution

/-!
# The code of a pattern

The test and the bindings of a pattern as structured code, and that what the compiler emits for them
is the assembly of this code.
-/

namespace Pyrs

open StructuredCode

/-! ## Patterns of data -/

mutual

/-- A pattern of wildcards, captures, constants, sequences with one star at most, mappings with
literal keys, or-patterns and as-patterns, in which no builtin name is bound that the code reads. -/
def Pattern.IsData : Pattern → Prop
  | .wildcard | .constant _ => True
  | .capture name => name ∉ matchBuiltins
  | .as pattern name => pattern.IsData ∧ name ∉ matchBuiltins
  | .sequence items => items.countP (·.isStar) ≤ 1 ∧ ItemsAreData items
  | .mapping entries rest => EntriesAreData entries ∧ ∀ bound ∈ rest, bound ∉ matchBuiltins
  | .or options => OptionsAreData options
  | .value _ | .class _ _ _ | .star _ => False

def ItemsAreData : List Pattern → Prop
  | [] => True
  | .star name :: items => (∀ bound ∈ name, bound ∉ matchBuiltins) ∧ ItemsAreData items
  | item :: items => item.IsData ∧ ItemsAreData items

def EntriesAreData : List (Expr × Pattern) → Prop
  | [] => True
  | (key, pattern) :: entries =>
    key.literalValue.isSome ∧ pattern.IsData ∧ EntriesAreData entries

def OptionsAreData : List Pattern → Prop
  | [] => True
  | option :: options => option.IsData ∧ OptionsAreData options

end

/-- The items behind the first one. -/
lemma ItemsAreData.items {item : Pattern} {items : List Pattern}
    (h : ItemsAreData (item :: items)) : ItemsAreData items := by
  cases item <;> exact h.2

lemma ItemsAreData.head {item : Pattern} {items : List Pattern}
    (h : ItemsAreData (item :: items)) (hstar : ¬ item.isStar) : item.IsData := by
  cases item with
  | star name => exact absurd rfl hstar
  | _ => exact h.1

/-! ## Jumps -/

lemma patchJumps_singleton (jump target : ℕ) :
    patchJumps [jump] target = patchJump jump target := by
  simp [patchJumps, List.forM_eq_forM]

/-! ## Tests -/

/-- The end of a test: `True`, or `False` where the checks fail. -/
def outcomeCode (checks : PatternCode) : PatternCode :=
  .block .done (.seq
    (.block .fail (.seq checks (.seq (.ofList [.const (.bool true)]) (.br .done (.branch .jump)))))
    (.ofList [.const (.bool false)]))

/-- A step that leaves a boolean and the jump for a failure. -/
def checkCode (steps : List PatternStep) : PatternCode :=
  .seq (.ofList steps) (.br .fail (.branch .jumpIfFalse))

def isSequenceSteps (place : ℕ) : List PatternStep :=
  [.loadVariable "isinstance", .loadTemp place, .loadVariable "list", .loadVariable "tuple",
    .buildTuple 2, .call 2]

def lengthSteps (place : ℕ) (items : List Pattern) : List PatternStep :=
  [.loadVariable "len", .loadTemp place, .call 1] ++
    if items.any (·.isStar) then
      [.const (.int ((items.length - items.countP (·.isStar) : ℕ) : ℤ)), .compareGe]
    else [.const (.int items.length), .compareEq]

def isMappingSteps (place : ℕ) : List PatternStep :=
  [.loadVariable "isinstance", .loadTemp place, .loadVariable "dict", .call 2]

/-- The item of a sequence in a new temporary. -/
def extractSteps (kind : String) (place : ℕ) (index : ℤ) : List PatternStep :=
  [.fresh kind, .loadTemp (place + 1), .const (.int index), .subscript, .storeTemp 0]

/-- The value of a key in a new temporary. -/
def lookupSteps (kind : String) (place : ℕ) (key : Expr) : List PatternStep :=
  [.fresh kind, .loadTemp (place + 1), .evaluate key, .subscript, .storeTemp 0]

/-- The test of a part of the subject, which the steps put into a new temporary. -/
def partCode (steps : List PatternStep) (test : PatternCode) : PatternCode :=
  .seq (.ofList steps) (.seq test (checkCode [.release]))

mutual

/-- The code of `compile_pattern_test`. -/
def testCode (place : ℕ) : Pattern → PatternCode
  | .wildcard | .capture _ | .star _ => .ofList [.const (.bool true)]
  | .constant value => .ofList [.loadTemp place, .const value, .compareEq]
  | .sequence items =>
    outcomeCode (.seq
      (.seq (checkCode (isSequenceSteps place)) (checkCode (lengthSteps place items)))
      (itemTestsCode place (items.findIdx? (·.isStar)) items.length 0 items))
  | .mapping entries _ =>
    outcomeCode (.seq (checkCode (isMappingSteps place)) (entryTestsCode place entries))
  | .or options =>
    match options with
    | [] => .ofList [.const (.bool false)]
    | option :: options =>
      .block .done (.seq (testCode place option) (optionTestsCode place options))
  | .as pattern _ => testCode place pattern
  | .value _ | .class _ _ _ => .nil

def itemTestsCode (place : ℕ) (starIndex : Option ℕ) (length idx : ℕ) :
    List Pattern → PatternCode
  | [] => .nil
  | item :: items =>
    .seq
      (if item.isStar then .nil
      else partCode (extractSteps "match_seq_item" place (patternItemIndex starIndex length idx))
        (testCode 0 item))
      (itemTestsCode place starIndex length (idx + 1) items)

def entryTestsCode (place : ℕ) : List (Expr × Pattern) → PatternCode
  | [] => .nil
  | (key, pattern) :: entries =>
    .seq (checkCode [.evaluate key, .loadTemp place, .compareIn])
      (.seq (partCode (lookupSteps "match_map_value" place key) (testCode 0 pattern))
        (entryTestsCode place entries))

/-- The code of `compile_or_pattern_test` after the first option. -/
def optionTestsCode (place : ℕ) : List Pattern → PatternCode
  | [] => .nil
  | option :: options =>
    .seq (.ofList [.dupTop]) (.seq (.br .done (.branch .jumpIfTrue))
      (.seq (.ofList [.popTop]) (.seq (testCode place option) (optionTestsCode place options))))

end

/-! ## Bindings -/

def bindSteps (place : ℕ) (name : String) : List PatternStep :=
  [.loadTemp place, .storeVariable name]

def starSteps (place : ℕ) (name : String) (length idx : ℕ) : List PatternStep :=
  let trailing := length - (idx + 1)
  [.loadVariable "list", .loadTemp place, .const (.int idx),
    .const (if trailing = 0 then .none else .int (-(trailing : ℤ))), .const .none, .buildSlice,
    .subscript, .call 1, .storeVariable name]

def restSteps (place : ℕ) (name : String) (entries : List (Expr × Pattern)) : List PatternStep :=
  [.fresh "match_map_rest", .loadVariable "dict", .loadTemp (place + 1), .call 1, .storeTemp 0] ++
    (entries.map (fun entry => .deleteItem 0 entry.1) ++
      [.loadTemp 0, .storeVariable name, .release])

mutual

/-- The code of `compile_pattern_bindings`. -/
def bindingsCode (place : ℕ) : Pattern → PatternCode
  | .wildcard | .constant _ | .value _ | .star none | .class _ _ _ => .nil
  | .capture name | .star (some name) => .ofList (bindSteps place name)
  | .as pattern name => .seq (bindingsCode place pattern) (.ofList (bindSteps place name))
  | .sequence items =>
    itemBindingsCode place (items.findIdx? (·.isStar)) items.length 0 items
  | .mapping entries rest =>
    .seq (entryBindingsCode place entries)
      (match rest with
      | some name => .ofList (restSteps place name entries)
      | none => .nil)
  | .or options => .block .done (optionBindingsCode place options)

def itemBindingsCode (place : ℕ) (starIndex : Option ℕ) (length idx : ℕ) :
    List Pattern → PatternCode
  | [] => .nil
  | .star (some name) :: items =>
    .seq (.ofList (starSteps place name length idx))
      (itemBindingsCode place starIndex length (idx + 1) items)
  | .star none :: items => itemBindingsCode place starIndex length (idx + 1) items
  | item :: items =>
    .seq (.ofList (extractSteps "match_bind_item" place (patternItemIndex starIndex length idx)))
      (.seq (bindingsCode 0 item) (.seq (.ofList [.release])
        (itemBindingsCode place starIndex length (idx + 1) items)))

def entryBindingsCode (place : ℕ) : List (Expr × Pattern) → PatternCode
  | [] => .nil
  | (key, pattern) :: entries =>
    .seq (.ofList (lookupSteps "match_map_bind" place key))
      (.seq (bindingsCode 0 pattern) (.seq (.ofList [.release]) (entryBindingsCode place entries)))

/-- All options but the last are tested again. -/
def optionBindingsCode (place : ℕ) : List Pattern → PatternCode
  | [] => .nil
  | [option] => bindingsCode place option
  | option :: options =>
    .seq (.block .next (.seq (testCode place option) (.seq (.br .next (.branch .jumpIfFalse))
      (.seq (bindingsCode place option) (.br .done (.branch .jump))))))
      (optionBindingsCode place options)

end

/-! ## Pending jumps -/

@[simp] lemma noJumps_apply (label : PatternLabel) : noJumps label = [] := rfl

lemma noJumps_eq : (fun _ => [] : PendingJumps) = noJumps := rfl

@[simp] lemma jumpsTo_self (label : PatternLabel) (jumps : List ℕ) :
    jumpsTo label jumps label = jumps := if_pos rfl

lemma jumpsTo_of_ne {label label' : PatternLabel} (h : label' ≠ label) (jumps : List ℕ) :
    jumpsTo label jumps label' = [] := if_neg h

@[simp] lemma jumpsTo_nil (label : PatternLabel) : jumpsTo label [] = noJumps := by
  funext label'
  simp [jumpsTo]

lemma jumpsTo_append (label : PatternLabel) (jumps jumps' : List ℕ) :
    (fun label' => jumpsTo label jumps label' ++ jumpsTo label jumps' label') =
      jumpsTo label (jumps ++ jumps') := by
  funext label'
  by_cases h : label' = label <;> simp [jumpsTo, h]

@[simp] lemma update_jumpsTo (label : PatternLabel) (jumps : List ℕ) :
    Function.update (jumpsTo label jumps) label [] = noJumps := by
  funext label'
  by_cases h : label' = label <;> simp [jumpsTo, h]

@[simp] lemma update_noJumps (label : PatternLabel) :
    Function.update noJumps label [] = noJumps := by
  simp [noJumps]

/-- A block keeps the jumps to other labels. -/
lemma update_jumpsTo_append {label label' : PatternLabel} (h : label' ≠ label)
    (jumps jumps' : List ℕ) :
    Function.update (fun other => jumpsTo label jumps other ++ jumpsTo label' jumps' other) label
      [] = jumpsTo label' jumps' := by
  funext other
  by_cases hother : other = label
  · simp [hother, jumpsTo_of_ne h.symm]
  · simp [hother, jumpsTo_of_ne hother]

/-! ## The code is what the compiler emits -/

section Assembly

variable (routines : Routines)

/-- The checks of a test leave their failures to be patched. -/
lemma assemble_outcomeCode {checks : PatternCode} {temps : List String}
    {action : CompileM (List ℕ)}
    (h : assemblePattern routines checks temps =
      action >>= fun jumps => pure (temps, jumpsTo .fail jumps)) :
    assemblePattern routines (outcomeCode checks) temps =
      action >>= fun jumps => emitTestOutcome jumps >>= fun _ => pure (temps, noJumps) := by
  simp [outcomeCode, assemblePattern, h, PatternStep.assemble, PatternStep.branchOpcode,
    constantToValue, emitTestOutcome, jumpsTo_of_ne, update_jumpsTo_append, patchJumps_singleton]

lemma assemble_ofList_append (steps steps' : List PatternStep) (temps : List String) :
    assemblePattern routines (.ofList (steps ++ steps')) temps =
      assemblePattern routines (.ofList steps) temps >>= fun result =>
        assemblePattern routines (.ofList steps') result.1 >>= fun result' =>
          pure (result'.1, fun label => result.2 label ++ result'.2 label) := by
  induction steps generalizing temps with
  | nil => simp [assemblePattern]
  | cons step steps ih => simp [assemblePattern, ih]

lemma assemble_deleteSteps (entries : List (Expr × Pattern)) (temps : List String) :
    assemblePattern routines
        (.ofList (entries.map fun entry => .deleteItem 0 entry.1)) temps =
      (entries.forM fun entry => do
        emitLoadName (temps.getD 0 "")
        routines.compileExpr entry.1
        emit .deleteSubscript none) >>= fun _ => pure (temps, noJumps) := by
  induction entries with
  | nil => simp [assemblePattern]
  | cons entry entries ih => simp [assemblePattern, PatternStep.assemble, ih]

/-- Two parts of a test share their failures. -/
lemma assemble_seq_fail {first second : PatternCode} {temps : List String}
    {action action' : CompileM (List ℕ)}
    (h : assemblePattern routines first temps =
      action >>= fun jumps => pure (temps, jumpsTo .fail jumps))
    (h' : assemblePattern routines second temps =
      action' >>= fun jumps => pure (temps, jumpsTo .fail jumps)) :
    assemblePattern routines (.seq first second) temps =
      (action >>= fun jumps => action' >>= fun jumps' => pure (jumps ++ jumps')) >>= fun jumps =>
        pure (temps, jumpsTo .fail jumps) := by
  simp [assemblePattern, h, h', jumpsTo_append]

attribute [local simp] assemblePattern PatternStep.assemble PatternStep.branchOpcode
  constantToValue

lemma assemble_isSequence (place : ℕ) (items : List Pattern) (temps : List String) :
    assemblePattern routines
        (.seq (checkCode (isSequenceSteps place)) (checkCode (lengthSteps place items))) temps =
      emitSequenceLengthTest items (temps.getD place "") >>= fun jumps =>
        pure (temps, jumpsTo .fail jumps) := by
  by_cases h : items.any (·.isStar) <;>
    simp [checkCode, isSequenceSteps, lengthSteps, emitSequenceLengthTest, h,
      jumpsTo_append]

lemma assemble_isMapping (place : ℕ) (temps : List String) :
    assemblePattern routines (checkCode (isMappingSteps place)) temps =
      (do
        emitLoadName "isinstance"
        emitLoadName (temps.getD place "")
        emitLoadName "dict"
        emit .callFunction (some 2)
        let jump ← emitJump .jumpIfFalse
        pure [jump]) >>= fun jumps => pure (temps, jumpsTo .fail jumps) := by
  simp [checkCode, isMappingSteps]

mutual

lemma assemble_testCode (place : ℕ) (pattern : Pattern) (h : pattern.IsData)
    (temps : List String) :
    assemblePattern routines (testCode place pattern) temps =
      compilePatternTest routines (temps.getD place "") pattern >>= fun _ =>
        pure (temps, noJumps) :=
  match pattern with
  | .wildcard => by simp [testCode, compilePatternTest]
  | .capture _ => by simp [testCode, compilePatternTest]
  | .constant value => by simp [testCode, compilePatternTest]
  | .sequence items => by
    obtain ⟨hstar, hitems⟩ := h
    have hchecks := assemble_seq_fail routines (assemble_isSequence routines place items temps)
      (assemble_itemTestsCode place (items.findIdx? (·.isStar)) items.length 0 items hitems temps)
    simp [testCode, compilePatternTest, not_lt.2 hstar, assemble_outcomeCode routines hchecks]
  | .mapping entries rest => by
    have hchecks := assemble_seq_fail routines (assemble_isMapping routines place temps)
      (assemble_entryTestsCode place entries h.1 temps)
    simp [testCode, compilePatternTest, assemble_outcomeCode routines hchecks]
  | .or [] => by simp [testCode, compilePatternTest]
  | .or (option :: options) => by
    obtain ⟨hoption, hoptions⟩ := h
    simp [testCode, compilePatternTest, assemble_testCode place option hoption,
      assemble_optionTestsCode place options hoptions]
  | .as pattern _ => by
    simpa only [testCode, compilePatternTest] using assemble_testCode place pattern h.1 temps

lemma assemble_itemTestsCode (place : ℕ) (starIndex : Option ℕ) (length idx : ℕ)
    (items : List Pattern) (h : ItemsAreData items) (temps : List String) :
    assemblePattern routines (itemTestsCode place starIndex length idx items) temps =
      compileSequenceItemTests routines (temps.getD place "") starIndex length idx items >>=
        fun jumps => pure (temps, jumpsTo .fail jumps) :=
  match items with
  | [] => by simp [itemTestsCode, compileSequenceItemTests]
  | item :: items => by
    have hitems := assemble_itemTestsCode place starIndex length (idx + 1) items
    by_cases hstar : item.isStar
    · simp [itemTestsCode, compileSequenceItemTests, hstar, hitems h.items]
    · simp [itemTestsCode, compileSequenceItemTests, hstar, hitems h.items, partCode, checkCode,
        extractSteps, emitExtractPatternItem, assemble_testCode 0 item (h.head hstar),
        jumpsTo_append]

lemma assemble_entryTestsCode (place : ℕ) (entries : List (Expr × Pattern))
    (h : EntriesAreData entries) (temps : List String) :
    assemblePattern routines (entryTestsCode place entries) temps =
      compileMappingEntryTests routines (temps.getD place "") entries >>=
        fun jumps => pure (temps, jumpsTo .fail jumps) :=
  match entries with
  | [] => by simp [entryTestsCode, compileMappingEntryTests]
  | (key, pattern) :: entries => by
    obtain ⟨-, hpattern, hentries⟩ := h
    simp [entryTestsCode, compileMappingEntryTests, partCode, checkCode, lookupSteps,
      assemble_testCode 0 pattern hpattern, assemble_entryTestsCode place entries hentries,
      jumpsTo_append]

lemma assemble_optionTestsCode (place : ℕ) (options : List Pattern)
    (h : OptionsAreData options) (temps : List String) :
    assemblePattern routines (optionTestsCode place options) temps =
      compileOptionTests routines (temps.getD place "") options >>=
        fun jumps => pure (temps, jumpsTo .done jumps) :=
  match options with
  | [] => by simp [optionTestsCode, compileOptionTests]
  | option :: options => by
    obtain ⟨hoption, hoptions⟩ := h
    simp [optionTestsCode, compileOptionTests, assemble_testCode place option hoption,
      assemble_optionTestsCode place options hoptions, jumpsTo_append]

end

lemma itemBindingsCode_cons {item : Pattern} (h : ¬ item.isStar) (place : ℕ)
    (starIndex : Option ℕ) (length idx : ℕ) (items : List Pattern) :
    itemBindingsCode place starIndex length idx (item :: items) =
      .seq (.ofList (extractSteps "match_bind_item" place (patternItemIndex starIndex length idx)))
        (.seq (bindingsCode 0 item) (.seq (.ofList [.release])
          (itemBindingsCode place starIndex length (idx + 1) items))) := by
  cases item with
  | star name => exact absurd rfl h
  | _ => rw [itemBindingsCode] <;> nofun

lemma compileSequenceItemBindings_cons {item : Pattern} (h : ¬ item.isStar) (subjectTemp : String)
    (starIndex : Option ℕ) (length idx : ℕ) (items : List Pattern) :
    compileSequenceItemBindings routines subjectTemp starIndex length idx (item :: items) = (do
      let temp ← freshTemp "match_bind_item"
      emitExtractPatternItem subjectTemp (patternItemIndex starIndex length idx) temp
      compilePatternBindings routines temp item
      compileSequenceItemBindings routines subjectTemp starIndex length (idx + 1) items) := by
  cases item with
  | star name => exact absurd rfl h
  | _ => rw [compileSequenceItemBindings] <;> simp

/-- An item of a sequence pattern is a star or has an index of its own. -/
lemma assemble_itemBinding {place : ℕ} {starIndex : Option ℕ} {length idx : ℕ}
    {item : Pattern} {items : List Pattern}
    (hitem : ¬ item.isStar → ∀ temps, assemblePattern routines (bindingsCode 0 item) temps =
      compilePatternBindings routines (temps.getD 0 "") item >>= fun _ => pure (temps, noJumps))
    (hitems : ∀ temps,
      assemblePattern routines (itemBindingsCode place starIndex length (idx + 1) items) temps =
        compileSequenceItemBindings routines (temps.getD place "") starIndex length (idx + 1)
          items >>= fun _ => pure (temps, noJumps)) (temps : List String) :
    assemblePattern routines (itemBindingsCode place starIndex length idx (item :: items)) temps =
      compileSequenceItemBindings routines (temps.getD place "") starIndex length idx
        (item :: items) >>= fun _ => pure (temps, noJumps) := by
  by_cases hstar : item.isStar
  · cases item with
    | star name =>
      cases name with
      | some name =>
        rw [itemBindingsCode, compileSequenceItemBindings]
        by_cases htrailing : length - (idx + 1) = 0 <;>
          simp [starSteps, emitStarBinding, hitems, htrailing]
      | none =>
        rw [itemBindingsCode, compileSequenceItemBindings]
        simp [hitems]
    | _ => cases hstar
  · rw [itemBindingsCode_cons hstar, compileSequenceItemBindings_cons routines hstar]
    simp [noJumps_eq, hitem hstar, hitems, extractSteps, emitExtractPatternItem]

mutual

lemma assemble_bindingsCode (place : ℕ) (pattern : Pattern) (h : pattern.IsData)
    (temps : List String) :
    assemblePattern routines (bindingsCode place pattern) temps =
      compilePatternBindings routines (temps.getD place "") pattern >>= fun _ =>
        pure (temps, noJumps) :=
  match pattern with
  | .wildcard => by simp [bindingsCode, compilePatternBindings]
  | .constant _ => by simp [bindingsCode, compilePatternBindings]
  | .capture name => by simp [bindingsCode, compilePatternBindings, bindSteps]
  | .as pattern name => by
    simp [bindingsCode, compilePatternBindings, bindSteps, assemble_bindingsCode place pattern h.1]
  | .sequence items => by
    simp [bindingsCode, compilePatternBindings, assemble_itemBindingsCode place _ _ 0 items h.2]
  | .mapping entries rest => by
    have hentries := assemble_entryBindingsCode place entries h.1
    cases rest with
    | none => simp [bindingsCode, compilePatternBindings, hentries]
    | some name =>
      simp [bindingsCode, compilePatternBindings, hentries, restSteps, emitMappingRest,
        assemble_ofList_append, assemble_deleteSteps]
  | .or options => by
    simp [bindingsCode, compilePatternBindings, assemble_optionBindingsCode place options h]

lemma assemble_itemBindingsCode (place : ℕ) (starIndex : Option ℕ) (length idx : ℕ)
    (items : List Pattern) (h : ItemsAreData items) (temps : List String) :
    assemblePattern routines (itemBindingsCode place starIndex length idx items) temps =
      compileSequenceItemBindings routines (temps.getD place "") starIndex length idx items >>=
        fun _ => pure (temps, noJumps) :=
  match items with
  | [] => by simp [itemBindingsCode, compileSequenceItemBindings]
  | item :: items => by
    have hitems := assemble_itemBindingsCode place starIndex length (idx + 1) items h.items
    have hitem := assemble_bindingsCode 0 item
    exact assemble_itemBinding routines (fun hstar => hitem (h.head hstar)) hitems temps

lemma assemble_entryBindingsCode (place : ℕ) (entries : List (Expr × Pattern))
    (h : EntriesAreData entries) (temps : List String) :
    assemblePattern routines (entryBindingsCode place entries) temps =
      compileMappingEntryBindings routines (temps.getD place "") entries >>=
        fun _ => pure (temps, noJumps) :=
  match entries with
  | [] => by simp [entryBindingsCode, compileMappingEntryBindings]
  | (key, pattern) :: entries => by
    obtain ⟨-, hpattern, hentries⟩ := h
    simp [noJumps_eq, entryBindingsCode, compileMappingEntryBindings, lookupSteps,
      assemble_bindingsCode 0 pattern hpattern, assemble_entryBindingsCode place entries hentries]

lemma assemble_optionBindingsCode (place : ℕ) (options : List Pattern)
    (h : OptionsAreData options) (temps : List String) :
    assemblePattern routines (optionBindingsCode place options) temps =
      compileOptionBindings routines (temps.getD place "") options >>=
        fun jumps => pure (temps, jumpsTo .done jumps) :=
  match options with
  | [] => by simp [optionBindingsCode, compileOptionBindings]
  | [option] => by
    simp [optionBindingsCode, compileOptionBindings, assemble_bindingsCode place option h.1]
  | option :: option' :: options => by
    obtain ⟨hoption, hoptions⟩ := h
    simp [optionBindingsCode, compileOptionBindings,
      assemble_testCode routines place option hoption,
      assemble_bindingsCode place option hoption, jumpsTo_of_ne, update_jumpsTo_append,
      patchJumps_singleton, assemble_optionBindingsCode place (option' :: options) hoptions,
      jumpsTo_append]

end

end Assembly

end Pyrs
