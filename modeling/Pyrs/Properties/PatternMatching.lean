import Pyrs.Properties.PatternCode

/-!
# The tests of patterns

The test of a pattern leaves whether the subject matches, as long as no literal `True` or `False`
meets another number that equals it: the code compares with `==`, where the language asks for the
object itself.
-/

namespace Pyrs

open StructuredCode

/-! ## The language -/

abbrev MatchBindings := List (String × MatchValue)

/-- `None`, `True` and `False` match themselves, other literals what equals them. -/
def literalMatches : Constant → MatchValue → Bool
  | .none, .scalar value => decide (value = .none)
  | .bool b, .scalar value => decide (value = .bool b)
  | literal, .scalar value => value.valueEq literal
  | _, _ => false

/-- The items of a value that a sequence pattern may match. -/
def sequenceItems : MatchValue → Option (List MatchValue)
  | .list items | .tuple items => some items
  | _ => none

lemma sequenceItems_eq_some {value : MatchValue} {items : List MatchValue}
    (h : sequenceItems value = some items) : value = .list items ∨ value = .tuple items := by
  cases value with
  | list => exact .inl (congrArg _ (Option.some.inj h))
  | tuple => exact .inr (congrArg _ (Option.some.inj h))
  | _ => cases h

def dictEntries : MatchValue → Option MatchEntries
  | .dict entries => some entries
  | _ => none

lemma dictEntries_eq_some {value : MatchValue} {entries : MatchEntries}
    (h : dictEntries value = some entries) : value = .dict entries := by
  cases value <;> cases h
  rfl

/-- The keys of a mapping pattern. -/
def patternKeys (entries : List (Expr × Pattern)) : List Constant :=
  entries.filterMap (·.1.literalValue)

/-- What `**rest` captures: the dict without the entries of the keys. -/
def restBindings (rest : Option String) (entries : List (Expr × Pattern)) (dict : MatchEntries) :
    MatchBindings :=
  rest.toList.map fun name => (name, .dict ((patternKeys entries).foldl removeEntry dict))

mutual

/-- What a pattern binds where it matches, in the order of the bindings. -/
def matchPattern : Pattern → MatchValue → Option MatchBindings
  | .wildcard, _ => some []
  | .capture name, value => some [(name, value)]
  | .constant literal, value => if literalMatches literal value then some [] else none
  | .sequence items, value =>
    match sequenceItems value with
    | some values => matchItems items values
    | none => none
  | .mapping entries rest, value =>
    match dictEntries value with
    | some dict => (matchEntries entries dict).map (· ++ restBindings rest entries dict)
    | none => none
  | .or options, value => matchOptions options value
  | .as pattern name, value => (matchPattern pattern value).map (· ++ [(name, value)])
  | .value _, _ | .class _ _ _, _ | .star _, _ => none

/-- A star takes what the items behind it leave. -/
def matchItems : List Pattern → List MatchValue → Option MatchBindings
  | [], [] => some []
  | [], _ :: _ => none
  | .star name :: items, values =>
    if items.length ≤ values.length then
      let count := values.length - items.length
      (matchItems items (values.drop count)).map
        (name.toList.map (fun name => (name, .list (values.take count))) ++ ·)
    else none
  | _ :: _, [] => none
  | item :: items, value :: values =>
    match matchPattern item value with
    | some bindings => (matchItems items values).map (bindings ++ ·)
    | none => none

def matchEntries : List (Expr × Pattern) → MatchEntries → Option MatchBindings
  | [], _ => some []
  | (key, pattern) :: entries, dict =>
    match key.literalValue.bind (findEntry dict) with
    | some entry =>
      match matchPattern pattern entry.2 with
      | some bindings => (matchEntries entries dict).map (bindings ++ ·)
      | none => none
    | none => none

/-- The first option that matches. -/
def matchOptions : List Pattern → MatchValue → Option MatchBindings
  | [], _ => none
  | option :: options, value =>
    match matchPattern option value with
    | some bindings => some bindings
    | none => matchOptions options value

end

/-! ## Where the code differs -/

/-- A literal `True` or `False` meets another number that equals it. -/
def Confused (literal : Constant) (value : MatchValue) : Prop :=
  ∃ b other, literal = .bool b ∧ value = .scalar other ∧ other ≠ .bool b ∧
    other.valueEq (.bool b) = true

/-- No two of the keys are those of one entry. -/
def KeysApart (keys : List Constant) (dict : MatchEntries) : Prop :=
  keys.Pairwise fun key key' =>
    ∀ entry ∈ dict, entry.1.keyEqual key = true → entry.1.keyEqual key' = false

/-- Whether a sequence pattern allows a number of items. -/
def fitsLength (items : List Pattern) (length : ℕ) : Bool :=
  if items.any (·.isStar) then decide (items.length - items.countP (·.isStar) ≤ length)
  else decide (length = items.length)

mutual

/-- No literal that is reached in matching is confused with a number, and a `**rest` has keys that
are apart. -/
def Pattern.Clear : Pattern → MatchValue → Prop
  | .constant literal, value => ¬ Confused literal value
  | .sequence items, value =>
    match sequenceItems value with
    | some values => fitsLength items values.length → ItemsClear items values
    | none => True
  | .mapping entries rest, value =>
    match dictEntries value with
    | some dict => EntriesClear entries dict ∧ (rest.isSome → KeysApart (patternKeys entries) dict)
    | none => True
  | .or options, value => OptionsClear options value
  | .as pattern _, value => pattern.Clear value
  | .wildcard, _ | .capture _, _ | .value _, _ | .class _ _ _, _ | .star _, _ => True

def ItemsClear : List Pattern → List MatchValue → Prop
  | [], _ => True
  | .star _ :: items, values => ItemsClear items (values.drop (values.length - items.length))
  | _ :: _, [] => True
  | item :: items, value :: values =>
    item.Clear value ∧ ((matchPattern item value).isSome → ItemsClear items values)

def EntriesClear : List (Expr × Pattern) → MatchEntries → Prop
  | [], _ => True
  | (key, pattern) :: entries, dict =>
    ∀ entry ∈ key.literalValue.bind (findEntry dict),
      pattern.Clear entry.2 ∧ ((matchPattern pattern entry.2).isSome → EntriesClear entries dict)

def OptionsClear : List Pattern → MatchValue → Prop
  | [], _ => True
  | option :: options, value =>
    option.Clear value ∧ ((matchPattern option value).isNone → OptionsClear options value)

end

/-! ## Runs -/

namespace PatternState

/-- No variable hides a builtin name that the code reads. -/
def BuiltinsFree (state : PatternState) : Prop :=
  ∀ name ∈ matchBuiltins, state.vars name = none

/-- The builtin names stand for themselves, and no load of a temporary finds a cached value. -/
def Ready (state : PatternState) : Prop :=
  state.BuiltinsFree ∧ ∀ load, state.entries load = none

/-- The state with a value in a new temporary. -/
def withTemp (state : PatternState) (value : MatchValue) : PatternState :=
  { state with temps := some value :: state.temps }

def pushBool (state : PatternState) (b : Bool) : PatternState :=
  state.push (.scalar (.bool b))

/-- The code leaves the state as it is, and fails unless the condition holds. -/
def Checks (state : PatternState) (code : PatternCode) (condition : Bool) : Prop :=
  state.run code = some (if condition then none else some .fail, state)

variable {state state' : PatternState}

lemma run_ofList (steps : List PatternStep) :
    state.run (.ofList steps) =
      (steps.foldlM PatternStep.execute state).map (none, ·) :=
  SCode.run_ofList steps

lemma run_of_steps {steps : List PatternStep}
    (h : steps.foldlM PatternStep.execute state = some state') :
    state.run (.ofList steps) = some (none, state') := by
  rw [run_ofList, h]
  rfl

lemma run_seq {first second : PatternCode} (h : state.run first = some (none, state')) :
    state.run (.seq first second) = state'.run second :=
  SCode.run_seq h

lemma load_of_free (h : state.Ready) (name : String) (hname : name ∈ matchBuiltins) :
    state.load name = some (.builtin name) := by
  rw [load, h.1 name hname, if_pos hname]
  rfl

lemma checks_seq {first second : PatternCode} {condition condition' : Bool}
    (h : state.Checks first condition)
    (h' : condition = true → state.Checks second condition') :
    state.Checks (.seq first second) (condition && condition') := by
  cases condition with
  | false => exact SCode.run_seq_exit h
  | true => exact (run_seq h).trans (h' rfl)

lemma checks_seq_false {first second : PatternCode} (h : state.Checks first false) :
    state.Checks (.seq first second) false :=
  SCode.run_seq_exit h

lemma checks_nil : state.Checks .nil true := rfl

/-- A jump on a boolean. -/
lemma run_jumpIfFalse {label : PatternLabel} (b : Bool) :
    (state.pushBool b).run (.br label (.branch .jumpIfFalse)) =
      some (if b then none else some label, state) := by
  cases b <;> rfl

/-- Steps that leave a boolean, and the jump on it. -/
lemma run_checkCode {steps : List PatternStep} {b : Bool}
    (h : steps.foldlM PatternStep.execute state = some (state'.pushBool b)) :
    state.run (checkCode steps) = some (if b then none else some .fail, state') :=
  (run_seq (run_of_steps h)).trans (run_jumpIfFalse b)

/-- The test of a part leaves no temporary. -/
lemma checks_partCode {steps : List PatternStep} {test : PatternCode} {part : MatchValue}
    {b : Bool}
    (hsteps : steps.foldlM PatternStep.execute state =
      some (state.withTemp part))
    (htest : (state.withTemp part).run test = some (none, (state.withTemp part).pushBool b)) :
    state.Checks (partCode steps test) b :=
  (run_seq (run_of_steps hsteps)).trans ((run_seq htest).trans (run_checkCode rfl))

/-- The outcome of a test is whether its checks hold. -/
lemma run_outcomeCode {checks : PatternCode} {b : Bool} (h : state.Checks checks b) :
    state.run (outcomeCode checks) = some (none, state.pushBool b) := by
  cases b with
  | true =>
    have hpass : state.run (.seq checks (.seq (.ofList [.const (.bool true)])
        (.br .done (.branch .jump)))) = some (some .done, state.pushBool true) :=
      (run_seq h).trans rfl
    exact SCode.run_block_exit (SCode.run_seq_exit (SCode.run_block_other hpass nofun))
  | false =>
    have hfail : state.run (.block .fail (.seq checks (.seq (.ofList [.const (.bool true)])
        (.br .done (.branch .jump))))) = some (none, state) :=
      SCode.run_block_exit (SCode.run_seq_exit h)
    exact SCode.run_block ((run_seq hfail).trans rfl)

/-! ## Steps -/

@[simp] lemma temp_withTemp_zero (value : MatchValue) :
    (state.withTemp value).temp 0 = some value := rfl

variable {place : ℕ} {value : MatchValue}

/-- A step, and what the steps behind it lead to. -/
lemma execute_cons {step : PatternStep} {steps : List PatternStep} {last : Option PatternState}
    (h : step.execute state = some state')
    (hsteps : steps.foldlM PatternStep.execute state' = last) :
    (step :: steps).foldlM PatternStep.execute state = last := by
  rw [List.foldlM_cons, h]
  exact hsteps

/-- Without entries of the cache, a load finds the temporary and leaves the state as it is. -/
lemma loadTemp_of_ready (hready : state.Ready) (h : state.temp place = some value) :
    state.loadTemp place = some (value, state) := by
  obtain ⟨stack, temps, vars, entries⟩ := state
  obtain rfl : entries = fun _ => none := funext hready.2
  rw [loadTemp, h]
  rfl

lemma execute_loadTemp (hready : state.Ready) (h : state.temp place = some value) :
    (PatternStep.loadTemp place).execute state = some (state.push value) := by
  rw [PatternStep.execute, loadTemp_of_ready hready h]
  rfl

lemma execute_loadVariable {name : String} (h : state.load name = some value) :
    (PatternStep.loadVariable name).execute state = some (state.push value) :=
  congrArg (Option.map state.push) h

lemma execute_evaluate {key : Expr} {literal : Constant} (h : key.literalValue = some literal) :
    (PatternStep.evaluate key).execute state = some (state.push (.scalar literal)) :=
  congrArg (Option.map fun literal => state.push (.scalar literal)) h

/-- An operation takes its operands from the stack. -/
lemma combine_push {operation : MatchValue → MatchValue → Option MatchValue}
    {left right : MatchValue} (h : operation left right = some value) :
    ((state.push left).push right).combine operation = some (state.push value) :=
  congrArg (Option.map state.push) h

/-- A call of a builtin function takes the function and the argument from the stack. -/
lemma call_push {function : String} {argument : MatchValue}
    (h : callBuiltin function [argument] = some value) :
    ((state.push (.builtin function)).push argument).call 1 = some (state.push value) :=
  congrArg (Option.map state.push) h

lemma execute_compareEq {left right : MatchValue} {b : Bool}
    (h : compareEqValues left right = some b) :
    PatternStep.compareEq.execute ((state.push left).push right) = some (state.pushBool b) := by
  rw [PatternStep.execute]
  refine combine_push ?_
  rw [h]
  rfl

lemma execute_isSequenceSteps (hready : state.Ready) (htemp : state.temp place = some value) :
    (isSequenceSteps place).foldlM PatternStep.execute state =
      some (state.pushBool (sequenceItems value).isSome) := by
  have hisinstance := load_of_free hready "isinstance" (by simp [matchBuiltins])
  have hlist := load_of_free hready "list" (by simp [matchBuiltins])
  have htuple := load_of_free hready "tuple" (by simp [matchBuiltins])
  refine execute_cons (execute_loadVariable hisinstance)
    (execute_cons (execute_loadTemp hready htemp) ?_)
  refine execute_cons (execute_loadVariable hlist) (execute_cons (execute_loadVariable htuple) ?_)
  cases value <;> rfl

lemma execute_isMappingSteps (hready : state.Ready) (htemp : state.temp place = some value) :
    (isMappingSteps place).foldlM PatternStep.execute state =
      some (state.pushBool (dictEntries value).isSome) := by
  have hisinstance := load_of_free hready "isinstance" (by simp [matchBuiltins])
  have hdict := load_of_free hready "dict" (by simp [matchBuiltins])
  refine execute_cons (execute_loadVariable hisinstance)
    (execute_cons (execute_loadTemp hready htemp) ?_)
  refine execute_cons (execute_loadVariable hdict) ?_
  cases value <;> rfl

lemma execute_lengthSteps (hready : state.Ready) (htemp : state.temp place = some value)
    {values : List MatchValue} (hvalues : sequenceItems value = some values)
    (items : List Pattern) :
    (lengthSteps place items).foldlM PatternStep.execute state =
      some (state.pushBool (fitsLength items values.length)) := by
  have hlen := load_of_free hready "len" (by simp [matchBuiltins])
  have hcall : callBuiltin "len" [value] = some (.scalar (.int values.length)) := by
    rcases sequenceItems_eq_some hvalues with rfl | rfl <;> rfl
  refine execute_cons (execute_loadVariable hlen) ?_
  refine execute_cons (execute_loadTemp hready htemp) (execute_cons (call_push hcall) ?_)
  by_cases hstar : items.any (·.isStar)
  · have hge : decide (((items.length - items.countP (·.isStar) : ℕ) : ℤ) ≤ values.length) =
        fitsLength items values.length := by
      simp [fitsLength, hstar]
    rw [if_pos hstar, ← hge]
    rfl
  · have hequal : ((values.length : ℤ) == items.length) = fitsLength items values.length := by
      rw [fitsLength, if_neg hstar, Bool.eq_iff_iff]
      simp
    rw [if_neg hstar, ← hequal]
    rfl

lemma execute_extractSteps (hready : state.Ready) (kind : String)
    (htemp : state.temp place = some value)
    {index : ℤ}
    {item : MatchValue} (hitem : getItemValue value (.scalar (.int index)) = some item) :
    (extractSteps kind place index).foldlM PatternStep.execute state =
      some (state.withTemp item) := by
  have hfresh : PatternState.temp { state with temps := none :: state.temps } (place + 1) =
      some value := htemp
  refine execute_cons rfl (execute_cons (execute_loadTemp hready hfresh) ?_)
  exact execute_cons rfl (execute_cons (combine_push hitem) rfl)

lemma execute_lookupSteps (hready : state.Ready) (kind : String) {dict : MatchEntries}
    (htemp : state.temp place = some (.dict dict)) {key : Expr} {entry : MatchValue × MatchValue}
    (hentry : key.literalValue.bind (findEntry dict) = some entry) :
    (lookupSteps kind place key).foldlM PatternStep.execute state =
      some (state.withTemp entry.2) := by
  have hfresh : PatternState.temp { state with temps := none :: state.temps } (place + 1) =
      some (.dict dict) := htemp
  obtain ⟨literal, hliteral, hfind⟩ := Option.bind_eq_some_iff.1 hentry
  have hitem : getItemValue (.dict dict) (.scalar literal) = some entry.2 :=
    congrArg (Option.map Prod.snd) hfind
  refine execute_cons rfl (execute_cons (execute_loadTemp hready hfresh) ?_)
  exact execute_cons (execute_evaluate hliteral) (execute_cons (combine_push hitem) rfl)

end PatternState

/-! ## Literals -/

/-- A literal that is not confused matches what it is compared equal to. -/
lemma compareEqValues_literal {literal : Constant} {value : MatchValue}
    (h : ¬ Confused literal value) :
    compareEqValues value (.scalar literal) = some (literalMatches literal value) := by
  cases value with
  | scalar value =>
    cases literal with
    | none => cases value <;> rfl
    | bool b =>
      simp only [compareEqValues, literalMatches, Option.some.injEq]
      by_cases hvalue : value = .bool b
      · subst hvalue
        simp [Constant.valueEq, Constant.number, Number.eq]
      · rw [decide_eq_false hvalue, ← Bool.not_eq_true]
        exact fun hequal => h ⟨b, value, rfl, rfl, hvalue, hequal⟩
    | _ => rfl
  | _ => cases literal <;> rfl

/-! ## Positions of items -/

lemma resolveIndex_of_lt {length position : ℕ} (h : position < length) :
    resolveIndex length position = some position := by
  have hnonneg : ¬ (position : ℤ) < 0 := by omega
  have hin : ¬ ((position : ℤ) < 0 ∨ (length : ℤ) ≤ position) := by omega
  simp only [resolveIndex, if_neg hnonneg, if_neg hin, Int.toNat_natCast]

lemma resolveIndex_neg {length distance : ℕ} (hpos : 0 < distance) (h : distance ≤ length) :
    resolveIndex length (-(distance : ℤ)) = some (length - distance) := by
  have hneg : -(distance : ℤ) < 0 := by omega
  have hin : ¬ (-(distance : ℤ) + length < 0 ∨ (length : ℤ) ≤ -(distance : ℤ) + length) := by omega
  simp only [resolveIndex, if_pos hneg, if_neg hin, Option.some.injEq]
  omega

lemma matchItems_cons {item : Pattern} (h : ¬ item.isStar) (items : List Pattern)
    (value : MatchValue) (values : List MatchValue) :
    matchItems (item :: items) (value :: values) =
      (matchPattern item value).bind fun bindings =>
        (matchItems items values).map (bindings ++ ·) := by
  rw [matchItems]
  · cases matchPattern item value <;> rfl
  · rintro name rfl
    exact h rfl

lemma matchItems_cons_nil {item : Pattern} (h : ¬ item.isStar) (items : List Pattern) :
    matchItems (item :: items) [] = none := by
  rw [matchItems]
  rintro name rfl
  exact h rfl

/-- The position of the value for an item: from the end behind a star. -/
def itemPosition (starIndex : Option ℕ) (length count idx : ℕ) : ℕ :=
  match starIndex with
  | some star => if star < idx then count - (length - idx) else idx
  | none => idx

lemma itemPosition_zero (starIndex : Option ℕ) (length count : ℕ) :
    itemPosition starIndex length count 0 = 0 := by
  cases starIndex <;> rfl

/-- A sequence of so many values has a place for each item. -/
def Fits (starIndex : Option ℕ) (length count : ℕ) : Prop :=
  match starIndex with
  | some star => star < length ∧ length ≤ count + 1
  | none => count = length

/-- Behind the last item are no values. -/
lemma Fits.itemPosition_self {starIndex : Option ℕ} {length count : ℕ}
    (h : Fits starIndex length count) : itemPosition starIndex length count length = count := by
  cases starIndex with
  | none => exact h.symm
  | some star =>
    rw [itemPosition, if_pos h.1]
    omega

/-- The star among the items from an index on, if there is one, is at the index given. -/
def StarAt (starIndex : Option ℕ) (idx : ℕ) : List Pattern → Prop
  | [] => True
  | item :: items =>
    (item.isStar = true ↔ starIndex = some idx) ∧ StarAt starIndex (idx + 1) items

section Positions

variable {starIndex : Option ℕ} {length idx : ℕ} {values : List MatchValue} {item : Pattern}
  {items : List Pattern}

lemma starAt_of_countP_eq_zero {star : ℕ} (h : items.countP (·.isStar) = 0) (hidx : star < idx) :
    StarAt (some star) idx items := by
  induction items generalizing idx with
  | nil => trivial
  | cons item items ih =>
    rw [List.countP_eq_zero] at h
    have htail : items.countP (·.isStar) = 0 :=
      List.countP_eq_zero.2 fun other hother => h other (by simp [hother])
    refine ⟨?_, ih htail (by omega)⟩
    have hitem := h item (by simp)
    simp only [hitem, false_iff, Option.some.injEq, Bool.false_eq_true]
    omega

lemma starAt_findIdx? (h : items.countP (·.isStar) ≤ 1) (idx : ℕ) :
    StarAt ((items.findIdx? (·.isStar)).map (· + idx)) idx items := by
  induction items generalizing idx with
  | nil => trivial
  | cons item items ih =>
    rw [List.findIdx?_cons]
    by_cases hitem : item.isStar
    · have htail : items.countP (·.isStar) = 0 := by
        simpa [List.countP_cons, hitem] using h
      simp only [hitem, if_true, Option.map_some, Nat.zero_add]
      exact ⟨by simp [hitem], starAt_of_countP_eq_zero htail (by omega)⟩
    · rw [List.countP_cons_of_neg hitem] at h
      have htail := ih h (idx + 1)
      have hshift : ((items.findIdx? (·.isStar)).map (· + 1)).map (· + idx) =
          (items.findIdx? (·.isStar)).map (· + (idx + 1)) := by
        rw [Option.map_map]
        congr 1
        funext other
        simp only [Function.comp_apply]
        omega
      simp only [hitem, Bool.false_eq_true, if_false, hshift]
      refine ⟨?_, htail⟩
      simp only [hitem, Bool.false_eq_true, false_iff, Option.map_eq_some_iff, not_exists, not_and]
      intro other _
      omega

lemma starAt_start (h : items.countP (·.isStar) ≤ 1) :
    StarAt (items.findIdx? (·.isStar)) 0 items := by
  simpa using starAt_findIdx? h 0

lemma fits_of_fitsLength {count : ℕ} (hstar : items.countP (·.isStar) ≤ 1)
    (h : fitsLength items count = true) :
    Fits (items.findIdx? (·.isStar)) items.length count := by
  unfold fitsLength at h
  cases hidx : items.findIdx? (·.isStar) with
  | none =>
    have hany : ¬ items.any (·.isStar) = true := by
      simpa using List.findIdx?_eq_none_iff.1 hidx
    rw [if_neg hany] at h
    exact (of_decide_eq_true h : count = items.length)
  | some star =>
    obtain ⟨hlt, hitem, -⟩ := List.findIdx?_eq_some_iff_getElem.1 hidx
    have hany : items.any (·.isStar) = true :=
      List.any_eq_true.2 ⟨items[star], List.getElem_mem hlt, hitem⟩
    rw [if_pos hany] at h
    have hle := of_decide_eq_true h
    exact ⟨hlt, by omega⟩

/-- What matches has the length that the code tests for. -/
lemma fitsLength_of_matchItems {bindings : MatchBindings}
    (h : matchItems items values = some bindings) : fitsLength items values.length = true := by
  have hlength : items.length - items.countP (·.isStar) ≤ values.length ∧
      (items.any (·.isStar) = false → values.length = items.length) := by
    induction items generalizing values bindings with
    | nil =>
      cases values with
      | nil => simp
      | cons value values => simp [matchItems] at h
    | cons item items ih =>
      by_cases hitem : item.isStar
      · cases item with
        | star name =>
          rw [matchItems] at h
          split at h
          · simp only [List.length_cons, List.countP_cons, hitem, if_true, List.any_cons,
              Bool.true_or, Bool.true_eq_false, false_implies, and_true]
            omega
          · cases h
        | _ => cases hitem
      · cases values with
        | nil => simp [matchItems_cons_nil hitem] at h
        | cons value values =>
          rw [matchItems_cons hitem, Option.bind_eq_some_iff] at h
          obtain ⟨first, -, h⟩ := h
          obtain ⟨rest, hrest, -⟩ := Option.map_eq_some_iff.1 h
          obtain ⟨hle, hlength⟩ := ih hrest
          simp only [List.length_cons, List.countP_cons, hitem, Bool.false_eq_true, if_false,
            List.any_cons, Bool.false_or, Nat.add_right_cancel_iff]
          exact ⟨by omega, hlength⟩
  unfold fitsLength
  split
  · exact decide_eq_true hlength.1
  · exact decide_eq_true (hlength.2 (by simpa using ‹¬ items.any (·.isStar) = true›))

lemma getItemValue_position {value : MatchValue} (hvalues : sequenceItems value = some values)
    (hfits : Fits starIndex length values.length) (hidx : idx < length)
    (hstar : starIndex ≠ some idx) :
    ∃ part,
      getItemValue value (.scalar (.int (patternItemIndex starIndex length idx))) = some part ∧
      values.drop (itemPosition starIndex length values.length idx) =
        part :: values.drop (itemPosition starIndex length values.length (idx + 1)) := by
  have hget : ∀ index, getItemValue value (.scalar (.int index)) =
      (resolveIndex values.length index).bind (values[·]?) := by
    intro index
    rcases sequenceItems_eq_some hvalues with rfl | rfl <;> rfl
  obtain ⟨position, hresolve, hposition, hnext, hlt⟩ : ∃ position,
      resolveIndex values.length (patternItemIndex starIndex length idx) = some position ∧
      itemPosition starIndex length values.length idx = position ∧
      itemPosition starIndex length values.length (idx + 1) = position + 1 ∧
      position < values.length := by
    cases starIndex with
    | none =>
      simp only [Fits] at hfits
      exact ⟨idx, resolveIndex_of_lt (by omega), rfl, rfl, by omega⟩
    | some star =>
      obtain ⟨hlt, hle⟩ := hfits
      have hne : star ≠ idx := fun h => hstar (by rw [h])
      by_cases hbehind : star < idx
      · refine ⟨values.length - (length - idx), ?_, ?_, ?_, by omega⟩
        · rw [patternItemIndex, if_pos hbehind]
          exact resolveIndex_neg (by omega) (by omega)
        · simp [itemPosition, hbehind]
        · simp only [itemPosition, if_pos (show star < idx + 1 by omega)]
          omega
      · refine ⟨idx, ?_, ?_, ?_, by omega⟩
        · rw [patternItemIndex, if_neg hbehind]
          exact resolveIndex_of_lt (by omega)
        · simp [itemPosition, hbehind]
        · simp only [itemPosition, if_neg (show ¬ star < idx + 1 by omega)]
  refine ⟨values[position], ?_, ?_⟩
  · rw [hget, hresolve]
    simp [hlt]
  · rw [hposition, hnext]
    exact List.drop_eq_getElem_cons hlt

lemma drop_itemPosition_star (hfits : Fits (some idx) length values.length) :
    (values.drop idx).drop ((values.drop idx).length - (length - (idx + 1))) =
      values.drop (itemPosition (some idx) length values.length (idx + 1)) := by
  obtain ⟨hlt, hle⟩ := hfits
  rw [List.drop_drop, List.length_drop, itemPosition, if_pos (Nat.lt_succ_self idx)]
  congr 1
  omega

end Positions

/-! ## Tests -/

open PatternState

lemma isSome_matchItems_cons {item : Pattern} (h : ¬ item.isStar) (items : List Pattern)
    (value : MatchValue) (values : List MatchValue) :
    (matchItems (item :: items) (value :: values)).isSome =
      ((matchPattern item value).isSome && (matchItems items values).isSome) := by
  rw [matchItems_cons h]
  cases matchPattern item value <;> simp

lemma ItemsClear.cons {item : Pattern} {items : List Pattern} {value : MatchValue}
    {values : List MatchValue} (h : ItemsClear (item :: items) (value :: values))
    (hstar : ¬ item.isStar) :
    item.Clear value ∧ ((matchPattern item value).isSome → ItemsClear items values) := by
  rw [ItemsClear] at h
  · exact h
  · rintro name rfl
    exact hstar rfl

/-- The check that a key is in the dict. -/
lemma checks_key {state : PatternState} {place : ℕ} {dict : MatchEntries} (hready : state.Ready)
    (htemp : state.temp place = some (.dict dict)) {key : Expr} (hkey : key.literalValue.isSome) :
    state.Checks (checkCode [.evaluate key, .loadTemp place, .compareIn])
      (key.literalValue.bind (findEntry dict)).isSome := by
  obtain ⟨literal, hliteral⟩ := Option.isSome_iff_exists.1 hkey
  rw [hliteral]
  exact run_checkCode
    (execute_cons (execute_evaluate hliteral) (execute_cons (execute_loadTemp hready htemp) rfl))

/-- What is done with the options of a test is at the label or behind them. -/
lemma run_block_either {state state' : PatternState} {code : PatternCode}
    {exit : Option PatternLabel} {label : PatternLabel} (hexit : exit = none ∨ exit = some label)
    (h : state.run code = some (exit, state')) :
    state.run (.block label code) = some (none, state') := by
  rcases hexit with rfl | rfl
  · exact SCode.run_block h
  · exact SCode.run_block_exit h

mutual

lemma run_testCode (place : ℕ) (pattern : Pattern) (hdata : pattern.IsData) (value : MatchValue)
    (hclear : pattern.Clear value) (state : PatternState) (hready : state.Ready)
    (htemp : state.temp place = some value) :
    state.run (testCode place pattern) =
      some (none, state.pushBool (matchPattern pattern value).isSome) :=
  match pattern with
  | .wildcard => by simp only [testCode, matchPattern]; rfl
  | .capture _ => by simp only [testCode, matchPattern]; rfl
  | .constant literal => by
    simp only [testCode, matchPattern]
    refine run_of_steps (execute_cons (execute_loadTemp hready htemp) (execute_cons rfl ?_))
    refine execute_cons (execute_compareEq (compareEqValues_literal hclear)) ?_
    cases literalMatches literal value <;> rfl
  | .sequence items => by
    obtain ⟨hstar, hitems⟩ := hdata
    simp only [testCode, matchPattern]
    refine run_outcomeCode ?_
    have hsequence := run_checkCode (execute_isSequenceSteps hready htemp)
    cases hvalues : sequenceItems value with
    | none =>
      rw [hvalues] at hsequence
      exact checks_seq_false (checks_seq_false hsequence)
    | some values =>
      rw [hvalues] at hsequence
      simp only [Pattern.Clear, hvalues] at hclear
      have hlength := run_checkCode (execute_lengthSteps hready htemp hvalues items)
      have hshape : state.Checks _ (fitsLength items values.length) :=
        checks_seq hsequence fun _ => hlength
      cases hfit : fitsLength items values.length with
      | false =>
        rw [hfit] at hshape
        have hnone : matchItems items values = none := by
          refine Option.eq_none_iff_forall_ne_some.2 fun bindings hbindings => ?_
          simp [fitsLength_of_matchItems hbindings] at hfit
        simp only [hnone]
        exact checks_seq_false hshape
      | true =>
        rw [hfit] at hshape
        have hstart := itemPosition_zero (items.findIdx? (·.isStar)) items.length values.length
        have hitemTests := checks_itemTestsCode place _ items.length 0 items hitems hvalues
          (Nat.zero_add _) (starAt_start hstar) (fits_of_fitsLength hstar hfit)
          (by simpa [hstart] using hclear hfit) state hready htemp
        rw [hstart, List.drop_zero] at hitemTests
        exact checks_seq hshape fun _ => hitemTests
  | .mapping entries rest => by
    simp only [testCode, matchPattern]
    refine run_outcomeCode ?_
    have hmapping := run_checkCode (execute_isMappingSteps hready htemp)
    cases hdict : dictEntries value with
    | none =>
      rw [hdict] at hmapping
      exact checks_seq_false hmapping
    | some dict =>
      rw [hdict] at hmapping
      simp only [Pattern.Clear, hdict] at hclear
      obtain rfl := dictEntries_eq_some hdict
      simp only [Option.isSome_map]
      exact checks_seq hmapping fun _ =>
        checks_entryTestsCode place entries hdata.1 hclear.1 state hready htemp
  | .or [] => by simp only [testCode, matchPattern]; rfl
  | .or (option :: options) => by
    obtain ⟨hoption, hoptions⟩ := hdata
    obtain ⟨hclear, hclears⟩ := hclear
    have hfirst := run_testCode place option hoption value hclear state hready htemp
    obtain ⟨exit, hexit, hrest⟩ := run_optionTestsCode place options hoptions value
      (matchPattern option value).isSome (fun hnone => hclears (by simpa using hnone)) state hready
      htemp
    simp only [testCode]
    rw [run_block_either hexit ((run_seq hfirst).trans hrest)]
    simp only [matchPattern, matchOptions]
    cases matchPattern option value <;> simp
  | .as pattern name => by
    simp only [testCode, matchPattern, Option.isSome_map]
    exact run_testCode place pattern hdata.1 value hclear state hready htemp

lemma checks_itemTestsCode (place : ℕ) (starIndex : Option ℕ) (length idx : ℕ)
    (items : List Pattern) (hdata : ItemsAreData items) {value : MatchValue}
    {values : List MatchValue} (hvalues : sequenceItems value = some values)
    (hlength : idx + items.length = length) (hstar : StarAt starIndex idx items)
    (hfits : Fits starIndex length values.length)
    (hclear : ItemsClear items (values.drop (itemPosition starIndex length values.length idx)))
    (state : PatternState) (hready : state.Ready) (htemp : state.temp place = some value) :
    state.Checks (itemTestsCode place starIndex length idx items)
      (matchItems items (values.drop (itemPosition starIndex length values.length idx))).isSome :=
  match items with
  | [] => by
    obtain rfl : idx = length := hlength
    rw [hfits.itemPosition_self, List.drop_length, itemTestsCode, matchItems]
    exact checks_nil
  | item :: items => by
    obtain ⟨hitem, hstar⟩ := hstar
    rw [List.length_cons] at hlength
    have hitems := checks_itemTestsCode place starIndex length (idx + 1) items hdata.items hvalues
      (by omega) hstar hfits
    by_cases hitemStar : item.isStar
    · obtain rfl := hitem.1 hitemStar
      have htail : length - (idx + 1) = items.length := by omega
      have hdrop := drop_itemPosition_star hfits
      rw [htail] at hdrop
      have hposition : itemPosition (some idx) length values.length idx = idx := by
        simp [itemPosition]
      cases item with
      | star name =>
        rw [hposition] at hclear ⊢
        rw [ItemsClear, hdrop] at hclear
        have hle : items.length ≤ (values.drop idx).length := by
          obtain ⟨-, hle⟩ := hfits
          rw [List.length_drop]
          omega
        rw [matchItems, if_pos hle]
        simp only [hdrop, Option.isSome_map]
        rw [itemTestsCode, if_pos hitemStar]
        exact checks_seq checks_nil fun _ => hitems hclear state hready htemp
      | _ => cases hitemStar
    · obtain ⟨part, hpart, hdrop⟩ := getItemValue_position hvalues hfits
        (show idx < length by omega) fun h => hitemStar (hitem.2 h)
      rw [hdrop] at hclear ⊢
      obtain ⟨hclear, hclears⟩ := hclear.cons hitemStar
      rw [isSome_matchItems_cons hitemStar, itemTestsCode, if_neg hitemStar]
      refine checks_seq (checks_partCode (execute_extractSteps hready _ htemp hpart) ?_)
        fun hmatch => hitems (hclears hmatch) state hready htemp
      exact run_testCode 0 item (hdata.head hitemStar) part hclear _ hready rfl

lemma checks_entryTestsCode (place : ℕ) (entries : List (Expr × Pattern))
    (hdata : EntriesAreData entries) {dict : MatchEntries} (hclear : EntriesClear entries dict)
    (state : PatternState) (hready : state.Ready)
    (htemp : state.temp place = some (.dict dict)) :
    state.Checks (entryTestsCode place entries) (matchEntries entries dict).isSome :=
  match entries with
  | [] => by simp only [entryTestsCode, matchEntries]; rfl
  | (key, pattern) :: entries => by
    obtain ⟨hkey, hpattern, hentries⟩ := hdata
    have hfound := checks_key hready htemp hkey
    rw [entryTestsCode, matchEntries]
    cases hentry : key.literalValue.bind (findEntry dict) with
    | none =>
      rw [hentry] at hfound
      exact checks_seq_false hfound
    | some entry =>
      rw [hentry] at hfound
      obtain ⟨hclear, hclears⟩ := hclear entry hentry
      have hpart : state.Checks _ (matchPattern pattern entry.2).isSome :=
        checks_partCode (execute_lookupSteps hready "match_map_value" htemp hentry)
          (run_testCode 0 pattern hpattern entry.2 hclear _ hready rfl)
      have hrest := checks_seq hpart fun hmatch =>
        checks_entryTestsCode place entries hentries (hclears hmatch) state hready htemp
      have hall := checks_seq hfound fun _ => hrest
      cases hmatch : matchPattern pattern entry.2 with
      | none => simpa [hmatch] using hall
      | some bindings => simpa [hmatch] using hall

/-- The options behind the first one, whose outcome is on the stack. -/
lemma run_optionTestsCode (place : ℕ) (options : List Pattern) (hdata : OptionsAreData options)
    (value : MatchValue) (b : Bool) (hclear : b = false → OptionsClear options value)
    (state : PatternState) (hready : state.Ready) (htemp : state.temp place = some value) :
    ∃ exit, (exit = none ∨ exit = some .done) ∧
      (state.pushBool b).run (optionTestsCode place options) =
        some (exit, state.pushBool (b || (matchOptions options value).isSome)) :=
  match options with
  | [] => ⟨none, .inl rfl, by simp only [matchOptions, Option.isSome_none, Bool.or_false]; rfl⟩
  | option :: options => by
    obtain ⟨hoption, hoptions⟩ := hdata
    have hdup : (state.pushBool b).run (.ofList [.dupTop]) =
        some (none, (state.pushBool b).pushBool b) := rfl
    cases b with
    | true =>
      refine ⟨some .done, .inr rfl, ?_⟩
      rw [optionTestsCode, run_seq hdup]
      exact SCode.run_seq_exit rfl
    | false =>
      obtain ⟨hclear, hclears⟩ := hclear rfl
      have hpass : ((state.pushBool false).pushBool false).run
          (.br .done (.branch .jumpIfTrue)) = some (none, state.pushBool false) := rfl
      have hpop : (state.pushBool false).run (.ofList [.popTop]) = some (none, state) := rfl
      have htest := run_testCode place option hoption value hclear state hready htemp
      obtain ⟨exit, hexit, hrest⟩ := run_optionTestsCode place options hoptions value
        (matchPattern option value).isSome (fun hnone => hclears (by simpa using hnone)) state
        hready htemp
      refine ⟨exit, hexit, ?_⟩
      rw [optionTestsCode, run_seq hdup, run_seq hpass, run_seq hpop, run_seq htest, hrest,
        matchOptions]
      cases matchPattern option value <;> simp

end

end Pyrs
