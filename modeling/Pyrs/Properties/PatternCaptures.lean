import Pyrs.Properties.PatternMatching

/-!
# The bindings of patterns

Where a pattern matches, its bindings bind the matched parts, for an or-pattern those of the first
option that matches: the bindings test the options again, and the test answers as it did before.

The subject stays in a temporary for the tests and for the bindings.  The results are about states
whose loads of temporaries find no entry of an earlier run; `not_matchesAsStated_cached` is a match
at module level that reads the subject of the run before.
-/

namespace Pyrs

open PatternState StructuredCode

/-! ## The names that are bound -/

lemma matchEntries_cons_eq_some {key : Expr} {pattern : Pattern} {entries : List (Expr × Pattern)}
    {dict : MatchEntries} {bindings : MatchBindings}
    (h : matchEntries ((key, pattern) :: entries) dict = some bindings) :
    ∃ entry first rest, key.literalValue.bind (findEntry dict) = some entry ∧
      matchPattern pattern entry.2 = some first ∧ matchEntries entries dict = some rest ∧
      first ++ rest = bindings := by
  rw [matchEntries] at h
  split at h
  · split at h
    · obtain ⟨rest, hrest, hbindings⟩ := Option.map_eq_some_iff.1 h
      exact ⟨_, _, rest, ‹_›, ‹_›, hrest, hbindings⟩
    · cases h
  · cases h

/-- No builtin name that the code reads is bound. -/
def KeepsBuiltins (bindings : MatchBindings) : Prop :=
  ∀ binding ∈ bindings, binding.1 ∉ matchBuiltins

lemma KeepsBuiltins.append {bindings bindings' : MatchBindings} (h : KeepsBuiltins bindings)
    (h' : KeepsBuiltins bindings') : KeepsBuiltins (bindings ++ bindings') := by
  intro binding hbinding
  rcases List.mem_append.1 hbinding with hmem | hmem
  · exact h binding hmem
  · exact h' binding hmem

lemma KeepsBuiltins.single {name : String} (h : name ∉ matchBuiltins) (value : MatchValue) :
    KeepsBuiltins [(name, value)] := by
  simpa [KeepsBuiltins] using h

lemma KeepsBuiltins.toList {name : Option String} (h : ∀ bound ∈ name, bound ∉ matchBuiltins)
    (value : MatchValue) : KeepsBuiltins (name.toList.map fun bound => (bound, value)) := by
  cases name with
  | none => simp [KeepsBuiltins]
  | some name => exact .single (h name rfl) value

mutual

lemma keepsBuiltins_matchPattern (pattern : Pattern) (hdata : pattern.IsData) (value : MatchValue)
    (bindings : MatchBindings) (h : matchPattern pattern value = some bindings) :
    KeepsBuiltins bindings :=
  match pattern with
  | .wildcard => by
    obtain rfl := Option.some.inj h
    simp [KeepsBuiltins]
  | .capture name => by
    obtain rfl := Option.some.inj h
    exact .single hdata value
  | .constant literal => by
    rw [matchPattern] at h
    split at h
    · obtain rfl := Option.some.inj h
      simp [KeepsBuiltins]
    · cases h
  | .sequence items => by
    rw [matchPattern] at h
    split at h
    · exact keepsBuiltins_matchItems items hdata.2 _ bindings h
    · cases h
  | .mapping entries rest => by
    rw [matchPattern] at h
    split at h
    · obtain ⟨first, hfirst, rfl⟩ := Option.map_eq_some_iff.1 h
      exact (keepsBuiltins_matchEntries entries hdata.1 _ first hfirst).append (.toList hdata.2 _)
    · cases h
  | .or options => keepsBuiltins_matchOptions options hdata value bindings h
  | .as pattern name => by
    rw [matchPattern] at h
    obtain ⟨first, hfirst, rfl⟩ := Option.map_eq_some_iff.1 h
    exact (keepsBuiltins_matchPattern pattern hdata.1 value first hfirst).append
      (.single hdata.2 value)

lemma keepsBuiltins_matchItems (items : List Pattern) (hdata : ItemsAreData items)
    (values : List MatchValue) (bindings : MatchBindings)
    (h : matchItems items values = some bindings) : KeepsBuiltins bindings :=
  match items, values with
  | [], [] => by
    obtain rfl := Option.some.inj h
    simp [KeepsBuiltins]
  | [], _ :: _ => by cases h
  | item :: items, values => by
    have hitems := keepsBuiltins_matchItems items hdata.items
    by_cases hstar : item.isStar
    · cases item with
      | star name =>
        rw [matchItems] at h
        split at h
        · obtain ⟨rest, hrest, rfl⟩ := Option.map_eq_some_iff.1 h
          exact (KeepsBuiltins.toList hdata.1 _).append (hitems _ rest hrest)
        · cases h
      | _ => cases hstar
    · cases values with
      | nil => simp [matchItems_cons_nil hstar] at h
      | cons value values =>
        rw [matchItems_cons hstar, Option.bind_eq_some_iff] at h
        obtain ⟨first, hfirst, h⟩ := h
        obtain ⟨rest, hrest, rfl⟩ := Option.map_eq_some_iff.1 h
        exact (keepsBuiltins_matchPattern item (hdata.head hstar) value first hfirst).append
          (hitems values rest hrest)

lemma keepsBuiltins_matchEntries (entries : List (Expr × Pattern)) (hdata : EntriesAreData entries)
    (dict : MatchEntries) (bindings : MatchBindings)
    (h : matchEntries entries dict = some bindings) : KeepsBuiltins bindings :=
  match entries with
  | [] => by
    obtain rfl := Option.some.inj h
    simp [KeepsBuiltins]
  | (key, pattern) :: entries => by
    obtain ⟨-, hpattern, hentries⟩ := hdata
    obtain ⟨entry, first, rest, -, hfirst, hrest, rfl⟩ := matchEntries_cons_eq_some h
    exact (keepsBuiltins_matchPattern pattern hpattern entry.2 first hfirst).append
      (keepsBuiltins_matchEntries entries hentries dict rest hrest)

lemma keepsBuiltins_matchOptions (options : List Pattern) (hdata : OptionsAreData options)
    (value : MatchValue) (bindings : MatchBindings)
    (h : matchOptions options value = some bindings) : KeepsBuiltins bindings :=
  match options with
  | [] => by cases h
  | option :: options => by
    rw [matchOptions] at h
    split at h
    · exact keepsBuiltins_matchPattern option hdata.1 value _ (by rwa [← h])
    · exact keepsBuiltins_matchOptions options hdata.2 value bindings h

end

/-! ## Steps -/

/-- The state with the names bound. -/
def PatternState.bindAll (state : PatternState) (bindings : MatchBindings) : PatternState :=
  { state with
    vars := bindings.foldl (fun vars binding => Function.update vars binding.1 (some binding.2))
      state.vars }

section Steps

variable {state : PatternState} {place : ℕ} {value : MatchValue}

lemma bindAll_append (bindings bindings' : MatchBindings) :
    state.bindAll (bindings ++ bindings') = (state.bindAll bindings).bindAll bindings' := by
  simp [bindAll, List.foldl_append]

lemma KeepsBuiltins.ready {bindings : MatchBindings} (h : KeepsBuiltins bindings)
    (hready : state.Ready) : (state.bindAll bindings).Ready := by
  induction bindings generalizing state with
  | nil => exact hready
  | cons binding bindings ih =>
    have hfirst : (state.bindAll [binding]).Ready := by
      refine ⟨fun name hname => ?_, hready.2⟩
      have hne : name ≠ binding.1 := by
        rintro rfl
        exact h binding (by simp) hname
      simp only [bindAll, List.foldl_cons, List.foldl_nil, Function.update_of_ne hne]
      exact hready.1 name hname
    exact ih (fun other hother => h other (by simp [hother])) hfirst

lemma run_bindSteps (hready : state.Ready) (htemp : state.temp place = some value) (name : String) :
    state.run (.ofList (bindSteps place name)) = some (none, state.bindAll [(name, value)]) := by
  exact run_of_steps (execute_cons (execute_loadTemp hready htemp) rfl)

lemma sliceBound_of_le {length bound : ℕ} (h : bound ≤ length) :
    sliceBound length bound = bound := by
  have hnonneg : ¬ (bound : ℤ) < 0 := by omega
  simp only [sliceBound, if_neg hnonneg, Int.toNat_natCast]
  omega

lemma sliceBound_neg {length distance : ℕ} (hpos : 0 < distance) (h : distance ≤ length) :
    sliceBound length (-(distance : ℤ)) = length - distance := by
  have hneg : -(distance : ℤ) < 0 := by omega
  have hin : ¬ -(distance : ℤ) + length < 0 := by omega
  simp only [sliceBound, if_pos hneg, if_neg hin]
  omega

/-- The bound of a slice that leaves so many items behind it. -/
def trailingBound (trailing : ℕ) : Option ℤ :=
  if trailing = 0 then none else some (-(trailing : ℤ))

/-- The slice for a star is what the items behind it leave. -/
lemma sliceItems_star {values : List MatchValue} {length idx : ℕ}
    (hfits : Fits (some idx) length values.length) :
    sliceItems values (some idx) (trailingBound (length - (idx + 1))) =
      (values.drop idx).take ((values.drop idx).length - (length - (idx + 1))) := by
  obtain ⟨hlt, hle⟩ := hfits
  have hstart : sliceBound values.length idx = idx := sliceBound_of_le (by omega)
  have hstop : sliceBound values.length
      ((trailingBound (length - (idx + 1))).getD values.length) =
        values.length - (length - (idx + 1)) := by
    unfold trailingBound
    split
    · rw [Option.getD_none, sliceBound_of_le le_rfl]
      omega
    · exact sliceBound_neg (by omega) (by omega)
  simp only [sliceItems, Option.getD_some, hstart, hstop, List.length_drop]
  congr 1
  omega

lemma execute_buildSlice {lower upper : MatchValue} {start stop : Option ℤ}
    (hlower : optionalIndex lower = some start) (hupper : optionalIndex upper = some stop) :
    PatternStep.buildSlice.execute (((state.push lower).push upper).push (.scalar .none)) =
      some (state.push (.slice start stop)) := by
  simp [PatternStep.execute, push, hlower, hupper]

lemma run_starSteps (hready : state.Ready) (htemp : state.temp place = some value)
    {values : List MatchValue} (hvalues : sequenceItems value = some values) {length idx : ℕ}
    (hfits : Fits (some idx) length values.length) (name : String) :
    state.run (.ofList (starSteps place name length idx)) =
      some (none, state.bindAll [(name, .list ((values.drop idx).take
        ((values.drop idx).length - (length - (idx + 1)))))]) := by
  have hlist := load_of_free hready "list" (by simp [matchBuiltins])
  have hbound : optionalIndex (.scalar (if length - (idx + 1) = 0 then .none
      else .int (-((length - (idx + 1) : ℕ) : ℤ)))) =
        some (trailingBound (length - (idx + 1))) := by
    unfold trailingBound
    split <;> rfl
  obtain ⟨part, hpart, hcall⟩ : ∃ part,
      getItemValue value (.slice (some idx) (trailingBound (length - (idx + 1)))) = some part ∧
        callBuiltin "list" [part] =
          some (.list (sliceItems values (some idx) (trailingBound (length - (idx + 1))))) := by
    rcases sequenceItems_eq_some hvalues with rfl | rfl <;> exact ⟨_, rfl, rfl⟩
  rw [sliceItems_star hfits] at hcall
  refine run_of_steps ?_
  refine execute_cons (execute_loadVariable hlist) (execute_cons (execute_loadTemp hready htemp) ?_)
  refine execute_cons rfl (execute_cons rfl (execute_cons rfl ?_))
  refine execute_cons (execute_buildSlice rfl hbound) (execute_cons (combine_push hpart) ?_)
  exact execute_cons (call_push hcall) rfl

/-! ## The rest of a mapping -/

lemma findEntry_removeEntry {dict : MatchEntries} {key key' : Constant}
    (happart : ∀ entry ∈ dict, entry.1.keyEqual key = true → entry.1.keyEqual key' = false)
    (h : (findEntry dict key').isSome) : (findEntry (removeEntry dict key) key').isSome := by
  simp only [findEntry, List.find?_isSome] at h ⊢
  obtain ⟨entry, hmem, hequal⟩ := h
  refine ⟨entry, (List.mem_eraseP_of_neg fun hkey => ?_).2 hmem, hequal⟩
  simp [happart entry hmem hkey] at hequal

lemma KeysApart.removeEntry {keys : List Constant} {dict : MatchEntries} (key : Constant)
    (h : KeysApart keys dict) : KeysApart keys (removeEntry dict key) :=
  h.imp fun happart entry hmem => happart entry (List.mem_of_mem_eraseP hmem)

/-- A match has found every key. -/
lemma findEntry_of_matchEntries {entries : List (Expr × Pattern)} {dict : MatchEntries}
    {bindings : MatchBindings} (h : matchEntries entries dict = some bindings) :
    ∀ key ∈ patternKeys entries, (findEntry dict key).isSome := by
  induction entries generalizing bindings with
  | nil => simp [patternKeys]
  | cons entry entries ih =>
    obtain ⟨key, pattern⟩ := entry
    obtain ⟨found, -, rest, hfound, -, hrest, -⟩ := matchEntries_cons_eq_some h
    obtain ⟨literal, hliteral, hfind⟩ := Option.bind_eq_some_iff.1 hfound
    simp only [patternKeys, List.filterMap_cons, hliteral, List.mem_cons, forall_eq_or_imp]
    exact ⟨by rw [hfind]; rfl, ih hrest⟩

/-- The keys of the pattern are deleted from the copy one after the other. -/
lemma execute_deleteSteps {entries : List (Expr × Pattern)} {dict : MatchEntries}
    (hready : state.Ready) (hdata : EntriesAreData entries)
    (hfound : ∀ key ∈ patternKeys entries, (findEntry dict key).isSome)
    (hapart : KeysApart (patternKeys entries) dict) :
    (entries.map fun entry => .deleteItem 0 entry.1).foldlM PatternStep.execute
        (state.withTemp (.dict dict)) =
      some (state.withTemp (.dict ((patternKeys entries).foldl removeEntry dict))) := by
  induction entries generalizing dict with
  | nil => rfl
  | cons entry entries ih =>
    obtain ⟨key, pattern⟩ := entry
    obtain ⟨hkey, -, hentries⟩ := hdata
    obtain ⟨literal, hliteral⟩ := Option.isSome_iff_exists.1 hkey
    simp only [patternKeys, List.filterMap_cons, hliteral, List.mem_cons, forall_eq_or_imp]
      at hfound hapart ⊢
    obtain ⟨hfirst, hfound⟩ := hfound
    obtain ⟨hhead, hapart⟩ := List.pairwise_cons.1 hapart
    have hrest := ih hentries
      (fun other hother => findEntry_removeEntry (hhead other hother) (hfound other hother))
      (KeysApart.removeEntry literal hapart)
    rw [List.map_cons, List.foldlM_cons, List.foldl_cons, ← patternKeys, ← hrest]
    have hloaded : (state.withTemp (.dict dict)).loadTemp 0 =
        some (.dict dict, state.withTemp (.dict dict)) := loadTemp_of_ready hready rfl
    have hnone : (state.withTemp (.dict dict)).entries 0 = none := hready.2 0
    simp only [PatternStep.execute, hloaded, hliteral, hfirst, if_true, hnone]
    rfl

lemma run_restSteps {entries : List (Expr × Pattern)} {dict : MatchEntries}
    (hready : state.Ready) (htemp : state.temp place = some (.dict dict))
    (hdata : EntriesAreData entries)
    (hfound : ∀ key ∈ patternKeys entries, (findEntry dict key).isSome)
    (hapart : KeysApart (patternKeys entries) dict) (name : String) :
    state.run (.ofList (restSteps place name entries)) =
      some (none, state.bindAll
        [(name, .dict ((patternKeys entries).foldl removeEntry dict))]) := by
  have hdict := load_of_free hready "dict" (by simp [matchBuiltins])
  have hfresh : PatternState.temp { state with temps := none :: state.temps } (place + 1) =
      some (.dict dict) := htemp
  have hload : PatternState.load { state with temps := none :: state.temps } "dict" =
      some (.builtin "dict") := hdict
  have hcopy : [PatternStep.fresh "match_map_rest", .loadVariable "dict", .loadTemp (place + 1),
      .call 1, .storeTemp 0].foldlM PatternStep.execute state =
        some (state.withTemp (.dict dict)) := by
    have hcall : callBuiltin "dict" [.dict dict] = some (.dict dict) := rfl
    refine execute_cons rfl (execute_cons (execute_loadVariable hload) ?_)
    exact execute_cons (execute_loadTemp hready hfresh) (execute_cons (call_push hcall) rfl)
  refine run_of_steps ?_
  rw [restSteps, List.foldlM_append, hcopy, Option.bind_eq_bind, Option.bind_some,
    List.foldlM_append, execute_deleteSteps hready hdata hfound hapart]
  exact execute_cons (execute_loadTemp hready rfl) rfl

end Steps

/-! ## Runs -/

mutual

lemma run_bindingsCode (place : ℕ) (pattern : Pattern) (hdata : pattern.IsData) (value : MatchValue)
    (hclear : pattern.Clear value) (bindings : MatchBindings)
    (hmatch : matchPattern pattern value = some bindings) (state : PatternState)
    (hready : state.Ready) (htemp : state.temp place = some value) :
    state.run (bindingsCode place pattern) = some (none, state.bindAll bindings) :=
  match pattern with
  | .wildcard => by
    obtain rfl := Option.some.inj hmatch
    simp only [bindingsCode]
    rfl
  | .capture name => by
    obtain rfl := Option.some.inj hmatch
    simp only [bindingsCode]
    exact run_bindSteps hready htemp name
  | .constant literal => by
    rw [matchPattern] at hmatch
    split at hmatch
    · obtain rfl := Option.some.inj hmatch
      simp only [bindingsCode]
      rfl
    · cases hmatch
  | .sequence items => by
    obtain ⟨hstar, hitems⟩ := hdata
    rw [matchPattern] at hmatch
    cases hvalues : sequenceItems value with
    | none => simp [hvalues] at hmatch
    | some values =>
      simp only [hvalues] at hmatch
      simp only [Pattern.Clear, hvalues] at hclear
      have hfit := fitsLength_of_matchItems hmatch
      have hstart := itemPosition_zero (items.findIdx? (·.isStar)) items.length values.length
      simp only [bindingsCode]
      exact run_itemBindingsCode place _ items.length 0 items hitems hvalues (Nat.zero_add _)
        (starAt_start hstar) (fits_of_fitsLength hstar hfit)
          (by simpa [hstart] using hclear hfit) bindings
        (by simpa [hstart] using hmatch) state hready htemp
  | .mapping entries rest => by
    rw [matchPattern] at hmatch
    cases hdict : dictEntries value with
    | none => simp [hdict] at hmatch
    | some dict =>
      simp only [hdict] at hmatch
      simp only [Pattern.Clear, hdict] at hclear
      obtain rfl := dictEntries_eq_some hdict
      obtain ⟨first, hfirst, rfl⟩ := Option.map_eq_some_iff.1 hmatch
      have hentries := run_entryBindingsCode place entries hdata.1 hclear.1 first hfirst
        state hready
        htemp
      simp only [bindingsCode]
      rw [run_seq hentries, bindAll_append]
      cases rest with
      | none => rfl
      | some name =>
        have hkeeps := keepsBuiltins_matchEntries entries hdata.1 dict first hfirst
        exact run_restSteps (hkeeps.ready hready) htemp hdata.1
          (findEntry_of_matchEntries hfirst) (hclear.2 rfl) name
  | .or options => by
    obtain ⟨exit, hexit, hoptions⟩ := run_optionBindingsCode place options hdata value hclear
      bindings hmatch state hready htemp
    simp only [bindingsCode]
    exact run_block_either hexit hoptions
  | .as pattern name => by
    rw [matchPattern] at hmatch
    obtain ⟨first, hfirst, rfl⟩ := Option.map_eq_some_iff.1 hmatch
    have hpattern := run_bindingsCode place pattern hdata.1 value hclear first hfirst state hready
      htemp
    simp only [bindingsCode]
    have htempAfter : (state.bindAll first).temp place = some value := htemp
    have hkeeps := keepsBuiltins_matchPattern pattern hdata.1 value first hfirst
    rw [run_seq hpattern, bindAll_append]
    exact run_bindSteps (hkeeps.ready hready) htempAfter name

lemma run_itemBindingsCode (place : ℕ) (starIndex : Option ℕ) (length idx : ℕ)
    (items : List Pattern) (hdata : ItemsAreData items) {value : MatchValue}
    {values : List MatchValue} (hvalues : sequenceItems value = some values)
    (hlength : idx + items.length = length) (hstar : StarAt starIndex idx items)
    (hfits : Fits starIndex length values.length)
    (hclear : ItemsClear items (values.drop (itemPosition starIndex length values.length idx)))
    (bindings : MatchBindings)
    (hmatch : matchItems items (values.drop (itemPosition starIndex length values.length idx)) =
      some bindings) (state : PatternState) (hready : state.Ready)
    (htemp : state.temp place = some value) :
    state.run (itemBindingsCode place starIndex length idx items) =
      some (none, state.bindAll bindings) :=
  match items with
  | [] => by
    obtain rfl : idx = length := hlength
    rw [hfits.itemPosition_self, List.drop_length, matchItems] at hmatch
    obtain rfl := Option.some.inj hmatch
    simp only [itemBindingsCode]
    rfl
  | item :: items => by
    obtain ⟨hitem, hstar⟩ := hstar
    rw [List.length_cons] at hlength
    have hitems := run_itemBindingsCode place starIndex length (idx + 1) items hdata.items hvalues
      (by omega) hstar hfits
    by_cases hitemStar : item.isStar
    · obtain rfl := hitem.1 hitemStar
      have htail : length - (idx + 1) = items.length := by omega
      have hdrop := drop_itemPosition_star hfits
      have hposition : itemPosition (some idx) length values.length idx = idx := by
        simp [itemPosition]
      cases item with
      | star name =>
        rw [hposition] at hclear hmatch
        rw [ItemsClear, ← htail, hdrop] at hclear
        rw [matchItems] at hmatch
        split at hmatch
        · simp only [← htail, hdrop] at hmatch
          obtain ⟨rest, hrest, rfl⟩ := Option.map_eq_some_iff.1 hmatch
          cases name with
          | none => exact hitems hclear rest hrest state hready htemp
          | some name =>
            have hkeeps := KeepsBuiltins.single (hdata.1 name rfl) (.list ((values.drop idx).take
              ((values.drop idx).length - (length - (idx + 1)))))
            rw [itemBindingsCode, run_seq (run_starSteps hready htemp hvalues hfits name),
              bindAll_append]
            exact hitems hclear rest hrest _ (hkeeps.ready hready) htemp
        · cases hmatch
      | _ => cases hitemStar
    · obtain ⟨part, hpart, hdrop⟩ := getItemValue_position hvalues hfits
        (show idx < length by omega) fun h => hitemStar (hitem.2 h)
      rw [hdrop] at hclear hmatch
      obtain ⟨hclear, hclears⟩ := hclear.cons hitemStar
      rw [matchItems_cons hitemStar, Option.bind_eq_some_iff] at hmatch
      obtain ⟨first, hfirst, hmatch⟩ := hmatch
      obtain ⟨rest, hrest, rfl⟩ := Option.map_eq_some_iff.1 hmatch
      have hkeeps := keepsBuiltins_matchPattern item (hdata.head hitemStar) part first hfirst
      have hbind := run_bindingsCode 0 item (hdata.head hitemStar) part hclear first hfirst
        (state.withTemp part) hready rfl
      have hrelease : ((state.withTemp part).bindAll first).run (.ofList [.release]) =
          some (none, state.bindAll first) := rfl
      rw [itemBindingsCode_cons hitemStar,
        run_seq (run_of_steps (execute_extractSteps hready "match_bind_item" htemp hpart)),
        run_seq hbind, run_seq hrelease, bindAll_append]
      exact hitems (hclears (by simp [hfirst])) rest hrest _ (hkeeps.ready hready) htemp

lemma run_entryBindingsCode (place : ℕ) (entries : List (Expr × Pattern))
    (hdata : EntriesAreData entries) {dict : MatchEntries} (hclear : EntriesClear entries dict)
    (bindings : MatchBindings) (hmatch : matchEntries entries dict = some bindings)
    (state : PatternState) (hready : state.Ready)
    (htemp : state.temp place = some (.dict dict)) :
    state.run (entryBindingsCode place entries) = some (none, state.bindAll bindings) :=
  match entries with
  | [] => by
    obtain rfl := Option.some.inj hmatch
    simp only [entryBindingsCode]
    rfl
  | (key, pattern) :: entries => by
    obtain ⟨-, hpattern, hentries⟩ := hdata
    obtain ⟨entry, first, rest, hentry, hfirst, hrest, rfl⟩ := matchEntries_cons_eq_some hmatch
    obtain ⟨hclear, hclears⟩ := hclear entry hentry
    have hkeeps := keepsBuiltins_matchPattern pattern hpattern entry.2 first hfirst
    have hbind := run_bindingsCode 0 pattern hpattern entry.2 hclear first hfirst
      (state.withTemp entry.2) hready rfl
    have hrelease : ((state.withTemp entry.2).bindAll first).run (.ofList [.release]) =
        some (none, state.bindAll first) := rfl
    rw [entryBindingsCode,
      run_seq (run_of_steps (execute_lookupSteps hready "match_map_bind" htemp hentry)),
      run_seq hbind,
      run_seq hrelease, bindAll_append]
    exact run_entryBindingsCode place entries hentries (hclears (by simp [hfirst])) rest hrest _
      (hkeeps.ready hready) htemp

lemma run_optionBindingsCode (place : ℕ) (options : List Pattern) (hdata : OptionsAreData options)
    (value : MatchValue) (hclear : OptionsClear options value) (bindings : MatchBindings)
    (hmatch : matchOptions options value = some bindings) (state : PatternState)
    (hready : state.Ready) (htemp : state.temp place = some value) :
    ∃ exit, (exit = none ∨ exit = some .done) ∧
      state.run (optionBindingsCode place options) = some (exit, state.bindAll bindings) :=
  match options with
  | [] => by cases hmatch
  | [option] => by
    have hoption : matchPattern option value = some bindings := by
      simp only [matchOptions] at hmatch
      split at hmatch
      · rwa [← hmatch]
      · cases hmatch
    refine ⟨none, .inl rfl, ?_⟩
    simp only [optionBindingsCode]
    exact run_bindingsCode place option hdata.1 value hclear.1 bindings hoption state hready htemp
  | option :: option' :: options => by
    obtain ⟨hoption, hoptions⟩ := hdata
    obtain ⟨hclear, hclears⟩ := hclear
    have htest := run_testCode place option hoption value hclear state hready htemp
    rw [matchOptions] at hmatch
    cases hfirst : matchPattern option value with
    | some first =>
      rw [hfirst] at htest hmatch
      obtain rfl := Option.some.inj hmatch
      have hbind := run_bindingsCode place option hoption value hclear first hfirst state hready
        htemp
      refine ⟨some .done, .inr rfl, ?_⟩
      rw [optionBindingsCode]
      · refine SCode.run_seq_exit (SCode.run_block_other ?_ nofun)
        exact (run_seq htest).trans
          ((run_seq (run_jumpIfFalse true)).trans ((run_seq hbind).trans rfl))
      · nofun
    | none =>
      rw [hfirst] at htest hmatch
      obtain ⟨exit, hexit, hrest⟩ := run_optionBindingsCode place (option' :: options) hoptions
        value (hclears (by simp [hfirst])) bindings hmatch state hready htemp
      refine ⟨exit, hexit, ?_⟩
      rw [optionBindingsCode]
      · refine (run_seq (SCode.run_block_exit ?_)).trans hrest
        exact (run_seq htest).trans (SCode.run_seq_exit (run_jumpIfFalse false))
      · nofun

end

/-! ## The claim about patterns -/

/-- The test leaves whether the subject matches, and where it does the bindings bind the matched
parts; neither leaves anything else behind.  The entries are what the loads of temporaries find in
their caches. -/
def MatchesAsStated (entries : ℕ → Option MatchValue) (pattern : Pattern) (value : MatchValue) :
    Prop :=
  ∀ (place : ℕ) (state : PatternState), state.entries = entries → state.BuiltinsFree →
    state.temp place = some value →
      state.run (testCode place pattern) =
          some (none, state.pushBool (matchPattern pattern value).isSome) ∧
        ∀ bindings, matchPattern pattern value = some bindings →
          state.run (bindingsCode place pattern) = some (none, state.bindAll bindings)

/-- A literal alone is matched as the language says exactly where it is not confused. -/
theorem constant_matchesAsStated_iff (literal : Constant) (value : MatchValue) :
    MatchesAsStated (fun _ => none) (.constant literal) value ↔ ¬ Confused literal value := by
  refine ⟨?_, fun hclear => ?_⟩
  · rintro hmatches ⟨b, other, rfl, rfl, hne, hequal⟩
    have htest := (hmatches 0 ⟨[], [some (.scalar other)], fun _ => none, fun _ => none⟩ rfl
      (fun _ _ => rfl) rfl).1
    have hrun : PatternState.run ⟨[], [some (.scalar other)], fun _ => none, fun _ => none⟩
        (testCode 0 (.constant (.bool b))) = some (none, PatternState.pushBool
          ⟨[], [some (.scalar other)], fun _ => none, fun _ => none⟩
            (other.valueEq (.bool b))) := by
      simp only [testCode]
      rfl
    rw [hrun, matchPattern, literalMatches, decide_eq_false hne, hequal] at htest
    injection htest with htest
    injection htest with _ htest
    injection htest with hstack
    injection hstack with hhead
    cases hhead
  · intro place state hstate hfree htemp
    have hdata : Pattern.IsData (.constant literal) := trivial
    have hready : state.Ready := ⟨hfree, fun load => by rw [hstate]⟩
    exact ⟨run_testCode place _ hdata value hclear state hready htemp,
      fun bindings hmatch =>
        run_bindingsCode place _ hdata value hclear bindings hmatch state hready htemp⟩

/-- A capture binds what its load finds: with a cached value that is another one. -/
theorem not_matchesAsStated_cached {entries : ℕ → Option MatchValue} {cached value : MatchValue}
    (hentry : entries 0 = some cached) (hne : cached ≠ value) (name : String) :
    ¬MatchesAsStated entries (.capture name) value := by
  intro hmatches
  have hbindings := (hmatches 0 ⟨[], [some value], fun _ => none, entries⟩ rfl (fun _ _ => rfl)
    rfl).2 [(name, value)] (by rw [matchPattern])
  have hrun : (bindSteps 0 name).foldlM PatternStep.execute
      ⟨[], [some value], fun _ => none, entries⟩ = some ⟨[], [some value],
        Function.update (fun _ => none) name (some cached), fun load => entries (load + 1)⟩ := by
    simp only [bindSteps, List.foldlM_cons, List.foldlM_nil, PatternStep.execute,
      PatternState.loadTemp, hentry]
    rfl
  rw [bindingsCode, run_of_steps hrun] at hbindings
  have hvars := congrArg (fun state => state.2.vars name) (Option.some.inj hbindings)
  simp only [PatternState.bindAll, List.foldl_cons, List.foldl_nil, Function.update_self,
    Option.some.injEq] at hvars
  exact hne hvars

end Pyrs
