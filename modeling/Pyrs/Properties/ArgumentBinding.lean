import Pyrs.Library.Results
import Pyrs.Model.Arguments
import Pyrs.Model.Compiler.Module
import Mathlib.Data.List.ReduceOption

/-!
# Argument binding

A call gives its positional values to the first parameters and its keyword values to the parameters
of that name; what is left over goes to the collectors, and what is missing comes from the defaults.
`Call.Legal` and `Call.argument` say so for a signature and a call, without an order of steps.
`bindArguments` computes just that, on both of its paths.  Storing the arguments in the frame is
where a value can get lost: a keyword-only parameter or a collector whose name has an index beyond
the fast locals has no place (`bindsAsPython_iff`).
-/

namespace Pyrs

variable {V : Type}

/-! ## What a call means -/

structure Call (V : Type) where
  positional : List V
  keywords : List (String × V)

/-- The default of the positional parameter at an index: there are defaults for the last ones. -/
def FunctionObject.defaultAt (func : FunctionObject V) (idx : ℕ) : Option V :=
  let required := func.code.positionalParams.length - func.defaults.length
  if required ≤ idx then func.defaults[idx - required]? else none

namespace Call

variable (func : FunctionObject V) (call : Call V)

/-- The values that a call gives to the positional parameter at an index: by position, and by
keyword unless it is positional-only. -/
def given (idx : ℕ) : List V :=
  call.positional[idx]?.toList ++
    if idx < func.code.posonlyParams.length then []
    else (func.code.positionalParams[idx]?.bind fun name => call.keywords.lookup name).toList

/-- The value of the positional parameter at an index. -/
def argument (idx : ℕ) : Option V :=
  (call.given func idx).head?.or (func.defaultAt idx)

/-- The value of a keyword-only parameter. -/
def keywordArgument (name : String) : Option V :=
  (call.keywords.lookup name).or (func.kwonlyDefaults.lookup name)

/-- The positional values beyond the parameters. -/
def surplusPositional : List V :=
  call.positional.drop func.code.positionalParams.length

/-- The keyword values that no parameter takes. -/
def surplusKeywords : List (String × V) :=
  call.keywords.filter fun keyword =>
    keyword.1 ∉ func.code.params ∧ keyword.1 ∉ func.code.kwonlyParams

/-- Every parameter receives exactly one value and nothing is left over. -/
structure Legal : Prop where
  given_le_one : ∀ idx < func.code.positionalParams.length, (call.given func idx).length ≤ 1
  argument_isSome : ∀ idx < func.code.positionalParams.length, (call.argument func idx).isSome
  keywordArgument_isSome : ∀ name ∈ func.code.kwonlyParams, (call.keywordArgument func name).isSome
  positional : func.code.vararg = none → call.surplusPositional func = []
  keywords : func.code.kwarg = none → call.surplusKeywords func = []

end Call

/-- The signature of a function: its names differ, and there are no more defaults than positional
parameters. -/
structure FunctionObject.WellFormed (func : FunctionObject V) : Prop where
  nodup : (func.code.posonlyParams ++ func.code.params ++ func.code.kwonlyParams ++
    func.code.vararg.toList ++ func.code.kwarg.toList).Nodup
  defaults_le : func.defaults.length ≤ func.code.positionalParams.length

/-- The frame holds the arguments of the call. -/
structure Call.Holds (func : FunctionObject V) (call : Call V) (frame : CallFrame V) : Prop where
  positional : ∀ idx name, func.code.positionalParams[idx]? = some name →
    frame.local? func.code name = (call.argument func idx).map .value
  keywordOnly : ∀ name ∈ func.code.kwonlyParams,
    frame.local? func.code name = (call.keywordArgument func name).map .value
  vararg : ∀ name ∈ func.code.vararg,
    frame.local? func.code name = some (.tuple (call.surplusPositional func))
  kwarg : ∀ name ∈ func.code.kwarg, ∃ entries, entries.Perm (call.surplusKeywords func) ∧
    frame.local? func.code name = some (.dict entries)

/-- `bind_arguments`, and `apply_bindings` on a new frame. -/
def bindAndApply (func : FunctionObject V) (closure : List (Option (Argument V))) (args : List V)
    (kwargs : List (String × V)) (kwargsOrder : Option (List String)) :
    Except String (CallFrame V) :=
  (bindArguments func args kwargs kwargsOrder).map
    (applyBindings func.code (CallFrame.new func.code closure))

/-- The call ends as in Python: an error if it is not legal, else a frame that holds its
arguments. -/
def Call.EndsAsPython (func : FunctionObject V) (call : Call V) :
    Except String (CallFrame V) → Prop
  | .error _ => ¬ call.Legal func
  | .ok frame => call.Legal func ∧ call.Holds func frame

/-- Two paths end alike: in the same error, or in frames with the same variables. -/
def EndAlike (code : CodeObject) : Except String (CallFrame V) → Except String (CallFrame V) → Prop
  | .error error, .error error' => error = error'
  | .ok frame, .ok frame' => ∀ name, frame.local? code name = frame'.local? code name
  | _, _ => False

/-- A call binds its arguments as in Python: `bind_arguments` and `apply_bindings` do, and whenever
a fast path is taken it agrees with the general one.  The function calls take one that goes around
both of them, and `bind_arguments` has one of its own. -/
structure BindsAsPython (func : FunctionObject V) (call : Call V)
    (closure : List (Option (Argument V))) (kwargsOrder : Option (List String)) : Prop where
  general : call.EndsAsPython func
    (bindAndApply func closure call.positional call.keywords kwargsOrder)
  pushed : EndAlike func.code
    (pushFunctionCall func closure call.positional call.keywords kwargsOrder)
    (bindAndApply func closure call.positional call.keywords kwargsOrder)
  bound : ∀ bindings,
    bindArguments func call.positional call.keywords kwargsOrder = .ok bindings ↔
      bindGeneral func call.positional call.keywords kwargsOrder = .ok bindings

/-- A frame has a place for the name: a cell, a fast local, or the table of other names. -/
def CodeObject.HasPlace (code : CodeObject) (name : String) : Prop :=
  (code.cellvarToIndex name).isSome ∨ ∀ idx ∈ code.nameToIndex name, idx < code.fastLocalCount

instance (code : CodeObject) : DecidablePred code.HasPlace := fun _ =>
  inferInstanceAs (Decidable (_ ∨ _))

/-! ## Association lists -/

section Lookup

variable {α β : Type} [DecidableEq α]

lemma lookup_cons_self (key : α) (value : β) (entries : List (α × β)) :
    ((key, value) :: entries).lookup key = some value := by
  simp

lemma lookup_cons_of_ne {key key' : α} (h : key ≠ key') (value : β) (entries : List (α × β)) :
    ((key', value) :: entries).lookup key = entries.lookup key := by
  rw [List.lookup_cons, beq_false_of_ne h]

lemma lookup_eq_some_iff_mem {entries : List (α × β)} (h : (entries.map Prod.fst).Nodup) {key : α}
    {value : β} : entries.lookup key = some value ↔ (key, value) ∈ entries := by
  induction entries with
  | nil => simp
  | cons entry entries ih =>
    obtain ⟨key', value'⟩ := entry
    simp only [List.map_cons, List.nodup_cons] at h
    by_cases hkey : key = key'
    · subst hkey
      have hnot : (key, value) ∉ entries := fun hmem => h.1 (List.mem_map_of_mem hmem)
      simp [hnot, eq_comm]
    · rw [lookup_cons_of_ne hkey, ih h.2]
      simp [hkey]

lemma lookup_eq_none_iff_notMem {entries : List (α × β)} {key : α} :
    entries.lookup key = none ↔ key ∉ entries.map Prod.fst := by
  induction entries with
  | nil => simp
  | cons entry entries ih =>
    obtain ⟨key', value'⟩ := entry
    by_cases hkey : key = key'
    · simp [hkey]
    · rw [lookup_cons_of_ne hkey, ih]
      simp [hkey]

lemma lookup_perm {entries entries' : List (α × β)} (h : (entries.map Prod.fst).Nodup)
    (hperm : entries.Perm entries') (key : α) : entries.lookup key = entries'.lookup key := by
  have h' : (entries'.map Prod.fst).Nodup := (hperm.map Prod.fst).nodup_iff.1 h
  ext value
  rw [lookup_eq_some_iff_mem h, lookup_eq_some_iff_mem h', hperm.mem_iff]

end Lookup

lemma orderedKwargs_perm {kwargs : List (String × V)} (h : (kwargs.map Prod.fst).Nodup)
    (order : Option (List String)) : (orderedKwargs kwargs order).Perm kwargs := by
  unfold orderedKwargs
  generalize order.getD [] = order
  induction order generalizing kwargs with
  | nil => exact .refl _
  | cons name order ih =>
    rw [takeInOrder]
    cases hlookup : kwargs.lookup name with
    | none => exact ih h
    | some value =>
      have hfilter : ((kwargs.filter (·.1 ≠ name)).map Prod.fst).Nodup :=
        h.sublist (List.filter_sublist.map Prod.fst)
      refine ((ih hfilter).cons _).trans ?_
      clear ih hfilter
      induction kwargs with
      | nil => simp at hlookup
      | cons entry kwargs ih =>
        obtain ⟨name', value'⟩ := entry
        simp only [List.map_cons, List.nodup_cons] at h
        by_cases hname : name = name'
        · subst hname
          obtain rfl : value' = value := by simpa [List.lookup_cons] using hlookup
          have hkeep : kwargs.filter (·.1 ≠ name) = kwargs :=
            List.filter_eq_self.2 fun entry hentry => by
              simp only [ne_eq, decide_not, Bool.not_eq_true', decide_eq_false_iff_not]
              rintro rfl
              exact h.1 (List.mem_map_of_mem hentry)
          rw [List.filter_cons_of_neg (by simp), hkeep]
        · have hlookup' : kwargs.lookup name = some value := by
            rwa [lookup_cons_of_ne hname] at hlookup
          rw [List.filter_cons_of_pos (by simpa using Ne.symm hname)]
          exact (List.Perm.swap _ _ _).trans ((ih h.2 hlookup').cons _)

/-! ## Keyword arguments -/

section Keywords

variable {func : FunctionObject V}

/-- The keyword value of the positional parameter at an index. -/
def keywordAt (func : FunctionObject V) (keywords : List (String × V)) (idx : ℕ) : Option V :=
  if idx < func.code.posonlyParams.length then none
  else func.code.positionalParams[idx]?.bind fun name => keywords.lookup name

/-- What the loop has filled after some keywords. -/
def keywordState (func : FunctionObject V) (positional : List V) (keywords : List (String × V)) :
    KeywordState V where
  bound := (List.range func.code.positionalParams.length).map fun idx =>
    positional[idx]?.or (keywordAt func keywords idx)
  kwonly := (keywords.filter (·.1 ∈ func.code.kwonlyParams)).reverse
  extra := keywords.filter fun keyword =>
    keyword.1 ∉ func.code.params ∧ keyword.1 ∉ func.code.kwonlyParams

lemma getElem?_keywordState_bound (positional : List V) (keywords : List (String × V)) (idx : ℕ) :
    (keywordState func positional keywords).bound[idx]? =
      if idx < func.code.positionalParams.length then
        some (positional[idx]?.or (keywordAt func keywords idx))
      else none := by
  rw [keywordState, List.getElem?_map]
  split
  · rename_i hidx
    rw [List.getElem?_range hidx, Option.map_some]
  · rename_i hidx
    rw [List.getElem?_eq_none (by simpa using hidx), Option.map_none]

/-- A keyword of this name finds a parameter without a value, or a collector. -/
structure Accepts (func : FunctionObject V) (positional : List V) (name : String) : Prop where
  kwarg : name ∉ func.code.params → name ∉ func.code.kwonlyParams → func.code.kwarg.isSome
  free : ∀ idx, func.code.params[idx]? = some name →
    positional[func.code.posonlyParams.length + idx]? = none

lemma FunctionObject.WellFormed.params_nodup (h : func.WellFormed) :
    func.code.positionalParams.Nodup := by
  have hnodup := h.nodup
  simp only [List.append_assoc] at hnodup
  rw [← List.append_assoc] at hnodup
  exact hnodup.of_append_left

lemma FunctionObject.WellFormed.notMem_of_posonly (h : func.WellFormed) {name : String}
    (hname : name ∈ func.code.posonlyParams) :
    name ∉ func.code.params ∧ name ∉ func.code.kwonlyParams := by
  have hnodup := h.nodup
  simp only [List.append_assoc, List.nodup_append] at hnodup
  constructor
  · intro hmem
    exact hnodup.2.2 name hname name (by simp [hmem]) rfl
  · intro hmem
    exact hnodup.2.2 name hname name (by simp [hmem]) rfl

lemma FunctionObject.WellFormed.notMem_of_kwonly (h : func.WellFormed) {name : String}
    (hname : name ∈ func.code.kwonlyParams) : name ∉ func.code.params := by
  have hnodup := h.nodup
  simp only [List.append_assoc, List.nodup_append] at hnodup
  intro hmem
  exact hnodup.2.1.2.2 name hmem name (by simp [hname]) rfl

lemma getElem?_positionalParams_add (code : CodeObject) (idx : ℕ) :
    code.positionalParams[code.posonlyParams.length + idx]? = code.params[idx]? := by
  rw [CodeObject.positionalParams, List.getElem?_append_right (by omega)]
  congr 1
  omega

/-- A new keyword changes only the entry of its parameter. -/
lemma keywordAt_append_of_ne {keywords : List (String × V)} {name : String} (value : V) {idx : ℕ}
    (h : ¬ idx < func.code.posonlyParams.length → func.code.positionalParams[idx]? ≠ some name) :
    keywordAt func (keywords ++ [(name, value)]) idx = keywordAt func keywords idx := by
  unfold keywordAt
  split
  · rfl
  · rename_i hidx
    cases hparam : func.code.positionalParams[idx]? with
    | none => rfl
    | some param =>
      have hne : param ≠ name := by
        rintro rfl
        exact h hidx hparam
      simp only [Option.bind_some, List.lookup_append, lookup_cons_of_ne hne, List.lookup_nil,
        Option.or_none]

lemma keywordState_bound_append {positional : List V} {keywords : List (String × V)}
    {name : String} (value : V) (hname : name ∉ func.code.params) :
    (keywordState func positional (keywords ++ [(name, value)])).bound =
      (keywordState func positional keywords).bound := by
  simp only [keywordState, List.map_inj_left, List.mem_range]
  intro idx _
  rw [keywordAt_append_of_ne]
  intro hidx hparam
  obtain ⟨idx', rfl⟩ := Nat.exists_eq_add_of_le (Nat.le_of_not_lt hidx)
  rw [getElem?_positionalParams_add] at hparam
  exact hname (List.mem_of_getElem? hparam)

lemma bindExtraKeyword_eq_ok {positional : List V}
    {keywords : List (String × V)} {name : String} {value : V} {state : KeywordState V}
    (hname : name ∉ keywords.map Prod.fst) (hparams : name ∉ func.code.params)
    (hkwonly : name ∉ func.code.kwonlyParams) :
    bindExtraKeyword func (keywordState func positional keywords) name value = .ok state ↔
      Accepts func positional name ∧
        state = keywordState func positional (keywords ++ [(name, value)]) := by
  have hlookup : (keywordState func positional keywords).extra.lookup name = none := by
    rw [lookup_eq_none_iff_notMem]
    exact fun hmem => hname ((List.filter_sublist.map Prod.fst).subset hmem)
  have hstate : keywordState func positional (keywords ++ [(name, value)]) =
      { keywordState func positional keywords with
        extra := (keywordState func positional keywords).extra ++ [(name, value)] } := by
    have hbound : (keywordState func positional (keywords ++ [(name, value)])).bound =
        (keywordState func positional keywords).bound :=
      keywordState_bound_append value hparams
    simp only [keywordState] at hbound ⊢
    rw [hbound]
    simp [hparams, hkwonly]
  unfold bindExtraKeyword
  cases hkwarg : func.code.kwarg with
  | none =>
    simp only [Option.isSome_none, Bool.false_eq_true, if_false, reduceCtorEq, false_iff, not_and]
    intro haccepts
    have := haccepts.kwarg hparams hkwonly
    simp [hkwarg] at this
  | some kwarg =>
    have haccepts : Accepts func positional name :=
      ⟨fun _ _ => by simp [hkwarg], fun idx hidx => absurd (List.mem_of_getElem? hidx) hparams⟩
    simp [hlookup, hstate, haccepts, eq_comm]

/-- A keyword that names a parameter. -/
lemma bindParam_eq_ok (hfunc : func.WellFormed) {positional : List V}
    {keywords : List (String × V)} {name : String} {value : V} {index : ℕ} {state : KeywordState V}
    (hname : name ∉ keywords.map Prod.fst) (hparam : func.code.params[index]? = some name) :
    (if ((keywordState func positional keywords).bound[
          func.code.posonlyParams.length + index]?.join).isSome then
        .error (multipleValuesError (functionNameForArgumentErrors func) name)
      else .ok { keywordState func positional keywords with
        bound := (keywordState func positional keywords).bound.set
          (func.code.posonlyParams.length + index) (some value) } :
      Except String (KeywordState V)) = .ok state ↔
      Accepts func positional name ∧
        state = keywordState func positional (keywords ++ [(name, value)]) := by
  set position := func.code.posonlyParams.length + index with hposition
  have hat : func.code.positionalParams[position]? = some name := by
    rw [getElem?_positionalParams_add, hparam]
  have hlt : position < func.code.positionalParams.length :=
    (List.getElem?_eq_some_iff.1 hat).1
  have hlookup : keywords.lookup name = none := lookup_eq_none_iff_notMem.2 hname
  have hkeywordAt : ∀ keywords : List (String × V),
      keywordAt func keywords position = keywords.lookup name := fun keywords => by
    rw [keywordAt, if_neg (by omega), hat, Option.bind_some]
  have hslot : (keywordState func positional keywords).bound[position]?.join =
      positional[position]? := by
    rw [getElem?_keywordState_bound, if_pos hlt, hkeywordAt, hlookup, Option.or_none,
      Option.join_some]
  have honly : ∀ idx, func.code.positionalParams[idx]? = some name → idx = position :=
    fun idx hidx => ((List.getElem?_inj hlt hfunc.params_nodup).1 (hat.trans hidx.symm)).symm
  have haccepts : Accepts func positional name ↔ positional[position]? = none := by
    refine ⟨fun h => h.free index hparam, fun hnone => ⟨fun hnot => ?_, fun idx hidx => ?_⟩⟩
    · exact absurd (List.mem_of_getElem? hparam) hnot
    · rw [honly (func.code.posonlyParams.length + idx)
        (by rw [getElem?_positionalParams_add, hidx])]
      exact hnone
  have hkwonly : name ∉ func.code.kwonlyParams := fun hmem =>
    hfunc.notMem_of_kwonly hmem (List.mem_of_getElem? hparam)
  rw [hslot, haccepts]
  cases hnone : positional[position]? with
  | some _ => simp
  | none =>
    have hbound : (keywordState func positional keywords).bound.set position (some value) =
        (keywordState func positional (keywords ++ [(name, value)])).bound := by
      refine List.ext_getElem? fun idx => ?_
      rw [List.getElem?_set]
      by_cases hidx : position = idx
      · subst hidx
        have hlength : position < (keywordState func positional keywords).bound.length := by
          simpa [keywordState] using hlt
        rw [if_pos rfl, if_pos hlength, getElem?_keywordState_bound, if_pos hlt, hnone, hkeywordAt,
          List.lookup_append, hlookup, Option.none_or, Option.none_or, lookup_cons_self]
      · rw [if_neg hidx, getElem?_keywordState_bound, getElem?_keywordState_bound,
          keywordAt_append_of_ne value fun _ h => hidx (honly idx h).symm]
    rw [hbound]
    have hmem := List.mem_of_getElem? hparam
    have hstate : keywordState func positional (keywords ++ [(name, value)]) =
        { keywordState func positional keywords with
          bound := (keywordState func positional (keywords ++ [(name, value)])).bound } := by
      simp [keywordState, hmem, hkwonly]
    rw [hstate]
    simp [eq_comm]

/-- One keyword is bound when it is acceptable, and only then. -/
lemma bindKeyword_eq_ok (hfunc : func.WellFormed) {positional : List V}
    {keywords : List (String × V)} {name : String} {value : V} {state : KeywordState V}
    (hname : name ∉ keywords.map Prod.fst) :
    bindKeyword func (keywordState func positional keywords) (name, value) = .ok state ↔
      Accepts func positional name ∧
        state = keywordState func positional (keywords ++ [(name, value)]) := by
  unfold bindKeyword
  dsimp only
  split
  · rename_i hposonly
    obtain ⟨hparams, hkwonly⟩ := hfunc.notMem_of_posonly hposonly
    exact bindExtraKeyword_eq_ok hname hparams hkwonly
  · rename_i hposonly
    cases hindex : func.code.params.findIdx? (· = name) with
    | some index =>
      obtain ⟨hlt, hparam, -⟩ := List.findIdx?_eq_some_iff_getElem.1 hindex
      have hparam : func.code.params[index]? = some name := by
        rw [List.getElem?_eq_getElem hlt]
        simpa using hparam
      exact bindParam_eq_ok hfunc hname hparam
    | none =>
      have hparams : name ∉ func.code.params :=
        fun hmem => by simpa using List.findIdx?_eq_none_iff.1 hindex name hmem
      dsimp only
      split
      · rename_i hkwonly
        have hlookup : (keywordState func positional keywords).kwonly.lookup name = none := by
          rw [lookup_eq_none_iff_notMem]
          simp only [keywordState, List.map_reverse, List.mem_reverse]
          exact fun hmem => hname ((List.filter_sublist.map Prod.fst).subset hmem)
        have hstate : keywordState func positional (keywords ++ [(name, value)]) =
            { keywordState func positional keywords with
              kwonly := (name, value) :: (keywordState func positional keywords).kwonly } := by
          have hbound : (keywordState func positional (keywords ++ [(name, value)])).bound =
              (keywordState func positional keywords).bound :=
            keywordState_bound_append value hparams
          simp only [keywordState] at hbound ⊢
          rw [hbound]
          simp [hkwonly]
        have haccepts : Accepts func positional name :=
          ⟨fun _ h => absurd hkwonly h, fun idx hidx => absurd (List.mem_of_getElem? hidx) hparams⟩
        simp [hlookup, hstate, haccepts, eq_comm]
      · rename_i hkwonly
        exact bindExtraKeyword_eq_ok hname hparams hkwonly

lemma except_check_eq_ok {ε α β : Type} {condition : Prop} {_ : Decidable condition} {error : ε}
    {next : α → Except ε β} {rest : Except ε β} {b : β} :
    (if condition then throw error >>= next else rest) = .ok b ↔ ¬ condition ∧ rest = .ok b := by
  by_cases hcondition : condition
  · simp [hcondition, throw, throwThe, MonadExceptOf.throw, bind, Except.bind]
  · simp [hcondition]

/-- All keywords are bound when each is acceptable. -/
lemma foldlM_bindKeyword_eq_ok (hfunc : func.WellFormed) {positional : List V}
    {before keywords : List (String × V)} {state : KeywordState V}
    (hnodup : ((before ++ keywords).map Prod.fst).Nodup) :
    keywords.foldlM (bindKeyword func) (keywordState func positional before) = .ok state ↔
      (∀ keyword ∈ keywords, Accepts func positional keyword.1) ∧
        state = keywordState func positional (before ++ keywords) := by
  induction keywords generalizing before with
  | nil => simp [pure, Except.pure, eq_comm]
  | cons keyword keywords ih =>
    obtain ⟨name, value⟩ := keyword
    have hname : name ∉ before.map Prod.fst := by
      simp only [List.map_append, List.map_cons, List.nodup_append, List.mem_cons] at hnodup
      exact fun hmem => hnodup.2.2 name hmem name (.inl rfl) rfl
    have hnodup' : (((before ++ [(name, value)]) ++ keywords).map Prod.fst).Nodup := by
      simpa using hnodup
    rw [List.foldlM_cons, Results.bind_eq_ok]
    constructor
    · rintro ⟨middle, hkeyword, hrest⟩
      obtain ⟨haccepts, rfl⟩ := (bindKeyword_eq_ok hfunc hname).1 hkeyword
      obtain ⟨hall, hstate⟩ := (ih hnodup').1 hrest
      refine ⟨?_, by simpa using hstate⟩
      rintro _ (_ | ⟨_, hmem⟩)
      · exact haccepts
      · exact hall _ hmem
    · rintro ⟨hall, hstate⟩
      refine ⟨_, (bindKeyword_eq_ok hfunc hname).2 ⟨hall _ List.mem_cons_self, rfl⟩, ?_⟩
      exact (ih hnodup').2
        ⟨fun _ hmem => hall _ (List.mem_cons_of_mem _ hmem), by simpa using hstate⟩

end Keywords

/-! ## The general path -/

section General

variable {func : FunctionObject V}

lemma bindKeywordOnly_eq_ok {kwonly : List (String × V)} {name : String} {value : V} :
    bindKeywordOnly func kwonly name = .ok value ↔
      (kwonly.lookup name).or (func.kwonlyDefaults.lookup name) = some value := by
  unfold bindKeywordOnly
  cases kwonly.lookup name with
  | some _ => simp
  | none => cases func.kwonlyDefaults.lookup name <;> simp

lemma mapM_bindKeywordOnly_eq_ok {kwonly : List (String × V)} {names : List String}
    {values : List V} :
    names.mapM (bindKeywordOnly func kwonly) = .ok values ↔
      names.map (fun name => (kwonly.lookup name).or (func.kwonlyDefaults.lookup name)) =
        values.map some := by
  induction names generalizing values with
  | nil =>
    rw [List.mapM_nil]
    cases values <;> simp [pure, Except.pure]
  | cons name names ih =>
    rw [List.mapM_cons, Results.bind_eq_ok]
    constructor
    · rintro ⟨value, hvalue, hrest⟩
      obtain ⟨rest, hmapM, hvalues⟩ := Results.bind_eq_ok.1 hrest
      obtain rfl : value :: rest = values := by simpa [pure, Except.pure] using hvalues
      rw [List.map_cons, List.map_cons, ih.1 hmapM, bindKeywordOnly_eq_ok.1 hvalue]
    · intro hall
      cases values with
      | nil => simp at hall
      | cons value values =>
        rw [List.map_cons, List.map_cons, List.cons.injEq] at hall
        exact ⟨value, bindKeywordOnly_eq_ok.2 hall.1,
          Results.bind_eq_ok.2 ⟨values, ih.2 hall.2, rfl⟩⟩

/-- The arguments of the positional parameters, of those that have one. -/
def Call.arguments (func : FunctionObject V) (call : Call V) : List V :=
  ((List.range func.code.positionalParams.length).map (call.argument func)).reduceOption

/-- What the call binds, with the surplus keywords in the order of the loop. -/
def Call.bindings (func : FunctionObject V) (call : Call V) (kwargsOrder : Option (List String)) :
    BoundArguments V where
  posonly := (call.arguments func).take func.code.posonlyParams.length
  positional := (call.arguments func).drop func.code.posonlyParams.length
  kwonly := (func.code.kwonlyParams.map (call.keywordArgument func)).reduceOption
  vararg := func.code.vararg.map fun _ => call.surplusPositional func
  kwarg := func.code.kwarg.map fun _ => (orderedKwargs call.keywords kwargsOrder).filter
    fun keyword => keyword.1 ∉ func.code.params ∧ keyword.1 ∉ func.code.kwonlyParams

lemma Call.head?_given (func : FunctionObject V) (call : Call V) (idx : ℕ) :
    (call.given func idx).head? = call.positional[idx]?.or (keywordAt func call.keywords idx) := by
  unfold given keywordAt
  cases call.positional[idx]? with
  | some value => simp
  | none => split <;> simp

/-- Keywords are acceptable when no parameter is given two values and the collectors are there. -/
lemma Call.forall_accepts_iff {call : Call V}
    (hkeywords : (call.keywords.map Prod.fst).Nodup) :
    (∀ keyword ∈ call.keywords, Accepts func call.positional keyword.1) ↔
      (∀ idx < func.code.positionalParams.length, (call.given func idx).length ≤ 1) ∧
        (func.code.kwarg = none → call.surplusKeywords func = []) := by
  have hgiven : ∀ idx, (call.given func idx).length ≤ 1 ↔
      call.positional[idx]? = none ∨ keywordAt func call.keywords idx = none := by
    intro idx
    unfold Call.given keywordAt
    cases call.positional[idx]? with
    | none => split <;> simp [Option.length_toList_le]
    | some _ => split <;> simp
  simp only [hgiven]
  constructor
  · refine fun hall => ⟨fun idx hidx => ?_, fun hkwarg => ?_⟩
    · refine or_iff_not_imp_right.2 fun hkeyword => ?_
      obtain ⟨value, hvalue⟩ := Option.ne_none_iff_exists'.1 hkeyword
      unfold keywordAt at hvalue
      split at hvalue
      · cases hvalue
      · rename_i hposonly
        obtain ⟨name, hname, hlookup⟩ := Option.bind_eq_some_iff.1 hvalue
        obtain ⟨idx, rfl⟩ := Nat.exists_eq_add_of_le (Nat.le_of_not_lt hposonly)
        rw [getElem?_positionalParams_add] at hname
        exact (hall _ ((lookup_eq_some_iff_mem hkeywords).1 hlookup)).free idx hname
    · refine List.filter_eq_nil_iff.2 fun keyword hmem hkeyword => ?_
      simp only [decide_eq_true_eq] at hkeyword
      have hsome := (hall keyword hmem).kwarg hkeyword.1 hkeyword.2
      simp [hkwarg] at hsome
  · rintro ⟨hgiven, hsurplus⟩ ⟨name, value⟩ hmem
    refine ⟨fun hparams hkwonly => ?_, fun idx hidx => ?_⟩
    · by_contra hkwarg
      have hnil := hsurplus (by simpa using hkwarg)
      have hsurplus : (name, value) ∈ call.surplusKeywords func :=
        List.mem_filter.2 ⟨hmem, by simp [hparams, hkwonly]⟩
      simp [hnil] at hsurplus
    · have hat : func.code.positionalParams[func.code.posonlyParams.length + idx]? = some name := by
        rw [getElem?_positionalParams_add, hidx]
      refine (hgiven _ (List.getElem?_eq_some_iff.1 hat).1).resolve_right fun hnone => ?_
      rw [keywordAt, if_neg (by omega), hat, Option.bind_some,
        (lookup_eq_some_iff_mem hkeywords).2 hmem] at hnone
      cases hnone

lemma keywordAt_perm {keywords keywords' : List (String × V)}
    (h : (keywords'.map Prod.fst).Nodup) (hperm : keywords.Perm keywords') (idx : ℕ) :
    keywordAt func keywords idx = keywordAt func keywords' idx := by
  have hlookup := lookup_perm ((hperm.map Prod.fst).nodup_iff.2 h) hperm
  simp only [keywordAt, hlookup]

/-- The slots behind the loop and the defaults hold the arguments of the positional parameters. -/
lemma fillDefaults_keywordState {call : Call V} {keywords : List (String × V)}
    (hkeywords : (call.keywords.map Prod.fst).Nodup) (hperm : keywords.Perm call.keywords) :
    fillDefaults func.defaults (func.code.positionalParams.length - func.defaults.length)
        (keywordState func call.positional keywords).bound =
      (List.range func.code.positionalParams.length).map (call.argument func) := by
  refine List.ext_getElem? fun idx => ?_
  rw [fillDefaults, List.getElem?_mapIdx, getElem?_keywordState_bound, List.getElem?_map,
    keywordAt_perm hkeywords hperm, ← call.head?_given func]
  by_cases hidx : idx < func.code.positionalParams.length
  · rw [if_pos hidx, List.getElem?_range hidx, Option.map_some, Option.map_some, Call.argument,
      FunctionObject.defaultAt]
    split <;> simp
  · have hnone : (List.range func.code.positionalParams.length)[idx]? = none :=
      List.getElem?_eq_none (by simpa using hidx)
    rw [if_neg hidx, hnone, Option.map_none, Option.map_none]

lemma missingRequired_eq_nil_iff {code : CodeObject} {required : ℕ} {bound : List (Option V)}
    (hrequired : required ≤ code.positionalParams.length)
    (hbound : bound.length = code.positionalParams.length) :
    missingRequired code required bound = [] ↔ ∀ idx < required, (bound[idx]?.join).isSome := by
  rw [missingRequired, List.filterMap_eq_nil_iff]
  constructor
  · intro hall idx hidx
    have hbound' : idx < bound.length := by omega
    have hparam : idx < code.positionalParams.length := by omega
    have hmem : (code.positionalParams[idx], bound[idx]) ∈
        (code.positionalParams.zip bound).take required := by
      refine List.mem_iff_getElem?.2 ⟨idx, ?_⟩
      rw [List.getElem?_take_of_lt hidx, List.getElem?_zip_eq_some]
      exact ⟨List.getElem?_eq_getElem hparam, List.getElem?_eq_getElem hbound'⟩
    have hsome := hall _ hmem
    rw [List.getElem?_eq_getElem hbound', Option.join_some]
    cases hslot : bound[idx] with
    | none => simp [hslot] at hsome
    | some _ => rfl
  · rintro hall ⟨name, slot⟩ hmem
    obtain ⟨idx, hidx⟩ := List.mem_iff_getElem?.1 hmem
    have hlt : idx < required := by
      by_contra hge
      rw [List.getElem?_eq_none (by rw [List.length_take]; omega)] at hidx
      cases hidx
    rw [List.getElem?_take_of_lt hlt, List.getElem?_zip_eq_some] at hidx
    have hslot := hall idx hlt
    rw [hidx.2, Option.join_some] at hslot
    cases slot with
    | none => cases hslot
    | some _ => rfl

/-- No required parameter is missing when every positional parameter has an argument. -/
lemma missingRequired_keywordState (hfunc : func.WellFormed) {call : Call V}
    {keywords : List (String × V)} (hkeywords : (call.keywords.map Prod.fst).Nodup)
    (hperm : keywords.Perm call.keywords) :
    missingRequired func.code (func.code.positionalParams.length - func.defaults.length)
        (keywordState func call.positional keywords).bound = [] ↔
      ∀ idx < func.code.positionalParams.length, (call.argument func idx).isSome := by
  rw [missingRequired_eq_nil_iff (Nat.sub_le _ _) (by simp [keywordState])]
  have hdefaults := hfunc.defaults_le
  have hslot : ∀ idx < func.code.positionalParams.length,
      (keywordState func call.positional keywords).bound[idx]?.join =
        (call.given func idx).head? := by
    intro idx hidx
    rw [getElem?_keywordState_bound, if_pos hidx, keywordAt_perm hkeywords hperm,
      ← call.head?_given func, Option.join_some]
  constructor
  · intro hall idx hidx
    unfold Call.argument FunctionObject.defaultAt
    by_cases hrequired : func.code.positionalParams.length - func.defaults.length ≤ idx
    · rw [if_pos hrequired, List.getElem?_eq_getElem (by omega)]
      simp
    · have hsome := hall idx (by omega)
      rw [hslot idx hidx] at hsome
      rw [if_neg hrequired, Option.or_none]
      exact hsome
  · intro hall idx hidx
    have hsome := hall idx (by omega)
    unfold Call.argument FunctionObject.defaultAt at hsome
    rw [if_neg (by omega), Option.or_none] at hsome
    rwa [hslot idx (by omega)]

lemma map_some_reduceOption {slots : List (Option V)} (h : ∀ slot ∈ slots, slot.isSome) :
    slots.reduceOption.map some = slots := by
  induction slots with
  | nil => rfl
  | cons slot slots ih =>
    obtain ⟨value, rfl⟩ := Option.isSome_iff_exists.1 (h slot List.mem_cons_self)
    rw [List.reduceOption_cons_of_some, List.map_cons,
      ih fun slot hslot => h slot (List.mem_cons_of_mem _ hslot)]

/-- The keyword-only parameters get what the call means. -/
lemma keywordOnly_eq_ok {call : Call V} {positional : List V} {keywords : List (String × V)}
    (hkeywords : (call.keywords.map Prod.fst).Nodup) (hperm : keywords.Perm call.keywords)
    {values : List V} :
    func.code.kwonlyParams.mapM
        (bindKeywordOnly func (keywordState func positional keywords).kwonly) = .ok values ↔
      func.code.kwonlyParams.map (call.keywordArgument func) = values.map some := by
  have hlookup : ∀ name ∈ func.code.kwonlyParams,
      (keywordState func positional keywords).kwonly.lookup name = call.keywords.lookup name := by
    intro name hname
    have hnodup : ((keywords.filter (·.1 ∈ func.code.kwonlyParams)).map Prod.fst).Nodup :=
      ((hperm.map Prod.fst).nodup_iff.2 hkeywords).sublist (List.filter_sublist.map Prod.fst)
    ext value
    rw [lookup_eq_some_iff_mem hkeywords, lookup_eq_some_iff_mem (by
      simpa [keywordState] using hnodup), ← hperm.mem_iff]
    simp [keywordState, hname]
  rw [mapM_bindKeywordOnly_eq_ok]
  have hmap : func.code.kwonlyParams.map (fun name =>
      ((keywordState func positional keywords).kwonly.lookup name).or
        (func.kwonlyDefaults.lookup name)) =
      func.code.kwonlyParams.map (call.keywordArgument func) :=
    List.map_congr_left fun name hname => by rw [hlookup name hname, Call.keywordArgument]
  rw [hmap]

/-- The general path binds what the call means. -/
theorem bindGeneral_eq_ok (hfunc : func.WellFormed) {call : Call V}
    (hkeywords : (call.keywords.map Prod.fst).Nodup) (kwargsOrder : Option (List String))
    {bindings : BoundArguments V} :
    bindGeneral func call.positional call.keywords kwargsOrder = .ok bindings ↔
      call.Legal func ∧ bindings = call.bindings func kwargsOrder := by
  have hperm := orderedKwargs_perm hkeywords kwargsOrder
  have htotal : func.code.posonlyParams.length + func.code.params.length =
      func.code.positionalParams.length := by
    rw [CodeObject.positionalParams, List.length_append]
  have hstart : (⟨(List.range func.code.positionalParams.length).map fun idx =>
      call.positional[idx]?, [], []⟩ : KeywordState V) = keywordState func call.positional [] := by
    simp [keywordState, keywordAt]
  unfold bindGeneral
  simp only [htotal, hstart]
  rw [except_check_eq_ok, except_check_eq_ok, Results.bind_eq_ok]
  have hloop : ∀ state, (orderedKwargs call.keywords kwargsOrder).foldlM (bindKeyword func)
      (keywordState func call.positional []) = .ok state ↔
        (∀ keyword ∈ orderedKwargs call.keywords kwargsOrder,
          Accepts func call.positional keyword.1) ∧
          state = keywordState func call.positional (orderedKwargs call.keywords kwargsOrder) :=
    fun _ => foldlM_bindKeyword_eq_ok hfunc ((hperm.map Prod.fst).nodup_iff.2 hkeywords)
  have haccepts : (∀ keyword ∈ orderedKwargs call.keywords kwargsOrder,
      Accepts func call.positional keyword.1) ↔
        ∀ keyword ∈ call.keywords, Accepts func call.positional keyword.1 := by
    simp only [hperm.mem_iff]
  simp only [hloop, haccepts, Call.forall_accepts_iff hkeywords]
  have hfilled := @fillDefaults_keywordState V func _ _ hkeywords hperm
  have hmissing := missingRequired_keywordState hfunc hkeywords hperm
  have hkwonly := fun values =>
    @keywordOnly_eq_ok V func call call.positional _ hkeywords hperm values
  constructor
  · rintro ⟨-, hpositional, state, ⟨⟨hgiven, hkwarg⟩, rfl⟩, hrest⟩
    rw [except_check_eq_ok, Results.bind_eq_ok] at hrest
    obtain ⟨hnone, values, hvalues, hbindings⟩ := hrest
    rw [hfilled] at hbindings
    have hvalues := (hkwonly values).1 hvalues
    refine ⟨⟨hgiven, ?_, fun name hname => ?_, fun hvararg => ?_, hkwarg⟩, ?_⟩
    · exact hmissing.1 (by simpa using hnone)
    · have hmem : call.keywordArgument func name ∈ values.map some :=
        hvalues ▸ List.mem_map_of_mem hname
      obtain ⟨value, -, hvalue⟩ := List.mem_map.1 hmem
      rw [← hvalue]
      rfl
    · refine List.drop_eq_nil_of_le ?_
      by_contra hlt
      exact hpositional ⟨by omega, by simp [hvararg]⟩
    · rw [← Except.ok.inj hbindings, Call.bindings, hvalues, Call.arguments]
      simp [List.reduceOption, keywordState, Call.surplusPositional]
  · rintro ⟨hlegal, rfl⟩
    refine ⟨Nat.not_lt.2 hfunc.defaults_le, ?_, _,
      ⟨⟨hlegal.given_le_one, hlegal.keywords⟩, rfl⟩, ?_⟩
    · rintro ⟨hlt, hvararg⟩
      have hnil := hlegal.positional (by simpa using hvararg)
      rw [Call.surplusPositional, List.drop_eq_nil_iff] at hnil
      omega
    · rw [except_check_eq_ok, Results.bind_eq_ok]
      refine ⟨by simpa using hmissing.2 hlegal.argument_isSome,
        (func.code.kwonlyParams.map (call.keywordArgument func)).reduceOption, ?_, ?_⟩
      · refine (hkwonly _).2 (map_some_reduceOption fun slot hslot => ?_).symm
        obtain ⟨name, hname, rfl⟩ := List.mem_map.1 hslot
        exact hlegal.keywordArgument_isSome name hname
      · rw [hfilled]
        rfl

/-! ## Plain positional calls -/

lemma reduceOption_map_some (values : List V) : (values.map some).reduceOption = values := by
  simp [List.reduceOption]

/-- A call without keywords of a function without defaults and collectors is legal when it has as
many values as the function has parameters. -/
lemma Call.legal_iff_of_plain {call : Call V} (hkeywords : call.keywords = [])
    (hdefaults : func.defaults = []) (hkwonly : func.code.kwonlyParams = [])
    (hvararg : func.code.vararg = none) :
    call.Legal func ↔ call.positional.length = func.code.positionalParams.length := by
  have hgiven : ∀ idx, call.given func idx = call.positional[idx]?.toList := fun idx => by
    simp [given, hkeywords]
  have hargument : ∀ idx, call.argument func idx = call.positional[idx]? := fun idx => by
    rw [argument, hgiven, FunctionObject.defaultAt, hdefaults]
    cases call.positional[idx]? <;> simp
  constructor
  · intro hlegal
    have hle := List.drop_eq_nil_iff.1 (hlegal.positional hvararg)
    by_contra hne
    have hsome := hlegal.argument_isSome call.positional.length (by omega)
    rw [hargument, List.getElem?_eq_none le_rfl] at hsome
    cases hsome
  · intro hlength
    refine ⟨fun idx _ => ?_, fun idx hidx => ?_, by simp [hkwonly], fun _ => ?_, fun _ => ?_⟩
    · rw [hgiven]
      exact Option.length_toList_le
    · rw [hargument, List.getElem?_eq_getElem (by omega)]
      rfl
    · exact List.drop_eq_nil_of_le (by omega)
    · simp [surplusKeywords, hkeywords]

lemma Call.arguments_of_plain {call : Call V} (hkeywords : call.keywords = [])
    (hdefaults : func.defaults = [])
    (hlength : call.positional.length = func.code.positionalParams.length) :
    call.arguments func = call.positional := by
  have hslots : (List.range func.code.positionalParams.length).map (call.argument func) =
      call.positional.map some := by
    refine List.ext_getElem? fun idx => ?_
    rw [List.getElem?_map, List.getElem?_map]
    by_cases hidx : idx < func.code.positionalParams.length
    · rw [List.getElem?_range hidx, Option.map_some, argument, given, FunctionObject.defaultAt,
        hkeywords, hdefaults, List.getElem?_eq_getElem (by omega)]
      simp
    · rw [List.getElem?_eq_none (by simpa using hidx), List.getElem?_eq_none (by omega)]
      rfl
  rw [arguments, hslots, reduceOption_map_some]

/-- Both paths bind what the call means, and fail on the others. -/
theorem bindArguments_eq_ok (hfunc : func.WellFormed) {call : Call V}
    (hkeywords : (call.keywords.map Prod.fst).Nodup) (kwargsOrder : Option (List String))
    {bindings : BoundArguments V} :
    bindArguments func call.positional call.keywords kwargsOrder = .ok bindings ↔
      call.Legal func ∧ bindings = call.bindings func kwargsOrder := by
  unfold bindArguments
  split
  · rename_i hplain
    simp only [Bool.and_eq_true, List.isEmpty_iff, Option.isNone_iff_eq_none] at hplain
    obtain ⟨⟨⟨⟨hnil, hdefaults⟩, hkwonly⟩, hvararg⟩, hkwarg⟩ := hplain
    have htotal : func.code.posonlyParams.length + func.code.params.length =
        func.code.positionalParams.length := by
      rw [CodeObject.positionalParams, List.length_append]
    rw [Call.legal_iff_of_plain hnil hdefaults hkwonly hvararg]
    unfold bindPlainPositional
    simp only [htotal]
    by_cases hlength : call.positional.length = func.code.positionalParams.length
    · have hbindings : call.bindings func kwargsOrder =
          ⟨call.positional.take func.code.posonlyParams.length,
            call.positional.drop func.code.posonlyParams.length, [], none, none⟩ := by
        rw [Call.bindings, Call.arguments_of_plain hnil hdefaults hlength, hkwonly, hvararg, hkwarg]
        rfl
      simp [hlength, hbindings, eq_comm]
    · rcases Nat.lt_or_gt_of_ne hlength with hlt | hgt
      · simp [hlt, hlength]
      · simp [Nat.not_lt.2 hgt.le, hgt, hlength]
  · exact bindGeneral_eq_ok hfunc hkeywords kwargsOrder

end General

/-! ## Storing the arguments -/

section Frames

variable {code : CodeObject} {frame : CallFrame V}

lemma getElem?_of_lookup_zipIdx {names : List String} {name : String} {idx : ℕ}
    (h : names.zipIdx.reverse.lookup name = some idx) : names[idx]? = some name := by
  have hmem : (name, idx) ∈ names.zipIdx.reverse := by
    obtain ⟨before, after, heq, -⟩ := List.lookup_eq_some_iff.1 h
    rw [heq]
    simp
  exact List.mem_zipIdx_iff_getElem?.1 (List.mem_reverse.1 hmem)

lemma lookup_insertLocal_self (locals : List (String × Argument V)) (name : String)
    (arg : Argument V) : (insertLocal locals name arg).lookup name = some arg :=
  lookup_cons_self _ _ _

lemma lookup_insertLocal_of_ne (locals : List (String × Argument V)) {name name' : String}
    (arg : Argument V) (h : name' ≠ name) :
    (insertLocal locals name arg).lookup name' = locals.lookup name' := by
  rw [insertLocal, lookup_cons_of_ne h]
  induction locals with
  | nil => rfl
  | cons entry locals ih =>
    obtain ⟨key, value⟩ := entry
    by_cases hkey : key = name
    · rw [List.filter_cons_of_neg (by simpa using hkey), ih, lookup_cons_of_ne (hkey ▸ h)]
    · rw [List.filter_cons_of_pos (by simpa using hkey)]
      by_cases hname : name' = key
      · rw [hname, lookup_cons_self, lookup_cons_self]
      · rw [lookup_cons_of_ne hname, lookup_cons_of_ne hname, ih]

lemma lookup_updateExisting_of_ne (locals : List (String × Argument V)) {name name' : String}
    (arg : Argument V) (h : name' ≠ name) :
    (updateExisting locals name arg).lookup name' = locals.lookup name' := by
  induction locals with
  | nil => rfl
  | cons entry locals ih =>
    obtain ⟨key, value⟩ := entry
    rw [updateExisting, List.map_cons, ← updateExisting]
    by_cases hkey : key = name
    · rw [if_pos hkey, lookup_cons_of_ne h, lookup_cons_of_ne (hkey ▸ h), ih]
    · rw [if_neg hkey]
      by_cases hname : name' = key
      · rw [hname, lookup_cons_self, lookup_cons_self]
      · rw [lookup_cons_of_ne hname, lookup_cons_of_ne hname, ih]

lemma updateExisting_of_lookup_eq_none {locals : List (String × Argument V)} {name : String}
    (arg : Argument V) (h : locals.lookup name = none) :
    updateExisting locals name arg = locals := by
  rw [lookup_eq_none_iff_notMem] at h
  refine (List.map_congr_left fun entry hentry => if_neg ?_).trans (List.map_id _)
  rintro rfl
  exact h (List.mem_map_of_mem hentry)

lemma lookup_updateExisting_eq_none {locals : List (String × Argument V)} {name name' : String}
    (arg : Argument V) (h : locals.lookup name' = none) :
    (updateExisting locals name arg).lookup name' = none := by
  by_cases hname : name' = name
  · subst hname
    rw [updateExisting_of_lookup_eq_none arg h, h]
  · rw [lookup_updateExisting_of_ne _ _ hname, h]

/-- A frame of the code object: names with an index are kept in its fast locals or nowhere. -/
structure CallFrame.Shaped (code : CodeObject) (frame : CallFrame V) : Prop where
  fastLocals : frame.fastLocals.length = code.fastLocalCount
  cells : code.cellvars.length ≤ frame.cells.length
  locals : ∀ name, (code.nameToIndex name).isSome → frame.locals.lookup name = none

lemma CallFrame.Shaped.filter_cellvarToIndex (h : frame.Shaped code) (name : String) :
    (code.cellvarToIndex name).filter (· < frame.cells.length) = code.cellvarToIndex name := by
  cases hidx : code.cellvarToIndex name with
  | none => rfl
  | some idx =>
    have hlt := (List.getElem?_eq_some_iff.1 (getElem?_of_lookup_zipIdx hidx)).1
    simp only [Option.filter_some, decide_eq_true_eq, ite_eq_left_iff]
    intro hge
    exact absurd (hlt.trans_le h.cells) hge

lemma CallFrame.Shaped.local?_eq (h : frame.Shaped code) (name : String) :
    frame.local? code name =
      match code.cellvarToIndex name with
      | some idx => frame.cells[idx]?.join
      | none => ((code.nameToIndex name).bind fun idx => frame.fastLocals[idx]?.join).or
        (frame.locals.lookup name) := by
  have hfilter := h.filter_cellvarToIndex name
  cases hidx : code.cellvarToIndex name with
  | none => simp only [CallFrame.local?, hidx, Option.filter_none]
  | some idx =>
    rw [hidx] at hfilter
    simp only [CallFrame.local?, hidx, hfilter]

/-- A slot of a table of names that are stored by index. -/
lemma getElem?_set_of_name_ne {names : List String} {slots : List (Option (Argument V))}
    {name name' : String} {idx idx' : ℕ} (arg : Option (Argument V))
    (hidx : names.zipIdx.reverse.lookup name = some idx)
    (hidx' : names.zipIdx.reverse.lookup name' = some idx') (hne : name' ≠ name) :
    (slots.set idx arg)[idx']? = slots[idx']? := by
  refine List.getElem?_set_ne ?_
  rintro rfl
  have hname := (getElem?_of_lookup_zipIdx hidx).symm.trans (getElem?_of_lookup_zipIdx hidx')
  exact hne (Option.some.inj hname).symm

lemma shaped_assignBinding (h : frame.Shaped code) (name : String) (arg : Argument V) :
    (assignBinding code frame name arg).Shaped code := by
  unfold assignBinding
  rw [h.filter_cellvarToIndex]
  cases code.cellvarToIndex name with
  | some idx =>
    refine ⟨?_, by simpa using h.cells, fun name' hname' =>
      lookup_updateExisting_eq_none arg (h.locals name' hname')⟩
    dsimp only
    split
    · rw [List.length_set, h.fastLocals]
    · exact h.fastLocals
  | none =>
    cases hindex : code.nameToIndex name with
    | some idx =>
      exact ⟨by simpa using h.fastLocals, h.cells, fun name' hname' =>
        lookup_updateExisting_eq_none arg (h.locals name' hname')⟩
    | none =>
      refine ⟨h.fastLocals, h.cells, fun name' hname' => ?_⟩
      have hne : name' ≠ name := by
        rintro rfl
        simp [hindex] at hname'
      exact (lookup_insertLocal_of_ne _ _ hne).trans (h.locals name' hname')

/-- Other names keep their values. -/
lemma local?_assignBinding_of_ne (h : frame.Shaped code) {name name' : String} (arg : Argument V)
    (hne : name' ≠ name) :
    (assignBinding code frame name arg).local? code name' = frame.local? code name' := by
  rw [(shaped_assignBinding h name arg).local?_eq, h.local?_eq]
  unfold assignBinding
  rw [h.filter_cellvarToIndex]
  cases hcell : code.cellvarToIndex name with
  | some idx =>
    cases hcell' : code.cellvarToIndex name' with
    | some idx' => simp only [getElem?_set_of_name_ne _ hcell hcell' hne]
    | none =>
      simp only [lookup_updateExisting_of_ne _ _ hne]
      cases hindex' : code.nameToIndex name' with
      | none => rfl
      | some idx' =>
        cases hindex : code.nameToIndex name with
        | none => rfl
        | some slotIdx => simp only [Option.bind_some, getElem?_set_of_name_ne _ hindex hindex' hne]
  | none =>
    cases hindex : code.nameToIndex name with
    | some slotIdx =>
      simp only [lookup_updateExisting_of_ne _ _ hne]
      cases hindex' : code.nameToIndex name' with
      | none => rfl
      | some idx' => simp only [Option.bind_some, getElem?_set_of_name_ne _ hindex hindex' hne]
    | none => simp only [lookup_insertLocal_of_ne _ _ hne]

/-- A binding is stored under its name when there is a place for it. -/
lemma local?_assignBinding_self (h : frame.Shaped code) {name : String} (arg : Argument V)
    (hplace : code.HasPlace name) :
    (assignBinding code frame name arg).local? code name = some arg := by
  rw [(shaped_assignBinding h name arg).local?_eq]
  unfold assignBinding
  rw [h.filter_cellvarToIndex]
  cases hcell : code.cellvarToIndex name with
  | some idx =>
    have hlt := (List.getElem?_eq_some_iff.1 (getElem?_of_lookup_zipIdx hcell)).1
    simp [List.getElem?_set_self (hlt.trans_le h.cells)]
  | none =>
    cases hindex : code.nameToIndex name with
    | some slotIdx =>
      have hlt : slotIdx < frame.fastLocals.length := by
        rw [h.fastLocals]
        exact (hplace.resolve_left (by simp [hcell])) slotIdx hindex
      simp [List.getElem?_set_self hlt]
    | none => simp [lookup_insertLocal_self]

/-- A binding without a place is lost. -/
lemma local?_assignBinding_lost (h : frame.Shaped code) {name : String} (arg : Argument V)
    (hplace : ¬ code.HasPlace name) :
    (assignBinding code frame name arg).local? code name = none := by
  rw [(shaped_assignBinding h name arg).local?_eq]
  simp only [CodeObject.HasPlace, not_or, not_forall, Bool.not_eq_true, Option.isSome_eq_false_iff,
    Option.isNone_iff_eq_none] at hplace
  obtain ⟨hcell, slotIdx, hmem, hge⟩ := hplace
  have hindex : code.nameToIndex name = some slotIdx := hmem
  unfold assignBinding
  rw [h.filter_cellvarToIndex, hcell, hindex]
  have hlocals : frame.locals.lookup name = none := h.locals name (by simp [hindex])
  have hslot : (frame.fastLocals.set slotIdx (some arg))[slotIdx]? = none := by
    rw [List.getElem?_eq_none]
    rw [List.length_set, h.fastLocals]
    omega
  simp [hslot, lookup_updateExisting_eq_none arg hlocals]

/-- Bindings of different names are stored as far as there are places for them. -/
lemma local?_assignBindings (h : frame.Shaped code) {bindings : List (String × Argument V)}
    (hnodup : (bindings.map Prod.fst).Nodup) :
    (assignBindings code frame bindings).Shaped code ∧
      (∀ name ∉ bindings.map Prod.fst,
        (assignBindings code frame bindings).local? code name = frame.local? code name) ∧
      ∀ binding ∈ bindings,
        (code.HasPlace binding.1 →
          (assignBindings code frame bindings).local? code binding.1 = some binding.2) ∧
        (¬ code.HasPlace binding.1 →
          (assignBindings code frame bindings).local? code binding.1 = none) := by
  unfold assignBindings
  induction bindings generalizing frame with
  | nil => exact ⟨h, fun _ _ => rfl, fun _ hmem => by simp at hmem⟩
  | cons binding bindings ih =>
    obtain ⟨name, arg⟩ := binding
    simp only [List.map_cons, List.nodup_cons] at hnodup
    rw [List.foldl_cons]
    obtain ⟨hshaped, hothers, hstored⟩ := ih (shaped_assignBinding h name arg) hnodup.2
    refine ⟨hshaped, fun name' hname' => ?_, ?_⟩
    · simp only [List.map_cons, List.mem_cons, not_or] at hname'
      rw [hothers name' hname'.2, local?_assignBinding_of_ne h arg hname'.1]
    · rintro _ (_ | ⟨_, hmem⟩)
      · refine ⟨fun hplace => ?_, fun hplace => ?_⟩
        · rw [hothers name hnodup.1, local?_assignBinding_self h arg hplace]
        · rw [hothers name hnodup.1, local?_assignBinding_lost h arg hplace]
      · exact hstored _ hmem

lemma lt_foldl_max {indices : List ℕ} {idx : ℕ} (hmem : idx ∈ indices) (count : ℕ) :
    idx < indices.foldl (fun count idx => max count (idx + 1)) count := by
  have hmono : ∀ (indices : List ℕ) (count : ℕ),
      count ≤ indices.foldl (fun count idx => max count (idx + 1)) count := by
    intro indices
    induction indices with
    | nil => exact fun count => le_rfl
    | cons idx indices ih => exact fun count => (le_max_left _ _).trans (ih _)
  induction indices generalizing count with
  | nil => simp at hmem
  | cons first indices ih =>
    rw [List.foldl_cons]
    obtain rfl | hmem := List.mem_cons.1 hmem
    · exact lt_of_lt_of_le (Nat.lt_succ_self _) ((le_max_right _ _).trans (hmono _ _))
    · exact ih hmem _

/-- Positional parameters have places. -/
lemma hasPlace_of_mem_positionalParams {name : String} (hname : name ∈ code.positionalParams) :
    code.HasPlace name := by
  refine .inr fun idx hidx => lt_foldl_max (List.mem_append_right _ ?_) 0
  exact List.mem_filterMap.2 ⟨name, hname, hidx⟩

lemma shaped_new (closure : List (Option (Argument V))) :
    (CallFrame.new code closure).Shaped code :=
  ⟨by simp [CallFrame.new], by simp [CallFrame.new], fun _ _ => rfl⟩

/-- `store_fast_positional_arg` stores what `assign_binding` would. -/
lemma storeFastPositionalArg_spec (h : frame.Shaped code) {argIndex : ℕ} {name : String} (value : V)
    (hname : code.positionalParams[argIndex]? = some name) :
    (storeFastPositionalArg code frame argIndex value).Shaped code ∧ ∀ name',
      (storeFastPositionalArg code frame argIndex value).local? code name' =
        (assignBinding code frame name (.value value)).local? code name' := by
  have hplace := hasPlace_of_mem_positionalParams (List.mem_of_getElem? hname)
  have hassign := shaped_assignBinding h name (.value value)
  have hself := local?_assignBinding_self h (.value value) hplace
  have hothers := fun name' => @local?_assignBinding_of_ne V code frame h name name'
    (.value value)
  unfold storeFastPositionalArg
  simp only [hname, Option.bind_some, h.filter_cellvarToIndex]
  cases hcell : code.cellvarToIndex name with
  | some idx =>
    have hlt := (List.getElem?_eq_some_iff.1 (getElem?_of_lookup_zipIdx hcell)).1
    have hshaped : CallFrame.Shaped code
        { frame with cells := frame.cells.set idx (some (.value value)) } :=
      ⟨h.fastLocals, by simpa using h.cells, h.locals⟩
    refine ⟨hshaped, fun name' => ?_⟩
    by_cases hname' : name' = name
    · subst hname'
      rw [hself, hshaped.local?_eq, hcell]
      simp [List.getElem?_set_self (hlt.trans_le h.cells)]
    · rw [hothers name' hname', hshaped.local?_eq, h.local?_eq]
      cases hcell' : code.cellvarToIndex name' with
      | none => rfl
      | some idx' => simp only [getElem?_set_of_name_ne _ hcell hcell' hname']
  | none =>
    have hassignBinding : assignBinding code frame name (.value value) =
        match (code.nameToIndex name).filter (· < frame.fastLocals.length) with
        | some slotIdx =>
          { frame with fastLocals := frame.fastLocals.set slotIdx (some (.value value)) }
        | none => { frame with locals := insertLocal frame.locals name (.value value) } := by
      unfold assignBinding
      rw [h.filter_cellvarToIndex, hcell]
      cases hindex : code.nameToIndex name with
      | none => rfl
      | some slotIdx =>
        have hlt : slotIdx < frame.fastLocals.length := by
          rw [h.fastLocals]
          exact (hplace.resolve_left (by simp [hcell])) slotIdx hindex
        have hlocals := h.locals name (by simp [hindex])
        have hfilter : (some slotIdx).filter (· < frame.fastLocals.length) = some slotIdx := by
          simp [Option.filter, hlt]
        rw [hfilter]
        simp [updateExisting_of_lookup_eq_none _ hlocals]
    rw [hassignBinding] at hassign ⊢
    exact ⟨hassign, fun name' => rfl⟩

/-- The shortcut for plain positional calls stores what the general path does. -/
lemma local?_storeArgs (h : frame.Shaped code) {frame' : CallFrame V} (h' : frame'.Shaped code)
    (hagree : ∀ name, frame.local? code name = frame'.local? code name) {args : List V}
    {names : List String} {offset : ℕ} (hlength : names.length = args.length)
    (hnames : code.positionalParams.drop offset = names) (name : String) :
    ((args.zipIdx offset).foldl (fun frame (value, argIndex) =>
        storeFastPositionalArg code frame argIndex value) frame).local? code name =
      (assignBindings code frame' (names.zip (args.map .value))).local? code name := by
  induction args generalizing frame frame' names offset with
  | nil =>
    obtain rfl : names = [] := List.length_eq_zero_iff.1 hlength
    exact hagree name
  | cons value args ih =>
    cases names with
    | nil => simp at hlength
    | cons first names =>
      have hfirst : code.positionalParams[offset]? = some first := by
        rw [← List.head?_drop, hnames]
        rfl
      have hrest : code.positionalParams.drop (offset + 1) = names := by
        rw [← List.drop_drop, hnames]
        rfl
      obtain ⟨hshaped, hstored⟩ := storeFastPositionalArg_spec h value hfirst
      refine ih hshaped (shaped_assignBinding h' first (.value value)) (fun name' => ?_)
        (by simpa using hlength) hrest
      rw [hstored]
      by_cases hname' : name' = first
      · subst hname'
        have hplace := hasPlace_of_mem_positionalParams (List.mem_of_getElem? hfirst)
        rw [local?_assignBinding_self h _ hplace, local?_assignBinding_self h' _ hplace]
      · rw [local?_assignBinding_of_ne h _ hname', local?_assignBinding_of_ne h' _ hname', hagree]

end Frames

/-! ## Calls -/

section Calls

variable {func : FunctionObject V}

/-- All bindings of a call, with the names of the parameters. -/
def BoundArguments.entries (code : CodeObject) (bindings : BoundArguments V) :
    List (String × Argument V) :=
  code.posonlyParams.zip (bindings.posonly.map .value) ++
    code.params.zip (bindings.positional.map .value) ++
    code.kwonlyParams.zip (bindings.kwonly.map .value) ++
    code.vararg.toList.map (·, .tuple (bindings.vararg.getD [])) ++
    code.kwarg.toList.map (·, .dict (bindings.kwarg.getD []))

lemma applyBindings_eq (code : CodeObject) (frame : CallFrame V) (bindings : BoundArguments V) :
    applyBindings code frame bindings = assignBindings code frame (bindings.entries code) := by
  simp only [applyBindings, assignBindings, BoundArguments.entries, List.foldl_append]

lemma Call.Legal.map_arguments {call : Call V} (hlegal : call.Legal func) :
    (call.arguments func).map some =
      (List.range func.code.positionalParams.length).map (call.argument func) := by
  refine map_some_reduceOption fun slot hslot => ?_
  obtain ⟨idx, hidx, rfl⟩ := List.mem_map.1 hslot
  exact hlegal.argument_isSome idx (List.mem_range.1 hidx)

lemma Call.Legal.length_arguments {call : Call V} (hlegal : call.Legal func) :
    (call.arguments func).length = func.code.positionalParams.length := by
  simpa using congrArg List.length hlegal.map_arguments

lemma Call.Legal.map_keywordArguments {call : Call V} (hlegal : call.Legal func) :
    (func.code.kwonlyParams.map (call.keywordArgument func)).reduceOption.map some =
      func.code.kwonlyParams.map (call.keywordArgument func) := by
  refine map_some_reduceOption fun slot hslot => ?_
  obtain ⟨name, hname, rfl⟩ := List.mem_map.1 hslot
  exact hlegal.keywordArgument_isSome name hname

/-- The positional parameters with their arguments. -/
lemma Call.Legal.entries_bindings {call : Call V} (hlegal : call.Legal func)
    (kwargsOrder : Option (List String)) :
    (call.bindings func kwargsOrder).entries func.code =
      func.code.positionalParams.zip ((call.arguments func).map .value) ++
        func.code.kwonlyParams.zip
          ((func.code.kwonlyParams.map (call.keywordArgument func)).reduceOption.map .value) ++
        func.code.vararg.toList.map (·, .tuple (call.surplusPositional func)) ++
        func.code.kwarg.toList.map (·, .dict ((orderedKwargs call.keywords kwargsOrder).filter
          fun keyword => keyword.1 ∉ func.code.params ∧ keyword.1 ∉ func.code.kwonlyParams)) := by
  have hzip : func.code.posonlyParams.zip
        (((call.arguments func).take func.code.posonlyParams.length).map .value) ++
      func.code.params.zip
        (((call.arguments func).drop func.code.posonlyParams.length).map .value) =
      func.code.positionalParams.zip
        ((call.arguments func).map (Argument.value : V → Argument V)) := by
    have hlength := hlegal.length_arguments
    rw [CodeObject.positionalParams, List.length_append] at hlength
    rw [← List.zip_append (by simp [hlength]), ← List.map_append, List.take_append_drop]
    rfl
  have hvararg : func.code.vararg.toList.map (fun name => (name, Argument.tuple
        ((func.code.vararg.map fun _ => call.surplusPositional func).getD []))) =
      func.code.vararg.toList.map (·, .tuple (call.surplusPositional func)) := by
    cases func.code.vararg <;> rfl
  rw [BoundArguments.entries, Call.bindings, hzip, hvararg]
  cases func.code.kwarg <;> rfl

/-- A frame that stores the bindings of a legal call holds its arguments when every keyword-only
parameter and collector has a place. -/
lemma Call.Legal.holds_iff (hfunc : func.WellFormed) {call : Call V} (hlegal : call.Legal func)
    (hkeywords : (call.keywords.map Prod.fst).Nodup) (kwargsOrder : Option (List String))
    {frame : CallFrame V} (hshaped : frame.Shaped func.code) :
    call.Holds func (assignBindings func.code frame
        ((call.bindings func kwargsOrder).entries func.code)) ↔
      ∀ name ∈ func.code.kwonlyParams ++ func.code.vararg.toList ++ func.code.kwarg.toList,
        func.code.HasPlace name := by
  rw [hlegal.entries_bindings]
  set kwonly := (func.code.kwonlyParams.map (call.keywordArgument func)).reduceOption with hkwonly
  set extra := (orderedKwargs call.keywords kwargsOrder).filter fun keyword =>
    keyword.1 ∉ func.code.params ∧ keyword.1 ∉ func.code.kwonlyParams with hextra
  set entries : List (String × Argument V) :=
    func.code.positionalParams.zip ((call.arguments func).map .value) ++
    func.code.kwonlyParams.zip (kwonly.map .value) ++
    func.code.vararg.toList.map (·, .tuple (call.surplusPositional func)) ++
    func.code.kwarg.toList.map (·, .dict extra) with hentries
  have hkwonlyLength : kwonly.length = func.code.kwonlyParams.length := by
    simpa using congrArg List.length hlegal.map_keywordArguments
  have hkeys : entries.map Prod.fst = func.code.posonlyParams ++ func.code.params ++
      func.code.kwonlyParams ++ func.code.vararg.toList ++ func.code.kwarg.toList := by
    rw [hentries, List.map_append, List.map_append, List.map_append,
      List.map_fst_zip (by simp [hlegal.length_arguments]),
      List.map_fst_zip (by simp [hkwonlyLength])]
    simp [Function.comp_def, CodeObject.positionalParams]
  obtain ⟨-, -, hstored⟩ := local?_assignBindings hshaped (hkeys ▸ hfunc.nodup)
  have hpositional : ∀ idx name, func.code.positionalParams[idx]? = some name →
      ∃ value, call.argument func idx = some value ∧ (name, Argument.value value) ∈ entries := by
    intro idx name hname
    have hidx := (List.getElem?_eq_some_iff.1 hname).1
    have hargument : ((call.arguments func)[idx]?).map some = some (call.argument func idx) := by
      rw [← List.getElem?_map, hlegal.map_arguments, List.getElem?_map, List.getElem?_range hidx]
      rfl
    obtain ⟨value, hvalue, hsome⟩ := Option.map_eq_some_iff.1 hargument
    refine ⟨value, hsome.symm, ?_⟩
    simp only [hentries, List.mem_append]
    refine .inl (.inl (.inl (List.mem_iff_getElem?.2 ⟨idx, ?_⟩)))
    rw [List.getElem?_zip_eq_some]
    exact ⟨hname, by simp [hvalue]⟩
  have hkeywordOnly : ∀ name ∈ func.code.kwonlyParams,
      ∃ value, call.keywordArgument func name = some value ∧
        (name, Argument.value value) ∈ entries := by
    intro name hname
    obtain ⟨idx, hidx⟩ := List.mem_iff_getElem?.1 hname
    have hargument : (kwonly[idx]?).map some = some (call.keywordArgument func name) := by
      rw [← List.getElem?_map, hlegal.map_keywordArguments, List.getElem?_map, hidx]
      rfl
    obtain ⟨value, hvalue, hsome⟩ := Option.map_eq_some_iff.1 hargument
    refine ⟨value, hsome.symm, ?_⟩
    simp only [hentries, List.mem_append]
    refine .inl (.inl (.inr (List.mem_iff_getElem?.2 ⟨idx, ?_⟩)))
    rw [List.getElem?_zip_eq_some]
    exact ⟨hidx, by simp [hvalue]⟩
  have hvararg : ∀ name ∈ func.code.vararg,
      (name, Argument.tuple (call.surplusPositional func)) ∈ entries := by
    intro name hname
    simp [hentries, Option.mem_def.1 hname]
  have hkwarg : ∀ name ∈ func.code.kwarg, (name, Argument.dict extra) ∈ entries := by
    intro name hname
    simp [hentries, Option.mem_def.1 hname]
  constructor
  · intro hholds name hname
    by_contra hplace
    simp only [List.mem_append, Option.mem_toList] at hname
    obtain (hname | hname) | hname := hname
    · obtain ⟨value, hvalue, hmem⟩ := hkeywordOnly name hname
      have hlost := (hstored _ hmem).2 hplace
      rw [hholds.keywordOnly name hname, hvalue] at hlost
      cases hlost
    · have hlost := (hstored _ (hvararg name hname)).2 hplace
      rw [hholds.vararg name hname] at hlost
      cases hlost
    · have hlost := (hstored _ (hkwarg name hname)).2 hplace
      obtain ⟨_, -, heq⟩ := hholds.kwarg name hname
      rw [heq] at hlost
      cases hlost
  · intro hplaces
    simp only [List.mem_append, Option.mem_toList] at hplaces
    refine ⟨fun idx name hname => ?_, fun name hname => ?_, fun name hname => ?_,
      fun name hname => ⟨extra, ?_, ?_⟩⟩
    · obtain ⟨value, hvalue, hmem⟩ := hpositional idx name hname
      rw [(hstored _ hmem).1 (hasPlace_of_mem_positionalParams (List.mem_of_getElem? hname)),
        hvalue]
      rfl
    · obtain ⟨value, hvalue, hmem⟩ := hkeywordOnly name hname
      rw [(hstored _ hmem).1 (hplaces name (.inl (.inl hname))), hvalue]
      rfl
    · exact (hstored _ (hvararg name hname)).1 (hplaces name (.inl (.inr hname)))
    · exact (orderedKwargs_perm hkeywords kwargsOrder).filter _
    · exact (hstored _ (hkwarg name hname)).1 (hplaces name (.inr hname))

/-- The path of the function calls for plain positional values stores what the general path does. -/
lemma endAlike_pushFunctionCall (hfunc : func.WellFormed) {call : Call V}
    (hkeywords : (call.keywords.map Prod.fst).Nodup) (closure : List (Option (Argument V)))
    (kwargsOrder : Option (List String)) :
    EndAlike func.code (pushFunctionCall func closure call.positional call.keywords kwargsOrder)
      (bindAndApply func closure call.positional call.keywords kwargsOrder) := by
  have hshaped := @shaped_new V func.code closure
  unfold pushFunctionCall
  by_cases hsimple : (call.keywords.isEmpty &&
      decide (func.plainPositionalCallArity = some call.positional.length)) = true
  · dsimp only
    rw [if_pos hsimple]
    simp only [Bool.and_eq_true, List.isEmpty_iff, decide_eq_true_eq] at hsimple
    obtain ⟨hnil, harity⟩ := hsimple
    unfold FunctionObject.plainPositionalCallArity CodeObject.plainPositionalArity at harity
    split at harity
    · rename_i hdefaults
      simp only [Bool.and_eq_true, List.isEmpty_iff] at hdefaults
      split at harity
      · rename_i hplain
        simp only [Bool.and_eq_true, List.isEmpty_iff, Option.isNone_iff_eq_none] at hplain
        obtain ⟨⟨hkwonly, hvararg⟩, hkwarg⟩ := hplain
        have hlength : call.positional.length = func.code.positionalParams.length := by
          rw [CodeObject.positionalParams, List.length_append]
          exact (Option.some.inj harity).symm
        have hlegal := (Call.legal_iff_of_plain hnil hdefaults.1 hkwonly hvararg).2 hlength
        have hok := (bindArguments_eq_ok hfunc hkeywords kwargsOrder).2 ⟨hlegal, rfl⟩
        have hentries : (call.bindings func kwargsOrder).entries func.code =
            func.code.positionalParams.zip (call.positional.map .value) := by
          rw [hlegal.entries_bindings, Call.arguments_of_plain hnil hdefaults.1 hlength, hkwonly,
            hvararg, hkwarg]
          simp
        rw [bindAndApply, hok]
        change ∀ name, _ = (applyBindings _ _ _).local? _ name
        rw [applyBindings_eq, hentries]
        exact local?_storeArgs hshaped hshaped (fun _ => rfl) hlength.symm rfl
      · cases harity
    · cases harity
  · dsimp only
    rw [if_neg hsimple]
    change EndAlike _ (bindAndApply _ _ _ _ _) _
    cases bindAndApply func closure call.positional call.keywords kwargsOrder with
    | error message => rfl
    | ok frame => exact fun name => rfl

/-- A call binds its arguments as in Python, on every path, just when it is not legal or every
keyword-only parameter and every collector has a place in the frame. -/
theorem bindsAsPython_iff (hfunc : func.WellFormed) {call : Call V}
    (hkeywords : (call.keywords.map Prod.fst).Nodup) (closure : List (Option (Argument V)))
    (kwargsOrder : Option (List String)) :
    BindsAsPython func call closure kwargsOrder ↔
      (call.Legal func →
        ∀ name ∈ func.code.kwonlyParams ++ func.code.vararg.toList ++ func.code.kwarg.toList,
          func.code.HasPlace name) := by
  have hgeneral : call.EndsAsPython func
      (bindAndApply func closure call.positional call.keywords kwargsOrder) ↔
        (call.Legal func →
          ∀ name ∈ func.code.kwonlyParams ++ func.code.vararg.toList ++ func.code.kwarg.toList,
            func.code.HasPlace name) := by
    unfold bindAndApply
    cases hbind : bindArguments func call.positional call.keywords kwargsOrder with
    | error message =>
      have hnot : ¬ call.Legal func := fun hlegal => by
        have hok := (bindArguments_eq_ok hfunc hkeywords kwargsOrder).2 ⟨hlegal, rfl⟩
        rw [hbind] at hok
        cases hok
      exact iff_of_true hnot fun hlegal => absurd hlegal hnot
    | ok bindings =>
      obtain ⟨hlegal, rfl⟩ := (bindArguments_eq_ok hfunc hkeywords kwargsOrder).1 hbind
      change call.Legal func ∧ call.Holds func (applyBindings _ _ _) ↔ _
      rw [applyBindings_eq, hlegal.holds_iff hfunc hkeywords kwargsOrder (shaped_new closure)]
      exact ⟨fun h _ => h.2, fun h => ⟨hlegal, h hlegal⟩⟩
  refine ⟨fun h => hgeneral.1 h.general, fun h => ⟨hgeneral.2 h,
    endAlike_pushFunctionCall hfunc hkeywords closure kwargsOrder, fun bindings => ?_⟩⟩
  rw [bindArguments_eq_ok hfunc hkeywords, bindGeneral_eq_ok hfunc hkeywords]

end Calls

/-! ## A parameter that is only deleted -/

/-- The code of a function definition whose local names are given. -/
def compileFunctionDef (locals : Finset String) (definition : Stmt) : Option CodeObject :=
  match compileModule (plainAnalyses locals) 5 ⟨fun _ => "", fun _ => ""⟩ ⟨[definition]⟩ with
  | .ok code => code.constants.findSome? fun
    | .code inner => some inner
    | _ => none
  | .error _ => none

/-- `def f(*, a): del a` -/
def deletingFunction : FunctionObject ℕ where
  code := { CodeObject.new "f" with
    instructions := [⟨.deleteName, some 0⟩, ⟨.loadConst, some 0⟩, ⟨.returnValue, none⟩]
    names := ["a"]
    kwonlyParams := ["a"] }
  defaults := []
  kwonlyDefaults := []
  qualname := none
  ownerQualname := none

example :
    (compileFunctionDef {"a"} (.functionDef "f" [] false [] [] none none
        [⟨"a", none, none⟩] none [.delete [.name "a"]])).map (fun func =>
          (func.instructions, func.names, func.kwonlyParams, func.cellvars)) =
    some (deletingFunction.code.instructions, ["a"], ["a"], []) := by
  decide +kernel

/-- `f(a=1)` loses the argument: the name has an index, but no instruction loads or stores it. -/
theorem not_bindsAsPython_deletingFunction :
    deletingFunction.WellFormed ∧ (([("a", 1)] : List (String × ℕ)).map Prod.fst).Nodup ∧
      ¬ BindsAsPython deletingFunction ⟨[], [("a", 1)]⟩ [] none := by
  refine ⟨⟨by decide, by decide⟩, by decide, fun h => ?_⟩
  have hbind : bindAndApply deletingFunction [] [] [("a", 1)] none = .ok ⟨[], [], []⟩ := rfl
  have hends := h.general
  rw [hbind] at hends
  have hlocal := hends.2.keywordOnly "a" (by decide)
  cases hlocal

/-- `def f(x, /, y, *rest, z=3, **more): return x, y, rest, z, more` -/
def mixedFunction : FunctionObject ℕ where
  code := { CodeObject.new "f" with
    instructions := [⟨.loadFast, some 0⟩, ⟨.loadFast, some 1⟩, ⟨.loadFast, some 2⟩,
      ⟨.loadFast, some 3⟩, ⟨.loadFast, some 4⟩, ⟨.buildTuple, some 5⟩, ⟨.returnValue, none⟩,
      ⟨.loadConst, some 0⟩, ⟨.returnValue, none⟩]
    names := ["x", "y", "rest", "z", "more"]
    posonlyParams := ["x"]
    params := ["y"]
    kwonlyParams := ["z"]
    vararg := some "rest"
    kwarg := some "more" }
  defaults := []
  kwonlyDefaults := [("z", 3)]
  qualname := none
  ownerQualname := none

/-- `f(1, 2, 4, 5, x=6, w=7)`: the keyword of the positional-only name goes to `more`. -/
theorem bindsAsPython_mixedFunction :
    BindsAsPython mixedFunction ⟨[1, 2, 4, 5], [("x", 6), ("w", 7)]⟩ [] (some ["w", "x"]) :=
  (@bindsAsPython_iff ℕ mixedFunction ⟨by decide, by decide⟩ ⟨[1, 2, 4, 5], [("x", 6), ("w", 7)]⟩
    (by decide) [] (some ["w", "x"])).2 fun _ => by decide

example :
    (compileFunctionDef {"x", "y", "z", "rest", "more"} (.functionDef "f" [] false
      [⟨"x", none, none⟩]
        [⟨"y", none, none⟩] (some ⟨"rest", none, none⟩) (some ⟨"more", none, none⟩)
        [⟨"z", none, some (.constant (.int 3))⟩] none [.returnStmt (some (.tuple [.name "x", .name "y",
          .name "rest", .name "z", .name "more"]))])).map (fun func =>
            (func.instructions, func.names)) =
    some (mixedFunction.code.instructions, mixedFunction.code.names) := by
  decide +kernel

end Pyrs
