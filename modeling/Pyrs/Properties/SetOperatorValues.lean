import Pyrs.Properties.KeyHashes
import Pyrs.Properties.SetOperatorLaws

/-!
# The set operators on key values

The laws of the set operators for the values that can be keys.

The operators search with `==` and the sets with the hash and the equality of keys.  The laws hold
where the two searches agree on the elements of the operands; `None`, a NaN and an instance with
storage of its own are values where they may not.
-/

namespace Pyrs

namespace KeyValue

mutual

/-- `is_hashable`. -/
def isHashable : KeyValue → Bool
  | .byteArray _ => false
  | .tuple values | .frozenSet values => allHashable values
  | _ => true

def allHashable : List KeyValue → Bool
  | [] => true
  | value :: values => isHashable value && allHashable values

end

end KeyValue

/-- The values that the set operators work on. -/
def keyValueOps (hasher : List UInt8 → UInt64) : SetValues KeyValue where
  valueKeyEqual := valueKeyEqual hasher
  valueLookupHash := valueHashKey hasher
  valueEq := valueEq hasher
  isHashable := KeyValue.isHashable

section

variable {hasher : List UInt8 → UInt64}

lemma floatKeyEqual_refl (x : Binary64) : floatKeyEqual x x = true := by
  rw [floatKeyEqual]
  cases hnan : x.isNaN with
  | false => simp [Binary64.eq_self, hnan]
  | true => simp

lemma keyEqualItems_refl {values : List KeyValue}
    (h : ∀ value ∈ values, valueKeyEqual hasher value value = true) :
    keyEqualItems hasher values values = true := by
  induction values with
  | nil => simp [keyEqualItems]
  | cons value values ih =>
    rw [keyEqualItems, h value List.mem_cons_self,
      ih fun other hother => h other (List.mem_cons_of_mem _ hother)]
    rfl

/-- Behind matched items, a value is matched with itself. -/
lemma matchOne_refl {value : KeyValue} (h : valueKeyEqual hasher value value = true)
    (front items : List KeyValue) (flags : List Bool) :
    matchOne hasher value (front ++ value :: items)
        (List.replicate front.length true ++ false :: flags) =
      some (List.replicate front.length true ++ true :: flags) := by
  induction front with
  | nil => simp [matchOne, h]
  | cons item front ih =>
    simp only [List.cons_append, List.length_cons, List.replicate_succ]
    rw [matchOne, ih]
    simp

lemma matchAll_refl {values : List KeyValue}
    (h : ∀ value ∈ values, valueKeyEqual hasher value value = true) (front : List KeyValue) :
    matchAll hasher values (front ++ values)
      (List.replicate front.length true ++ List.replicate values.length false) = true := by
  induction values generalizing front with
  | nil => simp [matchAll]
  | cons value values ih =>
    have hrest := ih (fun other hother => h other (List.mem_cons_of_mem _ hother))
      (front ++ [value])
    rw [matchAll, List.length_cons, List.replicate_succ,
      matchOne_refl (h value List.mem_cons_self)]
    simpa [List.replicate_succ'] using hrest

lemma numberKeyEqual_refl (value : Number) : value.keyEqual value = true := by
  cases value with
  | float value => simp [Number.keyEqual, floatKeyEqual_refl]
  | _ => simp [Number.keyEqual, Number.eq]

/-- Where neither value stands for another one, the kinds of the values decide. -/
lemma valueKeyEqual_of_kinds {left right : KeyValue} (hleft : left.backing = none)
    (hright : right.backing = none) (h : (match left, right with
      | .number left, .number right => left.keyEqual right
      | .complex leftReal leftImag, .complex rightReal rightImag =>
        floatKeyEqual leftReal rightReal && floatKeyEqual leftImag rightImag
      | .tuple left, .tuple right => left.length == right.length && keyEqualItems hasher left right
      | .frozenSet left, .frozenSet right => left.length == right.length &&
          matchAll hasher left right (List.replicate right.length false)
      | _, _ => false) = true) : valueKeyEqual hasher left right = true := by
  rw [valueKeyEqual, Bool.or_eq_true]
  refine .inr ?_
  split
  case h_1 hsome =>
    rw [hleft] at hsome
    cases hsome
  case h_2 =>
    split
    case h_1 hsome =>
      rw [hright] at hsome
      cases hsome
    case h_2 => exact h

/-- Every value equals itself as a key. -/
lemma valueKeyEqual_refl (value : KeyValue) : valueKeyEqual hasher value value = true := by
  induction hsize : sizeOf value using Nat.strong_induction_on generalizing value with
  | _ size ih =>
    subst hsize
    cases value with
    | none => exact valueKeyEqual_of_valueEq (by rw [valueEq])
    | number value => exact valueKeyEqual_of_kinds rfl rfl (numberKeyEqual_refl value)
    | complex real imag =>
      refine valueKeyEqual_of_kinds rfl rfl ?_
      simp only [floatKeyEqual_refl, Bool.and_self]
    | str text => exact valueKeyEqual_of_valueEq (by rw [valueEq]; exact beq_self_eq_true text)
    | bytes values =>
      exact valueKeyEqual_of_valueEq (by rw [valueEq]; exact beq_self_eq_true values)
    | byteArray values =>
      exact valueKeyEqual_of_valueEq (by rw [valueEq]; exact beq_self_eq_true values)
    | tuple values =>
      refine valueKeyEqual_of_kinds rfl rfl ?_
      have hitems : ∀ value ∈ values, valueKeyEqual hasher value value = true :=
        fun value hvalue => ih _ (by
          have := List.sizeOf_lt_of_mem hvalue
          simp only [KeyValue.tuple.sizeOf_spec]
          omega) value rfl
      simp only [beq_self_eq_true, Bool.true_and, keyEqualItems_refl hitems]
    | frozenSet values =>
      refine valueKeyEqual_of_kinds rfl rfl ?_
      have hitems : ∀ value ∈ values, valueKeyEqual hasher value value = true :=
        fun value hvalue => ih _ (by
          have := List.sizeOf_lt_of_mem hvalue
          simp only [KeyValue.frozenSet.sizeOf_spec]
          omega) value rfl
      have hmatch := matchAll_refl hitems []
      simp only [List.nil_append, List.length_nil, List.replicate_zero] at hmatch
      simp only [beq_self_eq_true, Bool.true_and, hmatch]
    | instanceObject id attrs =>
      refine valueKeyEqual_of_valueEq ?_
      rw [valueEq]
      split
      · rename_i hleft hright
        rw [hleft] at hright
        obtain rfl := Option.some.inj hright
        exact beq_self_eq_true _
      · exact beq_self_eq_true id

lemma keyValueOps_sound (hasher : List UInt8 → UInt64) :
    SetOperators.Sound (keyValueOps hasher) :=
  ⟨valueKeyEqual_refl, fun _ _ h => valueKeyEqual_of_valueEq h⟩

/-- Between two sets of keys, the operators agree with membership, in both orders, when each set is
coherent with the other and equal elements are hashed alike; and where they agree, each set is
coherent with the other. -/
theorem keyValues_agree_iff_coherent (hasher : List UInt8 → UInt64)
    {left right : SetOperand KeyValue} (hleft : SetOperators.Operand (keyValueOps hasher) left)
    (hright : SetOperators.Operand (keyValueOps hasher) right) :
    ((SetOperators.Coherent (keyValueOps hasher) left right ∧
          SetOperators.Coherent (keyValueOps hasher) right left) ∧
        SetOperators.SameHash (keyValueOps hasher) left right ∧
          SetOperators.SameHash (keyValueOps hasher) right left →
      SetOperators.Agrees (keyValueOps hasher) left right ∧
        SetOperators.Agrees (keyValueOps hasher) right left) ∧
    (SetOperators.Agrees (keyValueOps hasher) left right ∧
        SetOperators.Agrees (keyValueOps hasher) right left →
      SetOperators.Coherent (keyValueOps hasher) left right ∧
        SetOperators.Coherent (keyValueOps hasher) right left) := by
  have hsound := keyValueOps_sound hasher
  exact ⟨fun ⟨⟨h, h'⟩, hhash, hhash'⟩ =>
      ⟨SetOperators.agrees_of_coherent hsound hleft hright hhash h h',
        SetOperators.agrees_of_coherent hsound hright hleft hhash' h' h⟩,
    fun ⟨h, h'⟩ => ⟨SetOperators.coherent_of_agrees hsound hleft h,
      SetOperators.coherent_of_agrees hsound hright h'⟩⟩

end

/-- No instance stands for `None`. -/
lemma backing_ne_none {value other : KeyValue} (h : value.backing = some other) :
    other ≠ .none := by
  rintro rfl
  cases value with
  | instanceObject id attrs =>
    change KeyValue.instanceHashableBackingValue attrs = some .none at h
    rw [KeyValue.instanceHashableBackingValue] at h
    have hfilter : ∀ {name : String} {kind : KeyValue → Bool}, kind .none = false →
        (attrs.lookup name).filter kind ≠ some .none := fun hkind hsome => by
      have hfound := (Option.filter_eq_some_iff.1 hsome).2
      rw [hkind] at hfound
      cases hfound
    split at h
    · rename_i hfound
      exact hfilter rfl (hfound.trans h)
    split at h
    · split at h
      · rename_i hkind
        obtain rfl := Option.some.inj h
        cases hkind
      · cases h
    split at h
    · rename_i hfound
      exact hfilter rfl (hfound.trans h)
    split at h
    · rename_i hfound
      exact hfilter rfl (hfound.trans h)
    split at h
    · split at h
      · rename_i hkind
        obtain rfl := Option.some.inj h
        cases hkind
      · cases h
    split at h
    · split at h
      · rename_i hkind
        obtain rfl := Option.some.inj h
        cases hkind
      · cases h
    · cases h
  | _ => cases h

/-- `None` equals itself only. -/
lemma eq_none_of_valueKeyEqual {hasher : List UInt8 → UInt64} {value : KeyValue}
    (h : valueKeyEqual hasher .none value = true) : value = .none := by
  induction hsize : sizeOf value using Nat.strong_induction_on generalizing value with
  | _ size ih =>
    subst hsize
    cases keyEqual_of_valueKeyEqual h with
    | equal _ _ h =>
      cases value with
      | none => rfl
      | _ => simp [valueEq] at h
    | left _ _ _ ha => cases ha
    | right _ _ other hb h =>
      exact absurd (ih _ (KeyValue.sizeOf_backing hb) h rfl) (backing_ne_none hb)

/-- A set of some keys of which none equals another. -/
lemma operand_of_distinct {hasher : List UInt8 → UInt64} {values : List KeyValue}
    (hdistinct : values.Pairwise fun a b => valueKeyEqual hasher a b = false)
    (hkeys : ∀ value ∈ values, value.isHashable = true) :
    ∃ set, SetObject.new (keyValueOps hasher).toKeys values = some set ∧ set.values = values ∧
      ∀ operand, SetOperand.object operand = set →
        SetOperators.Operand (keyValueOps hasher) operand := by
  obtain ⟨set, hset, hvalid, hvalues⟩ := @SetObject.new_eq _ (keyValueOps hasher).toKeys _ hdistinct
  refine ⟨set, hset, hvalues, fun operand hoperand => ⟨hoperand ▸ hvalid, fun value hvalue => ?_⟩⟩
  rw [SetOperand.asSetValues, hoperand, hvalues] at hvalue
  exact hkeys value hvalue

/-- The keys of the set `{1, 'a'}`, and with `None` those of a frozenset. -/
def smallKeys : List KeyValue := [.number (.int 1), .str "a"]

lemma smallKeys_eq {a b : KeyValue} (ha : a ∈ .none :: smallKeys) (hb : b ∈ .none :: smallKeys) :
    valueKeyEqual tagHasher a b = true ↔ a = b := by
  refine ⟨fun h => ?_, fun h => h ▸ valueKeyEqual_refl a⟩
  simp only [smallKeys, List.mem_cons, List.not_mem_nil, or_false] at ha hb
  rcases ha with rfl | rfl | rfl <;> rcases hb with rfl | rfl | rfl
  · rfl
  · simp [valueKeyEqual, valueEq, KeyValue.backing] at h
  · simp [valueKeyEqual, valueEq, KeyValue.backing] at h
  · simp [valueKeyEqual, valueEq, KeyValue.backing] at h
  · rfl
  · simp [valueKeyEqual, valueEq, KeyValue.backing] at h
  · simp [valueKeyEqual, valueEq, KeyValue.backing] at h
  · simp [valueKeyEqual, valueEq, KeyValue.backing] at h
  · rfl

/-- `{1, 'a'}` and `frozenset({None, 1, 'a'})`. -/
theorem smallSets_agree :
    ∃ set frozen, SetObject.new (keyValueOps tagHasher).toKeys smallKeys = some set ∧
      SetObject.new (keyValueOps tagHasher).toKeys (.none :: smallKeys) = some frozen ∧
        SetOperators.Agrees (keyValueOps tagHasher) (.set set) (.frozenSet frozen) ∧
          SetOperators.Agrees (keyValueOps tagHasher) (.frozenSet frozen) (.set set) := by
  have hsub : ∀ a ∈ smallKeys, a ∈ .none :: smallKeys := fun a ha => List.mem_cons_of_mem _ ha
  have hdistinct : (KeyValue.none :: smallKeys).Pairwise
      fun a b => valueKeyEqual tagHasher a b = false := by
    have hne : (KeyValue.none :: smallKeys).Pairwise (· ≠ ·) := by simp [smallKeys]
    refine hne.imp_of_mem fun ha hb hab => ?_
    rw [← Bool.not_eq_true, smallKeys_eq ha hb]
    exact hab
  have hhashable : ∀ value ∈ KeyValue.none :: smallKeys, value.isHashable = true := by
    simp [smallKeys, KeyValue.isHashable]
  obtain ⟨set, hset, hvalues, hoperand⟩ := operand_of_distinct (hdistinct.sublist
    (List.sublist_cons_self _ _)) fun value hvalue => hhashable value (hsub value hvalue)
  obtain ⟨frozen, hfrozen, hvalues', hoperand'⟩ := operand_of_distinct hdistinct hhashable
  have hleft := hoperand (.set set) rfl
  have hright := hoperand' (.frozenSet frozen) rfl
  have hmem : (SetOperand.set set).asSetValues = smallKeys := hvalues
  have hmem' : (SetOperand.frozenSet frozen).asSetValues = .none :: smallKeys := hvalues'
  have hfinds : ∀ a ∈ KeyValue.none :: smallKeys, ∀ b ∈ KeyValue.none :: smallKeys,
      valueEq tagHasher b a = true ↔ b = a := fun a ha b hb =>
    ⟨fun h => (smallKeys_eq hb ha).1 (valueKeyEqual_of_valueEq h), fun h => by
      subst h
      simp only [smallKeys, List.mem_cons, List.not_mem_nil, or_false] at hb
      rcases hb with rfl | rfl | rfl <;> simp [valueEq, Number.eq]⟩
  have hin : ∀ a ∈ smallKeys, SetOperators.Has (keyValueOps tagHasher) (.set set) a :=
    fun a ha => (SetOperators.has_iff hleft.valid a).2
      ⟨a, hmem ▸ ha, .refl (valueKeyEqual_refl a)⟩
  have hin' : ∀ a ∈ KeyValue.none :: smallKeys,
      SetOperators.Has (keyValueOps tagHasher) (.frozenSet frozen) a :=
    fun a ha => (SetOperators.has_iff hright.valid a).2
      ⟨a, hmem' ▸ ha, .refl (valueKeyEqual_refl a)⟩
  have hout : ¬SetOperators.Has (keyValueOps tagHasher) (.set set) .none := fun hhas => by
    obtain ⟨item, hitem, hequal, -⟩ := (SetOperators.has_iff hleft.valid _).1 hhas
    rw [hmem] at hitem
    obtain rfl := (smallKeys_eq (hsub item hitem) List.mem_cons_self).1 hequal
    simp [smallKeys] at hitem
  have hcoherent : SetOperators.Coherent (keyValueOps tagHasher)
      (.set set) (.frozenSet frozen) := by
    refine ⟨fun a ha => ?_, fun a ha value hvalue => ?_, fun _ => ?_⟩
    · rw [hmem] at ha
      refine iff_of_true (List.any_eq_true.2 ⟨a, ?_, (hfinds a (hsub a ha) a (hsub a ha)).2 rfl⟩)
        (hin' a (hsub a ha))
      rw [hmem']
      exact hsub a ha
    · rw [hmem] at ha
      refine iff_of_true (hin' a (hsub a ha)) ((SetOperators.has_iff hright.valid value).2
        ⟨a, ?_, hvalue⟩)
      rw [hmem']
      exact hsub a ha
    · rw [hmem, hmem']
      exact iff_of_false (by decide) fun hall => hout (hall _ List.mem_cons_self)
  have hcoherent' : SetOperators.Coherent (keyValueOps tagHasher) (.frozenSet frozen)
      (.set set) := by
    refine ⟨fun a ha => ?_, fun a ha value hvalue => ?_, fun hall => ?_⟩
    · rw [hmem'] at ha
      rcases List.mem_cons.1 ha with rfl | ha'
      · refine iff_of_false (fun h => ?_) hout
        obtain ⟨item, hitem, hequal⟩ := List.any_eq_true.1 h
        rw [hmem] at hitem
        obtain rfl := (hfinds _ ha item (hsub item hitem)).1 hequal
        simp [smallKeys] at hitem
      · refine iff_of_true (List.any_eq_true.2 ⟨a, ?_, (hfinds a ha a ha).2 rfl⟩) (hin a ha')
        rw [hmem]
        exact ha'
    · rw [hmem'] at ha
      rcases List.mem_cons.1 ha with rfl | ha'
      · rw [eq_none_of_valueKeyEqual hvalue.1]
      · refine iff_of_true (hin a ha') ((SetOperators.has_iff hleft.valid value).2
          ⟨a, ?_, hvalue⟩)
        rw [hmem]
        exact ha'
    · rw [hmem'] at hall
      exact absurd (hall _ List.mem_cons_self) hout
  have hhash : ∀ a ∈ KeyValue.none :: smallKeys, ∀ b ∈ KeyValue.none :: smallKeys,
      valueKeyEqual tagHasher a b = true → valueHashKey tagHasher a = valueHashKey tagHasher b :=
    fun a ha b hb h => by rw [(smallKeys_eq ha hb).1 h]
  refine ⟨set, frozen, hset, hfrozen, (keyValues_agree_iff_coherent tagHasher hleft hright).1
    ⟨⟨hcoherent, hcoherent'⟩, fun a ha b hb => ?_, fun a ha b hb => ?_⟩⟩
  · rw [hmem] at ha
    rw [hmem'] at hb
    exact hhash a (hsub a ha) b hb
  · rw [hmem'] at ha
    rw [hmem] at hb
    exact hhash a ha b (hsub b hb)

def nanKey : KeyValue := .number (.float ⟨0x7FF8000000000000⟩)

/-- A NaN is in its set, and not in the intersection of the set with itself. -/
theorem nan_not_agrees :
    ¬ ∀ set, SetObject.new (keyValueOps tagHasher).toKeys [nanKey] = some set →
      SetOperators.Agrees (keyValueOps tagHasher) (.set set) (.set set) := by
  intro h
  obtain ⟨set, hset, hvalues, hoperand⟩ := @operand_of_distinct tagHasher [nanKey]
    (List.pairwise_singleton _ _) (by simp [nanKey, KeyValue.isHashable])
  have hoperand := hoperand (.set set) rfl
  have hmem : nanKey ∈ (SetOperand.set set).asSetValues := by
    rw [SetOperand.asSetValues, SetOperand.object, hvalues]
    exact List.mem_singleton_self _
  have hcoherent := SetOperators.coherent_of_agrees (keyValueOps_sound tagHasher) hoperand
    (h set hset)
  have hscan := (hcoherent.scan nanKey hmem).2 ((SetOperators.has_iff hoperand.valid nanKey).2
    ⟨nanKey, hmem, .refl (valueKeyEqual_refl nanKey)⟩)
  have hne : valueEq tagHasher nanKey nanKey = false := by
    rw [nanKey, valueEq]
    decide
  rw [SetOperators.vecContains, SetOperand.asSetValues, SetOperand.object, hvalues] at hscan
  simp [keyValueOps, hne] at hscan

end Pyrs
