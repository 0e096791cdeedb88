import Pyrs.Model.SetOperators
import Pyrs.Properties.SetRefinement

/-!
# Membership and the set operators

Membership asks the index of a set and the equality of keys.  The operators search vectors with the
equality of values.  They agree with membership exactly when the two searches agree on the elements
of the operands, and when the elements that are equal to one value are in the other operand
together with it.
-/

namespace Pyrs

namespace SetObject

variable {α : Type} {keys : Keys α}

/-- The insertions of `new`, from any set on. -/
def insertAll (keys : Keys α) (self : SetObject α) (values : List α) : Option (SetObject α) :=
  values.foldlM (fun self value => do
    let (self, _) ← self.insert keys value
    some self) self

lemma new_eq_insertAll (values : List α) :
    SetObject.new keys values = insertAll keys empty values := rfl

/-- Values that differ from each other, and that are hashed like the elements they equal: those
that equal no element are appended. -/
lemma insertAll_eq {self : SetObject α} (h : Valid keys self) {values : List α}
    (hdistinct : values.Pairwise fun a b => keys.valueKeyEqual a b = false)
    (hhash : ∀ item ∈ self.values, ∀ value ∈ values, keys.valueKeyEqual item value = true →
      keys.valueLookupHash item = keys.valueLookupHash value) :
    ∃ after, insertAll keys self values = some after ∧ Valid keys after ∧
      after.values = self.values ++
        values.filter fun value => !self.values.any fun item => keys.valueKeyEqual item value := by
  induction values generalizing self with
  | nil => exact ⟨self, rfl, h, (List.append_nil _).symm⟩
  | cons value values ih =>
    obtain ⟨hvalue, hrest⟩ := List.pairwise_cons.1 hdistinct
    obtain ⟨next, changed, hinsert, hnext, hchanged, hvalues⟩ :=
      insert_spec h value fun item hitem => hhash item hitem value List.mem_cons_self
    have hall : insertAll keys self (value :: values) = insertAll keys next values := by
      simp only [insertAll, List.foldlM_cons, hinsert, Option.bind_eq_bind, Option.bind_some]
    have hkeep : ∀ other ∈ values,
        (next.values.any fun item => keys.valueKeyEqual item other) =
          self.values.any fun item => keys.valueKeyEqual item other := by
      intro other hother
      rw [hvalues]
      cases changed
      · rfl
      · simp [hvalue other hother]
    obtain ⟨after, hafter, hvalid, hresult⟩ := ih hnext hrest (by
      intro item hitem other hother hequal
      rw [hvalues] at hitem
      cases changed with
      | false => exact hhash item hitem other (List.mem_cons_of_mem _ hother) hequal
      | true =>
        obtain hitem | hitem := List.mem_append.1 hitem
        · exact hhash item hitem other (List.mem_cons_of_mem _ hother) hequal
        · obtain rfl := List.mem_singleton.1 hitem
          rw [hvalue other hother] at hequal
          cases hequal)
    refine ⟨after, hall.trans hafter, hvalid, ?_⟩
    rw [hresult, List.filter_congr fun other hother => by rw [hkeep other hother],
      List.filter_cons, hvalues]
    have hany : (self.values.any fun item => keys.valueKeyEqual item value) = !changed := by
      rw [Bool.eq_iff_iff, Bool.not_eq_true', ← Bool.not_eq_true, hchanged, List.any_eq_true]
      push Not
      simp
    rw [hany]
    cases changed <;> simp

/-- A list of different values is the set of them. -/
lemma new_eq {values : List α}
    (hdistinct : values.Pairwise fun a b => keys.valueKeyEqual a b = false) :
    ∃ set, SetObject.new keys values = some set ∧ Valid keys set ∧ set.values = values := by
  obtain ⟨set, hset, hvalid, hvalues⟩ := insertAll_eq valid_empty hdistinct
    fun item hitem => absurd hitem List.not_mem_nil
  refine ⟨set, hset, hvalid, hvalues.trans ?_⟩
  simp [empty]

/-- Two lists of different values are the set of the first and of what equals none of them. -/
lemma new_append_eq {left right : List α}
    (hleft : left.Pairwise fun a b => keys.valueKeyEqual a b = false)
    (hright : right.Pairwise fun a b => keys.valueKeyEqual a b = false)
    (hhash : ∀ a ∈ left, ∀ b ∈ right, keys.valueKeyEqual a b = true →
      keys.valueLookupHash a = keys.valueLookupHash b) :
    ∃ set, SetObject.new keys (left ++ right) = some set ∧ Valid keys set ∧
      set.values = left ++
        right.filter fun value => !left.any fun item => keys.valueKeyEqual item value := by
  obtain ⟨first, hfirst, hvalid, rfl⟩ := new_eq hleft
  obtain ⟨set, hset, hsetValid, hvalues⟩ := insertAll_eq hvalid hright hhash
  refine ⟨set, ?_, hsetValid, hvalues⟩
  rw [new_eq_insertAll, insertAll, List.foldlM_append]
  rw [new_eq_insertAll, insertAll] at hfirst
  rw [hfirst]
  exact hset

end SetObject

namespace SetOperators

open SetObject (Finds Valid)

variable {α : Type} {ops : SetValues α} {left right : SetOperand α}

/-! ## Operands -/

/-- Equality of values is an equality of keys. -/
structure Sound (ops : SetValues α) : Prop where
  refl : ∀ a, ops.valueKeyEqual a a = true
  key_of_eq : ∀ a b, ops.valueEq a b = true → ops.valueKeyEqual a b = true

/-- A set object whose elements may be elements. -/
structure Operand (ops : SetValues α) (operand : SetOperand α) : Prop where
  valid : Valid ops.toKeys operand.object
  hashable : ∀ value ∈ operand.asSetValues, ops.isHashable value = true

/-- `SetObject::contains`. -/
def Has (ops : SetValues α) (operand : SetOperand α) (value : α) : Prop :=
  operand.object.contains ops.toKeys value = some true

lemma has_iff (h : Valid ops.toKeys left.object) (value : α) :
    Has ops left value ↔ ∃ item ∈ left.asSetValues, Finds ops.toKeys item value := by
  obtain ⟨found, hcontains, hfound⟩ := SetObject.contains_eq h value
  rw [Has, hcontains, Option.some.injEq]
  exact hfound

/-- Elements that equal an element of the other set are hashed like it. -/
def SameHash (ops : SetValues α) (left right : SetOperand α) : Prop :=
  ∀ a ∈ left.asSetValues, ∀ b ∈ right.asSetValues, ops.valueKeyEqual a b = true →
    ops.valueLookupHash a = ops.valueLookupHash b

/-! ## The results -/

lemma foldlM_insert_eq {values : List α} {self set : SetObject α}
    (hhashable : ∀ value ∈ values, ops.isHashable value = true)
    (h : SetObject.insertAll ops.toKeys self values = some set) :
    values.foldlM (fun deduped value => do
      if ops.isHashable value then
        let (deduped, _) ← orPanic (SetObject.insert ops.toKeys deduped value)
        return deduped
      else throw (SetFault.unhashable value)) self = .ok set := by
  induction values generalizing self with
  | nil =>
    obtain rfl := Option.some.inj h
    rfl
  | cons value values ih =>
    rw [SetObject.insertAll, List.foldlM_cons] at h
    obtain ⟨next, hnext, hrest⟩ := Option.bind_eq_some_iff.1 h
    obtain ⟨⟨inserted, changed⟩, hinsert, heq⟩ := Option.bind_eq_some_iff.1 hnext
    obtain rfl := Option.some.inj heq
    rw [List.foldlM_cons, if_pos (hhashable value List.mem_cons_self), hinsert]
    exact ih (fun other hother => hhashable other (List.mem_cons_of_mem _ hother)) hrest

lemma dedupHashableValues_eq {values : List α} {set : SetObject α}
    (hhashable : ∀ value ∈ values, ops.isHashable value = true)
    (h : SetObject.new ops.toKeys values = some set) :
    dedupHashableValues ops values = .ok set.values := by
  rw [dedupHashableValues, foldlM_insert_eq hhashable h]
  rfl

lemma asSetValues_alloc (kind : SetOperand α) (object : SetObject α) :
    (kind.alloc object).object = object := by
  cases kind <;> rfl

lemma allocLike_eq {values : List α} {set : SetObject α}
    (h : SetObject.new ops.toKeys values = some set) :
    allocLike ops left values = .ok (left.alloc set) := by
  rw [allocLike, h]
  rfl

/-- The second set object is made of the values of the first. -/
lemma setOpResult_eq (left : SetOperand α) {values : List α} {set : SetObject α}
    (hhashable : ∀ value ∈ values, ops.isHashable value = true)
    (h : SetObject.new ops.toKeys values = some set) (hvalid : Valid ops.toKeys set) :
    ∃ result, setOpResult ops left values = .ok result ∧ Valid ops.toKeys result.object ∧
      result.asSetValues = set.values := by
  obtain ⟨again, hagain, hagainValid, hvalues⟩ := SetObject.new_eq hvalid.distinct
  refine ⟨left.alloc again, ?_, ?_, ?_⟩
  · rw [setOpResult, dedupHashableValues_eq hhashable h]
    exact allocLike_eq hagain
  · rwa [asSetValues_alloc]
  · rw [SetOperand.asSetValues, asSetValues_alloc, hvalues]

section Results

variable (hleft : Operand ops left) (hright : Operand ops right)

include hleft

/-- The elements of the left operand that a test keeps. -/
lemma setOpResult_filter (keep : α → Bool) :
    ∃ result, setOpResult ops left (left.asSetValues.filter keep) = .ok result ∧
      Valid ops.toKeys result.object ∧ result.asSetValues = left.asSetValues.filter keep := by
  obtain ⟨set, hset, hvalid, hvalues⟩ :=
    SetObject.new_eq (hleft.valid.distinct.sublist (List.filter_sublist (p := keep)))
  obtain ⟨result, hresult, hresultValid, hresultValues⟩ := setOpResult_eq left
    (fun value hvalue => hleft.hashable value (List.mem_of_mem_filter hvalue)) hset hvalid
  exact ⟨result, hresult, hresultValid, hresultValues.trans hvalues⟩

include hright

/-- The elements of the left operand that a test keeps, and those of the right operand that another
test keeps and that equal none of them. -/
lemma new_filter_append (keepLeft keepRight : α → Bool) (hhash : SameHash ops left right) :
    ∃ set, SetObject.new ops.toKeys
        (left.asSetValues.filter keepLeft ++ right.asSetValues.filter keepRight) = some set ∧
      Valid ops.toKeys set ∧ set.values = left.asSetValues.filter keepLeft ++
        (right.asSetValues.filter keepRight).filter fun value =>
          !(left.asSetValues.filter keepLeft).any fun item => ops.valueKeyEqual item value :=
  SetObject.new_append_eq (hleft.valid.distinct.sublist List.filter_sublist)
    (hright.valid.distinct.sublist List.filter_sublist)
    fun a ha b hb => hhash a (List.mem_of_mem_filter ha) b (List.mem_of_mem_filter hb)

lemma setOpResult_filter_append (keepLeft keepRight : α → Bool)
    (hhash : SameHash ops left right) :
    ∃ result, setOpResult ops left
        (left.asSetValues.filter keepLeft ++ right.asSetValues.filter keepRight) = .ok result ∧
      Valid ops.toKeys result.object ∧ result.asSetValues = left.asSetValues.filter keepLeft ++
        (right.asSetValues.filter keepRight).filter fun value =>
          !(left.asSetValues.filter keepLeft).any fun item => ops.valueKeyEqual item value := by
  obtain ⟨set, hset, hvalid, hvalues⟩ :=
    new_filter_append hleft hright keepLeft keepRight hhash
  obtain ⟨result, hresult, hresultValid, hresultValues⟩ := setOpResult_eq left (by
    intro value hvalue
    obtain hvalue | hvalue := List.mem_append.1 hvalue
    · exact hleft.hashable value (List.mem_of_mem_filter hvalue)
    · exact hright.hashable value (List.mem_of_mem_filter hvalue)) hset hvalid
  exact ⟨result, hresult, hresultValid, hresultValues.trans hvalues⟩

end Results

lemma vecContains_append (values others : List α) (value : α) :
    vecContains ops (values ++ others) value =
      (vecContains ops values value || vecContains ops others value) := List.any_append

/-- Values that differ from each other are merged one by one. -/
lemma mergeValues_eq (hsound : Sound ops) {values : List α}
    (hdistinct : values.Pairwise fun a b => ops.valueKeyEqual a b = false) (merged : List α) :
    mergeValues ops merged values =
      merged ++ values.filter fun value => !vecContains ops merged value := by
  induction values generalizing merged with
  | nil => exact (List.append_nil _).symm
  | cons value values ih =>
    obtain ⟨hvalue, hrest⟩ := List.pairwise_cons.1 hdistinct
    rw [mergeValues, List.filter_cons]
    split
    case isTrue hfound =>
      rw [ih hrest, hfound]
      rfl
    case isFalse hfound =>
      have hkeep : ∀ other ∈ values,
          (!vecContains ops (merged ++ [value]) other) = !vecContains ops merged other := by
        intro other hother
        have hne : ops.valueEq value other = false := by
          rw [← Bool.not_eq_true]
          intro heq
          have hkey := hsound.key_of_eq value other heq
          rw [hvalue other hother] at hkey
          cases hkey
        rw [vecContains_append]
        simp [vecContains, hne]
      rw [ih hrest, List.filter_congr hkeep, Bool.eq_false_iff.2 hfound]
      simp

/-! ## The laws -/

/-- The operators agree with membership. -/
structure Agrees (ops : SetValues α) (left right : SetOperand α) : Prop where
  or : ∃ result, orValues ops left right = .ok result ∧
    ∀ value, Has ops result value ↔ Has ops left value ∨ Has ops right value
  and : ∃ result, andValues ops left right = .ok result ∧
    ∀ value, Has ops result value ↔ Has ops left value ∧ Has ops right value
  sub : ∃ result, subValues ops left right = .ok result ∧
    ∀ value, Has ops result value ↔ Has ops left value ∧ ¬ Has ops right value
  xor : ∃ result, xorValues ops left right = .ok result ∧
    ∀ value, Has ops result value ↔ Xor (Has ops left value) (Has ops right value)
  le : compareLe ops left right = true ↔ ∀ a ∈ left.asSetValues, Has ops right a
  lt : compareLt ops left right = true ↔
    (∀ a ∈ left.asSetValues, Has ops right a) ∧ ∃ b ∈ right.asSetValues, ¬ Has ops left b
  ge : compareGe ops left right = true ↔ ∀ b ∈ right.asSetValues, Has ops left b
  gt : compareGt ops left right = true ↔
    (∀ b ∈ right.asSetValues, Has ops left b) ∧ ∃ a ∈ left.asSetValues, ¬ Has ops right a
  eq : ∃ answer, valuesEq ops left right = some answer ∧ (answer = true ↔
    (∀ a ∈ left.asSetValues, Has ops right a) ∧ ∀ b ∈ right.asSetValues, Has ops left b)

/-- The elements of the left operand are in the right one when the equality of values finds them
there, and when the values that they equal as keys are there; and the sizes of the operands tell
whether the left one is all of the right one. -/
structure Coherent (ops : SetValues α) (left right : SetOperand α) : Prop where
  scan : ∀ a ∈ left.asSetValues,
    vecContains ops right.asSetValues a = true ↔ Has ops right a
  keys : ∀ a ∈ left.asSetValues, ∀ value, Finds ops.toKeys a value →
    (Has ops right a ↔ Has ops right value)
  length : (∀ a ∈ left.asSetValues, Has ops right a) →
    (left.asSetValues.length = right.asSetValues.length ↔
      ∀ b ∈ right.asSetValues, Has ops left b)

lemma compareLe_iff (hscan : ∀ a ∈ left.asSetValues,
      vecContains ops right.asSetValues a = true ↔ Has ops right a) :
    setIsSubset ops left.asSetValues right.asSetValues = true ↔
      ∀ a ∈ left.asSetValues, Has ops right a := by
  rw [setIsSubset, List.all_eq_true]
  exact forall₂_congr hscan

lemma andValues_has (hleft : Operand ops left) (right : SetOperand α) :
    ∃ result, andValues ops left right = .ok result ∧
    ∀ value, Has ops result value ↔ ∃ a ∈ left.asSetValues,
      vecContains ops right.asSetValues a = true ∧ Finds ops.toKeys a value := by
  obtain ⟨result, hresult, hvalid, hvalues⟩ :=
    setOpResult_filter hleft fun value => vecContains ops right.asSetValues value
  refine ⟨result, hresult, fun value => ?_⟩
  rw [has_iff hvalid, hvalues]
  simp only [List.mem_filter, and_assoc]

lemma subValues_has (hleft : Operand ops left) (right : SetOperand α) :
    ∃ result, subValues ops left right = .ok result ∧
    ∀ value, Has ops result value ↔ ∃ a ∈ left.asSetValues,
      ¬ vecContains ops right.asSetValues a = true ∧ Finds ops.toKeys a value := by
  obtain ⟨result, hresult, hvalid, hvalues⟩ :=
    setOpResult_filter hleft fun value => !vecContains ops right.asSetValues value
  refine ⟨result, hresult, fun value => ?_⟩
  rw [has_iff hvalid, hvalues]
  simp only [List.mem_filter, and_assoc, Bool.not_eq_true', Bool.not_eq_true]

/-- Where the operators agree with membership, the operands are coherent. -/
lemma coherent_of_agrees (hsound : Sound ops) (hleft : Operand ops left)
    (h : Agrees ops left right) : Coherent ops left right := by
  obtain ⟨both, hand, hboth⟩ := andValues_has hleft right
  obtain ⟨rest, hsub, hrest⟩ := subValues_has hleft right
  obtain ⟨both', hand', hbothLaw⟩ := h.and
  obtain ⟨rest', hsub', hrestLaw⟩ := h.sub
  obtain rfl := Except.ok.inj (hand.symm.trans hand')
  obtain rfl := Except.ok.inj (hsub.symm.trans hsub')
  -- At a value that an element of the left operand equals, the two searches agree on the element.
  have hscan : ∀ a ∈ left.asSetValues, ∀ value, Finds ops.toKeys a value →
      (vecContains ops right.asSetValues a = true ↔ Has ops right value) := by
    intro a ha value hvalue
    constructor
    · intro hfound
      exact ((hbothLaw value).1 ((hboth value).2 ⟨a, ha, hfound, hvalue⟩)).2
    · intro hright
      by_contra hfound
      exact ((hrestLaw value).1 ((hrest value).2 ⟨a, ha, hfound, hvalue⟩)).2 hright
  have hself := fun a ha => hscan a ha a (Finds.refl (hsound.refl a))
  refine ⟨hself, fun a ha value hvalue => (hself a ha).symm.trans (hscan a ha value hvalue),
    fun hall => ?_⟩
  have hlt := h.lt
  have hsubset := (compareLe_iff hself).2 hall
  rw [compareLt, hsubset, and_iff_right hall] at hlt
  simp only [Bool.and_true, Bool.true_and, Bool.not_eq_true', beq_eq_false_iff_ne] at hlt
  rw [← not_iff_not, ← ne_eq, hlt]
  push Not
  rfl

/-- The elements that the right operand adds to the left one. -/
lemma appended_has (hleft : Operand ops left) (hright : Operand ops right)
    (hhash : SameHash ops left right) (hcoherent : Coherent ops right left)
    {keep : α → Bool} {result : SetOperand α} (hvalid : Valid ops.toKeys result.object)
    (hvalues : result.asSetValues = left.asSetValues.filter keep ++
      (right.asSetValues.filter fun b => !vecContains ops left.asSetValues b).filter fun b =>
        !(left.asSetValues.filter keep).any fun a => ops.valueKeyEqual a b) (value : α) :
    Has ops result value ↔
      (∃ a ∈ left.asSetValues, keep a = true ∧ Finds ops.toKeys a value) ∨
        (Has ops right value ∧ ¬ Has ops left value) := by
  rw [has_iff hvalid, hvalues]
  constructor
  · rintro ⟨item, hitem, hfinds⟩
    obtain hitem | hitem := List.mem_append.1 hitem
    · obtain ⟨hmem, hkeep⟩ := List.mem_filter.1 hitem
      exact .inl ⟨item, hmem, hkeep, hfinds⟩
    · obtain ⟨hitem, -⟩ := List.mem_filter.1 hitem
      obtain ⟨hmem, hscan⟩ := List.mem_filter.1 hitem
      refine .inr ⟨(has_iff hright.valid value).2 ⟨item, hmem, hfinds⟩, fun hin => ?_⟩
      have hfound := (hcoherent.scan item hmem).2 ((hcoherent.keys item hmem value hfinds).2 hin)
      rw [hfound] at hscan
      cases hscan
  · rintro (⟨item, hmem, hkeep, hfinds⟩ | ⟨hin, hout⟩)
    · exact ⟨item, List.mem_append_left _ (List.mem_filter.2 ⟨hmem, hkeep⟩), hfinds⟩
    · obtain ⟨item, hmem, hfinds⟩ := (has_iff hright.valid value).1 hin
      have hnot : ¬ Has ops left item := fun h => hout ((hcoherent.keys item hmem value hfinds).1 h)
      refine ⟨item, List.mem_append_right _ (List.mem_filter.2 ⟨List.mem_filter.2 ⟨hmem, ?_⟩, ?_⟩),
        hfinds⟩
      · rw [Bool.not_eq_true', ← Bool.not_eq_true]
        exact fun h => hnot ((hcoherent.scan item hmem).1 h)
      · rw [Bool.not_eq_true', ← Bool.not_eq_true, List.any_eq_true]
        rintro ⟨a, ha, hequal⟩
        have hmemLeft := List.mem_of_mem_filter ha
        exact hnot ((has_iff hleft.valid item).2 ⟨a, hmemLeft, hequal, fun hash hitem =>
          (hhash a hmemLeft item hmem hequal).trans hitem⟩)

lemma valuesEq_iff (hright : Operand ops right) (h : Coherent ops left right) :
    ∃ answer, valuesEq ops left right = some answer ∧
    (answer = true ↔ (∀ a ∈ left.asSetValues, Has ops right a) ∧
      ∀ b ∈ right.asSetValues, Has ops left b) := by
  have hall : ∀ values : List α, ∃ answer,
      (values.allM fun value => right.object.contains ops.toKeys value) = some answer ∧
        (answer = true ↔ ∀ a ∈ values, Has ops right a) := by
    intro values
    induction values with
    | nil => exact ⟨true, rfl, by simp⟩
    | cons value values ih =>
      obtain ⟨answer, hanswer, hiff⟩ := ih
      obtain ⟨found, hcontains, -⟩ := SetObject.contains_eq hright.valid value
      refine ⟨found && answer, ?_, ?_⟩
      · rw [List.allM, hcontains, hanswer]
        cases found <;> rfl
      · rw [Bool.and_eq_true, hiff, List.forall_mem_cons, Has, hcontains, Option.some.injEq]
  rw [valuesEq, objectEq]
  split
  case isTrue hlength =>
    exact ⟨false, rfl, ⟨fun hfalse => absurd hfalse Bool.false_ne_true, fun hboth =>
      absurd ((h.length hboth.1).2 hboth.2) hlength⟩⟩
  case isFalse hlength =>
    obtain ⟨answer, hanswer, hiff⟩ := hall left.asSetValues
    refine ⟨answer, hanswer, hiff.trans ⟨fun hsub => ⟨hsub, ?_⟩, And.left⟩⟩
    exact (h.length hsub).1 (not_not.1 hlength)

lemma strict_iff {subset : Bool} {length other : ℕ} {all allOther : Prop}
    (hsubset : subset = true ↔ all) (hlength : all → (length = other ↔ allOther)) :
    (subset && !(length == other && subset)) = true ↔ all ∧ ¬ allOther := by
  cases subset with
  | false => simp [← hsubset]
  | true =>
    have hall := hsubset.1 rfl
    rw [and_iff_right hall, ← hlength hall]
    simp

lemma agrees_of_coherent (hsound : Sound ops) (hleft : Operand ops left)
    (hright : Operand ops right) (hhash : SameHash ops left right)
    (h : Coherent ops left right) (h' : Coherent ops right left) : Agrees ops left right where
  or := by
    obtain ⟨set, hset, hvalid, hvalues⟩ := new_filter_append hleft hright (fun _ => true)
      (fun b => !vecContains ops left.asSetValues b) hhash
    have hmerge := mergeValues_eq hsound hright.valid.distinct left.asSetValues
    rw [List.filter_true] at hset
    refine ⟨left.alloc set, ?_, fun value => ?_⟩
    · rw [orValues]
      refine allocLike_eq ?_
      rw [← hset]
      exact congrArg _ hmerge
    · rw [appended_has hleft hright hhash h' (by rwa [asSetValues_alloc])
        (by rw [SetOperand.asSetValues, asSetValues_alloc, hvalues]) value]
      simp only [true_and, ← has_iff hleft.valid]
      tauto
  and := by
    obtain ⟨result, hresult, hhas⟩ := andValues_has hleft right
    refine ⟨result, hresult, fun value => (hhas value).trans ⟨?_, ?_⟩⟩
    · rintro ⟨a, ha, hscan, hfinds⟩
      exact ⟨(has_iff hleft.valid value).2 ⟨a, ha, hfinds⟩,
        (h.keys a ha value hfinds).1 ((h.scan a ha).1 hscan)⟩
    · rintro ⟨hin, hother⟩
      obtain ⟨a, ha, hfinds⟩ := (has_iff hleft.valid value).1 hin
      exact ⟨a, ha, (h.scan a ha).2 ((h.keys a ha value hfinds).2 hother), hfinds⟩
  sub := by
    obtain ⟨result, hresult, hhas⟩ := subValues_has hleft right
    refine ⟨result, hresult, fun value => (hhas value).trans ⟨?_, ?_⟩⟩
    · rintro ⟨a, ha, hscan, hfinds⟩
      exact ⟨(has_iff hleft.valid value).2 ⟨a, ha, hfinds⟩, fun hother =>
        hscan ((h.scan a ha).2 ((h.keys a ha value hfinds).2 hother))⟩
    · rintro ⟨hin, hother⟩
      obtain ⟨a, ha, hfinds⟩ := (has_iff hleft.valid value).1 hin
      exact ⟨a, ha, fun hscan => hother ((h.keys a ha value hfinds).1 ((h.scan a ha).1 hscan)),
        hfinds⟩
  xor := by
    obtain ⟨result, hresult, hvalid, hvalues⟩ := setOpResult_filter_append hleft hright
      (fun a => !vecContains ops right.asSetValues a)
      (fun b => !vecContains ops left.asSetValues b) hhash
    refine ⟨result, hresult, fun value => ?_⟩
    rw [appended_has hleft hright hhash h' hvalid hvalues value]
    refine or_congr ⟨?_, ?_⟩ Iff.rfl
    · rintro ⟨a, ha, hscan, hfinds⟩
      refine ⟨(has_iff hleft.valid value).2 ⟨a, ha, hfinds⟩, fun hother => ?_⟩
      rw [(h.scan a ha).2 ((h.keys a ha value hfinds).2 hother)] at hscan
      cases hscan
    · rintro ⟨hin, hother⟩
      obtain ⟨a, ha, hfinds⟩ := (has_iff hleft.valid value).1 hin
      refine ⟨a, ha, ?_, hfinds⟩
      rw [Bool.not_eq_true', ← Bool.not_eq_true]
      exact fun hscan => hother ((h.keys a ha value hfinds).1 ((h.scan a ha).1 hscan))
  le := compareLe_iff h.scan
  lt := by
    rw [compareLt, strict_iff (compareLe_iff h.scan) h.length]
    push Not
    rfl
  ge := compareLe_iff h'.scan
  gt := by
    rw [compareGt, strict_iff (compareLe_iff h'.scan) fun hall => eq_comm.trans (h'.length hall)]
    push Not
    rfl
  eq := valuesEq_iff hright h

end SetOperators

end Pyrs
