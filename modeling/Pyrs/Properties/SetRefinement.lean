import Pyrs.Model.Sets

/-!
# Set objects are finite sets

Every run of operations on a `SetObject` refines a run on the set of the keys that are equal to a
stored one.  The invariant that carries this says which positions the buckets hold: in the bucket of
a hash stand, once each, the positions of the values with that hash.
-/

namespace Pyrs

/-- `value_key_equal` is an equivalence that implies equal lookup hashes. -/
structure Keys.Lawful {α : Type} (keys : Keys α) : Prop where
  refl : ∀ a, keys.valueKeyEqual a a = true
  symm : ∀ a b, keys.valueKeyEqual a b = true → keys.valueKeyEqual b a = true
  trans : ∀ a b c, keys.valueKeyEqual a b = true → keys.valueKeyEqual b c = true →
    keys.valueKeyEqual a c = true
  hash_eq : ∀ a b, keys.valueKeyEqual a b = true → keys.valueLookupHash a = keys.valueLookupHash b

/-! ## Buckets -/

namespace IndexBucket

def indices : IndexBucket → List ℕ
  | .one index => [index]
  | .many indices => indices

@[simp] lemma indices_new (index : ℕ) : (new index).indices = [index] := rfl

@[simp] lemma indices_push (index : ℕ) (bucket : IndexBucket) :
    (bucket.push index).indices = bucket.indices ++ [index] := by
  cases bucket <;> rfl

@[simp] lemma indices_normalize (bucket : IndexBucket) :
    bucket.normalize.indices = bucket.indices := by
  unfold normalize
  split <;> rfl

lemma isEmpty_iff (bucket : IndexBucket) : bucket.isEmpty = true ↔ bucket.indices = [] := by
  cases bucket with
  | one index => simp [isEmpty, indices]
  | many indices => exact List.isEmpty_iff

lemma findIn_eq {predicate : ℕ → Option Bool} {indices : List ℕ}
    (h : ∀ index ∈ indices, (predicate index).isSome) :
    findIn predicate indices = some (indices.find? fun index => predicate index == some true) := by
  induction indices with
  | nil => rfl
  | cons index indices ih =>
    obtain ⟨found, hfound⟩ := Option.isSome_iff_exists.1 (h index List.mem_cons_self)
    have htail := ih fun other hother => h other (List.mem_cons_of_mem _ hother)
    rw [findIn, hfound, htail, List.find?_cons, hfound]
    cases found <;> rfl

/-- Where the predicate does not panic, the search is the search of the bucket's positions. -/
lemma findIndexWith_eq {predicate : ℕ → Option Bool} {bucket : IndexBucket}
    (h : ∀ index ∈ bucket.indices, (predicate index).isSome) :
    bucket.findIndexWith predicate =
      some (bucket.indices.find? fun index => predicate index == some true) := by
  cases bucket with
  | one index => exact findIn_eq h
  | many indices => exact findIn_eq h

section SwapRemove

variable {β : Type} {values rest : List β} {index : ℕ} {removed : β}

lemma swapRemove_eq (hindex : index < values.length) :
    ∃ last, values[values.length - 1]? = some last ∧
      swapRemove values index = some (values[index], (values.set index last).dropLast) := by
  have hne : values ≠ [] := List.ne_nil_of_length_pos (Nat.zero_lt_of_lt hindex)
  refine ⟨values.getLast hne, ?_, ?_⟩
  · rw [← List.getLast?_eq_getElem?, List.getLast?_eq_getLast_of_ne_nil hne]
  · rw [swapRemove, List.getElem?_eq_getElem hindex, List.getLast?_eq_getLast_of_ne_nil hne]

/-- The hole holds the last value, every other position its own, and the last one is gone. -/
lemma swapRemove_getElem? (h : swapRemove values index = some (removed, rest)) (position : ℕ) :
    rest[position]? = if position < values.length - 1 then
      (if position = index then values[values.length - 1]? else values[position]?) else none := by
  have hindex : index < values.length := by
    by_contra hlt
    rw [swapRemove, List.getElem?_eq_none (Nat.le_of_not_lt hlt)] at h
    cases h
  obtain ⟨last, hlast, heq⟩ := swapRemove_eq hindex
  rw [heq] at h
  obtain ⟨-, rfl⟩ := Prod.mk.inj (Option.some.inj h)
  rw [List.getElem?_dropLast, List.length_set]
  split
  · rename_i hposition
    rw [List.getElem?_set]
    by_cases hsame : position = index
    · rw [if_pos hsame.symm, if_pos hindex, if_pos hsame, hlast]
    · rw [if_neg (Ne.symm hsame), if_neg hsame]
  · rfl

lemma swapRemove_perm (h : swapRemove values index = some (removed, rest)) :
    values.Perm (removed :: rest) := by
  have hindex : index < values.length := by
    by_contra hlt
    rw [swapRemove, List.getElem?_eq_none (Nat.le_of_not_lt hlt)] at h
    cases h
  obtain ⟨init, last, rfl⟩ : ∃ init last, values = init ++ [last] :=
    ⟨_, _,
      (List.dropLast_append_getLast (List.ne_nil_of_length_pos (Nat.zero_lt_of_lt hindex))).symm⟩
  rw [swapRemove, List.getElem?_eq_getElem hindex, List.getLast?_concat] at h
  obtain ⟨rfl, rfl⟩ := Prod.mk.inj (Option.some.inj h)
  by_cases hlast : index < init.length
  · rw [List.set_append_left _ _ hlast, List.dropLast_concat, List.getElem_append_left hlast]
    have hrest : (init.set index last).Perm (last :: init.eraseIdx index) :=
      List.set_perm_cons_eraseIdx hlast last
    have hinit : init.Perm (init[index] :: init.eraseIdx index) :=
      (List.getElem_cons_eraseIdx_perm hlast).symm
    have hmoved := (List.perm_append_singleton last init).trans (hinit.cons last)
    exact (hmoved.trans (.swap _ _ _)).trans (hrest.symm.cons _)
  · obtain rfl : index = init.length := by
      rw [List.length_append, List.length_singleton] at hindex
      omega
    rw [List.set_append_right _ _ le_rfl]
    simp

end SwapRemove

lemma mem_removeIndex {bucket : IndexBucket} (h : bucket.indices.Nodup) (index position : ℕ) :
    position ∈ (bucket.removeIndex index).indices ↔
      position ∈ bucket.indices ∧ position ≠ index := by
  cases bucket with
  | one existing =>
    rw [removeIndex]
    split <;> simp [indices] <;> grind
  | many positions =>
    rw [removeIndex]
    cases hfind : positions.findIdx? (· = index) with
    | none =>
      have hnot : ∀ other ∈ positions, other ≠ index := by
        simpa using List.findIdx?_eq_none_iff.1 hfind
      exact ⟨fun hmem => ⟨hmem, hnot _ hmem⟩, fun hmem => hmem.1⟩
    | some found =>
      obtain ⟨hlt, hfound, -⟩ := List.findIdx?_eq_some_iff_getElem.1 hfind
      obtain ⟨last, -, heq⟩ := swapRemove_eq hlt
      have hperm := swapRemove_perm heq
      simp only [heq]
      rw [decide_eq_true_eq] at hfound
      rw [hfound] at hperm
      have hnodup := (hperm.nodup_iff).1 h
      have hmem := hperm.mem_iff (a := position)
      change position ∈ (positions.set found last).dropLast ↔
        position ∈ positions ∧ position ≠ index
      rw [hmem, List.mem_cons]
      have hnot := (List.nodup_cons.1 hnodup).1
      constructor
      · exact fun hrest => ⟨.inr hrest, fun heq => hnot (heq ▸ hrest)⟩
      · rintro ⟨heq | hrest, hne⟩
        · exact absurd heq hne
        · exact hrest

lemma nodup_removeIndex {bucket : IndexBucket} (h : bucket.indices.Nodup) (index : ℕ) :
    (bucket.removeIndex index).indices.Nodup := by
  cases bucket with
  | one existing =>
    rw [removeIndex]
    split <;> simp [indices]
  | many positions =>
    rw [removeIndex]
    cases hfind : positions.findIdx? (· = index) with
    | none => exact h
    | some found =>
      obtain ⟨hlt, -, -⟩ := List.findIdx?_eq_some_iff_getElem.1 hfind
      obtain ⟨last, -, heq⟩ := swapRemove_eq hlt
      simp only [heq]
      exact (List.nodup_cons.1 ((swapRemove_perm heq).nodup_iff.1 h)).2

lemma mem_replaceIndex {bucket : IndexBucket} {oldIndex newIndex : ℕ} (h : bucket.indices.Nodup)
    (hold : oldIndex ∈ bucket.indices) (position : ℕ) :
    position ∈ (bucket.replaceIndex oldIndex newIndex).indices ↔
      position = newIndex ∨ (position ∈ bucket.indices ∧ position ≠ oldIndex) := by
  cases bucket with
  | one existing =>
    obtain rfl : oldIndex = existing := by simpa [indices] using hold
    rw [replaceIndex, if_pos rfl]
    simp [indices]
  | many positions =>
    rw [replaceIndex]
    cases hfind : positions.findIdx? (· = oldIndex) with
    | none =>
      have hnot : ∀ other ∈ positions, other ≠ oldIndex := by
        simpa using List.findIdx?_eq_none_iff.1 hfind
      exact absurd rfl (hnot _ hold)
    | some found =>
      obtain ⟨hlt, hfound, -⟩ := List.findIdx?_eq_some_iff_getElem.1 hfind
      rw [decide_eq_true_eq] at hfound
      have hset := List.set_perm_cons_eraseIdx hlt newIndex
      have hrest := List.getElem_cons_eraseIdx_perm hlt
      rw [hfound] at hrest
      have hnot := (List.nodup_cons.1 (hrest.nodup_iff.2 h)).1
      change position ∈ positions.set found newIndex ↔
        position = newIndex ∨ (position ∈ positions ∧ position ≠ oldIndex)
      rw [hset.mem_iff, ← hrest.mem_iff, List.mem_cons, List.mem_cons]
      constructor
      · rintro (heq | hmem)
        · exact .inl heq
        · exact .inr ⟨.inr hmem, fun heq => hnot (heq ▸ hmem)⟩
      · rintro (heq | ⟨heq | hmem, hne⟩)
        · exact .inl heq
        · exact absurd heq hne
        · exact .inr hmem

lemma nodup_replaceIndex {bucket : IndexBucket} {oldIndex newIndex : ℕ}
    (h : bucket.indices.Nodup) (hnew : newIndex ∉ bucket.indices) :
    (bucket.replaceIndex oldIndex newIndex).indices.Nodup := by
  cases bucket with
  | one existing =>
    rw [replaceIndex]
    split <;> simp [indices]
  | many positions =>
    rw [replaceIndex]
    cases hfind : positions.findIdx? (· = oldIndex) with
    | none => exact h
    | some found =>
      obtain ⟨hlt, -, -⟩ := List.findIdx?_eq_some_iff_getElem.1 hfind
      have hset := List.set_perm_cons_eraseIdx hlt newIndex
      have hrest := (List.nodup_cons.1 ((List.getElem_cons_eraseIdx_perm hlt).nodup_iff.2 h)).2
      refine hset.nodup_iff.2 (List.nodup_cons.2 ⟨fun hmem => ?_, hrest⟩)
      exact hnew (List.mem_of_mem_eraseIdx hmem)

end IndexBucket

/-! ## The invariant -/

namespace SetObject

variable {α : Type} {keys : Keys α}

/-- The positions that the bucket of a hash holds. -/
def positions (index : UInt64 → Option IndexBucket) (hash : UInt64) : List ℕ :=
  ((index hash).map IndexBucket.indices).getD []

/-- The lookup hash of the value at a position. -/
def hashAt (keys : Keys α) (values : List α) (position : ℕ) : Option UInt64 :=
  values[position]?.bind keys.valueLookupHash

/-- The buckets hold the positions of the values with their hash, each once. -/
structure Indexes (keys : Keys α) (index : UInt64 → Option IndexBucket) (values : List α) :
    Prop where
  nodup : ∀ hash, (positions index hash).Nodup
  mem : ∀ hash position, position ∈ positions index hash ↔ hashAt keys values position = some hash

structure Valid (keys : Keys α) (set : SetObject α) : Prop where
  distinct : set.values.Pairwise fun a b => keys.valueKeyEqual a b = false
  indexes : Indexes keys set.index set.values

@[simp] lemma positions_update (index : UInt64 → Option IndexBucket) (hash other : UInt64)
    (bucket : Option IndexBucket) :
    positions (Function.update index hash bucket) other =
      if other = hash then (bucket.map IndexBucket.indices).getD [] else positions index other := by
  unfold positions
  by_cases h : other = hash
  · rw [h, Function.update_self, if_pos rfl]
  · rw [Function.update_of_ne h, if_neg h]

lemma positions_of_some {index : UInt64 → Option IndexBucket} {hash : UInt64} {bucket : IndexBucket}
    (h : index hash = some bucket) : positions index hash = bucket.indices := by
  rw [positions, h]
  rfl

lemma positions_of_none {index : UInt64 → Option IndexBucket} {hash : UInt64}
    (h : index hash = none) : positions index hash = [] := by
  rw [positions, h]
  rfl

lemma hashAt_eq_some {values : List α} {position : ℕ} {hash : UInt64} :
    hashAt keys values position = some hash ↔
      ∃ value, values[position]? = some value ∧ keys.valueLookupHash value = some hash := by
  rw [hashAt, Option.bind_eq_some_iff]

/-! ### One more value -/

lemma positions_indexValue (index : UInt64 → Option IndexBucket) (value : α) (position : ℕ)
    (hash : UInt64) :
    positions (indexValue keys index value position) hash =
      if keys.valueLookupHash value = some hash then positions index hash ++ [position]
      else positions index hash := by
  unfold indexValue
  cases hvalue : keys.valueLookupHash value with
  | none => simp
  | some found =>
    by_cases hsame : found = hash
    · subst hsame
      cases hbucket : index found with
      | none => simp [positions_of_none hbucket, hbucket]
      | some bucket => simp [positions_of_some hbucket, hbucket]
    · have hne : hash ≠ found := Ne.symm hsame
      cases hbucket : index found with
      | none => simp [hsame, hne, hbucket]
      | some bucket => simp [hsame, hne, hbucket]

lemma Indexes.append {index : UInt64 → Option IndexBucket} {values : List α}
    (h : Indexes keys index values) (value : α) :
    Indexes keys (indexValue keys index value values.length) (values ++ [value]) := by
  have hfresh : ∀ hash, values.length ∉ positions index hash := by
    intro hash hmem
    obtain ⟨other, hother, -⟩ := hashAt_eq_some.1 ((h.mem hash _).1 hmem)
    rw [List.getElem?_eq_none le_rfl] at hother
    cases hother
  refine ⟨fun hash => ?_, fun hash position => ?_⟩
  · rw [positions_indexValue]
    split
    · exact (h.nodup hash).append (List.nodup_singleton _) (by simpa using hfresh hash)
    · exact h.nodup hash
  · have hsplit : hashAt keys (values ++ [value]) position =
        if position = values.length then keys.valueLookupHash value
        else hashAt keys values position := by
      unfold hashAt
      split
      · rename_i hposition
        rw [hposition, List.getElem?_concat_length]
        rfl
      · rename_i hposition
        rw [List.getElem?_append]
        split
        · rfl
        · rw [List.getElem?_eq_none (by simp; omega), List.getElem?_eq_none (by omega)]
    rw [positions_indexValue, hsplit]
    by_cases hposition : position = values.length
    · subst hposition
      rw [if_pos rfl]
      split
      · rename_i hvalue
        simp [hvalue]
      · rename_i hvalue
        exact iff_of_false (hfresh hash) hvalue
    · rw [if_neg hposition, ← h.mem]
      split <;> simp [hposition]

lemma indexes_rebuildIndex {index : UInt64 → Option IndexBucket} {earlier : List α}
    (values : List α) (h : Indexes keys index earlier) :
    Indexes keys (rebuildIndex keys index earlier.length values) (earlier ++ values) := by
  induction values generalizing index earlier with
  | nil =>
    rw [List.append_nil]
    exact h
  | cons value values ih =>
    have hnext := ih (h.append value)
    rw [List.length_append, List.length_singleton, List.append_assoc] at hnext
    exact hnext

lemma indexes_empty : Indexes keys (fun _ => none) [] :=
  ⟨fun _ => List.nodup_nil, fun _ _ => ⟨fun h => absurd h List.not_mem_nil, fun h => by cases h⟩⟩

lemma valid_empty : Valid keys empty := ⟨List.Pairwise.nil, indexes_empty⟩

/-! ### Search -/

section Search

variable {self : SetObject α} (hlawful : keys.Lawful) (h : Valid keys self)

include h in
/-- The search of a bucket reads valid positions only. -/
lemma findIndexWith_bucket {hash : UInt64} {bucket : IndexBucket}
    (hbucket : self.index hash = some bucket) (value : α) :
    bucket.findIndexWith (self.equalAt keys value) =
      some (bucket.indices.find? fun index => self.equalAt keys value index == some true) := by
  refine IndexBucket.findIndexWith_eq fun index hindex => ?_
  rw [← positions_of_some hbucket, h.indexes.mem, hashAt_eq_some] at hindex
  obtain ⟨item, hitem, -⟩ := hindex
  simp [equalAt, hitem]

lemma equalAt_eq_true {value : α} {index : ℕ} (hequal : self.equalAt keys value index = some true) :
    ∃ item, self.values[index]? = some item ∧ keys.valueKeyEqual item value = true := by
  obtain ⟨item, hitem, heq⟩ := Option.bind_eq_some_iff.1 hequal
  exact ⟨item, hitem, Option.some.inj heq⟩

include h in
/-- A value that is hashed like another one is in its bucket. -/
lemma mem_bucket_of_hash_eq {hash : UInt64} {value item : α} {index : ℕ}
    (hvalue : keys.valueLookupHash value = some hash) (hitem : self.values[index]? = some item)
    (hhash : keys.valueLookupHash item = keys.valueLookupHash value) :
    index ∈ positions self.index hash :=
  (h.indexes.mem hash index).2 (hashAt_eq_some.2 ⟨item, hitem, hhash.trans hvalue⟩)

include h in
/-- The search for a value, among values that are hashed like it where they equal it. -/
lemma findIndex_spec (value : α) (hhash : ∀ item ∈ self.values,
      keys.valueKeyEqual item value = true →
        keys.valueLookupHash item = keys.valueLookupHash value) :
    ∃ found, self.findIndex keys value = some found ∧
    (∀ index ∈ found, ∃ item, self.values[index]? = some item ∧
      keys.valueKeyEqual item value = true) ∧
    (found = none → ∀ item ∈ self.values, keys.valueKeyEqual item value = false) := by
  unfold findIndex
  cases hbucket : (keys.valueLookupHash value).bind self.index with
  | none =>
    refine ⟨_, rfl, fun index hindex => ?_, fun hnone item hitem => ?_⟩
    · obtain ⟨hlt, hequal, -⟩ := List.findIdx?_eq_some_iff_getElem.1 hindex
      exact ⟨_, List.getElem?_eq_getElem hlt, hequal⟩
    · exact Bool.eq_false_iff.2 (by simpa using List.findIdx?_eq_none_iff.1 hnone item hitem)
  | some bucket =>
    obtain ⟨hash, hvalue, hbucket⟩ := Option.bind_eq_some_iff.1 hbucket
    refine ⟨_, findIndexWith_bucket h hbucket value, fun index hindex => ?_,
      fun hnone item hitem => ?_⟩
    · have hequal := List.find?_some hindex
      exact equalAt_eq_true (eq_of_beq hequal)
    · obtain ⟨index, hlt, rfl⟩ := List.getElem_of_mem hitem
      refine Bool.eq_false_iff.2 fun hequal => ?_
      have hmem := mem_bucket_of_hash_eq h hvalue (List.getElem?_eq_getElem hlt)
        (hhash _ hitem hequal)
      rw [positions_of_some hbucket] at hmem
      have hnot := List.find?_eq_none.1 hnone index hmem
      simp [equalAt, List.getElem?_eq_getElem hlt, hequal] at hnot

/-- The index of a set leads from a value to an item. -/
def Finds (keys : Keys α) (item value : α) : Prop :=
  keys.valueKeyEqual item value = true ∧
    ∀ hash ∈ keys.valueLookupHash value, keys.valueLookupHash item = some hash

lemma Finds.refl {value : α} (h : keys.valueKeyEqual value value = true) :
    Finds keys value value := ⟨h, fun _ hhash => hhash⟩

include h in
/-- What `contains` answers, for any keys. -/
lemma contains_eq (value : α) :
    ∃ found, self.contains keys value = some found ∧
      (found = true ↔ ∃ item ∈ self.values, Finds keys item value) := by
  unfold contains Finds
  cases hvalue : keys.valueLookupHash value with
  | none =>
    refine ⟨_, rfl, List.any_eq_true.trans ?_⟩
    simp
  | some hash =>
    have hindex : ∀ index, index ∈ positions self.index hash ↔
        ∃ item, self.values[index]? = some item ∧ keys.valueLookupHash item = some hash :=
      fun index => (h.indexes.mem hash index).trans hashAt_eq_some
    cases hbucket : self.index hash with
    | none =>
      refine ⟨false, by simp only [hbucket], fun hfalse => absurd hfalse Bool.false_ne_true, ?_⟩
      rintro ⟨item, hitem, -, hhash⟩
      obtain ⟨index, hlt, rfl⟩ := List.getElem_of_mem hitem
      have hmem := (hindex index).2 ⟨_, List.getElem?_eq_getElem hlt, hhash hash rfl⟩
      rw [positions_of_none hbucket] at hmem
      exact absurd hmem List.not_mem_nil
    | some bucket =>
      refine ⟨_, by simp only [hbucket, findIndexWith_bucket h hbucket value]; rfl, ?_⟩
      rw [List.find?_isSome]
      constructor
      · rintro ⟨index, hmem, hequal⟩
        obtain ⟨item, hitem, hequal⟩ := equalAt_eq_true (eq_of_beq hequal)
        rw [← positions_of_some hbucket] at hmem
        obtain ⟨other, hother, hhash⟩ := (hindex index).1 hmem
        obtain rfl := Option.some.inj (hitem.symm.trans hother)
        refine ⟨item, List.mem_of_getElem? hitem, hequal, ?_⟩
        rintro _ ⟨⟩
        exact hhash
      · rintro ⟨item, hitem, hequal, hhash⟩
        obtain ⟨index, hlt, rfl⟩ := List.getElem_of_mem hitem
        have hmem := (hindex index).2 ⟨_, List.getElem?_eq_getElem hlt, hhash hash rfl⟩
        rw [positions_of_some hbucket] at hmem
        exact ⟨index, hmem, by simp [equalAt, List.getElem?_eq_getElem hlt, hequal]⟩

include hlawful h in
lemma contains_spec (value : α) : ∃ found, self.contains keys value = some found ∧
    (found = true ↔ ∃ item ∈ self.values, keys.valueKeyEqual item value = true) := by
  obtain ⟨found, hcontains, hfound⟩ := contains_eq h value
  refine ⟨found, hcontains, hfound.trans (exists_congr fun item => and_congr_right fun _ => ?_)⟩
  exact ⟨And.left, fun hequal =>
    ⟨hequal, fun hash hhash => (hlawful.hash_eq _ _ hequal).trans hhash⟩⟩

end Search

/-! ### Removal -/

section Removal

variable {self : SetObject α}

lemma positions_removeHashIndex (hash : UInt64) (entryIndex : ℕ) (other : UInt64) :
    positions (self.removeHashIndex hash entryIndex).index other =
      if other = hash then
        ((self.index hash).map fun bucket => (bucket.removeIndex entryIndex).indices).getD []
      else positions self.index other := by
  unfold removeHashIndex
  cases hbucket : self.index hash with
  | none =>
    by_cases hsame : other = hash
    · subst hsame
      rw [if_pos rfl]
      exact positions_of_none hbucket
    · rw [if_neg hsame]
  | some bucket =>
    by_cases hempty : (bucket.removeIndex entryIndex).normalize.isEmpty = true
    · have hnil := (IndexBucket.isEmpty_iff _).1 hempty
      rw [IndexBucket.indices_normalize] at hnil
      simp [hempty, setBucket, hnil]
    · simp [hempty, setBucket]

@[simp] lemma values_removeHashIndex (hash : UInt64) (entryIndex : ℕ) :
    (self.removeHashIndex hash entryIndex).values = self.values := by
  unfold removeHashIndex
  cases self.index hash with
  | none => rfl
  | some bucket =>
    change (if _ then _ else _ : SetObject α).values = _
    split <;> rfl

@[simp] lemma values_replaceMoved (lastIndex index : ℕ) :
    (self.replaceMoved keys lastIndex index).values = self.values := by
  unfold replaceMoved
  cases self.values[index]?.bind keys.valueLookupHash with
  | none => rfl
  | some movedHash =>
    dsimp only
    cases self.index movedHash <;> rfl

/-- The bucket of the removed value, without its position. -/
lemma mem_removed (h : Valid keys self) {index : ℕ} {removed : α} {rest : List α}
    (hremoved : self.values[index]? = some removed) :
    let after := match keys.valueLookupHash removed with
      | some hash => ({ self with values := rest } : SetObject α).removeHashIndex hash index
      | none => { self with values := rest }
    after.values = rest ∧ (∀ hash, (positions after.index hash).Nodup) ∧
      ∀ hash position, position ∈ positions after.index hash ↔
        hashAt keys self.values position = some hash ∧ position ≠ index := by
  intro after
  have hat : hashAt keys self.values index = keys.valueLookupHash removed := by
    rw [hashAt, hremoved]
    rfl
  cases hvalue : keys.valueLookupHash removed with
  | none =>
    have hafter : after = { self with values := rest } := by simp only [after, hvalue]
    rw [hafter]
    refine ⟨rfl, h.indexes.nodup, fun hash position => ?_⟩
    rw [h.indexes.mem]
    refine ⟨fun hmem => ⟨hmem, ?_⟩, fun hmem => hmem.1⟩
    rintro rfl
    rw [hat, hvalue] at hmem
    cases hmem
  | some found =>
    have hafter :
        after = ({ self with values := rest } : SetObject α).removeHashIndex found index := by
      simp only [after, hvalue]
    rw [hafter]
    refine ⟨values_removeHashIndex _ _, fun hash => ?_, fun hash position => ?_⟩
    · rw [positions_removeHashIndex]
      split
      · cases hbucket : self.index found with
        | none => exact List.nodup_nil
        | some bucket =>
          have hnodup := h.indexes.nodup found
          rw [positions_of_some hbucket] at hnodup
          exact IndexBucket.nodup_removeIndex hnodup index
      · exact h.indexes.nodup hash
    · rw [positions_removeHashIndex, ← h.indexes.mem]
      by_cases hsame : hash = found
      · subst hsame
        rw [if_pos rfl]
        cases hbucket : self.index hash with
        | none => simp [positions_of_none hbucket]
        | some bucket =>
          have hnodup := h.indexes.nodup hash
          rw [positions_of_some hbucket] at hnodup ⊢
          exact IndexBucket.mem_removeIndex hnodup index position
      · rw [if_neg hsame]
        refine ⟨fun hmem => ⟨hmem, ?_⟩, fun hmem => hmem.1⟩
        rintro rfl
        rw [h.indexes.mem, hat, hvalue] at hmem
        exact hsame (Option.some.inj hmem).symm

lemma positions_replaceMoved (lastIndex index : ℕ) (hash : UInt64) :
    positions (self.replaceMoved keys lastIndex index).index hash =
      if hashAt keys self.values index = some hash then
        ((self.index hash).map fun bucket => (bucket.replaceIndex lastIndex index).indices).getD []
      else positions self.index hash := by
  change _ = if self.values[index]?.bind keys.valueLookupHash = some hash then _ else _
  unfold replaceMoved
  cases hmoved : self.values[index]?.bind keys.valueLookupHash with
  | none => rfl
  | some movedHash =>
    dsimp only
    by_cases hsame : movedHash = hash
    · subst hsame
      rw [if_pos rfl]
      cases hbucket : self.index movedHash with
      | none => exact positions_of_none hbucket
      | some bucket => simp [setBucket]
    · have hne : hash ≠ movedHash := Ne.symm hsame
      rw [if_neg fun heq => hsame (Option.some.inj heq)]
      cases hbucket : self.index movedHash with
      | none => rfl
      | some bucket => simp [setBucket, hne]

/-- A value has the position of the removed one, or its own. -/
lemma hashAt_swapRemove {index : ℕ} {removed : α} {rest : List α}
    (h : IndexBucket.swapRemove self.values index = some (removed, rest)) (position : ℕ) :
    hashAt keys rest position = if position < self.values.length - 1 then
      (if position = index then hashAt keys self.values (self.values.length - 1)
        else hashAt keys self.values position) else none := by
  unfold hashAt
  rw [IndexBucket.swapRemove_getElem? h]
  split
  · split <;> rfl
  · rfl

lemma hashAt_eq_none {values : List α} {position : ℕ} (h : values.length ≤ position) :
    hashAt keys values position = none := by
  rw [hashAt, List.getElem?_eq_none h]
  rfl

lemma indexes_replaceMoved {after : SetObject α} {index : ℕ} {removed : α}
    (hswap : IndexBucket.swapRemove self.values index = some (removed, after.values))
    (hnodup : ∀ hash, (positions after.index hash).Nodup)
    (hmem : ∀ hash position, position ∈ positions after.index hash ↔
      hashAt keys self.values position = some hash ∧ position ≠ index)
    (hinside : index < self.values.length - 1) :
    Indexes keys (after.replaceMoved keys (self.values.length - 1) index).index after.values := by
  have hmoved : hashAt keys after.values index =
      hashAt keys self.values (self.values.length - 1) := by
    rw [hashAt_swapRemove hswap, if_pos hinside, if_pos rfl]
  have hat := fun hash => @positions_replaceMoved _ keys after (self.values.length - 1) index hash
  simp only [hmoved] at hat
  refine ⟨fun hash => ?_, fun hash position => ?_⟩
  · rw [hat]
    split
    · cases hbucket : after.index hash with
      | none => exact List.nodup_nil
      | some bucket =>
        have hbucketNodup := hnodup hash
        have hnot : index ∉ positions after.index hash :=
          fun hold => ((hmem hash index).1 hold).2 rfl
        rw [positions_of_some hbucket] at hbucketNodup hnot
        exact IndexBucket.nodup_replaceIndex hbucketNodup hnot
    · exact hnodup hash
  · rw [hat, hashAt_swapRemove hswap]
    by_cases hlast : hashAt keys self.values (self.values.length - 1) = some hash
    · have hold : self.values.length - 1 ∈ positions after.index hash :=
        (hmem hash _).2 ⟨hlast, by omega⟩
      rw [if_pos hlast]
      cases hbucket : after.index hash with
      | none =>
        rw [positions_of_none hbucket] at hold
        exact absurd hold List.not_mem_nil
      | some bucket =>
        have hbucketNodup := hnodup hash
        have hposition := hmem hash position
        rw [positions_of_some hbucket] at hold hbucketNodup hposition
        change position ∈ (bucket.replaceIndex (self.values.length - 1) index).indices ↔ _
        rw [IndexBucket.mem_replaceIndex hbucketNodup hold, hposition]
        by_cases hsame : position = index
        · simp [hsame, hinside, hlast]
        · by_cases hbound : position < self.values.length - 1
          · have hne : position ≠ self.values.length - 1 := by omega
            simp [hsame, hbound, hne]
          · by_cases hend : position = self.values.length - 1
            · simp [hend]
              omega
            · simp [hsame, hbound, hashAt_eq_none (show self.values.length ≤ position by omega)]
    · rw [if_neg hlast, hmem]
      by_cases hsame : position = index
      · simp [hsame, hinside, hlast]
      · by_cases hbound : position < self.values.length - 1
        · simp [hsame, hbound]
        · have hnone : ¬hashAt keys self.values position = some hash := by
            by_cases hend : position = self.values.length - 1
            · rwa [hend]
            · rw [hashAt_eq_none (by omega)]
              exact fun hsome => nomatch hsome
          simp [hbound, hnone]

/-- Where the last value is removed, nothing moves. -/
lemma indexes_removeLast {after : SetObject α} {index : ℕ} {removed : α}
    (hswap : IndexBucket.swapRemove self.values index = some (removed, after.values))
    (hindex : index < self.values.length)
    (hnodup : ∀ hash, (positions after.index hash).Nodup)
    (hmem : ∀ hash position, position ∈ positions after.index hash ↔
      hashAt keys self.values position = some hash ∧ position ≠ index)
    (hlast : ¬index < self.values.length - 1) : Indexes keys after.index after.values := by
  refine ⟨hnodup, fun hash position => ?_⟩
  rw [hmem, hashAt_swapRemove hswap]
  by_cases hbound : position < self.values.length - 1
  · have hne : position ≠ index := by omega
    simp [hbound, hne]
  · by_cases hsame : position = index
    · simp [hsame, hlast]
    · simp [hbound, hashAt_eq_none (show self.values.length ≤ position by omega)]

/-- Removing at a position takes the last value there and repairs its bucket. -/
lemma remove_spec (hlawful : keys.Lawful) (h : Valid keys self) {index : ℕ}
    (hindex : index < self.values.length) :
    ∃ after, self.remove keys index = some (after, self.values[index]) ∧ Valid keys after ∧
      self.values.Perm (self.values[index] :: after.values) := by
  obtain ⟨last, hlast, heq⟩ := IndexBucket.swapRemove_eq hindex
  have hperm := IndexBucket.swapRemove_perm heq
  have hlength : (self.values.set index last).dropLast.length = self.values.length - 1 := by simp
  set rest := (self.values.set index last).dropLast
  obtain ⟨hvalues, hnodup, hmem⟩ :=
    @mem_removed _ _ _ h index _ rest (List.getElem?_eq_getElem hindex)
  set after := (match keys.valueLookupHash self.values[index] with
    | some hash => ({ self with values := rest } : SetObject α).removeHashIndex hash index
    | none => { self with values := rest } : SetObject α)
  have hremove : self.remove keys index = some
      (if index < after.values.length then after.replaceMoved keys (self.values.length - 1) index
        else after, self.values[index]) := by
    unfold remove
    rw [heq]
    rfl
  have hdistinct : rest.Pairwise fun a b => keys.valueKeyEqual a b = false := by
    have hsymm : ∀ {a b}, keys.valueKeyEqual a b = false → keys.valueKeyEqual b a = false := by
      intro a b hab
      refine Bool.eq_false_iff.2 fun hba => ?_
      rw [hlawful.symm b a hba] at hab
      cases hab
    exact (List.pairwise_cons.1 ((hperm.pairwise_iff hsymm).1 h.distinct)).2
  rw [← hvalues] at heq hperm hdistinct hlength
  refine ⟨_, hremove, ?_⟩
  rw [hlength]
  by_cases hinside : index < self.values.length - 1
  · rw [if_pos hinside]
    have hindexes := indexes_replaceMoved heq hnodup hmem hinside
    refine ⟨⟨?_, ?_⟩, ?_⟩
    · rwa [values_replaceMoved]
    · rwa [values_replaceMoved]
    · rwa [values_replaceMoved]
  · rw [if_neg hinside]
    exact ⟨⟨hdistinct, indexes_removeLast heq hindex hnodup hmem hinside⟩, hperm⟩

end Removal

/-! ### Insertion -/

section Insertion

variable {self : SetObject α}

lemma insert_spec (h : Valid keys self) (value : α) (hhash : ∀ item ∈ self.values,
      keys.valueKeyEqual item value = true →
        keys.valueLookupHash item = keys.valueLookupHash value) :
    ∃ after changed, self.insert keys value = some (after, changed) ∧ Valid keys after ∧
      (changed = true ↔ ∀ item ∈ self.values, keys.valueKeyEqual item value = false) ∧
      after.values = if changed then self.values ++ [value] else self.values := by
  obtain ⟨found, hfind, hsome, hnone⟩ := findIndex_spec h value hhash
  cases found with
  | some index =>
    obtain ⟨item, hitem, hequal⟩ := hsome index rfl
    refine ⟨self, false, by rw [insert, hfind]; rfl, h,
      ⟨fun hfalse => absurd hfalse Bool.false_ne_true, fun hall => ?_⟩, rfl⟩
    rw [hall item (List.mem_of_getElem? hitem)] at hequal
    cases hequal
  | none =>
    have hall := hnone rfl
    refine ⟨_, true, by rw [insert, hfind]; rfl, ⟨?_, h.indexes.append value⟩,
      ⟨fun _ => hall, fun _ => rfl⟩, rfl⟩
    refine List.pairwise_append.2 ⟨h.distinct, List.pairwise_singleton _ _, fun item hitem => ?_⟩
    rintro other hother
    rw [List.mem_singleton.1 hother]
    exact hall item hitem

lemma retain_valid (h : Valid keys self) (keep : ℕ → α → Bool) :
    Valid keys (self.retain keys keep) := by
  have hindexes := indexes_rebuildIndex
    ((self.values.zipIdx.filter fun pair => keep pair.2 pair.1).map Prod.fst)
    (@indexes_empty _ keys)
  refine ⟨?_, hindexes⟩
  have hsublist : ((self.values.zipIdx.filter fun pair => keep pair.2 pair.1).map Prod.fst).Sublist
      self.values := by
    have hmap := (List.filter_sublist (p := fun pair => keep pair.2 pair.1)
      (l := self.values.zipIdx)).map Prod.fst
    rwa [List.zipIdx_map_fst] at hmap
  exact h.distinct.sublist hsublist

/-- The values that stay are those for which the predicate holds at their turn. -/
lemma mem_retain (keep : ℕ → α → Bool) (item : α) :
    item ∈ (self.retain keys keep).values ↔
      ∃ index, self.values[index]? = some item ∧ keep index item = true := by
  change item ∈ (self.values.zipIdx.filter fun pair => keep pair.2 pair.1).map Prod.fst ↔ _
  rw [List.mem_map]
  constructor
  · rintro ⟨⟨value, index⟩, hmem, rfl⟩
    obtain ⟨hzip, hkeep⟩ := List.mem_filter.1 hmem
    exact ⟨index, List.mem_zipIdx_iff_getElem?.1 hzip, hkeep⟩
  · rintro ⟨index, hitem, hkeep⟩
    exact ⟨(item, index), List.mem_filter.2 ⟨List.mem_zipIdx_iff_getElem?.2 hitem, hkeep⟩, rfl⟩

end Insertion

end SetObject

/-! ## Refinement -/

namespace SetOp

variable {α : Type} (keys : Keys α)

/-- A removal by position names a position of the set. -/
def Legal (self : SetObject α) : SetOp α → Prop
  | .remove index => index < self.values.length
  | _ => True

/-- What an operation does to the set of the keys that are equal to a stored one. -/
def spec (values : List α) : SetOp α → Set α → Set α
  | .insert value, members => {key | key ∈ members ∨ keys.valueKeyEqual value key = true}
  | .removeValue value, members => {key | key ∈ members ∧ keys.valueKeyEqual value key = false}
  | .remove index, members =>
    {key | key ∈ members ∧ ∀ value ∈ values[index]?, keys.valueKeyEqual value key = false}
  | .retain keep, members =>
    {key | key ∈ members ∧ ∀ index, ∀ value ∈ values[index]?, keep index value = false →
      keys.valueKeyEqual value key = false}
  | .clear, _ => ∅

end SetOp

/-- A set object that stands for the set of keys, and answers as it. -/
structure SetObject.Represents {α : Type} (keys : Keys α) (set : SetObject α) (members : Set α) :
    Prop where
  contains : ∀ key, ∃ found, set.contains keys key = some found ∧ (found = true ↔ key ∈ members)
  distinct : set.values.Pairwise fun a b => keys.valueKeyEqual a b = false
  buckets : ∀ hash bucket, set.index hash = some bucket → ∀ position ∈ bucket.indices,
    ∃ value, set.values[position]? = some value ∧ keys.valueLookupHash value = some hash

/-- Every state that the operations reach represents the set that they make of the members; no
legal operation panics, and an answer tells whether the members changed. -/
def SetObject.Refines {α : Type} (keys : Keys α) :
    List (SetOp α) → SetObject α → Set α → Prop
  | [], set, members => set.Represents keys members
  | op :: ops, set, members => set.Represents keys members ∧ (op.Legal set →
    ∃ after answer, op.apply keys set = some (after, answer) ∧
      (∀ changed ∈ answer, changed = true ↔ op.spec keys set.values members ≠ members) ∧
      after.Refines keys ops (op.spec keys set.values members))

namespace SetObject

variable {α : Type} {keys : Keys α}

/-- The keys that are equal to a value of the set. -/
def members (keys : Keys α) (values : List α) : Set α :=
  {key | ∃ value ∈ values, keys.valueKeyEqual value key = true}

lemma Valid.represents (hlawful : keys.Lawful) {set : SetObject α} (h : Valid keys set) :
    set.Represents keys (members keys set.values) := by
  refine ⟨fun key => contains_spec hlawful h key, h.distinct, fun hash bucket hbucket position
    hposition => ?_⟩
  rw [← positions_of_some hbucket, h.indexes.mem] at hposition
  exact hashAt_eq_some.1 hposition

lemma members_append (values : List α) (value : α) :
    members keys (values ++ [value]) =
      {key | key ∈ members keys values ∨ keys.valueKeyEqual value key = true} := by
  ext key
  constructor
  · rintro ⟨item, hitem, hequal⟩
    obtain hitem | hitem := List.mem_append.1 hitem
    · exact .inl ⟨item, hitem, hequal⟩
    · exact .inr (List.mem_singleton.1 hitem ▸ hequal)
  · rintro (⟨item, hitem, hequal⟩ | hequal)
    · exact ⟨item, List.mem_append_left _ hitem, hequal⟩
    · exact ⟨value, List.mem_append_right _ (List.mem_singleton_self _), hequal⟩

/-- Two keys that are equal to a third are equal. -/
lemma equal_of_common (hlawful : keys.Lawful) {a b key : α}
    (ha : keys.valueKeyEqual a key = true) (hb : keys.valueKeyEqual b key = true) :
    keys.valueKeyEqual a b = true :=
  hlawful.trans a key b ha (hlawful.symm b key hb)

/-- Without one of its values a set has the keys that are not equal to it. -/
lemma members_of_perm (hlawful : keys.Lawful) {values rest : List α} {removed : α}
    (hdistinct : values.Pairwise fun a b => keys.valueKeyEqual a b = false)
    (hperm : values.Perm (removed :: rest)) :
    members keys rest =
      {key | key ∈ members keys values ∧ keys.valueKeyEqual removed key = false} := by
  have hsymm : ∀ {a b}, keys.valueKeyEqual a b = false → keys.valueKeyEqual b a = false := by
    intro a b hab
    refine Bool.eq_false_iff.2 fun hba => ?_
    rw [hlawful.symm b a hba] at hab
    cases hab
  have hhead := (List.pairwise_cons.1 ((hperm.pairwise_iff hsymm).1 hdistinct)).1
  ext key
  constructor
  · rintro ⟨item, hitem, hequal⟩
    refine ⟨⟨item, hperm.mem_iff.2 (List.mem_cons_of_mem _ hitem), hequal⟩, ?_⟩
    refine Bool.eq_false_iff.2 fun hremoved => ?_
    have hsame := equal_of_common hlawful hremoved hequal
    rw [hhead item hitem] at hsame
    cases hsame
  · rintro ⟨⟨item, hitem, hequal⟩, hremoved⟩
    obtain rfl | hrest := List.mem_cons.1 (hperm.mem_iff.1 hitem)
    · rw [hequal] at hremoved
      cases hremoved
    · exact ⟨item, hrest, hequal⟩

lemma eq_of_equal (hlawful : keys.Lawful) {values : List α}
    (hdistinct : values.Pairwise fun a b => keys.valueKeyEqual a b = false) {i j : ℕ} {a b : α}
    (ha : values[i]? = some a) (hb : values[j]? = some b)
    (hequal : keys.valueKeyEqual a b = true) : i = j := by
  obtain ⟨hi, rfl⟩ := List.getElem?_eq_some_iff.1 ha
  obtain ⟨hj, rfl⟩ := List.getElem?_eq_some_iff.1 hb
  have hpair := List.pairwise_iff_getElem.1 hdistinct
  obtain hlt | heq | hlt := lt_trichotomy i j
  · rw [hpair i j hi hj hlt] at hequal
    cases hequal
  · exact heq
  · have hback := hlawful.symm _ _ hequal
    rw [hpair j i hj hi hlt] at hback
    cases hback

lemma members_retain (hlawful : keys.Lawful) {set : SetObject α} (h : Valid keys set)
    (keep : ℕ → α → Bool) :
    members keys (set.retain keys keep).values =
      (SetOp.retain keep).spec keys set.values (members keys set.values) := by
  ext key
  constructor
  · rintro ⟨item, hitem, hequal⟩
    obtain ⟨index, hindex, hkeep⟩ := (mem_retain keep item).1 hitem
    refine ⟨⟨item, List.mem_of_getElem? hindex, hequal⟩, fun other value hvalue hdrop => ?_⟩
    refine Bool.eq_false_iff.2 fun hother => ?_
    obtain rfl := eq_of_equal hlawful h.distinct hindex hvalue
      (equal_of_common hlawful hequal hother)
    obtain rfl := Option.some.inj (hindex.symm.trans hvalue)
    rw [hkeep] at hdrop
    cases hdrop
  · rintro ⟨⟨item, hitem, hequal⟩, hall⟩
    obtain ⟨index, hlt, rfl⟩ := List.getElem_of_mem hitem
    refine ⟨_, (mem_retain keep _).2 ⟨index, List.getElem?_eq_getElem hlt, ?_⟩, hequal⟩
    refine Bool.eq_true_of_not_eq_false fun hdrop => ?_
    rw [hall index _ (List.getElem?_eq_getElem hlt) hdrop] at hequal
    cases hequal

lemma mem_members_self (hlawful : keys.Lawful) {values : List α} {value : α} (h : value ∈ values) :
    value ∈ members keys values :=
  ⟨value, h, hlawful.refl value⟩

/-- What an operation must be shown to do. -/
structure Steps (keys : Keys α) (op : SetOp α) (set after : SetObject α) (answer : Option Bool) :
    Prop where
  valid : Valid keys after
  members_eq : members keys after.values = op.spec keys set.values (members keys set.values)
  answers : ∀ changed ∈ answer, changed = true ↔
    op.spec keys set.values (members keys set.values) ≠ members keys set.values

lemma insert_steps (hlawful : keys.Lawful) {set : SetObject α} (h : Valid keys set) (value : α) :
    ∃ after answer, (SetOp.insert value).apply keys set = some (after, answer) ∧
      Steps keys (.insert value) set after answer := by
  obtain ⟨after, changed, hinsert, hvalid, hchanged, hvalues⟩ :=
    insert_spec h value fun _ _ hequal => hlawful.hash_eq _ _ hequal
  have hsame : changed = false → (SetOp.insert value).spec keys set.values
      (members keys set.values) = members keys set.values := by
    rintro rfl
    have hpresent : ¬∀ item ∈ set.values, keys.valueKeyEqual item value = false :=
      fun hall => Bool.false_ne_true (hchanged.2 hall)
    push Not at hpresent
    obtain ⟨item, hitem, hequal⟩ := hpresent
    ext key
    refine ⟨?_, .inl⟩
    rintro (hkey | hkey)
    · exact hkey
    · exact ⟨item, hitem, hlawful.trans _ _ _ (Bool.eq_true_of_not_eq_false hequal) hkey⟩
  refine ⟨after, some changed, by rw [SetOp.apply, hinsert]; rfl, hvalid, ?_, ?_⟩
  · cases changed with
    | false =>
      rw [hsame rfl, hvalues]
      rfl
    | true =>
      rw [hvalues]
      exact members_append set.values value
  · intro other hother
    obtain rfl := Option.some.inj hother
    constructor
    · intro htrue heq
      have hmem : value ∈ members keys set.values := heq ▸ .inr (hlawful.refl value)
      obtain ⟨item, hitem, hequal⟩ := hmem
      rw [hchanged.1 htrue item hitem] at hequal
      cases hequal
    · exact fun hne => Bool.eq_true_of_not_eq_false fun hfalse => hne (hsame hfalse)

lemma remove_members (hlawful : keys.Lawful) {set after : SetObject α} (h : Valid keys set)
    {index : ℕ} (hindex : index < set.values.length)
    (hperm : set.values.Perm (set.values[index] :: after.values)) :
    members keys after.values =
      (SetOp.remove index).spec keys set.values (members keys set.values) := by
  rw [members_of_perm hlawful h.distinct hperm, SetOp.spec]
  simp [List.getElem?_eq_getElem hindex]

lemma removeValue_steps (hlawful : keys.Lawful) {set : SetObject α} (h : Valid keys set)
    (value : α) : ∃ after answer, (SetOp.removeValue value).apply keys set = some (after, answer) ∧
      Steps keys (.removeValue value) set after answer := by
  obtain ⟨found, hfind, hsome, hnone⟩ :=
    findIndex_spec h value fun _ _ hequal => hlawful.hash_eq _ _ hequal
  cases found with
  | none =>
    have hsame : (SetOp.removeValue value).spec keys set.values (members keys set.values) =
        members keys set.values := by
      ext key
      refine ⟨fun hkey => hkey.1, fun hkey => ⟨hkey, Bool.eq_false_iff.2 fun hequal => ?_⟩⟩
      obtain ⟨item, hitem, hitemKey⟩ := hkey
      have habsent := hnone rfl item hitem
      rw [equal_of_common hlawful hitemKey hequal] at habsent
      cases habsent
    refine ⟨set, some false, by simp [SetOp.apply, removeValue, hfind], h, hsame.symm, ?_⟩
    intro other hother
    obtain rfl := Option.some.inj hother
    exact ⟨fun hfalse => absurd hfalse Bool.false_ne_true, fun hne => absurd hsame hne⟩
  | some index =>
    obtain ⟨item, hitem, hequal⟩ := hsome index rfl
    obtain ⟨hindex, rfl⟩ := List.getElem?_eq_some_iff.1 hitem
    obtain ⟨after, hremove, hvalid, hperm⟩ := remove_spec hlawful h hindex
    have hmembers : (SetOp.removeValue value).spec keys set.values (members keys set.values) =
        members keys after.values := by
      rw [members_of_perm hlawful h.distinct hperm]
      ext key
      refine and_congr_right fun _ => ?_
      have hiff : keys.valueKeyEqual value key = true ↔
          keys.valueKeyEqual set.values[index] key = true :=
        ⟨hlawful.trans _ _ _ hequal, hlawful.trans _ _ _ (hlawful.symm _ _ hequal)⟩
      rw [← Bool.not_eq_true, ← Bool.not_eq_true, hiff]
    refine ⟨after, some true, by simp [SetOp.apply, removeValue, hfind, hremove], hvalid,
      hmembers.symm, ?_⟩
    intro other hother
    obtain rfl := Option.some.inj hother
    refine ⟨fun _ heq => ?_, fun _ => rfl⟩
    have hmem := mem_members_self hlawful (List.getElem_mem hindex)
    rw [← heq] at hmem
    have hnot := hmem.2
    rw [hlawful.symm _ _ hequal] at hnot
    cases hnot

/-- Each legal operation does to the members what it should. -/
lemma apply_steps (hlawful : keys.Lawful) {set : SetObject α} (h : Valid keys set) (op : SetOp α)
    (hlegal : op.Legal set) : ∃ after answer, op.apply keys set = some (after, answer) ∧
      Steps keys op set after answer := by
  cases op with
  | insert value => exact insert_steps hlawful h value
  | removeValue value => exact removeValue_steps hlawful h value
  | remove index =>
    obtain ⟨after, hremove, hvalid, hperm⟩ := remove_spec hlawful h hlegal
    refine ⟨after, none, by rw [SetOp.apply, hremove]; rfl, hvalid,
      remove_members hlawful h hlegal hperm, fun changed hchanged => ?_⟩
    cases hchanged
  | retain keep =>
    refine ⟨_, none, rfl, retain_valid h keep, members_retain hlawful h keep,
      fun changed hchanged => ?_⟩
    cases hchanged
  | clear =>
    refine ⟨_, none, rfl, valid_empty, ?_, fun changed hchanged => ?_⟩
    · exact Set.eq_empty_of_forall_notMem fun key ⟨item, hitem, _⟩ => absurd hitem List.not_mem_nil
    · cases hchanged

lemma Valid.refines (hlawful : keys.Lawful) (ops : List (SetOp α)) {set : SetObject α}
    (h : Valid keys set) : set.Refines keys ops (members keys set.values) := by
  induction ops generalizing set with
  | nil => exact h.represents hlawful
  | cons op ops ih =>
    refine ⟨h.represents hlawful, fun hlegal => ?_⟩
    obtain ⟨after, answer, happly, hsteps⟩ := apply_steps hlawful h op hlegal
    refine ⟨after, answer, happly, hsteps.answers, ?_⟩
    rw [← hsteps.members_eq]
    exact ih hsteps.valid

lemma new_valid (hlawful : keys.Lawful) (initial : List α) :
    ∃ set, SetObject.new keys initial = some set ∧ Valid keys set ∧
      members keys set.values = members keys initial := by
  induction initial using List.reverseRecOn with
  | nil => exact ⟨empty, rfl, valid_empty, rfl⟩
  | append_singleton initial value ih =>
    obtain ⟨set, hnew, hvalid, hmembers⟩ := ih
    obtain ⟨after, answer, happly, hsteps⟩ := insert_steps hlawful hvalid value
    obtain ⟨⟨inserted, changed⟩, hinsert, heq⟩ := Option.map_eq_some_iff.1 happly
    obtain ⟨rfl, -⟩ := Prod.mk.inj heq
    refine ⟨inserted, ?_, hsteps.valid, ?_⟩
    · unfold SetObject.new at hnew ⊢
      rw [List.foldlM_append, hnew]
      simp [hinsert]
    · rw [hsteps.members_eq, hmembers, members_append]
      rfl

/-- A set object made of any values refines the set of the keys equal to one of them, through every
run of operations. -/
theorem new_refines (hlawful : keys.Lawful) (initial : List α) (ops : List (SetOp α)) :
    ∃ set, SetObject.new keys initial = some set ∧
      set.Refines keys ops {key | ∃ value ∈ initial, keys.valueKeyEqual value key = true} := by
  obtain ⟨set, hnew, hvalid, hmembers⟩ := new_valid hlawful initial
  refine ⟨set, hnew, ?_⟩
  have hrefines := hvalid.refines hlawful ops
  rwa [hmembers] at hrefines

/-- Numbers of which the odd ones have no hash and the others share one. -/
theorem new_refines_numbers :
    ∃ set, SetObject.new ⟨fun a b : ℕ => a == b, fun a => if a % 2 = 1 then none else some 0⟩
        [1, 2, 4] = some set ∧
      set.Refines ⟨fun a b : ℕ => a == b, fun a => if a % 2 = 1 then none else some 0⟩
        [.remove 0, .removeValue 2, .insert 3, .retain fun _ a => a < 4, .clear]
        {key | ∃ value ∈ [1, 2, 4], (value == key) = true} := by
  refine new_refines ⟨fun a => beq_self_eq_true a, fun a b h => ?_, fun a b c hab hbc => ?_,
    fun a b h => ?_⟩ [1, 2, 4] _
  · rw [eq_of_beq h]
    exact beq_self_eq_true b
  · rw [eq_of_beq hab]
    exact hbc
  · rw [eq_of_beq h]

end SetObject

end Pyrs
