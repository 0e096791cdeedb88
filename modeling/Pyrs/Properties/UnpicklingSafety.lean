import Pyrs.Model.Unpickling

/-!
# Safety of unpickling

A run does not panic where its marks are not above the stack, its longs, slots and frames are small
enough, and the keys that it stores are hashable, or of another kind than the keys that are there.
The invariant that carries the last condition: a tuple holds older objects only, so the hash of a
key and its comparisons end; and they do not read the dict that is being changed.

The condition is about each instruction in the state before it, and each part of it is a state that
panics: an instruction that breaks its part does not return.
-/

namespace Pyrs.Unpickling

open Decoding

variable {α β : Type}

/-! ## Results -/

/-- A result that is no panic, with a property of its value. -/
def Safe (result : Except PickleStop α) (P : α → Prop) : Prop :=
  (∀ cause, result ≠ .error (.panic cause)) ∧ ∀ value, result = .ok value → P value

section Results

variable {P : α → Prop} {Q : β → Prop}

lemma safe_ok {value : α} (h : P value) : Safe (.ok value) P := by
  refine ⟨fun cause hcause => ?_, fun other hother => ?_⟩
  · cases hcause
  · cases hother
    exact h

lemma safe_refuse : Safe refuse P := by
  refine ⟨fun cause hcause => ?_, fun other hother => ?_⟩
  · cases hcause
  · cases hother

lemma Safe.bind {result : Except PickleStop α} {f : α → Except PickleStop β} (h : Safe result P)
    (hf : ∀ value, P value → Safe (f value) Q) : Safe (result >>= f) Q := by
  cases result with
  | error stop =>
    refine ⟨fun cause hcause => ?_, fun other hother => ?_⟩
    · cases hcause
      exact h.1 cause rfl
    · cases hother
  | ok value => exact hf value (h.2 value rfl)

lemma Safe.bindOf {result : Except PickleStop α} {f : α → Except PickleStop β} (h : Safe result P)
    (hf : ∀ value, result = .ok value → Safe (f value) Q) : Safe (result >>= f) Q := by
  have hboth : Safe result fun value => result = .ok value := ⟨h.1, fun value hvalue => hvalue⟩
  exact hboth.bind hf

lemma Safe.imp {P' : α → Prop} {result : Except PickleStop α} (h : Safe result P)
    (himp : ∀ value, P value → P' value) : Safe result P' :=
  ⟨h.1, fun value hvalue => himp value (h.2 value hvalue)⟩

lemma safe_orRefuse {option : Option α} (h : ∀ value, option = some value → P value) :
    Safe (orRefuse option) P := by
  cases option with
  | none => exact safe_refuse
  | some value => exact safe_ok (h value rfl)

lemma Safe.ite {c : Prop} [Decidable c] {first second : Except PickleStop α}
    (hfirst : c → Safe first P) (hsecond : ¬c → Safe second P) :
    Safe (if c then first else second) P := by
  by_cases h : c
  · rw [if_pos h]
    exact hfirst h
  · rw [if_neg h]
    exact hsecond h

/-- A test that returns, with whatever result. -/
abbrev Returns (result : Except PickleStop α) : Prop := Safe result fun _ => True

end Results

/-! ## Hashable values -/

/-- No list or dict in the value, at any depth of tuples. -/
inductive Hashable (heap : PickleHeap) : PickleValue → Prop
  | none : Hashable heap .none
  | bool {value : Bool} : Hashable heap (.bool value)
  | int {value : Int64} : Hashable heap (.int value)
  | str {text : String} : Hashable heap (.str text)
  | bytes {id : ℕ} {values : List UInt8} (h : heap[id]? = some (.bytes values)) :
      Hashable heap (.bytes id)
  | tuple {id : ℕ} {values : List PickleValue} (h : heap[id]? = some (.tuple values))
      (hvalues : ∀ value ∈ values, Hashable heap value) : Hashable heap (.tuple id)

/-- The references to bytes and tuples, at any depth of tuples, are to objects of that kind. -/
inductive Formed (heap : PickleHeap) : PickleValue → Prop
  | hashable {value : PickleValue} (h : Hashable heap value) : Formed heap value
  | list (id : ℕ) : Formed heap (.list id)
  | dict (id : ℕ) : Formed heap (.dict id)
  | tuple {id : ℕ} {values : List PickleValue} (h : heap[id]? = some (.tuple values))
      (hvalues : ∀ value ∈ values, Formed heap value) : Formed heap (.tuple id)

/-- Two containers of one kind, which are compared by what they hold. -/
def SameKind : PickleValue → PickleValue → Prop
  | .list _, .list _ | .dict _, .dict _ | .tuple _, .tuple _ => True
  | _, _ => False

/-- Keys that are inserted one after the other behind others: each of them is hashable, or of
another kind than all keys before it. -/
def Insertable (heap : PickleHeap) : List PickleValue → List PickleValue → Prop
  | _, [] => True
  | stored, key :: keys =>
    (Hashable heap key ∨ Formed heap key ∧ ∀ other ∈ stored, ¬SameKind other key) ∧
      Insertable heap (key :: stored) keys

/-- One more than the id of the object. -/
def PickleValue.rank : PickleValue → ℕ
  | .bytes id | .tuple id | .list id | .dict id => id + 1
  | _ => 0

/-- A tuple holds older objects. -/
def Ordered (heap : PickleHeap) : Prop :=
  ∀ (id : ℕ) (values : List PickleValue), heap[id]? = some (PickleObject.tuple values) →
    ∀ value ∈ values, value.rank ≤ id

/-- The tuples and bytes of a heap are in another one. -/
structure Keeps (heap heap' : PickleHeap) : Prop where
  tuple : ∀ (id : ℕ) (values : List PickleValue), heap[id]? = some (PickleObject.tuple values) →
    heap'[id]? = some (PickleObject.tuple values)
  bytes : ∀ (id : ℕ) (values : List UInt8), heap[id]? = some (PickleObject.bytes values) →
    heap'[id]? = some (PickleObject.bytes values)

lemma Hashable.mono {heap heap' : PickleHeap} {value : PickleValue} (h : Hashable heap value)
    (hkeeps : Keeps heap heap') : Hashable heap' value := by
  induction h with
  | none => exact .none
  | bool => exact .bool
  | int => exact .int
  | str => exact .str
  | bytes h => exact .bytes (hkeeps.bytes _ _ h)
  | tuple h _ ih => exact .tuple (hkeeps.tuple _ _ h) ih

section Keys

variable {hash : PickleHashInput → UInt64} {heap : PickleHeap} {borrowed : ℕ}

lemma Hashable.rank_le {value : PickleValue} (h : Hashable heap value) :
    value.rank ≤ heap.length := by
  cases h with
  | none => exact Nat.zero_le _
  | bool => exact Nat.zero_le _
  | int => exact Nat.zero_le _
  | str => exact Nat.zero_le _
  | bytes h => exact (List.getElem?_eq_some_iff.1 h).1
  | tuple h => exact (List.getElem?_eq_some_iff.1 h).1

/-- The borrowed object is a dict. -/
def IsDict (heap : PickleHeap) (id : ℕ) : Prop := ∃ entries, heap[id]? = some (.dict entries)

/-- What is no dict is not the borrowed object. -/
lemma IsDict.ne_of_get (hdict : IsDict heap borrowed) {id : ℕ} {object : PickleObject}
    (h : heap[id]? = some object) (hobject : ∀ entries, object ≠ .dict entries) :
    id ≠ borrowed := by
  rintro rfl
  obtain ⟨entries, hentries⟩ := hdict
  exact hobject entries (Option.some.inj (h.symm.trans hentries))

lemma kind_bytes (hdict : IsDict heap borrowed) {id : ℕ} {values : List UInt8}
    (h : heap[id]? = some (.bytes values)) : kind heap borrowed id = .ok (.bytes values) := by
  rw [kind, if_neg (hdict.ne_of_get h nofun), h]
  rfl

lemma kind_tuple (hdict : IsDict heap borrowed) {id : ℕ} {values : List PickleValue}
    (h : heap[id]? = some (.tuple values)) : kind heap borrowed id = .ok (.tuple values) := by
  rw [kind, if_neg (hdict.ne_of_get h nofun), h]
  rfl

lemma hashKeys_safe {hashKey : PickleValue → Except PickleStop (Option UInt64)}
    {values : List PickleValue}
    (h : ∀ value ∈ values, Safe (hashKey value) fun found => found.isSome = true) :
    Safe (hashKeys hashKey values) fun found => found.isSome = true := by
  induction values with
  | nil => exact safe_ok rfl
  | cons value values ih =>
    refine (h value List.mem_cons_self).bind fun first hfirst => ?_
    obtain ⟨first, rfl⟩ := Option.isSome_iff_exists.1 hfirst
    refine (ih fun other hother => h other (List.mem_cons_of_mem _ hother)).bind
      fun hashes hhashes => ?_
    obtain ⟨hashes, rfl⟩ := Option.isSome_iff_exists.1 hhashes
    exact safe_ok rfl

/-- A hashable value has a hash. -/
lemma valueHashKey_safe (hordered : Ordered heap) (hdict : IsDict heap borrowed) {levels : ℕ}
    {value : PickleValue} (h : Hashable heap value) (hlevels : value.rank < levels) :
    Safe (valueHashKey hash heap borrowed levels value) fun found => found.isSome = true := by
  induction levels generalizing value with
  | zero => exact absurd hlevels (Nat.not_lt_zero _)
  | succ levels ih =>
    cases h with
    | none => exact safe_ok rfl
    | bool => exact safe_ok rfl
    | int => exact safe_ok rfl
    | str => exact safe_ok rfl
    | bytes h =>
      rw [valueHashKey, kind_bytes hdict h]
      exact safe_ok rfl
    | tuple h hvalues =>
      rw [valueHashKey, kind_tuple hdict h]
      have hhashes := hashKeys_safe fun value hvalue => ih (hvalues value hvalue)
        (lt_of_le_of_lt (hordered _ _ h value hvalue) (Nat.lt_of_succ_lt_succ hlevels))
      refine hhashes.bind fun hashes hsome => ?_
      obtain ⟨hashes, rfl⟩ := Option.isSome_iff_exists.1 hsome
      exact safe_ok rfl

lemma hashKeys_hashable {hashKey : PickleValue → Except PickleStop (Option UInt64)}
    {values : List PickleValue}
    (h : ∀ value ∈ values, Safe (hashKey value) fun found => found.isSome = true →
      Hashable heap value) :
    Safe (hashKeys hashKey values) fun found => found.isSome = true →
      ∀ value ∈ values, Hashable heap value := by
  induction values with
  | nil => exact safe_ok fun _ value hvalue => absurd hvalue List.not_mem_nil
  | cons value values ih =>
    refine (h value List.mem_cons_self).bind fun first hfirst => ?_
    cases first with
    | none => exact safe_ok fun hsome => by cases hsome
    | some first =>
      refine (ih fun other hother => h other (List.mem_cons_of_mem _ hother)).bind
        fun hashes hhashes => ?_
      cases hashes with
      | none => exact safe_ok fun hsome => by cases hsome
      | some hashes => exact safe_ok fun _ => List.forall_mem_cons.2 ⟨hfirst rfl, hhashes rfl⟩

/-- A value is hashed without a panic, and has no hash unless it is hashable. -/
lemma valueHashKey_formed (hordered : Ordered heap) (hdict : IsDict heap borrowed) {levels : ℕ}
    {value : PickleValue} (h : Formed heap value) (hlevels : value.rank < levels) :
    Safe (valueHashKey hash heap borrowed levels value) fun found => found.isSome = true →
      Hashable heap value := by
  induction levels generalizing value with
  | zero => exact absurd hlevels (Nat.not_lt_zero _)
  | succ levels ih =>
    cases h with
    | hashable h => exact (valueHashKey_safe hordered hdict h hlevels).imp fun _ _ _ => h
    | list id => exact safe_ok fun hsome => by cases hsome
    | dict id => exact safe_ok fun hsome => by cases hsome
    | tuple h hvalues =>
      rw [valueHashKey, kind_tuple hdict h]
      have hhashes := hashKeys_hashable fun value hvalue => ih (hvalues value hvalue)
        (lt_of_le_of_lt (hordered _ _ h value hvalue) (Nat.lt_of_succ_lt_succ hlevels))
      refine hhashes.bind fun hashes hsome => ?_
      cases hashes with
      | none => exact safe_ok fun hsome => by cases hsome
      | some hashes => exact safe_ok fun _ => .tuple h (hsome rfl)

lemma allEqual_returns {equal : PickleValue → PickleValue → Except PickleStop Bool}
    {left right : List PickleValue} (h : ∀ a ∈ left, ∀ b ∈ right, Returns (equal a b)) :
    Returns (allEqual equal left right) := by
  induction left generalizing right with
  | nil => exact safe_ok trivial
  | cons a left ih =>
    cases right with
    | nil => exact safe_ok trivial
    | cons b right =>
      refine (h a List.mem_cons_self b List.mem_cons_self).bind fun same _ => ?_
      exact Safe.ite (fun _ => ih fun x hx y hy =>
        h x (List.mem_cons_of_mem _ hx) y (List.mem_cons_of_mem _ hy)) fun _ => safe_ok trivial

lemma valuesEqual_returns {equal : PickleValue → PickleValue → Except PickleStop Bool}
    {left right : List PickleValue} (h : ∀ a ∈ left, ∀ b ∈ right, Returns (equal a b)) :
    Returns (valuesEqual equal left right) :=
  Safe.ite (fun _ => allEqual_returns h) fun _ => safe_ok trivial

/-- The comparison of hashable values ends, below as many levels as there are older objects. -/
lemma valueEqual_returns (hordered : Ordered heap) (hdict : IsDict heap borrowed) {levels : ℕ}
    {left right : PickleValue} (hleft : Hashable heap left) (hright : Hashable heap right)
    (hlevels : left.rank < levels) :
    Returns (valueEqual hash heap borrowed levels left right) := by
  induction levels generalizing left right with
  | zero => exact absurd hlevels (Nat.not_lt_zero _)
  | succ levels ih =>
    cases hleft with
    | none => cases hright <;> exact safe_ok trivial
    | bool => cases hright <;> exact safe_ok trivial
    | int => cases hright <;> exact safe_ok trivial
    | str => cases hright <;> exact safe_ok trivial
    | bytes h =>
      cases hright with
      | bytes h' =>
        rw [valueEqual, kind_bytes hdict h, kind_bytes hdict h']
        exact safe_ok trivial
      | _ => exact safe_ok trivial
    | tuple h hvalues =>
      cases hright with
      | tuple h' hvalues' =>
        rw [valueEqual, kind_tuple hdict h, kind_tuple hdict h']
        exact valuesEqual_returns fun a ha b hb => ih (hvalues a ha) (hvalues' b hb)
          (lt_of_le_of_lt (hordered _ _ h a ha) (Nat.lt_of_succ_lt_succ hlevels))
      | _ => exact safe_ok trivial

lemma valueKeyEqual_returns (hordered : Ordered heap) (hdict : IsDict heap borrowed) {levels : ℕ}
    {left right : PickleValue} (hleft : Hashable heap left) (hright : Hashable heap right)
    (hlevels : left.rank + 1 < levels) :
    Returns (valueKeyEqual hash heap borrowed levels left right) := by
  induction levels generalizing left right with
  | zero => exact absurd hlevels (Nat.not_lt_zero _)
  | succ levels ih =>
    rw [valueKeyEqual.eq_def]
    refine (valueEqual_returns hordered hdict hleft hright (Nat.lt_of_succ_lt_succ hlevels)).bind
      fun same _ => Safe.ite (fun _ => safe_ok trivial) fun _ => ?_
    cases hleft with
    | tuple h hvalues =>
      cases hright with
      | tuple h' hvalues' =>
        dsimp only
        rw [kind_tuple hdict h, kind_tuple hdict h']
        refine valuesEqual_returns fun a ha b hb => ih (hvalues a ha) (hvalues' b hb) ?_
        have hrank := hordered _ _ h a ha
        rw [PickleValue.rank] at hlevels
        omega
      | _ => exact safe_ok trivial
    | _ => exact safe_ok trivial

/-! ## Entries -/

/-- The keys with a hash are hashable. -/
def Hashed (heap : PickleHeap) (entries : List PickleEntry) : Prop :=
  ∀ entry ∈ entries, entry.hash.isSome = true → Hashable heap entry.key

lemma position_safe {test : PickleEntry → Except PickleStop Bool} {entries : List PickleEntry}
    (h : ∀ entry ∈ entries, Returns (test entry)) :
    Safe (position test entries) fun found => ∀ index, found = some index →
      ∃ entry, entries[index]? = some entry ∧ test entry = .ok true := by
  induction entries with
  | nil => exact safe_ok fun index hindex => by cases hindex
  | cons entry entries ih =>
    rw [position]
    have htest := h entry List.mem_cons_self
    cases hresult : test entry with
    | error stop =>
      rw [hresult] at htest
      refine ⟨fun cause hcause => ?_, fun found hfound => ?_⟩
      · cases hcause
        exact htest.1 cause rfl
      · cases hfound
    | ok same =>
      show Safe (if same = true then _ else _) _
      refine Safe.ite (fun hsame => safe_ok ?_) fun _ => ?_
      · rintro index ⟨⟩
        rw [hsame] at hresult
        exact ⟨entry, rfl, hresult⟩
      · refine (ih fun other hother => h other (List.mem_cons_of_mem _ hother)).bind
          fun found hfound => safe_ok ?_
        intro index hindex
        obtain ⟨before, hbefore, rfl⟩ := Option.map_eq_some_iff.1 hindex
        exact hfound before hbefore

lemma sameKey_hash {equal : PickleValue → PickleValue → Except PickleStop Bool}
    {key : PickleValue} {keyHash : UInt64} {entry : PickleEntry}
    (h : sameKey equal key keyHash entry = .ok true) : entry.hash.isSome = true := by
  rw [sameKey] at h
  split at h
  · next hhash => rw [hhash]; rfl
  · cases h

lemma Hashed.modify {entries : List PickleEntry} (h : Hashed heap entries) {index : ℕ}
    {entry : PickleEntry} (hentry : entries[index]? = some entry)
    (hhash : entry.hash.isSome = true) {change : PickleEntry → PickleEntry}
    (hkey : ∀ entry, (change entry).key = entry.key) :
      Hashed heap (entries.modify index change) := by
  intro other hother hsome
  obtain ⟨place, hplace⟩ := List.mem_iff_getElem?.1 hother
  rw [List.getElem?_modify] at hplace
  obtain ⟨old, hold, rfl⟩ := Option.map_eq_some_iff.1 hplace
  by_cases hindex : index = place
  · subst hindex
    rw [if_pos rfl] at hsome ⊢
    obtain rfl := Option.some.inj (hold.symm.trans hentry)
    rw [hkey]
    exact h old (List.mem_of_getElem? hold) hhash
  · rw [if_neg hindex] at hsome ⊢
    exact h old (List.mem_of_getElem? hold) hsome

lemma Hashed.append {entries : List PickleEntry} (h : Hashed heap entries) {entry : PickleEntry}
    (hentry : Hashable heap entry.key) : Hashed heap (entries ++ [entry]) := by
  intro other hother hsome
  rcases List.mem_append.1 hother with hother | hother
  · exact h other hother hsome
  · rw [List.mem_singleton.1 hother]
    exact hentry

lemma lt_stackLevels {value : PickleValue} (h : Hashable heap value) :
    value.rank + 1 < stackLevels heap := by
  have hrank := h.rank_le
  have hsquare : heap.length ≤ heap.length * heap.length := Nat.le_mul_self _
  rw [stackLevels]
  omega

/-- The entries after an insertion have the keys from before, and perhaps the new one. -/
def KeysFrom (key : PickleValue) (stored : List PickleValue) (entries : List PickleEntry) : Prop :=
  ∀ entry ∈ entries, entry.key ∈ key :: stored

lemma KeysFrom.append {key : PickleValue} {stored : List PickleValue} {entries : List PickleEntry}
    (h : ∀ entry ∈ entries, entry.key ∈ stored) (value : PickleValue) (found : Option UInt64) :
    KeysFrom key stored (entries ++ [⟨key, value, found⟩]) := by
  intro entry hentry
  rcases List.mem_append.1 hentry with hentry | hentry
  · exact List.mem_cons_of_mem _ (h entry hentry)
  · rw [List.mem_singleton.1 hentry]
    exact List.mem_cons_self

lemma KeysFrom.modify {key : PickleValue} {stored : List PickleValue} {entries : List PickleEntry}
    (h : ∀ entry ∈ entries, entry.key ∈ stored) (index : ℕ) {change : PickleEntry → PickleEntry}
    (hkey : ∀ entry, (change entry).key = entry.key) :
    KeysFrom key stored (entries.modify index change) := by
  intro entry hentry
  obtain ⟨place, hplace⟩ := List.mem_iff_getElem?.1 hentry
  rw [List.getElem?_modify] at hplace
  obtain ⟨old, hold, rfl⟩ := Option.map_eq_some_iff.1 hplace
  have hmem := List.mem_cons_of_mem key (h old (List.mem_of_getElem? hold))
  split
  · rwa [hkey]
  · exact hmem

section Insertion

variable {entries : List PickleEntry} {stored : List PickleValue} {key : PickleValue}

/-- A hashable key is inserted. -/
lemma insertEntry_hashable (hordered : Ordered heap) (hdict : IsDict heap borrowed)
    (hentries : Hashed heap entries) (hstored : ∀ entry ∈ entries, entry.key ∈ stored)
    (hkey : Hashable heap key) (value : PickleValue) :
    Safe (insertEntry hash heap borrowed entries key value) fun after =>
      Hashed heap after ∧ KeysFrom key stored after := by
  have hlevels := lt_stackLevels hkey
  refine (valueHashKey_safe hordered hdict hkey (by omega)).bind fun found hfound => ?_
  obtain ⟨keyHash, rfl⟩ := Option.isSome_iff_exists.1 hfound
  have htest : ∀ entry ∈ entries,
      Returns
        (sameKey (valueKeyEqual hash heap borrowed (stackLevels heap)) key keyHash entry) := by
    intro entry hentry
    refine Safe.ite (fun hhash => ?_) fun _ => safe_ok trivial
    have hstored := hentries entry hentry (by rw [hhash]; rfl)
    exact valueKeyEqual_returns hordered hdict hstored hkey (lt_stackLevels hstored)
  refine (position_safe htest).bind fun index hindex => ?_
  cases index with
  | none => exact safe_ok ⟨hentries.append hkey, .append hstored _ _⟩
  | some index =>
    obtain ⟨entry, hentry, hsame⟩ := hindex index rfl
    exact safe_ok ⟨hentries.modify hentry (sameKey_hash hsame) fun _ => rfl,
      .modify hstored index fun _ => rfl⟩

/-- A container differs from what is no container of its kind, without a look into it. -/
lemma valueKeyEqual_of_kinds {levels : ℕ} {other : PickleValue} (hkind : ¬SameKind other key)
    (hkey : (∃ id, key = .list id) ∨ (∃ id, key = .dict id) ∨ ∃ id, key = .tuple id) :
    valueKeyEqual hash heap borrowed (levels + 2) other key = .ok false := by
  have hequal : valueEqual hash heap borrowed (levels + 1) other key = .ok false := by
    rcases hkey with ⟨id, rfl⟩ | ⟨id, rfl⟩ | ⟨id, rfl⟩ <;> cases other <;>
      first | rfl | exact absurd trivial hkind
  rw [valueKeyEqual.eq_def]
  dsimp only
  rw [hequal]
  rcases hkey with ⟨id, rfl⟩ | ⟨id, rfl⟩ | ⟨id, rfl⟩ <;> cases other <;>
    first | rfl | exact absurd trivial hkind

lemma position_eq_none {test : PickleEntry → Except PickleStop Bool}
    (h : ∀ entry ∈ entries, test entry = .ok false) : position test entries = .ok none := by
  induction entries with
  | nil => rfl
  | cons entry entries ih =>
    rw [position, h entry List.mem_cons_self]
    show (do return (← position test entries).map (· + 1)) = _
    rw [ih fun other hother => h other (List.mem_cons_of_mem _ hother)]
    rfl

/-- A key that is not hashable is added behind keys of other kinds. -/
lemma insertEntry_unhashable (hordered : Ordered heap) (hdict : IsDict heap borrowed)
    (hentries : Hashed heap entries) (hstored : ∀ entry ∈ entries, entry.key ∈ stored)
    (hkey : ¬Hashable heap key) (hformed : Formed heap key)
    (hkinds : ∀ other ∈ stored, ¬SameKind other key) (value : PickleValue) :
    Safe (insertEntry hash heap borrowed entries key value) fun after =>
      Hashed heap after ∧ KeysFrom key stored after := by
  have hcontainer : (∃ id, key = .list id) ∨ (∃ id, key = .dict id) ∨ ∃ id, key = .tuple id := by
    cases hformed with
    | hashable h => exact absurd h hkey
    | list id => exact .inl ⟨id, rfl⟩
    | dict id => exact .inr (.inl ⟨id, rfl⟩)
    | tuple h => exact .inr (.inr ⟨_, rfl⟩)
  obtain ⟨levels, hlevels⟩ : ∃ levels, stackLevels heap = levels + 2 := ⟨_, rfl⟩
  have hhash : Safe (valueHashKey hash heap borrowed (stackLevels heap) key)
      fun found => found.isSome = true → Hashable heap key := by
    have hsquare : heap.length ≤ heap.length * heap.length := Nat.le_mul_self _
    rcases hcontainer with ⟨id, rfl⟩ | ⟨id, rfl⟩ | ⟨id, rfl⟩
    · rw [hlevels]
      exact safe_ok fun hsome => by cases hsome
    · rw [hlevels]
      exact safe_ok fun hsome => by cases hsome
    · refine valueHashKey_formed hordered hdict hformed ?_
      cases hformed with
      | hashable h => exact absurd h hkey
      | tuple h =>
        have hlt := (List.getElem?_eq_some_iff.1 h).1
        rw [PickleValue.rank, stackLevels]
        omega
  refine hhash.bind fun found hfound => ?_
  cases found with
  | some keyHash => exact absurd (hfound rfl) hkey
  | none =>
    have hposition : position (fun entry =>
        valueKeyEqual hash heap borrowed (stackLevels heap) entry.key key) entries = .ok none :=
      position_eq_none fun entry hentry => by
        rw [hlevels]
        exact valueKeyEqual_of_kinds (hkinds _ (hstored entry hentry)) hcontainer
    dsimp only
    rw [hposition]
    refine safe_ok ⟨fun entry hentry hsome => ?_, .append hstored _ _⟩
    rcases List.mem_append.1 hentry with hentry | hentry
    · exact hentries entry hentry hsome
    · rw [List.mem_singleton.1 hentry] at hsome
      cases hsome

end Insertion

/-- The keys of pairs, one after the other. -/
def keysOf : List PickleValue → List PickleValue
  | key :: _ :: items => key :: keysOf items
  | _ => []

lemma insertPairs_safe (hordered : Ordered heap) (hdict : IsDict heap borrowed)
    (items : List PickleValue) {entries : List PickleEntry} (hentries : Hashed heap entries)
    {stored : List PickleValue} (hstored : ∀ entry ∈ entries, entry.key ∈ stored)
    (hkeys : Insertable heap stored (keysOf items)) :
    Safe (insertPairs hash heap borrowed entries items) (Hashed heap) := by
  induction items using keysOf.induct generalizing entries stored with
  | case1 key value items ih =>
    obtain ⟨hkey, hrest⟩ := hkeys
    have hinsert : Safe (insertEntry hash heap borrowed entries key value) fun after =>
        Hashed heap after ∧ KeysFrom key stored after := by
      by_cases hhashable : Hashable heap key
      · exact insertEntry_hashable hordered hdict hentries hstored hhashable value
      · obtain ⟨hformed, hkinds⟩ := hkey.resolve_left hhashable
        exact insertEntry_unhashable hordered hdict hentries hstored hhashable hformed hkinds value
    exact hinsert.bind fun inserted hinserted => ih hinserted.1 hinserted.2 hrest
  | case2 items hitems =>
    rw [insertPairs]
    · exact safe_ok hentries
    · exact hitems

end Keys

/-! ## The invariant -/

/-- The tuples hold older objects, the keys that have a hash are hashable, and the values refer to
objects of the heap. -/
structure Sound (state : PickleState) : Prop where
  ordered : Ordered state.heap
  hashed : ∀ (id : ℕ) (entries : List PickleEntry),
    state.heap[id]? = some (PickleObject.dict entries) → Hashed state.heap entries
  stack : ∀ value ∈ state.stack, value.rank ≤ state.heap.length
  memo : ∀ slot value, (slot, value) ∈ state.memo → value.rank ≤ state.heap.length

/-- An object that can be added to a heap: a tuple of its values, or an object without entries. -/
def Fits (heap : PickleHeap) : PickleObject → Prop
  | .tuple values => ∀ value ∈ values, value.rank ≤ heap.length
  | .dict entries => entries = []
  | _ => True

section States

variable {state : PickleState}

lemma keeps_append (heap : PickleHeap) (object : PickleObject) : Keeps heap (heap ++ [object]) := by
  refine ⟨fun id values h => ?_, fun id values h => ?_⟩
  · rw [List.getElem?_append_left (List.getElem?_eq_some_iff.1 h).1, h]
  · rw [List.getElem?_append_left (List.getElem?_eq_some_iff.1 h).1, h]

/-- An object of a longer heap is an object of the heap, or the new one. -/
lemma getElem?_append_cases {heap : PickleHeap} {object found : PickleObject} {id : ℕ}
    (h : (heap ++ [object])[id]? = some found) :
    heap[id]? = some found ∨ id = heap.length ∧ object = found := by
  rcases lt_or_ge id heap.length with hlt | hge
  · rw [List.getElem?_append_left hlt] at h
    exact .inl h
  · rw [List.getElem?_append_right hge] at h
    obtain ⟨hindex, hfound⟩ := List.getElem?_eq_some_iff.1 h
    rw [List.length_singleton] at hindex
    refine .inr ⟨by omega, ?_⟩
    rwa [List.getElem_singleton] at hfound

lemma Sound.push (h : Sound state) {value : PickleValue} (hvalue : value.rank ≤ state.heap.length) :
    Sound (state.push value) where
  ordered := h.ordered
  hashed := h.hashed
  stack other hother := by
    rcases List.mem_append.1 hother with hother | hother
    · exact h.stack other hother
    · rw [List.mem_singleton.1 hother]
      exact hvalue
  memo := h.memo

lemma Sound.alloc (h : Sound state) {object : PickleObject} (hfits : Fits state.heap object) :
    Sound (state.alloc object) where
  ordered id values hvalues value hvalue := by
    rcases getElem?_append_cases hvalues with hold | ⟨rfl, rfl⟩
    · exact h.ordered id values hold value hvalue
    · exact hfits value hvalue
  hashed id entries hentries entry hentry hsome := by
    rcases getElem?_append_cases hentries with hold | ⟨rfl, rfl⟩
    · exact (h.hashed id entries hold entry hentry hsome).mono (keeps_append _ _)
    · rw [show entries = [] from hfits] at hentry
      cases hentry
  stack value hvalue := by
    have hle := h.stack value hvalue
    show value.rank ≤ (state.heap ++ [object]).length
    rw [List.length_append]
    omega
  memo slot value hvalue := by
    have hle := h.memo slot value hvalue
    show value.rank ≤ (state.heap ++ [object]).length
    rw [List.length_append]
    omega

/-- A new object on the stack. -/
lemma Sound.allocPush (h : Sound state) {object : PickleObject} (hfits : Fits state.heap object)
    {value : PickleValue} (hvalue : value.rank = state.heap.length + 1) :
    Sound ((state.alloc object).push value) := by
  refine (h.alloc hfits).push ?_
  show value.rank ≤ (state.heap ++ [object]).length
  rw [hvalue, List.length_append, List.length_singleton]

lemma Sound.take (h : Sound state) {stack : List PickleValue} (hstack : stack ⊆ state.stack)
    (marks : List ℕ) : Sound { state with stack := stack, marks := marks } where
  ordered := h.ordered
  hashed := h.hashed
  stack value hvalue := h.stack value (hstack hvalue)
  memo := h.memo

/-- A list or a dict is put in the place of one. -/
lemma Sound.set (h : Sound state) {id : ℕ} {object : PickleObject}
    (hold : ∃ found, state.heap[id]? = some found ∧
      ((∃ items, found = .list items) ∨ ∃ entries, found = .dict entries))
    (hnew : (∃ items, object = .list items) ∨
      ∃ entries, object = .dict entries ∧ Hashed state.heap entries) :
    Sound { state with heap := state.heap.set id object } := by
  obtain ⟨found, hfound, hkind⟩ := hold
  have hother : ∀ {other : ℕ} {there : PickleObject}, state.heap[other]? = some there →
      (∀ items, there ≠ .list items) → (∀ entries, there ≠ .dict entries) →
        (state.heap.set id object)[other]? = some there := by
    intro other there hthere hlist hdict
    rw [List.getElem?_set_ne, hthere]
    rintro rfl
    obtain rfl := Option.some.inj (hfound.symm.trans hthere)
    rcases hkind with ⟨items, hitems⟩ | ⟨entries, hentries⟩
    · exact hlist items hitems
    · exact hdict entries hentries
  have hkeeps : Keeps state.heap (state.heap.set id object) :=
    ⟨fun _ _ hvalues => hother hvalues nofun nofun, fun _ _ hvalues => hother hvalues nofun nofun⟩
  have hcases : ∀ {other : ℕ} {there : PickleObject},
      (state.heap.set id object)[other]? = some there →
        state.heap[other]? = some there ∨ object = there := by
    intro other there hthere
    by_cases hother : id = other
    · subst hother
      obtain ⟨hlt, hget⟩ := List.getElem?_eq_some_iff.1 hthere
      rw [List.getElem_set_self] at hget
      exact .inr hget
    · rw [List.getElem?_set_ne hother] at hthere
      exact .inl hthere
  refine ⟨fun other values hvalues value hvalue => ?_,
    fun other entries hentries entry hentry hsome => ?_, fun value hvalue => ?_,
    fun slot value hvalue => ?_⟩
  · rcases hcases hvalues with hsame | rfl
    · exact h.ordered other values hsame value hvalue
    · rcases hnew with ⟨items, hitems⟩ | ⟨entries, hentries, -⟩
      · cases hitems
      · cases hentries
  · rcases hcases hentries with hsame | rfl
    · exact (h.hashed other entries hsame entry hentry hsome).mono hkeeps
    · rcases hnew with ⟨items, hitems⟩ | ⟨entries', hentries', hhashed⟩
      · cases hitems
      · cases hentries'
        exact (hhashed entry hentry hsome).mono hkeeps
  · show value.rank ≤ (state.heap.set id object).length
    rw [List.length_set]
    exact h.stack value hvalue
  · show value.rank ≤ (state.heap.set id object).length
    rw [List.length_set]
    exact h.memo slot value hvalue

/-! ## Operations -/

lemma last_safe (h : Sound state) : Safe state.last fun value => value.rank ≤ state.heap.length :=
  safe_orRefuse fun value hvalue => h.stack value (List.mem_of_getLast? hvalue)

lemma stack_ne_nil {value : PickleValue} (h : state.last = .ok value) : state.stack ≠ [] := by
  intro hnil
  rw [PickleState.last, hnil] at h
  cases h

/-- What is left of a state, and values of it. -/
def Leaves (state : PickleState) (result : List PickleValue × PickleState) : Prop :=
  Sound result.2 ∧ result.2.heap = state.heap ∧ ∀ value ∈ result.1, value.rank ≤ state.heap.length

lemma pop_safe (h : Sound state) : Safe state.pop fun result =>
    Sound result.2 ∧ result.2.heap = state.heap ∧ result.1.rank ≤ state.heap.length ∧
      state.stack = result.2.stack ++ [result.1] := by
  refine safe_orRefuse (fun value hvalue => hvalue) |>.bind fun value hvalue => ?_
  refine safe_ok ⟨h.take (List.dropLast_subset _) _, rfl, h.stack value
    (List.mem_of_getLast? hvalue), ?_⟩
  exact (List.dropLast_append_getLast? value hvalue).symm

lemma popValues_safe (h : Sound state) (count : ℕ) {values : List PickleValue}
    (hvalues : ∀ value ∈ values, value.rank ≤ state.heap.length) :
    Safe (PickleState.popValues count state values) fun result => Leaves state result ∧
      ∃ popped, popped.length = count ∧ result.1 = popped ++ values ∧
        state.stack = result.2.stack ++ popped := by
  induction count generalizing state values with
  | zero => exact safe_ok ⟨⟨h, rfl, hvalues⟩, [], rfl, rfl, (List.append_nil _).symm⟩
  | succ count ih =>
    refine (pop_safe h).bind ?_
    rintro ⟨value, left⟩ ⟨hleft, hheap, hvalue, hstack⟩
    have hall : ∀ other ∈ value :: values, other.rank ≤ left.heap.length := by
      rw [hheap]
      exact List.forall_mem_cons.2 ⟨hvalue, hvalues⟩
    refine (ih hleft hall).imp ?_
    rintro ⟨found, last⟩ ⟨⟨hlast, hsame, hranks⟩, popped, hlength, hfound, hleftStack⟩
    refine ⟨⟨hlast, hsame.trans hheap, by rwa [hheap] at hranks⟩, popped ++ [value], ?_, ?_, ?_⟩
    · rw [List.length_append, hlength, List.length_singleton]
    · rw [hfound, List.append_assoc, List.singleton_append]
    · rw [hstack, hleftStack, List.append_assoc]

/-- The mark on the top is not above the stack. -/
def MarkFits (state : PickleState) : Prop :=
  ∀ mark, state.marks.getLast? = some mark → mark ≤ state.stack.length

lemma splitMark_safe (h : Sound state) (hmark : MarkFits state) :
    Safe state.splitMark fun result => Leaves state result ∧
      ∃ mark, state.marks.getLast? = some mark ∧ result.1 = state.stack.drop mark ∧
        result.2.stack = state.stack.take mark := by
  refine (safe_orRefuse fun mark hlast => hlast).bind fun mark hlast => ?_
  rw [if_pos (hmark mark hlast)]
  exact safe_ok ⟨⟨h.take (List.take_subset _ _) _, rfl,
    fun value hvalue => h.stack value (List.mem_of_mem_drop hvalue)⟩, mark, hlast, rfl, rfl⟩

lemma pushTuple_sound (h : Sound state) {values : List PickleValue}
    (hvalues : ∀ value ∈ values, value.rank ≤ state.heap.length) :
    Sound (state.pushTuple values) := by
  have hfits : Fits state.heap (.tuple values) := hvalues
  exact h.allocPush hfits rfl

lemma extendList_safe (h : Sound state) (values : List PickleValue) :
    Safe (state.extendList values) Sound := by
  refine (last_safe h).bind fun value _ => ?_
  cases value with
  | list id =>
    dsimp only
    cases hobject : state.heap[id]? with
    | none => exact safe_refuse
    | some object =>
      cases object with
      | list items => exact safe_ok (h.set ⟨_, hobject, .inl ⟨_, rfl⟩⟩ (.inl ⟨_, rfl⟩))
      | _ => exact safe_refuse
  | _ => exact safe_refuse

variable {hash : PickleHashInput → UInt64}

/-- The dict on the top of a stack, where there is one, takes the keys of some items. -/
def DictTakes (heap : PickleHeap) (stack items : List PickleValue) : Prop :=
  ∀ id entries, stack.getLast? = some (.dict id) → heap[id]? = some (.dict entries) →
    Insertable heap (entries.map PickleEntry.key) (keysOf items)

lemma extendDict_safe (h : Sound state) {items : List PickleValue}
    (hkeys : DictTakes state.heap state.stack items) :
    Safe (state.extendDict hash items) Sound := by
  refine (safe_orRefuse fun value hvalue => hvalue).bind fun value hlast => ?_
  cases value with
  | dict id =>
    dsimp only
    cases hobject : state.heap[id]? with
    | none => exact safe_refuse
    | some object =>
      cases object with
      | dict entries =>
        refine (insertPairs_safe h.ordered ⟨entries, hobject⟩ items (h.hashed id entries hobject)
          (fun entry hentry => List.mem_map_of_mem hentry) (hkeys id entries hlast hobject)).bind
            fun inserted hinserted => ?_
        exact safe_ok (h.set ⟨_, hobject, .inr ⟨_, rfl⟩⟩ (.inr ⟨_, rfl, hinserted⟩))
      | _ => exact safe_refuse
  | _ => exact safe_refuse

lemma addOne_safe {value : ℕ} (h : value + 1 < 2 ^ 64) : Returns (PickleState.addOne value) := by
  rw [PickleState.addOne, if_pos h]
  exact safe_ok trivial

lemma Sound.remember (h : Sound state) {value : PickleValue}
    (hvalue : value.rank ≤ state.heap.length) (slot memoNext : ℕ) :
    Sound { state with memo := (slot, value) :: state.memo, memoNext := memoNext } where
  ordered := h.ordered
  hashed := h.hashed
  stack := h.stack
  memo other found hfound := by
    rcases List.mem_cons.1 hfound with heq | hfound
    · rw [(Prod.mk.inj heq).2]
      exact hvalue
    · exact h.memo other found hfound

lemma memoGet_safe (h : Sound state) (slot : ℕ) : Safe (state.memoGet slot) Sound := by
  refine (safe_orRefuse fun value hvalue => ?_).bind fun value hvalue => safe_ok (h.push hvalue)
  obtain ⟨before, behind, hmemo, -⟩ := List.lookup_eq_some_iff.1 hvalue
  refine h.memo slot value ?_
  rw [hmemo]
  exact List.mem_append_right _ List.mem_cons_self

/-- What an operation asks of the state that it is performed in. -/
def Meets (state : PickleState) : PickleOp → Prop
  | .tupleMark | .appends => MarkFits state
  | .setItem => DictTakes state.heap (state.stack.take (state.stack.length - 2))
      (state.stack.drop (state.stack.length - 2))
  | .setItems => MarkFits state ∧ ∀ mark, state.marks.getLast? = some mark →
      (state.stack.drop mark).length % 2 = 0 →
        DictTakes state.heap (state.stack.take mark) (state.stack.drop mark)
  | .put slot => state.stack ≠ [] → state.memoNext ≤ slot → slot + 1 < 2 ^ 64
  | .memoize => state.stack ≠ [] → state.memoNext + 1 < 2 ^ 64
  | _ => True

/-- A value that is pushed refers to no object. -/
def Plain : PickleOp → Prop
  | .push value => value.rank = 0
  | _ => True

/-- **The step**: an operation that meets its condition does not panic, and it keeps the
invariant. -/
lemma perform_safe (h : Sound state) {op : PickleOp} (hmeets : Meets state op) (hplain : Plain op) :
    Safe (state.perform hash op) Sound := by
  have hnone : ∀ value ∈ ([] : List PickleValue), value.rank ≤ state.heap.length :=
    fun value hvalue => absurd hvalue List.not_mem_nil
  cases op with
  | push value => exact safe_ok (h.push (hplain.trans_le (Nat.zero_le _)))
  | bytes data =>
    have hfits : Fits state.heap (.bytes data) := trivial
    exact safe_ok (h.allocPush hfits rfl)
  | emptyList =>
    have hfits : Fits state.heap (.list []) := trivial
    exact safe_ok (h.allocPush hfits rfl)
  | emptyDict =>
    have hfits : Fits state.heap (.dict []) := rfl
    exact safe_ok (h.allocPush hfits rfl)
  | mark => exact safe_ok (h.take (List.Subset.refl _) _)
  | tuple count =>
    refine (popValues_safe h count hnone).bind ?_
    rintro ⟨values, left⟩ ⟨⟨hleft, hheap, hvalues⟩, -⟩
    rw [← hheap] at hvalues
    exact safe_ok (pushTuple_sound hleft hvalues)
  | tupleMark =>
    refine (splitMark_safe h hmeets).bind ?_
    rintro ⟨values, left⟩ ⟨⟨hleft, hheap, hvalues⟩, -⟩
    rw [← hheap] at hvalues
    exact safe_ok (pushTuple_sound hleft hvalues)
  | append =>
    refine (pop_safe h).bind ?_
    rintro ⟨value, left⟩ ⟨hleft, -⟩
    exact extendList_safe hleft [value]
  | appends =>
    refine (splitMark_safe h hmeets).bind ?_
    rintro ⟨values, left⟩ ⟨⟨hleft, -⟩, -⟩
    exact extendList_safe hleft values
  | setItem =>
    refine (popValues_safe h 2 hnone).bind ?_
    rintro ⟨items, left⟩ ⟨⟨hleft, hheap, -⟩, popped, hlength, hitems, hstack⟩
    refine extendDict_safe hleft ?_
    rw [List.append_nil] at hitems
    have hcount : state.stack.length - 2 = left.stack.length := by
      rw [hstack, List.length_append, hlength, Nat.add_sub_cancel]
    have hmeets' : DictTakes state.heap (state.stack.take (state.stack.length - 2))
      (state.stack.drop (state.stack.length - 2)) := hmeets
    rw [hcount, hstack, List.drop_left, List.take_left] at hmeets'
    rw [hheap, show items = popped from hitems]
    exact hmeets'
  | setItems =>
    refine (splitMark_safe h hmeets.1).bind ?_
    rintro ⟨items, left⟩ ⟨⟨hleft, hheap, -⟩, mark, hmark, hitems, hstack⟩
    refine Safe.ite (fun _ => safe_refuse) fun heven => extendDict_safe hleft ?_
    have hdrop : items = state.stack.drop mark := hitems
    have htake : left.stack = state.stack.take mark := hstack
    rw [hheap, hdrop, htake]
    exact hmeets.2 mark hmark (by rw [← hdrop]; exact not_not.1 heven)
  | put slot =>
    refine (last_safe h).bindOf fun value hlast => ?_
    have hvalue := (last_safe h).2 value hlast
    have hne := stack_ne_nil hlast
    refine Safe.ite (fun hle => ?_) fun _ => safe_ok (h.remember hvalue slot _)
    exact (addOne_safe (hmeets hne hle)).bind fun memoNext _ =>
      safe_ok (h.remember hvalue slot memoNext)
  | get slot => exact memoGet_safe h slot
  | memoize =>
    refine (last_safe h).bindOf fun value hlast => ?_
    have hvalue := (last_safe h).2 value hlast
    exact (addOne_safe (hmeets (stack_ne_nil hlast))).bind fun memoNext _ =>
      safe_ok (h.remember hvalue _ memoNext)
  | stop => exact safe_refuse

end States

/-! ## Opcodes -/

section Opcodes

variable {payload : List UInt8} {idx : ℕ}

lemma slice_returns (count : ℕ) : Returns (slice payload idx count) :=
  Safe.ite (fun _ => safe_ok trivial) fun _ => safe_refuse

lemma readLine_returns : Returns (readLine payload idx) :=
  Safe.ite (fun _ => safe_ok trivial) fun _ => safe_refuse

lemma utf8Text_returns (data : List UInt8) : Returns (utf8Text data) :=
  safe_orRefuse fun _ _ => trivial

lemma readSized_returns (width : ℕ) : Returns (readSized payload width idx) :=
  (slice_returns width).bind fun _ _ => (slice_returns _).bind fun _ _ => safe_ok trivial

lemma readSlot_returns (width : ℕ) : Returns (readSlot payload width idx) :=
  (slice_returns width).bind fun _ _ => safe_ok trivial

lemma readSlotLine_returns : Returns (readSlotLine payload idx) :=
  readLine_returns.bind fun _ _ => (utf8Text_returns _).bind fun _ _ =>
    Safe.bind (safe_orRefuse fun _ _ => trivial) fun (_ : ℕ) (_ : True) => safe_ok trivial

/-- The bytes of a long, unless they are sixteen with a sign. -/
def LongFits (data : List UInt8) : Prop := ¬(data.length = 16 ∧ isNegative data = true)

lemma fastPickleDecodeI64_returns {data : List UInt8} (h : LongFits data) :
    Returns (fastPickleDecodeI64 data) := by
  refine Safe.ite (fun _ => safe_ok trivial) fun _ => Safe.ite (fun _ => safe_refuse) fun _ => ?_
  refine Safe.ite (fun hnegative => ?_) fun _ => safe_orRefuse fun _ _ => trivial
  exact Safe.ite (fun hlength => absurd ⟨hlength, hnegative⟩ h) fun _ =>
    safe_orRefuse fun _ _ => trivial

lemma lineValue_safe (text : String) : Safe (lineValue text) fun value => value.rank = 0 := by
  refine Safe.ite (fun _ => safe_ok rfl) fun _ => Safe.ite (fun _ => safe_ok rfl) fun _ => ?_
  cases parseI64Text text with
  | none => exact safe_refuse
  | some value => exact safe_ok rfl

/-- The long at an index fits, where there is one. -/
def LongsFit (payload : List UInt8) (idx : ℕ) : Prop :=
  ∀ width data behind, payload[idx]? = some 0x8a ∧ width = 1 ∨ payload[idx]? = some 0x8b ∧ width = 4 →
    readSized payload width (idx + 1) = .ok (data, behind) → LongFits data

/-- A part of an operation is read, and the operation is made of it. -/
lemma Safe.fetched {γ : Type} {result : Except PickleStop (γ × ℕ)} (h : Returns result)
    {op : γ → PickleOp} (hplain : ∀ value, Plain (op value)) :
    Safe (result >>= fun part => (.ok (op part.1, part.2) : Except PickleStop (PickleOp × ℕ)))
      fun found => Plain found.1 :=
  h.bind fun part _ => safe_ok (hplain part.1)

lemma readLong_safe {width : ℕ} (hfits : ∀ data behind,
    readSized payload width (idx + 1) = .ok (data, behind) → LongFits data) :
    Safe (do
      let (data, idx) ← readSized payload width (idx + 1)
      return (PickleOp.push (.int (← fastPickleDecodeI64 data)), idx)) fun found =>
        Plain found.1 := by
  refine (readSized_returns width).bindOf ?_
  rintro ⟨data, behind⟩ hread
  exact (fastPickleDecodeI64_returns (hfits data behind hread)).bind fun _ _ => safe_ok rfl

lemma readText_safe (width : ℕ) :
    Safe (do
      let (data, idx) ← readSized payload width (idx + 1)
      return (PickleOp.push (.str (← utf8Text data)), idx)) fun found => Plain found.1 :=
  (readSized_returns width).bind fun _ _ => (utf8Text_returns _).bind fun _ _ => safe_ok rfl

lemma fetch_safe (hlongs : LongsFit payload idx) :
    Safe (fetch payload idx) fun found => Plain found.1 := by
  rw [fetch]
  cases hopcode : payload[idx]? with
  | none => exact safe_refuse
  | some opcode =>
    show Safe (if opcode = ascii 'N' then _ else _) _
    refine Safe.ite (fun _ => safe_ok rfl) fun _ => ?_
    refine Safe.ite (fun _ => safe_ok rfl) fun _ => ?_
    refine Safe.ite (fun _ => safe_ok rfl) fun _ => ?_
    refine Safe.ite (fun _ => ?_) fun _ => ?_
    · exact (safe_orRefuse fun _ _ => trivial).bind fun (_ : UInt8) (_ : True) => safe_ok rfl
    refine Safe.ite (fun _ => (slice_returns 4).bind fun _ _ => safe_ok rfl) fun _ => ?_
    refine Safe.ite (fun _ => ?_) fun _ => ?_
    · exact readLine_returns.bind fun _ _ => (utf8Text_returns _).bind fun _ _ =>
        (lineValue_safe _).bind fun value hvalue => safe_ok hvalue
    refine Safe.ite (fun heq => ?_) fun _ => ?_
    · subst heq
      exact readLong_safe fun data behind => hlongs 1 data behind (.inl ⟨hopcode, rfl⟩)
    refine Safe.ite (fun heq => ?_) fun _ => ?_
    · subst heq
      exact readLong_safe fun data behind => hlongs 4 data behind (.inr ⟨hopcode, rfl⟩)
    refine Safe.ite (fun _ => readText_safe 1) fun _ => ?_
    refine Safe.ite (fun _ => readText_safe 4) fun _ => ?_
    refine Safe.ite (fun _ => (readSized_returns 1).fetched fun _ => trivial) fun _ => ?_
    refine Safe.ite (fun _ => (readSized_returns 4).fetched fun _ => trivial) fun _ => ?_
    iterate 12 refine Safe.ite (fun _ => safe_ok trivial) fun _ => ?_
    refine Safe.ite (fun _ => readSlotLine_returns.fetched fun _ => trivial) fun _ => ?_
    refine Safe.ite (fun _ => readSlotLine_returns.fetched fun _ => trivial) fun _ => ?_
    refine Safe.ite (fun _ => (readSlot_returns 1).fetched fun _ => trivial) fun _ => ?_
    refine Safe.ite (fun _ => (readSlot_returns 4).fetched fun _ => trivial) fun _ => ?_
    refine Safe.ite (fun _ => (readSlot_returns 1).fetched fun _ => trivial) fun _ => ?_
    refine Safe.ite (fun _ => (readSlot_returns 4).fetched fun _ => trivial) fun _ => ?_
    exact Safe.ite (fun _ => safe_ok trivial) fun _ => Safe.ite (fun _ => safe_ok trivial) fun _ =>
      safe_refuse

end Opcodes

/-! ## Runs -/

section Runs

variable {hash : PickleHashInput → UInt64} {payload : List UInt8}

/-- The states of a run over a payload, each with the index of the next opcode. -/
inductive Reaches (hash : PickleHashInput → UInt64) (payload : List UInt8) :
    PickleState → ℕ → Prop
  | start : Reaches hash payload ⟨[], [], [], [], 0⟩ 0
  | step {state next : PickleState} {idx behind : ℕ} {op : PickleOp}
      (path : Reaches hash payload state idx) (hfetch : fetch payload idx = .ok (op, behind))
      (hperform : state.perform hash op = .ok next) : Reaches hash payload next behind

/-- The opcode at an index meets its condition. -/
def OpcodeMeets (payload : List UInt8) (state : PickleState) (idx : ℕ) : Prop :=
  LongsFit payload idx ∧ ∀ op behind, fetch payload idx = .ok (op, behind) → Meets state op

lemma sound_start : Sound ⟨[], [], [], [], 0⟩ where
  ordered id values h := by cases h
  hashed id entries h := by cases h
  stack value h := absurd h List.not_mem_nil
  memo slot value h := absurd h List.not_mem_nil

/-- **The run**: the invariant holds in every state that is reached through such steps. -/
lemma Reaches.sound (hmeets : ∀ state idx, Reaches hash payload state idx →
    OpcodeMeets payload state idx) {state : PickleState} {idx : ℕ}
    (h : Reaches hash payload state idx) : Sound state := by
  induction h with
  | start => exact sound_start
  | step path hfetch hperform ih =>
    obtain ⟨hlongs, hop⟩ := hmeets _ _ path
    have hplain := (fetch_safe hlongs).2 _ hfetch
    exact (perform_safe ih (hop _ _ hfetch) hplain).2 _ hperform

lemma decodeLoop_returns (hmeets : ∀ state idx, Reaches hash payload state idx →
    OpcodeMeets payload state idx) (rounds : ℕ) {state : PickleState} {idx : ℕ}
    (h : Reaches hash payload state idx) : Returns (decodeLoop hash payload rounds state idx) := by
  induction rounds generalizing state idx with
  | zero => exact safe_refuse
  | succ rounds ih =>
    rw [decodeLoop]
    refine Safe.ite (fun _ => ?_) fun _ => safe_refuse
    obtain ⟨hlongs, hop⟩ := hmeets state idx h
    have hsound := h.sound hmeets
    refine (fetch_safe hlongs).bindOf ?_
    rintro ⟨op, behind⟩ hfetch
    have hplain : Plain op := (fetch_safe hlongs).2 _ hfetch
    have hperform : Safe (state.perform hash op) Sound :=
      perform_safe hsound (hop op behind hfetch) hplain
    cases op with
    | stop =>
      refine Safe.ite (fun _ => safe_refuse) fun _ => ?_
      exact (pop_safe hsound).bind fun _ _ => safe_ok trivial
    | _ => exact hperform.bindOf fun next hnext => ih (h.step hfetch hnext)

/-! ## Frames -/

variable {data : List UInt8}

/-- The indices of the frames of a stream and of the opcodes between them, for the protocols that
have frames. -/
inductive PartAt (data : List UInt8) : ℕ → Prop
  | start {protocol : UInt8} {rest : List UInt8} (hdata : data = 0x80 :: protocol :: rest)
      (hlow : 4 ≤ protocol.toNat) (hhigh : protocol.toNat ≤ pickleMaxFastProtocol) : PartAt data 2
  | step {idx next : ℕ} {copied copied' : List UInt8} (path : PartAt data idx)
      (h : copyPart data idx copied = .ok (copied', next)) : PartAt data next

/-- The index behind the frame at an index is one of a machine, where there is a frame. -/
def FrameFits (data : List UInt8) (idx : ℕ) : Prop :=
  data[idx]? = some 0x95 → ∀ length, slice data (idx + 1) 8 = .ok length →
    idx + 9 + fromLeBytes length < 2 ^ 64

lemma copyPart_returns {idx : ℕ} (h : FrameFits data idx) (copied : List UInt8) :
    Returns (copyPart data idx copied) := by
  refine Safe.ite (fun hframe => ?_) fun _ => ?_
  · refine (slice_returns 8).bindOf fun length hlength => ?_
    refine Safe.ite (fun hlarge => absurd (h hframe length hlength) (not_lt.2 hlarge)) fun _ => ?_
    exact (slice_returns _).bind fun _ _ => safe_ok trivial
  · exact Safe.bind (safe_orRefuse fun _ _ => trivial) fun (_ : ℕ) (_ : True) =>
      Safe.ite (fun _ => safe_ok trivial) fun _ => safe_refuse

lemma copyParts_returns (hframes : ∀ idx, PartAt data idx → FrameFits data idx) (rounds : ℕ)
    {idx : ℕ} (h : PartAt data idx) (copied : List UInt8) :
    Returns (copyParts data rounds idx copied) := by
  induction rounds generalizing idx copied with
  | zero => exact safe_refuse
  | succ rounds ih =>
    rw [copyParts]
    refine Safe.ite (fun _ => ?_) fun _ => safe_ok trivial
    refine (copyPart_returns (hframes idx h) copied).bindOf ?_
    rintro ⟨copied', next⟩ hpart
    exact ih (h.step hpart) copied'

lemma streamPayload_returns (hframes : ∀ idx, PartAt data idx → FrameFits data idx) :
    Returns (streamPayload data) := by
  match data, hframes with
  | [], _ => exact safe_refuse
  | [_], _ => exact safe_refuse
  | first :: protocol :: rest, hframes =>
    refine Safe.ite (fun _ => safe_refuse) fun hfirst => Safe.ite (fun _ => safe_refuse)
      fun hprotocol => ?_
    rw [not_not] at hfirst
    subst hfirst
    refine Safe.ite (fun hframed => ?_) fun _ => safe_ok trivial
    exact copyParts_returns hframes _ (.start rfl hframed (by omega)) []

/-- **Unpickling does not panic** where the frames of the stream end at an index of the machine and
each opcode that a run comes to meets its condition. -/
theorem fastPickleDecodeBytes_never_panics
    (hframes : ∀ idx, PartAt data idx → FrameFits data idx)
    (hmeets : ∀ payload, streamPayload data = .ok payload → ∀ state idx,
      Reaches hash payload state idx → OpcodeMeets payload state idx) (cause : PicklePanic) :
    fastPickleDecodeBytes hash data ≠ .error (.panic cause) := by
  have hresult : Returns (fastPickleDecodeBytes hash data) :=
    (streamPayload_returns hframes).bindOf fun payload hpayload =>
      decodeLoop_returns (hmeets payload hpayload) _ .start
  exact hresult.1 cause

end Runs

/-- A mark, the tuple of what is above it, and the end. -/
def markedTuple : List UInt8 := [ascii '(', ascii 't', ascii '.']

lemma markedTuple_reaches {state : PickleState} {idx : ℕ}
    (h : Reaches (fun _ => 0) markedTuple state idx) :
    idx = 0 ∧ state = ⟨[], [], [], [], 0⟩ ∨ idx = 1 ∧ MarkFits state ∨ 2 ≤ idx := by
  induction h with
  | start => exact .inl ⟨rfl, rfl⟩
  | @step state next idx behind op path hfetch hperform ih =>
    rcases ih with ⟨rfl, rfl⟩ | ⟨rfl, -⟩ | hle
    · have hmark : fetch markedTuple 0 = .ok (.mark, 1) := rfl
      cases hmark.symm.trans hfetch
      cases hperform
      refine .inr (.inl ⟨rfl, fun mark hlast => ?_⟩)
      cases hlast
      exact Nat.zero_le _
    · have htuple : fetch markedTuple 1 = .ok (.tupleMark, 2) := rfl
      cases htuple.symm.trans hfetch
      exact .inr (.inr le_rfl)
    · obtain ⟨count, rfl⟩ := Nat.exists_eq_add_of_le' hle
      cases count with
      | zero =>
        have hstop : fetch markedTuple (0 + 2) = .ok (.stop, 3) := rfl
        cases hstop.symm.trans hfetch
        cases hperform
      | succ count => cases hfetch

/-- The empty tuple, by a mark. -/
theorem fastPickleDecodeBytes_never_panics_markedTuple :
    fastPickleDecodeBytes (fun _ => 0) (0x80 :: 3 :: markedTuple) ≠
      .error (.panic .splitOff) := by
  refine fastPickleDecodeBytes_never_panics ?_ ?_ .splitOff
  · intro idx _ hframe
    exact absurd (List.mem_of_getElem? hframe) (by decide)
  · intro payload hpayload state idx hreaches
    cases hpayload
    refine ⟨fun width data behind hlong => ?_, fun op behind hfetch => ?_⟩
    · rcases hlong with ⟨hlong, -⟩ | ⟨hlong, -⟩
      · exact absurd (List.mem_of_getElem? hlong) (by decide)
      · exact absurd (List.mem_of_getElem? hlong) (by decide)
    · rcases markedTuple_reaches hreaches with ⟨rfl, -⟩ | ⟨rfl, hmark⟩ | hle
      · cases hfetch
        exact trivial
      · cases hfetch
        exact hmark
      · obtain ⟨count, rfl⟩ := Nat.exists_eq_add_of_le' hle
        cases count with
        | zero =>
          cases hfetch
          exact trivial
        | succ count => cases hfetch

/-- Two values and a mark, and then a pair of the values: the mark is above the stack. -/
theorem fastPickleDecodeBytes_panics :
    ¬∀ (hash : PickleHashInput → UInt64) (data : List UInt8) (cause : PicklePanic),
      fastPickleDecodeBytes hash data ≠ .error (.panic cause) :=
  fun h => h (fun _ => 0) [0x80, 3, ascii 'N', ascii 'N', ascii '(', 0x86, ascii 't'] .splitOff rfl

end Pyrs.Unpickling
