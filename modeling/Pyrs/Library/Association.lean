import Mathlib.Data.List.Basic

/-!
# Insertion-ordered association lists

An association list over keys that are compared by a Boolean test: a store updates the first entry
with the key in its place or appends one, and a deletion drops the first entry with the key.  Where
the test is an equivalence and no two entries have the same key, an entry is the only one with its
key.
-/

namespace Association

variable {α β : Type}

/-- The value of the first entry with a key. -/
def lookup (same : α → α → Bool) (entries : List (α × β)) (key : α) : Option β :=
  (entries.find? fun entry => same entry.1 key).map Prod.snd

def store (same : α → α → Bool) (key : α) (value : β) : List (α × β) → List (α × β)
  | [] => [(key, value)]
  | entry :: entries =>
    if same entry.1 key then (entry.1, value) :: entries
    else entry :: store same key value entries

def delete (same : α → α → Bool) (key : α) (entries : List (α × β)) : List (α × β) :=
  entries.eraseP fun entry => same entry.1 key

/-- No two entries have the same key. -/
def Distinct (same : α → α → Bool) (entries : List (α × β)) : Prop :=
  entries.Pairwise fun a b => same a.1 b.1 = false

/-- The test is symmetric and transitive. -/
structure Agrees (same : α → α → Bool) : Prop where
  symm : ∀ a b, same a b = true → same b a = true
  trans : ∀ a b c, same a b = true → same b c = true → same a c = true

variable {same : α → α → Bool} {entries : List (α × β)} {key : α}

lemma lookup_eq_none (h : ∀ entry ∈ entries, same entry.1 key = false) :
    lookup same entries key = none := by
  rw [lookup,
    List.find?_eq_none.2 fun entry hentry => by rw [h entry hentry]; exact Bool.false_ne_true]
  rfl

lemma store_eq_append (h : ∀ entry ∈ entries, same entry.1 key = false) (value : β) :
    store same key value entries = entries ++ [(key, value)] := by
  induction entries with
  | nil => rfl
  | cons entry entries ih =>
    have hhead := h entry List.mem_cons_self
    have htail := ih fun other hother => h other (List.mem_cons_of_mem _ hother)
    rw [store, hhead, htail]
    rfl

lemma delete_eq_self (h : ∀ entry ∈ entries, same entry.1 key = false) :
    delete same key entries = entries :=
  List.eraseP_of_forall_not fun entry hentry => by rw [h entry hentry]; exact Bool.false_ne_true

lemma Distinct.tail {entry : α × β} (h : Distinct same (entry :: entries)) :
    Distinct same entries := (List.pairwise_cons.1 h).2

section Agrees

variable (hsame : Agrees same)

include hsame

/-- The entry with a key is the only one. -/
lemma Distinct.unique (h : Distinct same entries) {i j : ℕ} {a b : α × β}
    (hi : entries[i]? = some a) (hj : entries[j]? = some b) (ha : same a.1 key = true)
    (hb : same b.1 key = true) : i = j := by
  have habove : ∀ {i j : ℕ} {a b : α × β}, entries[i]? = some a → entries[j]? = some b →
      same a.1 key = true → same b.1 key = true → ¬i < j := by
    intro i j a b hi hj ha hb hlt
    obtain ⟨hilt, rfl⟩ := List.getElem?_eq_some_iff.1 hi
    obtain ⟨hjlt, rfl⟩ := List.getElem?_eq_some_iff.1 hj
    have hfalse := List.pairwise_iff_getElem.1 h i j hilt hjlt hlt
    have htrue := hsame.trans _ key _ ha (hsame.symm _ _ hb)
    rw [hfalse] at htrue
    cases htrue
  exact Nat.le_antisymm (Nat.le_of_not_lt (habove hj hi hb ha))
    (Nat.le_of_not_lt (habove hi hj ha hb))

/-- Another entry than the one at a position does not have its key. -/
lemma Distinct.head_false {entry : α × β} {i : ℕ} {pair : α × β}
    (h : Distinct same (entry :: entries)) (hi : entries[i]? = some pair)
    (hpair : same pair.1 key = true) : same entry.1 key = false := by
  by_contra htrue
  have heq : (0 : ℕ) = i + 1 :=
    h.unique hsame (i := 0) (j := i + 1) rfl hi (by simpa using htrue) hpair
  omega

lemma find?_eq_some (h : Distinct same entries) {i : ℕ} {pair : α × β}
    (hi : entries[i]? = some pair) (hpair : same pair.1 key = true) :
    (entries.find? fun entry => same entry.1 key) = some pair := by
  induction entries generalizing i with
  | nil => cases hi
  | cons entry entries ih =>
    cases i with
    | zero =>
      obtain rfl := Option.some.inj hi
      rw [List.find?_cons, hpair]
    | succ i =>
      have hhead := h.head_false hsame hi hpair
      have htail := ih h.tail hi
      rw [List.find?_cons, hhead]
      exact htail

lemma lookup_eq_some (h : Distinct same entries) {i : ℕ} {pair : α × β}
    (hi : entries[i]? = some pair) (hpair : same pair.1 key = true) :
    lookup same entries key = some pair.2 := by
  rw [lookup, find?_eq_some hsame h hi hpair]
  rfl

lemma store_eq_set (h : Distinct same entries) {i : ℕ} {pair : α × β}
    (hi : entries[i]? = some pair) (hpair : same pair.1 key = true) (value : β) :
    store same key value entries = entries.set i (pair.1, value) := by
  induction entries generalizing i with
  | nil => cases hi
  | cons entry entries ih =>
    cases i with
    | zero =>
      obtain rfl := Option.some.inj hi
      rw [store, if_pos hpair]
      rfl
    | succ i =>
      have hhead := h.head_false hsame hi hpair
      have htail := ih h.tail hi
      rw [store, hhead, htail]
      rfl

lemma delete_eq_eraseIdx (h : Distinct same entries) {i : ℕ} {pair : α × β}
    (hi : entries[i]? = some pair) (hpair : same pair.1 key = true) :
    delete same key entries = entries.eraseIdx i := by
  induction entries generalizing i with
  | nil => cases hi
  | cons entry entries ih =>
    cases i with
    | zero =>
      obtain rfl := Option.some.inj hi
      exact List.eraseP_cons_of_pos hpair
    | succ i =>
      have hhead := h.head_false hsame hi hpair
      have htail := ih h.tail hi
      rw [delete, List.eraseP_cons_of_neg (by rw [hhead]; exact Bool.false_ne_true)]
      rw [delete] at htail
      rw [htail]
      rfl

end Agrees

/-- Where no entry has the key of a new one, it can be appended. -/
lemma Distinct.append (h : Distinct same entries)
    (hnew : ∀ entry ∈ entries, same entry.1 key = false)
    (value : β) : Distinct same (entries ++ [(key, value)]) := by
  refine List.pairwise_append.2
    ⟨h, List.pairwise_singleton _ _, fun entry hentry other hother => ?_⟩
  rw [List.mem_singleton.1 hother]
  exact hnew entry hentry

/-- Entries with the same keys are as distinct. -/
lemma Distinct.of_map_fst (h : Distinct same entries) {others : List (α × β)}
    (hkeys : others.map Prod.fst = entries.map Prod.fst) : Distinct same others := by
  have hiff : ∀ list : List (α × β), Distinct same list ↔
      (list.map Prod.fst).Pairwise fun a b => same a b = false :=
    fun list => by rw [List.pairwise_map]; rfl
  rw [hiff, hkeys, ← hiff]
  exact h

lemma map_fst_set {i : ℕ} {pair : α × β} (hi : entries[i]? = some pair) (value : β) :
    (entries.set i (pair.1, value)).map Prod.fst = entries.map Prod.fst := by
  refine List.ext_getElem? fun j => ?_
  rw [List.getElem?_map, List.getElem?_map, List.getElem?_set]
  have hlt := (List.getElem?_eq_some_iff.1 hi).1
  by_cases heq : i = j
  · subst heq
    rw [if_pos rfl, if_pos hlt, hi]
    rfl
  · rw [if_neg heq]

end Association
