import Mathlib.Data.List.Basic

/-!
# Tables of parents

A table leads from a key to its parent.  Where the parent of every entry is a root or the key of an
entry before it, every key stands behind its parent.  So no way up comes back to a key, and what the
roots have and a parent hands on is what every key has.
-/

namespace ParentTable

variable {α : Type}

/-- Every entry leads from its key to a root or to the key of an entry before it. -/
def Grounded : List α → List (α × α) → Prop
  | _, [] => True
  | roots, entry :: table => entry.2 ∈ roots ∧ Grounded (roots ++ [entry.1]) table

instance Grounded.decidable [DecidableEq α] (roots : List α) (table : List (α × α)) :
    Decidable (Grounded roots table) :=
  match table with
  | [] => isTrue trivial
  | entry :: table =>
    have := Grounded.decidable (roots ++ [entry.1]) table
    inferInstanceAs (Decidable (entry.2 ∈ roots ∧ Grounded (roots ++ [entry.1]) table))

variable {roots : List α} {table : List (α × α)}

lemma Grounded.mem_of_append {before after : List (α × α)} {entry : α × α}
    (h : Grounded roots (before ++ entry :: after)) :
    entry.2 ∈ roots ++ before.map Prod.fst := by
  induction before generalizing roots with
  | nil => exact List.mem_append_left _ h.1
  | cons first before ih =>
    have hmem := ih h.2
    rwa [List.append_assoc, List.singleton_append] at hmem

lemma Grounded.parent_mem (h : Grounded roots table) {parent : α}
    (hparent : parent ∈ table.map Prod.snd) : parent ∈ roots ++ table.map Prod.fst := by
  obtain ⟨entry, hentry, rfl⟩ := List.mem_map.1 hparent
  obtain ⟨before, after, rfl⟩ := List.append_of_mem hentry
  rw [List.map_append, ← List.append_assoc]
  exact List.mem_append_left _ h.mem_of_append

variable [BEq α] [LawfulBEq α]

/-- Where a key stands, behind the roots. -/
def rank (roots : List α) (table : List (α × α)) (key : α) : ℕ :=
  (roots ++ table.map Prod.fst).idxOf key

lemma rank_lt_length {key : α} (h : key ∈ table.map Prod.fst) :
    rank roots table key < roots.length + table.length := by
  have hlt := List.idxOf_lt_length_of_mem (List.mem_append_right roots h)
  rwa [List.length_append, List.length_map] at hlt

lemma Grounded.rank_lt (h : Grounded roots table) {key parent : α} (hkey : key ∉ roots)
    (hlookup : table.lookup key = some parent) :
    rank roots table parent < rank roots table key := by
  obtain ⟨before, after, rfl, hbefore⟩ := List.lookup_eq_some_iff.1 hlookup
  have hparent := h.mem_of_append
  have hfirst : key ∉ roots ++ before.map Prod.fst := by
    intro hmem
    obtain hmem | hmem := List.mem_append.1 hmem
    · exact hkey hmem
    · obtain ⟨entry, hentry, rfl⟩ := List.mem_map.1 hmem
      simpa using hbefore entry hentry
  rw [rank, rank, List.map_append, ← List.append_assoc, List.idxOf_append_of_mem hparent,
    List.idxOf_append_of_notMem hfirst]
  exact Nat.lt_add_right _ (List.idxOf_lt_length_of_mem hparent)

/-- What holds of the roots, and of a key where it holds of its parent, holds of every key. -/
lemma Grounded.induction (h : Grounded roots table) {P : α → Prop}
    (hroots : ∀ root ∈ roots, P root)
    (hstep : ∀ key parent, table.lookup key = some parent → P parent → P key) {key : α}
    (hkey : key ∈ roots ++ table.map Prod.fst) : P key := by
  induction hrank : rank roots table key using Nat.strongRecOn generalizing key with
  | _ n ih =>
    by_cases hroot : key ∈ roots
    · exact hroots key hroot
    · cases hlookup : table.lookup key with
      | none =>
        obtain ⟨entry, hentry, rfl⟩ := List.mem_map.1 ((List.mem_append.1 hkey).resolve_left hroot)
        simpa using List.lookup_eq_none_iff.1 hlookup entry hentry
      | some parent =>
        obtain ⟨before, after, hsplit, -⟩ := List.lookup_eq_some_iff.1 hlookup
        have hparent : parent ∈ table.map Prod.snd := by
          rw [hsplit]
          simp
        exact hstep key parent hlookup
          (ih _ (hrank ▸ h.rank_lt hroot hlookup) (h.parent_mem hparent) rfl)

end ParentTable
