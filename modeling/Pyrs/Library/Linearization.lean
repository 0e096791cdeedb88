import Mathlib.Algebra.GroupWithZero.Nat
import Mathlib.Algebra.Order.BigOperators.Group.List
import Mathlib.Algebra.Order.Group.Nat
import Mathlib.Data.List.Lemmas
import Mathlib.Data.List.Nodup

/-!
# C3 linearization

The merge of the C3 linearization: take, as often as possible, the head of the first sequence whose
head stands in the tail of no sequence, and remove it from the front of every sequence.  The merge
exists when this empties all sequences.
-/

namespace C3

variable {α : Type}

/-- An entry that stands in the tail of no sequence. -/
def Free (seqs : List (List α)) (entry : α) : Prop :=
  ∀ seq ∈ seqs, entry ∉ seq.tail

/-- The head of the first sequence whose head is free. -/
inductive Next : List (List α) → List (List α) → α → Prop
  | head {all seqs : List (List α)} {entry : α} {rest : List α} (h : Free all entry) :
      Next all ((entry :: rest) :: seqs) entry
  | empty {all seqs : List (List α)} {entry : α} (h : Next all seqs entry) :
      Next all ([] :: seqs) entry
  | blocked {all seqs : List (List α)} {entry first : α} {rest : List α} (hfirst : ¬ Free all first)
      (h : Next all seqs entry) : Next all ((first :: rest) :: seqs) entry

/-- Remove an entry from the front of a sequence. -/
def dropFront [DecidableEq α] (entry : α) (seq : List α) : List α :=
  if seq.head? = some entry then seq.tail else seq

/-- The merge of sequences. -/
inductive Merges [DecidableEq α] : List (List α) → List α → Prop
  | nil {seqs : List (List α)} (h : ∀ seq ∈ seqs, seq = []) : Merges seqs []
  | cons {seqs : List (List α)} {entry : α} {merged : List α} (hnext : Next seqs seqs entry)
      (h : Merges (seqs.map (dropFront entry)) merged) : Merges seqs (entry :: merged)

lemma Next.free {all seqs : List (List α)} {entry : α} (h : Next all seqs entry) :
    Free all entry := by
  induction h with
  | head h => exact h
  | empty _ ih => exact ih
  | blocked _ _ ih => exact ih

lemma Next.exists_mem {all seqs : List (List α)} {entry : α} (h : Next all seqs entry) :
    ∃ rest, entry :: rest ∈ seqs := by
  induction h with
  | head _ => exact ⟨_, List.mem_cons_self⟩
  | empty _ ih => exact ih.imp fun _ => List.mem_cons_of_mem _
  | blocked _ _ ih => exact ih.imp fun _ => List.mem_cons_of_mem _

lemma Next.unique {all seqs : List (List α)} {entry entry' : α} (h : Next all seqs entry)
    (h' : Next all seqs entry') : entry = entry' := by
  induction h with
  | head h =>
    cases h' with
    | head _ => rfl
    | blocked hfirst _ => exact absurd h hfirst
  | empty _ ih =>
    cases h' with
    | empty h' => exact ih h'
  | blocked hfirst _ ih =>
    cases h' with
    | head h' => exact absurd h' hfirst
    | blocked _ h' => exact ih h'

variable [DecidableEq α] {seqs : List (List α)} {merged : List α}

@[simp]
lemma dropFront_nil (entry : α) : dropFront entry [] = [] := by
  simp [dropFront]

@[simp]
lemma dropFront_self (entry : α) (rest : List α) : dropFront entry (entry :: rest) = rest := by
  simp [dropFront]

lemma dropFront_of_ne {entry first : α} (h : first ≠ entry) (rest : List α) :
    dropFront entry (first :: rest) = first :: rest := by
  simp [dropFront, h]

lemma mem_of_mem_dropFront {entry other : α} {seq : List α} (h : other ∈ dropFront entry seq) :
    other ∈ seq := by
  unfold dropFront at h
  split_ifs at h
  · exact List.mem_of_mem_tail h
  · exact h

lemma Free.notMem_dropFront {entry : α} (h : Free seqs entry) :
    ∀ seq ∈ seqs.map (dropFront entry), entry ∉ seq := by
  intro dropped hdropped
  obtain ⟨seq, hseq, rfl⟩ := List.mem_map.1 hdropped
  have htail := h seq hseq
  cases seq with
  | nil => simp
  | cons first rest =>
    by_cases hfirst : first = entry
    · subst hfirst
      simpa using htail
    · rw [dropFront_of_ne hfirst, List.mem_cons]
      rintro (rfl | hmem)
      · exact hfirst rfl
      · exact htail hmem

/-- The merge holds entries of the sequences only. -/
lemma Merges.exists_mem (h : Merges seqs merged) : ∀ entry ∈ merged, ∃ seq ∈ seqs, entry ∈ seq := by
  induction h with
  | nil => simp
  | cons hnext _ ih =>
    intro entry hentry
    rcases List.mem_cons.1 hentry with rfl | hentry
    · obtain ⟨rest, hrest⟩ := hnext.exists_mem
      exact ⟨_, hrest, List.mem_cons_self⟩
    · obtain ⟨dropped, hdropped, hmem⟩ := ih entry hentry
      obtain ⟨seq, hseq, rfl⟩ := List.mem_map.1 hdropped
      exact ⟨seq, hseq, mem_of_mem_dropFront hmem⟩

/-- The merge keeps the order of each sequence. -/
lemma Merges.sublist (h : Merges seqs merged) : ∀ seq ∈ seqs, seq.Sublist merged := by
  induction h with
  | nil h =>
    intro seq hseq
    rw [h seq hseq]
  | @cons seqs next merged _ _ ih =>
    intro seq hseq
    have hdropped := ih _ (List.mem_map_of_mem hseq)
    unfold dropFront at hdropped
    split_ifs at hdropped with hhead
    · obtain ⟨rest, rfl⟩ := List.head?_eq_some_iff.1 hhead
      exact hdropped.cons_cons next
    · exact hdropped.cons next

/-- The merge holds all entries of the sequences. -/
lemma Merges.mem (h : Merges seqs merged) (seq : List α) (hseq : seq ∈ seqs) (entry : α)
    (hentry : entry ∈ seq) : entry ∈ merged :=
  (h.sublist seq hseq).subset hentry

/-- No entry comes twice in a merge. -/
lemma Merges.nodup (h : Merges seqs merged) : merged.Nodup := by
  induction h with
  | nil => exact List.nodup_nil
  | cons hnext h ih =>
    refine List.nodup_cons.2 ⟨fun hmem => ?_, ih⟩
    obtain ⟨seq, hseq, hentry⟩ := h.exists_mem _ hmem
    exact hnext.free.notMem_dropFront seq hseq hentry

/-- Sequences have one merge at most. -/
lemma Merges.unique {merged' : List α} (h : Merges seqs merged) (h' : Merges seqs merged') :
    merged = merged' := by
  induction h generalizing merged' with
  | nil h =>
    cases h' with
    | nil _ => rfl
    | cons hnext _ =>
      obtain ⟨rest, hrest⟩ := hnext.exists_mem
      cases h _ hrest
  | cons hnext _ ih =>
    cases h' with
    | nil h' =>
      obtain ⟨rest, hrest⟩ := hnext.exists_mem
      cases h' _ hrest
    | cons hnext' h' =>
      obtain rfl := hnext.unique hnext'
      rw [ih h']

/-! ## Empty sequences -/

section Filter

omit [DecidableEq α]

lemma free_filter {entry : α} : Free (seqs.filter (· ≠ [])) entry ↔ Free seqs entry := by
  refine ⟨fun h seq hseq => ?_, fun h seq hseq => h seq (List.mem_filter.1 hseq).1⟩
  by_cases hnil : seq = []
  · simp [hnil]
  · exact h seq (List.mem_filter.2 ⟨hseq, by simpa using hnil⟩)

lemma Next.congr {all all' : List (List α)} {entry : α}
    (hfree : ∀ other, Free all other ↔ Free all' other) (h : Next all seqs entry) :
    Next all' seqs entry := by
  induction h with
  | head h => exact .head ((hfree _).1 h)
  | empty _ ih => exact .empty ih
  | blocked hfirst _ ih => exact .blocked (fun h => hfirst ((hfree _).2 h)) ih

lemma next_filter {all : List (List α)} {entry : α} :
    Next all (seqs.filter (· ≠ [])) entry ↔ Next all seqs entry := by
  induction seqs with
  | nil => rfl
  | cons seq seqs ih =>
    cases seq with
    | nil =>
      rw [List.filter_cons_of_neg (by simp), ih]
      exact ⟨.empty, fun h => by cases h; assumption⟩
    | cons first rest =>
      rw [List.filter_cons_of_pos (by simp)]
      constructor
      · intro h
        cases h with
        | head h => exact .head h
        | blocked hfirst h => exact .blocked hfirst (ih.1 h)
      · intro h
        cases h with
        | head h => exact .head h
        | blocked hfirst h => exact .blocked hfirst (ih.2 h)

lemma next_filter_filter {entry : α} :
    Next (seqs.filter (· ≠ [])) (seqs.filter (· ≠ [])) entry ↔ Next seqs seqs entry := by
  rw [next_filter]
  exact ⟨.congr fun _ => free_filter, .congr fun _ => free_filter.symm⟩

end Filter

lemma filter_map_dropFront (entry : α) (seqs : List (List α)) :
    (seqs.map (dropFront entry)).filter (· ≠ []) =
      ((seqs.filter (· ≠ [])).map (dropFront entry)).filter (· ≠ []) := by
  induction seqs with
  | nil => rfl
  | cons seq seqs ih =>
    cases seq with
    | nil => simpa using ih
    | cons first rest =>
      rw [List.filter_cons_of_pos (by simp), List.map_cons, List.map_cons, List.filter_cons,
        List.filter_cons, ih]

lemma Merges.congr {seqs' : List (List α)} (h : Merges seqs merged)
    (heq : seqs.filter (· ≠ []) = seqs'.filter (· ≠ [])) : Merges seqs' merged := by
  induction h generalizing seqs' with
  | nil h =>
    refine .nil fun seq hseq => ?_
    by_contra hne
    have hmem := heq ▸ List.mem_filter.2 ⟨hseq, by simpa using hne⟩
    exact hne (h seq (List.mem_filter.1 hmem).1)
  | cons hnext _ ih =>
    refine .cons (next_filter_filter.1 (heq ▸ next_filter_filter.2 hnext)) (ih ?_)
    rw [filter_map_dropFront, heq, ← filter_map_dropFront]

/-- Empty sequences add nothing to a merge. -/
lemma merges_filter : Merges (seqs.filter (· ≠ [])) merged ↔ Merges seqs merged :=
  ⟨fun h => h.congr (by simp), fun h => h.congr (by simp)⟩

omit [DecidableEq α] in
/-- The first head that is free, by search. -/
lemma next_iff_find? {all : List (List α)} {entry : α} (p : α → Bool)
    (hp : ∀ other, p other = true ↔ Free all other) :
    Next all seqs entry ↔ (seqs.filterMap List.head?).find? p = some entry := by
  induction seqs with
  | nil => exact ⟨nofun, nofun⟩
  | cons seq seqs ih =>
    cases seq with
    | nil =>
      rw [List.filterMap_cons_none List.head?_nil, ← ih]
      exact ⟨fun h => by cases h; assumption, .empty⟩
    | cons first rest =>
      rw [List.filterMap_cons_some (show (first :: rest).head? = some first from rfl),
        List.find?_cons]
      cases hfirst : p first with
      | true =>
        have hfree := (hp first).1 hfirst
        constructor
        · intro h
          cases h with
          | head _ => rfl
          | blocked hnot _ => exact absurd hfree hnot
        · intro h
          obtain rfl := Option.some.inj h
          exact .head hfree
      | false =>
        have hnot : ¬ Free all first := fun h => by simp [(hp first).2 h] at hfirst
        dsimp only
        rw [← ih]
        constructor
        · intro h
          cases h with
          | head h => exact absurd h hnot
          | blocked _ h => exact h
        · exact .blocked hnot

lemma Next.length_lt {entry : α} (h : Next seqs seqs entry) :
    ((seqs.map (dropFront entry)).map List.length).sum < (seqs.map List.length).sum := by
  obtain ⟨rest, hrest⟩ := h.exists_mem
  have hle : ∀ seq : List α, (dropFront entry seq).length ≤ seq.length := fun seq => by
    unfold dropFront
    split_ifs
    · simp
    · exact le_rfl
  rw [List.map_map]
  exact List.sum_lt_sum _ _ (fun seq _ => hle seq) ⟨_, hrest, by simp⟩

end C3
