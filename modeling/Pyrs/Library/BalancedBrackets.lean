import Mathlib.Data.List.Count
import Mathlib.Data.List.Infix

/-!
# Balanced brackets

Texts whose brackets of one kind are balanced, and what closes a number of open brackets.
-/

namespace Brackets

variable {α : Type}

lemma forall_prefix_cons {P : List α → Prop} {a : α} {text : List α} :
    (∀ initial, initial <+: a :: text → P initial) ↔
      P [] ∧ ∀ initial, initial <+: text → P (a :: initial) := by
  constructor
  · intro h
    exact ⟨h [] List.nil_prefix, fun initial hinitial => h _ ((List.prefix_cons_inj a).2 hinitial)⟩
  · rintro ⟨hnil, hcons⟩ initial hinitial
    rcases List.prefix_cons_iff.1 hinitial with rfl | ⟨rest, rfl, hrest⟩
    · exact hnil
    · exact hcons rest hrest

variable [DecidableEq α] {opening closing : α} {depth : ℕ} {text : List α} {a : α}

/-- No prefix closes more brackets than it opens, and the whole text closes as many. -/
structure Balanced (opening closing : α) (text : List α) : Prop where
  prefixes : ∀ initial, initial <+: text → initial.count closing ≤ initial.count opening
  total : text.count opening = text.count closing

/-- With so many brackets open, all but one are closed and none of the others is in between. -/
structure Closes (opening closing : α) (depth : ℕ) (text : List α) : Prop where
  prefixes : ∀ initial, initial <+: text → initial.count closing < depth + initial.count opening
  total : depth + text.count opening = text.count closing + 1

lemma balanced_iff_closes : Balanced opening closing text ↔ Closes opening closing 1 text := by
  constructor
  · rintro ⟨hprefixes, htotal⟩
    refine ⟨fun initial hinitial => ?_, by omega⟩
    have := hprefixes initial hinitial
    omega
  · rintro ⟨hprefixes, htotal⟩
    refine ⟨fun initial hinitial => ?_, by omega⟩
    have := hprefixes initial hinitial
    omega

lemma Closes.pos (h : Closes opening closing depth text) : 0 < depth := by
  simpa using h.prefixes [] List.nil_prefix

lemma closes_nil : Closes opening closing depth [] ↔ depth = 1 := by
  constructor
  · rintro ⟨-, htotal⟩
    simpa using htotal
  · rintro rfl
    exact ⟨fun initial hinitial => by rw [List.prefix_nil.1 hinitial]; simp, by simp⟩

/-- A character in front changes how many brackets are open. -/
lemma closes_cons {next : ℕ} (hdepth : 0 < next → 0 < depth)
    (hcounts : ∀ initial : List α, depth + (a :: initial).count opening + initial.count closing =
      next + initial.count opening + (a :: initial).count closing) :
    Closes opening closing depth (a :: text) ↔ Closes opening closing next text := by
  constructor
  · rintro ⟨hprefixes, htotal⟩
    obtain ⟨-, hprefixes⟩ := forall_prefix_cons.1 hprefixes
    refine ⟨fun initial hinitial => ?_, ?_⟩
    · have hcount := hcounts initial
      have hopen := hprefixes initial hinitial
      omega
    · have hcount := hcounts text
      omega
  · intro h
    refine ⟨forall_prefix_cons.2 ⟨by simpa using hdepth h.pos, fun initial hinitial => ?_⟩, ?_⟩
    · have hcount := hcounts initial
      have hopen := h.prefixes initial hinitial
      omega
    · have hcount := hcounts text
      have htotal := h.total
      omega

lemma closes_opening (hne : opening ≠ closing) (hdepth : 0 < depth) :
    Closes opening closing depth (opening :: text) ↔ Closes opening closing (depth + 1) text := by
  refine closes_cons (fun _ => hdepth) fun initial => ?_
  rw [List.count_cons_self, List.count_cons_of_ne hne]
  omega

lemma closes_closing (hne : opening ≠ closing) :
    Closes opening closing (depth + 1) (closing :: text) ↔ Closes opening closing depth text := by
  refine closes_cons (fun _ => Nat.succ_pos depth) fun initial => ?_
  rw [List.count_cons_self, List.count_cons_of_ne hne.symm]
  omega

lemma not_closes_closing (hne : opening ≠ closing) : ¬ Closes opening closing 1 (closing :: text) :=
  fun h => absurd ((closes_closing hne).1 h).pos (lt_irrefl 0)

lemma closes_other (hopening : a ≠ opening) (hclosing : a ≠ closing) :
    Closes opening closing depth (a :: text) ↔ Closes opening closing depth text := by
  refine closes_cons id fun initial => ?_
  rw [List.count_cons_of_ne hopening, List.count_cons_of_ne hclosing]

end Brackets
