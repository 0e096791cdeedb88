import Mathlib.Data.List.Basic

/-!
# Undo logs

A value with a log of what takes its changes back, the latest change first.  A checkpoint is the
length of the log.
-/

variable {σ υ : Type*}

/-- A value and what takes its changes back. -/
structure Logged (σ υ : Type*) where
  value : σ
  undo : List υ

namespace Logged

variable (revert : υ → σ → σ)

/-- Takes changes back until the log is as short as the checkpoint. -/
def unwind (checkpoint : ℕ) : σ → List υ → Logged σ υ
  | value, [] => ⟨value, []⟩
  | value, entry :: undo =>
    if undo.length < checkpoint then ⟨value, entry :: undo⟩
    else unwind checkpoint (revert entry value) undo

/-- The second value came from the first one by changes that its log takes back. -/
def Extends (before after : Logged σ υ) : Prop :=
  ∃ changes, after.undo = changes ++ before.undo ∧
    changes.foldl (fun value entry => revert entry value) after.value = before.value

variable {revert} {before middle after : Logged σ υ}

lemma Extends.refl (logged : Logged σ υ) : Extends revert logged logged := ⟨[], rfl, rfl⟩

lemma Extends.trans (h : Extends revert before middle) (h' : Extends revert middle after) :
    Extends revert before after := by
  obtain ⟨changes, hundo, hvalue⟩ := h
  obtain ⟨changes', hundo', hvalue'⟩ := h'
  exact ⟨changes' ++ changes, by rw [hundo', hundo, List.append_assoc],
    by rw [List.foldl_append, hvalue', hvalue]⟩

lemma unwind_append (value : σ) (changes undo : List υ) :
    unwind revert undo.length value (changes ++ undo) =
      ⟨changes.foldl (fun value entry => revert entry value) value, undo⟩ := by
  induction changes generalizing value with
  | nil =>
    cases undo with
    | nil => rfl
    | cons entry undo =>
      rw [List.nil_append, unwind, if_pos (by simp)]
      rfl
  | cons entry changes ih =>
    rw [List.cons_append, unwind, if_neg (by simp), ih]
    rfl

/-- Going back to a checkpoint from what came after it restores the value it was taken of. -/
lemma Extends.unwind_eq (h : Extends revert before after) :
    unwind revert before.undo.length after.value after.undo = before := by
  obtain ⟨changes, hundo, hvalue⟩ := h
  rw [hundo, unwind_append, hvalue]

/-- A value with as short a log has not changed. -/
lemma Extends.eq_of_length (h : Extends revert before after)
    (hlength : after.undo.length = before.undo.length) : after = before := by
  obtain ⟨changes, hundo, hvalue⟩ := h
  obtain rfl : changes = [] := by
    rw [hundo, List.length_append] at hlength
    exact List.length_eq_zero_iff.1 (by omega)
  obtain ⟨value, undo⟩ := after
  obtain ⟨value', undo'⟩ := before
  obtain rfl : undo = undo' := hundo
  obtain rfl : value = value' := hvalue
  rfl

lemma Extends.change {entry : υ} {value : σ} (h : revert entry value = before.value) :
    Extends revert before ⟨value, entry :: before.undo⟩ := ⟨[entry], rfl, h⟩

end Logged
