import Mathlib.Data.List.Basic

/-!
# Sequences in which every element determines the next

`Chain succ first items` is the finite sequence that begins with `first` and goes on with `succ` of
the element before, up to the `none` that ends it.
-/

namespace Pyrs

variable {β : Type}

inductive Chain (succ : β → Option β) : Option β → List β → Prop
  | nil : Chain succ none []
  | cons {item : β} {items : List β} (rest : Chain succ (succ item) items) :
      Chain succ (some item) (item :: items)

namespace Chain

variable {succ other : β → Option β} {first : Option β} {items : List β}

/-- A measure that every successor lowers ends the sequence. -/
lemma exists_of_measure (measure : β → ℕ)
    (hlower : ∀ item next, succ item = some next → measure next < measure item)
    (first : Option β) : ∃ items, Chain succ first items := by
  have hfrom : ∀ bound item, measure item < bound → ∃ items, Chain succ (some item) items := by
    intro bound
    induction bound with
    | zero =>
      intro item hitem
      exact absurd hitem (Nat.not_lt_zero _)
    | succ bound ih =>
      intro item hitem
      cases hsucc : succ item with
      | none => exact ⟨[item], .cons (hsucc ▸ .nil)⟩
      | some next =>
        have hnext : measure next < measure item := hlower item next hsucc
        obtain ⟨items, hitems⟩ := ih next (by omega)
        exact ⟨item :: items, .cons (hsucc ▸ hitems)⟩
  cases first with
  | none => exact ⟨[], .nil⟩
  | some item => exact hfrom _ item (Nat.lt_succ_self _)

/-- A property of the first element that successors keep holds of every element. -/
lemma forall_mem {p : β → Prop} (h : Chain succ first items) (hfirst : ∀ item ∈ first, p item)
    (hkeep : ∀ item next, p item → succ item = some next → p next) : ∀ item ∈ items, p item := by
  induction h with
  | nil => simp
  | @cons item items _ ih =>
    have hitem : p item := hfirst item rfl
    intro member hmember
    obtain rfl | hmember := List.mem_cons.1 hmember
    · exact hitem
    · exact ih (fun next hnext => hkeep item next hitem hnext) member hmember

end Chain

end Pyrs
