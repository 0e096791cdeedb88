import Mathlib.Logic.Relation

/-!
# Reachability

What a list of roots leads to, where every item has a list of children.
-/

namespace Reachability

variable {α : Type*}

/-- The items that the roots lead to. -/
inductive Reaches (children : α → List α) (roots : List α) : α → Prop
  | root (item : α) (h : item ∈ roots) : Reaches children roots item
  | child (item next : α) (hitem : Reaches children roots item) (h : next ∈ children item) :
      Reaches children roots next

namespace Reaches

variable {children : α → List α} {roots : List α} {item next : α}

/-- A property of the roots that passes to children holds of everything that is reached. -/
lemma of_closed {p : α → Prop} (hroots : ∀ item ∈ roots, p item)
    (hclosed : ∀ item, Reaches children roots item → p item → ∀ next ∈ children item, p next)
    (h : Reaches children roots item) : p item := by
  induction h with
  | root item hitem => exact hroots item hitem
  | child item next hreached hnext ih => exact hclosed item hreached ih next hnext

/-- What a reached item leads to is reached. -/
lemma trans (h : Reaches children roots item) (hnext : Reaches children [item] next) :
    Reaches children roots next := by
  induction hnext with
  | root other hother =>
    obtain rfl := List.mem_singleton.1 hother
    exact h
  | child other next _ hnext ih => exact .child _ _ ih hnext

/-- A child leads to nothing that its parent does not lead to. -/
lemma of_child (hitem : next ∈ children item) {other : α} (h : Reaches children [next] other) :
    Reaches children [item] other :=
  .trans (.child _ _ (.root _ (List.mem_singleton_self _)) hitem) h

/-- Children that are reached by others are no more than these reach. -/
lemma of_children {others : α → List α} (h : Reaches children roots item)
    (hchild : ∀ item, ∀ next ∈ children item, Reaches others [item] next) :
    Reaches others roots item := by
  induction h with
  | root item hitem => exact .root item hitem
  | child item next _ hnext ih => exact ih.trans (hchild item next hnext)

/-- More roots lead to more. -/
lemma mono {others : List α} (hroots : roots ⊆ others) (h : Reaches children roots item) :
    Reaches children others item :=
  h.of_closed (fun item hitem => .root item (hroots hitem))
    fun item _ hitem next hnext => .child item next hitem hnext

/-- Children that are the same for all that is reached reach the same. -/
lemma congr {others : α → List α}
    (heq : ∀ item, Reaches children roots item → others item = children item) :
    Reaches others roots item ↔ Reaches children roots item := by
  constructor <;> intro h
  · refine h.of_closed .root fun item _ hitem next hnext => ?_
    rw [heq item hitem] at hnext
    exact .child item next hitem hnext
  · induction h with
    | root item hitem => exact .root item hitem
    | child item next hitem hnext ih =>
      rw [← heq item hitem] at hnext
      exact .child item next ih hnext

end Reaches

end Reachability
