import Pyrs.Library.Reachability
import Pyrs.Model.Collector

/-!
# What a collection keeps

The objects that are marked are the ones that traced references lead to.  They are all the objects
that owned references lead to if and only if each reference that is owned and not traced leads to
objects that traced references lead to as well.
-/

namespace Pyrs

namespace Gc

open Reachability

variable {Ref : Type}

namespace Heap

/-- What the collector goes on to from an item. -/
def tracedChildren (heap : Heap Ref) : Item Ref → List (Item Ref)
  | .objRef obj => heap.tracedObjectChildren (heap.object obj)
  | .value (.code code) => (heap.code code).constants.map .value
  | .value value => value.object.toList.map .objRef

/-- The roots lead to an item through owned references. -/
def Owned (heap : Heap Ref) (roots : List (Value Ref)) : Item Ref → Prop :=
  Reaches heap.ownedChildren (roots.map .value)

/-- The roots lead to an item through traced references. -/
def Traced (heap : Heap Ref) (roots : List (Value Ref)) : Item Ref → Prop :=
  Reaches heap.tracedChildren (roots.map .value)

/-! ## Tracing -/

/-- An item has been traced: its object is marked or on the stack. -/
def Covered (heap : Heap Ref) (marked : Finset UInt64) (trace : Trace Ref) : Item Ref → Prop
  | .objRef obj => heap.id obj ∈ marked ∨ obj ∈ trace.stack
  | .value (.code code) => code ∈ trace.codePtrs
  | .value value => ∀ obj, value.object = some obj → heap.id obj ∈ marked ∨ obj ∈ trace.stack

lemma tracedChildren_value (heap : Heap Ref) {value : Value Ref} (h : ∀ code, value ≠ .code code) :
    heap.tracedChildren (.value value) = value.object.toList.map .objRef := by
  cases value with
  | code code => exact (h code rfl).elim
  | _ => rfl

lemma covered_value_iff (heap : Heap Ref) {marked : Finset UInt64} {trace : Trace Ref}
    {value : Value Ref} (h : ∀ code, value ≠ .code code) :
    heap.Covered marked trace (.value value) ↔
      ∀ obj, value.object = some obj → heap.id obj ∈ marked ∨ obj ∈ trace.stack := by
  cases value with
  | code code => exact (h code rfl).elim
  | _ => exact Iff.rfl

lemma Covered.mono {heap : Heap Ref} {marked marked' : Finset UInt64} {trace trace' : Trace Ref}
    {item : Item Ref} (h : heap.Covered marked trace item)
    (hstack : ∀ obj, heap.id obj ∈ marked ∨ obj ∈ trace.stack →
      heap.id obj ∈ marked' ∨ obj ∈ trace'.stack)
    (hcode : trace.codePtrs ⊆ trace'.codePtrs) : heap.Covered marked' trace' item := by
  cases item with
  | objRef obj => exact hstack obj h
  | value value =>
    cases value with
    | code code => exact hcode h
    | _ => exact fun obj hobj => hstack obj (h obj hobj)

/-- Tracing items took the one state to the other. -/
structure Extends (heap : Heap Ref) (marked : Finset UInt64) (items : List (Item Ref))
    (before after : Trace Ref) : Prop where
  stack_subset : before.stack ⊆ after.stack
  codePtrs_subset : before.codePtrs ⊆ after.codePtrs
  covered : ∀ item ∈ items, heap.Covered marked after item
  sound : ∀ obj ∈ after.stack, obj ∈ before.stack ∨
    Reaches heap.tracedChildren items (.objRef obj)
  constants : ∀ code ∈ after.codePtrs, code ∈ before.codePtrs ∨
    ∀ value ∈ (heap.code code).constants, heap.Covered marked after (.value value)

namespace Extends

variable {heap : Heap Ref} {marked : Finset UInt64} {items others : List (Item Ref)}
  {before between after : Trace Ref}

lemma refl (trace : Trace Ref) : heap.Extends marked [] trace trace where
  stack_subset := fun _ hobj => hobj
  codePtrs_subset := fun _ hcode => hcode
  covered := fun _ hitem => (List.not_mem_nil hitem).elim
  sound := fun _ hobj => .inl hobj
  constants := fun _ hcode => .inl hcode

/-- What is covered stays covered. -/
lemma covered_of (h : heap.Extends marked items before after) {item : Item Ref}
    (hitem : heap.Covered marked before item) : heap.Covered marked after item :=
  hitem.mono (fun _ hobj => hobj.imp_right fun hmem => h.stack_subset hmem) h.codePtrs_subset

lemma append (h : heap.Extends marked items before between)
    (h' : heap.Extends marked others between after) :
    heap.Extends marked (items ++ others) before after where
  stack_subset := fun _ hobj => h'.stack_subset (h.stack_subset hobj)
  codePtrs_subset := h.codePtrs_subset.trans h'.codePtrs_subset
  covered := fun item hitem => by
    obtain hitem | hitem := List.mem_append.1 hitem
    · exact h'.covered_of (h.covered item hitem)
    · exact h'.covered item hitem
  sound := fun _ hobj => by
    have hleft : ∀ {item : Item Ref}, Reaches heap.tracedChildren items item →
        Reaches heap.tracedChildren (items ++ others) item := fun hitem =>
      hitem.of_closed (fun item hmem => .root item (List.mem_append_left _ hmem))
        fun item _ hreached next hnext => .child item next hreached hnext
    have hright : ∀ {item : Item Ref}, Reaches heap.tracedChildren others item →
        Reaches heap.tracedChildren (items ++ others) item := fun hitem =>
      hitem.of_closed (fun item hmem => .root item (List.mem_append_right _ hmem))
        fun item _ hreached next hnext => .child item next hreached hnext
    obtain hobj | hobj := h'.sound _ hobj
    · exact (h.sound _ hobj).imp_right hleft
    · exact .inr (hright hobj)
  constants := fun code hcode => by
    obtain hcode | hconstants := h'.constants code hcode
    · exact (h.constants code hcode).imp_right fun hconstants value hvalue =>
        h'.covered_of (hconstants value hvalue)
    · exact .inr hconstants

/-- Tracing a value that is covered already changes nothing. -/
lemma skip {item : Item Ref} {trace : Trace Ref} (h : heap.Covered marked trace item) :
    heap.Extends marked [item] trace trace where
  stack_subset := fun _ hobj => hobj
  codePtrs_subset := fun _ hcode => hcode
  covered := fun _ hother => List.mem_singleton.1 hother ▸ h
  sound := fun _ hobj => .inl hobj
  constants := fun _ hcode => .inl hcode

/-- An object that an item leads to is pushed. -/
lemma push {item : Item Ref} {trace : Trace Ref} {obj : Ref}
    (hcovered : heap.Covered marked { trace with stack := obj :: trace.stack } item)
    (hreached : Reaches heap.tracedChildren [item] (.objRef obj)) :
    heap.Extends marked [item] trace { trace with stack := obj :: trace.stack } where
  stack_subset := List.subset_cons_self _ _
  codePtrs_subset := fun _ hcode => hcode
  covered := fun _ hother => List.mem_singleton.1 hother ▸ hcovered
  sound := fun other hother => by
    obtain rfl | hother := List.mem_cons.1 hother
    · exact .inr hreached
    · exact .inl hother
  constants := fun _ hcode => .inl hcode

/-- The constants of a code object are traced for it. -/
lemma code [DecidableEq Ref] {code : Ref} {trace : Trace Ref}
    (h : heap.Extends marked ((heap.code code).constants.map .value ++ others)
      { trace with codePtrs := insert code trace.codePtrs } after) :
    heap.Extends marked (.value (.code code) :: others) trace after where
  stack_subset := h.stack_subset
  codePtrs_subset := (Finset.subset_insert _ _).trans h.codePtrs_subset
  covered := fun item hitem => by
    obtain rfl | hitem := List.mem_cons.1 hitem
    · exact h.codePtrs_subset (Finset.mem_insert_self _ _)
    · exact h.covered item (List.mem_append_right _ hitem)
  sound := fun obj hobj => (h.sound obj hobj).imp_right fun hreached =>
    hreached.of_closed
      (fun item hitem => by
        obtain hitem | hitem := List.mem_append.1 hitem
        · exact .child _ _ (.root _ List.mem_cons_self) hitem
        · exact .root _ (List.mem_cons_of_mem _ hitem))
      fun item _ hitem next hnext => .child item next hitem hnext
  constants := fun other hother => by
    obtain hother | hconstants := h.constants other hother
    · obtain rfl | hother := Finset.mem_insert.1 hother
      · exact .inr fun value hvalue =>
          h.covered _ (List.mem_append_left _ (List.mem_map_of_mem hvalue))
      · exact .inl hother
    · exact .inr hconstants

end Extends

section Trace

variable [Fintype Ref] [DecidableEq Ref] (heap : Heap Ref) (marked : Finset UInt64)

lemma traceValues_extends (values : List (Value Ref)) (trace : Trace Ref) :
    heap.Extends marked (values.map .value) trace (heap.traceValues marked values trace) := by
  fun_induction heap.traceValues marked values trace with
  | case1 trace => exact .refl trace
  | case2 code values trace hvisited ih =>
    have hskip : heap.Extends marked [.value (.code code)] trace trace := .skip hvisited
    exact hskip.append ih
  | case3 code values trace hnew ih =>
    rw [List.map_append] at ih
    exact .code ih
  | case4 value values trace hcode obj hobj hmarked ih =>
    have hskip : heap.Extends marked [.value value] trace trace :=
      .skip ((heap.covered_value_iff hcode).2 fun other hother => by
        obtain rfl := Option.some.inj (hobj.symm.trans hother)
        exact .inl hmarked)
    exact hskip.append ih
  | case5 value values trace hcode obj hobj hmarked ih =>
    have hpush : heap.Extends marked [.value value] trace
        { trace with stack := obj :: trace.stack } :=
      .push ((heap.covered_value_iff hcode).2 fun other hother => by
          obtain rfl := Option.some.inj (hobj.symm.trans hother)
          exact .inr List.mem_cons_self)
        (.child _ _ (.root _ (List.mem_singleton_self _)) (by
          rw [heap.tracedChildren_value hcode, hobj]
          exact List.mem_singleton_self _))
    exact hpush.append ih
  | case6 value values trace hcode hobj ih =>
    have hskip : heap.Extends marked [.value value] trace trace :=
      .skip ((heap.covered_value_iff hcode).2 fun other hother => by
        rw [hobj] at hother
        cases hother)
    exact hskip.append ih

lemma traceItem_extends (trace : Trace Ref) (item : Item Ref) :
    heap.Extends marked [item] trace (heap.traceItem marked trace item) := by
  cases item with
  | value value => exact heap.traceValues_extends marked [value] trace
  | objRef obj => exact .push (.inr List.mem_cons_self) (.root _ (List.mem_singleton_self _))

lemma foldl_traceItem_extends (items : List (Item Ref)) (trace : Trace Ref) :
    heap.Extends marked items trace (items.foldl (heap.traceItem marked) trace) := by
  induction items generalizing trace with
  | nil => exact .refl trace
  | cons item items ih => exact (heap.traceItem_extends marked trace item).append (ih _)

end Trace

/-! ## Marking -/

/-- The state of the loop.  What is marked or stacked is traced, and what is marked or visited has
its children covered. -/
structure Marking (heap : Heap Ref) (roots : List (Value Ref)) (trace : Trace Ref)
    (marked : Finset UInt64) : Prop where
  stack_traced : ∀ obj ∈ trace.stack, heap.Traced roots (.objRef obj)
  marked_traced : ∀ obj, heap.id obj ∈ marked → heap.Traced roots (.objRef obj)
  roots_covered : ∀ value ∈ roots, heap.Covered marked trace (.value value)
  code_closed : ∀ code ∈ trace.codePtrs, ∀ value ∈ (heap.code code).constants,
    heap.Covered marked trace (.value value)
  marked_closed : ∀ obj, heap.id obj ∈ marked →
    ∀ item ∈ heap.tracedObjectChildren (heap.object obj), heap.Covered marked trace item

namespace Marking

variable {heap : Heap Ref} {roots : List (Value Ref)} {trace : Trace Ref} {marked : Finset UInt64}
  {obj : Ref} {stack : List Ref}

/-- An object that is marked already is taken from the stack. -/
lemma pop (h : heap.Marking roots trace marked) (hstack : trace.stack = obj :: stack)
    (hmarked : heap.id obj ∈ marked) :
    heap.Marking roots { trace with stack := stack } marked := by
  have hcovered : ∀ {item : Item Ref}, heap.Covered marked trace item →
      heap.Covered marked { trace with stack := stack } item := fun hitem =>
    hitem.mono (fun other hother => by
      obtain hother | hother := hother
      · exact .inl hother
      · rw [hstack] at hother
        obtain rfl | hother := List.mem_cons.1 hother
        · exact .inl hmarked
        · exact .inr hother) (Finset.Subset.refl _)
  exact {
    stack_traced :=
      fun other hother => h.stack_traced other (hstack ▸ List.mem_cons_of_mem _ hother)
    marked_traced := h.marked_traced
    roots_covered := fun value hvalue => hcovered (h.roots_covered value hvalue)
    code_closed := fun code hcode value hvalue => hcovered (h.code_closed code hcode value hvalue)
    marked_closed := fun other hother item hitem =>
      hcovered (h.marked_closed other hother item hitem) }

/-- An object is marked, and what it refers to is traced. -/
lemma mark [Fintype Ref] [DecidableEq Ref] (h : heap.Marking roots trace marked)
    (hstack : trace.stack = obj :: stack) :
    heap.Marking roots
      (heap.traceObject (insert (heap.id obj) marked) { trace with stack := stack }
        (heap.object obj)) (insert (heap.id obj) marked) := by
  have hextends := heap.foldl_traceItem_extends (insert (heap.id obj) marked)
    (heap.tracedObjectChildren (heap.object obj)) { trace with stack := stack }
  have hobj : heap.Traced roots (.objRef obj) :=
    h.stack_traced obj (hstack ▸ List.mem_cons_self)
  have hcovered : ∀ {item : Item Ref}, heap.Covered marked trace item →
      heap.Covered (insert (heap.id obj) marked) { trace with stack := stack } item := fun hitem =>
    hitem.mono (fun other hother => by
      obtain hother | hother := hother
      · exact .inl (Finset.mem_insert_of_mem hother)
      · rw [hstack] at hother
        obtain rfl | hother := List.mem_cons.1 hother
        · exact .inl (Finset.mem_insert_self _ _)
        · exact .inr hother) (Finset.Subset.refl _)
  exact {
    stack_traced := fun other hother => by
      obtain hother | hreached := hextends.sound other hother
      · exact h.stack_traced other (hstack ▸ List.mem_cons_of_mem _ hother)
      · exact hreached.of_closed (fun item hitem => .child _ _ hobj hitem)
          fun item _ hitem next hnext => .child item next hitem hnext
    marked_traced := fun other hother => by
      obtain heq | hother := Finset.mem_insert.1 hother
      · exact heap.id_injective heq ▸ hobj
      · exact h.marked_traced other hother
    roots_covered := fun value hvalue =>
      hextends.covered_of (hcovered (h.roots_covered value hvalue))
    code_closed := fun code hcode value hvalue => by
      obtain hcode | hconstants := hextends.constants code hcode
      · exact hextends.covered_of (hcovered (h.code_closed code hcode value hvalue))
      · exact hconstants value hvalue
    marked_closed := fun other hother item hitem => by
      obtain heq | hother := Finset.mem_insert.1 hother
      · obtain rfl := heap.id_injective heq
        exact hextends.covered item hitem
      · exact hextends.covered_of (hcovered (h.marked_closed other hother item hitem)) }

/-- With an empty stack, every item that is traced is covered. -/
lemma covered_of_traced (h : heap.Marking roots trace marked) (hstack : trace.stack = [])
    {item : Item Ref} (hitem : heap.Traced roots item) : heap.Covered marked trace item := by
  refine hitem.of_closed (fun item hmem => ?_) fun item _ hcovered next hnext => ?_
  · obtain ⟨value, hvalue, rfl⟩ := List.mem_map.1 hmem
    exact h.roots_covered value hvalue
  · cases item with
    | objRef obj =>
      obtain hmarked | hmem := hcovered
      · exact h.marked_closed obj hmarked next hnext
      · rw [hstack] at hmem
        exact (List.not_mem_nil hmem).elim
    | value value =>
      by_cases hcode : ∃ code, value = .code code
      · obtain ⟨code, rfl⟩ := hcode
        obtain ⟨constant, hconstant, rfl⟩ := List.mem_map.1 hnext
        exact h.code_closed code hcovered constant hconstant
      · have hne : ∀ code, value ≠ .code code := fun code heq => hcode ⟨code, heq⟩
        rw [heap.tracedChildren_value hne] at hnext
        obtain ⟨obj, hobj, rfl⟩ := List.mem_map.1 hnext
        exact (heap.covered_value_iff hne).1 hcovered obj (Option.mem_toList.1 hobj)

end Marking

section Loop

variable [Fintype Ref] [DecidableEq Ref] (heap : Heap Ref) (roots : List (Value Ref))

lemma markStack_marking {trace : Trace Ref} {marked : Finset UInt64}
    (h : heap.Marking roots trace marked) :
    ∃ after : Trace Ref, after.stack = [] ∧
      heap.Marking roots after (heap.markStack trace marked) := by
  fun_induction heap.markStack trace marked with
  | case1 trace marked hstack => exact ⟨trace, hstack, h⟩
  | case2 trace marked obj stack hstack hmarked ih => exact ih (h.pop hstack hmarked)
  | case3 trace marked obj stack hstack hmarked inserted ih => exact ih (h.mark hstack)

lemma roots_marking :
    heap.Marking roots
      (roots.foldl (fun trace value => heap.traceValues ∅ [value] trace) ⟨[], ∅⟩) ∅ := by
  have hfold : ∀ trace : Trace Ref,
      roots.foldl (fun trace value => heap.traceValues ∅ [value] trace) trace =
        (roots.map .value).foldl (heap.traceItem ∅) trace := fun trace => by
    rw [List.foldl_map]
    rfl
  have hextends := heap.foldl_traceItem_extends ∅ (roots.map .value) ⟨[], ∅⟩
  rw [hfold]
  exact {
    stack_traced := fun obj hobj => (hextends.sound obj hobj).resolve_left List.not_mem_nil
    marked_traced := fun obj hobj => (Finset.notMem_empty _ hobj).elim
    roots_covered := fun value hvalue => hextends.covered _ (List.mem_map_of_mem hvalue)
    code_closed := fun code hcode =>
      (hextends.constants code hcode).resolve_left (Finset.notMem_empty _)
    marked_closed := fun obj hobj => (Finset.notMem_empty _ hobj).elim }

/-- The marked objects are the ones that traced references lead to. -/
theorem mem_reachableObjectIds (obj : Ref) :
    heap.id obj ∈ heap.reachableObjectIds roots ↔ heap.Traced roots (.objRef obj) := by
  obtain ⟨after, hstack, hmarking⟩ := heap.markStack_marking roots (heap.roots_marking roots)
  constructor
  · exact hmarking.marked_traced obj
  · intro htraced
    obtain hmarked | hmem := hmarking.covered_of_traced hstack htraced
    · exact hmarked
    · rw [hstack] at hmem
      exact (List.not_mem_nil hmem).elim

end Loop

/-! ## What is owned and not traced -/

/-- What an item owns and a collection does not trace: what an exception value holds, the owner of
the export of a memoryview, the code of a generator, and the class that owns a function. -/
def untracedChildren (heap : Heap Ref) : Item Ref → List (Item Ref)
  | .value (.exception value) => heap.exceptionChildren value
  | .value _ => []
  | .objRef obj =>
    match heap.object obj with
    | .memoryView view => view.exportOwner.toList.map .objRef
    | .generator generator => [.value (.code generator.code)]
    | .function function => function.ownerClass.toList.map .objRef
    | _ => []

/-- An item refers to an object without another object in between. -/
inductive Holds (heap : Heap Ref) : Item Ref → Ref → Prop
  | objRef (obj : Ref) : Holds heap (.objRef obj) obj
  | value (value : Value Ref) (item : Item Ref) (obj : Ref)
      (hitem : item ∈ heap.ownedChildren (.value value)) (h : Holds heap item obj) :
      Holds heap (.value value) obj

/-- Whatever an untraced reference of a traced item refers to is traced from the roots as well. -/
def Retraced (heap : Heap Ref) (roots : List (Value Ref)) : Prop :=
  ∀ item, heap.Traced roots item → ∀ untraced ∈ heap.untracedChildren item, ∀ obj,
    heap.Holds untraced obj → heap.Traced roots (.objRef obj)

lemma tracedIteratorChildren_eq (kind : IteratorKind Ref) :
    tracedIteratorChildren kind = ownedIteratorChildren kind := by
  cases kind <;> rfl

section Ownership

variable (heap : Heap Ref)

/-- What an object owns is traced, untraced, or the code object of a function, whose constants are
traced. -/
lemma ownedChildren_objRef {obj : Ref} {item : Item Ref}
    (h : item ∈ heap.ownedChildren (.objRef obj)) :
    item ∈ heap.tracedChildren (.objRef obj) ∨ item ∈ heap.untracedChildren (.objRef obj) ∨
      ∃ code, item = .value (.code code) ∧
        ∀ value ∈ (heap.code code).constants, .value value ∈ heap.tracedChildren (.objRef obj) := by
  rw [ownedChildren] at h
  rw [tracedChildren, untracedChildren]
  cases hobject : heap.object obj with
  | iterator iterator =>
    rw [hobject] at h
    refine .inl ?_
    rw [tracedObjectChildren, tracedIteratorChildren_eq]
    exact h
  | memoryView view =>
    rw [hobject] at h
    obtain rfl | h := List.mem_cons.1 h
    · exact .inl (List.mem_singleton_self _)
    · exact .inr (.inl h)
  | generator generator =>
    rw [hobject] at h
    exact .inr (.inl h)
  | «class» cls =>
    rw [hobject] at h
    simp only [ownedObjectChildren, List.mem_append] at h
    simp only [tracedObjectChildren, List.mem_append]
    tauto
  | function function =>
    rw [hobject] at h
    simp only [ownedObjectChildren, List.mem_cons, List.mem_append] at h
    obtain rfl | h := h
    · refine .inr (.inr ⟨_, rfl, fun value hvalue => ?_⟩)
      simp only [tracedObjectChildren, List.mem_cons, List.mem_append]
      have hmem : Item.value value ∈ (heap.code function.code).constants.map Item.value :=
        List.mem_map_of_mem hvalue
      tauto
    · simp only [tracedObjectChildren, List.mem_cons, List.mem_append]
      tauto
  | _ =>
    rw [hobject] at h
    exact .inl h

lemma untracedChildren_subset (item : Item Ref) :
    heap.untracedChildren item ⊆ heap.ownedChildren item := by
  intro child hchild
  cases item with
  | value value =>
    cases value with
    | exception value => exact hchild
    | _ => exact (List.not_mem_nil hchild).elim
  | objRef obj =>
    rw [untracedChildren] at hchild
    rw [ownedChildren]
    split at hchild
    · rename_i hobject
      rw [hobject]
      exact List.mem_cons_of_mem _ hchild
    · rename_i hobject
      rw [hobject]
      exact hchild
    · rename_i hobject
      rw [hobject]
      simp only [ownedObjectChildren, List.mem_cons, List.mem_append]
      tauto
    · exact (List.not_mem_nil hchild).elim

/-- What is traced is owned, the constants of a function through its code object. -/
lemma owned_tracedChildren (item : Item Ref) :
    ∀ child ∈ heap.tracedChildren item, Reaches heap.ownedChildren [item] child := by
  have hself : Reaches heap.ownedChildren [item] item := .root _ (List.mem_singleton_self _)
  intro child hchild
  cases item with
  | value value =>
    cases value with
    | exception value => exact (List.not_mem_nil hchild).elim
    | _ => exact .child _ _ hself hchild
  | objRef obj =>
    rw [tracedChildren] at hchild
    cases hobject : heap.object obj with
    | iterator iterator =>
      rw [hobject, tracedObjectChildren, tracedIteratorChildren_eq] at hchild
      exact .child _ _ hself (by rw [ownedChildren, hobject]; exact hchild)
    | memoryView view =>
      rw [hobject] at hchild
      obtain rfl := List.mem_singleton.1 hchild
      exact .child _ _ hself (by rw [ownedChildren, hobject]; exact List.mem_cons_self)
    | generator generator =>
      rw [hobject] at hchild
      exact (List.not_mem_nil hchild).elim
    | «class» cls =>
      rw [hobject] at hchild
      refine .child _ _ hself ?_
      rw [ownedChildren, hobject]
      simp only [tracedObjectChildren, List.mem_append] at hchild
      simp only [ownedObjectChildren, List.mem_append]
      tauto
    | function function =>
      rw [hobject] at hchild
      by_cases hconstant : child ∈ (heap.code function.code).constants.map Item.value
      · have hcode : Reaches heap.ownedChildren [.objRef obj] (.value (.code function.code)) := by
          refine .child _ _ hself ?_
          rw [ownedChildren, hobject]
          exact List.mem_cons_self
        exact .child _ _ hcode hconstant
      · refine .child _ _ hself ?_
        rw [ownedChildren, hobject]
        simp only [tracedObjectChildren, List.mem_cons, List.mem_append] at hchild
        simp only [ownedObjectChildren, List.mem_cons, List.mem_append]
        tauto
    | _ =>
      rw [hobject] at hchild
      exact .child _ _ hself (by rw [ownedChildren, hobject]; exact hchild)

variable {heap} {roots : List (Value Ref)}

lemma Traced.owned {item : Item Ref} (h : heap.Traced roots item) : heap.Owned roots item :=
  h.of_children heap.owned_tracedChildren

lemma Holds.owned {item : Item Ref} {obj : Ref} (h : heap.Holds item obj) :
    Reaches heap.ownedChildren [item] (.objRef obj) := by
  induction h with
  | objRef obj => exact .root _ (List.mem_singleton_self _)
  | value value item obj hitem _ ih => exact .of_child hitem ih

/-- The objects that a traced item refers to are traced. -/
lemma Retraced.holds (h : heap.Retraced roots) {item : Item Ref} {obj : Ref}
    (hholds : heap.Holds item obj) (hitem : heap.Traced roots item) :
    heap.Traced roots (.objRef obj) := by
  induction hholds with
  | objRef obj => exact hitem
  | value value item obj hchild hholds ih =>
    cases value with
    | exception value => exact h _ hitem item hchild obj hholds
    | _ => exact ih (.child _ _ hitem hchild)

/-- The objects that an owned item refers to are traced. -/
lemma Retraced.owned_holds (h : heap.Retraced roots) {item : Item Ref}
    (hitem : heap.Owned roots item) :
    ∀ obj, heap.Holds item obj → heap.Traced roots (.objRef obj) := by
  refine hitem.of_closed (p := fun item => ∀ obj, heap.Holds item obj →
      heap.Traced roots (.objRef obj)) (fun item hmem obj hholds => h.holds hholds (.root _ hmem))
    fun item _ htraced child hchild obj hholds => ?_
  cases item with
  | value value => exact htraced obj (.value value child obj hchild hholds)
  | objRef parent =>
    have hparent := htraced parent (.objRef parent)
    obtain hchild | hchild | ⟨code, rfl, hconstants⟩ := heap.ownedChildren_objRef hchild
    · exact h.holds hholds (.child _ _ hparent hchild)
    · exact h _ hparent child hchild obj hholds
    · cases hholds with
      | value _ constant _ hconstant hholds =>
        obtain ⟨value, hvalue, rfl⟩ := List.mem_map.1 hconstant
        exact h.holds hholds (.child _ _ hparent (hconstants value hvalue))

lemma traced_of_owned_iff :
    (∀ obj, heap.Owned roots (.objRef obj) → heap.Traced roots (.objRef obj)) ↔
      heap.Retraced roots := by
  constructor
  · intro h item hitem untraced huntraced obj hholds
    have huntraced' : heap.Owned roots untraced :=
      .child _ _ hitem.owned (heap.untracedChildren_subset item huntraced)
    exact h obj (huntraced'.trans hholds.owned)
  · intro h obj hobj
    exact h.owned_holds hobj obj (.objRef obj)

end Ownership

/-! ## Collections -/

section Collect

variable [DecidableEq Ref] (heap : Heap Ref)

lemma clearObjectRefs_id (obj : Ref) : (heap.clearObjectRefs obj).id = heap.id := by
  rw [clearObjectRefs]
  split <;> rfl

lemma clearObjectRefs_object {obj other : Ref} (h : other ≠ obj) :
    (heap.clearObjectRefs obj).object other = heap.object other := by
  rw [clearObjectRefs]
  split
  · rfl
  · exact Function.update_of_ne h _ _

/-- What is marked is left as it is. -/
lemma foldl_clearObjectRefs (marked : Finset UInt64) {obj : Ref} (registry : List Ref)
    (h : heap.id obj ∈ marked) :
    (registry.foldl
      (fun heap obj => if heap.id obj ∈ marked then heap else heap.clearObjectRefs obj)
        heap).object obj = heap.object obj := by
  induction registry generalizing heap with
  | nil => rfl
  | cons other registry ih =>
    rw [List.foldl_cons]
    by_cases hother : heap.id other ∈ marked
    · rw [if_pos hother]
      exact ih heap h
    · have hne : obj ≠ other := fun heq => hother (heq ▸ h)
      rw [if_neg hother, ih _ (by rw [clearObjectRefs_id]; exact h),
        heap.clearObjectRefs_object hne]

variable [Fintype Ref]

lemma collectCycles_object {roots : List (Value Ref)} {obj : Ref}
    (h : heap.id obj ∈ heap.reachableObjectIds roots) :
    (heap.collectCycles roots).object obj = heap.object obj :=
  heap.foldl_clearObjectRefs _ heap.registry h

/-- A collection marks every object that the roots lead to, and leaves its contents, if and only if
what their untraced references refer to is traced as well. -/
theorem collectCycles_keeps_iff (roots : List (Value Ref)) :
    (∀ obj, heap.Owned roots (.objRef obj) → heap.id obj ∈ heap.reachableObjectIds roots ∧
      (heap.collectCycles roots).object obj = heap.object obj) ↔ heap.Retraced roots := by
  rw [← traced_of_owned_iff]
  constructor
  · intro h obj hobj
    exact (heap.mem_reachableObjectIds roots obj).1 (h obj hobj).1
  · intro h obj hobj
    have hmarked := (heap.mem_reachableObjectIds roots obj).2 (h obj hobj)
    exact ⟨hmarked, heap.collectCycles_object hmarked⟩

omit [DecidableEq Ref] [Fintype Ref] in
lemma tracedChildren_with {object : Ref → Object Ref} {item : Item Ref}
    (h : ∀ obj, item = .objRef obj → object obj = heap.object obj) :
    { heap with object := object }.tracedChildren item = heap.tracedChildren item := by
  cases item with
  | objRef obj =>
    change tracedObjectChildren _ (object obj) = _
    rw [tracedChildren, h obj rfl]
    cases heap.object obj <;> rfl
  | value value => cases value <;> rfl

lemma collectCycles_eq (roots : List (Value Ref)) :
    ∃ object, heap.collectCycles roots = { heap with object := object } := by
  rw [collectCycles]
  generalize heap.reachableObjectIds roots = marked
  suffices ∀ (registry : List Ref) (start : Heap Ref),
      (∃ object, start = { heap with object := object }) →
      ∃ object, registry.foldl (fun heap obj =>
        if heap.id obj ∈ marked then heap else heap.clearObjectRefs obj) start =
          { heap with object := object } from this _ heap ⟨heap.object, rfl⟩
  intro registry
  induction registry with
  | nil => exact fun _ h => h
  | cons obj registry ih =>
    rintro _ ⟨object, rfl⟩
    refine ih _ ?_
    unfold clearObjectRefs
    dsimp only
    split_ifs <;> exact ⟨_, rfl⟩

lemma collectCycles_object_of_traced {visible : List (Value Ref)} (roots : List (Value Ref))
    {obj : Ref} (h : heap.Traced visible (.objRef obj)) :
    (heap.collectCycles (visible ++ roots)).object obj = heap.object obj :=
  heap.collectCycles_object ((heap.mem_reachableObjectIds _ obj).2
    (h.mono (List.map_subset _ (List.subset_append_left visible roots))))

/-- A collection does not change what some of its roots lead to. -/
lemma traced_collectCycles (visible roots : List (Value Ref)) (item : Item Ref) :
    (heap.collectCycles (visible ++ roots)).Traced visible item ↔ heap.Traced visible item := by
  refine Reaches.congr fun item hitem => ?_
  obtain ⟨object, hafter⟩ := heap.collectCycles_eq (visible ++ roots)
  rw [hafter]
  refine heap.tracedChildren_with ?_
  rintro obj rfl
  have hobject := heap.collectCycles_object_of_traced roots hitem
  rwa [hafter] at hobject

/-- Over any number of collections, values that are roots of each of them lead to the same objects,
with the same contents, whatever the other roots are. -/
theorem collections_keep (visible : List (Value Ref)) (collections : List (List (Value Ref)))
    (obj : Ref) :
    let after := collections.foldl (fun heap roots => heap.collectCycles (visible ++ roots)) heap
    (after.id obj ∈ after.reachableObjectIds visible ↔
        heap.id obj ∈ heap.reachableObjectIds visible) ∧
      (heap.id obj ∈ heap.reachableObjectIds visible → after.object obj = heap.object obj) := by
  induction collections generalizing heap with
  | nil => exact ⟨Iff.rfl, fun _ => rfl⟩
  | cons roots collections ih =>
    obtain ⟨hmarked, hobject⟩ := ih (heap.collectCycles (visible ++ roots))
    have hsame := heap.traced_collectCycles visible roots (.objRef obj)
    rw [← mem_reachableObjectIds, ← mem_reachableObjectIds] at hsame
    exact ⟨hmarked.trans hsame, fun h => (hobject (hsame.2 h)).trans
      (heap.collectCycles_object_of_traced roots ((heap.mem_reachableObjectIds _ obj).1 h))⟩

end Collect

/-- A list that an attribute of an exception refers to. -/
def payloadHeap : Heap (Fin 2) where
  id := fun ref => if ref = 0 then 1 else 2
  object := fun _ => .list [.int 1]
  code := fun _ => ⟨[], none⟩
  attrs := fun _ => [("payload", .list 0)]
  registry := [0]
  borrowed := fun _ => false
  id_injective := by decide

def payloadException : Value (Fin 2) := .exception (.mk 1 "ValueError" none [] none none 1)

/-- A list that an attribute of an exception refers to is emptied. -/
theorem collectCycles_empties_payload :
    ¬∀ (heap : Heap (Fin 2)) (roots : List (Value (Fin 2))) (obj : Fin 2),
      heap.Owned roots (.objRef obj) →
        (heap.collectCycles roots).object obj = heap.object obj := by
  intro h
  have howned : payloadHeap.Owned [payloadException] (.objRef 0) := by
    refine .child (.value (.list 0)) _ (.child (.value payloadException) _ (.root _ ?_) ?_) ?_
    · exact List.mem_singleton_self _
    · exact List.mem_singleton_self _
    · exact List.mem_singleton_self _
  have hunchanged := h payloadHeap [payloadException] 0 howned
  have hmarked : payloadHeap.reachableObjectIds [payloadException] = ∅ := by
    rw [reachableObjectIds, List.foldl_cons, List.foldl_nil, payloadException, traceValues]
    · simp only [Value.object, traceValues]
      rw [markStack]
    · exact fun code heq => by cases heq
  rw [collectCycles, hmarked] at hunchanged
  cases hunchanged

end Heap

end Gc

end Pyrs
