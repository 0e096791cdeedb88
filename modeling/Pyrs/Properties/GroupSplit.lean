import Pyrs.Model.Exceptions

/-!
# Splitting an exception group for `except*`

`exceptionSplitForStar` is compared with a filter on trees.  An `ExcTree` is what the split is
about: leaves that are exceptions and groups that carry the data a clone keeps.  `ExcTree.filter`
keeps the leaves a predicate accepts and drops the groups this empties; `Represents` relates a tree
to the exception object that holds it.

The main result, `exceptionSplitForStar_partition`, says that the two parts hold the two filters of
the tree.  The facts about leaves, order and empty groups are facts about `ExcTree.filter`.
-/

namespace Pyrs

/-! ## Exception trees -/

/-- What `clone_exception_group_with_members` copies from its template. -/
structure GroupHeader where
  name : String
  message : Option String
  notes : List String
  cause : Option ExceptionObject
  context : Option ExceptionObject
  suppressContext : Bool
  attrs : List (String × Value)

def ExceptionObject.header (exc : ExceptionObject) : GroupHeader where
  name := exc.name
  message := exc.message
  notes := exc.notes
  cause := exc.cause
  context := exc.context
  suppressContext := exc.suppressContext
  attrs := exc.attrs

/-- A tree of exceptions, the members of a group in order. -/
inductive ExcTree
  | leaf (exc : ExceptionObject)
  | group (header : GroupHeader) (members : List ExcTree)

namespace ExcTree

mutual

/-- The leaves of a tree from left to right. -/
def leaves : ExcTree → List ExceptionObject
  | leaf exc => [exc]
  | group _ members => leavesList members

def leavesList : List ExcTree → List ExceptionObject
  | [] => []
  | t :: ts => t.leaves ++ leavesList ts

end

/-- The members as a group, or nothing when there are none. -/
def regroup (header : GroupHeader) : List ExcTree → Option ExcTree
  | [] => none
  | t :: ts => some (group header (t :: ts))

mutual

/-- The tree with only the leaves `p` accepts, without the groups this empties. -/
def filter (p : ExceptionObject → Bool) : ExcTree → Option ExcTree
  | leaf exc => if p exc then some (leaf exc) else none
  | group header members => regroup header (filterList p members)

def filterList (p : ExceptionObject → Bool) : List ExcTree → List ExcTree
  | [] => []
  | t :: ts => (t.filter p).toList ++ filterList p ts

end

/-- No group of the tree is empty. -/
inductive NoEmptyGroup : ExcTree → Prop
  | leaf (exc : ExceptionObject) : NoEmptyGroup (leaf exc)
  | group {header : GroupHeader} {members : List ExcTree} (hne : members ≠ [])
      (h : ∀ t ∈ members, NoEmptyGroup t) : NoEmptyGroup (group header members)

/-- The leaves of a part that may be `None`. -/
def partLeaves (part : Option ExcTree) : List ExceptionObject :=
  (part.map leaves).getD []

@[simp] lemma partLeaves_none : partLeaves none = [] := rfl

@[simp] lemma partLeaves_some (t : ExcTree) : partLeaves (some t) = t.leaves := rfl

lemma leavesList_append (ts us : List ExcTree) :
    leavesList (ts ++ us) = leavesList ts ++ leavesList us := by
  induction ts with
  | nil => rfl
  | cons t ts ih => simp [leavesList, ih]

@[simp] lemma leavesList_toList (part : Option ExcTree) :
    leavesList part.toList = partLeaves part := by
  cases part <;> simp [leavesList]

/-! ## The filter -/

mutual

/-- Filtering a tree filters its leaves and keeps their order. -/
lemma partLeaves_filter (p : ExceptionObject → Bool) :
    ∀ t : ExcTree, partLeaves (t.filter p) = t.leaves.filter p
  | leaf exc => by
    by_cases h : p exc <;> simp [filter, leaves, h]
  | group header members => by
    have ih := leavesList_filterList p members
    rw [leaves, ← ih, filter]
    cases filterList p members with
    | nil => simp [regroup, leavesList]
    | cons t ts => simp [regroup, leaves]

lemma leavesList_filterList (p : ExceptionObject → Bool) :
    ∀ ts : List ExcTree, leavesList (filterList p ts) = (leavesList ts).filter p
  | [] => rfl
  | t :: ts => by
    rw [filterList, leavesList_append, leavesList_toList, partLeaves_filter p t,
      leavesList_filterList p ts, leavesList, List.filter_append]

end

mutual

/-- What remains has no empty group, whatever the tree was. -/
lemma noEmptyGroup_of_mem_filter (p : ExceptionObject → Bool) :
    ∀ t u : ExcTree, u ∈ t.filter p → NoEmptyGroup u
  | leaf exc, u, hu => by
    by_cases h : p exc
    · simp only [filter, h, if_true, Option.mem_def, Option.some.injEq] at hu
      exact hu ▸ NoEmptyGroup.leaf exc
    · simp [filter, h] at hu
  | group header members, u, hu => by
    have ih := noEmptyGroup_of_mem_filterList p members
    rw [filter] at hu
    cases hf : filterList p members with
    | nil => simp [hf, regroup] at hu
    | cons t ts =>
      simp only [hf, regroup, Option.mem_def, Option.some.injEq] at hu
      subst hu
      exact NoEmptyGroup.group (by simp) (hf ▸ ih)

lemma noEmptyGroup_of_mem_filterList (p : ExceptionObject → Bool) :
    ∀ ts : List ExcTree, ∀ u ∈ filterList p ts, NoEmptyGroup u
  | [], u, hu => by simp [filterList] at hu
  | t :: ts, u, hu => by
    rcases List.mem_append.1 hu with h | h
    · exact noEmptyGroup_of_mem_filter p t u (by simpa using h)
    · exact noEmptyGroup_of_mem_filterList p ts u h

end

/-- A tree without empty groups has a leaf. -/
lemma NoEmptyGroup.leaves_ne_nil {t : ExcTree} (h : NoEmptyGroup t) : t.leaves ≠ [] := by
  induction h with
  | leaf exc => simp [leaves]
  | @group header members hne _ ih =>
    cases members with
    | nil => exact absurd rfl hne
    | cons t ts =>
      rw [leaves, leavesList]
      exact fun h => ih t (by simp) (List.append_eq_nil_iff.1 h).1

/-- A part is `None` exactly when no leaf belongs to it. -/
lemma filter_eq_none_iff (p : ExceptionObject → Bool) (t : ExcTree) :
    t.filter p = none ↔ t.leaves.filter p = [] := by
  rw [← partLeaves_filter]
  cases hf : t.filter p with
  | none => simp
  | some u => simpa using (noEmptyGroup_of_mem_filter p t u hf).leaves_ne_nil

end ExcTree

/-! ## Trees held by exception objects -/

/-- The exception object `exc` holds the tree `t`.  Object numbers of groups are not part of the
tree, since every clone draws a new one. -/
inductive Represents : ExcTree → ExceptionObject → Prop
  | leaf (exc : ExceptionObject) : Represents (.leaf exc) exc
  | group {header : GroupHeader} {members : List ExcTree} {exc : ExceptionObject}
      (hheader : exc.header = header) (hmembers : List.Forall₂ Represents members exc.exceptions) :
      Represents (.group header members) exc

/-- The inner nodes of the tree are the exceptions the machine takes for groups. -/
inductive WellClassified (vm : Vm) : ExcTree → Prop
  | leaf {exc : ExceptionObject}
      (h : vm.exceptionInherits exc.name "BaseExceptionGroup" = false) :
      WellClassified vm (.leaf exc)
  | group {header : GroupHeader} {members : List ExcTree}
      (h : vm.exceptionInherits header.name "BaseExceptionGroup" = true)
      (hmembers : ∀ t ∈ members, WellClassified vm t) : WellClassified vm (.group header members)

/-- The one group around a naked exception. -/
def nakedHeader (vm : Vm) (exc : ExceptionObject) : GroupHeader where
  name := if vm.exceptionInherits exc.name "Exception" then "ExceptionGroup"
    else "BaseExceptionGroup"
  message := some ""
  notes := []
  cause := none
  context := none
  suppressContext := false
  attrs := [("args", .tuple [.str "", .list [.exception exc]])]

/-- What the handler gets: the filtered tree, in a group of its own when the tree is a leaf. -/
def matchedPart (vm : Vm) (p : ExceptionObject → Bool) : ExcTree → Option ExcTree
  | .leaf exc => if p exc then some (.group (nakedHeader vm exc) [.leaf exc]) else none
  | t => t.filter p

section Split

variable {vm : Vm} {active : Option Value} {handlerType : Value} {p : ExceptionObject → Bool}

/-- `exception_matches` gives the answers of `p` on the leaves of a tree. -/
def MatchesOnLeaves (vm : Vm) (active : Option Value) (handlerType : Value)
    (p : ExceptionObject → Bool) (leaves : List ExceptionObject) : Prop :=
  ∀ exc ∈ leaves, vm.exceptionMatches active (.exception exc) handlerType = .ok (p exc)

/-- A list of parts becomes a cloned group, or `None` when the list is empty. -/
lemma cloneUnlessEmpty_eq {template : ExceptionObject} {header : GroupHeader}
    (hheader : template.header = header) {ts : List ExcTree} {excs : List ExceptionObject}
    (h : List.Forall₂ Represents ts excs) (n : Nat) :
    ∃ part n', cloneUnlessEmpty template excs n = .ok (part, n') ∧
      Option.Rel Represents (ExcTree.regroup header ts) part := by
  cases h with
  | nil => exact ⟨none, n, rfl, Option.Rel.none⟩
  | @cons t exc ts excs ht hts =>
    refine ⟨_, n + 1, rfl, Option.Rel.some (Represents.group hheader ?_)⟩
    exact List.Forall₂.cons ht hts

lemma forall₂_toList_append {part : Option ExcTree} {exc : Option ExceptionObject}
    {ts : List ExcTree} {excs : List ExceptionObject} (h : Option.Rel Represents part exc)
    (hs : List.Forall₂ Represents ts excs) :
    List.Forall₂ Represents (part.toList ++ ts) (exc.toList ++ excs) := by
  cases h with
  | none => exact hs
  | some h => exact List.Forall₂.cons h hs

lemma exceptionM_bind_eq {α β : Type} {x : ExceptionM α} {f : α → ExceptionM β} {a : α}
    {n n' : Nat} (h : x n = .ok (a, n')) : (x >>= f) n = f a n' := by
  simp only [bind, StateT.bind, h, Except.bind]

/-! ## The split of a group, member by member -/

lemma split_leaf_eq {exc : ExceptionObject} (wrap : Bool)
    (hleaf : vm.exceptionInherits exc.name "BaseExceptionGroup" = false)
    (hmatch : vm.exceptionMatches active (.exception exc) handlerType = .ok (p exc)) :
    vm.exceptionSplitForStarObjectMode active handlerType wrap exc =
      if p exc then
        if wrap then do return (some (← vm.wrapNakedExceptionForStar exc), none)
        else return (some exc, none)
      else return (none, some exc) := by
  obtain ⟨objectId, name, message, notes, exceptions, cause, context, suppress, attrs⟩ := exc
  simp only [Vm.exceptionSplitForStarObjectMode, hleaf, hmatch]
  cases p _ <;> cases wrap <;> rfl

lemma split_group_eq {exc : ExceptionObject} (wrap : Bool)
    (hgroup : vm.exceptionInherits exc.name "BaseExceptionGroup" = true) :
    vm.exceptionSplitForStarObjectMode active handlerType wrap exc = do
      let (matchedMembers, remainingMembers) ← vm.splitMembers active handlerType exc.exceptions
      let matchedGroup ← cloneUnlessEmpty exc matchedMembers
      let remainingGroup ← cloneUnlessEmpty exc remainingMembers
      return (matchedGroup, remainingGroup) := by
  obtain ⟨objectId, name, message, notes, exceptions, cause, context, suppress, attrs⟩ := exc
  simp only [Vm.exceptionSplitForStarObjectMode, hgroup, if_true]

/-- The two parts of a group are the two filters, once this holds of its members. -/
lemma split_group {exc : ExceptionObject} {header : GroupHeader} {members : List ExcTree}
    (wrap : Bool) (hheader : exc.header = header)
    (hgroup : vm.exceptionInherits header.name "BaseExceptionGroup" = true) {n n' : Nat}
    {excs rests : List ExceptionObject}
    (hsplit : vm.splitMembers active handlerType exc.exceptions n = .ok ((excs, rests), n'))
    (hexcs : List.Forall₂ Represents (ExcTree.filterList p members) excs)
    (hrests : List.Forall₂ Represents (ExcTree.filterList (fun e => !p e) members) rests) :
    ∃ matched remaining n'', vm.exceptionSplitForStarObjectMode active handlerType wrap exc n =
        .ok ((matched, remaining), n'') ∧
      Option.Rel Represents ((ExcTree.group header members).filter p) matched ∧
      Option.Rel Represents ((ExcTree.group header members).filter fun e => !p e) remaining := by
  have hname : vm.exceptionInherits exc.name "BaseExceptionGroup" = true := by
    rw [show exc.name = header.name from congrArg GroupHeader.name hheader]
    exact hgroup
  obtain ⟨matched, n₁, hm, hmatched⟩ := cloneUnlessEmpty_eq hheader hexcs n'
  obtain ⟨remaining, n₂, hr, hremaining⟩ := cloneUnlessEmpty_eq hheader hrests n₁
  refine ⟨matched, remaining, n₂, ?_, ?_, ?_⟩
  · rw [split_group_eq wrap hname, exceptionM_bind_eq hsplit]
    show (cloneUnlessEmpty exc excs >>= _) n' = _
    rw [exceptionM_bind_eq hm]
    show (cloneUnlessEmpty exc rests >>= _) n₁ = _
    rw [exceptionM_bind_eq hr]
    rfl
  · rw [ExcTree.filter]
    exact hmatched
  · rw [ExcTree.filter]
    exact hremaining

mutual

/-- Inside a group a leaf goes unwrapped to one of the two parts. -/
lemma split_member (t : ExcTree) (exc : ExceptionObject) (h : Represents t exc)
    (hclass : WellClassified vm t) (hp : MatchesOnLeaves vm active handlerType p t.leaves)
    (n : Nat) :
    ∃ matched remaining n', vm.exceptionSplitForStarObjectMode active handlerType false exc n =
        .ok ((matched, remaining), n') ∧
      Option.Rel Represents (t.filter p) matched ∧
      Option.Rel Represents (t.filter fun e => !p e) remaining := by
  match t, h, hclass with
  | .leaf _, .leaf _, .leaf hleaf =>
    rw [split_leaf_eq false hleaf (hp exc (by simp [ExcTree.leaves])), ExcTree.filter,
      ExcTree.filter]
    cases p exc
    · exact ⟨none, some exc, n, rfl, Option.Rel.none, Option.Rel.some (Represents.leaf exc)⟩
    · exact ⟨some exc, none, n, rfl, Option.Rel.some (Represents.leaf exc), Option.Rel.none⟩
  | .group header members, .group hheader hmembers, .group hgroup hmem =>
    obtain ⟨excs, rests, n', hsplit, hexcs, hrests⟩ :=
      split_members members exc.exceptions hmembers hmem hp n
    exact split_group false hheader hgroup hsplit hexcs hrests

lemma split_members (ts : List ExcTree) (excs : List ExceptionObject)
    (h : List.Forall₂ Represents ts excs) (hclass : ∀ t ∈ ts, WellClassified vm t)
    (hp : MatchesOnLeaves vm active handlerType p (ExcTree.leavesList ts)) (n : Nat) :
    ∃ matched remaining n', vm.splitMembers active handlerType excs n =
        .ok ((matched, remaining), n') ∧
      List.Forall₂ Represents (ExcTree.filterList p ts) matched ∧
      List.Forall₂ Represents (ExcTree.filterList (fun e => !p e) ts) remaining := by
  match ts, excs, h with
  | [], [], .nil => exact ⟨[], [], n, rfl, List.Forall₂.nil, List.Forall₂.nil⟩
  | t :: ts, exc :: excs, .cons ht hts =>
    have hpt : MatchesOnLeaves vm active handlerType p t.leaves :=
      fun e he => hp e (List.mem_append_left _ he)
    have hpts : MatchesOnLeaves vm active handlerType p (ExcTree.leavesList ts) :=
      fun e he => hp e (List.mem_append_right _ he)
    obtain ⟨m, r, n₁, hs, hm, hr⟩ := split_member t exc ht (hclass t (by simp)) hpt n
    obtain ⟨ms, rs, n₂, hss, hms, hrs⟩ :=
      split_members ts excs hts (fun u hu => hclass u (by simp [hu])) hpts n₁
    refine ⟨m.toList ++ ms, r.toList ++ rs, n₂, ?_, forall₂_toList_append hm hms,
      forall₂_toList_append hr hrs⟩
    rw [Vm.splitMembers, exceptionM_bind_eq hs]
    show (vm.splitMembers active handlerType excs >>= _) n₁ = _
    rw [exceptionM_bind_eq hss]
    rfl

end

/-! ## The partition -/

lemma wrapNakedExceptionForStar_eq (vm : Vm) (exc : ExceptionObject) (n : Nat) :
    ∃ wrapped, vm.wrapNakedExceptionForStar exc n = .ok (wrapped, n + 1) ∧
      Represents (.group (nakedHeader vm exc) [.leaf exc]) wrapped :=
  ⟨_, rfl, Represents.group rfl (List.Forall₂.cons (Represents.leaf exc) List.Forall₂.nil)⟩

/-- The leaves of the matched part are the matching leaves, also when the exception is naked. -/
lemma partLeaves_matchedPart (vm : Vm) (p : ExceptionObject → Bool) (t : ExcTree) :
    ExcTree.partLeaves (matchedPart vm p t) = t.leaves.filter p := by
  cases t with
  | leaf exc => by_cases h : p exc <;> simp [matchedPart, ExcTree.leaves, ExcTree.leavesList, h]
  | group header members => exact ExcTree.partLeaves_filter p _

lemma noEmptyGroup_of_mem_matchedPart {t u : ExcTree} (h : u ∈ matchedPart vm p t) :
    ExcTree.NoEmptyGroup u := by
  cases t with
  | leaf exc =>
    by_cases hp : p exc
    · simp only [matchedPart, hp, if_true, Option.mem_def, Option.some.injEq] at h
      subst h
      exact .group (by simp) fun t ht => by
        rw [List.mem_singleton.1 ht]
        exact .leaf exc
    · simp [matchedPart, hp] at h
  | group header members => exact ExcTree.noEmptyGroup_of_mem_filter p _ u h

lemma matchedPart_eq_none_iff (vm : Vm) (p : ExceptionObject → Bool) (t : ExcTree) :
    matchedPart vm p t = none ↔ t.leaves.filter p = [] := by
  cases t with
  | leaf exc => by_cases h : p exc <;> simp [matchedPart, ExcTree.leaves, h]
  | group header members => exact ExcTree.filter_eq_none_iff p _

/-- The two parts are the two filters of the tree. -/
lemma exceptionSplitForStar_parts (t : ExcTree) (exc : ExceptionObject) (h : Represents t exc)
    (hclass : WellClassified vm t) (hp : MatchesOnLeaves vm active handlerType p t.leaves)
    (n : Nat) :
    ∃ matched remaining n', vm.exceptionSplitForStar active (.exception exc) handlerType n =
        .ok ((matched, remaining), n') ∧
      Option.Rel Represents (matchedPart vm p t) matched ∧
      Option.Rel Represents (t.filter fun e => !p e) remaining := by
  match t, h, hclass with
  | .leaf _, .leaf _, .leaf hleaf =>
    rw [Vm.exceptionSplitForStar,
      split_leaf_eq true hleaf (hp exc (by simp [ExcTree.leaves])), matchedPart, ExcTree.filter]
    cases p exc
    · exact ⟨none, some exc, n, rfl, Option.Rel.none, Option.Rel.some (Represents.leaf exc)⟩
    · obtain ⟨wrapped, hw, hr⟩ := wrapNakedExceptionForStar_eq vm exc n
      refine ⟨some wrapped, none, n + 1, ?_, Option.Rel.some hr, Option.Rel.none⟩
      simp only [if_true]
      rw [exceptionM_bind_eq hw]
      rfl
  | .group header members, .group hheader hmembers, .group hgroup hmem =>
    obtain ⟨excs, rests, n', hsplit, hexcs, hrests⟩ :=
      split_members members exc.exceptions hmembers hmem hp n
    exact split_group true hheader hgroup hsplit hexcs hrests

/-- **The split for `except*` partitions the leaves.**  The matched part is the tree restricted to
the matching leaves, in one group of its own when the exception is naked, and the remaining part is
the tree restricted to the others.  Each part has its leaves in the original order, is `None`
exactly when it has no leaf, and contains no empty group. -/
theorem exceptionSplitForStar_partition (t : ExcTree) (exc : ExceptionObject)
    (h : Represents t exc) (hclass : WellClassified vm t)
    (hp : MatchesOnLeaves vm active handlerType p t.leaves) (n : Nat) :
    ∃ matched remaining n', vm.exceptionSplitForStar active (.exception exc) handlerType n =
        .ok ((matched, remaining), n') ∧
      Option.Rel Represents (matchedPart vm p t) matched ∧
      Option.Rel Represents (t.filter fun e => !p e) remaining ∧
      ExcTree.partLeaves (matchedPart vm p t) = t.leaves.filter p ∧
      ExcTree.partLeaves (t.filter fun e => !p e) = t.leaves.filter (fun e => !p e) ∧
      (matched = none ↔ t.leaves.filter p = []) ∧
      (remaining = none ↔ t.leaves.filter (fun e => !p e) = []) ∧
      (∀ u ∈ matchedPart vm p t, ExcTree.NoEmptyGroup u) ∧
      ∀ u ∈ t.filter fun e => !p e, ExcTree.NoEmptyGroup u := by
  obtain ⟨matched, remaining, n', hsplit, hm, hr⟩ :=
    exceptionSplitForStar_parts t exc h hclass hp n
  have none_iff {part : Option ExcTree} {o : Option ExceptionObject}
      (h : Option.Rel Represents part o) : o = none ↔ part = none := by
    cases h <;> simp
  exact ⟨matched, remaining, n', hsplit, hm, hr, partLeaves_matchedPart vm p t,
    ExcTree.partLeaves_filter _ t, (none_iff hm).trans (matchedPart_eq_none_iff vm p t),
    (none_iff hr).trans (ExcTree.filter_eq_none_iff _ t),
    fun _ => noEmptyGroup_of_mem_matchedPart, fun u => ExcTree.noEmptyGroup_of_mem_filter _ t u⟩

end Split

/-! ## A nested group -/

/-- An exception object as `ExceptionObject::new` and `with_members` make it. -/
def plainException (objectId : Nat) (name : String) (exceptions : List ExceptionObject) :
    ExceptionObject where
  objectId := objectId
  name := name
  message := none
  notes := []
  exceptions := exceptions
  cause := none
  context := none
  suppressContext := false
  attrs := []

/-- `ExceptionGroup(ValueError, ExceptionGroup(TypeError))`. -/
def nestedGroup : ExceptionObject :=
  plainException 3 "ExceptionGroup"
    [plainException 0 "ValueError" [],
      plainException 2 "ExceptionGroup" [plainException 1 "TypeError" []]]

/-- The tree `nestedGroup` holds. -/
def nestedTree : ExcTree :=
  .group (plainException 3 "ExceptionGroup" []).header
    [.leaf (plainException 0 "ValueError" []),
      .group (plainException 2 "ExceptionGroup" []).header
        [.leaf (plainException 1 "TypeError" [])]]

lemma represents_nestedTree : Represents nestedTree nestedGroup :=
  .group rfl (.cons (.leaf _) (.cons (.group rfl (.cons (.leaf _) .nil)) .nil))

lemma wellClassified_nestedTree : WellClassified Vm.initial nestedTree := by
  have hnames : Vm.initial.exceptionInherits "ExceptionGroup" "BaseExceptionGroup" = true ∧
      Vm.initial.exceptionInherits "ValueError" "BaseExceptionGroup" = false ∧
      Vm.initial.exceptionInherits "TypeError" "BaseExceptionGroup" = false := by
    decide +kernel
  obtain ⟨hgroup, hvalueError, htypeError⟩ := hnames
  refine .group hgroup fun t ht => ?_
  rcases List.mem_pair.1 ht with rfl | rfl
  · exact .leaf hvalueError
  · refine .group hgroup fun t ht => ?_
    rw [List.mem_singleton.1 ht]
    exact .leaf htypeError

/-- Splitting `nestedGroup` for `ValueError`: the matched part keeps the outer group around the
`ValueError`, the remaining part both groups around the `TypeError`. -/
theorem exceptionSplitForStar_partition_nested :
    ∃ matched remaining n',
      Vm.initial.exceptionSplitForStar none (.exception nestedGroup) (.exceptionType "ValueError")
        4 = .ok ((matched, remaining), n') ∧
      matched.isSome ∧ remaining.isSome := by
  have hp : MatchesOnLeaves Vm.initial none (.exceptionType "ValueError")
      (fun e => e.name == "ValueError") nestedTree.leaves := by
    intro exc hexc
    rcases List.mem_pair.1 hexc with rfl | rfl <;> rfl
  obtain ⟨matched, remaining, n', hsplit, -, -, -, -, hm, hr, -, -⟩ :=
    exceptionSplitForStar_partition nestedTree nestedGroup represents_nestedTree
      wellClassified_nestedTree hp 4
  refine ⟨matched, remaining, n', hsplit, ?_, ?_⟩
  · exact Option.isSome_iff_ne_none.2 fun h => absurd (hm.1 h) (by decide)
  · exact Option.isSome_iff_ne_none.2 fun h => absurd (hr.1 h) (by decide)

end Pyrs
