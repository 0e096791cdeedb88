import Pyrs.Model.StarHandlers
import Pyrs.Properties.GroupSplit

/-!
# What `except*` loses

The code of the handlers takes the remainder from one handler to the next.  A run loses no
exception if and only if every handler still finds a leaf left, and a handler that raises leaves
nothing over that a later one matches or that is not in the exception it raises.

The remainder is kept in a temporary.  At module level its load may find the entry that an earlier
run of the statement left in the inline cache of `LoadName`; `StarFrame.execute` takes these entries
as an argument, and the result is about runs that find none.
-/

namespace Pyrs

/-! ## Running the code -/

def exceptionValue (part : Option ExceptionObject) : Value := (part.map Value.exception).getD .none

/-- The handlers one after the other, with the current exception and the remainder. -/
def handleStar : ℕ → List StarHandler → Option Value → Value → StarResult
  | _, [], _, remaining =>
    ⟨match remaining with
      | .none => .completed
      | value => .raised value, []⟩
  | index, handler :: handlers, active, remaining =>
    match handler.vm.exceptionSplitForStar active remaining handler.handlerType
      handler.nextObjectId with
    | .error error => ⟨.failed error, []⟩
    | .ok ((none, rest), _) => handleStar (index + 1) handlers active (exceptionValue rest)
    | .ok ((some matched, rest), _) =>
      match handler.raises with
      | some exception => ⟨.raised (.exception exception), [(index, some (.exception matched))]⟩
      | none =>
        let result := handleStar (index + 1) handlers none (exceptionValue rest)
        { result with bodies := (index, some (.exception matched)) :: result.bodies }

/-- A result, behind the bodies that were run before. -/
def StarResult.after (result : StarResult) (bodies : List (ℕ × Option Value)) : StarResult :=
  { result with bodies := bodies ++ result.bodies }

/-- No load finds an entry: the code of a function, or of a module at its first run or behind a
store of a global. -/
abbrev StarFrame.noEntries : ℕ → Option Value := fun _ => none

section Code

open StarFrame

variable {code : List StarOp} {handlers : List StarHandler}

/-- The remainder is raised behind the last handler. -/
lemma ends_reraise {start : ℕ} (hcode : code.drop start = starReraiseCode start)
    (stack : List Value) (remaining : Value) (active : Option Value) (vm : Vm) (nextObjectId : ℕ)
    (bodies : List (ℕ × Option Value)) (index : ℕ) :
    StarFrame.Ends code noEntries handlers ⟨start, stack, remaining, active, vm,
      nextObjectId, bodies⟩
      ((handleStar index [] active remaining).after bodies) := by
  have hop : ∀ k, code[start + k]? = (starReraiseCode start)[k]? := fun k => by
    rw [← hcode, List.getElem?_drop]
  have hend : code[start + 4]? = none := hop 4
  refine .step _ _ .loadRemaining _ (hop 0) rfl ?_
  by_cases hnone : remaining = .none
  · subst hnone
    refine .step _ _ (.jumpIfNone (start + 4)) _ (hop 1) rfl ?_
    rw [StarResult.after, handleStar, List.append_nil]
    exact .completed _ hend
  · have hjump : ∀ frame : StarFrame, frame.stack = remaining :: stack →
        frame.execute noEntries handlers (.jumpIfNone (start + 4)) =
          .inl (frame.advance stack) := by
      intro frame hstack
      rw [StarFrame.execute, hstack]
      cases remaining with
      | none => exact absurd rfl hnone
      | _ => rfl
    refine .step _ _ (.jumpIfNone (start + 4)) _ (hop 1) (hjump _ rfl) ?_
    refine .step _ _ .loadRemaining _ (hop 2) rfl ?_
    refine .ended _ .raise _ (hop 3) ?_
    rw [StarResult.after, handleStar, List.append_nil]
    · cases remaining with
      | none => exact absurd rfl hnone
      | _ => rfl
    · exact hnone

/-- The code of a handler is behind the start, and the code of the others behind it. -/
lemma drop_handlersCode {start index : ℕ} {handler : StarHandler} {rest : List StarHandler}
    (hcode : code.drop start = starHandlersCode start index (handler :: rest) ++
      starReraiseCode (start + (starHandlersCode start index (handler :: rest)).length)) :
    code.drop (start + (starHandlerCode start index handler.named).length) =
      starHandlersCode (start + (starHandlerCode start index handler.named).length) (index + 1)
        rest ++ starReraiseCode (start + (starHandlerCode start index handler.named).length +
          (starHandlersCode (start + (starHandlerCode start index handler.named).length) (index + 1)
            rest).length) := by
  rw [← List.drop_drop, hcode, starHandlersCode, List.append_assoc, List.drop_left,
    List.length_append, Nat.add_assoc]

section Handler

variable {start index : ℕ} {named : Bool} {stack : List Value} {remaining : Value}
variable {active : Option Value} {vm : Vm} {nextObjectId : ℕ} {bodies : List (ℕ × Option Value)}
variable {matched : ExceptionObject} {handler : StarHandler} {result : StarResult}

/-- Nothing matches: the marker is dropped at the start of the next handler. -/
lemma ends_unmatched
    (hop : ∀ k op, (starHandlerCode start index named)[k]? = some op → code[start + k]? = some op)
    (hnext : StarFrame.Ends code noEntries handlers
      ⟨start + (starHandlerCode start index named).length, stack, remaining, active, vm,
        nextObjectId, bodies⟩ result) :
    StarFrame.Ends code noEntries handlers ⟨start + 5, .none :: .none :: stack, remaining,
      active, vm,
      nextObjectId, bodies⟩ result := by
  cases named with
  | true =>
    refine .step _ _ (.jumpIfNone (start + 11)) _ (hop 5 _ rfl) rfl ?_
    refine .step _ _ .popTop _ (hop 11 _ rfl) rfl ?_
    exact hnext
  | false =>
    refine .step _ _ (.jumpIfNone (start + 10)) _ (hop 5 _ rfl) rfl ?_
    refine .step _ _ .popTop _ (hop 10 _ rfl) rfl ?_
    exact hnext

/-- The body of a handler that matches starts with the matched part off the stack. -/
lemma ends_matched
    (hop : ∀ k op, (starHandlerCode start index named)[k]? = some op → code[start + k]? = some op)
    (hbody : StarFrame.Ends code noEntries handlers ⟨start + 7, stack, remaining, active, vm,
      nextObjectId,
      bodies⟩ result) :
    StarFrame.Ends code noEntries handlers ⟨start + 5, .exception matched ::
      .exception matched :: stack,
      remaining, active, vm, nextObjectId, bodies⟩ result := by
  cases named with
  | true =>
    refine .step _ _ (.jumpIfNone (start + 11)) _ (hop 5 _ rfl) rfl ?_
    refine .step _ _ .storeName _ (hop 6 _ rfl) rfl ?_
    exact hbody
  | false =>
    refine .step _ _ (.jumpIfNone (start + 10)) _ (hop 5 _ rfl) rfl ?_
    refine .step _ _ .popTop _ (hop 6 _ rfl) rfl ?_
    exact hbody

/-- A body that completes clears the exception and goes to the next handler. -/
lemma ends_body
    (hop : ∀ k op, (starHandlerCode start index named)[k]? = some op → code[start + k]? = some op)
    (hhandler : handlers[index]? = some handler) (hraises : handler.raises = none)
    (hnext : StarFrame.Ends code noEntries handlers
      ⟨start + (starHandlerCode start index named).length, stack, remaining, none, vm,
        nextObjectId, bodies ++ [(index, active)]⟩ result) :
    StarFrame.Ends code noEntries handlers ⟨start + 7, stack, remaining, active, vm,
      nextObjectId, bodies⟩
      result := by
  have hstep : StarFrame.execute noEntries handlers ⟨start + 7, stack, remaining, active, vm,
      nextObjectId,
      bodies⟩ (.body index) = .inl ⟨start + 8, stack, remaining, active, vm, nextObjectId,
        bodies ++ [(index, active)]⟩ := by
    simp only [StarFrame.execute, hhandler, hraises]
    rfl
  cases named with
  | true =>
    refine .step _ _ (.body index) _ (hop 7 _ rfl) hstep ?_
    refine .step _ _ .deleteName _ (hop 8 _ rfl) rfl ?_
    refine .step _ _ .clearException _ (hop 9 _ rfl) rfl ?_
    refine .step _ _ (.jump (start + 12)) _ (hop 10 _ rfl) rfl ?_
    exact hnext
  | false =>
    refine .step _ _ (.body index) _ (hop 7 _ rfl) hstep ?_
    refine .step _ _ .clearException _ (hop 8 _ rfl) rfl ?_
    refine .step _ _ (.jump (start + 11)) _ (hop 9 _ rfl) rfl ?_
    exact hnext

end Handler

lemma ends_handlers {hs : List StarHandler} {start index : ℕ}
    (hcode : code.drop start = starHandlersCode start index hs ++
      starReraiseCode (start + (starHandlersCode start index hs).length))
    (hhandlers : handlers.drop index = hs) (stack : List Value) (remaining : Value)
    (active : Option Value) (vm : Vm) (nextObjectId : ℕ) (bodies : List (ℕ × Option Value)) :
    StarFrame.Ends code noEntries handlers ⟨start, stack, remaining, active, vm,
      nextObjectId, bodies⟩
      ((handleStar index hs active remaining).after bodies) := by
  induction hs generalizing start index remaining active vm nextObjectId bodies with
  | nil => exact ends_reraise hcode stack remaining active vm nextObjectId bodies index
  | cons handler rest ih =>
    have hhandler : handlers[index]? = some handler := by
      rw [← Nat.add_zero index, ← List.getElem?_drop, hhandlers]
      rfl
    have hrest : handlers.drop (index + 1) = rest := by
      rw [← List.drop_drop, hhandlers]
      rfl
    have hnext := ih (drop_handlersCode hcode) hrest
    have hop : ∀ k op, (starHandlerCode start index handler.named)[k]? = some op →
        code[start + k]? = some op := fun k op hget => by
      obtain ⟨hk, -⟩ := List.getElem?_eq_some_iff.1 hget
      rw [← List.getElem?_drop, hcode, starHandlersCode, List.append_assoc,
        List.getElem?_append_left hk, hget]
    obtain ⟨named, typeVm, typeObjectId, handlerType, raises⟩ := handler
    -- The type is evaluated, and the remainder is split.
    refine .step _ _ .loadRemaining _ (hop 0 _ rfl) rfl ?_
    refine .step _ ⟨start + 2, handlerType :: remaining :: stack, remaining, active, typeVm,
      typeObjectId, bodies⟩ (.typeExpr index) _ (hop 1 _ rfl)
      (by rw [StarFrame.execute, hhandler]; rfl) ?_
    cases hsplit : typeVm.exceptionSplitForStar active remaining handlerType typeObjectId with
    | error error =>
      refine .ended _ .matchExceptionStar _ (hop 2 _ rfl) ?_
      simp only [StarFrame.execute, hsplit, StarFrame.ends, StarResult.after, handleStar,
        List.append_nil]
    | ok split =>
      obtain ⟨⟨matched, remainder⟩, splitObjectId⟩ := split
      refine .step _ ⟨start + 3, exceptionValue remainder :: exceptionValue matched :: stack,
        remaining, (matched.map Value.exception).or active, typeVm, splitObjectId, bodies⟩
        .matchExceptionStar _ (hop 2 _ rfl)
        (by simp only [StarFrame.execute, hsplit]; rfl) ?_
      refine .step _ _ .storeRemaining _ (hop 3 _ rfl) rfl ?_
      refine .step _ _ .dupTop _ (hop 4 _ rfl) rfl ?_
      cases matched with
      | none =>
        have hresult : handleStar index (⟨named, typeVm, typeObjectId, handlerType, raises⟩ :: rest)
            active remaining = handleStar (index + 1) rest active (exceptionValue remainder) := by
          simp only [handleStar, hsplit]
        rw [hresult]
        exact ends_unmatched hop (hnext ..)
      | some matched =>
        refine ends_matched hop ?_
        cases raises with
        | some exception =>
          have hresult :
              handleStar index (⟨named, typeVm, typeObjectId, handlerType, some exception⟩ :: rest)
                active remaining =
              ⟨.raised (.exception exception), [(index, some (.exception matched))]⟩ := by
            simp only [handleStar, hsplit]
          have hbody : code[start + 7]? = some (.body index) := by
            cases named with
            | true => exact hop 7 _ rfl
            | false => exact hop 7 _ rfl
          rw [hresult]
          refine .ended _ (.body index) _ hbody ?_
          simp only [StarFrame.execute, hhandler]
          rfl
        | none =>
          have hresult : (handleStar index
              (⟨named, typeVm, typeObjectId, handlerType, none⟩ :: rest) active remaining).after
                bodies =
              (handleStar (index + 1) rest none (exceptionValue remainder)).after
                (bodies ++ [(index, some (.exception matched))]) := by
            simp only [handleStar, hsplit, StarResult.after, List.append_assoc,
              List.singleton_append]
          rw [hresult]
          exact ends_body hop hhandler rfl (hnext ..)

/-- The code of the handlers does what they do one after the other. -/
lemma ends_compileStarHandlers (handlers : List StarHandler) (exception : ExceptionObject)
    (stack : List Value) (vm : Vm) (nextObjectId : ℕ) :
    StarFrame.Ends (compileStarHandlers handlers) noEntries handlers
      (.entered exception stack vm nextObjectId)
      (handleStar 0 handlers (some (.exception exception)) (.exception exception)) := by
  have hcode : (compileStarHandlers handlers).drop 1 = starHandlersCode 1 0 handlers ++
      starReraiseCode (1 + (starHandlersCode 1 0 handlers).length) := by
    rw [Nat.add_comm]
    rfl
  refine .step _ _ .storeRemaining _ rfl rfl ?_
  exact ends_handlers hcode rfl stack (.exception exception) (some (.exception exception)) vm
    nextObjectId []

/-- A run has one result. -/
lemma StarFrame.Ends.unique {entries : ℕ → Option Value} {frame : StarFrame}
    {result other : StarResult}
    (h : frame.Ends code entries handlers result)
    (hother : frame.Ends code entries handlers other) :
    other = result := by
  induction h with
  | completed frame hnone =>
    cases hother with
    | completed => rfl
    | ended _ op _ hop => cases hnone.symm.trans hop
    | step _ next op _ hop => cases hnone.symm.trans hop
  | ended frame op result hop hexecute =>
    cases hother with
    | completed _ hnone => cases hnone.symm.trans hop
    | ended _ op' _ hop' hexecute' =>
      obtain rfl := Option.some.inj (hop.symm.trans hop')
      exact Sum.inr.inj (hexecute'.symm.trans hexecute)
    | step _ next op' _ hop' hexecute' =>
      obtain rfl := Option.some.inj (hop.symm.trans hop')
      cases hexecute.symm.trans hexecute'
  | step frame next op result hop hexecute _ ih =>
    cases hother with
    | completed _ hnone => cases hnone.symm.trans hop
    | ended _ op' _ hop' hexecute' =>
      obtain rfl := Option.some.inj (hop.symm.trans hop')
      cases hexecute.symm.trans hexecute'
    | step _ next' op' _ hop' hexecute' hnext =>
      obtain rfl := Option.some.inj (hop.symm.trans hop')
      obtain rfl := Sum.inl.inj (hexecute.symm.trans hexecute')
      exact ih hnext

end Code

/-! ## Leaves and exceptions -/

/-- An exception is contained in itself, and the members of a group and what they contain in the
group. -/
inductive ExceptionObject.Contains : ExceptionObject → ExceptionObject → Prop
  | self (exc : ExceptionObject) : Contains exc exc
  | member {exc leaf : ExceptionObject} (member : ExceptionObject) (h : member ∈ exc.exceptions)
      (hleaf : Contains member leaf) : Contains exc leaf

mutual

/-- An exception contains the leaves of its tree. -/
lemma Represents.contains : ∀ {t : ExcTree} {exc : ExceptionObject}, Represents t exc →
    ∀ leaf ∈ t.leaves, exc.Contains leaf
  | .leaf exc, _, .leaf _, leaf, hleaf => by
    rw [ExcTree.leaves, List.mem_singleton] at hleaf
    exact hleaf ▸ .self exc
  | .group _ _, _, .group _ hmembers, leaf, hleaf => by
    obtain ⟨member, hmember, hcontains⟩ := contains_member hmembers leaf hleaf
    exact .member member hmember hcontains

lemma contains_member : ∀ {ts : List ExcTree} {excs : List ExceptionObject},
    List.Forall₂ Represents ts excs → ∀ leaf ∈ ExcTree.leavesList ts,
      ∃ exc ∈ excs, exc.Contains leaf
  | [], _, _, _, hleaf => by simp [ExcTree.leavesList] at hleaf
  | _ :: _, _, .cons h hs, leaf, hleaf => by
    rcases List.mem_append.1 hleaf with hleaf | hleaf
    · exact ⟨_, List.mem_cons_self, h.contains leaf hleaf⟩
    · obtain ⟨exc, hexc, hcontains⟩ := contains_member hs leaf hleaf
      exact ⟨exc, List.mem_cons_of_mem _ hexc, hcontains⟩

end

mutual

/-- What is left of a tree has its groups where the tree has them. -/
lemma WellClassified.filter {vm : Vm} (p : ExceptionObject → Bool) :
    ∀ {t : ExcTree}, WellClassified vm t → ∀ u ∈ t.filter p, WellClassified vm u
  | .leaf exc, h, u, hu => by
    by_cases hp : p exc
    · simp only [ExcTree.filter, hp, if_true, Option.mem_def, Option.some.injEq] at hu
      exact hu ▸ h
    · simp [ExcTree.filter, hp] at hu
  | .group header members, .group hheader hmembers, u, hu => by
    have ih := wellClassified_filterList p hmembers
    rw [ExcTree.filter] at hu
    cases hlist : ExcTree.filterList p members with
    | nil => simp [hlist, ExcTree.regroup] at hu
    | cons t ts =>
      simp only [hlist, ExcTree.regroup, Option.mem_def, Option.some.injEq] at hu
      exact hu ▸ .group hheader (hlist ▸ ih)

lemma wellClassified_filterList {vm : Vm} (p : ExceptionObject → Bool) :
    ∀ {ts : List ExcTree}, (∀ t ∈ ts, WellClassified vm t) →
      ∀ u ∈ ExcTree.filterList p ts, WellClassified vm u
  | [], _, u, hu => by simp [ExcTree.filterList] at hu
  | t :: ts, h, u, hu => by
    rcases List.mem_append.1 hu with hu | hu
    · exact WellClassified.filter p (h t List.mem_cons_self) u (by simpa using hu)
    · exact wellClassified_filterList p (fun t ht => h t (List.mem_cons_of_mem _ ht)) u hu

end

/-- A group stays one. -/
lemma filter_group {p : ExceptionObject → Bool} {header : GroupHeader} {members : List ExcTree}
    {u : ExcTree} (hu : (ExcTree.group header members).filter p = some u) :
    ∃ members', u = .group header members' := by
  rw [ExcTree.filter] at hu
  cases hlist : ExcTree.filterList p members with
  | nil => simp [hlist, ExcTree.regroup] at hu
  | cons t ts =>
    rw [hlist, ExcTree.regroup] at hu
    exact ⟨_, (Option.some.inj hu).symm⟩

/-! ## What is lost -/

/-- The exception that propagates contains the leaf. -/
def StarEnd.Carries (ending : StarEnd) (leaf : ExceptionObject) : Prop :=
  ∃ exc, ending = .raised (.exception exc) ∧ exc.Contains leaf

/-- No exception is lost by handlers that are numbered from `first` on: a leaf is given to the first
handler that matches it, what no handler matches and what a body raises propagates, and nothing
propagates if there is none of both. -/
structure LosesNothing (matching : StarHandler → ExceptionObject → Bool) (first : ℕ)
    (handlers : List StarHandler) (leaves : List ExceptionObject) (result : StarResult) :
    Prop where
  delivered : ∀ i handler leaf, handlers[i]? = some handler → leaf ∈ leaves →
    matching handler leaf → (∀ earlier ∈ handlers.take i, matching earlier leaf = false) →
    ∃ group, (first + i, some (.exception group)) ∈ result.bodies ∧ group.Contains leaf
  unmatched : ∀ leaf ∈ leaves, (∀ handler ∈ handlers, matching handler leaf = false) →
    result.ending.Carries leaf
  raised : ∀ i handler seen exc, handlers[i]? = some handler → (first + i, seen) ∈ result.bodies →
    handler.raises = some exc → result.ending.Carries exc
  completes : result.ending = .completed ↔
    (∀ leaf ∈ leaves, ∃ handler ∈ handlers, matching handler leaf) ∧
      ∀ i handler seen, handlers[i]? = some handler → (first + i, seen) ∈ result.bodies →
        handler.raises = none

/-- Every handler finds a leaf left, but for an empty group at the only handler.  What a handler
that raises leaves over is matched by no later one and contained in the exception. -/
def Recoverable (matching : StarHandler → ExceptionObject → Bool) :
    List StarHandler → List ExceptionObject → Prop
  | [], leaves => leaves ≠ []
  | handler :: handlers, leaves =>
    let rest := leaves.filter fun leaf => !matching handler leaf
    match leaves.any (matching handler), handler.raises with
    | true, some exc =>
      ∀ leaf ∈ rest, (∀ later ∈ handlers, matching later leaf = false) ∧ exc.Contains leaf
    | _, _ => if rest = [] then handlers = [] else Recoverable matching handlers rest

section Lost

variable {matching : StarHandler → ExceptionObject → Bool}

/-- The bodies that are run are numbered. -/
lemma le_of_mem_handleStar {handlers : List StarHandler} {first : ℕ} {active : Option Value}
    {remaining : Value} {body : ℕ × Option Value}
    (h : body ∈ (handleStar first handlers active remaining).bodies) : first ≤ body.1 := by
  induction handlers generalizing first active remaining with
  | nil => simp [handleStar] at h
  | cons handler handlers ih =>
    rw [handleStar] at h
    split at h
    · simp at h
    · exact (Nat.le_succ first).trans (ih h)
    · split at h
      · rw [List.mem_singleton] at h
        exact h ▸ le_rfl
      · rcases List.mem_cons.1 h with rfl | h
        · exact le_rfl
        · exact (Nat.le_succ first).trans (ih h)

/-- A leaf that some handler matches has a first one. -/
lemma exists_first_matching {handlers : List StarHandler} {leaf : ExceptionObject}
    (h : ∃ handler ∈ handlers, matching handler leaf = true) :
    ∃ i handler, handlers[i]? = some handler ∧ matching handler leaf = true ∧
      ∀ earlier ∈ handlers.take i, matching earlier leaf = false := by
  induction handlers with
  | nil =>
    obtain ⟨handler, hmem, -⟩ := h
    exact absurd hmem List.not_mem_nil
  | cons head handlers ih =>
    cases hhead : matching head leaf with
    | true => exact ⟨0, head, rfl, hhead, fun earlier hearlier => absurd hearlier List.not_mem_nil⟩
    | false =>
      obtain ⟨handler, hmem, hmatching⟩ := h
      have hlater : handler ∈ handlers := by
        rcases List.mem_cons.1 hmem with rfl | hmem
        · rw [hhead] at hmatching
          exact absurd hmatching Bool.false_ne_true
        · exact hmem
      obtain ⟨i, handler, hget, hmatching, hearlier⟩ := ih ⟨handler, hlater, hmatching⟩
      refine ⟨i + 1, handler, hget, hmatching, fun earlier hmem => ?_⟩
      rcases List.mem_cons.1 hmem with rfl | hmem
      · exact hhead
      · exact hearlier earlier hmem

/-- A handler that does not raise leaves the rest to the others. -/
lemma losesNothing_cons {handler : StarHandler} {handlers : List StarHandler} {first : ℕ}
    {leaves : List ExceptionObject} {result : StarResult} (ran : List (ℕ × Option Value))
    (hran : ∀ body ∈ ran, body.1 = first ∧ handler.raises = none)
    (hdelivered : ∀ leaf ∈ leaves, matching handler leaf →
      ∃ group, (first, some (.exception group)) ∈ ran ∧ group.Contains leaf)
    (hbodies : ∀ body ∈ result.bodies, first + 1 ≤ body.1) :
    LosesNothing matching first (handler :: handlers) leaves (result.after ran) ↔
      LosesNothing matching (first + 1) handlers (leaves.filter fun leaf => !matching handler leaf)
        result := by
  have hleaf : ∀ leaf, (leaf ∈ leaves.filter fun leaf => !matching handler leaf) ↔
      leaf ∈ leaves ∧ matching handler leaf = false := by simp
  have hindex : ∀ i, first + (i + 1) = first + 1 + i := fun i => by omega
  -- The bodies of the others are not among those that the first handler ran.
  have hlater : ∀ i seen, (first + 1 + i, seen) ∈ ran ++ result.bodies ↔
      (first + 1 + i, seen) ∈ result.bodies := by
    intro i seen
    refine ⟨fun h => (List.mem_append.1 h).resolve_left fun h => ?_, List.mem_append_right _⟩
    have := (hran _ h).1
    omega
  have hown : ∀ seen, (first + 0, seen) ∈ ran ++ result.bodies → handler.raises = none := by
    intro seen h
    rcases List.mem_append.1 h with h | h
    · exact (hran _ h).2
    · have := hbodies _ h
      omega
  have hmatched : (∀ leaf ∈ leaves, ∃ later ∈ handler :: handlers, matching later leaf = true) ↔
      ∀ leaf ∈ leaves.filter fun leaf => !matching handler leaf,
        ∃ later ∈ handlers, matching later leaf = true := by
    constructor
    · intro h leaf hmem
      obtain ⟨hmem, hnot⟩ := (hleaf leaf).1 hmem
      obtain ⟨later, hlatermem, hmatching⟩ := h leaf hmem
      rcases List.mem_cons.1 hlatermem with rfl | hlatermem
      · rw [hnot] at hmatching
        exact absurd hmatching Bool.false_ne_true
      · exact ⟨later, hlatermem, hmatching⟩
    · intro h leaf hmem
      cases hmatching : matching handler leaf with
      | true => exact ⟨handler, List.mem_cons_self, hmatching⟩
      | false =>
        obtain ⟨later, hlatermem, hmatching⟩ := h leaf ((hleaf leaf).2 ⟨hmem, hmatching⟩)
        exact ⟨later, List.mem_cons_of_mem _ hlatermem, hmatching⟩
  have hraised : (∀ i later seen, (handler :: handlers)[i]? = some later →
      (first + i, seen) ∈ (result.after ran).bodies → later.raises = none) ↔
      ∀ i later seen, handlers[i]? = some later → (first + 1 + i, seen) ∈ result.bodies →
        later.raises = none := by
    constructor
    · intro h i later seen hget hbody
      exact h (i + 1) later seen hget (by rw [hindex]; exact (hlater i seen).2 hbody)
    · intro h i later seen hget hbody
      cases i with
      | zero =>
        obtain rfl := Option.some.inj hget
        exact hown seen hbody
      | succ i =>
        rw [hindex] at hbody
        exact h i later seen hget ((hlater i seen).1 hbody)
  constructor
  · intro h
    refine ⟨?_, ?_, ?_, ?_⟩
    · intro i later leaf hget hmem hmatching hearlier
      obtain ⟨hmem, hnot⟩ := (hleaf leaf).1 hmem
      obtain ⟨group, hbody, hcontains⟩ := h.delivered (i + 1) later leaf hget hmem hmatching
        (List.forall_mem_cons.2 ⟨hnot, hearlier⟩)
      rw [hindex] at hbody
      exact ⟨group, (hlater i _).1 hbody, hcontains⟩
    · intro leaf hmem hnone
      obtain ⟨hmem, hnot⟩ := (hleaf leaf).1 hmem
      exact h.unmatched leaf hmem (List.forall_mem_cons.2 ⟨hnot, hnone⟩)
    · intro i later seen exc hget hbody hraises
      exact h.raised (i + 1) later seen exc hget
        (by rw [hindex]; exact (hlater i seen).2 hbody) hraises
    · exact h.completes.trans (and_congr hmatched hraised)
  · intro h
    refine ⟨?_, ?_, ?_, ?_⟩
    · intro i later leaf hget hmem hmatching hearlier
      cases i with
      | zero =>
        obtain rfl := Option.some.inj hget
        obtain ⟨group, hbody, hcontains⟩ := hdelivered leaf hmem hmatching
        exact ⟨group, List.mem_append_left _ hbody, hcontains⟩
      | succ i =>
        obtain ⟨hnot, hearlier⟩ := List.forall_mem_cons.1 hearlier
        obtain ⟨group, hbody, hcontains⟩ := h.delivered i later leaf hget
          ((hleaf leaf).2 ⟨hmem, hnot⟩) hmatching hearlier
        rw [hindex]
        exact ⟨group, (hlater i _).2 hbody, hcontains⟩
    · intro leaf hmem hnone
      obtain ⟨hnot, hnone⟩ := List.forall_mem_cons.1 hnone
      exact h.unmatched leaf ((hleaf leaf).2 ⟨hmem, hnot⟩) hnone
    · intro i later seen exc hget hbody hraises
      cases i with
      | zero =>
        obtain rfl := Option.some.inj hget
        rw [hown seen hbody] at hraises
        cases hraises
      | succ i =>
        rw [hindex] at hbody
        exact h.raised i later seen exc hget ((hlater i seen).1 hbody) hraises
    · exact h.completes.trans (and_congr hmatched hraised).symm

/-- A handler that raises ends the statement. -/
lemma losesNothing_raised {handler : StarHandler} {handlers : List StarHandler} {first : ℕ}
    {leaves : List ExceptionObject} {exc group : ExceptionObject}
    (hraises : handler.raises = some exc)
    (hdelivered : ∀ leaf ∈ leaves, matching handler leaf → group.Contains leaf) :
    LosesNothing matching first (handler :: handlers) leaves
        ⟨.raised (.exception exc), [(first, some (.exception group))]⟩ ↔
      ∀ leaf ∈ leaves.filter fun leaf => !matching handler leaf,
        (∀ later ∈ handlers, matching later leaf = false) ∧ exc.Contains leaf := by
  have hcarries : ∀ leaf, (StarEnd.raised (.exception exc)).Carries leaf ↔ exc.Contains leaf :=
    fun leaf => ⟨fun ⟨_, heq, h⟩ => by cases heq; exact h, fun h => ⟨exc, rfl, h⟩⟩
  constructor
  · intro h leaf hmem
    obtain ⟨hmem, hnot⟩ := List.mem_filter.1 hmem
    have hnot : matching handler leaf = false := by simpa using hnot
    have hnone : ∀ later ∈ handlers, matching later leaf = false := by
      by_contra hsome
      push Not at hsome
      simp only [ne_eq, Bool.not_eq_false] at hsome
      obtain ⟨i, later, hget, hmatching, hearlier⟩ := exists_first_matching hsome
      obtain ⟨group', hbody, -⟩ := h.delivered (i + 1) later leaf hget hmem hmatching
        (List.forall_mem_cons.2 ⟨hnot, hearlier⟩)
      have := congrArg Prod.fst (List.mem_singleton.1 hbody)
      simp only at this
      omega
    exact ⟨hnone, (hcarries leaf).1 (h.unmatched leaf hmem (List.forall_mem_cons.2 ⟨hnot, hnone⟩))⟩
  · intro h
    have hrest : ∀ leaf ∈ leaves, matching handler leaf = false →
        (∀ later ∈ handlers, matching later leaf = false) ∧ exc.Contains leaf :=
      fun leaf hmem hnot => h leaf (List.mem_filter.2 ⟨hmem, by rw [hnot]; rfl⟩)
    have hindex : ∀ i seen, (first + i, seen) ∈ [(first, some (Value.exception group))] →
        i = 0 := by
      intro i seen hbody
      have := congrArg Prod.fst (List.mem_singleton.1 hbody)
      simp only at this
      omega
    refine ⟨?_, ?_, ?_, ?_⟩
    · intro i later leaf hget hmem hmatching hearlier
      cases i with
      | zero =>
        obtain rfl := Option.some.inj hget
        exact ⟨group, List.mem_singleton_self _, hdelivered leaf hmem hmatching⟩
      | succ i =>
        obtain ⟨hnot, -⟩ := List.forall_mem_cons.1 hearlier
        have := (hrest leaf hmem hnot).1 later (List.mem_of_getElem? hget)
        rw [this] at hmatching
        exact absurd hmatching Bool.false_ne_true
    · intro leaf hmem hnone
      exact (hcarries leaf).2 (hrest leaf hmem (hnone handler List.mem_cons_self)).2
    · intro i later seen exc' hget hbody hraises'
      obtain rfl := hindex i seen hbody
      obtain rfl := Option.some.inj hget
      obtain rfl := Option.some.inj (hraises.symm.trans hraises')
      exact (hcarries exc).2 (.self exc)
    · refine iff_of_false (fun heq => by cases heq) fun ⟨_, hraised⟩ => ?_
      have := hraised 0 handler _ rfl (List.mem_singleton_self _)
      rw [hraises] at this
      cases this

/-- Behind a handler that does not raise, nothing may be left only at the end. -/
lemma losesNothing_nothing_left {handlers : List StarHandler} {first : ℕ} {active : Option Value} :
    LosesNothing matching first handlers [] (handleStar first handlers active .none) ↔
      handlers = [] := by
  cases handlers with
  | nil =>
    refine iff_of_true ⟨?_, ?_, ?_, ?_⟩ rfl
    · intro i handler leaf hget
      cases hget
    · intro leaf hmem
      exact absurd hmem List.not_mem_nil
    · intro i handler seen exc hget
      cases hget
    · refine iff_of_true rfl ⟨fun leaf hmem => absurd hmem List.not_mem_nil, ?_⟩
      intro i handler seen hget
      cases hget
  | cons handler handlers =>
    refine iff_of_false (fun h => ?_) (List.cons_ne_nil _ _)
    have hfailed : handleStar first (handler :: handlers) active .none =
        ⟨.failed "expected exception instance", []⟩ := rfl
    rw [hfailed] at h
    have := h.completes.2 ⟨fun leaf hmem => absurd hmem List.not_mem_nil,
      fun i later seen _ hbody => absurd hbody List.not_mem_nil⟩
    cases this

/-- Without a handler the exception propagates. -/
lemma losesNothing_nil {first : ℕ} {active : Option Value} {leaves : List ExceptionObject}
    {exc : ExceptionObject} (hcontains : ∀ leaf ∈ leaves, exc.Contains leaf) :
    LosesNothing matching first [] leaves (handleStar first [] active (.exception exc)) ↔
      leaves ≠ [] := by
  have hraised : handleStar first [] active (.exception exc) = ⟨.raised (.exception exc), []⟩ := rfl
  rw [hraised]
  constructor
  · rintro h rfl
    have := h.completes.2 ⟨fun leaf hmem => absurd hmem List.not_mem_nil,
      fun i later seen hget => by cases hget⟩
    cases this
  · intro hne
    refine ⟨?_, ?_, ?_, ?_⟩
    · intro i handler leaf hget
      cases hget
    · intro leaf hmem _
      exact ⟨exc, rfl, hcontains leaf hmem⟩
    · intro i handler seen exc' hget
      cases hget
    · refine iff_of_false (fun heq => by cases heq) fun ⟨hmatched, _⟩ => ?_
      obtain ⟨leaf, hleaf⟩ := List.exists_mem_of_ne_nil leaves hne
      obtain ⟨handler, hmem, -⟩ := hmatched leaf hleaf
      exact absurd hmem List.not_mem_nil

/-- The handlers lose nothing if and only if all can be recovered, by induction on the handlers:
each gets what is left of the tree. -/
lemma losesNothing_handleStar {handlers : List StarHandler} {first : ℕ} (active : Option Value)
    {header : GroupHeader} {members : List ExcTree} {exc : ExceptionObject}
    (h : Represents (.group header members) exc)
    (hclass : ∀ handler ∈ handlers, WellClassified handler.vm (.group header members))
    (hmatch : ∀ handler ∈ handlers, ∀ active, MatchesOnLeaves handler.vm active
      handler.handlerType (matching handler) (ExcTree.group header members).leaves) :
    LosesNothing matching first handlers (ExcTree.group header members).leaves
        (handleStar first handlers active (.exception exc)) ↔
      Recoverable matching handlers (ExcTree.group header members).leaves := by
  induction handlers generalizing first active members exc with
  | nil => exact losesNothing_nil h.contains
  | cons handler handlers ih =>
    obtain ⟨hclass₀, hclass⟩ := List.forall_mem_cons.1 hclass
    obtain ⟨hmatch₀, hmatch⟩ := List.forall_mem_cons.1 hmatch
    obtain ⟨matched, remaining, n', hsplit, hmatched, hremaining⟩ :=
      exceptionSplitForStar_parts _ exc h hclass₀ (hmatch₀ active) handler.nextObjectId
    have hmatched : Option.Rel Represents ((ExcTree.group header members).filter (matching handler))
        matched := hmatched
    set leaves := (ExcTree.group header members).leaves with hleaves
    have hmatchedLeaves := ExcTree.partLeaves_filter (matching handler) (.group header members)
    have hrestLeaves := ExcTree.partLeaves_filter (fun leaf => !matching handler leaf)
      (.group header members)
    rw [← hleaves] at hmatchedLeaves hrestLeaves
    -- What the handlers behind this one do, when it does not raise.
    have hrest : ∀ active, LosesNothing matching (first + 1) handlers
        (leaves.filter fun leaf => !matching handler leaf)
          (handleStar (first + 1) handlers active (exceptionValue remaining)) ↔
        if (leaves.filter fun leaf => !matching handler leaf) = [] then handlers = []
        else Recoverable matching handlers (leaves.filter fun leaf => !matching handler leaf) := by
      intro active
      rw [← hrestLeaves]
      cases hfilter : (ExcTree.group header members).filter fun leaf => !matching handler leaf with
      | none =>
        rw [hfilter] at hremaining
        cases hremaining
        rw [ExcTree.partLeaves_none, if_pos rfl]
        exact losesNothing_nothing_left
      | some rest =>
        rw [hfilter] at hremaining
        obtain ⟨members', rfl⟩ := filter_group hfilter
        have hne := (ExcTree.noEmptyGroup_of_mem_filter _ _ _ hfilter).leaves_ne_nil
        cases hremaining with
        | some hrepresents =>
          rw [ExcTree.partLeaves_some, if_neg hne]
          refine ih active hrepresents (fun later hlater => ?_)
            fun later hlater active leaf hleaf => ?_
          · exact (hclass later hlater).filter _ _ hfilter
          · refine hmatch later hlater active leaf ?_
            rw [hfilter, ExcTree.partLeaves_some] at hrestLeaves
            rw [hrestLeaves] at hleaf
            exact List.mem_of_mem_filter hleaf
    rw [handleStar, hsplit, Recoverable]
    cases hfilter : (ExcTree.group header members).filter (matching handler) with
    | none =>
      rw [hfilter] at hmatched hmatchedLeaves
      have hany : leaves.any (matching handler) = false := by
        rw [List.any_eq_false]
        exact fun leaf hmem hmatching =>
          List.not_mem_nil (hmatchedLeaves ▸ List.mem_filter.2 ⟨hmem, hmatching⟩)
      cases hmatched
      rw [hany]
      rw [← hrest active]
      refine losesNothing_cons [] (fun body hbody => absurd hbody List.not_mem_nil) ?_
        fun body => le_of_mem_handleStar
      intro leaf hmem hmatching
      exact absurd hmatching (List.any_eq_false.1 hany leaf hmem)
    | some tree =>
      rw [hfilter] at hmatched hmatchedLeaves
      have hany : leaves.any (matching handler) = true := by
        obtain ⟨leaf, hleaf⟩ := List.exists_mem_of_ne_nil _
          (ExcTree.noEmptyGroup_of_mem_filter _ _ _ hfilter).leaves_ne_nil
        rw [← ExcTree.partLeaves_some, hmatchedLeaves, List.mem_filter] at hleaf
        exact List.any_eq_true.2 ⟨leaf, hleaf⟩
      cases hmatched with
      | @some _ group hgroup =>
        have hdelivered : ∀ leaf ∈ leaves, matching handler leaf → group.Contains leaf := by
          intro leaf hmem hmatching
          refine hgroup.contains leaf ?_
          rw [← ExcTree.partLeaves_some, hmatchedLeaves]
          exact List.mem_filter.2 ⟨hmem, hmatching⟩
        cases hraises : handler.raises with
        | some raised =>
          rw [hany]
          exact losesNothing_raised hraises hdelivered
        | none =>
          rw [hany]
          rw [← hrest none]
          refine losesNothing_cons [(first, some (.exception group))] ?_ ?_
            fun body => le_of_mem_handleStar
          · intro body hbody
            rw [List.mem_singleton.1 hbody]
            exact ⟨rfl, hraises⟩
          · intro leaf hmem hmatching
            exact ⟨group, List.mem_singleton_self _, hdelivered leaf hmem hmatching⟩

/-- **What `except*` loses.**  Where no load of the remainder finds the entry of an earlier run, the
code of the handlers ends with one result on every group, and the result loses no exception if and
only if all can be recovered. -/
theorem compileStarHandlers_losesNothing_iff {handlers : List StarHandler} {header : GroupHeader}
    {members : List ExcTree} {exception : ExceptionObject}
    (h : Represents (.group header members) exception)
    (hclass : ∀ handler ∈ handlers, WellClassified handler.vm (.group header members))
    (hmatch : ∀ handler ∈ handlers, ∀ active, MatchesOnLeaves handler.vm active
      handler.handlerType (matching handler) (ExcTree.group header members).leaves)
    {entries : ℕ → Option Value} (hentries : ∀ site, entries site = none) (stack : List Value)
    (vm : Vm) (nextObjectId : ℕ) :
    ∃ result,
      (∀ other, StarFrame.Ends (compileStarHandlers handlers) entries handlers
        (.entered exception stack vm nextObjectId) other ↔ other = result) ∧
      (LosesNothing matching 0 handlers (ExcTree.group header members).leaves result ↔
        Recoverable matching handlers (ExcTree.group header members).leaves) := by
  obtain rfl : entries = StarFrame.noEntries := funext hentries
  have hends := ends_compileStarHandlers handlers exception stack vm nextObjectId
  refine ⟨_, fun other => ⟨fun hother => hends.unique hother, ?_⟩,
    losesNothing_handleStar (some (.exception exception)) h hclass hmatch⟩
  rintro rfl
  exact hends

end Lost

/-! ## Two handlers -/

/-- A handler with a built-in exception as its type. -/
def builtinHandler (name : String) (raises : Option ExceptionObject) : StarHandler where
  named := false
  vm := Vm.initial
  nextObjectId := 5
  handlerType := .exceptionType name
  raises := raises

def builtinMatching (handler : StarHandler) (leaf : ExceptionObject) : Bool :=
  match handler.handlerType with
  | .exceptionType name => leaf.name == name
  | _ => false

/-- A handler for each leaf of `nestedGroup`. -/
def nestedHandlers (raises : Option ExceptionObject) : List StarHandler :=
  [builtinHandler "ValueError" raises, builtinHandler "TypeError" none]

lemma builtinMatching_nested (raises : Option ExceptionObject) :
    (∀ handler ∈ nestedHandlers raises, WellClassified handler.vm nestedTree) ∧
      ∀ handler ∈ nestedHandlers raises, ∀ active, MatchesOnLeaves handler.vm active
        handler.handlerType (builtinMatching handler) nestedTree.leaves := by
  constructor
  · intro handler hmem
    rcases List.mem_pair.1 hmem with rfl | rfl
    · exact wellClassified_nestedTree
    · exact wellClassified_nestedTree
  · intro handler hmem active exc hexc
    rcases List.mem_pair.1 hmem with rfl | rfl
    · rcases List.mem_pair.1 hexc with rfl | rfl <;> rfl
    · rcases List.mem_pair.1 hexc with rfl | rfl <;> rfl

/-- Both handlers complete. -/
theorem compileStarHandlers_losesNothing_nested :
    ∃ result,
      StarFrame.Ends (compileStarHandlers (nestedHandlers none)) StarFrame.noEntries
        (nestedHandlers none)
        (.entered nestedGroup [] Vm.initial 5) result ∧
      LosesNothing builtinMatching 0 (nestedHandlers none) nestedTree.leaves result := by
  obtain ⟨hclass, hmatch⟩ := builtinMatching_nested none
  obtain ⟨result, hends, hloses⟩ := compileStarHandlers_losesNothing_iff represents_nestedTree
    hclass hmatch (fun _ => rfl) [] Vm.initial 5
  refine ⟨result, (hends result).2 rfl, hloses.2 ?_⟩
  have hfirst : Recoverable builtinMatching [builtinHandler "TypeError" none]
      [plainException 1 "TypeError" []] := rfl
  exact hfirst

/-- The first handler raises, and the second one never gets its leaf. -/
theorem star_handler_raise_loses_remainder :
    ∃ result,
      StarFrame.Ends (compileStarHandlers (nestedHandlers (some (plainException 4 "KeyError" []))))
        StarFrame.noEntries (nestedHandlers (some (plainException 4 "KeyError" [])))
        (.entered nestedGroup [] Vm.initial 5) result ∧
      ¬ LosesNothing builtinMatching 0 (nestedHandlers (some (plainException 4 "KeyError" [])))
        nestedTree.leaves result := by
  obtain ⟨hclass, hmatch⟩ := builtinMatching_nested (some (plainException 4 "KeyError" []))
  refine ⟨_, ends_compileStarHandlers _ _ _ _ _, fun h => ?_⟩
  have hrecoverable := (losesNothing_handleStar _ represents_nestedTree hclass hmatch).1 h
  have hmem : plainException 1 "TypeError" [] ∈ nestedTree.leaves :=
    List.mem_cons_of_mem _ (List.mem_singleton_self _)
  have hleaf := hrecoverable (plainException 1 "TypeError" []) (List.mem_filter.2 ⟨hmem, rfl⟩)
  have := hleaf.1 (builtinHandler "TypeError" none) (List.mem_singleton_self _)
  cases this

end Pyrs
