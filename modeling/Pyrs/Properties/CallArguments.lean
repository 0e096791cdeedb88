import Mathlib.Data.List.TakeWhile
import Pyrs.Library.Results
import Pyrs.Model.Calls

/-!
# The arguments of a call

The operations of `Calls` are what the compiler emits.  A run of them evaluates the arguments in the
order of the source and then calls with the values in that order, where later keyword arguments
replace earlier ones of a call with unpacking.  It is Python's call exactly where no iterable or
positional argument stands behind keywords that were evaluated before it, and no keyword comes
twice.

The arguments of a call with unpacking wait in temporaries.  At module level these are loaded
through the inline cache of `LoadName`: a load that finds the entry of an earlier run gives the
argument of that run (`runCall_staleEntry`), and the result is about runs whose loads find none.
-/

namespace Pyrs

namespace Calls

/-! ## The emitted operations -/

section Emitted

variable (routines : Routines)

lemma forM_flatMap {α : Type} (code : α → List CallOp) (items : List α) :
    forM (items.flatMap code) (CallOp.emit routines) =
      forM items fun item => forM (code item) (CallOp.emit routines) := by
  induction items with
  | nil => rfl
  | cons item items ih => rw [List.flatMap_cons, List.forM_append, List.forM_cons, ih]

lemma emitPositionalTemp_eq (temp : TempArg) :
    emitPositionalTemp temp = (positionalCode temp).forM (CallOp.emit routines) := by
  cases temp <;> simp [emitPositionalTemp, positionalCode, CallOp.emit]

lemma emitKeywordTemp_eq (temp : TempArg) :
    emitKeywordTemp temp = (keywordCode temp).forM (CallOp.emit routines) := by
  cases temp <;> simp [emitKeywordTemp, keywordCode, CallOp.emit]

lemma emitCallArg_eq (arg : CallArg) :
    emitCallArg routines arg = (argCode arg).forM (CallOp.emit routines) := by
  cases arg <;> simp [emitCallArg, argCode, CallOp.emit, Event.expr, CallArg.value]

/-- A call with unpacking emits the code of its temporaries. -/
theorem compileStarredCall_eq (args : List CallArg) :
    compileStarredCall routines args = (do
      let temps ← args.mapM fun arg => (do
        let temp ← freshTemp "arg"
        (tempCode arg temp).forM (CallOp.emit routines)
        pure (arg.withTemp temp))
      (gatherCode temps).forM (CallOp.emit routines)) := by
  have htemp : emitTempArg routines = fun arg => (do
      let temp ← freshTemp "arg"
      (tempCode arg temp).forM (CallOp.emit routines)
      pure (arg.withTemp temp)) := by
    funext arg
    simp [emitTempArg, tempCode, CallOp.emit, Event.expr]
  have hpositional : emitPositionalTemp = fun temp =>
      (positionalCode temp).forM (CallOp.emit routines) :=
    funext (emitPositionalTemp_eq routines)
  have hkeyword : emitKeywordTemp = fun temp => (keywordCode temp).forM (CallOp.emit routines) :=
    funext (emitKeywordTemp_eq routines)
  rw [compileStarredCall, htemp, hpositional, hkeyword]
  simp [gatherCode, forM_flatMap, List.forM_append, CallOp.emit]

/-- A call without unpacking emits its code, or is rejected behind the code of its arguments. -/
theorem compilePlainCall_eq (args : List CallArg) :
    compilePlainCall routines args =
      match plainCode args with
      | some code => code.forM (CallOp.emit routines)
      | none => (do
        (args.flatMap argCode).forM (CallOp.emit routines)
        compileError "too many call arguments") := by
  have harg : emitCallArg routines = fun arg => (argCode arg).forM (CallOp.emit routines) :=
    funext (emitCallArg_eq routines)
  rw [compilePlainCall, harg, plainCode]
  change (do
    args.forM fun arg => (argCode arg).forM (CallOp.emit routines)
    if kwCount args > 0 then do
      let packed ← packCallCounts (posCount args) (kwCount args)
      Pyrs.emit .callFunctionKw (some packed)
    else Pyrs.emit .callFunction (some (posCount args))) = _
  by_cases hkw : 0 < kwCount args
  · by_cases hcounts : posCount args > 0xFFFF ∨ kwCount args > 0xFFFF
    · simp only [gt_iff_lt, if_pos hkw, packCallCounts, if_pos hcounts, List.forM_eq_forM,
        forM_flatMap]
      rfl
    · simp only [gt_iff_lt, if_pos hkw, packCallCounts, if_neg hcounts, List.forM_eq_forM,
        List.forM_append, forM_flatMap, pure_bind]
      simp [CallOp.emit]
  · simp only [gt_iff_lt, if_neg hkw, List.forM_eq_forM, List.forM_append, forM_flatMap]
    simp [CallOp.emit]

end Emitted

section Runs

-- The equations of the machine, which the lemmas on the parts of a call ask for at once.
attribute [local simp] exec step popArgs popKwargs

variable {V : Type} {world : World V}

/-! ## Evaluations -/

lemma evalAll_append (trace : List Event) (first second : List Event) :
    evalAll world trace (first ++ second) = (do
      let values ← evalAll world trace first
      let others ← evalAll world (trace ++ first) second
      pure (values ++ others)) := by
  induction first generalizing trace with
  | nil => simp [evalAll]
  | cons event first ih =>
    rw [List.cons_append, evalAll, evalAll]
    cases world.eval trace event with
    | error exception => rfl
    | ok value => simp [ih]

lemma evalAll_append_error {trace first : List Event} {outcome : Outcome V}
    (h : evalAll world trace first = .error outcome) (second : List Event) :
    evalAll world trace (first ++ second) = .error outcome := by
  rw [evalAll_append, h]
  rfl

lemma length_of_evalAll {trace events : List Event} {values : List V}
    (h : evalAll world trace events = .ok values) : values.length = events.length := by
  induction events generalizing trace values with
  | nil =>
    cases h
    rfl
  | cons event events ih =>
    rw [evalAll] at h
    cases heval : world.eval trace event with
    | error exception =>
      rw [heval] at h
      cases h
    | ok value =>
      rw [heval] at h
      cases hrest : evalAll world (trace ++ [event]) events with
      | error outcome =>
        rw [hrest] at h
        cases h
      | ok rest =>
        rw [hrest] at h
        cases h
        rw [List.length_cons, List.length_cons, ih hrest]

/-- What an outcome shows of the evaluations begins with a trace. -/
def Outcome.Shows (trace : List Event) : Outcome V → Prop
  | .failed _ => True
  | .raised shown _ | .called shown _ _ _ => trace <+: shown

/-- An evaluation that raises is part of the trace, and of nothing but the evaluations. -/
lemma evalAll_error {trace events : List Event} {outcome : Outcome V}
    (h : evalAll world trace events = .error outcome) :
    ∃ exception before event after, events = before ++ event :: after ∧
      (∃ values, evalAll world trace before = .ok values) ∧
      outcome = .raised (trace ++ before ++ [event]) exception := by
  induction events generalizing trace with
  | nil => cases h
  | cons event events ih =>
    rw [evalAll] at h
    cases heval : world.eval trace event with
    | error exception =>
      rw [heval] at h
      cases h
      exact ⟨exception, [], event, events, rfl, ⟨[], rfl⟩, by rw [List.append_nil]⟩
    | ok value =>
      rw [heval] at h
      cases hrest : evalAll world (trace ++ [event]) events with
      | ok rest =>
        rw [hrest] at h
        cases h
      | error outcome' =>
        rw [hrest] at h
        cases h
        obtain ⟨exception, before, other, after, rfl, ⟨values, hvalues⟩, hraised⟩ := ih hrest
        refine ⟨exception, event :: before, other, after, rfl, ⟨value :: values, ?_⟩, ?_⟩
        · rw [evalAll, heval]
          simp [hvalues]
        · rw [hraised]
          simp

/-- The evaluation that follows some that return is seen. -/
lemma shows_of_evalAll_error {trace before after : List Event} {event : Event} {outcome : Outcome V}
    (hbefore : ∀ o, evalAll world trace before ≠ .error o)
    (h : evalAll world trace (before ++ event :: after) = .error outcome) :
    outcome.Shows (trace ++ before ++ [event]) := by
  cases hvalues : evalAll world trace before with
  | error o => exact absurd hvalues (hbefore o)
  | ok values =>
    rw [evalAll_append, hvalues] at h
    change (evalAll world (trace ++ before) (event :: after) >>= _) = _ at h
    rw [evalAll] at h
    cases heval : world.eval (trace ++ before) event with
    | error exception =>
      rw [heval] at h
      cases h
      exact List.prefix_rfl
    | ok value =>
      rw [heval] at h
      cases hrest : evalAll world (trace ++ before ++ [event]) after with
      | ok rest =>
        rw [hrest] at h
        cases h
      | error o =>
        rw [hrest] at h
        cases h
        obtain ⟨exception, mid, other, _, _, _, rfl⟩ := evalAll_error hrest
        exact (List.prefix_append _ _).trans (List.prefix_append _ _)

/-! ## Gathering the values -/

lemma exec_append (machine : Machine V) (first second : List CallOp) :
    exec world machine (first ++ second) = (do
      let machine ← exec world machine first
      exec world machine second) := by
  rw [exec, List.foldlM_append]
  rfl

lemma exec_cons (machine : Machine V) (op : CallOp) (code : List CallOp) :
    exec world machine (op :: code) = (do
      let machine ← step world machine op
      exec world machine code) := List.foldlM_cons

/-- The temporaries after values were stored in some. -/
def storeAll (temps : String → Option V) (stored : List (String × V)) : String → Option V :=
  stored.foldl (fun temps item => Function.update temps item.1 (some item.2)) temps

lemma storeAll_of_notMem {temp : String} {stored : List (String × V)}
    (h : temp ∉ stored.map Prod.fst) (temps : String → Option V) :
    storeAll temps stored temp = temps temp := by
  induction stored generalizing temps with
  | nil => rfl
  | cons item stored ih =>
    rw [List.map_cons, List.mem_cons, not_or] at h
    rw [storeAll, List.foldl_cons, ← storeAll, ih h.2, Function.update_of_ne h.1]

lemma storeAll_of_mem {temp : String} {value : V} {stored : List (String × V)}
    (hnodup : (stored.map Prod.fst).Nodup) (h : (temp, value) ∈ stored)
    (temps : String → Option V) : storeAll temps stored temp = some value := by
  induction stored generalizing temps with
  | nil => cases h
  | cons item stored ih =>
    rw [List.map_cons, List.nodup_cons] at hnodup
    rw [storeAll, List.foldl_cons, ← storeAll]
    rcases List.mem_cons.1 h with rfl | hmem
    · rw [storeAll_of_notMem hnodup.1, Function.update_self]
    · exact ih hnodup.2 hmem _

/-- The evaluations of a call with unpacking. -/
lemma exec_tempCode (args : List (CallArg × String)) (machine : Machine V) :
    exec world machine (args.flatMap fun arg => tempCode arg.1 arg.2) =
      (evalAll world machine.trace (args.map fun arg => .argument arg.1)).map fun values =>
        ⟨machine.trace ++ args.map fun arg => .argument arg.1,
          storeAll machine.temps ((args.map Prod.snd).zip values), machine.stack⟩ := by
  induction args generalizing machine with
  | nil => simp [evalAll, storeAll, Except.map, pure, Except.pure]
  | cons arg args ih =>
    rw [List.flatMap_cons, exec_append, tempCode, exec_cons, step, List.map_cons, evalAll]
    cases heval : world.eval machine.trace (.argument arg.1) with
    | error exception => rfl
    | ok value =>
      change exec world _ _ = _
      rw [ih]
      cases hrest : evalAll world (machine.trace ++ [.argument arg.1])
          (args.map fun arg => .argument arg.1) with
      | error outcome => simp [Except.map, Functor.map]
      | ok rest => simp [Except.map, Functor.map, storeAll]

/-- An argument adds its positional values to the list on the stack. -/
lemma exec_positionalArg {machine : Machine V} {arg : CallArg} {temp : String} {value : V}
    {values : List V} {stack : List (Slot V)} (htemp : world.load machine.temps temp = some value)
    (hstack : machine.stack = .list values :: stack) :
    exec world machine (positionalCode (arg.withTemp temp)) =
      pure { machine with stack := .list (values ++ argsOf world (arg, value)) :: stack } := by
  cases arg with
  | positional expr | star expr =>
    simp [CallArg.withTemp, positionalCode, htemp, Machine.push, hstack, argsOf]
  | keyword name expr | doubleStar expr =>
    simp [CallArg.withTemp, positionalCode, argsOf, ← hstack]

/-- Adding positional values and iterables to the list on the stack. -/
lemma exec_positionalCode (valued : List ((CallArg × String) × V)) (machine : Machine V)
    (htemps : ∀ item ∈ valued, world.load machine.temps item.1.2 = some item.2) (values : List V)
    (stack : List (Slot V)) (hstack : machine.stack = .list values :: stack) :
    exec world machine
        ((valued.map fun item => item.1.1.withTemp item.1.2).flatMap positionalCode) =
      pure { machine with
        stack := .list (values ++ valued.flatMap fun item =>
          argsOf world (item.1.1, item.2)) :: stack } := by
  induction valued generalizing machine values with
  | nil =>
    rw [List.flatMap_nil, List.append_nil, ← hstack]
    rfl
  | cons item valued ih =>
    have htemp := htemps item List.mem_cons_self
    have hrest := fun other hother => htemps other (List.mem_cons_of_mem _ hother)
    rw [List.map_cons, List.flatMap_cons, exec_append, exec_positionalArg htemp hstack, pure_bind,
      List.flatMap_cons, ← List.append_assoc]
    exact ih { machine with
      stack := .list (values ++ argsOf world (item.1.1, item.2)) :: stack } hrest _ rfl

lemma applyDictStackMerge_append (first second entries : List (String × V)) :
    applyDictStackMerge (first ++ second) entries =
      applyDictStackMerge second (applyDictStackMerge first entries) := List.foldl_append

/-- An argument merges its keyword arguments into the dict on the stack. -/
lemma exec_keywordArg {machine : Machine V} {arg : CallArg} {temp : String} {value : V}
    {entries : List (String × V)} {stack : List (Slot V)}
    (htemp : world.load machine.temps temp = some value)
    (hstack : machine.stack = .dict entries :: stack) :
    exec world machine (keywordCode (arg.withTemp temp)) =
      pure { machine with
        stack := .dict (applyDictStackMerge (kwargsOf world (arg, value)) entries) :: stack } := by
  cases arg with
  | keyword name expr =>
    simp [CallArg.withTemp, keywordCode, htemp, Machine.push, hstack, world.asStr_str,
      kwargsOf, applyDictStackMerge]
  | doubleStar expr =>
    simp [CallArg.withTemp, keywordCode, htemp, Machine.push, hstack, kwargsOf]
  | positional expr | star expr =>
    simp [CallArg.withTemp, keywordCode, kwargsOf, applyDictStackMerge, ← hstack]

/-- Adding keyword arguments and mappings to the dict on the stack. -/
lemma exec_keywordCode (valued : List ((CallArg × String) × V)) (machine : Machine V)
    (htemps : ∀ item ∈ valued, world.load machine.temps item.1.2 = some item.2)
    (entries : List (String × V)) (stack : List (Slot V))
    (hstack : machine.stack = .dict entries :: stack) :
    exec world machine
        ((valued.map fun item => item.1.1.withTemp item.1.2).flatMap keywordCode) =
      pure { machine with
        stack := .dict (applyDictStackMerge (valued.flatMap fun item =>
          kwargsOf world (item.1.1, item.2)) entries) :: stack } := by
  induction valued generalizing machine entries with
  | nil =>
    rw [List.flatMap_nil, applyDictStackMerge, List.foldl_nil, ← hstack]
    rfl
  | cons item valued ih =>
    have htemp := htemps item List.mem_cons_self
    have hrest := fun other hother => htemps other (List.mem_cons_of_mem _ hother)
    rw [List.map_cons, List.flatMap_cons, exec_append, exec_keywordArg htemp hstack, pure_bind,
      List.flatMap_cons, applyDictStackMerge_append]
    exact ih { machine with
      stack := .dict (applyDictStackMerge (kwargsOf world (item.1.1, item.2)) entries) :: stack }
        hrest _ rfl

/-! ## The dict of keyword arguments -/

lemma keys_dictSetValue (key : String) (value : V) (entries : List (String × V)) :
    (dictSetValue key value entries).map Prod.fst =
      if key ∈ entries.map Prod.fst then entries.map Prod.fst
      else entries.map Prod.fst ++ [key] := by
  induction entries with
  | nil => rfl
  | cons entry entries ih =>
    rw [dictSetValue, Association.store, ← dictSetValue]
    by_cases hkey : entry.1 = key
    · simp [hkey]
    · have hne : key ≠ entry.1 := fun h => hkey h.symm
      rw [if_neg (by simpa using hkey), List.map_cons, ih, List.map_cons]
      by_cases hmem : key ∈ entries.map Prod.fst
      · rw [if_pos hmem, if_pos (List.mem_cons_of_mem _ hmem)]
      · rw [if_neg hmem, if_neg (fun h => (List.mem_cons.1 h).elim hne hmem), List.cons_append]

/-- A dict has no key twice, whatever is merged into it. -/
lemma nodup_applyDictStackMerge (incoming entries : List (String × V))
    (h : (entries.map Prod.fst).Nodup) :
    ((applyDictStackMerge incoming entries).map Prod.fst).Nodup := by
  induction incoming generalizing entries with
  | nil => exact h
  | cons item incoming ih =>
    refine ih (dictSetValue item.1 item.2 entries) ?_
    rw [keys_dictSetValue]
    by_cases hmem : item.1 ∈ entries.map Prod.fst
    · rwa [if_pos hmem]
    · rw [if_neg hmem]
      exact h.append (List.nodup_singleton _) (by simpa using hmem)

/-- Entries with new keys are appended. -/
lemma applyDictStackMerge_eq_append (incoming entries : List (String × V))
    (h : ((entries ++ incoming).map Prod.fst).Nodup) :
    applyDictStackMerge incoming entries = entries ++ incoming := by
  induction incoming generalizing entries with
  | nil => rw [List.append_nil, applyDictStackMerge, List.foldl_nil]
  | cons item incoming ih =>
    have hnew : ∀ entry ∈ entries, (entry.1 == item.1) = false := by
      intro entry hentry
      rw [List.map_append, List.nodup_append] at h
      have hne := h.2.2 entry.1 (List.mem_map_of_mem hentry) item.1 (by simp)
      simpa using hne
    have hsplit : entries ++ item :: incoming = entries ++ [item] ++ incoming := by simp
    have hstore : dictSetValue item.1 item.2 entries = entries ++ [item] :=
      Association.store_eq_append hnew item.2
    rw [applyDictStackMerge, List.foldl_cons, ← applyDictStackMerge, hstore,
      ih _ (by rwa [← hsplit]), hsplit]

/-! ## A call with unpacking -/

/-- The run of a call with unpacking: later keyword arguments replace earlier ones. -/
theorem runCall_starred (hcached : ∀ temp, world.cached temp = none) (func : Expr)
    (args : List (CallArg × String))
    (hstar : (args.map Prod.fst).any (·.isStarred) = true) (hnodup : (args.map Prod.snd).Nodup) :
    runCall world func args =
      match evalAll world [] (eventsOf func (args.map Prod.fst)) with
      | .error outcome => outcome
      | .ok [] => .failed "no callee"
      | .ok (callee :: values) =>
        .called (eventsOf func (args.map Prod.fst)) callee
          (((args.map Prod.fst).zip values).flatMap (argsOf world))
          (applyDictStackMerge (((args.map Prod.fst).zip values).flatMap (kwargsOf world)) []) := by
  have hany : args.any (·.1.isStarred) = true := by rwa [List.any_map] at hstar
  rw [runCall, callCode, if_pos hany, Option.map_some, eventsOf, evalAll]
  dsimp only
  rw [exec_cons, step]
  cases hcallee : world.eval [] (.callee func) with
  | error exception => rfl
  | ok callee =>
    have hevents : (args.map Prod.fst).map Event.argument =
        args.map fun arg => .argument arg.1 := List.map_map
    dsimp only
    rw [pure_bind, starredCode, exec_append, exec_tempCode, ← hevents]
    cases hvalues : evalAll world ([] ++ [.callee func]) ((args.map Prod.fst).map .argument) with
    | error outcome => rfl
    | ok values =>
      have hlength : args.length = values.length := by
        rw [length_of_evalAll hvalues, List.length_map, List.length_map]
      have htemps : ∀ item ∈ args.zip values, (world.cached item.1.2).or
          (storeAll (fun _ => none) ((args.map Prod.snd).zip values) item.1.2) = some item.2 := by
        intro item hitem
        rw [hcached, Option.none_or]
        refine storeAll_of_mem ?_ ?_ _
        · rwa [List.map_fst_zip (by rw [List.length_map, hlength])]
        · rw [List.zip_map_left]
          exact List.mem_map_of_mem hitem
      have hargs : (args.map fun arg => arg.1.withTemp arg.2) =
          (args.zip values).map fun item => item.1.1.withTemp item.1.2 := by
        have hfst : (args.zip values).map Prod.fst = args := List.map_fst_zip (by rw [hlength])
        calc (args.map fun arg => arg.1.withTemp arg.2)
            = (((args.zip values).map Prod.fst).map fun arg => arg.1.withTemp arg.2) := by rw [hfst]
          _ = (args.zip values).map fun item => item.1.1.withTemp item.1.2 := List.map_map
      have hzip : ∀ {α : Type} (f : CallArg × V → List α),
          ((args.zip values).flatMap fun item => f (item.1.1, item.2)) =
            ((args.map Prod.fst).zip values).flatMap f := by
        intro α f
        rw [List.zip_map_left, List.flatMap_map]
        rfl
      dsimp only [Except.map]
      rw [Results.ok_bind, gatherCode, List.cons_append, exec_cons, hargs, step, pure_bind,
        exec_append, exec_positionalCode _ _ htemps [] _ rfl, pure_bind, List.cons_append,
        exec_cons, step, pure_bind, exec_append, exec_keywordCode _ _ htemps [] _ rfl, pure_bind,
          hzip, hzip]
      have hkeys := nodup_applyDictStackMerge
        (((args.map Prod.fst).zip values).flatMap (kwargsOf world)) [] List.nodup_nil
      simp [Machine.push, hkeys, throw, throwThe, MonadExceptOf.throw, bind,
        Except.bind, Functor.map, Except.map]

/-! ## A call without unpacking -/

variable (world) in
/-- What an argument leaves on the stack. -/
def slotsOf : CallArg × V → List (Slot V)
  | (.positional _, value) => [.value value]
  | (.keyword name _, value) => [.value value, .value (world.str name)]
  | _ => []

variable (world) in
/-- The stack above which arguments were pushed. -/
def pushed (valued : List (CallArg × V)) (stack : List (Slot V)) : List (Slot V) :=
  valued.foldl (fun stack item => slotsOf world item ++ stack) stack

lemma pushed_concat (valued : List (CallArg × V)) (item : CallArg × V) (stack : List (Slot V)) :
    pushed world (valued ++ [item]) stack = slotsOf world item ++ pushed world valued stack := by
  rw [pushed, List.foldl_append]
  rfl

lemma exec_argCode (args : List CallArg) (hplain : args.any (·.isStarred) = false)
    (machine : Machine V) :
    exec world machine (args.flatMap argCode) =
      (evalAll world machine.trace (args.map .argument)).map fun values =>
        ⟨machine.trace ++ args.map .argument, machine.temps,
          pushed world (args.zip values) machine.stack⟩ := by
  induction args generalizing machine with
  | nil => simp [evalAll, pushed, Except.map, pure, Except.pure]
  | cons arg args ih =>
    rw [List.any_cons, Bool.or_eq_false_iff] at hplain
    have hfirst : exec world machine (argCode arg) =
        (world.eval machine.trace (.argument arg)).mapError
            (.raised (machine.trace ++ [.argument arg])) >>= fun value =>
          pure ⟨machine.trace ++ [.argument arg], machine.temps,
            slotsOf world (arg, value) ++ machine.stack⟩ := by
      cases arg with
      | positional expr =>
        cases heval : world.eval machine.trace (.argument (.positional expr)) <;>
          simp [argCode, heval, Except.mapError, slotsOf, bind, Except.bind, pure,
            Except.pure, throw, throwThe, MonadExceptOf.throw]
      | keyword name expr =>
        cases heval : world.eval machine.trace (.argument (.keyword name expr)) <;>
          simp [argCode, heval, Except.mapError, slotsOf, bind, Except.bind, pure,
            Except.pure, throw, throwThe, MonadExceptOf.throw, Machine.push]
      | star expr => cases hplain.1
      | doubleStar expr => cases hplain.1
    rw [List.flatMap_cons, exec_append, hfirst, List.map_cons, evalAll]
    cases heval : world.eval machine.trace (.argument arg) with
    | error exception => rfl
    | ok value =>
      change exec world _ _ = _
      rw [ih hplain.2]
      cases hrest : evalAll world (machine.trace ++ [.argument arg]) (args.map .argument) with
      | error outcome => simp [Except.map, Functor.map]
      | ok rest => simp [Except.map, Functor.map, pushed]

/-- Keyword arguments come off the stack in their order, unless one comes twice. -/
lemma popKwargs_pushed (trace : List Event) (valued : List (CallArg × V))
    (hkeyword : ∀ item ∈ valued, item.1.isKeyword = true) (stack : List (Slot V))
    (kwargs : List (String × V)) (hkwargs : (kwargs.map Prod.fst).Nodup) :
    popKwargs world trace valued.length (pushed world valued stack) kwargs =
      if ((valued.flatMap (kwargsOf world) ++ kwargs).map Prod.fst).Nodup then
        pure (valued.flatMap (kwargsOf world) ++ kwargs, stack)
      else throw (.raised trace "RuntimeError") := by
  induction valued using List.reverseRecOn generalizing kwargs with
  | nil =>
    rw [List.flatMap_nil, List.nil_append, if_pos hkwargs]
    rfl
  | append_singleton valued item ih =>
    obtain ⟨arg, value⟩ := item
    have hvalued := fun other hother => hkeyword other (List.mem_append_left _ hother)
    have harg : arg.isKeyword = true := hkeyword (arg, value) (by simp)
    cases arg with
    | positional expr => cases harg
    | star expr => cases harg
    | doubleStar expr => cases harg
    | keyword name expr =>
      have hflat : ((valued ++ [(CallArg.keyword name expr, value)]).flatMap (kwargsOf world)) ++
          kwargs = valued.flatMap (kwargsOf world) ++ (name, value) :: kwargs := by
        simp [kwargsOf]
      rw [List.length_append, List.length_singleton, pushed_concat, hflat]
      change popKwargs world trace (valued.length + 1)
        (.value value :: .value (world.str name) :: pushed world valued stack) kwargs = _
      rw [popKwargs, world.asStr_str]
      dsimp only
      by_cases hmem : name ∈ kwargs.map Prod.fst
      · rw [if_pos hmem, if_neg]
        intro hnodup
        rw [List.map_append, List.map_cons, List.nodup_append] at hnodup
        exact (List.nodup_cons.1 hnodup.2.1).1 hmem
      · rw [if_neg hmem, ih hvalued ((name, value) :: kwargs) (List.nodup_cons.2 ⟨hmem, hkwargs⟩)]

lemma popArgs_pushed (valued : List (CallArg × V)) (hpositional : ∀ item ∈ valued,
      item.1.isKeyword = false ∧ item.1.isStarred = false) (stack : List (Slot V))
    (args : List V) :
    popArgs valued.length (pushed world valued stack) args =
      pure (valued.flatMap (argsOf world) ++ args, stack) := by
  induction valued using List.reverseRecOn generalizing args with
  | nil => rfl
  | append_singleton valued item ih =>
    obtain ⟨arg, value⟩ := item
    have hvalued := fun other hother => hpositional other (List.mem_append_left _ hother)
    have harg := hpositional (arg, value) (by simp)
    cases arg with
    | keyword name expr => cases harg.1
    | star expr => cases harg.2
    | doubleStar expr => cases harg.2
    | positional expr =>
      rw [List.length_append, List.length_singleton, pushed_concat]
      change popArgs (valued.length + 1) (.value value :: pushed world valued stack) args = _
      rw [popArgs, ih hvalued]
      simp [argsOf]

lemma decodeCallCounts_pack {positional : ℕ} (h : positional ≤ 0xFFFF) (keywords : ℕ) :
    decodeCallCounts ((keywords <<< 16) ||| positional) = (positional, keywords) := by
  have hlt : positional < 2 ^ 16 := by omega
  rw [decodeCallCounts, ← Nat.shiftLeft_add_eq_or_of_lt hlt, Nat.shiftLeft_eq,
    Nat.shiftRight_eq_div_pow, show (0xFFFF : ℕ) = 2 ^ 16 - 1 from rfl,
    Nat.and_two_pow_sub_one_eq_mod]
  refine Prod.ext ?_ ?_
  · change (keywords * 2 ^ 16 + positional) % 2 ^ 16 = positional
    omega
  · change (keywords * 2 ^ 16 + positional) / 2 ^ 16 = keywords
    omega

/-! The call itself shows the whole trace. -/

lemma popCall_shows (trace : List Event) (count : ℕ) (kwargs : List (String × V))
    (stack : List (Slot V)) :
    ∃ outcome, popCall trace count kwargs stack = .error outcome ∧ outcome.Shows trace := by
  have hargs : ∀ (count : ℕ) (stack : List (Slot V)) (args : List V) (outcome : Outcome V),
      popArgs count stack args = .error outcome → outcome.Shows trace := by
    intro count stack args outcome h
    induction count, stack, args using popArgs.induct with
    | case1 stack args => cases h
    | case2 args count value stack ih => exact ih h
    | case3 count stack args hstack =>
      rw [popArgs] at h
      · cases h
        trivial
      · exact hstack
  rw [popCall]
  cases hpop : popArgs count stack [] with
  | error outcome => exact ⟨outcome, rfl, hargs _ _ _ _ hpop⟩
  | ok popped =>
    obtain ⟨args, rest⟩ := popped
    cases rest with
    | nil => exact ⟨_, rfl, trivial⟩
    | cons slot rest =>
      cases slot with
      | value callee => exact ⟨_, rfl, List.prefix_rfl⟩
      | list values => exact ⟨_, rfl, trivial⟩
      | dict entries => exact ⟨_, rfl, trivial⟩

lemma popKwargs_shows (trace : List Event) (count : ℕ) (stack : List (Slot V))
    (kwargs : List (String × V)) (outcome : Outcome V)
    (h : popKwargs world trace count stack kwargs = .error outcome) : outcome.Shows trace := by
  induction count, stack, kwargs using popKwargs.induct world with
  | case1 stack kwargs => cases h
  | case2 kwargs count value name stack hname =>
    rw [popKwargs, hname] at h
    cases h
    exact List.prefix_rfl
  | case3 kwargs count value name stack text htext hmem =>
    rw [popKwargs, htext] at h
    dsimp only at h
    rw [if_pos hmem] at h
    cases h
    exact List.prefix_rfl
  | case4 kwargs count value name stack text htext hmem ih =>
    rw [popKwargs, htext] at h
    dsimp only at h
    rw [if_neg hmem] at h
    exact ih h
  | case5 count stack kwargs hstack =>
    rw [popKwargs] at h
    · cases h
      trivial
    · exact hstack

/-- The last operation of a call without unpacking. -/
def plainCall (args : List CallArg) : CallOp :=
  if 0 < kwCount args then .callFunctionKw ((kwCount args <<< 16) ||| posCount args)
  else .callFunction (posCount args)

/-- The counts of a call fit into an instruction. -/
def Packs (args : List CallArg) : Prop :=
  args.any (·.isStarred) = true ∨ kwCount args = 0 ∨
    (posCount args ≤ 0xFFFF ∧ kwCount args ≤ 0xFFFF)

lemma plainCode_eq {args : List CallArg} (hplain : args.any (·.isStarred) = false)
    (hpacks : Packs args) : plainCode args = some (args.flatMap argCode ++ [plainCall args]) := by
  rw [plainCode, plainCall]
  by_cases hkw : 0 < kwCount args
  · have hcounts : ¬(posCount args > 0xFFFF ∨ kwCount args > 0xFFFF) := by
      rcases hpacks with hstar | hzero | hle
      · rw [hplain] at hstar
        cases hstar
      · omega
      · omega
    rw [if_pos hkw, if_neg hcounts, if_pos hkw]
  · rw [if_neg hkw, if_neg hkw]

lemma plainCall_shows (world : World V) (args : List CallArg) (machine : Machine V) :
    ∃ outcome, step world machine (plainCall args) = .error outcome ∧
      outcome.Shows machine.trace := by
  rw [plainCall]
  split
  · rw [step]
    generalize decodeCallCounts (kwCount args <<< 16 ||| posCount args) = counts
    obtain ⟨positional, keywords⟩ := counts
    dsimp only
    cases hpop : popKwargs world machine.trace keywords machine.stack [] with
    | error outcome => exact ⟨outcome, rfl, popKwargs_shows _ _ _ _ _ hpop⟩
    | ok popped => exact popCall_shows machine.trace positional popped.1 popped.2
  · exact popCall_shows _ _ _ _

/-- The run of a call without unpacking, up to the call itself. -/
lemma runCall_plain (func : Expr) (args : List (CallArg × String))
    (hplain : (args.map Prod.fst).any (·.isStarred) = false) (hpacks : Packs (args.map Prod.fst)) :
    runCall world func args =
      match evalAll world [] (eventsOf func (args.map Prod.fst)) with
      | .error outcome => outcome
      | .ok [] => .failed "no callee"
      | .ok (callee :: values) =>
        match step world ⟨eventsOf func (args.map Prod.fst), fun _ => none,
            pushed world ((args.map Prod.fst).zip values) [.value callee]⟩
            (plainCall (args.map Prod.fst)) with
        | .error outcome => outcome
        | .ok _ => .failed "no call" := by
  have hany : args.any (·.1.isStarred) = false := by rwa [List.any_map] at hplain
  rw [runCall, callCode, if_neg (by rw [hany]; exact Bool.false_ne_true),
    plainCode_eq hplain hpacks, Option.map_some, eventsOf, evalAll]
  dsimp only
  rw [exec_cons, step]
  cases hcallee : world.eval [] (.callee func) with
  | error exception => rfl
  | ok callee =>
    change (match exec world (Machine.mk ([] ++ [.callee func]) (fun _ => none) [.value callee])
        (_ ++ [plainCall _]) with
      | .error outcome => outcome
      | .ok _ => Outcome.failed "no call") = _
    rw [exec_append, exec_argCode _ hplain]
    cases hvalues : evalAll world ([] ++ [.callee func]) ((args.map Prod.fst).map .argument) with
    | error outcome => rfl
    | ok values =>
      obtain ⟨outcome, hstep, -⟩ := plainCall_shows world (args.map Prod.fst)
        ⟨eventsOf func (args.map Prod.fst), fun _ => none,
          pushed world ((args.map Prod.fst).zip values) [.value callee]⟩
      change (match (step world ⟨eventsOf func (args.map Prod.fst), _, _⟩ _ >>= pure) with
        | .error outcome => outcome
        | .ok _ => Outcome.failed "no call") = (match step world _ _ with
        | .error outcome => outcome
        | .ok _ => Outcome.failed "no call")
      rw [bind_pure]
      rfl

/-- Where positional arguments stand before keyword arguments, the call has their values. -/
lemma plainCall_ordered (world : World V) (trace : List Event) (temps : String → Option V)
    (callee : V) (positional keywords : List (CallArg × V))
    (hpositional : ∀ item ∈ positional, item.1.isKeyword = false ∧ item.1.isStarred = false)
    (hkeywords : ∀ item ∈ keywords, item.1.isKeyword = true)
    (hpacks : Packs ((positional ++ keywords).map Prod.fst)) :
    step world ⟨trace, temps, pushed world (positional ++ keywords) [.value callee]⟩
        (plainCall ((positional ++ keywords).map Prod.fst)) =
      .error (if ((keywords.flatMap (kwargsOf world)).map Prod.fst).Nodup then
        .called trace callee (positional.flatMap (argsOf world)) (keywords.flatMap (kwargsOf world))
      else .raised trace "RuntimeError") := by
  have hkeywordOnly : ∀ item ∈ keywords, item.1.isStarred = false := by
    intro item hitem
    have hitem := hkeywords item hitem
    cases harg : item.1 <;> rw [harg] at hitem <;> first | rfl | cases hitem
  have hkw : kwCount ((positional ++ keywords).map Prod.fst) = keywords.length := by
    have hnone : positional.countP ((·.isKeyword) ∘ Prod.fst) = 0 :=
      List.countP_eq_zero.2 fun item hitem => by simp [(hpositional item hitem).1]
    have hall : keywords.countP ((·.isKeyword) ∘ Prod.fst) = keywords.length :=
      List.countP_eq_length.2 fun item hitem => hkeywords item hitem
    rw [kwCount, List.countP_map, List.countP_append, hnone, hall, zero_add]
  have hpos : posCount ((positional ++ keywords).map Prod.fst) = positional.length := by
    have hall : positional.countP
        ((fun arg : CallArg => !arg.isKeyword && !arg.isStarred) ∘ Prod.fst) = positional.length :=
      List.countP_eq_length.2 fun item hitem => by
        simp [(hpositional item hitem).1, (hpositional item hitem).2]
    have hnone : keywords.countP
        ((fun arg : CallArg => !arg.isKeyword && !arg.isStarred) ∘ Prod.fst) = 0 :=
      List.countP_eq_zero.2 fun item hitem => by simp [hkeywords item hitem]
    rw [posCount, List.countP_map, List.countP_append, hall, hnone, add_zero]
  have hpushed : pushed world (positional ++ keywords) [.value callee] =
      pushed world keywords (pushed world positional [.value callee]) := by
    rw [pushed, List.foldl_append]
    rfl
  have hargs : popArgs positional.length (pushed world positional [.value callee]) [] =
      .ok (positional.flatMap (argsOf world), [.value callee]) := by
    rw [popArgs_pushed _ hpositional, List.append_nil]
    rfl
  rw [plainCall, hkw, hpos]
  by_cases hlength : 0 < keywords.length
  · have hle : positional.length ≤ 0xFFFF := by
      rcases hpacks with hstar | hzero | hle
      · obtain ⟨arg, harg, hstarred⟩ := List.any_eq_true.1 hstar
        obtain ⟨item, hitem, rfl⟩ := List.mem_map.1 harg
        rcases List.mem_append.1 hitem with hitem | hitem
        · rw [(hpositional item hitem).2] at hstarred
          cases hstarred
        · rw [hkeywordOnly item hitem] at hstarred
          cases hstarred
      · omega
      · omega
    rw [if_pos hlength, step, decodeCallCounts_pack hle]
    dsimp only
    rw [hpushed, popKwargs_pushed trace keywords hkeywords _ [] List.nodup_nil, List.append_nil]
    split
    · change popCall _ _ _ _ = _
      rw [popCall, hargs]
      rfl
    · rfl
  · obtain rfl : keywords = [] := List.length_eq_zero_iff.1 (by omega)
    rw [if_neg hlength, step, hpushed]
    change popCall trace positional.length [] (pushed world positional [.value callee]) = _
    rw [popCall, hargs]
    rfl

/-! ## The order of evaluation -/

variable (world) in
/-- No positional argument or iterable stands behind keywords whose evaluation is reached. -/
def KeepsOrder (func : Expr) (args : List CallArg) : Prop :=
  ∀ before arg after, args = before ++ arg :: after → ofKeywords arg = true →
    (∀ outcome, evalAll world [] (eventsOf func before) ≠ .error outcome) →
    ∀ later ∈ after, ofKeywords later = true

variable (world) in
/-- No keyword comes twice among the named arguments and the mappings. -/
def KeywordsDistinct (func : Expr) (args : List CallArg) : Prop :=
  ∀ callee values, evalAll world [] (eventsOf func args) = .ok (callee :: values) →
    (((args.zip values).flatMap (kwargsOf world)).map Prod.fst).Nodup

lemma pythonOrder_eq_self {before after : List CallArg}
    (hbefore : ∀ arg ∈ before, ofKeywords arg = false)
    (hafter : ∀ arg ∈ after, ofKeywords arg = true) :
    pythonOrder (before ++ after) = before ++ after := by
  have hpositional : before.filter (!ofKeywords ·) = before :=
    List.filter_eq_self.2 fun arg harg => by simp [hbefore arg harg]
  have hnone : before.filter (ofKeywords ·) = [] :=
    List.filter_eq_nil_iff.2 fun arg harg => by simp [hbefore arg harg]
  have hkeywords : after.filter (ofKeywords ·) = after :=
    List.filter_eq_self.2 fun arg harg => hafter arg harg
  have hnone' : after.filter (!ofKeywords ·) = [] :=
    List.filter_eq_nil_iff.2 fun arg harg => by simp [hafter arg harg]
  rw [pythonOrder, List.filter_append, List.filter_append, hpositional, hnone, hkeywords, hnone']
  simp

/-- The positional arguments and iterables up to the first keywords. -/
lemma split_ofKeywords (args : List CallArg) :
    ∃ before after, args = before ++ after ∧ (∀ arg ∈ before, ofKeywords arg = false) ∧
      ∀ arg rest, after = arg :: rest → ofKeywords arg = true := by
  refine ⟨args.takeWhile (!ofKeywords ·), args.dropWhile (!ofKeywords ·),
    List.takeWhile_append_dropWhile.symm, fun arg harg => ?_, fun arg rest hrest => ?_⟩
  · simpa using List.mem_takeWhile_imp harg
  · have hhead := List.head?_dropWhile_not (fun arg => !ofKeywords arg) args
    rw [hrest] at hhead
    simpa using hhead

lemma eventsOf_append (func : Expr) (first second : List CallArg) :
    eventsOf func (first ++ second) = eventsOf func first ++ second.map .argument := by
  rw [eventsOf, List.map_append, eventsOf, List.cons_append]

/-- Where the order is kept, Python's order is the order of the source, or both meet the same
exception before the two differ. -/
lemma order_of_keepsOrder {func : Expr} {args : List CallArg} (h : KeepsOrder world func args) :
    (∃ before after, args = before ++ after ∧ (∀ arg ∈ before, ofKeywords arg = false) ∧
      ∀ arg ∈ after, ofKeywords arg = true) ∨
    ∃ outcome, evalAll world [] (eventsOf func args) = .error outcome ∧
      evalAll world [] (eventsOf func (pythonOrder args)) = .error outcome := by
  obtain ⟨before, after, rfl, hbefore, hafter⟩ := split_ofKeywords args
  cases after with
  | nil => exact Or.inl ⟨before, [], rfl, hbefore, by simp⟩
  | cons arg rest =>
    have harg := hafter arg rest rfl
    cases hvalues : evalAll world [] (eventsOf func before) with
    | ok values =>
      have hrest := h before arg rest rfl harg fun outcome herror => by
        rw [hvalues] at herror
        cases herror
      refine Or.inl ⟨before, arg :: rest, rfl, hbefore, fun other hother => ?_⟩
      rcases List.mem_cons.1 hother with rfl | hother
      · exact harg
      · exact hrest other hother
    | error outcome =>
      have hpython : pythonOrder (before ++ arg :: rest) =
          before ++ pythonOrder (arg :: rest) := by
        have hpositional : before.filter (!ofKeywords ·) = before :=
          List.filter_eq_self.2 fun other hother => by simp [hbefore other hother]
        have hnone : before.filter (ofKeywords ·) = [] :=
          List.filter_eq_nil_iff.2 fun other hother => by simp [hbefore other hother]
        rw [pythonOrder, List.filter_append, List.filter_append, hpositional, hnone, pythonOrder]
        simp
      refine Or.inr ⟨outcome, ?_, ?_⟩
      · rw [eventsOf_append, evalAll_append_error hvalues]
      · rw [hpython, eventsOf_append, evalAll_append_error hvalues]

/-- Python evaluates every positional argument and iterable before it comes to keywords. -/
lemma not_prefix_pythonOrder {before after : List CallArg} {arg later : CallArg}
    (harg : ofKeywords arg = true) (hlater : later ∈ after)
    (hpositional : ofKeywords later = false) :
    ¬before ++ [arg] <+: pythonOrder (before ++ arg :: after) := by
  intro hprefix
  have hcount : ((before ++ arg :: after).filter (!ofKeywords ·)).length =
      before.countP (!ofKeywords ·) + after.countP (!ofKeywords ·) := by
    rw [← List.countP_eq_length_filter, List.countP_append,
      List.countP_cons_of_neg (by simp [harg])]
  have hpos : 0 < after.countP (!ofKeywords ·) :=
    List.countP_pos_iff.2 ⟨later, hlater, by simp [hpositional]⟩
  rw [pythonOrder] at hprefix
  rcases List.prefix_or_prefix_of_prefix hprefix (List.prefix_append _ _) with hshort | hlong
  · -- the keywords cannot be among the positional arguments
    have hmem := hshort.subset (List.mem_append_right before (List.mem_singleton_self arg))
    have hfalse := (List.mem_filter.1 hmem).2
    rw [harg] at hfalse
    cases hfalse
  · have hle := hlong.sublist.countP_le (p := (!ofKeywords ·))
    rw [List.countP_append, List.countP_cons_of_neg (by simp [harg]), List.countP_nil,
      List.countP_eq_length.2 (fun other hother => (List.mem_filter.1 hother).2), hcount] at hle
    omega

/-! ## The run of a call and Python's call -/

lemma flatMap_argsOf_eq_nil {valued : List (CallArg × V)}
    (h : ∀ item ∈ valued, ofKeywords item.1 = true) : valued.flatMap (argsOf world) = [] := by
  refine List.flatMap_eq_nil_iff.2 fun item hitem => ?_
  obtain ⟨arg, value⟩ := item
  have harg : ofKeywords arg = true := h _ hitem
  cases arg <;> first | rfl | cases harg

lemma flatMap_kwargsOf_eq_nil {valued : List (CallArg × V)}
    (h : ∀ item ∈ valued, ofKeywords item.1 = false) : valued.flatMap (kwargsOf world) = [] := by
  refine List.flatMap_eq_nil_iff.2 fun item hitem => ?_
  obtain ⟨arg, value⟩ := item
  have harg : ofKeywords arg = false := h _ hitem
  cases arg <;> first | rfl | cases harg

lemma isKeyword_eq_ofKeywords {arg : CallArg} (h : arg.isStarred = false) :
    arg.isKeyword = ofKeywords arg := by
  cases arg with
  | positional expr => rfl
  | keyword name expr => rfl
  | star expr => simp [CallArg.isStarred] at h
  | doubleStar expr => simp [CallArg.isStarred] at h

/-- An exception of an evaluation is the outcome of the call. -/
lemma runCall_of_error (hcached : ∀ temp, world.cached temp = none) {func : Expr}
    {args : List (CallArg × String)} {outcome : Outcome V}
    (hnodup : (args.map Prod.snd).Nodup) (hpacks : Packs (args.map Prod.fst))
    (herror : evalAll world [] (eventsOf func (args.map Prod.fst)) = .error outcome) :
    runCall world func args = outcome := by
  cases hstar : (args.map Prod.fst).any (·.isStarred) with
  | true => rw [runCall_starred hcached func args hstar hnodup, herror]
  | false => rw [runCall_plain func args hstar hpacks, herror]

lemma exists_cons_of_evalAll {func : Expr} {args : List CallArg} {values : List V}
    (h : evalAll world [] (eventsOf func args) = .ok values) :
    ∃ callee rest, values = callee :: rest := by
  refine List.exists_cons_of_ne_nil ?_
  rintro rfl
  have hlength := length_of_evalAll h
  rw [eventsOf, List.length_cons] at hlength
  cases hlength

/-- A call without unpacking whose arguments all evaluate, in Python's order. -/
lemma runCall_plain_ordered {func : Expr} {args : List (CallArg × String)}
    {before after : List CallArg} {callee : V} {values : List V}
    (hplain : (args.map Prod.fst).any (·.isStarred) = false) (hpacks : Packs (args.map Prod.fst))
    (hsplit : args.map Prod.fst = before ++ after)
    (hbefore : ∀ arg ∈ before, ofKeywords arg = false)
    (hafter : ∀ arg ∈ after, ofKeywords arg = true)
    (hvalues : evalAll world [] (eventsOf func (args.map Prod.fst)) = .ok (callee :: values)) :
    runCall world func args =
      if ((((args.map Prod.fst).zip values).flatMap (kwargsOf world)).map Prod.fst).Nodup then
        .called (eventsOf func (args.map Prod.fst)) callee
          (((args.map Prod.fst).zip values).flatMap (argsOf world))
          (((args.map Prod.fst).zip values).flatMap (kwargsOf world))
      else .raised (eventsOf func (args.map Prod.fst)) "RuntimeError" := by
  have hlength : (args.map Prod.fst).length = values.length := by
    have h := length_of_evalAll hvalues
    rw [eventsOf, List.length_cons, List.length_cons, List.length_map] at h
    omega
  rw [runCall_plain func args hplain hpacks, hvalues]
  dsimp only
  rw [hsplit] at hplain hpacks hlength ⊢
  have hzip : (before ++ after).zip values =
      before.zip (values.take before.length) ++ after.zip (values.drop before.length) := by
    rw [List.length_append] at hlength
    conv_lhs => rw [← List.take_append_drop before.length values]
    exact List.zip_append (by rw [List.length_take]; omega)
  have hfst : ((before ++ after).zip values).map Prod.fst = before ++ after :=
    List.map_fst_zip hlength.le
  rw [hzip] at hfst ⊢
  have hfirst : ∀ item ∈ before.zip (values.take before.length), item.1 ∈ before :=
    fun item hitem => (List.of_mem_zip hitem).1
  have hsecond : ∀ item ∈ after.zip (values.drop before.length), item.1 ∈ after :=
    fun item hitem => (List.of_mem_zip hitem).1
  have hunstarred : ∀ arg ∈ before ++ after, arg.isStarred = false := by
    intro arg harg
    have hnot := List.any_eq_false.1 hplain arg harg
    simpa using hnot
  have hstep := plainCall_ordered world (eventsOf func (before ++ after))
    (fun _ => none) callee (before.zip (values.take before.length))
    (after.zip (values.drop before.length))
    (fun item hitem =>
      have hstarred := hunstarred item.1 (List.mem_append_left _ (hfirst item hitem))
      ⟨(isKeyword_eq_ofKeywords hstarred).trans (hbefore item.1 (hfirst item hitem)), hstarred⟩)
    (fun item hitem =>
      have hstarred := hunstarred item.1 (List.mem_append_right _ (hsecond item hitem))
      (isKeyword_eq_ofKeywords hstarred).trans (hafter item.1 (hsecond item hitem)))
    (by rwa [hfst])
  have hargs : (after.zip (values.drop before.length)).flatMap (argsOf world) = [] :=
    flatMap_argsOf_eq_nil fun item hitem => hafter item.1 (hsecond item hitem)
  have hkwargs : (before.zip (values.take before.length)).flatMap (kwargsOf world) = [] :=
    flatMap_kwargsOf_eq_nil fun item hitem => hbefore item.1 (hfirst item hitem)
  rw [hfst] at hstep
  rw [hstep, List.flatMap_append, List.flatMap_append, hargs, hkwargs, List.append_nil,
    List.nil_append]

/-- A call whose arguments all evaluate, in Python's order. -/
lemma runCall_ordered (hcached : ∀ temp, world.cached temp = none) {func : Expr}
    {args : List (CallArg × String)} {before after : List CallArg}
    {callee : V} {values : List V} (hnodup : (args.map Prod.snd).Nodup)
    (hpacks : Packs (args.map Prod.fst)) (hsplit : args.map Prod.fst = before ++ after)
    (hbefore : ∀ arg ∈ before, ofKeywords arg = false)
    (hafter : ∀ arg ∈ after, ofKeywords arg = true)
    (hvalues : evalAll world [] (eventsOf func (args.map Prod.fst)) = .ok (callee :: values)) :
    (((((args.map Prod.fst).zip values).flatMap (kwargsOf world)).map Prod.fst).Nodup →
      runCall world func args =
        .called (eventsOf func (args.map Prod.fst)) callee
          (((args.map Prod.fst).zip values).flatMap (argsOf world))
          (((args.map Prod.fst).zip values).flatMap (kwargsOf world))) ∧
    (¬((((args.map Prod.fst).zip values).flatMap (kwargsOf world)).map Prod.fst).Nodup →
      ∀ trace, runCall world func args ≠ .raised trace "TypeError") := by
  cases hstar : (args.map Prod.fst).any (·.isStarred) with
  | true =>
    rw [runCall_starred hcached func args hstar hnodup, hvalues]
    dsimp only
    refine ⟨fun hkeys => ?_, fun _ trace h => by cases h⟩
    rw [applyDictStackMerge_eq_append (((args.map Prod.fst).zip values).flatMap (kwargsOf world)) []
      hkeys, List.nil_append]
  | false =>
    rw [runCall_plain_ordered hstar hpacks hsplit hbefore hafter hvalues]
    refine ⟨fun hkeys => if_pos hkeys, fun hkeys trace h => ?_⟩
    rw [if_neg hkeys] at h
    simp at h

/-- A run shows the evaluation of an argument before which nothing raises. -/
lemma runCall_shows (hcached : ∀ temp, world.cached temp = none) {func : Expr}
    {args : List (CallArg × String)} {before after : List CallArg}
    {arg : CallArg} (hnodup : (args.map Prod.snd).Nodup) (hpacks : Packs (args.map Prod.fst))
    (hsplit : args.map Prod.fst = before ++ arg :: after)
    (hbefore : ∀ outcome, evalAll world [] (eventsOf func before) ≠ .error outcome) :
    (runCall world func args).Shows (eventsOf func (before ++ [arg])) := by
  have hevents : eventsOf func (args.map Prod.fst) =
      eventsOf func before ++ .argument arg :: after.map .argument := by
    rw [hsplit, eventsOf_append, List.map_cons]
  have hprefix : eventsOf func (before ++ [arg]) <+: eventsOf func (args.map Prod.fst) := by
    rw [hsplit, eventsOf_append, eventsOf_append]
    exact ⟨after.map .argument, by simp⟩
  have hmono : ∀ {outcome : Outcome V}, outcome.Shows (eventsOf func (args.map Prod.fst)) →
      outcome.Shows (eventsOf func (before ++ [arg])) := by
    intro outcome h
    cases outcome with
    | failed message => trivial
    | raised trace exception => exact hprefix.trans h
    | called trace callee values kwargs => exact hprefix.trans h
  have herror : ∀ outcome, evalAll world [] (eventsOf func (args.map Prod.fst)) = .error outcome →
      outcome.Shows (eventsOf func (before ++ [arg])) := by
    intro outcome h
    rw [hevents] at h
    have hshows := shows_of_evalAll_error hbefore h
    rwa [eventsOf_append]
  cases hvalues : evalAll world [] (eventsOf func (args.map Prod.fst)) with
  | error outcome =>
    rw [runCall_of_error hcached hnodup hpacks hvalues]
    exact herror outcome hvalues
  | ok values =>
    obtain ⟨callee, values, rfl⟩ := exists_cons_of_evalAll hvalues
    cases hstar : (args.map Prod.fst).any (·.isStarred) with
    | true =>
      rw [runCall_starred hcached func args hstar hnodup, hvalues]
      exact hprefix
    | false =>
      obtain ⟨outcome, hstep, hshows⟩ := plainCall_shows world (args.map Prod.fst)
        ⟨eventsOf func (args.map Prod.fst), fun _ => none,
          pushed world ((args.map Prod.fst).zip values) [.value callee]⟩
      rw [runCall_plain func args hstar hpacks, hvalues]
      dsimp only
      rw [hstep]
      exact hmono hshows

/-- What Python's call shows is part of its evaluations. -/
lemma pythonCall_within (world : World V) (func : Expr) (args : List CallArg) :
    (∃ trace exception, pythonCall world func args = .raised trace exception ∧
      trace <+: eventsOf func (pythonOrder args)) ∨
    ∃ callee values kwargs, pythonCall world func args =
      .called (eventsOf func (pythonOrder args)) callee values kwargs := by
  rw [pythonCall]
  cases hvalues : evalAll world [] (eventsOf func (pythonOrder args)) with
  | error outcome =>
    obtain ⟨exception, before, event, after, hevents, -, rfl⟩ := evalAll_error hvalues
    refine Or.inl ⟨_, exception, rfl, after, ?_⟩
    rw [hevents]
    simp
  | ok values =>
    obtain ⟨callee, values, rfl⟩ := exists_cons_of_evalAll hvalues
    dsimp only
    split
    · exact Or.inr ⟨callee, _, _, rfl⟩
    · exact Or.inl ⟨_, _, rfl, List.prefix_rfl⟩

lemma prefix_of_shows {func : Expr} {args shown : List CallArg} {outcome : Outcome V}
    (hshows : outcome.Shows (eventsOf func shown)) (heq : outcome = pythonCall world func args) :
    shown <+: pythonOrder args := by
  have hevents : eventsOf func shown <+: eventsOf func (pythonOrder args) := by
    rcases pythonCall_within world func args with
      ⟨trace, exception, hraised, hprefix⟩ | ⟨callee, values, kwargs, hcalled⟩
    · rw [heq, hraised] at hshows
      exact List.IsPrefix.trans hshows hprefix
    · rw [heq, hcalled] at hshows
      exact hshows
  rw [eventsOf, eventsOf, List.cons_prefix_cons] at hevents
  exact (List.prefix_map_iff_of_injective fun a b h => Event.argument.inj h).1 hevents.2

lemma runCall_of_not_packs {func : Expr} {args : List (CallArg × String)}
    (h : ¬Packs (args.map Prod.fst)) :
    runCall world func args = .failed "too many call arguments" := by
  rw [Packs, not_or, not_or] at h
  have hany : args.any (·.1.isStarred) = false := by
    have hstar := Bool.eq_false_iff.2 h.1
    rwa [List.any_map] at hstar
  have hcounts : posCount (args.map Prod.fst) > 0xFFFF ∨ kwCount (args.map Prod.fst) > 0xFFFF := by
    have hnot := h.2.2
    omega
  rw [runCall, callCode, if_neg (by rw [hany]; exact Bool.false_ne_true), plainCode,
    if_pos (Nat.pos_of_ne_zero h.2.1), if_pos hcounts]
  rfl

end Runs

variable {V : Type}

/-- A world of names: each is worth itself, as an iterable it has itself as its only element, and as
a mapping it provides the keyword `a`. -/
def names : World String where
  eval _ event :=
    match event.expr with
    | .name text => .ok text
    | _ => .error "NameError"
  elements text := [text]
  items text := [("a", text)]
  items_nodup _ := List.nodup_singleton _
  str := id
  asStr := some
  asStr_str _ := rfl
  cached _ := none

/-- The second run of `f(*x)` at module level is called with the elements of the first one. -/
lemma runCall_staleEntry :
    runCall { names with cached := fun _ => some "old" } (.name "f") [(.star (.name "x"), "t0")] =
      .called (eventsOf (.name "f") [.star (.name "x")]) "f" ["old"] [] := rfl

end Calls

end Pyrs
