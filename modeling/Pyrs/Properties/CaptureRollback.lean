import Pyrs.Model.SreInterpreter

/-!
# The marks of given-up attempts

Whenever the interpreter of compiled patterns begins another attempt, the marks are those it had
when the construct was entered, as long as no `REPEAT` drops changes from the undo log that a
checkpoint still counts on, and no `MIN_REPEAT_ONE` iterates over marks.
-/

namespace Pyrs

namespace Sre

/-! ## What a run records -/

/-- The condition under which a step leaves the checkpoints alone: a `REPEAT` that a failure goes
back over finds an empty undo log, and is no part of a construct that goes on behind it; an
iteration whose checkpoint is used later than that of the next one sets no marks. -/
def SreEvent.Meets : SreEvent → Prop
  | .retry _ _ => True
  | .iteration before after => after = before
  | .repeat held kept undoLen => kept = false ∧ (held = true → undoLen = 0)

instance (event : SreEvent) : Decidable event.Meets := by
  cases event <;> unfold SreEvent.Meets <;> infer_instance

/-- An attempt begins with the slots of its construct. -/
def SreEvent.Restored : SreEvent → Prop
  | .retry entry now => now = entry
  | .iteration _ _ | .repeat _ _ _ => True

abbrev SreMarkState.Extends (before after : SreMarkState) : Prop :=
  Logged.Extends SreMarkUndo.revert before after

open SreMarkState (Extends)

-- The equations of the machine, which the lemmas on its constructs ask for at once.
attribute [local simp] getMarks recordEvent modifyMarks sreBranch sreCandidates sreIterations
  sreRunLoop sreCollectLoop

lemma SreMarkState.restore_of_extends {before after : SreMarkState} (h : Extends before after) :
    restore before.checkpoint after = before := h.unwind_eq

lemma SreMarkState.extends_restore {before after : SreMarkState} (h : Extends before after) :
    Extends before (after.restore before.checkpoint) := by
  rw [restore_of_extends h]
  exact .refl _

lemma SreMarkState.extends_set (marks : SreMarkState) (index : ℕ) (value : Option ℕ) :
    Extends marks (marks.set index value) := by
  unfold SreMarkState.set
  split
  next hnone =>
    refine Logged.Extends.change ?_
    rw [SreMarkUndo.revert, List.append_assoc, List.take_left']
    rfl
  next old hsome =>
    split
    · exact .refl _
    · refine Logged.Extends.change ?_
      obtain ⟨hlt, hget⟩ := List.getElem?_eq_some_iff.1 hsome
      rw [SreMarkUndo.revert, List.set_set, ← hget, List.set_getElem_self]

/-- An attempt that begins with its marks, and what is recorded behind it. -/
lemma restored_retry {entry now : SreSlots} {events : List SreEvent} (hentry : now = entry)
    (hrestored : ∀ event ∈ events, event.Restored) :
    ∀ event ∈ .retry entry now :: events, event.Restored :=
  List.forall_mem_cons.2 ⟨hentry, hrestored⟩

/-- What a computation does to the machine.  Where the steps it records meet their condition, the
attempts begin with the right marks; and the marks `base` can be gone back to afterwards, if it
fails and `fails` asks for it, or if it succeeds and `succeeds` does. -/
def SoundFrom (pre : Prop) (base : SreMarkState) (fails succeeds : Bool) (s : SreMachine) (ok : Bool)
    (s' : SreMachine) : Prop :=
  ∃ new, s'.record = s.record ++ new ∧
    (pre → (∀ event ∈ new, event.Meets) →
      (∀ event ∈ new, event.Restored) ∧
        ((bif ok then succeeds else fails) = true → Extends base s'.marks))

def Sound (fails succeeds : Bool) (s : SreMachine) (ok : Bool) (s' : SreMachine) : Prop :=
  SoundFrom True s.marks fails succeeds s ok s'

variable {fails succeeds ok : Bool} {s s' s'' : SreMachine} {α β : Type}

lemma Sound.refl (s : SreMachine) : Sound fails succeeds s ok s :=
  ⟨[], by simp, fun _ _ => ⟨by simp, fun _ => .refl _⟩⟩

lemma Sound.trans (h : Sound fails fails s true s') (h' : Sound fails succeeds s' ok s'')
    (hle : succeeds = true → fails = true) : Sound fails succeeds s ok s'' := by
  obtain ⟨new, hrecord, hnew⟩ := h
  obtain ⟨new', hrecord', hnew'⟩ := h'
  refine ⟨new ++ new', by rw [hrecord', hrecord, List.append_assoc], fun _ hmeets => ?_⟩
  obtain ⟨hmeets, hmeets'⟩ := List.forall_mem_append.1 hmeets
  obtain ⟨hrestored, hextends⟩ := hnew trivial hmeets
  obtain ⟨hrestored', hextends'⟩ := hnew' trivial hmeets'
  refine ⟨List.forall_mem_append.2 ⟨hrestored, hrestored'⟩, fun hasked => ?_⟩
  have hfails : fails = true := by
    cases ok with
    | true => exact hle hasked
    | false => exact hasked
  exact (hextends hfails).trans (hextends' hasked)

/-- Where nothing is asked of the marks, success and failure are alike. -/
lemma Sound.of_free {ok' : Bool} (h : Sound false false s ok s') : Sound false false s ok' s' := by
  obtain ⟨new, hrecord, hnew⟩ := h
  exact ⟨new, hrecord, fun _ hmeets => ⟨(hnew trivial hmeets).1, by cases ok' <;> simp⟩⟩

/-! ## Computations -/

open Attempt (Leads)

lemma leads_pure (a : α) : Leads (Sound fails succeeds) (pure a : SreM α) := fun s => Sound.refl s

lemma leads_fail : Leads (Sound fails succeeds) (.fail : SreM α) := fun s => Sound.refl s

lemma leads_ofOption (value : Option α) : Leads (Sound fails succeeds) (.ofOption value : SreM α) :=
  fun s => Sound.refl s

lemma leads_getMarks : Leads (Sound fails succeeds) getMarks := fun s => Sound.refl s

lemma leads_bind {x : SreM α} {f : α → SreM β} (hle : succeeds = true → fails = true)
    (hx : Leads (Sound fails fails) x) (hf : ∀ a, Leads (Sound fails succeeds) (f a)) :
    Leads (Sound fails succeeds) (x >>= f) :=
  hx.bind hf (fun _ _ _ _ h h' => h.trans h' hle) fun _ _ h => h

lemma leads_set (index : ℕ) (value : Option ℕ) :
    Leads (Sound fails succeeds) (modifyMarks (·.set index value)) := fun s =>
  ⟨[], by simp, fun _ _ => ⟨by simp, fun _ => SreMarkState.extends_set ..⟩⟩

/-- Computations of which nothing is asked but that their attempts begin with the right marks. -/
abbrev Free (x : SreM α) : Prop := Leads (Sound false false) x

lemma free_bind {x : SreM α} {f : α → SreM β} (hx : Free x) (hf : ∀ a, Free (f a)) :
    Free (x >>= f) := leads_bind id hx hf

lemma free_modifyMarks (f : SreMarkState → SreMarkState) : Free (modifyMarks f) := fun s =>
  ⟨[], by simp, fun _ _ => ⟨by simp, by simp⟩⟩

/-- The same of computations that never fail. -/
abbrev Always (x : SreM α) : Prop :=
  Leads (fun s ok s' => ok = true ∧ Sound false false s ok s') x

lemma Always.free {x : SreM α} (hx : Always x) : Free x := fun s => (hx s).2

lemma always_pure (a : α) : Always (pure a : SreM α) := fun s => ⟨rfl, Sound.refl s⟩

lemma always_getMarks : Always getMarks := fun s => ⟨rfl, Sound.refl s⟩

lemma always_modifyMarks (f : SreMarkState → SreMarkState) : Always (modifyMarks f) := fun s =>
  ⟨rfl, free_modifyMarks f s⟩

lemma always_outcome {x : SreM α} (hx : Free x) : Always x.outcome := fun s =>
  ⟨rfl, (hx s).of_free⟩

lemma always_bind {x : SreM α} {f : α → SreM β} (hx : Always x) (hf : ∀ a, Always (f a)) :
    Always (x >>= f) :=
  hx.bind hf (fun _ _ _ _ h h' => ⟨h'.1, h.2.trans h'.2 id⟩) fun _ _ h => absurd h.1 (by simp)

/-! ## Opcodes that try nothing -/

variable (input : SreInput)

lemma leads_sreSimpleStep (readLiteral : List ℤ → ℕ → Option ℕ) (opcode : ℤ) (pc cursor : ℕ)
    (hle : succeeds = true → fails = true) :
    Leads (Sound fails succeeds) (sreSimpleStep input readLiteral opcode pc cursor) := by
  have hread {β : Type} (value : Option β) {f : β → SreM (ℕ × ℕ)}
      (hf : ∀ a, Leads (Sound fails succeeds) (f a)) :
      Leads (Sound fails succeeds) (.ofOption value >>= f) :=
    leads_bind hle (leads_ofOption value) hf
  unfold sreSimpleStep
  refine .ite (hread _ fun _ => leads_pure _) ?_
  refine .ite (hread _ fun _ => .ite (leads_pure _) leads_fail) ?_
  refine .ite (hread _ fun _ => .ite (leads_pure _) leads_fail) ?_
  refine .ite (hread _ fun _ => .ite leads_fail (leads_pure _)) ?_
  refine .ite (hread _ fun _ => .ite leads_fail (leads_pure _)) ?_
  refine .ite (hread _ fun _ => leads_pure _) ?_
  refine .ite (hread _ fun _ => hread _ fun _ => hread _ fun _ => ?_) ?_
  · exact .ite (leads_pure _) leads_fail
  refine .ite (hread _ fun _ => leads_bind hle (leads_set _ _) fun _ => leads_pure _) ?_
  refine .ite (hread _ fun _ => leads_bind hle leads_getMarks fun _ => ?_) leads_fail
  exact hread _ fun _ => leads_pure _

/-! ## Constructs that try several ways -/

/-- The functions one level deeper do what they should. -/
structure SreRunner.Sound (inner : SreRunner) : Prop where
  run (held kept : Bool) (pcStart pcLimit pos : ℕ) :
    Leads (Sre.Sound (held || kept) kept) (inner.run held kept pcStart pcLimit pos)
  collect (pcStart pcLimit pos : ℕ) (results : SreResults) :
    Always (inner.collect pcStart pcLimit pos results)

section Constructs

variable {inner : SreRunner} (hinner : inner.Sound) (held kept : Bool) (pcLimit : ℕ)

/-- No alternative is tried where there is none. -/
lemma sreBranch_of_not_hasAlternative {branch : ℕ}
    (h : sreHasAlternative input pcLimit branch = false) (hlt : branch < pcLimit) (entry : SreSlots)
    (cursor steps : ℕ) (s : SreMachine) :
    sreBranch input inner held kept pcLimit entry cursor steps branch s = (none, s) := by
  cases steps with
  | zero => rfl
  | succ steps =>
    rw [sreBranch, Attempt.bind_apply, Attempt.ofOption_apply]
    simp only [sreHasAlternative, hlt, decide_true, Bool.true_and, decide_eq_false_iff_not,
      not_not] at h
    cases hskip : sreReadUsize input.code branch with
    | none => rfl
    | some skip =>
      rw [hskip] at h
      obtain rfl : skip = 0 := by simpa using h
      rfl

include hinner in
/-- Every alternative begins with the marks of the branch. -/
lemma sreBranch_sound (entry : SreSlots) (cursor steps branch : ℕ) (s : SreMachine) :
    SoundFrom (s.marks.value = entry) s.marks (held || kept) kept s
      (sreBranch input inner held kept pcLimit entry cursor steps branch s).1.isSome
      (sreBranch input inner held kept pcLimit entry cursor steps branch s).2 := by
  induction steps generalizing branch s with
  | zero => exact ⟨[], by simp [sreBranch], fun _ _ => ⟨by simp, fun _ => .refl _⟩⟩
  | succ steps ih =>
    rw [sreBranch, Attempt.bind_apply, Attempt.ofOption_apply]
    cases hskip : sreReadUsize input.code branch with
    | none => exact ⟨[], by simp, fun _ _ => ⟨by simp, fun _ => .refl _⟩⟩
    | some skip =>
      dsimp only
      split
      · exact ⟨[], by simp, fun _ _ => ⟨by simp, fun _ => .refl _⟩⟩
      · simp only [getMarks, recordEvent, modifyMarks, Attempt.read_bind_apply,
          Attempt.update_bind_apply, Attempt.outcome_bind_apply]
        generalize hmore : sreHasAlternative input pcLimit (branch + skip) = more
        set entered : SreMachine :=
          ⟨s.marks, s.record ++ [.retry entry s.marks.value]⟩ with hentered
        obtain ⟨new, hrecord, hnew⟩ :=
          hinner.run (held || kept || more) kept (branch + 1) pcLimit cursor entered
        generalize inner.run (held || kept || more) kept (branch + 1) pcLimit cursor entered =
          result at hrecord hnew
        obtain ⟨value, machine⟩ := result
        replace hrecord : machine.record = s.record ++ .retry entry s.marks.value :: new := by
          simpa [hentered] using hrecord
        cases value with
        | some matched =>
          refine ⟨.retry entry s.marks.value :: new, hrecord, ?_⟩
          intro hentry hmeets
          obtain ⟨hrestored, hextends⟩ := hnew trivial (List.forall_mem_cons.1 hmeets).2
          exact ⟨restored_retry hentry hrestored, hextends⟩
        | none =>
          dsimp only at hnew ⊢
          rw [Attempt.update_bind_apply]
          -- going back gives the marks of the branch wherever they are still asked for
          have hback (hasked : (held || kept || more) = true)
              (hmeets : ∀ event ∈ new, event.Meets) :
              machine.marks.restore s.marks.checkpoint = s.marks :=
            SreMarkState.restore_of_extends ((hnew trivial hmeets).2 (by simp [hasked]))
          split
          next hend =>
            refine ⟨.retry entry s.marks.value :: new, hrecord, ?_⟩
            intro hentry hmeets
            have hmeets := (List.forall_mem_cons.1 hmeets).2
            refine ⟨restored_retry hentry (hnew trivial hmeets).1, fun hasked => ?_⟩
            have hasked : (held || kept) = true := hasked
            exact SreMarkState.extends_restore ((hnew trivial hmeets).2 (by simp [hasked]))
          next hnext =>
            by_cases hasked : (held || kept || more) = true
            · obtain ⟨new', hrecord', hnew'⟩ := ih (branch + skip)
                { machine with marks := machine.marks.restore s.marks.checkpoint }
              refine ⟨.retry entry s.marks.value :: (new ++ new'), ?_, ?_⟩
              · rw [hrecord', ← List.cons_append, ← List.append_assoc, ← hrecord]
              intro hentry hmeets
              obtain ⟨hmeets, hmeets'⟩ :=
                List.forall_mem_append.1 (List.forall_mem_cons.1 hmeets).2
              have hmarks := hback hasked hmeets
              rw [hmarks] at hnew' ⊢
              dsimp only at hnew' ⊢
              obtain ⟨hrestored', hextends'⟩ := hnew' hentry hmeets'
              exact ⟨restored_retry hentry (List.forall_mem_append.2 ⟨(hnew trivial hmeets).1,
                hrestored'⟩), hextends'⟩
            · simp only [Bool.or_eq_true, not_or, Bool.not_eq_true] at hasked
              rw [sreBranch_of_not_hasAlternative input held kept pcLimit
                (hmore.trans hasked.2) (by omega)]
              refine ⟨.retry entry s.marks.value :: new, hrecord, ?_⟩
              intro hentry hmeets
              refine ⟨restored_retry hentry (hnew trivial (List.forall_mem_cons.1 hmeets).2).1, ?_⟩
              simp [hasked]

include hinner in
/-- A failed negative lookahead leaves the marks as it found them. -/
lemma leads_sreAssert (opcode : ℤ) (pc cursor : ℕ) :
    Leads (Sound (held || kept) (held || kept))
      (sreAssert input inner held kept opcode pc cursor) := by
  unfold sreAssert
  refine leads_bind id (leads_ofOption _) fun skip => ?_
  refine leads_bind id (leads_ofOption _) fun back => ?_
  dsimp only
  split
  · exact leads_fail
  · intro s
    simp only [getMarks, Attempt.read_bind_apply]
    split
    · rw [Attempt.outcome_bind_apply]
      obtain ⟨new, hrecord, hnew⟩ :=
        hinner.run (held || kept) (held || kept) (pc + 3) (pc + 1 + skip) (cursor - back) s
      generalize inner.run (held || kept) (held || kept) (pc + 3) (pc + 1 + skip)
        (cursor - back) s =
        result at hrecord hnew
      obtain ⟨value, machine⟩ := result
      simp only [Bool.or_self] at hnew
      cases value with
      | some finish => exact ⟨new, hrecord, fun _ hmeets => hnew trivial hmeets⟩
      | none =>
        refine ⟨new, hrecord, fun _ hmeets => ⟨(hnew trivial hmeets).1, fun hasked => ?_⟩⟩
        exact SreMarkState.extends_restore ((hnew trivial hmeets).2 hasked)
    · rw [Attempt.outcome_bind_apply]
      obtain ⟨new, hrecord, hnew⟩ :=
        hinner.run true (held || kept) (pc + 3) (pc + 1 + skip) (cursor - back) s
      generalize inner.run true (held || kept) (pc + 3) (pc + 1 + skip) (cursor - back) s =
        result at hrecord hnew
      obtain ⟨value, machine⟩ := result
      cases value with
      | some finish =>
        refine ⟨new, hrecord, fun _ hmeets => ⟨(hnew trivial hmeets).1, fun hasked => ?_⟩⟩
        exact SreMarkState.extends_restore ((hnew trivial hmeets).2 hasked)
      | none =>
        simp only [modifyMarks, recordEvent, Attempt.update_bind_apply, Attempt.pure_apply]
        replace hrecord : machine.record = s.record ++ new := hrecord
        refine ⟨new ++ [.retry s.marks.value (machine.marks.restore s.marks.checkpoint).value],
          by simp [hrecord], fun _ hmeets => ?_⟩
        obtain ⟨hrestored, hextends⟩ := hnew trivial (List.forall_mem_append.1 hmeets).1
        rw [SreMarkState.restore_of_extends (hextends (by simp))]
        refine ⟨List.forall_mem_append.2 ⟨hrestored, ?_⟩, fun _ => .refl _⟩
        simp [SreEvent.Restored]

/-! ## Repetitions of one width -/

/-- What the iterations of a `REPEAT_ONE` leave: each extends the marks before it, and is the same
where the repetition is lazy and beyond its minimum; the last one has the marks of the machine. -/
def Linked (lazy : Bool) (minCount : ℕ) :
    ℕ → SreMarkState → List SreCandidate → SreMarkState → Prop
  | _, marks, [], last => last = marks
  | count, marks, candidate :: candidates, last =>
    Extends marks candidate.marks ∧
      (lazy = true → minCount ≤ count → candidate.marks = marks) ∧
      Linked lazy minCount (count + 1) candidate.marks candidates last

section Linked

variable {lazy : Bool} {minCount count : ℕ} {marks last : SreMarkState}
  {candidates : List SreCandidate}

lemma Linked.extends_last (h : Linked lazy minCount count marks candidates last) :
    Extends marks last := by
  induction candidates generalizing count marks with
  | nil =>
    obtain rfl : last = marks := h
    exact .refl _
  | cons candidate candidates ih => exact h.1.trans (ih h.2.2)

/-- Every state extends those before it. -/
lemma Linked.pairwise (pos : ℕ) (h : Linked lazy minCount count marks candidates last) :
    (⟨pos, marks⟩ :: candidates).Pairwise fun earlier later =>
      Extends earlier.marks later.marks := by
  induction candidates generalizing count marks pos with
  | nil => exact List.pairwise_singleton _ _
  | cons candidate candidates ih =>
    have hrest := ih candidate.pos h.2.2
    refine List.pairwise_cons.2 ⟨?_, hrest⟩
    intro later hmem
    rcases List.mem_cons.1 hmem with rfl | hmem
    · exact h.1
    · exact h.1.trans ((List.pairwise_cons.1 hrest).1 later hmem)

/-- The last state is the one of the machine. -/
lemma Linked.getLast (pos : ℕ) (h : Linked lazy minCount count marks candidates last) :
    ∀ candidate ∈ (⟨pos, marks⟩ :: candidates).getLast?, candidate.marks = last := by
  induction candidates generalizing count marks pos with
  | nil =>
    obtain rfl : last = marks := h
    simp
  | cons candidate candidates ih =>
    rw [List.getLast?_cons_cons]
    exact ih candidate.pos h.2.2

lemma Linked.eq_of_lazy (h : Linked lazy minCount count marks candidates last)
    (hlazy : lazy = true) (hcount : minCount ≤ count) :
    ∀ candidate ∈ candidates, candidate.marks = marks := by
  induction candidates generalizing count marks with
  | nil => simp
  | cons candidate candidates ih =>
    have hsame := h.2.1 hlazy hcount
    refine List.forall_mem_cons.2 ⟨hsame, ?_⟩
    rw [← hsame]
    exact ih h.2.2 (by omega)

/-- The states a lazy repetition goes on from have the same marks. -/
lemma Linked.drop_eq (pos : ℕ) (h : Linked lazy minCount count marks candidates last)
    (hlazy : lazy = true) :
    ∀ candidate ∈ (⟨pos, marks⟩ :: candidates).drop (minCount - count),
      candidate.marks = last := by
  induction candidates generalizing count marks pos with
  | nil =>
    obtain rfl : last = marks := h
    intro candidate hmem
    obtain rfl := List.mem_singleton.1 (List.mem_of_mem_drop hmem)
    rfl
  | cons candidate candidates ih =>
    by_cases hcount : minCount ≤ count
    · have hall := h.eq_of_lazy hlazy hcount
      have hlast : last = marks := by
        have hmem := h.getLast pos
        have hne : ⟨pos, marks⟩ :: candidate :: candidates ≠ [] := by simp
        rw [List.getLast?_eq_getLast_of_ne_nil hne] at hmem
        rw [← hmem _ rfl, List.getLast_cons (by simp)]
        exact hall _ (List.getLast_mem _)
      rw [Nat.sub_eq_zero_of_le hcount, List.drop_zero]
      exact List.forall_mem_cons.2 ⟨hlast.symm, fun c hc => (hall c hc).trans hlast.symm⟩
    · obtain ⟨extra, hextra⟩ : ∃ extra, minCount - count = extra + 1 :=
        ⟨minCount - count - 1, by omega⟩
      have hrest := ih candidate.pos h.2.2
      rw [hextra, List.drop_succ_cons]
      rwa [show minCount - (count + 1) = extra by omega] at hrest

end Linked

include hinner in
lemma sreIterations_sound (lazy : Bool) (minCount unitStart nextPc hardMax count repPos : ℕ)
    (s : SreMachine) :
    ∃ candidates s' new,
      sreIterations inner lazy minCount unitStart nextPc hardMax count repPos s =
        (some candidates, s') ∧
      s'.record = s.record ++ new ∧
      ((∀ event ∈ new, event.Meets) → (∀ event ∈ new, event.Restored) ∧
        Linked lazy minCount count s.marks candidates s'.marks) := by
  induction hardMax generalizing count repPos s with
  | zero => exact ⟨[], s, [], rfl, by simp, fun _ => ⟨by simp, rfl⟩⟩
  | succ hardMax ih =>
    rw [sreIterations, getMarks, Attempt.read_bind_apply, Attempt.outcome_bind_apply]
    obtain ⟨new, hrecord, hnew⟩ := hinner.run true true unitStart nextPc repPos s
    generalize inner.run true true unitStart nextPc repPos s = result at hrecord hnew
    obtain ⟨value, machine⟩ := result
    replace hrecord : machine.record = s.record ++ new := hrecord
    -- an iteration that is given up is undone
    have hback (hmeets : ∀ event ∈ new, event.Meets) :
        machine.marks.restore s.marks.checkpoint = s.marks :=
      SreMarkState.restore_of_extends ((hnew trivial hmeets).2 (by cases value <;> rfl))
    cases value with
    | none =>
      exact ⟨[], _, new, rfl, hrecord, fun hmeets => ⟨(hnew trivial hmeets).1, hback hmeets⟩⟩
    | some nextPos =>
      dsimp only
      split
      · exact ⟨[], _, new, rfl, hrecord, fun hmeets => ⟨(hnew trivial hmeets).1, hback hmeets⟩⟩
      · rw [Attempt.read_bind_apply]
        split
        next hlazy =>
          simp only [Bool.and_eq_true, decide_eq_true_eq] at hlazy
          simp only [recordEvent, Attempt.update_bind_apply]
          obtain ⟨candidates, s', new', hrun, hrecord', hnew'⟩ := ih (count + 1) nextPos
            ⟨machine.marks, machine.record ++
              [.iteration s.marks.checkpoint machine.marks.checkpoint]⟩
          refine ⟨⟨nextPos, machine.marks⟩ :: candidates, s',
            new ++ .iteration s.marks.checkpoint machine.marks.checkpoint :: new', ?_, ?_, ?_⟩
          · rw [Attempt.bind_apply, hrun]
            rfl
          · simp [hrecord', hrecord]
          · intro hmeets
            obtain ⟨hmeets, hmeets'⟩ := List.forall_mem_append.1 hmeets
            obtain ⟨hsame, hmeets'⟩ := List.forall_mem_cons.1 hmeets'
            obtain ⟨hrestored', hlinked⟩ := hnew' hmeets'
            have hextends : Extends s.marks machine.marks := (hnew trivial hmeets).2 rfl
            refine ⟨List.forall_mem_append.2 ⟨(hnew trivial hmeets).1,
              List.forall_mem_cons.2 ⟨trivial, hrestored'⟩⟩, hextends, fun _ _ => ?_, hlinked⟩
            exact hextends.eq_of_length hsame
        next hlazy =>
          simp only [Bool.and_eq_true, decide_eq_true_eq, not_and] at hlazy
          obtain ⟨candidates, s', new', hrun, hrecord', hnew'⟩ := ih (count + 1) nextPos machine
          refine ⟨⟨nextPos, machine.marks⟩ :: candidates, s', new ++ new', ?_, ?_, ?_⟩
          · rw [Attempt.bind_apply, hrun]
            rfl
          · rw [hrecord', hrecord, List.append_assoc]
          · intro hmeets
            obtain ⟨hmeets, hmeets'⟩ := List.forall_mem_append.1 hmeets
            obtain ⟨hrestored', hlinked⟩ := hnew' hmeets'
            exact ⟨List.forall_mem_append.2 ⟨(hnew trivial hmeets).1, hrestored'⟩,
              (hnew trivial hmeets).2 rfl, fun h h' => absurd h' (hlazy h), hlinked⟩

include hinner in
/-- Every candidate begins with its own marks, if the later ones are those of earlier points. -/
lemma sreCandidates_sound (base : SreMarkState) (nextPc : ℕ) (candidates : List SreCandidate)
    (s : SreMachine) :
    SoundFrom
      (Extends base s.marks ∧ (∀ candidate ∈ candidates, Extends base candidate.marks) ∧
        (∀ candidate ∈ candidates.head?, Extends candidate.marks s.marks) ∧
        candidates.Pairwise fun candidate later => Extends later.marks candidate.marks)
      base (held || kept) kept s
      (sreCandidates inner held kept pcLimit nextPc candidates s).1.isSome
      (sreCandidates inner held kept pcLimit nextPc candidates s).2 := by
  induction candidates generalizing s with
  | nil => exact ⟨[], by simp [sreCandidates], fun hpre _ => ⟨by simp, fun _ => hpre.1⟩⟩
  | cons candidate candidates ih =>
    simp only [sreCandidates, modifyMarks, recordEvent, Attempt.update_bind_apply,
      Attempt.outcome_bind_apply]
    set event : SreEvent :=
      .retry candidate.marks.value (s.marks.restore candidate.marks.checkpoint).value with hevent
    set entered : SreMachine :=
      ⟨s.marks.restore candidate.marks.checkpoint, s.record ++ [event]⟩ with hentered
    obtain ⟨new, hrecord, hnew⟩ :=
      hinner.run (held || kept || !candidates.isEmpty) kept nextPc pcLimit candidate.pos entered
    generalize inner.run (held || kept || !candidates.isEmpty) kept nextPc pcLimit candidate.pos
      entered = result at hrecord hnew
    obtain ⟨value, machine⟩ := result
    replace hrecord : machine.record = s.record ++ event :: new := by
      simpa [hentered] using hrecord
    have hentry (hhead : Extends candidate.marks s.marks) : entered.marks = candidate.marks :=
      SreMarkState.restore_of_extends hhead
    have hslots (hhead : Extends candidate.marks s.marks) :
        (s.marks.restore candidate.marks.checkpoint).value = candidate.marks.value :=
      congrArg Logged.value (hentry hhead)
    cases value with
    | some matched =>
      refine ⟨event :: new, hrecord, fun ⟨_, hbase, hhead, _⟩ hmeets => ?_⟩
      obtain ⟨hrestored, hextends⟩ := hnew trivial (List.forall_mem_cons.1 hmeets).2
      refine ⟨restored_retry (hslots (hhead _ rfl)) hrestored, fun hasked => ?_⟩
      have hextends := hextends hasked
      rw [hentry (hhead _ rfl)] at hextends
      exact (hbase _ List.mem_cons_self).trans hextends
    | none =>
      dsimp only at hnew ⊢
      rw [Attempt.update_bind_apply]
      have hback (hasked : (held || kept || !candidates.isEmpty) = true)
          (hhead : Extends candidate.marks s.marks) (hmeets : ∀ event ∈ new, event.Meets) :
          machine.marks.restore candidate.marks.checkpoint = candidate.marks := by
        have hextends := (hnew trivial hmeets).2 (by simp [hasked])
        rw [hentry hhead] at hextends
        exact SreMarkState.restore_of_extends hextends
      by_cases hasked : (held || kept || !candidates.isEmpty) = true
      · obtain ⟨new', hrecord', hnew'⟩ :=
          ih { machine with marks := machine.marks.restore candidate.marks.checkpoint }
        refine ⟨event :: (new ++ new'), ?_, ?_⟩
        · rw [hrecord', ← List.cons_append, ← List.append_assoc, ← hrecord]
        rintro ⟨_, hbase, hhead, hpairwise⟩ hmeets
        obtain ⟨hmeets, hmeets'⟩ := List.forall_mem_append.1 (List.forall_mem_cons.1 hmeets).2
        obtain ⟨hbase, hbases⟩ := List.forall_mem_cons.1 hbase
        obtain ⟨hfirst, hpairwise⟩ := List.pairwise_cons.1 hpairwise
        have hmarks := hback hasked (hhead _ rfl) hmeets
        rw [hmarks] at hnew' ⊢
        obtain ⟨hrestored', hextends'⟩ := hnew'
          ⟨hbase, hbases, fun later hlater => hfirst later (List.mem_of_mem_head? hlater),
            hpairwise⟩ hmeets'
        exact ⟨restored_retry (hslots (hhead _ rfl))
          (List.forall_mem_append.2 ⟨(hnew trivial hmeets).1, hrestored'⟩), hextends'⟩
      · simp only [Bool.or_eq_true, not_or, Bool.not_eq_true, Bool.not_eq_false',
          List.isEmpty_iff] at hasked
        obtain ⟨⟨rfl, rfl⟩, rfl⟩ := hasked
        refine ⟨event :: new, hrecord, fun ⟨_, _, hhead, _⟩ hmeets => ?_⟩
        refine ⟨restored_retry (hslots (hhead _ rfl))
          (hnew trivial (List.forall_mem_cons.1 hmeets).2).1, ?_⟩
        simp [sreCandidates]

/-- The states a repetition goes on from, in its order, each extended by the machine and by those
tried before. -/
lemma candidates_of_linked {lazy : Bool} {minCount : ℕ} (pos : ℕ) {marks last : SreMarkState}
    {iterations : List SreCandidate} (h : Linked lazy minCount 0 marks iterations last) :
    let states := ⟨pos, marks⟩ :: iterations
    let candidates :=
      if lazy = true then states.drop minCount else (states.drop minCount).reverse
    (∀ candidate ∈ candidates, Extends marks candidate.marks) ∧
      (∀ candidate ∈ candidates.head?, Extends candidate.marks last) ∧
      candidates.Pairwise fun candidate later => Extends later.marks candidate.marks := by
  have hpairwise := h.pairwise pos
  have hall : ∀ candidate ∈ ⟨pos, marks⟩ :: iterations, Extends marks candidate.marks :=
    List.forall_mem_cons.2 ⟨.refl _, (List.pairwise_cons.1 hpairwise).1⟩
  intro states candidates
  by_cases hlazy : lazy = true
  · have hsame : ∀ candidate ∈ states.drop minCount, candidate.marks = last :=
      h.drop_eq pos hlazy
    rw [show candidates = states.drop minCount from if_pos hlazy]
    refine ⟨fun candidate hmem => hall candidate (List.mem_of_mem_drop hmem), ?_, ?_⟩
    · intro candidate hmem
      rw [hsame candidate (List.mem_of_mem_head? hmem)]
      exact .refl _
    · refine List.pairwise_of_forall_mem_list fun candidate hmem later hmem' => ?_
      rw [hsame candidate hmem, hsame later hmem']
      exact .refl _
  · rw [show candidates = (states.drop minCount).reverse from if_neg hlazy]
    refine ⟨fun candidate hmem =>
      hall candidate (List.mem_of_mem_drop (List.mem_reverse.1 hmem)), ?_, ?_⟩
    · intro candidate hmem
      rw [List.head?_reverse, List.getLast?_drop] at hmem
      split at hmem
      · cases hmem
      rw [h.getLast pos candidate hmem]
      exact .refl _
    · exact List.pairwise_reverse.2 (hpairwise.drop)

include hinner in
lemma leads_sreRepeatOne (opcode : ℤ) (pc cursor : ℕ) :
    Leads (Sound (held || kept) kept)
      (sreRepeatOne input inner held kept pcLimit opcode pc cursor) := by
  have hle : kept = true → (held || kept) = true := fun h => by simp [h]
  unfold sreRepeatOne
  refine leads_bind hle (leads_ofOption _) fun skip => ?_
  refine leads_bind hle (leads_ofOption _) fun minCount => ?_
  refine leads_bind hle (leads_ofOption _) fun maxCountRaw => ?_
  intro s
  rw [getMarks, Attempt.read_bind_apply]
  generalize hlazy : decide (opcode ≠ SRE_OP_REPEAT_ONE) = lazy
  obtain ⟨iterations, middle, new, hrun, hrecord, hnew⟩ := sreIterations_sound hinner lazy minCount
    (pc + 4) (pc + 1 + skip) (min maxCountRaw (input.text.length - cursor)) 0 cursor s
  rw [Attempt.bind_apply, hrun]
  dsimp only
  split
  · refine ⟨new, hrecord, fun _ hmeets => ⟨(hnew hmeets).1, fun _ => ?_⟩⟩
    exact SreMarkState.extends_restore (hnew hmeets).2.extends_last
  · rw [Attempt.outcome_bind_apply]
    set states : List SreCandidate := ⟨cursor, s.marks⟩ :: iterations with hstates
    set candidates : List SreCandidate :=
      if lazy = true then states.drop minCount else (states.drop minCount).reverse with hcandidates
    obtain ⟨new', hrecord', hnew'⟩ := sreCandidates_sound hinner held kept pcLimit s.marks
      (pc + 1 + skip) candidates middle
    generalize sreCandidates inner held kept pcLimit (pc + 1 + skip) candidates middle = result
      at hrecord' hnew'
    obtain ⟨value, machine⟩ := result
    replace hrecord' : machine.record = middle.record ++ new' := hrecord'
    have hpre (hlinked : Linked lazy minCount 0 s.marks iterations middle.marks) :=
      And.intro hlinked.extends_last (candidates_of_linked cursor hlinked)
    have hboth (hmeets : ∀ event ∈ new ++ new', event.Meets) :=
      hnew' (hpre (hnew (List.forall_mem_append.1 hmeets).1).2) (List.forall_mem_append.1 hmeets).2
    have hrestored (hmeets : ∀ event ∈ new ++ new', event.Meets) :
        ∀ event ∈ new ++ new', event.Restored :=
      List.forall_mem_append.2
        ⟨(hnew (List.forall_mem_append.1 hmeets).1).1, (hboth hmeets).1⟩
    cases value with
    | some matched =>
      refine ⟨new ++ new', ?_, fun _ hmeets => ⟨hrestored hmeets, (hboth hmeets).2⟩⟩
      change machine.record = _
      rw [hrecord', hrecord, List.append_assoc]
    | none =>
      refine ⟨new ++ new', ?_, fun _ hmeets => ⟨hrestored hmeets, fun hasked => ?_⟩⟩
      · change machine.record = _
        rw [hrecord', hrecord, List.append_assoc]
      · exact SreMarkState.extends_restore ((hboth hmeets).2 hasked)

/-! ## Repetitions with snapshots -/

include hinner in
lemma always_sreRepeatUnitStates (unitStart untilPc startPos : ℕ) :
    Always (sreRepeatUnitStates inner unitStart untilPc startPos) :=
  always_bind always_getMarks fun _ => always_bind (hinner.collect _ _ _ _) fun _ =>
    always_bind (always_modifyMarks _) fun _ => always_pure _

include hinner in
lemma always_sreRepeatRound (unitStart untilPc : ℕ) (current : List (ℕ × SreSlots)) :
    Always (sreRepeatRound inner unitStart untilPc current) := by
  induction current with
  | nil => exact always_pure _
  | cons state current ih =>
    exact always_bind (always_modifyMarks _) fun _ =>
      always_bind (always_sreRepeatUnitStates hinner _ _ _) fun _ =>
        always_bind ih fun _ => always_pure _

include hinner in
lemma always_sreRepeatStates (unitStart untilPc hardMax : ℕ) (current : List (ℕ × SreSlots)) :
    Always (sreRepeatStates inner unitStart untilPc hardMax current) := by
  induction hardMax generalizing current with
  | zero => exact always_pure _
  | succ hardMax ih =>
    refine always_bind (always_sreRepeatRound hinner _ _ _) fun (next, advanced, stop) => ?_
    dsimp only
    split
    · exact always_pure _
    split
    · exact always_pure _
    · exact always_bind (ih _) fun _ => always_pure _

include hinner in
lemma free_sreRepeatCandidates (nextPc : ℕ) (candidates : List (ℕ × SreSlots)) :
    Free (sreRepeatCandidates inner pcLimit nextPc candidates) := by
  induction candidates with
  | nil => exact leads_fail
  | cons candidate candidates ih =>
    refine free_bind (free_modifyMarks _) fun _ =>
      free_bind (always_outcome (hinner.run false false _ _ _)).free fun result => ?_
    cases result with
    | some matched => exact leads_pure _
    | none => exact ih

include hinner in
/-- A `REPEAT` whose step meets the condition leaves the machine as it found it when it fails. -/
lemma leads_sreRepeat (pc cursor : ℕ) :
    Leads (Sound (held || kept) kept) (sreRepeat input inner held kept pcLimit pc cursor) := by
  have hle : kept = true → (held || kept) = true := fun h => by simp [h]
  unfold sreRepeat
  refine leads_bind hle (leads_ofOption _) fun skip => ?_
  refine leads_bind hle (leads_ofOption _) fun minCount => ?_
  refine leads_bind hle (leads_ofOption _) fun maxCountRaw => ?_
  refine leads_bind hle (leads_ofOption _) fun untilOpcode => ?_
  dsimp only
  split
  · exact leads_fail
  intro s
  rw [getMarks, Attempt.read_bind_apply, recordEvent, Attempt.update_bind_apply]
  set entered : SreMachine :=
    ⟨s.marks, s.record ++ [.repeat held kept s.marks.checkpoint]⟩ with hentered
  -- what is recorded behind the start of the repetition asks nothing of the marks
  have hcase {ok : Bool} {machine : SreMachine} {new : List SreEvent}
      (hrecord : machine.record = entered.record ++ new)
      (hnew : (∀ event ∈ new, event.Meets) → ∀ event ∈ new, event.Restored)
      (hmarks : ok = false → machine.marks = ⟨s.marks.value, []⟩) :
      Sound (held || kept) kept s ok machine := by
    refine ⟨.repeat held kept s.marks.checkpoint :: new, by simp [hrecord, hentered], ?_⟩
    intro _ hmeets
    obtain ⟨⟨hkept, hempty⟩, hmeets⟩ := List.forall_mem_cons.1 hmeets
    refine ⟨List.forall_mem_cons.2 ⟨trivial, hnew hmeets⟩, fun hasked => ?_⟩
    cases ok with
    | true => simp [hkept] at hasked
    | false =>
      have hheld : held = true := by simpa [hkept] using hasked
      rw [hmarks rfl]
      have hundo : s.marks.undo = [] := List.length_eq_zero_iff.1 (hempty hheld)
      rw [← hundo]
      exact .refl _
  obtain ⟨htotal, new, hrecord, hnew⟩ := always_sreRepeatStates hinner (pc + 4) (pc + 1 + skip)
    (min maxCountRaw (input.text.length - cursor + 1)) [(cursor, s.marks.value)] entered
  rw [Attempt.bind_apply]
  generalize sreRepeatStates inner (pc + 4) (pc + 1 + skip)
    (min maxCountRaw (input.text.length - cursor + 1)) [(cursor, s.marks.value)] entered = result
    at htotal hrecord hnew
  obtain ⟨value, middle⟩ := result
  replace hrecord : middle.record = entered.record ++ new := hrecord
  cases value with
  | none => cases htotal
  | some repetitions =>
    dsimp only
    split
    · exact hcase hrecord (fun hmeets => (hnew trivial hmeets).1) fun _ => rfl
    rw [Attempt.outcome_bind_apply]
    generalize sreRepeatOrder untilOpcode minCount ([(cursor, s.marks.value)] :: repetitions) =
      candidates
    obtain ⟨new', hrecord', hnew'⟩ :=
      free_sreRepeatCandidates hinner pcLimit (pc + 1 + skip + 1) candidates middle
    generalize sreRepeatCandidates inner pcLimit (pc + 1 + skip + 1) candidates middle = result
      at hrecord' hnew'
    obtain ⟨value, machine⟩ := result
    replace hrecord' : machine.record = entered.record ++ (new ++ new') := by
      rw [← List.append_assoc, ← hrecord]
      exact hrecord'
    have hrestored (hmeets : ∀ event ∈ new ++ new', event.Meets) :
        ∀ event ∈ new ++ new', event.Restored := by
      obtain ⟨hmeets, hmeets'⟩ := List.forall_mem_append.1 hmeets
      exact List.forall_mem_append.2 ⟨(hnew trivial hmeets).1, (hnew' trivial hmeets').1⟩
    cases value with
    | some matched => exact hcase hrecord' hrestored fun h => absurd h (by simp)
    | none => exact hcase hrecord' hrestored fun _ => rfl

/-! ## The loop -/

include hinner in
lemma leads_sreRunLoop (steps pc cursor : ℕ) :
    Leads (Sound (held || kept) kept)
      (sreRunLoop input inner held kept pcLimit steps pc cursor) := by
  have hle : kept = true → (held || kept) = true := fun h => by simp [h]
  induction steps generalizing pc cursor with
  | zero => exact leads_fail
  | succ steps ih =>
    unfold sreRunLoop
    refine .ite leads_fail (leads_bind hle (leads_ofOption _) fun opcode => ?_)
    refine .ite (leads_pure _) ?_
    refine .ite leads_fail ?_
    refine .ite (fun s => ?_) ?_
    · obtain ⟨new, hrecord, hnew⟩ := sreBranch_sound input hinner held kept pcLimit s.marks.value
        cursor (pcLimit - pc) (pc + 1) s
      exact ⟨new, hrecord, fun _ hmeets => hnew rfl hmeets⟩
    refine .ite ?_ ?_
    · exact leads_bind hle (leads_sreAssert input hinner held kept opcode pc cursor)
        fun next => ih next cursor
    refine .ite (leads_sreRepeat input hinner held kept pcLimit pc cursor) ?_
    refine .ite (leads_sreRepeatOne input hinner held kept pcLimit opcode pc cursor) ?_
    exact leads_bind hle (leads_sreSimpleStep input _ opcode pc cursor id)
      fun (next, cursor) => ih next cursor

/-! ## All ways through a part -/

include hinner in
lemma always_sreCollectBranch (base : SreSlots) (cursor steps branch : ℕ) (results : SreResults) :
    Always (sreCollectBranch input inner pcLimit base cursor steps branch results) := by
  induction steps generalizing branch results with
  | zero => exact always_pure _
  | succ steps ih =>
    refine always_bind (always_modifyMarks _) fun _ => ?_
    split
    · exact always_pure _
    · exact always_pure _
    · refine always_bind (hinner.collect _ _ _ _) fun _ => ?_
      split
      · exact always_bind (always_modifyMarks _) fun _ => always_pure _
      · exact ih _ _

include hinner in
lemma always_sreCollectFrom (nextPc : ℕ) (states : List (ℕ × SreSlots)) (results : SreResults) :
    Always (sreCollectFrom inner pcLimit nextPc states results) := by
  induction states generalizing results with
  | nil => exact always_pure _
  | cons state states ih =>
    exact always_bind (always_modifyMarks _) fun _ =>
      always_bind (hinner.collect _ _ _ _) fun _ => ih _

include hinner in
lemma always_sreCollectAssert (pc skip back cursor : ℕ) (results : SreResults) :
    Always (sreCollectAssert inner pcLimit pc skip back cursor results) :=
  always_bind always_getMarks fun _ => always_bind (hinner.collect _ _ _ _) fun _ =>
    always_bind (always_sreCollectFrom hinner pcLimit _ _ _) fun _ =>
      always_bind (always_modifyMarks _) fun _ => always_pure _

include hinner in
lemma always_sreCollectAssertNot (pc skip back cursor : ℕ) :
    Always (sreCollectAssertNot inner pc skip back cursor) :=
  always_bind always_getMarks fun _ => always_bind (hinner.collect _ _ _ _) fun _ =>
    always_bind (always_modifyMarks _) fun _ => always_pure _

include hinner in
lemma always_sreCollectRepeat (pc cursor : ℕ) (results : SreResults) :
    Always (sreCollectRepeat input inner pcLimit pc cursor results) := by
  unfold sreCollectRepeat
  split
  next skip minCount maxCountRaw _ _ _ =>
    dsimp only
    split
    · exact always_pure _
    split
    · exact always_pure _
    refine always_bind always_getMarks fun _ =>
      always_bind (always_sreRepeatStates hinner _ _ _ _) fun _ => ?_
    split
    · exact always_bind (always_modifyMarks _) fun _ => always_pure _
    · exact always_bind (always_sreCollectFrom hinner pcLimit _ _ _) fun _ =>
        always_bind (always_modifyMarks _) fun _ => always_pure _
  next => exact always_pure _

include hinner in
lemma always_sreCollectIterations (unitStart nextPc hardMax repPos : ℕ) :
    Always (sreCollectIterations inner unitStart nextPc hardMax repPos) := by
  induction hardMax generalizing repPos with
  | zero => exact always_pure _
  | succ hardMax ih =>
    refine always_bind always_getMarks fun _ =>
      always_bind (always_outcome (hinner.run false false _ _ _)) fun result => ?_
    cases result with
    | none => exact always_bind (always_modifyMarks _) fun _ => always_pure _
    | some nextPos =>
      dsimp only
      split
      · exact always_bind (always_modifyMarks _) fun _ => always_pure _
      · exact always_bind always_getMarks fun _ => always_bind (ih _) fun _ => always_pure _

include hinner in
lemma always_sreCollectRepeatOne (opcode : ℤ) (pc cursor : ℕ) (results : SreResults) :
    Always (sreCollectRepeatOne input inner pcLimit opcode pc cursor results) := by
  unfold sreCollectRepeatOne
  split
  next skip minCount maxCountRaw _ _ _ =>
    refine always_bind always_getMarks fun _ =>
      always_bind (always_sreCollectIterations hinner _ _ _ _) fun _ => ?_
    dsimp only
    split
    · exact always_bind (always_modifyMarks _) fun _ => always_pure _
    · exact always_bind (always_sreCollectFrom hinner pcLimit _ _ _) fun _ =>
        always_bind (always_modifyMarks _) fun _ => always_pure _
  next => exact always_pure _

include hinner in
lemma always_sreCollectLoop (steps pc cursor : ℕ) (results : SreResults) :
    Always (sreCollectLoop input inner pcLimit steps pc cursor results) := by
  induction steps generalizing pc cursor results with
  | zero => exact always_pure _
  | succ steps ih =>
    unfold sreCollectLoop
    refine .ite (always_pure _) ?_
    split
    · exact always_pure _
    refine .ite (always_bind always_getMarks fun _ => always_pure _) ?_
    refine .ite (always_pure _) ?_
    refine .ite (always_bind always_getMarks fun _ =>
      always_sreCollectBranch input hinner pcLimit _ _ _ _ _) ?_
    refine .ite ?_ ?_
    · split
      · refine .ite (always_pure _) ?_
        refine .ite (always_sreCollectAssert hinner pcLimit _ _ _ _ _) ?_
        refine always_bind (always_sreCollectAssertNot hinner _ _ _ _) fun goesOn => ?_
        exact .ite (ih _ _ _) (always_pure _)
      · exact always_pure _
    refine .ite (always_sreCollectRepeat input hinner pcLimit _ _ _) ?_
    refine .ite (always_sreCollectRepeatOne input hinner pcLimit _ _ _ _) ?_
    refine always_bind (always_outcome (leads_sreSimpleStep input _ _ _ _ id)) fun result => ?_
    cases result with
    | none => exact always_pure _
    | some next => exact ih _ _ _

end Constructs

/-! ## Runs -/

lemma sreRunner_sound (levels : ℕ) : (sreRunner input levels).Sound := by
  induction levels with
  | zero => exact ⟨fun _ _ _ _ _ => leads_fail, fun _ _ _ _ => always_pure _⟩
  | succ levels ih =>
    exact ⟨fun held kept _ pcLimit _ => leads_sreRunLoop input ih held kept pcLimit _ _ _,
      fun _ pcLimit _ _ => always_sreCollectLoop input ih pcLimit _ _ _ _⟩

/-- In every run of a program, from any marks and at any depth, whose repetitions leave the
checkpoints alone, every attempt behind a given-up one begins with the marks of its construct, and
with those of the iterations that are kept. -/
theorem sreRunProgram_restores (pcStart pcLimit pos depth : ℕ) (marks : SreMarkState)
    (hmeets : ∀ event ∈ (sreRunProgram input pcStart pcLimit pos depth ⟨marks, []⟩).2.record,
      event.Meets) :
    ∀ event ∈ (sreRunProgram input pcStart pcLimit pos depth ⟨marks, []⟩).2.record,
      event.Restored := by
  obtain ⟨new, hrecord, hnew⟩ :=
    (sreRunner_sound input (513 - depth)).run false false pcStart pcLimit pos ⟨marks, []⟩
  have hrecord : (sreRunProgram input pcStart pcLimit pos depth ⟨marks, []⟩).2.record = new :=
    hrecord
  rw [hrecord] at hmeets ⊢
  exact (hnew trivial hmeets).1

/-- The program of `(?:(a)d|ab)`, on the text `ab`. -/
def branchOnly : SreInput where
  toLowercase := fun ch => [ch]
  isAlphanumeric := isAsciiAlphanumeric
  isWhitespace := isAsciiWhitespace
  code := [7, 11, 17, 0, 16, 97, 17, 1, 16, 100, 15, 9, 7, 16, 97, 16, 98, 15, 2, 0, 1]
  text := ['a', 'b']

theorem sreRunProgram_restores_branchOnly :
    (∀ event ∈ (sreRunProgram branchOnly 0 21 0 0 ⟨⟨[none, none], []⟩, []⟩).2.record,
        event.Meets) ∧
      ∀ event ∈ (sreRunProgram branchOnly 0 21 0 0 ⟨⟨[none, none], []⟩, []⟩).2.record,
        event.Restored :=
  ⟨by decide, sreRunProgram_restores branchOnly 0 21 0 0 ⟨[none, none], []⟩
    (by decide)⟩

/-- The program of `(?:(a)(?:bc)*d|ab)`, on the text `ab`. -/
def branchRepeat : SreInput where
  toLowercase := fun ch => [ch]
  isAlphanumeric := isAsciiAlphanumeric
  isWhitespace := isAsciiWhitespace
  code := [14, 4, 0, 2, 4294967295, 7, 20, 17, 0, 16, 97, 17, 1, 23, 7, 0, 4294967295, 16, 98, 16,
    99, 18, 16, 100, 15, 9, 7, 16, 97, 16, 98, 15, 2, 0, 1]
  text := ['a', 'b']

/-- The second alternative matches with the group that only the first one set. -/
theorem branchRepeat_keepsGroup :
    (sreRunProgram branchRepeat 0 35 0 0 ⟨⟨[none, none], []⟩, []⟩).1 = some 2 ∧
      (sreRunProgram branchRepeat 0 35 0 0 ⟨⟨[none, none], []⟩, []⟩).2.marks.value =
        [some 0, some 1] ∧
      .retry [none, none] [some 0, some 1] ∈
        (sreRunProgram branchRepeat 0 35 0 0 ⟨⟨[none, none], []⟩, []⟩).2.record := by
  decide

end Sre

end Pyrs
