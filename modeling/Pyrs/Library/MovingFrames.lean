import Mathlib.Data.List.Basic

/-!
# Frames that wait and run again

A machine runs the frames of a stack and keeps the frames of its suspended generators under their
ids.  A frame that is suspended or resumed stays among the live ones, and pools that are merged hold
what they held.
-/

namespace MovingFrames

variable {Frame : Type} {frames pool slotPool : List Frame} {suspended : List (ℕ × Frame)}
  {frame other : Frame} {id : ℕ}

/-- The frames that run and those that wait. -/
abbrev live (frames : List Frame) (suspended : List (ℕ × Frame)) : List Frame :=
  frames ++ suspended.map Prod.snd

/-- The running frame waits now. -/
lemma mem_live_of_suspended (h : other ∈ live frames ((id, frame) :: suspended)) :
    other ∈ live (frame :: frames) suspended := by
  rw [live, List.map_cons, List.mem_append, List.mem_cons] at h
  rw [live, List.cons_append, List.mem_cons, List.mem_append]
  tauto

/-- A frame that waited runs now, and others that waited may be gone. -/
lemma mem_live_of_resumed {entry : ℕ × Frame} {isOne keep : ℕ × Frame → Bool}
    (hentry : suspended.find? isOne = some entry)
    (h : other ∈ live (entry.2 :: frames) (suspended.filter keep)) :
    other ∈ live frames suspended := by
  rw [live, List.cons_append, List.mem_cons, List.mem_append] at h
  rw [live, List.mem_append]
  rcases h with rfl | h | h
  · exact .inr (List.mem_map_of_mem (List.mem_of_find?_eq_some hentry))
  · exact .inl h
  · exact .inr ((List.filter_sublist.map Prod.snd).subset h)

/-- The frames below the running one. -/
lemma mem_live_of_popped (h : other ∈ live frames suspended) :
    other ∈ live (frame :: frames) suspended :=
  List.mem_cons_of_mem _ h

/-- The frames of a pool for other code go back to the simple frames. -/
lemma forall_retargeted {Ok : Frame → Prop} (hpool : ∀ frame ∈ pool, Ok frame)
    (hslotPool : ∀ frame ∈ slotPool, Ok frame) :
    ∀ frame ∈ slotPool.reverse ++ pool, Ok frame := by
  intro frame hframe
  rcases List.mem_append.1 hframe with hframe | hframe
  · exact hslotPool frame (List.mem_reverse.1 hframe)
  · exact hpool frame hframe

/-- A frame joins a pool. -/
lemma forall_recycled {Ok : Frame → Prop} (hpool : ∀ other ∈ pool, Ok other) (hframe : Ok frame) :
    ∀ other ∈ frame :: pool, Ok other :=
  List.forall_mem_cons.2 ⟨hframe, hpool⟩

end MovingFrames
