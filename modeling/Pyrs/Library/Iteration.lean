import Mathlib.Data.List.Basic

/-!
# Iterators

An iterator over states `σ` is a step that gives a value, or none at its end, and the state behind
it; it may also fail.  `Gives` says what it gives until its end.  Where the state is a position,
that is what can be read from the position on.
-/

namespace Iteration

variable {σ ε α : Type} {next : σ → Except ε (Option α × σ)}

/-- From the first state on, the iterator gives the values and is then at its end. -/
inductive Gives (next : σ → Except ε (Option α × σ)) : σ → List α → σ → Prop
  | done {state last : σ} (h : next state = .ok (none, last)) : Gives next state [] last
  | step {state middle last : σ} {value : α} {values : List α}
      (h : next state = .ok (some value, middle)) (hlater : Gives next middle values last) :
      Gives next state (value :: values) last

/-- The next step is the end. -/
def Exhausted (next : σ → Except ε (Option α × σ)) (state : σ) : Prop :=
  ∃ last, next state = .ok (none, last)

lemma Gives.unique {state last last' : σ} {values values' : List α}
    (h : Gives next state values last) (h' : Gives next state values' last') :
    values = values' ∧ last = last' := by
  induction h generalizing values' last' with
  | done h =>
    cases h' with
    | done h' =>
      rw [h] at h'
      cases h'
      exact ⟨rfl, rfl⟩
    | step h' _ =>
      rw [h] at h'
      cases h'
  | step h _ ih =>
    cases h' with
    | done h' =>
      rw [h] at h'
      cases h'
    | step h' hlater =>
      rw [h] at h'
      cases h'
      obtain ⟨rfl, rfl⟩ := ih hlater
      exact ⟨rfl, rfl⟩

/-- What an iterator that fails or ends at once can give. -/
lemma gives_nil_iff {state last : σ} : Gives next state [] last ↔ next state = .ok (none, last) :=
  ⟨fun h => by cases h; assumption, .done⟩

lemma gives_cons_iff {state last : σ} {value : α} {values : List α} :
    Gives next state (value :: values) last ↔
      ∃ middle, next state = .ok (some value, middle) ∧ Gives next middle values last := by
  constructor
  · intro h
    cases h with
    | step h hlater => exact ⟨_, h, hlater⟩
  · rintro ⟨middle, h, hlater⟩
    exact .step h hlater

/-! ## Positions -/

/-- The step of an iterator whose state is the position `at i`, from which `read i` is given. -/
def Reads (next : σ → Except ε (Option α × σ)) (position : ℕ → σ)
    (read : ℕ → Except ε (Option α)) : Prop :=
  ∀ i, next (position i) =
    (read i).map fun value => (value, if value.isSome then position (i + 1) else position i)

lemma Reads.next_eq_none {position : ℕ → σ} {read : ℕ → Except ε (Option α)}
    (hreads : Reads next position read) {i : ℕ} {last : σ} :
    next (position i) = .ok (none, last) ↔ read i = .ok none ∧ last = position i := by
  rw [hreads i]
  cases read i with
  | error error => exact iff_of_false nofun nofun
  | ok value =>
    cases value with
    | none => exact ⟨fun h => by cases h; exact ⟨rfl, rfl⟩, fun h => by rw [h.2]; rfl⟩
    | some value => exact iff_of_false nofun nofun

lemma Reads.next_eq_some {position : ℕ → σ} {read : ℕ → Except ε (Option α)}
    (hreads : Reads next position read) {i : ℕ} {value : α} {later : σ} :
    next (position i) = .ok (some value, later) ↔
      read i = .ok (some value) ∧ later = position (i + 1) := by
  rw [hreads i]
  cases read i with
  | error error => exact iff_of_false nofun nofun
  | ok first =>
    cases first with
    | none => exact iff_of_false nofun nofun
    | some first =>
      exact ⟨fun h => by cases h; exact ⟨rfl, rfl⟩, fun h => by cases h.1; rw [h.2]; rfl⟩

/-- An iterator over positions gives what is read from its position on, up to the first position
where there is nothing. -/
theorem Reads.gives_iff {position : ℕ → σ} {read : ℕ → Except ε (Option α)}
    (hreads : Reads next position read) {values : List α} {start : ℕ} {last : σ} :
    Gives next (position start) values last ↔
      (∀ i ≤ values.length, read (start + i) = .ok values[i]?) ∧
        last = position (start + values.length) := by
  induction values generalizing start with
  | nil =>
    rw [gives_nil_iff, hreads.next_eq_none]
    constructor
    · rintro ⟨hread, rfl⟩
      refine ⟨fun i hi => ?_, rfl⟩
      obtain rfl := Nat.le_zero.1 hi
      exact hread
    · rintro ⟨h, rfl⟩
      exact ⟨h 0 (Nat.le_refl 0), rfl⟩
  | cons value values ih =>
    rw [gives_cons_iff]
    constructor
    · rintro ⟨middle, h, hlater⟩
      obtain ⟨hread, rfl⟩ := hreads.next_eq_some.1 h
      obtain ⟨hrest, rfl⟩ := ih.1 hlater
      refine ⟨fun i hi => ?_, by rw [List.length_cons, Nat.add_right_comm, Nat.add_assoc]⟩
      cases i with
      | zero => exact hread
      | succ i =>
        rw [List.getElem?_cons_succ, Nat.add_comm i 1, ← Nat.add_assoc]
        exact hrest i (Nat.le_of_succ_le_succ hi)
    · rintro ⟨h, rfl⟩
      have hread := h 0 (Nat.zero_le _)
      refine ⟨position (start + 1), hreads.next_eq_some.2 ⟨hread, rfl⟩, ih.2 ⟨fun i hi => ?_, ?_⟩⟩
      · have := h (i + 1) (Nat.succ_le_succ hi)
        rwa [List.getElem?_cons_succ, Nat.add_comm i 1, ← Nat.add_assoc] at this
      · rw [List.length_cons, Nat.add_comm values.length 1, Nat.add_assoc]

/-- Where the positions of a list give its items, the rest of the list is given from a position on,
also from one behind its end. -/
theorem gives_drop {position : ℕ → σ} {items : List α}
    (hitems : ∀ i (h : i < items.length), next (position i) = .ok (some items[i], position (i + 1)))
    (start : ℕ) (hend : Exhausted next (position (max start items.length))) :
    ∃ last, Gives next (position start) (items.drop start) last := by
  induction hn : items.length - start generalizing start with
  | zero =>
    have hle : items.length ≤ start := by omega
    rw [Nat.max_eq_left hle] at hend
    obtain ⟨last, hlast⟩ := hend
    rw [List.drop_eq_nil_of_le hle]
    exact ⟨last, .done hlast⟩
  | succ n ih =>
    have hlt : start < items.length := by omega
    rw [Nat.max_eq_right (Nat.le_of_lt hlt), ← Nat.max_eq_right (Nat.succ_le_of_lt hlt)] at hend
    obtain ⟨last, hlast⟩ := ih (start + 1) hend (by omega)
    rw [List.drop_eq_getElem_cons hlt]
    exact ⟨last, .step (hitems start hlt) hlast⟩

/-- An iterator that always gives a value has no end. -/
theorem not_gives_of_forall {P : σ → Prop}
    (h : ∀ state, P state → ∃ value later, next state = .ok (some value, later) ∧ P later)
    {state last : σ} {values : List α} (hstate : P state) : ¬ Gives next state values last := by
  intro hgives
  induction hgives with
  | done hnext =>
    obtain ⟨value, later, hvalue, -⟩ := h _ hstate
    rw [hnext] at hvalue
    cases hvalue
  | step hnext _ ih =>
    obtain ⟨value, later, hvalue, hlater⟩ := h _ hstate
    rw [hnext] at hvalue
    cases hvalue
    exact ih hlater

lemma Reads.exhausted_iff {position : ℕ → σ} {read : ℕ → Except ε (Option α)}
    (hreads : Reads next position read) (i : ℕ) :
    Exhausted next (position i) ↔ read i = .ok none :=
  ⟨fun ⟨_, h⟩ => (hreads.next_eq_none.1 h).1, fun h => ⟨_, hreads.next_eq_none.2 ⟨h, rfl⟩⟩⟩

end Iteration
