/-!
# Computations that may fail

What it takes for a computation with an error to have a result.
-/

namespace Results

variable {ε α β : Type}

theorem ok_bind (value : α) (f : α → Except ε β) : (Except.ok value >>= f) = f value := rfl

theorem bind_eq_ok {x : Except ε α} {f : α → Except ε β} {b : β} :
    (x >>= f) = .ok b ↔ ∃ a, x = .ok a ∧ f a = .ok b := by
  cases x <;> simp [bind, Except.bind]

theorem toOption_bind (x : Except ε α) (f : α → Except ε β) :
    (x >>= f).toOption = x.toOption.bind fun a => (f a).toOption := by
  cases x <;> rfl

/-- What follows a computation depends on its result only. -/
theorem toOption_bind_congr {x y : Except ε α} (h : x.toOption = y.toOption) (f : α → Except ε β) :
    (x >>= f).toOption = (y >>= f).toOption := by
  rw [toOption_bind, toOption_bind, h]

theorem mapM_cons_eq_ok {f : α → Except ε β} {input : α} {inputs : List α} {outputs : List β} :
    (input :: inputs).mapM f = .ok outputs ↔
      ∃ output later, f input = .ok output ∧ inputs.mapM f = .ok later ∧
        outputs = output :: later := by
  rw [List.mapM_cons, bind_eq_ok]
  constructor
  · rintro ⟨output, houtput, h⟩
    obtain ⟨later, hlater, h⟩ := bind_eq_ok.1 h
    exact ⟨output, later, houtput, hlater, (Except.ok.inj h).symm⟩
  · rintro ⟨output, later, houtput, hlater, rfl⟩
    exact ⟨output, houtput, bind_eq_ok.2 ⟨later, hlater, rfl⟩⟩

theorem mapM_congr_of_mem {f g : α → Except ε β} {inputs : List α}
    (h : ∀ input ∈ inputs, f input = g input) : inputs.mapM f = inputs.mapM g := by
  induction inputs with
  | nil => rfl
  | cons input inputs ih =>
    rw [List.mapM_cons, List.mapM_cons, h input List.mem_cons_self,
      ih fun later hlater => h later (List.mem_cons_of_mem _ hlater)]

/-- Where no computation of a list fails, their results are the list's. -/
theorem mapM_eq_pure {m : Type → Type} [Monad m] [LawfulMonad m] {f : α → m β} {g : α → β}
    {inputs : List α} (h : ∀ input ∈ inputs, f input = pure (g input)) :
    inputs.mapM f = pure (inputs.map g) := by
  induction inputs with
  | nil => rfl
  | cons input inputs ih =>
    rw [List.mapM_cons, h input List.mem_cons_self,
      ih fun later hlater => h later (List.mem_cons_of_mem _ hlater), pure_bind, pure_bind,
      List.map_cons]

theorem length_of_mapM {f : α → Except ε β} {inputs : List α} {outputs : List β}
    (h : inputs.mapM f = .ok outputs) : outputs.length = inputs.length := by
  induction inputs generalizing outputs with
  | nil =>
    obtain rfl := Except.ok.inj h
    rfl
  | cons input inputs ih =>
    obtain ⟨output, later, -, hlater, rfl⟩ := mapM_cons_eq_ok.1 h
    exact congrArg (· + 1) (ih hlater)

theorem exists_of_mem_mapM {f : α → Except ε β} {inputs : List α} {outputs : List β}
    (h : inputs.mapM f = .ok outputs) {output : β} (houtput : output ∈ outputs) :
    ∃ input ∈ inputs, f input = .ok output := by
  induction inputs generalizing outputs with
  | nil =>
    obtain rfl := Except.ok.inj h
    cases houtput
  | cons input inputs ih =>
    obtain ⟨first, later, hfirst, hlater, rfl⟩ := mapM_cons_eq_ok.1 h
    rcases List.mem_cons.1 houtput with rfl | hmem
    · exact ⟨input, List.mem_cons_self, hfirst⟩
    · obtain ⟨other, hother, hok⟩ := ih hlater hmem
      exact ⟨other, List.mem_cons_of_mem _ hother, hok⟩

end Results
