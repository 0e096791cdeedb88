import Mathlib.Data.List.Basic

/-!
# Attempts that keep their state

A computation on a state that may fail, where the state a failure leaves behind is not taken back.
What a computation does to the state is a relation between the states before and after it and
whether it succeeded.
-/

variable {σ α β : Type}

/-- A computation that changes a state and may fail. -/
def Attempt (σ α : Type) := σ → Option α × σ

namespace Attempt

instance : Monad (Attempt σ) where
  pure a := fun s => (some a, s)
  bind x f := fun s =>
    match x s with
    | (some a, s') => f a s'
    | (none, s') => (none, s')

def fail : Attempt σ α := fun s => (none, s)

def ofOption (value : Option α) : Attempt σ α := fun s => (value, s)

def read (f : σ → α) : Attempt σ α := fun s => (some (f s), s)

def update (f : σ → σ) : Attempt σ Unit := fun s => (some (), f s)

/-- Whether the computation succeeds is a value. -/
def outcome (x : Attempt σ α) : Attempt σ (Option α) := fun s => (some (x s).1, (x s).2)

@[simp] lemma pure_apply (a : α) (s : σ) : (pure a : Attempt σ α) s = (some a, s) := rfl

@[simp] lemma fail_apply (s : σ) : (fail : Attempt σ α) s = (none, s) := rfl

@[simp] lemma ofOption_apply (value : Option α) (s : σ) : ofOption value s = (value, s) := rfl

@[simp] lemma update_apply (f : σ → σ) (s : σ) : update f s = (some (), f s) := rfl

lemma bind_apply (x : Attempt σ α) (f : α → Attempt σ β) (s : σ) :
    (x >>= f) s = match x s with
      | (some a, s') => f a s'
      | (none, s') => (none, s') := rfl

@[simp] lemma pure_bind (a : α) (f : α → Attempt σ β) : (pure a >>= f : Attempt σ β) = f a := rfl

@[simp] lemma read_bind_apply (g : σ → α) (f : α → Attempt σ β) (s : σ) :
    (read g >>= f) s = f (g s) s := rfl

@[simp] lemma update_bind_apply (g : σ → σ) (f : Unit → Attempt σ β) (s : σ) :
    (update g >>= f) s = f () (g s) := rfl

@[simp] lemma outcome_bind_apply (x : Attempt σ α) (f : Option α → Attempt σ β) (s : σ) :
    (outcome x >>= f) s = f (x s).1 (x s).2 := rfl

/-- The computation relates every state to the one it leads to, given whether it succeeds. -/
def Leads (R : σ → Bool → σ → Prop) (x : Attempt σ α) : Prop :=
  ∀ s, R s (x s).1.isSome (x s).2

variable {P R : σ → Bool → σ → Prop}

lemma Leads.bind {x : Attempt σ α} {f : α → Attempt σ β} (hx : Leads P x)
    (hf : ∀ a, Leads R (f a))
    (htrans : ∀ s s' s'' ok, P s true s' → R s' ok s'' → R s ok s'')
    (hfail : ∀ s s', P s false s' → R s false s') : Leads R (x >>= f) := by
  intro s
  have hrun := hx s
  rw [bind_apply]
  cases hresult : x s with
  | mk value s' =>
    rw [hresult] at hrun
    cases value with
    | none => exact hfail _ _ hrun
    | some a => exact htrans _ _ _ _ hrun (hf a s')

lemma Leads.ite {c : Prop} [Decidable c] {x y : Attempt σ α} (hx : Leads R x) (hy : Leads R y) :
    Leads R (if c then x else y) :=
  iteInduction (fun _ => hx) fun _ => hy

end Attempt
