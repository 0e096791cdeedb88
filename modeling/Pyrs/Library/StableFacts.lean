import Pyrs.Library.Results

/-!
# Programs that keep an invariant and every fact they have established

A program over a growing state hands out handles (an index, a position, a reservation) that stay
good until its end.  `Keeps K x P` says of a program `x` that may fail: from a state with the
invariant and the facts `K`, a run that returns ends in a larger state with the invariant, in which
the facts `P a` about its result `a` hold.  Growth takes no fact back, so the facts pass through
whatever runs in between.  The rules are instances: the proof for a program follows its syntax.
-/

namespace StableFacts

/-- An invariant of a state, an order in which the state grows, and facts that growth keeps. -/
class FactLogic (σ : Type) (Fact : outParam Type) where
  Invariant : σ → Prop
  Grows : σ → σ → Prop
  Holds : σ → Fact → Prop
  grows_refl (s : σ) : Grows s s
  grows_trans {s t u : σ} : Grows s t → Grows t u → Grows s u
  holds_mono {s t : σ} {fact : Fact} : Grows s t → Holds s fact → Holds t fact

open FactLogic

section Knowledge

variable {Fact : Type} {K A : List Fact} {fact : Fact}

/-- A fact is among those that are known. -/
class Knows (K : List Fact) (fact : Fact) : Prop where
  mem : fact ∈ K

instance Knows.head : Knows (fact :: K) fact :=
  ⟨List.mem_cons_self ..⟩

instance (priority := low) Knows.tail {other : Fact} [h : Knows K fact] : Knows (other :: K) fact :=
  ⟨List.mem_cons_of_mem _ h.mem⟩

instance Knows.left [h : Knows A fact] : Knows (A ++ K) fact :=
  ⟨List.mem_append_left _ h.mem⟩

instance (priority := low) Knows.right [h : Knows K fact] : Knows (A ++ K) fact :=
  ⟨List.mem_append_right _ h.mem⟩

end Knowledge

section Rules

variable {σ ε Fact α β : Type} [FactLogic σ Fact] {K : List Fact}

/-- What a run from `s` has kept and established with its result and its last state. -/
structure Kept (s : σ) (P : α → List Fact) (result : α × σ) : Prop where
  invariant : Invariant result.2
  grows : Grows s result.2
  holds : ∀ fact ∈ P result.1, Holds result.2 fact

/-- From the invariant and the facts `K`, every run that returns keeps the invariant and establishes
the facts `P` of its result. -/
class Keeps (K : List Fact) (x : StateT σ (Except ε) α) (P : outParam (α → List Fact)) : Prop where
  run : ∀ s result, Invariant s → (∀ fact ∈ K, Holds s fact) → x s = .ok result → Kept s P result

theorem Keeps.run_ok {x : StateT σ (Except ε) α} {P : α → List Fact} [hx : Keeps [] x P] {s : σ}
    {result : α × σ} (hs : Invariant s) (h : x s = .ok result) : Kept s P result :=
  hx.run s result hs (by simp) h

theorem exists_of_bind_eq_ok {x : StateT σ (Except ε) α} {f : α → StateT σ (Except ε) β} {s : σ}
    {result : β × σ} (h : (x >>= f) s = .ok result) :
    ∃ mid, x s = .ok mid ∧ f mid.1 mid.2 = .ok result :=
  Results.bind_eq_ok.1 h

variable {x : StateT σ (Except ε) α} {P : α → List Fact} {Q : β → List Fact}

theorem Keeps.bind {f : α → StateT σ (Except ε) β} (hx : Keeps K x P)
    (hf : ∀ a, Keeps (P a ++ K) (f a) Q) : Keeps K (x >>= f) Q where
  run s result hs hK h := by
    obtain ⟨mid, hmid, hresult⟩ := exists_of_bind_eq_ok h
    have hleft := hx.run s mid hs hK hmid
    have hright := (hf mid.1).run mid.2 result hleft.invariant (fun fact hfact =>
      (List.mem_append.1 hfact).elim (hleft.holds fact)
        fun hmem => holds_mono hleft.grows (hK fact hmem)) hresult
    exact ⟨hright.invariant, grows_trans hleft.grows hright.grows, hright.holds⟩

instance {f : α → StateT σ (Except ε) β} [hx : Keeps K x P]
    [hf : ∀ a, Keeps (P a ++ K) (f a) Q] : Keeps K (x >>= f) Q :=
  hx.bind hf

/-- The state is not changed. -/
theorem Keeps.of_same (h : ∀ s result, (∀ fact ∈ K, Holds s fact) → x s = .ok result →
    result.2 = s ∧ ∀ fact ∈ P result.1, Holds s fact) : Keeps K x P where
  run s result hs hK hresult := by
    obtain ⟨heq, hP⟩ := h s result hK hresult
    exact ⟨heq ▸ hs, heq ▸ grows_refl s, heq ▸ hP⟩

/-- A result whose facts are known. -/
theorem Keeps.pure_of_known {a : α} (h : ∀ fact ∈ P a, fact ∈ K) :
    Keeps K (pure a : StateT σ (Except ε) α) P :=
  .of_same fun s result hK hresult => by
    cases hresult
    exact ⟨rfl, fun fact hfact => hK fact (h fact hfact)⟩

instance (priority := low) Keeps.pure {a : α} :
    Keeps K (pure a : StateT σ (Except ε) α) fun _ => [] :=
  .pure_of_known (by simp)

instance Keeps.get : Keeps K (MonadState.get : StateT σ (Except ε) σ) fun _ => [] :=
  .of_same fun s result _ hresult => by cases hresult; simp

instance Keeps.throw {failure : ε} :
    Keeps K (throw failure : StateT σ (Except ε) α) fun _ => [] :=
  .of_same fun _ _ _ hresult => by cases hresult

instance Keeps.lift {y : Except ε α} : Keeps K (liftM y : StateT σ (Except ε) α) fun _ => [] :=
  .of_same fun s result _ hresult => by
    cases y with
    | error failure => cases hresult
    | ok a => cases hresult; simp

instance Keeps.ite {c : Prop} [Decidable c] {y : StateT σ (Except ε) α} [hx : Keeps K x P]
    [hy : Keeps K y P] : Keeps K (if c then x else y) P := by
  split
  · exact hx
  · exact hy

/-- The facts may be fewer. -/
theorem Keeps.weaken {L : List Fact} (hx : Keeps L x P)
    (h : ∀ s : σ, (∀ fact ∈ K, Holds s fact) → ∀ fact ∈ L, Holds s fact) : Keeps K x P where
  run s result hs hK := hx.run s result hs (h s hK)

theorem Keeps.append {A : List Fact} (hx : Keeps K x P) : Keeps (A ++ K) x P :=
  hx.weaken fun _ hK fact hfact => hK fact (List.mem_append_right _ hfact)

theorem Keeps.forM_of_mem {γ : Type} {f : γ → StateT σ (Except ε) Unit} {l : List γ}
    (hf : ∀ c ∈ l, Keeps K (f c) fun _ => []) : Keeps K (l.forM f) fun _ => [] := by
  induction l with
  | nil => exact Keeps.pure
  | cons c l ih =>
    change Keeps K (f c >>= fun _ => l.forM f) fun _ => []
    have := hf c (List.mem_cons_self ..)
    have : Keeps ([] ++ K) (l.forM f) fun _ => [] := ih fun c hc => hf c (List.mem_cons_of_mem _ hc)
    infer_instance

instance Keeps.forM {γ : Type} {f : γ → StateT σ (Except ε) Unit} {l : List γ}
    [hf : ∀ c, Keeps K (f c) fun _ => []] : Keeps K (l.forM f) fun _ => [] :=
  .forM_of_mem fun c _ => hf c

instance Keeps.foldlM {γ : Type} {f : α → γ → StateT σ (Except ε) α} {a : α} {l : List γ}
    [hf : ∀ a c, Keeps K (f a c) fun _ => []] : Keeps K (l.foldlM f a) fun _ => [] := by
  induction l generalizing a with
  | nil => exact Keeps.pure
  | cons c l ih =>
    change Keeps K (f a c >>= fun b => l.foldlM f b) fun _ => []
    have (b : α) : Keeps ([] ++ K) (l.foldlM f b) fun _ => [] := ih
    infer_instance

instance Keeps.optionForM {γ : Type} {f : γ → StateT σ (Except ε) Unit} {o : Option γ}
    [hf : ∀ c, Keeps K (f c) fun _ => []] : Keeps K (o.forM f) fun _ => [] := by
  cases o with
  | none => exact Keeps.pure
  | some c => exact hf c

/-- The results of a list, each with its facts. -/
instance Keeps.mapM {γ : Type} {f : γ → StateT σ (Except ε) α} {l : List γ}
    [hf : ∀ c, Keeps K (f c) P] : Keeps K (l.mapM f) fun results => results.flatMap P := by
  induction l with
  | nil => exact Keeps.pure_of_known (by simp)
  | cons c l ih =>
    rw [List.mapM_cons]
    have (a : α) : Keeps (P a ++ K) (l.mapM f) fun results => results.flatMap P := ih.append
    have (a : α) (as : List α) : Keeps (as.flatMap P ++ (P a ++ K))
        (Pure.pure (a :: as) : StateT σ (Except ε) (List α)) fun results => results.flatMap P :=
      Keeps.pure_of_known (by simp; grind)
    infer_instance

end Rules

end StableFacts
