import Mathlib.RingTheory.ZMod.UnitsCyclic

/-!
# Perturbed probing visits every slot

A probe sequence of a table with `2 ^ k` slots steps from a slot to five times it plus one, plus a
perturbation that starts as the hash and is shifted away.  Once the perturbation is gone the steps
run through all slots, because five has the order `2 ^ k` modulo `2 ^ (k + 2)`.
-/

namespace Pyrs

/-- The next slot and the next perturbation. -/
def probeStep (size shift : ℕ) (state : ℕ × ℕ) : ℕ × ℕ :=
  ((state.1 * 5 + state.2 + 1) % size, state.2 >>> shift)

/-- The slot and the perturbation of a hash after a number of steps. -/
def probe (size shift hash : ℕ) : ℕ → ℕ × ℕ
  | 0 => (hash % size, hash)
  | n + 1 => probeStep size shift (probe size shift hash n)

section Probe

variable {size shift hash : ℕ}

lemma probe_lt (hsize : 0 < size) (n : ℕ) : (probe size shift hash n).1 < size := by
  cases n with
  | zero => exact Nat.mod_lt _ hsize
  | succ n => exact Nat.mod_lt _ hsize

lemma probe_perturb (n : ℕ) : (probe size shift hash n).2 = hash >>> (shift * n) := by
  induction n with
  | zero => rfl
  | succ n ih =>
    change (probe size shift hash n).2 >>> shift = _
    rw [ih, ← Nat.shiftRight_add]
    rfl

/-- The slots without a perturbation, before they are reduced. -/
def unperturbed (start : ℕ) : ℕ → ℕ
  | 0 => start
  | n + 1 => 5 * unperturbed start n + 1

lemma four_mul_unperturbed (start n : ℕ) :
    4 * unperturbed start n + 1 = 5 ^ n * (4 * start + 1) := by
  induction n with
  | zero => simp [unperturbed]
  | succ n ih =>
    rw [unperturbed, pow_succ']
    linarith

lemma probe_add_of_gone {m : ℕ} (hgone : hash >>> (shift * m) = 0) (n : ℕ) :
    (probe size shift hash (m + n)).1 % size =
      unperturbed (probe size shift hash m).1 n % size := by
  have hperturb : ∀ n, (probe size shift hash (m + n)).2 = 0 := by
    intro n
    rw [probe_perturb, Nat.mul_add, Nat.shiftRight_add, hgone, Nat.zero_shiftRight]
  induction n with
  | zero => rfl
  | succ n ih =>
    rw [← Nat.add_assoc, probe, probeStep, hperturb, Nat.add_zero, Nat.mod_mod, unperturbed,
      Nat.mul_comm 5, Nat.add_mod, Nat.mul_mod, ih, ← Nat.mul_mod, ← Nat.add_mod]

end Probe

/-- Five comes back to one no earlier than after `2 ^ k` factors. -/
lemma dvd_of_five_pow {k n : ℕ} (h : (5 : ZMod (2 ^ (k + 2))) ^ n = 1) : 2 ^ k ∣ n := by
  rw [← ZMod.orderOf_five k]
  exact orderOf_dvd_of_pow_eq_one h

lemma unperturbed_injective {k start m n : ℕ} (hn : n < 2 ^ k)
    (h : unperturbed start m % 2 ^ k = unperturbed start n % 2 ^ k) (hle : m ≤ n) : m = n := by
  have hmod : 4 * unperturbed start m + 1 ≡ 4 * unperturbed start n + 1 [MOD 2 ^ (k + 2)] := by
    have hfour : 4 * unperturbed start m ≡ 4 * unperturbed start n [MOD 4 * 2 ^ k] :=
      Nat.ModEq.mul_left' 4 h
    rw [pow_add, Nat.mul_comm (2 ^ k)]
    exact hfour.add_right 1
  rw [four_mul_unperturbed, four_mul_unperturbed] at hmod
  have hcast := (ZMod.natCast_eq_natCast_iff _ _ _).2 hmod
  push_cast at hcast
  have hfive : IsUnit (5 : ZMod (2 ^ (k + 2))) := by
    have hcoprime : Nat.Coprime 5 (2 ^ (k + 2)) := Nat.Coprime.pow_right _ (by decide)
    simpa using (ZMod.isUnit_iff_coprime 5 (2 ^ (k + 2))).2 hcoprime
  have hstart : IsUnit (4 * (start : ZMod (2 ^ (k + 2))) + 1) := by
    have hodd : Nat.Coprime (4 * start + 1) 2 := by
      rw [Nat.coprime_two_right]
      exact ⟨2 * start, by ring⟩
    have hcoprime : Nat.Coprime (4 * start + 1) (2 ^ (k + 2)) := hodd.pow_right _
    simpa using (ZMod.isUnit_iff_coprime (4 * start + 1) (2 ^ (k + 2))).2 hcoprime
  have hpow := hstart.mul_right_cancel hcast
  obtain ⟨d, rfl⟩ := Nat.exists_eq_add_of_le hle
  have hone : (5 : ZMod (2 ^ (k + 2))) ^ d = 1 := by
    refine (hfive.pow m).mul_left_cancel ?_
    rw [← pow_add, mul_one]
    exact hpow.symm
  have hdvd := dvd_of_five_pow hone
  have hzero : d = 0 := Nat.eq_zero_of_dvd_of_lt hdvd (by omega)
  rw [hzero, Nat.add_zero]

/-- Without a perturbation, `2 ^ k` steps visit every slot. -/
lemma exists_unperturbed {k : ℕ} (start : ℕ) {slot : ℕ} (hslot : slot < 2 ^ k) :
    ∃ n < 2 ^ k, unperturbed start n % 2 ^ k = slot := by
  let visit : Fin (2 ^ k) → Fin (2 ^ k) := fun n =>
    ⟨unperturbed start n % 2 ^ k, Nat.mod_lt _ (Nat.two_pow_pos k)⟩
  have hinjective : Function.Injective visit := by
    intro m n h
    have hsame : unperturbed start m % 2 ^ k = unperturbed start n % 2 ^ k := congrArg Fin.val h
    obtain hle | hle := Nat.le_total m.val n.val
    · exact Fin.ext (unperturbed_injective n.isLt hsame hle)
    · exact Fin.ext (unperturbed_injective m.isLt hsame.symm hle).symm
  obtain ⟨n, hn⟩ := (Finite.injective_iff_surjective.1 hinjective) ⟨slot, hslot⟩
  exact ⟨n, n.isLt, congrArg Fin.val hn⟩

/-- A probe sequence visits every slot within the size of the table and the steps that shift the
hash away. -/
theorem exists_probe {k shift hash m slot : ℕ} (hgone : hash >>> (shift * m) = 0)
    (hslot : slot < 2 ^ k) : ∃ n < 2 ^ k + m, (probe (2 ^ k) shift hash n).1 = slot := by
  obtain ⟨n, hn, hvisit⟩ := exists_unperturbed (probe (2 ^ k) shift hash m).1 hslot
  refine ⟨m + n, by omega, ?_⟩
  rw [← hvisit, ← probe_add_of_gone hgone, Nat.mod_eq_of_lt (probe_lt (Nat.two_pow_pos k) _)]

end Pyrs
