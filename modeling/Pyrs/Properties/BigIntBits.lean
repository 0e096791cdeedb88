import Pyrs.Library.TwosComplement
import Pyrs.Properties.BigIntRing

/-!
# The bit operations of big integers

The shifts move the magnitude, and round towards minus infinity where it stands for a negative
number.  The bitwise operations write both numbers in two's complement, in words that are wide
enough for them and a sign, and read the result back.
-/

namespace Pyrs.BigInt

/-! ## Lengths -/

lemma magnitude_getLast {limbs : List UInt32} (hne : limbs ≠ []) :
    magnitude limbs =
      magnitude limbs.dropLast + 2 ^ (32 * (limbs.length - 1)) * (limbs.getLast hne).toNat := by
  conv_lhs => rw [← List.dropLast_append_getLast hne]
  rw [magnitude_append, List.length_dropLast, magnitude_cons, magnitude_nil, Nat.mul_zero,
    Nat.add_zero]

/-- The bit length is that of the magnitude. -/
lemma bitLength_eq (a : BigInt) : a.bitLength = (magnitude a.limbs).size := by
  rw [bitLength]
  by_cases hne : a.limbs = []
  · rw [hne]
    rfl
  · rw [List.getLast?_eq_some_getLast hne]
    set last := (a.limbs.getLast hne).toNat with hlast
    have hpos : 0 < last := by
      rw [Nat.pos_iff_ne_zero]
      exact fun h => a.trimmed hne (UInt32.toNat_inj.1 h)
    have hsize : 0 < last.size := Nat.size_pos.2 hpos
    have hlow := magnitude_lt a.limbs.dropLast
    rw [List.length_dropLast] at hlow
    have hmagnitude := magnitude_getLast hne
    rw [← hlast] at hmagnitude
    set k := 32 * (a.limbs.length - 1) with hk
    have hbits : (a.limbs.length - 1) * 32 + limbBits (a.limbs.getLast hne) = k + last.size := by
      rw [limbBits, hk, Nat.mul_comm]
    show (a.limbs.length - 1) * 32 + limbBits (a.limbs.getLast hne) = _
    rw [hbits]
    apply le_antisymm
    · -- The highest bit of the last limb is the highest bit of the magnitude.
      have htop : 2 ^ (last.size - 1) ≤ last := Nat.lt_size.1 (by omega)
      have : 2 ^ (k + last.size - 1) ≤ magnitude a.limbs := by
        calc 2 ^ (k + last.size - 1) = 2 ^ k * 2 ^ (last.size - 1) := by
              rw [← pow_add]
              congr 1
              omega
          _ ≤ 2 ^ k * last := Nat.mul_le_mul_left _ htop
          _ ≤ magnitude a.limbs := by rw [hmagnitude]; exact Nat.le_add_left _ _
      have := Nat.lt_size.2 this
      omega
    · rw [Nat.size_le, hmagnitude, pow_add]
      calc magnitude a.limbs.dropLast + 2 ^ k * last < 2 ^ k + 2 ^ k * last := by omega
        _ = 2 ^ k * (last + 1) := by ring
        _ ≤ 2 ^ k * 2 ^ last.size := Nat.mul_le_mul_left _ (Nat.lt_size_self last)

lemma magnitude_lt_bitLength (a : BigInt) : magnitude a.limbs < 2 ^ a.bitLength := by
  rw [bitLength_eq]
  exact Nat.lt_size_self _

/-! ## Left shift -/

/-- A round of `shl_bits` keeps what is written, what is left and the carry. -/
lemma shlLoop_spec {bitShift : ℕ} (hshift : bitShift < 32) (limbs : List UInt32) {carry : ℕ}
    (hcarry : carry < 2 ^ bitShift) :
    magnitude (shlLoop bitShift limbs carry) = magnitude limbs * 2 ^ bitShift + carry := by
  have hpow : 2 ^ bitShift < 2 ^ 32 := Nat.pow_lt_pow_right (by norm_num) hshift
  induction limbs generalizing carry with
  | nil => simp [shlLoop, asU32_toNat_of_lt (hcarry.trans hpow)]
  | cons limb limbs ih =>
    have hlimb := limb.toNat_lt
    have hmoved : limb.toNat * 2 ^ bitShift ≤ (2 ^ 32 - 1) * 2 ^ bitShift :=
      Nat.mul_le_mul_right _ (by omega)
    have hvalue : (limb.toNat <<< bitShift) % 2 ^ 64 ||| carry =
        limb.toNat * 2 ^ bitShift + carry := by
      rw [Nat.mod_eq_of_lt (by rw [Nat.shiftLeft_eq]; omega),
        ← Nat.shiftLeft_add_eq_or_of_lt hcarry, Nat.shiftLeft_eq]
    have hnext : (limb.toNat * 2 ^ bitShift + carry) >>> 32 < 2 ^ bitShift := by
      rw [Nat.shiftRight_eq_div_pow]
      omega
    have hparts := asU32_add_shiftRight (limb.toNat * 2 ^ bitShift + carry)
    simp only [shlLoop]
    rw [hvalue, magnitude_cons, ih hnext, magnitude_cons]
    linear_combination hparts

lemma shlBits_toInt (a : BigInt) (bits : ℕ) : (a.shlBits bits).toInt = a.toInt * 2 ^ bits := by
  rw [shlBits]
  split
  · next hzero => rw [isZero_iff.1 hzero, zero_mul, zero_toInt]
  · next hne =>
    split
    · next hbits => rw [hbits, pow_zero, mul_one]
    · have hbits : 2 ^ bits = 2 ^ (32 * (bits / 32)) * 2 ^ (bits % 32) := by
        rw [← pow_add, Nat.div_add_mod]
      have hmagnitude : magnitude (List.replicate (bits / 32) 0 ++ shlLoop (bits % 32) a.limbs 0) =
          magnitude a.limbs * 2 ^ bits := by
        rw [magnitude_replicate_append, shlLoop_spec (Nat.mod_lt _ (by norm_num)) _ (by positivity),
          hbits]
        ring
      rw [fromParts_toInt, hmagnitude, toInt]
      push_cast
      cases hsign : a.sign with
      | zero => exact absurd (by rw [isZero, hsign]; rfl) hne
      | pos =>
        rw [if_neg (by decide), show ((SignType.pos : SignType) : ℤ) = 1 from rfl]
        ring
      | neg =>
        rw [if_pos (by decide), show ((SignType.neg : SignType) : ℤ) = -1 from rfl]
        ring

/-! ## Right shift -/

lemma magnitude_take_drop (limbs : List UInt32) (n : ℕ) :
    magnitude limbs = magnitude (limbs.take n) + 2 ^ (32 * n) * magnitude (limbs.drop n) := by
  rcases le_total n limbs.length with h | h
  · conv_lhs => rw [← List.take_append_drop n limbs]
    rw [magnitude_append, List.length_take, Nat.min_eq_left h]
  · rw [List.take_of_length_le h, List.drop_of_length_le h, magnitude_nil, Nat.mul_zero,
      Nat.add_zero]

lemma magnitude_take_lt (limbs : List UInt32) (n : ℕ) :
    magnitude (limbs.take n) < 2 ^ (32 * n) :=
  (magnitude_lt _).trans_le
    (Nat.pow_le_pow_right (by norm_num) (Nat.mul_le_mul_left _ (List.length_take_le _ _)))

lemma magnitude_take (limbs : List UInt32) (n : ℕ) :
    magnitude (limbs.take n) = magnitude limbs % 2 ^ (32 * n) := by
  rw [magnitude_take_drop limbs n, Nat.add_mul_mod_self_left,
    Nat.mod_eq_of_lt (magnitude_take_lt limbs n)]

lemma magnitude_drop (limbs : List UInt32) (n : ℕ) :
    magnitude (limbs.drop n) = magnitude limbs / 2 ^ (32 * n) := by
  rw [magnitude_take_drop limbs n, Nat.add_mul_div_left _ _ (by positivity),
    Nat.div_eq_of_lt (magnitude_take_lt limbs n), Nat.zero_add]

lemma magnitude_eq_zero_iff {limbs : List UInt32} :
    magnitude limbs = 0 ↔ ∀ limb ∈ limbs, limb = 0 := by
  induction limbs with
  | nil => simp
  | cons limb limbs ih =>
    rw [magnitude_cons, List.forall_mem_cons, ← ih, ← UInt32.toNat_inj, UInt32.toNat_zero]
    omega

/-- A limb of `abs_shr_bits` is made of its own high bits and the low bits of the one above. -/
lemma shr_limb (limb carry : UInt32) {bitShift : ℕ} (hpos : 0 < bitShift) (hshift : bitShift < 32) :
    (limb >>> UInt32.ofNat bitShift ||| carry <<< UInt32.ofNat (32 - bitShift)).toNat =
      (limb.toNat + 2 ^ 32 * carry.toNat) / 2 ^ bitShift % 2 ^ 32 := by
  have hright : (UInt32.ofNat bitShift).toNat % 32 = bitShift := by
    rw [UInt32.toNat_ofNat']
    omega
  have hleft : (UInt32.ofNat (32 - bitShift)).toNat % 32 = 32 - bitShift := by
    rw [UInt32.toNat_ofNat']
    omega
  rw [UInt32.toNat_or, UInt32.toNat_shiftRight, UInt32.toNat_shiftLeft, hright, hleft]
  refine Nat.eq_of_testBit_eq fun i => ?_
  rw [Nat.testBit_or, Nat.testBit_shiftRight, Nat.testBit_mod_two_pow, Nat.testBit_mod_two_pow,
    Nat.testBit_shiftLeft, ← Nat.shiftRight_eq_div_pow, Nat.testBit_shiftRight,
    Nat.add_comm limb.toNat, Nat.testBit_two_pow_mul_add _ limb.toNat_lt]
  have hlimb : ∀ j, 32 ≤ j → limb.toNat.testBit j = false := fun j hj =>
    Nat.testBit_lt_two_pow (limb.toNat_lt.trans_le (Nat.pow_le_pow_right (by norm_num) hj))
  by_cases hlow : bitShift + i < 32
  · rw [if_pos hlow, decide_eq_false (by omega : ¬i ≥ 32 - bitShift),
      decide_eq_true (by omega : i < 32)]
    simp
  · rw [if_neg hlow, hlimb _ (by omega), decide_eq_true (by omega : i ≥ 32 - bitShift)]
    have : i - (32 - bitShift) = bitShift + i - 32 := by omega
    rw [this]
    simp

/-- What is written below the limbs that are left, and the bits of the last one that go down. -/
lemma shrLoop_spec {bitShift : ℕ} (hpos : 0 < bitShift) (hshift : bitShift < 32)
    (limbs : List UInt32) (carry : UInt32) :
    (shrLoop bitShift limbs carry).length = limbs.length ∧
      magnitude (shrLoop bitShift limbs carry).reverse =
        (magnitude limbs.reverse + 2 ^ (32 * limbs.length) * carry.toNat) / 2 ^ bitShift %
          2 ^ (32 * limbs.length) := by
  induction limbs generalizing carry with
  | nil => exact ⟨rfl, by simp [shrLoop, Nat.mod_one]⟩
  | cons limb limbs ih =>
    obtain ⟨hlength, hvalue⟩ := ih limb
    refine ⟨by rw [shrLoop, List.length_cons, hlength, List.length_cons], ?_⟩
    have hrest : magnitude limbs.reverse < 2 ^ (32 * limbs.length) := by
      have := magnitude_lt limbs.reverse
      rwa [List.length_reverse] at this
    set rest := magnitude limbs.reverse with hrestEq
    set k := 32 * limbs.length with hk
    have hwidth : 32 * (limb :: limbs).length = k + 32 := by
      rw [List.length_cons, hk]
      ring
    have hall : magnitude (limb :: limbs).reverse = rest + 2 ^ k * limb.toNat := by
      rw [List.reverse_cons, magnitude_append, List.length_reverse, magnitude_cons, magnitude_nil,
        Nat.mul_zero, Nat.add_zero]
    rw [hwidth, hall, shrLoop, List.reverse_cons, magnitude_append, List.length_reverse, hlength,
      ← hk, hvalue, magnitude_cons, magnitude_nil, Nat.mul_zero, Nat.add_zero,
      shr_limb limb carry hpos hshift, pow_add, Nat.mod_mul]
    congr 1
    · -- The carry is a multiple of what the low part is taken modulo.
      have hpow : 2 ^ 32 = 2 ^ bitShift * 2 ^ (32 - bitShift) := by
        rw [← pow_add]
        congr 1
        omega
      have : rest + 2 ^ k * limb.toNat + 2 ^ k * 2 ^ 32 * carry.toNat =
          rest + 2 ^ k * limb.toNat +
            2 ^ bitShift * (2 ^ k * (2 ^ (32 - bitShift) * carry.toNat)) := by
        rw [hpow]
        ring
      rw [this, Nat.add_mul_div_left _ _ (by positivity), Nat.add_mul_mod_self_left]
    · congr 2
      have : rest + 2 ^ k * limb.toNat + 2 ^ k * 2 ^ 32 * carry.toNat =
          rest + 2 ^ k * (limb.toNat + 2 ^ 32 * carry.toNat) := by ring
      rw [this, Nat.div_div_eq_div_mul, Nat.mul_comm (2 ^ bitShift), ← Nat.div_div_eq_div_mul,
        Nat.add_mul_div_left _ _ (by positivity), Nat.div_eq_of_lt hrest, Nat.zero_add]

lemma absShrBits_toInt (a : BigInt) (bits : ℕ) :
    (a.absShrBits bits).toInt = (magnitude a.limbs / 2 ^ bits : ℕ) := by
  have hbits : 2 ^ bits = 2 ^ (32 * (bits / 32)) * 2 ^ (bits % 32) := by
    rw [← pow_add, Nat.div_add_mod]
  rw [absShrBits, hbits, ← Nat.div_div_eq_div_mul, ← magnitude_drop]
  split
  · next hzero =>
    have hsign : a.sign = 0 := eq_of_beq hzero
    rw [a.sign_eq_zero_iff.1 hsign, zero_toInt, List.drop_nil, magnitude_nil, Nat.zero_div,
      Nat.cast_zero]
  · split
    · next hlength =>
      rw [List.drop_of_length_le hlength, zero_toInt, magnitude_nil, Nat.zero_div, Nat.cast_zero]
    · rw [fromParts_toInt, if_neg (by decide), one_mul]
      split
      · next hmod => rw [hmod, pow_zero, Nat.div_one]
      · next hmod =>
        obtain ⟨-, hvalue⟩ := shrLoop_spec (Nat.pos_of_ne_zero hmod) (Nat.mod_lt bits (by norm_num))
          (a.limbs.drop (bits / 32)).reverse 0
        rw [hvalue, List.reverse_reverse, UInt32.toNat_zero, Nat.mul_zero, Nat.add_zero,
          List.length_reverse, Nat.mod_eq_of_lt]
        exact (Nat.div_le_self _ _).trans_lt (magnitude_lt _)

lemma lowMask_toNat {bitShift : ℕ} (hshift : bitShift < 32) :
    ((1 : UInt32) <<< UInt32.ofNat bitShift - 1).toNat = 2 ^ bitShift - 1 := by
  have hpow : 2 ^ bitShift < 2 ^ 32 := Nat.pow_lt_pow_right (by norm_num) hshift
  have hone : ((1 : UInt32) <<< UInt32.ofNat bitShift).toNat = 2 ^ bitShift := by
    have hmod : (UInt32.ofNat bitShift).toNat % 32 = bitShift := by
      rw [UInt32.toNat_ofNat']
      omega
    rw [UInt32.toNat_shiftLeft, hmod, UInt32.toNat_one, Nat.one_shiftLeft, Nat.mod_eq_of_lt hpow]
  have hle : (1 : UInt32) ≤ 1 <<< UInt32.ofNat bitShift := by
    rw [UInt32.le_iff_toNat_le, hone, UInt32.toNat_one]
    exact Nat.one_le_two_pow
  rw [UInt32.toNat_sub_of_le _ _ hle, hone, UInt32.toNat_one]

/-- The low bits are those that the shift loses. -/
lemma absHasLowBits_iff (a : BigInt) (bits : ℕ) :
    a.absHasLowBits bits = true ↔ magnitude a.limbs % 2 ^ bits ≠ 0 := by
  have hbits : 2 ^ bits = 2 ^ (32 * (bits / 32)) * 2 ^ (bits % 32) := by
    rw [← pow_add, Nat.div_add_mod]
  have hhead : magnitude (a.limbs.drop (bits / 32)) % 2 ^ (bits % 32) =
      ((a.limbs[bits / 32]?).getD 0).toNat % 2 ^ (bits % 32) := by
    have hpow : 2 ^ 32 = 2 ^ (bits % 32) * 2 ^ (32 - bits % 32) := by
      rw [← pow_add]
      congr 1
      omega
    rw [magnitude_head_tail, List.head?_drop, hpow, Nat.mul_assoc, Nat.add_mul_mod_self_left]
  rw [hbits, Nat.mod_mul, ← magnitude_take, ← magnitude_drop, hhead, absHasLowBits]
  split
  · next hzero => simp [hzero, Nat.mod_one]
  · split
    · next hany =>
      have hne : magnitude (a.limbs.take (bits / 32)) ≠ 0 := by
        rw [Ne, magnitude_eq_zero_iff]
        simpa using hany
      exact iff_of_true rfl (by omega)
    · next hall =>
      have hzero : magnitude (a.limbs.take (bits / 32)) = 0 := by
        rw [magnitude_eq_zero_iff]
        simpa using hall
      have hpos : 0 < 2 ^ (32 * (bits / 32)) := by positivity
      rw [hzero, Nat.zero_add, Nat.mul_ne_zero_iff]
      cases hlimb : a.limbs[bits / 32]? with
      | none => simp
      | some limb =>
        have hmask : (limb &&& ((1 : UInt32) <<< UInt32.ofNat (bits % 32) - 1)).toNat =
            limb.toNat % 2 ^ (bits % 32) := by
          rw [UInt32.toNat_and, lowMask_toNat (Nat.mod_lt bits (by norm_num)),
            Nat.and_two_pow_sub_one_eq_mod]
        show (bits % 32 != 0 &&
            limb &&& ((1 : UInt32) <<< UInt32.ofNat (bits % 32) - 1) != 0) = true
          ↔ 2 ^ (32 * (bits / 32)) ≠ 0 ∧ limb.toNat % 2 ^ (bits % 32) ≠ 0
        rw [Bool.and_eq_true, bne_iff_ne, bne_iff_ne, ← hmask, Ne, Ne, ← UInt32.toNat_inj,
          UInt32.toNat_zero]
        refine ⟨fun h => ⟨hpos.ne', h.2⟩, fun h => ⟨fun hshift => h.2 ?_, h.2⟩⟩
        rw [hmask, hshift, pow_zero, Nat.mod_one]

/-- The arithmetic shift rounds towards minus infinity. -/
lemma shrBitsArithmetic_spec (a : BigInt) (bits : ℕ) :
    ∃ c, a.shrBitsArithmetic bits = some c ∧ c.toInt = a.toInt / 2 ^ bits := by
  rw [shrBitsArithmetic]
  split
  · next hzero => exact ⟨zero, rfl, by rw [isZero_iff.1 hzero, Int.zero_ediv, zero_toInt]⟩
  · next hne =>
    split
    · next hbits => exact ⟨a, rfl, by rw [hbits, pow_zero, Int.ediv_one]⟩
    · split
      · next hpos =>
        refine ⟨_, rfl, ?_⟩
        rw [absShrBits_toInt, toInt_of_pos hpos]
        push_cast
        rfl
      · next hpos =>
        have hsign : a.sign = .neg := by
          cases hsign : a.sign with
          | zero => exact absurd (by rw [isZero, hsign]; rfl) hne
          | pos => exact absurd hsign hpos
          | neg => rfl
        have hlimbs : a.abs.limbs = a.limbs := by
          rw [abs, if_pos (by rw [isNegative, hsign]; rfl), negated, if_neg hne]
        have hquotient := absShrBits_toInt a.abs bits
        have hlow := absHasLowBits_iff a.abs bits
        rw [hlimbs] at hquotient hlow
        have hparts := Nat.div_add_mod (magnitude a.limbs) (2 ^ bits)
        have hlt := Nat.mod_lt (magnitude a.limbs) (show 0 < 2 ^ bits by positivity)
        rw [toInt_of_neg hsign]
        set m := magnitude a.limbs
        have hparts : (2 : ℤ) ^ bits * (m / 2 ^ bits : ℕ) + (m % 2 ^ bits : ℕ) = m := by
          exact_mod_cast hparts
        have hlt : ((m % 2 ^ bits : ℕ) : ℤ) < 2 ^ bits := by exact_mod_cast hlt
        split
        · next hlost =>
          have hlost := hlow.1 hlost
          obtain ⟨c, hc, hvalue⟩ := add_spec (a.abs.absShrBits bits) one
          have hresult : ((a.abs.absShrBits bits).add one).map negated = some c.negated := by
            rw [hc, Option.map_some]
          refine ⟨c.negated, hresult, ?_⟩
          rw [negated_toInt, hvalue, hquotient, one_toInt]
          symm
          refine ((Int.ediv_emod_unique (r := 2 ^ bits - (m % 2 ^ bits : ℕ)) (by positivity)).2
            ⟨?_, ?_, ?_⟩).1
          · linear_combination -hparts
          · omega
          · omega
        · next hkept =>
          have hkept : m % 2 ^ bits = 0 := not_not.1 (hkept ∘ hlow.2)
          refine ⟨_, rfl, ?_⟩
          rw [negated_toInt, hquotient]
          symm
          refine ((Int.ediv_emod_unique (r := 0) (by positivity)).2 ⟨?_, le_rfl, by positivity⟩).1
          rw [hkept] at hparts
          linear_combination -hparts

/-! ## Words -/

/-- A round of the increment, with what leaves the window at the end. -/
lemma incrementLoop_spec (values : List UInt32) {carry : ℕ} (hcarry : carry ≤ 1) :
    ∃ out, incrementLoop values carry = some out ∧ out.length = values.length ∧
      magnitude out = (magnitude values + carry) % 2 ^ (32 * values.length) := by
  induction values generalizing carry with
  | nil => exact ⟨[], rfl, rfl, by simp [Nat.mod_one]⟩
  | cons value values ih =>
    rw [incrementLoop]
    split
    · next hzero =>
      refine ⟨_, rfl, rfl, ?_⟩
      rw [hzero, Nat.add_zero, Nat.mod_eq_of_lt (magnitude_lt _)]
    · have hvalue := value.toNat_lt
      have hnext : (value.toNat + carry) >>> 32 ≤ 1 := by
        rw [Nat.shiftRight_eq_div_pow]
        omega
      obtain ⟨out, hout, hlength, hmagnitude⟩ := ih hnext
      refine ⟨asU32 (value.toNat + carry) :: out, ?_, ?_, ?_⟩
      · rw [checkedU64_eq (by omega), Option.bind_eq_bind, Option.bind_some, hout]
        rfl
      · rw [List.length_cons, hlength, List.length_cons]
      · have hsum : magnitude (value :: values) + carry =
            value.toNat + carry + 2 ^ 32 * magnitude values := by
          rw [magnitude_cons]
          ring
        rw [magnitude_cons, hmagnitude, asU32_toNat, Nat.shiftRight_eq_div_pow, hsum,
          List.length_cons, Nat.mul_succ, Nat.add_comm (32 * _), pow_add, Nat.mod_mul,
          Nat.add_mul_mod_self_left, Nat.add_mul_div_left _ _ (by positivity),
          Nat.add_comm ((value.toNat + carry) / 2 ^ 32)]

/-- All bits of the window are flipped. -/
lemma magnitude_map_not (values : List UInt32) :
    magnitude (values.map fun value => ~~~value) + magnitude values + 1 =
      2 ^ (32 * values.length) := by
  induction values with
  | nil => rfl
  | cons value values ih =>
    have hnot : (~~~value).toNat = 2 ^ 32 - 1 - value.toNat := UInt32.toNat_not _
    have hvalue := value.toNat_lt
    rw [List.map_cons, magnitude_cons, magnitude_cons, List.length_cons, Nat.mul_succ,
      pow_add, ← ih, hnot]
    have : 2 ^ 32 - 1 - value.toNat + value.toNat + 1 = 2 ^ 32 := by omega
    linear_combination this

/-- A window holds the number modulo its size. -/
lemma twosComplementWords_spec (a : BigInt) (words : ℕ) :
    ∃ out, a.twosComplementWords words = some out ∧ out.length = words ∧
      (magnitude out : ℤ) = a.toInt % 2 ^ (32 * words) := by
  set out := a.limbs.take words ++ List.replicate (words - a.limbs.length) 0 with hout
  have hlength : out.length = words := by
    rw [hout, List.length_append, List.length_take, List.length_replicate]
    omega
  have hmagnitude : magnitude out = magnitude a.limbs % 2 ^ (32 * words) := by
    rw [hout, magnitude_append, magnitude_replicate, Nat.mul_zero, Nat.add_zero, magnitude_take]
  rw [twosComplementWords]
  split
  · next hsign =>
    refine ⟨out, rfl, hlength, ?_⟩
    have hvalue : a.toInt = magnitude a.limbs := by
      cases h : a.sign with
      | zero => rw [toInt_of_zero h, a.sign_eq_zero_iff.1 h]; rfl
      | pos => exact toInt_of_pos h
      | neg => exact absurd h hsign
    rw [hmagnitude, hvalue]
    push_cast
    rfl
  · next hsign =>
    have hsign : a.sign = .neg := not_not.1 hsign
    obtain ⟨res, hres, hresLength, hvalue⟩ :=
      incrementLoop_spec (out.map fun value => ~~~value) le_rfl
    have hnot := magnitude_map_not out
    rw [List.length_map, hlength] at hresLength hvalue
    rw [hlength] at hnot
    refine ⟨res, hres, hresLength, ?_⟩
    rw [hvalue, toInt_of_neg hsign]
    have hnot : ((magnitude (out.map fun value => ~~~value) + 1 : ℕ) : ℤ) =
        2 ^ (32 * words) - magnitude out := by
      push_cast
      have : ((magnitude (out.map fun value => ~~~value) + magnitude out + 1 : ℕ) : ℤ) =
          2 ^ (32 * words) := by exact_mod_cast hnot
      push_cast at this
      linear_combination this
    push_cast at hnot ⊢
    rw [hnot, hmagnitude]
    push_cast
    rw [Int.sub_emod, Int.emod_self, zero_sub, Int.emod_emod_of_dvd _ (dvd_refl _)]
    exact (Int.mod_modEq _ _).neg

/-- A round of the decrement, with what is borrowed from above the window. -/
lemma decrementLoop_spec (values : List UInt32) {borrow : ℕ} (hborrow : borrow ≤ 1) :
    ∃ last : ℕ, last ≤ 1 ∧ (decrementLoop values borrow).length = values.length ∧
      magnitude (decrementLoop values borrow) + borrow =
        magnitude values + last * 2 ^ (32 * values.length) := by
  induction values generalizing borrow with
  | nil => exact ⟨borrow, hborrow, rfl, by simp [decrementLoop]⟩
  | cons value values ih =>
    have hvalue := value.toNat_lt
    rw [decrementLoop]
    split
    · next hzero => exact ⟨0, by omega, rfl, by rw [hzero, Nat.zero_mul]⟩
    · split
      · next hle =>
        obtain ⟨last, hlast, hlength, hmagnitude⟩ := ih (Nat.zero_le 1)
        refine ⟨last, hlast, by rw [List.length_cons, hlength, List.length_cons], ?_⟩
        rw [magnitude_cons, magnitude_cons, asU32_toNat_of_lt (by omega), List.length_cons,
          Nat.mul_succ, pow_add]
        have hlimb : value.toNat - borrow + borrow = value.toNat := Nat.sub_add_cancel hle
        linear_combination 2 ^ 32 * hmagnitude + hlimb
      · obtain ⟨last, hlast, hlength, hmagnitude⟩ := ih le_rfl
        refine ⟨last, hlast, by rw [List.length_cons, hlength, List.length_cons], ?_⟩
        rw [magnitude_cons, magnitude_cons, asU32_toNat_of_lt (by omega), List.length_cons,
          Nat.mul_succ, pow_add]
        have hlimb : 2 ^ 32 + value.toNat - borrow + borrow = 2 ^ 32 + value.toNat := by omega
        linear_combination 2 ^ 32 * hmagnitude + hlimb

/-- The highest bit of a window. -/
lemma highBit_iff (value : UInt32) : value &&& 0x80000000 ≠ 0 ↔ 2 ^ 31 ≤ value.toNat := by
  have hmask : (0x80000000 : UInt32).toNat = 2 ^ 31 := rfl
  have hvalue := value.toNat_lt
  rw [Ne, ← UInt32.toNat_inj, UInt32.toNat_and, hmask, UInt32.toNat_zero,
    Nat.and_two_pow]
  constructor
  · intro h
    apply Nat.ge_two_pow_of_testBit
    cases hbit : value.toNat.testBit 31 with
    | false => exact absurd (by rw [hbit]; rfl) h
    | true => rfl
  · intro h
    rw [Nat.testBit_of_two_pow_le_and_two_pow_add_one_gt h hvalue]
    decide

/-- The words are read with a sign. -/
lemma fromTwosComplementWords_toInt (words : List UInt32) :
    (fromTwosComplementWords words).toInt =
      (magnitude words : ℤ).bmod (2 ^ (32 * words.length)) := by
  rw [fromTwosComplementWords]
  split
  · next hnone =>
    obtain rfl := List.getLast?_eq_none_iff.1 hnone
    rw [zero_toInt]
    rfl
  · next last hlast =>
    have hne : words ≠ [] := by
      rintro rfl
      cases hlast
    have hlast : words.getLast hne = last := by
      rw [List.getLast?_eq_some_getLast hne] at hlast
      exact Option.some.inj hlast
    have hlow := magnitude_lt words.dropLast
    rw [List.length_dropLast] at hlow
    have hparts := magnitude_getLast hne
    rw [hlast] at hparts
    have hlt := magnitude_lt words
    have hwidth : (2 : ℕ) ^ (32 * words.length) = 2 ^ 32 * 2 ^ (32 * (words.length - 1)) := by
      rw [← pow_add]
      congr 1
      have := List.length_pos_iff.2 hne
      omega
    set below := (2 : ℕ) ^ (32 * (words.length - 1))
    have hmod : (magnitude words : ℤ) % (2 ^ (32 * words.length) : ℕ) = magnitude words :=
      Int.emod_eq_of_lt (Int.natCast_nonneg _) (by exact_mod_cast hlt)
    rw [Int.bmod_def, hmod, hwidth]
    split
    · next hhigh =>
      have hhigh := (highBit_iff last).1 hhigh
      have hlarge : 2 ^ 31 * below ≤ magnitude words := by
        rw [hparts]
        nlinarith
      obtain ⟨borrowed, hborrowed, hlength, hvalue⟩ := decrementLoop_spec words le_rfl
      have hnot := magnitude_map_not (decrementLoop words 1)
      rw [hlength, hwidth] at hnot
      rw [hwidth] at hvalue
      -- The window is not zero, so that nothing is borrowed from above.
      have hpos : 0 < below := by positivity
      have hkept : borrowed = 0 := by
        by_contra hne
        obtain rfl : borrowed = 1 := by omega
        omega
      rw [fromParts_toInt, if_pos rfl, if_neg (by omega)]
      rw [hkept] at hvalue
      omega
    · next hhigh =>
      have hhigh : last.toNat < 2 ^ 31 := by
        by_contra h
        exact hhigh ((highBit_iff last).2 (not_lt.1 h))
      have hsmall : magnitude words < 2 ^ 31 * below := by
        rw [hparts]
        nlinarith
      rw [fromParts_toInt, if_neg (by decide), one_mul, if_pos (by omega)]

/-! ## Bitwise operations -/

/-- The words are combined bit for bit. -/
lemma testBit_zipWith {op : UInt32 → UInt32 → UInt32} {f : Bool → Bool → Bool}
    (hop : ∀ left right i, i < 32 →
      (op left right).toNat.testBit i = f (left.toNat.testBit i) (right.toNat.testBit i))
    {lefts rights : List UInt32} (hlength : lefts.length = rights.length) {index : ℕ}
    (hindex : index < 32 * lefts.length) :
    (magnitude (List.zipWith op lefts rights)).testBit index =
      f ((magnitude lefts).testBit index) ((magnitude rights).testBit index) := by
  induction lefts generalizing rights index with
  | nil => exact absurd hindex (Nat.not_lt_zero _)
  | cons left lefts ih =>
    cases rights with
    | nil => cases hlength
    | cons right rights =>
      have hsplit : ∀ (limb : UInt32) (limbs : List UInt32),
          (magnitude (limb :: limbs)).testBit index =
            if index < 32 then limb.toNat.testBit index
            else (magnitude limbs).testBit (index - 32) := by
        intro limb limbs
        rw [magnitude_cons, Nat.add_comm, Nat.testBit_two_pow_mul_add _ limb.toNat_lt]
      rw [List.zipWith_cons_cons, hsplit, hsplit, hsplit]
      split
      · next hlow => exact hop left right index hlow
      · rw [List.length_cons] at hindex
        exact ih (Nat.succ.inj hlength) (by omega)

lemma toInt_bounds (a : BigInt) {width : ℕ} (h : a.bitLength ≤ width) :
    -2 ^ width ≤ a.toInt ∧ a.toInt < 2 ^ width := by
  have hlt : magnitude a.limbs < 2 ^ width :=
    (magnitude_lt_bitLength a).trans_le (Nat.pow_le_pow_right (by norm_num) h)
  have hlt : (magnitude a.limbs : ℤ) < 2 ^ width := by exact_mod_cast hlt
  have habs : a.toInt.natAbs = magnitude a.limbs := natAbs_toInt a
  omega

lemma bitwiseOp_spec (a b : BigInt) {op : UInt32 → UInt32 → UInt32} {f : Bool → Bool → Bool}
    (hop : ∀ left right i, i < 32 →
      (op left right).toNat.testBit i = f (left.toNat.testBit i) (right.toNat.testBit i)) :
    ∃ c, a.bitwiseOp b op = some c ∧
      ∀ i, c.toInt.testBit i = f (a.toInt.testBit i) (b.toInt.testBit i) := by
  set words := (max a.bitLength b.bitLength + 2 + 31) / 32 with hwords
  obtain ⟨lefts, hlefts, hleftLength, hleft⟩ := twosComplementWords_spec a words
  obtain ⟨rights, hrights, hrightLength, hright⟩ := twosComplementWords_spec b words
  refine ⟨fromTwosComplementWords (List.zipWith op lefts rights), ?_, fun i => ?_⟩
  · rw [bitwiseOp]
    simp only [← hwords, hlefts, hrights]
    rfl
  · have hlength : lefts.length = rights.length := hleftLength.trans hrightLength.symm
    have hzip : (List.zipWith op lefts rights).length = words := by
      rw [List.length_zipWith, ← hlength, Nat.min_self, hleftLength]
    obtain ⟨width, hwidth⟩ : ∃ width, 32 * words = width + 1 := ⟨32 * words - 1, by omega⟩
    obtain ⟨hxlow, hxhigh⟩ := toInt_bounds a (show a.bitLength ≤ width by omega)
    obtain ⟨hylow, hyhigh⟩ := toInt_bounds b (show b.bitLength ≤ width by omega)
    rw [fromTwosComplementWords_toInt, hzip, hwidth]
    rw [hwidth] at hleft hright
    refine TwosComplement.testBit_wordwise hxlow hxhigh hylow hyhigh (fun index hindex => ?_) i
    rw [testBit_zipWith hop hlength (by rw [hleftLength]; omega),
      ← TwosComplement.testBit_natCast, ← TwosComplement.testBit_natCast (magnitude rights), hleft,
      hright, TwosComplement.testBit_emod _ hindex, TwosComplement.testBit_emod _ hindex]

lemma bitand_spec (a b : BigInt) :
    ∃ c, a.bitand b = some c ∧
      ∀ i, c.toInt.testBit i = (a.toInt.testBit i && b.toInt.testBit i) :=
  bitwiseOp_spec a b fun left right i _ => by rw [UInt32.toNat_and, Nat.testBit_and]

lemma bitor_spec (a b : BigInt) :
    ∃ c, a.bitor b = some c ∧
      ∀ i, c.toInt.testBit i = (a.toInt.testBit i || b.toInt.testBit i) :=
  bitwiseOp_spec a b fun left right i _ => by rw [UInt32.toNat_or, Nat.testBit_or]

lemma bitxor_spec (a b : BigInt) :
    ∃ c, a.bitxor b = some c ∧
      ∀ i, c.toInt.testBit i = (a.toInt.testBit i ^^ b.toInt.testBit i) :=
  bitwiseOp_spec a b fun left right i _ => by rw [UInt32.toNat_xor, Nat.testBit_xor]

lemma bitnot_spec (a : BigInt) : ∃ c, a.bitnot = some c ∧ c.toInt = -a.toInt - 1 := by
  obtain ⟨c, hc, hvalue⟩ := sub_spec a.negated one
  exact ⟨c, hc, by rw [hvalue, negated_toInt, one_toInt]⟩

/-- **The bit operations are exact.**  The bitwise ones act on every bit of the infinite two's
complement, and the shifts multiply and divide by powers of two. -/
theorem bit_operations_exact (a b : BigInt) (bits : ℕ) :
    (∃ c, a.bitand b = some c ∧
        ∀ i, c.toInt.testBit i = (a.toInt.testBit i && b.toInt.testBit i)) ∧
      (∃ c, a.bitor b = some c ∧
        ∀ i, c.toInt.testBit i = (a.toInt.testBit i || b.toInt.testBit i)) ∧
      (∃ c, a.bitxor b = some c ∧
        ∀ i, c.toInt.testBit i = (a.toInt.testBit i ^^ b.toInt.testBit i)) ∧
      (∃ c, a.bitnot = some c ∧ c.toInt = -a.toInt - 1) ∧
      (a.shlBits bits).toInt = a.toInt * 2 ^ bits ∧
      ∃ c, a.shrBitsArithmetic bits = some c ∧ c.toInt = a.toInt / 2 ^ bits :=
  ⟨bitand_spec a b, bitor_spec a b, bitxor_spec a b, bitnot_spec a, shlBits_toInt a bits,
    shrBitsArithmetic_spec a bits⟩

end Pyrs.BigInt
