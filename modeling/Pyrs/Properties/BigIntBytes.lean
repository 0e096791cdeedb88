import Pyrs.Model.BigIntBytes
import Pyrs.Properties.IntegerOperators

/-!
# Two's complement in bytes

The bytes of a big integer are its value modulo a power of `256`; they are read back with the
highest bit for the sign.  Both hold for any number of bytes, so that the value comes back exactly
from the least number that has room for it and a sign.
-/

namespace Pyrs

open Decoding

namespace BigInt

/-! ## The magnitude -/

lemma fromLeBytes_limbs (limbs : List UInt32) :
    fromLeBytes (limbs.flatMap fun limb => leBytes 4 limb.toNat) = magnitude limbs := by
  induction limbs with
  | nil => rfl
  | cons limb limbs ih =>
    have hlimb : fromLeBytes (leBytes 4 limb.toNat) = limb.toNat :=
      fromLeBytes_leBytes limb.toNat_lt
    have hbase : 256 ^ 4 = 2 ^ 32 := rfl
    rw [List.flatMap_cons, fromLeBytes_append, length_leBytes, hlimb, ih, magnitude_cons, hbase]

lemma fromLeBytes_rdropWhile (bytes : List UInt8) :
    fromLeBytes (bytes.rdropWhile (· == 0)) = fromLeBytes bytes := by
  induction bytes using List.reverseRecOn with
  | nil => rfl
  | append_singleton bytes byte ih =>
    rw [List.rdropWhile_concat]
    split
    · next hzero =>
      rw [ih, fromLeBytes_append, eq_of_beq hzero]
      rfl
    · rfl

lemma toAbsLeBytes_spec (a : BigInt) : fromLeBytes a.toAbsLeBytes = a.toInt.natAbs := by
  have hbytes := fromLeBytes_rdropWhile (a.limbs.flatMap fun limb => leBytes 4 limb.toNat)
  rw [fromLeBytes_limbs, ← natAbs_toInt] at hbytes
  rw [toAbsLeBytes]
  dsimp only
  split
  · next hzero => rw [isZero_iff.1 hzero]; rfl
  · split
    · next hnil => rw [← hbytes, hnil]; rfl
    · exact hbytes

end BigInt

/-! ## Negation -/

lemma copyFromSlice_spec (n : ℕ) (raw : List UInt8) :
    (copyFromSlice n raw).length = n ∧
      fromLeBytes (copyFromSlice n raw) = fromLeBytes raw % 256 ^ n := by
  constructor
  · rw [copyFromSlice, List.length_append, List.length_take, List.length_replicate]
    omega
  · rw [copyFromSlice, fromLeBytes_append, fromLeBytes_replicate_zero, Nat.mul_zero, Nat.add_zero,
      fromLeBytes_take]

/-- What the carry leaves at the end is lost. -/
lemma addCarry_spec (bytes : List UInt8) (carry : ℕ) :
    (addCarry bytes carry).length = bytes.length ∧
      fromLeBytes (addCarry bytes carry) = (fromLeBytes bytes + carry) % 256 ^ bytes.length := by
  induction bytes generalizing carry with
  | nil => exact ⟨rfl, by rw [addCarry, List.length_nil, pow_zero, Nat.mod_one]; rfl⟩
  | cons byte bytes ih =>
    obtain ⟨hlength, hvalue⟩ := ih ((byte.toNat + carry) >>> 8)
    have hrest : (if (byte.toNat + carry) >>> 8 = 0 then bytes
        else addCarry bytes ((byte.toNat + carry) >>> 8)).length = bytes.length ∧
        fromLeBytes (if (byte.toNat + carry) >>> 8 = 0 then bytes
          else addCarry bytes ((byte.toNat + carry) >>> 8)) =
          (fromLeBytes bytes + (byte.toNat + carry) >>> 8) % 256 ^ bytes.length := by
      split
      · next hzero => exact ⟨rfl, by rw [hzero, Nat.add_zero, Nat.mod_eq_of_lt (fromLeBytes_lt _)]⟩
      · exact ⟨hlength, hvalue⟩
    rw [addCarry]
    refine ⟨by rw [List.length_cons, List.length_cons, hrest.1], ?_⟩
    have hsum : byte.toNat + 256 * fromLeBytes bytes + carry =
        byte.toNat + carry + 256 * fromLeBytes bytes := by omega
    have hbase : (2 : ℕ) ^ 8 = 256 := rfl
    rw [fromLeBytes, hrest.2, UInt8.toNat_ofNat', hbase, fromLeBytes, List.length_cons, pow_succ,
      Nat.mul_comm (256 ^ _) 256, Nat.mod_mul, hsum, Nat.add_mul_mod_self_left,
      Nat.add_mul_div_left _ _ (by decide), Nat.shiftRight_eq_div_pow,
      Nat.add_comm ((byte.toNat + carry) / 256)]

lemma fromLeBytes_map_not (bytes : List UInt8) :
    fromLeBytes (bytes.map fun byte => ~~~byte) + fromLeBytes bytes + 1 = 256 ^ bytes.length := by
  induction bytes with
  | nil => rfl
  | cons byte bytes ih =>
    have hnot : (~~~byte).toNat = 2 ^ 8 - 1 - byte.toNat := UInt8.toNat_not _
    have hbyte := byte.toNat_lt
    rw [List.map_cons, fromLeBytes, fromLeBytes, List.length_cons, pow_succ, ← ih, hnot]
    omega

lemma negateBytes_spec (bytes : List UInt8) :
    (negateBytes bytes).length = bytes.length ∧
      fromLeBytes (negateBytes bytes) =
        (256 ^ bytes.length - fromLeBytes bytes) % 256 ^ bytes.length := by
  obtain ⟨hlength, hvalue⟩ := addCarry_spec (bytes.map fun byte => ~~~byte) 1
  have hnot := fromLeBytes_map_not bytes
  rw [List.length_map] at hlength hvalue
  refine ⟨hlength, ?_⟩
  rw [negateBytes, hvalue]
  congr 1
  omega

/-! ## Back and forth -/

/-- The bytes are the value modulo a power of their base. -/
lemma toTwosComplementLe_spec (value : BigInt) (n : ℕ) :
    (cpythonBigintToTwosComplementLe value n).length = n ∧
      (fromLeBytes (cpythonBigintToTwosComplementLe value n) : ℤ) = value.toInt % 256 ^ n := by
  obtain ⟨hlength, hvalue⟩ := copyFromSlice_spec n (cpythonBigintToUnsignedLeBytes value)
  rw [cpythonBigintToUnsignedLeBytes, BigInt.toAbsLeBytes_spec, BigInt.abs_toInt, Int.natAbs_abs]
    at hvalue
  have hout : cpythonBigintToUnsignedLeBytes value = value.abs.toAbsLeBytes := rfl
  rw [hout] at hlength
  rw [cpythonBigintToTwosComplementLe, hout]
  set out := copyFromSlice n value.abs.toAbsLeBytes
  have hcast : (fromLeBytes out : ℤ) = |value.toInt| % 256 ^ n := by
    rw [hvalue, Int.natCast_mod, Int.natCast_natAbs]
    push_cast
    rfl
  split
  · next hzero =>
    rw [hzero, pow_zero, Int.emod_one]
    exact ⟨rfl, rfl⟩
  · split
    · next hnonneg =>
      have hsign : ¬value.toInt < 0 := fun hneg => by
        rw [BigInt.isNegative_iff.2 hneg] at hnonneg
        cases hnonneg
      exact ⟨hlength, by rw [hcast, abs_of_nonneg (not_lt.1 hsign)]⟩
    · next hneg =>
      have hneg : value.toInt < 0 := BigInt.isNegative_iff.1 (by simpa using hneg)
      obtain ⟨hnegLength, hnegValue⟩ := negateBytes_spec out
      have hlt := fromLeBytes_lt out
      rw [hlength] at hnegLength hnegValue hlt
      refine ⟨hnegLength, ?_⟩
      rw [hnegValue, Int.natCast_mod, Nat.cast_sub hlt.le, hcast, abs_of_neg hneg]
      push_cast
      rw [Int.sub_emod, Int.emod_self, zero_sub, Int.emod_emod_of_dvd _ (dvd_refl _)]
      have hcongr := (Int.mod_modEq (-value.toInt) (256 ^ n)).neg
      rwa [neg_neg] at hcongr

lemma fromUnsignedLeBytes_spec (bytes : List UInt8) :
    ∃ out, cpythonBigintFromUnsignedLeBytes bytes = some out ∧ out.toInt = fromLeBytes bytes := by
  rw [cpythonBigintFromUnsignedLeBytes]
  induction bytes with
  | nil => exact ⟨_, rfl, BigInt.zero_toInt⟩
  | cons byte bytes ih =>
    obtain ⟨out, hout, hvalue⟩ := ih
    obtain ⟨scaled, hscaled, hscaledValue⟩ := out.mulSmall_spec 256
    obtain ⟨sum, hsum, hsumValue⟩ := scaled.addSmall_spec byte.toUInt32
    refine ⟨sum, ?_, ?_⟩
    · rw [List.reverse_cons, List.foldlM_append, hout, Option.bind_eq_bind, Option.bind_some,
        List.foldlM_cons, Option.bind_eq_bind, hscaled, Option.bind_some, hsum]
      rfl
    · have hbase : ((256 : UInt32).toNat : ℤ) = 256 := rfl
      rw [hsumValue, hscaledValue, hvalue, fromLeBytes, UInt8.toNat_toUInt32, hbase]
      push_cast
      ring

/-- The sign is the highest bit of the last byte. -/
lemma signBit_iff {bytes : List UInt8} {last : UInt8} (hlast : bytes.getLast? = some last) :
    last &&& 0x80 = 0 ↔ 2 * fromLeBytes bytes < 256 ^ bytes.length := by
  have hhigh : ∀ byte : Fin 256, UInt8.ofNat byte &&& 0x80 = 0 ↔ (byte : ℕ) < 128 := by
    decide +kernel
  have hbyte : last &&& 0x80 = 0 ↔ last.toNat < 128 := by
    simpa using hhigh ⟨last.toNat, last.toNat_lt⟩
  obtain ⟨before, rfl⟩ := List.getLast?_eq_some_iff.1 hlast
  have hbefore := fromLeBytes_lt before
  have hvalue : fromLeBytes (before ++ [last]) =
      fromLeBytes before + 256 ^ before.length * last.toNat := by
    rw [fromLeBytes_append]
    rfl
  rw [hbyte, hvalue, List.length_append, List.length_singleton, pow_succ]
  constructor
  · intro hlt
    have := Nat.mul_le_mul_left (256 ^ before.length) (Nat.le_of_lt_succ hlt)
    omega
  · intro hlt
    by_contra hge
    have := Nat.mul_le_mul_left (256 ^ before.length) (not_lt.1 hge)
    omega

/-- The bytes are read with a sign. -/
lemma fromTwosComplementLe_spec (bytes : List UInt8) :
    ∃ out, cpythonBigintFromTwosComplementLe bytes true = some out ∧
      out.toInt = (fromLeBytes bytes : ℤ).bmod (256 ^ bytes.length) := by
  have hlt := fromLeBytes_lt bytes
  rw [cpythonBigintFromTwosComplementLe]
  split
  · next hnone =>
    obtain rfl := List.getLast?_eq_none_iff.1 hnone
    exact ⟨_, rfl, BigInt.zero_toInt⟩
  · next last hlast =>
    rw [if_neg (by decide)]
    split
    · next hclear =>
      have hsmall := (signBit_iff hlast).1 hclear
      obtain ⟨out, hout, hvalue⟩ := fromUnsignedLeBytes_spec bytes
      refine ⟨out, hout, ?_⟩
      rw [hvalue, Int.bmod_eq_of_le_mul_two (by omega) (by omega)]
    · next hset =>
      have hlarge : ¬2 * fromLeBytes bytes < 256 ^ bytes.length := hset ∘ (signBit_iff hlast).2
      obtain ⟨-, hnegated⟩ := negateBytes_spec bytes
      have hpos : 0 < 256 ^ bytes.length := by positivity
      rw [Nat.mod_eq_of_lt (by omega)] at hnegated
      obtain ⟨out, hout, hvalue⟩ := fromUnsignedLeBytes_spec (negateBytes bytes)
      refine ⟨out.negated, by rw [hout]; rfl, ?_⟩
      rw [BigInt.negated_toInt, hvalue, hnegated, ← Int.sub_bmod_right,
        Int.bmod_eq_of_le_mul_two (by omega) (by omega)]
      omega

/-! ## The least number of bytes -/

lemma isPowerOfTwo_spec {value : BigInt} (hpos : 0 < value.toInt) :
    ∃ power, cpythonBigintIsPowerOfTwo value = some power ∧
      (power = true ↔ value.toInt.natAbs.isPowerOfTwo) := by
  obtain ⟨minusOne, hminusOne, hminusOneValue⟩ := value.sub_spec BigInt.one
  obtain ⟨both, hboth, hbits⟩ := value.bitand_spec minusOne
  have hzero : value.isZero = false := BigInt.isZero_eq_false hpos.ne'
  have hsign : value.isNegative = false := by
    rw [← Bool.not_eq_true, BigInt.isNegative_iff]
    exact not_lt.2 hpos.le
  refine ⟨both.isZero, ?_, ?_⟩
  · rw [cpythonBigintIsPowerOfTwo, hzero, hsign, hminusOne]
    simp [hboth]
  · set magnitude := value.toInt.natAbs with hmagnitude
    have hvalue : value.toInt = magnitude := (Int.natAbs_of_nonneg hpos.le).symm
    have hbelow : minusOne.toInt = (magnitude - 1 : ℕ) := by
      rw [hminusOneValue, BigInt.one_toInt, hvalue]
      omega
    have hbothValue : both.toInt = (magnitude &&& (magnitude - 1) : ℕ) := by
      refine TwosComplement.eq_of_testBit_eq fun index => ?_
      rw [hbits, hvalue, hbelow, TwosComplement.testBit_natCast, TwosComplement.testBit_natCast,
        TwosComplement.testBit_natCast, Nat.testBit_and]
    rw [BigInt.isZero_iff, hbothValue, Int.natCast_eq_zero,
      Nat.and_sub_one_eq_zero_iff_isPowerOfTwo (by omega)]

lemma divCeil_le_iff (bits bytes : ℕ) : divCeil bits 8 ≤ bytes ↔ bits ≤ 8 * bytes := by
  rw [divCeil]
  omega

/-- So many bytes have room for the value and a sign. -/
def FitsSigned (value : ℤ) (bytes : ℕ) : Prop :=
  -2 ^ (8 * bytes - 1) ≤ value ∧ value < 2 ^ (8 * bytes - 1)

lemma requiredSignedBytes_spec (value : BigInt) :
    ∃ n, cpythonRequiredSignedBytesForBigint value = some n ∧ 1 ≤ n ∧
      ∀ bytes, 1 ≤ bytes → (n ≤ bytes ↔ FitsSigned value.toInt bytes) := by
  have hbits : value.bitLength = value.toInt.natAbs.size := by
    rw [BigInt.bitLength_eq, BigInt.natAbs_toInt]
  rcases lt_trichotomy value.toInt 0 with hneg | hzero | hpos
  · have hisZero : value.isZero = false := BigInt.isZero_eq_false hneg.ne
    have hisNegative : value.isNegative = true := BigInt.isNegative_iff.2 hneg
    have habs : value.abs.toInt.natAbs = value.toInt.natAbs := by
      rw [BigInt.abs_toInt, Int.natAbs_abs]
    obtain ⟨power, hpower, hiff⟩ : ∃ power, cpythonBigintIsPowerOfTwo value.abs = some power ∧
        (power = true ↔ value.abs.toInt.natAbs.isPowerOfTwo) :=
      isPowerOfTwo_spec (by rw [BigInt.abs_toInt]; exact abs_pos.2 hneg.ne)
    rw [habs] at hiff
    rw [cpythonRequiredSignedBytesForBigint, hisZero, hisNegative, BigInt.bitLength_abs, hbits,
      hpower]
    set magnitude := value.toInt.natAbs with hmagnitude
    have hvalue : value.toInt = -magnitude := by omega
    have hfits : ∀ bytes, FitsSigned value.toInt bytes ↔ magnitude ≤ 2 ^ (8 * bytes - 1) := by
      intro bytes
      have hpow : 0 < (2 : ℤ) ^ (8 * bytes - 1) := by positivity
      rw [FitsSigned, hvalue]
      constructor
      · rintro ⟨hlow, -⟩
        have : (magnitude : ℤ) ≤ 2 ^ (8 * bytes - 1) := by omega
        exact_mod_cast this
      · intro hle
        have : (magnitude : ℤ) ≤ 2 ^ (8 * bytes - 1) := by exact_mod_cast hle
        omega
    cases power with
    | true =>
      obtain ⟨exponent, hexponent⟩ := hiff.1 rfl
      refine ⟨_, rfl, le_max_right _ _, fun bytes hbytes => ?_⟩
      rw [hfits, max_le_iff, divCeil_le_iff, hexponent, Nat.size_pow,
        Nat.pow_le_pow_iff_right (by decide)]
      omega
    | false =>
      refine ⟨_, rfl, le_max_right _ _, fun bytes hbytes => ?_⟩
      have hne : magnitude ≠ 2 ^ (8 * bytes - 1) := fun heq => by
        cases hiff.2 ⟨_, heq⟩
      have hsize : magnitude.size ≤ 8 * bytes - 1 ↔ magnitude < 2 ^ (8 * bytes - 1) := Nat.size_le
      rw [hfits, max_le_iff, divCeil_le_iff]
      omega
  · refine ⟨1, by rw [cpythonRequiredSignedBytesForBigint, BigInt.isZero_iff.2 hzero]; rfl, le_rfl,
      fun bytes hbytes => ?_⟩
    have hpow : 0 < (2 : ℤ) ^ (8 * bytes - 1) := by positivity
    rw [FitsSigned, hzero]
    omega
  · have hisZero : value.isZero = false := BigInt.isZero_eq_false hpos.ne'
    have hisNegative : value.isNegative = false := by
      rw [← Bool.not_eq_true, BigInt.isNegative_iff]
      exact not_lt.2 hpos.le
    rw [cpythonRequiredSignedBytesForBigint, hisZero, hisNegative, hbits]
    set magnitude := value.toInt.natAbs with hmagnitude
    have hvalue : value.toInt = magnitude := by omega
    refine ⟨_, rfl, le_max_right _ _, fun bytes hbytes => ?_⟩
    have hsize : magnitude.size ≤ 8 * bytes - 1 ↔ magnitude < 2 ^ (8 * bytes - 1) := Nat.size_le
    have hcast : (magnitude : ℤ) < 2 ^ (8 * bytes - 1) ↔ magnitude < 2 ^ (8 * bytes - 1) := by
      exact_mod_cast Iff.rfl
    have hpow : 0 < (2 : ℤ) ^ (8 * bytes - 1) := by positivity
    rw [FitsSigned, hvalue, max_le_iff, divCeil_le_iff]
    omega

lemma bmod_emod_of_fits {value : ℤ} {bytes : ℕ} (hbytes : 1 ≤ bytes)
    (hfits : FitsSigned value bytes) : (value % 256 ^ bytes).bmod (256 ^ bytes) = value := by
  have hbase : ((256 ^ bytes : ℕ) : ℤ) = 2 * 2 ^ (8 * bytes - 1) := by
    rw [← pow_succ', Nat.sub_add_cancel (by omega), pow_mul]
    push_cast
    rfl
  have hmod := Int.emod_bmod value (256 ^ bytes)
  obtain ⟨hlow, hhigh⟩ := hfits
  have hself : value.bmod (256 ^ bytes) = value :=
    Int.bmod_eq_of_le_mul_two (by omega) (by omega)
  rw [hself] at hmod
  exact_mod_cast hmod

/-- **A big integer goes to bytes and back.**  The number of bytes it asks for is the least with
room for it and a sign, and any such number gives it back; fewer bytes keep it modulo a power of
two, and bytes read as a number are written as they were. -/
theorem twosComplementLe_roundTrip (value : BigInt) :
    (∃ n, cpythonRequiredSignedBytesForBigint value = some n ∧
        IsLeast {bytes | 1 ≤ bytes ∧ FitsSigned value.toInt bytes} n ∧
        ∀ bytes, n ≤ bytes → cpythonBigintFromTwosComplementLe
          (cpythonBigintToTwosComplementLe value bytes) true = some value) ∧
      (∀ bytes, (cpythonBigintToTwosComplementLe value bytes).length = bytes ∧
        (fromLeBytes (cpythonBigintToTwosComplementLe value bytes) : ℤ) =
          value.toInt % 2 ^ (8 * bytes)) ∧
      ∀ bytes, ∃ read, cpythonBigintFromTwosComplementLe bytes true = some read ∧
        cpythonBigintToTwosComplementLe read bytes.length = bytes := by
  have hbase : ∀ bytes : ℕ, (2 : ℤ) ^ (8 * bytes) = 256 ^ bytes := fun bytes => by
    rw [pow_mul]
    norm_num
  refine ⟨?_, fun bytes => ?_, fun bytes => ?_⟩
  · obtain ⟨n, hn, hpos, hiff⟩ := requiredSignedBytes_spec value
    refine ⟨n, hn, ⟨⟨hpos, (hiff n hpos).1 le_rfl⟩, fun bytes hbytes => ?_⟩, fun bytes hle => ?_⟩
    · exact (hiff bytes hbytes.1).2 hbytes.2
    · have hbytes : 1 ≤ bytes := hpos.trans hle
      obtain ⟨hlength, hvalue⟩ := toTwosComplementLe_spec value bytes
      obtain ⟨read, hread, hreadValue⟩ :=
        fromTwosComplementLe_spec (cpythonBigintToTwosComplementLe value bytes)
      rw [hvalue, hlength, bmod_emod_of_fits hbytes ((hiff bytes hbytes).1 hle)] at hreadValue
      rw [hread, BigInt.toInt_injective hreadValue]
  · rw [hbase]
    exact toTwosComplementLe_spec value bytes
  · obtain ⟨read, hread, hreadValue⟩ := fromTwosComplementLe_spec bytes
    obtain ⟨hlength, hvalue⟩ := toTwosComplementLe_spec read bytes.length
    refine ⟨read, hread, fromLeBytes_inj hlength ?_⟩
    have hmod := Int.bmod_emod (x := (fromLeBytes bytes : ℤ)) (m := 256 ^ bytes.length)
    have hlt : (fromLeBytes bytes : ℤ) < 256 ^ bytes.length := by
      exact_mod_cast fromLeBytes_lt bytes
    push_cast at hmod
    rw [Int.emod_eq_of_lt (Int.natCast_nonneg _) hlt] at hmod
    rw [hreadValue, hmod] at hvalue
    exact_mod_cast hvalue

example : (cpythonRequiredSignedBytesForBigint (BigInt.fromI64 (-128)),
    cpythonRequiredSignedBytesForBigint (BigInt.fromI64 128)) = (some 1, some 2) := by
  decide +kernel

end Pyrs
