import Pyrs.Model.FixedBytes
import Pyrs.Properties.BigIntBytes
import Pyrs.Library.Results

/-!
# Integers to bytes and back

A conversion to a fixed number of bytes succeeds for the values that have room in them, and the
bytes and the value determine each other.
-/

namespace Pyrs

open Decoding

/-! ## The number of bytes -/

namespace BigInt

lemma le_fromLeBytes_of_getLast (before : List UInt8) {last : UInt8} (hlast : last ≠ 0) :
    256 ^ before.length ≤ fromLeBytes (before ++ [last]) := by
  have hpos : 1 ≤ last.toNat := by
    have : last.toNat ≠ 0 := fun h => hlast (UInt8.toNat_inj.1 h)
    omega
  have hsum : fromLeBytes (before ++ [last]) =
      fromLeBytes before + 256 ^ before.length * last.toNat := by
    rw [fromLeBytes_append]
    rfl
  have := Nat.mul_le_mul_left (256 ^ before.length) hpos
  omega

/-- The magnitude has no more bytes than it needs, but one for zero. -/
lemma toAbsLeBytes_cases (a : BigInt) : a.toAbsLeBytes = [0] ∨
    ∃ before last, a.toAbsLeBytes = before ++ [last] ∧ last ≠ 0 := by
  rw [toAbsLeBytes]
  dsimp only
  split
  · exact .inl rfl
  · split
    · exact .inl rfl
    · next hne =>
      have hlast := List.rdropWhile_last_not (· == (0 : UInt8)) _ hne
      exact .inr ⟨_, _, (List.dropLast_append_getLast hne).symm, by simpa using hlast⟩

lemma length_toAbsLeBytes_le_iff (a : BigInt) {n : ℕ} (hn : 0 < n) :
    a.toAbsLeBytes.length ≤ n ↔ a.toInt.natAbs < 256 ^ n := by
  rw [← toAbsLeBytes_spec]
  constructor
  · exact fun hle => (fromLeBytes_lt _).trans_le (Nat.pow_le_pow_right (by decide) hle)
  · rcases a.toAbsLeBytes_cases with hzero | ⟨before, last, hbytes, hlast⟩
    · rw [hzero]
      exact fun _ => hn
    · intro hlt
      have hle := (le_fromLeBytes_of_getLast before hlast).trans_lt (hbytes ▸ hlt)
      have := (Nat.pow_lt_pow_iff_right (by decide)).1 hle
      rw [hbytes, List.length_append, List.length_singleton]
      omega

end BigInt

/-- The values that have room in so many bytes. -/
def InRange (value : ℤ) (length : ℕ) (signed : Bool) : Prop :=
  if signed then
    if length = 0 then value = 0
    else -2 ^ (8 * length - 1) ≤ value ∧ value < 2 ^ (8 * length - 1)
  else 0 ≤ value ∧ value < 2 ^ (8 * length)

/-- The bytes with the lowest first. -/
def lowestFirst (littleEndian : Bool) (bytes : List UInt8) : List UInt8 :=
  if littleEndian then bytes else bytes.reverse

lemma length_lowestFirst (littleEndian : Bool) (bytes : List UInt8) :
    (lowestFirst littleEndian bytes).length = bytes.length := by
  cases littleEndian <;> simp [lowestFirst]

lemma lowestFirst_lowestFirst (littleEndian : Bool) (bytes : List UInt8) :
    lowestFirst littleEndian (lowestFirst littleEndian bytes) = bytes := by
  cases littleEndian <;> simp [lowestFirst]

lemma pow_base (n : ℕ) : (2 : ℤ) ^ (8 * n) = 256 ^ n := by
  rw [pow_mul]
  norm_num

lemma pow_base_half {n : ℕ} (hn : 0 < n) : (256 : ℤ) ^ n = 2 * 2 ^ (8 * n - 1) := by
  rw [← pow_succ', Nat.sub_add_cancel (by omega), pow_base]

/-! ## From bytes -/

lemma signBitSet_eq (bytes : List UInt8) (littleEndian : Bool) :
    (if littleEndian then bytes.getLast? else bytes.head?) =
      (lowestFirst littleEndian bytes).getLast? := by
  cases littleEndian <;> simp [lowestFirst]

/-- The bytes are a number below a power of `256`, and half of these numbers are negative ones. -/
theorem bigintFromBytes_spec {bytes : List UInt8} (hlength : bytes.length < 2 ^ 61)
    (littleEndian signed : Bool) :
    ∃ value, bigintFromBytes bytes littleEndian signed = some value ∧
      value.toInt = (fromLeBytes (lowestFirst littleEndian bytes) : ℤ) -
        if signed ∧ 256 ^ bytes.length ≤ 2 * fromLeBytes (lowestFirst littleEndian bytes)
        then 256 ^ bytes.length else 0 := by
  have hreverse : (if littleEndian then bytes.reverse else bytes) =
      (lowestFirst littleEndian bytes).reverse := by
    cases littleEndian <;> simp [lowestFirst]
  have hlen := length_lowestFirst littleEndian bytes
  obtain ⟨unsigned, hunsigned, hvalue⟩ :=
    fromUnsignedLeBytes_spec (lowestFirst littleEndian bytes)
  have hfold : (lowestFirst littleEndian bytes).reverse.foldlM pushByte BigInt.zero =
      some unsigned := hunsigned
  rw [bigintFromBytes]
  by_cases hempty : bytes = []
  · subst hempty
    refine ⟨BigInt.zero, rfl, ?_⟩
    have hnil : lowestFirst littleEndian [] = [] := by cases littleEndian <;> rfl
    rw [BigInt.zero_toInt, hnil, if_neg (by simp [fromLeBytes])]
    rfl
  · have hne : lowestFirst littleEndian bytes ≠ [] := by
      rw [← List.length_pos_iff, hlen, List.length_pos_iff]
      exact hempty
    have hlast := List.getLast?_eq_some_getLast hne
    have hsign := signBit_iff hlast
    rw [if_neg (by simpa using hempty), hreverse, hfold, Option.bind_eq_bind, Option.bind_some,
      signBitSet_eq, hlast, Option.any_some]
    dsimp only
    rw [hlen] at hsign
    by_cases hnegative : signed = true ∧
        256 ^ bytes.length ≤ 2 * fromLeBytes (lowestFirst littleEndian bytes)
    · have hset : ¬ (lowestFirst littleEndian bytes).getLast hne &&& 0x80 = 0 :=
        fun h => absurd (hsign.1 h) (not_lt.2 hnegative.2)
      have hbits : checkedU64 (bytes.length * 8) = some (bytes.length * 8) :=
        if_pos (by omega)
      obtain ⟨value, hsub, hsubValue⟩ :=
        BigInt.sub_spec unsigned (BigInt.one.shlBits (bytes.length * 8))
      refine ⟨value, ?_, ?_⟩
      · rw [if_pos (by simpa [hnegative.1] using hset), hbits]
        exact hsub
      · rw [hsubValue, hvalue, if_pos hnegative, BigInt.shlBits_toInt, BigInt.one_toInt, one_mul,
          mul_comm bytes.length, pow_base]
    · refine ⟨unsigned, ?_, by rw [hvalue, if_neg hnegative, sub_zero]⟩
      refine if_neg fun h => ?_
      rw [Bool.and_eq_true, bne_iff_ne] at h
      exact hnegative ⟨h.1, not_lt.1 fun hlt => h.2 (hsign.2 hlt)⟩

/-! ## To bytes -/

/-- The value without a sign is that modulo a power of `256`, when the value is in range, and too
large or none when it is not. -/
lemma unsignedValue_spec (value : BigInt) {length : ℕ} (hlength : 0 < length) (signed : Bool) :
    ∃ result, unsignedValue value (length * 8) signed = some result ∧
      (InRange value.toInt length signed →
        ∃ unsigned, result = .ok unsigned ∧ unsigned.toInt = value.toInt % 256 ^ length) ∧
      (¬ InRange value.toInt length signed → (∃ message, result = .error message) ∨
        ∃ unsigned, result = .ok unsigned ∧ 256 ^ length ≤ unsigned.toInt) := by
  have hbase := pow_base_half hlength
  have hhalf : (0 : ℤ) < 2 ^ (8 * length - 1) := by positivity
  rw [unsignedValue]
  cases signed with
  | false =>
    simp only [InRange, Bool.false_eq_true, if_false, pow_base]
    by_cases hnegative : value.isNegative = true
    · have hlt := BigInt.isNegative_iff.1 hnegative
      exact ⟨_, if_pos hnegative, fun h => absurd h.1 (by omega), fun _ => .inl ⟨_, rfl⟩⟩
    · have hnonneg : 0 ≤ value.toInt := not_lt.1 (hnegative ∘ BigInt.isNegative_iff.2)
      refine ⟨_, if_neg hnegative, fun h => ⟨value, rfl, ?_⟩, fun h => .inr ⟨value, rfl, ?_⟩⟩
      · exact (Int.emod_eq_of_lt hnonneg h.2).symm
      · exact not_lt.1 fun hlt => h ⟨hnonneg, hlt⟩
  | true =>
    have hrange : InRange value.toInt length true ↔
        -2 ^ (8 * length - 1) ≤ value.toInt ∧ value.toInt < 2 ^ (8 * length - 1) := by
      rw [InRange, if_pos rfl, if_neg hlength.ne']
    have hlimit : (BigInt.one.shlBits (length * 8 - 1)).toInt = 2 ^ (8 * length - 1) := by
      rw [BigInt.shlBits_toInt, BigInt.one_toInt, one_mul, mul_comm length]
    have hmodulus : (BigInt.one.shlBits (length * 8)).toInt = 256 ^ length := by
      rw [BigInt.shlBits_toInt, BigInt.one_toInt, one_mul, mul_comm length, pow_base]
    obtain ⟨signedMax, hmax, hmaxValue⟩ :=
      BigInt.sub_spec (BigInt.one.shlBits (length * 8 - 1)) BigInt.one
    rw [hlimit, BigInt.one_toInt] at hmaxValue
    rw [hrange, if_pos rfl]
    dsimp only
    have hguard : value.cmpTotal (BigInt.one.shlBits (length * 8 - 1)).negated = .lt ∨
        value.cmpTotal signedMax = .gt ↔
          value.toInt < -2 ^ (8 * length - 1) ∨ 2 ^ (8 * length - 1) - 1 < value.toInt := by
      rw [BigInt.cmpTotal_lt_iff, BigInt.cmpTotal_gt_iff, BigInt.negated_toInt, hlimit, hmaxValue]
    rw [hmax, Option.bind_eq_bind, Option.bind_some]
    by_cases hout : value.toInt < -2 ^ (8 * length - 1) ∨ 2 ^ (8 * length - 1) - 1 < value.toInt
    · exact ⟨_, if_pos (hguard.2 hout), fun h => by omega, fun _ => .inl ⟨_, rfl⟩⟩
    rw [if_neg (hout ∘ hguard.1)]
    by_cases hnegative : value.isNegative = true
    · have hlt := BigInt.isNegative_iff.1 hnegative
      obtain ⟨sum, hsum, hsumValue⟩ := BigInt.add_spec (BigInt.one.shlBits (length * 8)) value
      rw [hmodulus] at hsumValue
      refine ⟨.ok sum, by rw [if_pos hnegative, hsum]; rfl, fun _ => ⟨sum, rfl, ?_⟩,
        fun h => absurd h (by omega)⟩
      rw [hsumValue, ← Int.add_emod_left, Int.emod_eq_of_lt (by omega) (by omega)]
    · have hnonneg : 0 ≤ value.toInt := not_lt.1 (hnegative ∘ BigInt.isNegative_iff.2)
      refine ⟨.ok value, by rw [if_neg hnegative]; rfl, fun _ => ⟨value, rfl, ?_⟩,
        fun h => absurd h (by omega)⟩
      rw [Int.emod_eq_of_lt hnonneg (by omega)]

theorem bigintToFixedBytes_spec (value : BigInt) {length : ℕ} (hlength : length < 2 ^ 61)
    (littleEndian signed : Bool) :
    ∃ result, bigintToFixedBytes value length littleEndian signed = some result ∧
      (InRange value.toInt length signed → ∃ bytes, result = .ok bytes ∧ bytes.length = length ∧
        (fromLeBytes (lowestFirst littleEndian bytes) : ℤ) = value.toInt % 256 ^ length) ∧
      (¬ InRange value.toInt length signed → ∃ message, result = .error message) := by
  rw [bigintToFixedBytes]
  by_cases hempty : length = 0
  · have hrange : InRange value.toInt length signed ↔ value.toInt = 0 := by
      rw [InRange, hempty]
      cases signed with
      | true => simp
      | false =>
        simp only [Bool.false_eq_true, if_false, mul_zero, pow_zero]
        omega
    rw [if_pos hempty, hrange, hempty, ← BigInt.isZero_iff]
    by_cases hzero : value.isZero = true
    · refine ⟨_, if_pos hzero, fun _ => ⟨[], rfl, rfl, ?_⟩, fun h => absurd hzero h⟩
      cases littleEndian <;> simp [lowestFirst, fromLeBytes]
    · exact ⟨_, if_neg hzero, fun h => absurd h hzero, fun _ => ⟨_, rfl⟩⟩
  have hpos : 0 < length := Nat.pos_of_ne_zero hempty
  have hbits : checkedU64 (length * 8) = some (length * 8) := if_pos (by omega)
  obtain ⟨result, hresult, hin, hout⟩ := unsignedValue_spec value hpos signed
  rw [if_neg hempty, hbits]
  dsimp only
  rw [hresult, Option.map_some]
  refine ⟨_, rfl, fun hrange => ?_, fun hrange => ?_⟩
  · obtain ⟨unsigned, rfl, hvalue⟩ := hin hrange
    have hmodulus : (0 : ℤ) < 256 ^ length := by positivity
    have hnonneg := Int.emod_nonneg value.toInt hmodulus.ne'
    have hlt := Int.emod_lt_of_pos value.toInt hmodulus
    have hfits : unsigned.toInt.natAbs < 256 ^ length := by
      zify
      rw [hvalue, abs_of_nonneg hnonneg]
      exact hlt
    have hle := (unsigned.length_toAbsLeBytes_le_iff hpos).2 hfits
    obtain ⟨hresized, hresizedValue⟩ := copyFromSlice_spec length unsigned.toAbsLeBytes
    rw [BigInt.toAbsLeBytes_spec, Nat.mod_eq_of_lt hfits] at hresizedValue
    refine ⟨lowestFirst littleEndian (resize length unsigned.toAbsLeBytes), ?_, ?_, ?_⟩
    · rw [Results.ok_bind, if_neg (not_lt.2 hle)]
      rfl
    · rw [length_lowestFirst]
      exact hresized
    · rw [lowestFirst_lowestFirst]
      refine (congrArg Nat.cast hresizedValue).trans ?_
      rw [Int.natCast_natAbs, hvalue, abs_of_nonneg hnonneg]
  · rcases hout hrange with ⟨message, rfl⟩ | ⟨unsigned, rfl, hlarge⟩
    · exact ⟨message, rfl⟩
    · have hlong : length < unsigned.toAbsLeBytes.length := by
        rw [← not_le, unsigned.length_toAbsLeBytes_le_iff hpos]
        zify
        rw [abs_of_nonneg (le_trans (by positivity) hlarge), not_lt]
        exact hlarge
      exact ⟨_, by rw [Results.ok_bind, if_pos hlong]⟩

/-! ## There and back -/

/-- The remainder of a value in range, read with the sign, is the value. -/
lemma signed_remainder {value : ℤ} {length : ℕ} {signed : Bool}
    (hrange : InRange value length signed) :
    value % 256 ^ length - (if signed ∧ 256 ^ length ≤ 2 * (value % 256 ^ length)
      then 256 ^ length else 0) = value := by
  rcases Nat.eq_zero_or_pos length with rfl | hpos
  · have hzero : value = 0 := by
      cases signed with
      | true => simpa [InRange] using hrange
      | false =>
        simp only [InRange, Bool.false_eq_true, if_false, mul_zero, pow_zero] at hrange
        omega
    simp [hzero]
  have hbase := pow_base_half hpos
  have hhalf : (0 : ℤ) < 2 ^ (8 * length - 1) := by positivity
  cases signed with
  | false =>
    simp only [InRange, Bool.false_eq_true, if_false, pow_base] at hrange
    rw [if_neg (by simp), sub_zero, Int.emod_eq_of_lt hrange.1 hrange.2]
  | true =>
    rw [InRange, if_pos rfl, if_neg hpos.ne'] at hrange
    by_cases hnonneg : 0 ≤ value
    · rw [Int.emod_eq_of_lt hnonneg (by omega), if_neg (fun h => by omega), sub_zero]
    · rw [← Int.add_emod_left, Int.emod_eq_of_lt (by omega) (by omega), if_pos ⟨rfl, by omega⟩]
      omega

/-- What bytes stand for is in range, and its remainder is the number of the bytes. -/
lemma signed_inRange {number : ℤ} {length : ℕ} (hnonneg : 0 ≤ number)
    (hlt : number < 256 ^ length) (signed : Bool) :
    InRange (number - if signed ∧ 256 ^ length ≤ 2 * number then 256 ^ length else 0) length
        signed ∧
      (number - if signed ∧ 256 ^ length ≤ 2 * number then 256 ^ length else 0) % 256 ^ length =
        number := by
  constructor
  · rcases Nat.eq_zero_or_pos length with rfl | hpos
    · have hzero : number = 0 := by
        rw [pow_zero] at hlt
        omega
      cases signed <;> simp [InRange, hzero]
    have hbase := pow_base_half hpos
    cases signed with
    | false =>
      simp only [InRange, Bool.false_eq_true, false_and, if_false, sub_zero, pow_base]
      exact ⟨hnonneg, hlt⟩
    | true =>
      simp only [InRange, if_true, if_neg hpos.ne', true_and]
      split <;> omega
  · split
    · rw [← Int.add_emod_right, sub_add_cancel, Int.emod_eq_of_lt hnonneg hlt]
    · rw [sub_zero, Int.emod_eq_of_lt hnonneg hlt]

/-- **An integer goes to bytes and back.**  For fewer than `2 ^ 61` bytes the conversion succeeds
exactly for the values in range, gives that many bytes, and the bytes give the value; and any bytes
are those of what they stand for. -/
theorem fixedBytes_roundTrip (value : BigInt) (length : ℕ) (bytes : List UInt8)
    (littleEndian signed : Bool) (hlength : length < 2 ^ 61) (hbytes : bytes.length < 2 ^ 61) :
    ((∃ out, bigintToFixedBytes value length littleEndian signed = some (.ok out)) ↔
        InRange value.toInt length signed) ∧
      (∀ out, bigintToFixedBytes value length littleEndian signed = some (.ok out) →
        out.length = length ∧ bigintFromBytes out littleEndian signed = some value) ∧
      ∃ read, bigintFromBytes bytes littleEndian signed = some read ∧
        bigintToFixedBytes read bytes.length littleEndian signed = some (.ok bytes) := by
  obtain ⟨result, hresult, hin, hout⟩ := bigintToFixedBytes_spec value hlength littleEndian signed
  rw [hresult]
  have hrange : ∀ {out}, result = .ok out → InRange value.toInt length signed := by
    rintro out rfl
    by_contra hnot
    obtain ⟨message, hmessage⟩ := hout hnot
    cases hmessage
  refine ⟨⟨fun ⟨out, h⟩ => hrange (Option.some.inj h), fun h => ?_⟩, fun out h => ?_, ?_⟩
  · obtain ⟨out, rfl, -⟩ := hin h
    exact ⟨out, rfl⟩
  · obtain rfl := Option.some.inj h
    have hvalue := hrange rfl
    obtain ⟨same, heq, hlen, hnumber⟩ := hin hvalue
    obtain rfl := Except.ok.inj heq
    have hout : out.length < 2 ^ 61 := hlen ▸ hlength
    obtain ⟨read, hread, hreadValue⟩ := bigintFromBytes_spec hout littleEndian signed
    have hcast : 256 ^ length ≤ 2 * fromLeBytes (lowestFirst littleEndian out) ↔
        (256 : ℤ) ^ length ≤ 2 * (value.toInt % 256 ^ length) := by
      rw [← hnumber]
      exact_mod_cast Iff.rfl
    have hback : read.toInt = value.toInt := by
      rw [hreadValue, hnumber]
      simp only [hcast, hlen, signed_remainder hvalue]
    exact ⟨hlen, by rw [hread, BigInt.toInt_injective hback]⟩
  · obtain ⟨read, hread, hreadValue⟩ := bigintFromBytes_spec hbytes littleEndian signed
    have hlt := fromLeBytes_lt (lowestFirst littleEndian bytes)
    rw [length_lowestFirst] at hlt
    have hcastLt : (fromLeBytes (lowestFirst littleEndian bytes) : ℤ) < 256 ^ bytes.length := by
      exact_mod_cast hlt
    obtain ⟨hvalue, hmod⟩ := signed_inRange (Int.natCast_nonneg _) hcastLt signed
    have hcast : (256 : ℤ) ^ bytes.length ≤ 2 * (fromLeBytes (lowestFirst littleEndian bytes) : ℤ) ↔
        256 ^ bytes.length ≤ 2 * fromLeBytes (lowestFirst littleEndian bytes) := by
      exact_mod_cast Iff.rfl
    simp only [hcast, ← hreadValue] at hvalue hmod
    obtain ⟨written, hwritten, hwrittenIn, -⟩ :=
      bigintToFixedBytes_spec read hbytes littleEndian signed
    obtain ⟨out, rfl, hlen, hnumber⟩ := hwrittenIn hvalue
    have hsame : lowestFirst littleEndian out = lowestFirst littleEndian bytes := by
      refine fromLeBytes_inj (by rw [length_lowestFirst, length_lowestFirst, hlen]) ?_
      rw [hmod] at hnumber
      exact_mod_cast hnumber
    refine ⟨read, hread, hwritten.trans ?_⟩
    rw [← lowestFirst_lowestFirst littleEndian out, hsame, lowestFirst_lowestFirst]

theorem fixedBytes_roundTrip_one :
    ((∃ out, bigintToFixedBytes BigInt.one 2 true true = some (.ok out)) ↔
        InRange BigInt.one.toInt 2 true) ∧
      (∀ out, bigintToFixedBytes BigInt.one 2 true true = some (.ok out) →
        out.length = 2 ∧ bigintFromBytes out true true = some BigInt.one) ∧
      ∃ read, bigintFromBytes [0, 0x80] true true = some read ∧
        bigintToFixedBytes read [(0 : UInt8), 0x80].length true true = some (.ok [0, 0x80]) :=
  fixedBytes_roundTrip BigInt.one 2 [0, 0x80] true true (by decide) (by decide)

/-- Zero is in range of any number of bytes, but the number of bits overflows. -/
theorem bigintToFixedBytes_bitOverflow :
    bigintToFixedBytes BigInt.zero (2 ^ 61) true false = some (.error "int too big to convert") ∧
      InRange BigInt.zero.toInt (2 ^ 61) false := by
  refine ⟨rfl, ?_⟩
  rw [BigInt.zero_toInt, InRange, if_neg (by decide)]
  exact ⟨le_rfl, by positivity⟩

end Pyrs
