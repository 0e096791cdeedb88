import Pyrs.Model.KeyValues
import Pyrs.Properties.NumericKeys

/-!
# Equal keys have equal hashes

Two values that the containers take for equal keys have the same lookup hash, as long as the
comparison meets no instance that equals bytes which are not its backing value, and no equal
frozensets of which the members cannot be paired.

The hash is not compared with itself.  `KeyValue.Compared` are the pairs that a comparison of two
values finds equal on its way, and the condition asks of each pair that the bytes which are compared
are the bytes which are hashed.  The induction is on the size of the two values.
-/

namespace Pyrs

open Decoding Binary64

/-! ## Numbers -/

/-- The bits that are hashed of equal floats are the same. -/
lemma normalizedBits_congr {x y : Binary64} (h : x.eq y = true) :
    normalizedBits x = normalizedBits y := by
  obtain ⟨-, -, rfl | ⟨hx, hy⟩⟩ := eq_iff.1 h
  · rfl
  · rw [normalizedBits, normalizedBits, if_pos hx, if_pos hy]

/-- A converted integer is not the negative zero. -/
lemma normalizedBits_ofInt (n : ℤ) : normalizedBits (ofInt n) = (ofInt n).bits := by
  by_cases hzero : n = 0
  · subst hzero
    decide
  have habs : n.natAbs ≠ 0 := Int.natAbs_ne_zero.2 hzero
  have hnonzero : (ofInt n).isZero = false := by
    have hfield : 2 ^ 52 ≤ min ((n.natAbs.log2 + 1022) * 2 ^ 52 + significand n.natAbs)
        (2047 * 2 ^ 52) := by omega
    have hlt : min ((n.natAbs.log2 + 1022) * 2 ^ 52 + significand n.natAbs) (2047 * 2 ^ 52) <
        2 ^ 63 := by omega
    have hexponent : (ofInt n).exponent ≠ 0 := by
      rw [ofInt, ofNat, if_neg habs, exponent, toNat_pack _ hlt]
      split <;> omega
    simp [isZero, hexponent]
  rw [normalizedBits, hnonzero]
  rfl

/-- The limbs of a representable number add up to it without a rounding. -/
lemma foldr_limbs (n : ℕ) (h : Representable n) (hlog : n.log2 < 1024) :
    (Nat.digits (2 ^ 32) n).foldr (fun limb value => (value.scaleNat (2 ^ 32)).addNat limb)
      (ofNat false 0) = ofNat false n := by
  induction n using Nat.strong_induction_on with
  | _ n ih =>
    by_cases hn : n = 0
    · subst hn
      rw [Nat.digits_zero]
      rfl
    have hle : n / 2 ^ 32 * 2 ^ 32 ≤ n := Nat.div_mul_le_self n _
    have hlt : n / 2 ^ 32 < n := Nat.div_lt_self (Nat.pos_of_ne_zero hn) (by decide)
    have hmono : ∀ {m : ℕ}, m ≤ n → m.log2 < 1024 := by
      intro m hm
      by_cases hzero : m = 0
      · subst hzero
        decide
      · exact ((Nat.le_log2 hn).2 ((Nat.log2_self_le hzero).trans hm)).trans_lt hlog
    rw [Nat.digits_def' (by decide) (Nat.pos_of_ne_zero hn), List.foldr_cons,
      ih _ hlt (h.div 32) (hmono hlt.le), addNat_scaleNat (h.div 32) (hmono hle), Nat.div_add_mod']

/-- An integer that a float stands for is representable. -/
lemma representable_of_fromF64Integral {x : Binary64} {n : ℤ} (h : fromF64Integral x = some n) :
    Representable n.natAbs ∧ n.natAbs.log2 < 1024 := by
  have hexponent := x.exponent_lt
  have hfraction := x.fraction_lt
  rw [fromF64Integral] at h
  split at h
  · cases h
  rename_i hfinite
  have hmax : x.exponent ≠ 2047 := by simpa [isFinite] using hfinite
  split at h
  · obtain rfl := Option.some.inj h
    exact ⟨⟨0, 0, by decide, rfl⟩, by decide⟩
  split at h
  · cases h
  split at h
  · obtain rfl := Option.some.inj h
    exact ⟨⟨0, 0, by decide, rfl⟩, by decide⟩
  obtain ⟨magnitude, hshift, rfl⟩ := Option.map_eq_some_iff.1 h
  have habs : (signed x.sign magnitude).natAbs = magnitude := by
    rw [signed]
    split
    · rw [Int.natAbs_neg, Int.natAbs_natCast]
    · exact Int.natAbs_natCast _
  rw [habs]
  rw [shiftMantissa] at hshift
  split at hshift
  · obtain rfl := Option.some.inj hshift
    rw [Nat.shiftLeft_eq]
    have hlog := @log2_mul_two_pow (2 ^ 52 + x.fraction) (by omega) (by omega)
      (x.exponent - 1075)
    exact ⟨⟨_, _, by omega, rfl⟩, by omega⟩
  · split at hshift
    · cases hshift
    · obtain rfl := Option.some.inj hshift
      have hlt : (2 ^ 52 + x.fraction) >>> (1075 - x.exponent) < 2 ^ 53 := by
        rw [Nat.shiftRight_eq_div_pow]
        exact (Nat.div_le_self _ _).trans_lt (by omega)
      refine ⟨⟨_, 0, hlt, by rw [pow_zero, Nat.mul_one]⟩, ?_⟩
      by_cases hzero : (2 ^ 52 + x.fraction) >>> (1075 - x.exponent) = 0
      · rw [hzero]
        decide
      · have hlog := (Nat.log2_lt hzero).2 hlt
        omega

lemma exactF64_of_fromF64Integral {x : Binary64} {n : ℤ} (h : fromF64Integral x = some n) :
    exactF64 n = some (ofInt n) := by
  obtain ⟨hrepresentable, hlog⟩ := representable_of_fromF64Integral h
  have hfloat : bigIntToF64 n = ofInt n := by
    rw [bigIntToF64, foldr_limbs _ hrepresentable hlog, ofInt]
    by_cases hzero : n = 0
    · subst hzero
      decide
    · exact withSign_ofNat _ (Int.natAbs_ne_zero.2 hzero)
  have hintegral : fromF64Integral (ofInt n) = some n :=
    (fromF64Integral_congr (ofInt_of_fromF64Integral h)).trans h
  have hfinite : (ofInt n).isFinite = true := by
    by_contra hinfinite
    rw [fromF64Integral, Bool.eq_false_iff.2 hinfinite] at hintegral
    cases hintegral
  rw [exactF64, hfloat, hfinite, hintegral]
  simp

section Numbers

variable (hasher : List UInt8 → UInt64)

/-- The hash of the bits of a number. -/
def bitsHash (bits : UInt64) : Option UInt64 := some (hashMix64 (((1 : UInt64) <<< 56) ^^^ bits))

lemma numberHash_of_bits {value : Number} {bits : UInt64}
    (h : fastNumericHashBits value = some bits) : numberHash hasher value = bitsHash bits := by
  unfold numberHash
  simp only [h]
  rfl

lemma bigIntToI64_toInt (n : Int64) : bigIntToI64 n.toInt = some n := by
  rw [bigIntToI64, if_pos ⟨n.le_toInt, n.toInt_lt⟩, Int64.ofInt_toInt]

lemma toInt_of_bigIntToI64 {n : ℤ} {small : Int64} (h : bigIntToI64 n = some small) :
    small.toInt = n := by
  rw [bigIntToI64] at h
  split at h
  · rename_i hrange
    obtain rfl := Option.some.inj h
    exact Int64.toInt_ofInt_of_le hrange.1 hrange.2
  · cases h

/-- A key that converts to a float is hashed as the float. -/
lemma numberHash_convertsTo {a : Number} {x : Binary64} (h : a.ConvertsTo x) :
    numberHash hasher a = bitsHash (normalizedBits x) := by
  have hconverted : ∀ n : ℤ, (ofInt n).eq x = true → (ofInt n).bits = normalizedBits x :=
    fun n hn => (normalizedBits_ofInt n).symm.trans (normalizedBits_congr hn)
  cases a with
  | bool value =>
    rw [numberHash_of_bits hasher rfl]
    exact congrArg bitsHash (hconverted _ h)
  | int value =>
    rw [numberHash_of_bits hasher rfl]
    exact congrArg bitsHash (hconverted _ h)
  | bigInt value =>
    have hvalue := hconverted value (ofInt_of_fromF64Integral h)
    cases hsmall : bigIntToI64 value with
    | some small =>
      refine (numberHash_of_bits hasher (by rw [fastNumericHashBits, hsmall])).trans ?_
      rw [Number.int64ToF64, toInt_of_bigIntToI64 hsmall, hvalue]
    | none =>
      refine (numberHash_of_bits hasher (by
        rw [fastNumericHashBits, hsmall, exactF64_of_fromF64Integral h]
        rfl)).trans ?_
      rw [normalizedBits_ofInt, hvalue]
  | float value => exact h.elim

/-- Keys of one integer that are no floats have the same hash. -/
lemma numberHash_exact {a b : Number} {m : ℤ} (ha : a.exact = some m) (hb : b.exact = some m) :
    numberHash hasher a = numberHash hasher b := by
  have hsmall : ∀ {c : Number}, c.exact = some m → (∀ n : ℤ, c ≠ .bigInt n) →
      ∃ n : Int64, n.toInt = m ∧ numberHash hasher c = bitsHash (Number.int64ToF64 n).bits := by
    intro c hc hne
    cases c with
    | bool value =>
      obtain rfl := Option.some.inj hc
      refine ⟨if value then 1 else 0, by cases value <;> rfl, ?_⟩
      rw [numberHash_of_bits hasher rfl]
      cases value <;> rfl
    | int value =>
      obtain rfl := Option.some.inj hc
      exact ⟨value, rfl, numberHash_of_bits hasher rfl⟩
    | bigInt value => exact absurd rfl (hne value)
    | float value => cases hc
  have hbig : ∀ n : Int64, numberHash hasher (.bigInt n.toInt) =
      bitsHash (Number.int64ToF64 n).bits := fun n =>
    numberHash_of_bits hasher (by rw [fastNumericHashBits, bigIntToI64_toInt])
  by_cases hbigA : ∃ n, a = .bigInt n
  · obtain ⟨n, rfl⟩ := hbigA
    obtain rfl := Option.some.inj ha
    by_cases hbigB : ∃ k, b = .bigInt k
    · obtain ⟨k, rfl⟩ := hbigB
      obtain rfl := Option.some.inj hb
      rfl
    · obtain ⟨k, rfl, hk⟩ := hsmall hb fun k hk => hbigB ⟨k, hk⟩
      rw [hk, hbig]
  · obtain ⟨n, rfl, hn⟩ := hsmall ha fun n hn => hbigA ⟨n, hn⟩
    by_cases hbigB : ∃ k, b = .bigInt k
    · obtain ⟨k, rfl⟩ := hbigB
      obtain rfl := Option.some.inj hb
      rw [hn, hbig]
    · obtain ⟨k, hkn, hk⟩ := hsmall hb fun k hk => hbigB ⟨k, hk⟩
      obtain rfl := Int64.toInt_inj.1 hkn
      rw [hn, hk]

lemma numberHash_congr {a b : Number} (h : a.keyEqual b = true) :
    numberHash hasher a = numberHash hasher b := by
  obtain ⟨m, hm⟩ | ⟨x, rfl⟩ := a.exact_cases
  · obtain ⟨n, hn⟩ | ⟨y, rfl⟩ := b.exact_cases
    · obtain rfl := (Number.keyEqual_exact hm hn).1 h
      exact numberHash_exact hasher hm hn
    · exact numberHash_convertsTo hasher ((Number.keyEqual_float_right hm y).1 h)
  · obtain ⟨n, hn⟩ | ⟨y, rfl⟩ := b.exact_cases
    · exact (numberHash_convertsTo hasher ((Number.keyEqual_float_left hn x).1 h)).symm
    · obtain heq | ⟨-, rfl⟩ := (Number.keyEqual_floats x y).1 h
      · exact congrArg bitsHash (normalizedBits_congr heq)
      · rfl

end Numbers

/-! ## Comparisons -/

namespace KeyValue

/-- The bytes of a value that equality compares. -/
def payload : KeyValue → Option (List UInt8)
  | .instanceObject _ attrs => instanceBytesStorage attrs
  | .bytes values => some values
  | _ => Option.none

/-- The value that is hashed: that behind an instance, or the value itself. -/
def hashed (value : KeyValue) : KeyValue := value.backing.getD value

/-- The pairs of values that the comparison of two equal values takes for equal next. -/
inductive Step (hasher : List UInt8 → UInt64) : KeyValue × KeyValue → KeyValue × KeyValue → Prop
  | item (left right : List KeyValue) (a b : KeyValue) (h : (a, b) ∈ left.zip right)
      (hequal : valueKeyEqual hasher a b = true) : Step hasher (.tuple left, .tuple right) (a, b)
  | member (left right : List KeyValue) (a b : KeyValue) (ha : a ∈ left) (hb : b ∈ right)
      (hequal : valueKeyEqual hasher a b = true) :
      Step hasher (.frozenSet left, .frozenSet right) (a, b)
  | left (a b value : KeyValue) (ha : a.backing = some value)
      (hequal : valueKeyEqual hasher value b = true) : Step hasher (a, b) (value, b)
  | right (a b value : KeyValue) (hb : b.backing = some value)
      (hequal : valueKeyEqual hasher a value = true) : Step hasher (a, b) (a, value)

/-- The comparison of two equal values takes two others for equal. -/
def Compared (hasher : List UInt8 → UInt64) (a b : KeyValue) : KeyValue × KeyValue → Prop :=
  Relation.ReflTransGen (Step hasher) (a, b)

/-- Instances with one identity are one object. -/
def SameObject (a b : KeyValue) : Prop :=
  ∀ id left right, a = .instanceObject id left → b = .instanceObject id right → left = right

/-- Two equal values are hashed alike: where equality compares their bytes, the values that are
hashed are the same; and where it searches the members of a frozenset in another one, it does not
find one member twice. -/
structure Hashable (hasher : List UInt8 → UInt64) (a b : KeyValue) : Prop where
  storage : ∀ values, a.payload = some values → b.payload = some values → a.hashed = b.hashed
  unshared : ∀ left right, a = .frozenSet left → b = .frozenSet right →
    left.Pairwise fun u u' => ∀ v ∈ right,
      ¬(valueKeyEqual hasher v u = true ∧ valueKeyEqual hasher v u' = true)

end KeyValue

/-! ## Equal values -/

section Values

variable (hasher : List UInt8 → UInt64)

/-- Where both values have a hash, it is the same. -/
def Agree (a b : KeyValue) : Prop :=
  ∀ x y, valueHashKey hasher a = some x → valueHashKey hasher b = some y → x = y

variable {hasher}

lemma agree_of_eq {a b : KeyValue} (h : valueHashKey hasher a = valueHashKey hasher b) :
    Agree hasher a b :=
  fun _ _ hx hy => Option.some.inj (hx.symm.trans (h.trans hy))

lemma valueHashKey_backing {value other : KeyValue} (h : value.backing = some other) :
    valueHashKey hasher value = valueHashKey hasher other := by
  cases value with
  | instanceObject id attrs =>
    have hbacking : KeyValue.instanceHashableBackingValue attrs = some other := h
    rw [valueHashKey]
    split
    · rename_i found hfound
      rw [hbacking] at hfound
      rw [Option.some.inj hfound]
    · rename_i hnone
      rw [hbacking] at hnone
      cases hnone
  | _ => cases h

lemma hashItems_eq {values : List KeyValue} {hashes : List UInt64}
    (h : hashItems hasher values = some hashes) :
    values.map (valueHashKey hasher) = hashes.map some := by
  induction values generalizing hashes with
  | nil =>
    rw [hashItems] at h
    obtain rfl := Option.some.inj h
    rfl
  | cons value values ih =>
    rw [hashItems] at h
    obtain ⟨hash, hhash, h⟩ := Option.bind_eq_some_iff.1 h
    obtain ⟨rest, hrest, h⟩ := Option.bind_eq_some_iff.1 h
    obtain rfl := Option.some.inj h
    rw [List.map_cons, List.map_cons, hhash, ih hrest]

/-- Values that agree item by item have the same hashes. -/
lemma map_hash_eq {left right : List KeyValue} {x y : List UInt64}
    (h : List.Forall₂ (Agree hasher) left right)
    (hx : left.map (valueHashKey hasher) = x.map some)
    (hy : right.map (valueHashKey hasher) = y.map some) : x = y := by
  induction h generalizing x y with
  | nil =>
    obtain rfl := List.map_eq_nil_iff.1 hx.symm
    obtain rfl := List.map_eq_nil_iff.1 hy.symm
    rfl
  | cons hab _ ih =>
    cases x with
    | nil => cases hx
    | cons x xs =>
      cases y with
      | nil => cases hy
      | cons y ys =>
        obtain ⟨hx, hxs⟩ := List.cons.inj hx
        obtain ⟨hy, hys⟩ := List.cons.inj hy
        rw [hab x y hx hy, ih hxs hys]

/-- Members that agree in some order have the same hashes in some order, and the same fold. -/
lemma foldl_hash_eq {left right matched : List KeyValue} {x y : List UInt64}
    (h : List.Forall₂ (Agree hasher) left matched) (hperm : matched.Perm right)
    (hx : left.map (valueHashKey hasher) = x.map some)
    (hy : right.map (valueHashKey hasher) = y.map some) :
    x.foldl (· ^^^ ·) 0 = y.foldl (· ^^^ ·) 0 := by
  have hmapped := hperm.map (valueHashKey hasher)
  rw [hy] at hmapped
  have hsome : ∀ z : List UInt64, (z.map some).filterMap id = z := fun z => by
    rw [List.filterMap_map]
    exact List.filterMap_some
  have hz : matched.map (valueHashKey hasher) =
      ((matched.map (valueHashKey hasher)).filterMap id).map some := by
    have hall : ∀ hash ∈ matched.map (valueHashKey hasher), hash.isSome := by
      intro hash hhash
      obtain ⟨z, -, rfl⟩ := List.mem_map.1 (hmapped.mem_iff.1 hhash)
      rfl
    generalize matched.map (valueHashKey hasher) = hashes at hall
    induction hashes with
    | nil => rfl
    | cons hash hashes ih =>
      obtain ⟨z, rfl⟩ := Option.isSome_iff_exists.1 (hall hash List.mem_cons_self)
      have hcons : (some z :: hashes).filterMap id = z :: hashes.filterMap id := rfl
      rw [hcons, List.map_cons, ← ih fun other hother => hall other (List.mem_cons_of_mem _ hother)]
  have heq := map_hash_eq h hx hz
  have hperm' : x.Perm y := by
    rw [heq, ← hsome y]
    exact hmapped.filterMap id
  exact hperm'.foldl_eq 0

/-! ### What equality compares -/

lemma valueEqItems_zip {left right : List KeyValue} (h : valueEqItems hasher left right = true) :
    left.length = right.length ∧ ∀ p ∈ left.zip right, valueEq hasher p.1 p.2 = true := by
  induction left generalizing right with
  | nil =>
    cases right with
    | nil => exact ⟨rfl, fun p hp => (List.not_mem_nil hp).elim⟩
    | cons b right => simp [valueEqItems] at h
  | cons a left ih =>
    cases right with
    | nil => simp [valueEqItems] at h
    | cons b right =>
      rw [valueEqItems, Bool.and_eq_true] at h
      obtain ⟨hlength, hitems⟩ := ih h.2
      refine ⟨congrArg (· + 1) hlength, fun p hp => ?_⟩
      obtain rfl | hp := List.mem_cons.1 hp
      · exact h.1
      · exact hitems p hp

lemma keyEqualItems_zip {left right : List KeyValue} (h : keyEqualItems hasher left right = true) :
    ∀ p ∈ left.zip right, valueKeyEqual hasher p.1 p.2 = true := by
  induction left generalizing right with
  | nil => exact fun p hp => (List.not_mem_nil hp).elim
  | cons a left ih =>
    cases right with
    | nil => exact fun p hp => (List.not_mem_nil hp).elim
    | cons b right =>
      rw [keyEqualItems, Bool.and_eq_true] at h
      intro p hp
      obtain rfl | hp := List.mem_cons.1 hp
      · exact h.1
      · exact ih h.2 p hp

/-- The items of the flags that are not set. -/
def unmatched (items : List KeyValue) (flags : List Bool) : List KeyValue :=
  ((items.zip flags).filter fun item => !item.2).map Prod.fst

lemma unmatched_cons (item : KeyValue) (items : List KeyValue) (matched : Bool)
    (flags : List Bool) : unmatched (item :: items) (matched :: flags) =
      if matched then unmatched items flags else item :: unmatched items flags := by
  cases matched <;> rfl

lemma unmatched_replicate (items : List KeyValue) :
    unmatched items (List.replicate items.length false) = items := by
  induction items with
  | nil => rfl
  | cons item items ih =>
    rw [List.length_cons, List.replicate_succ, unmatched_cons, ih]
    rfl

lemma matchOne_unmatched {value : KeyValue} {items : List KeyValue} {flags after : List Bool}
    (h : matchOne hasher value items flags = some after) :
    ∃ item, valueKeyEqual hasher value item = true ∧
      (unmatched items flags).Perm (item :: unmatched items after) := by
  induction items generalizing flags after with
  | nil => simp [matchOne] at h
  | cons item items ih =>
    cases flags with
    | nil => simp [matchOne] at h
    | cons matched flags =>
      rw [matchOne] at h
      split at h
      · rename_i hfound
        obtain rfl := Option.some.inj h
        rw [Bool.and_eq_true, Bool.not_eq_true'] at hfound
        obtain ⟨rfl, hequal⟩ := hfound
        exact ⟨item, hequal, by rw [unmatched_cons, unmatched_cons]; exact .refl _⟩
      · obtain ⟨rest, hrest, rfl⟩ := Option.map_eq_some_iff.1 h
        obtain ⟨found, hequal, hperm⟩ := ih hrest
        refine ⟨found, hequal, ?_⟩
        rw [unmatched_cons, unmatched_cons]
        cases matched with
        | true => exact hperm
        | false => exact (hperm.cons item).trans (.swap _ _ _)

/-- The loop pairs the values with items of which none is taken twice. -/
lemma matchAll_paired {values items : List KeyValue} {flags : List Bool}
    (h : matchAll hasher values items flags = true) :
    ∃ matched rest, (matched ++ rest).Perm (unmatched items flags) ∧
      List.Forall₂ (fun u v => valueKeyEqual hasher u v = true) values matched := by
  induction values generalizing flags with
  | nil => exact ⟨[], _, .refl _, .nil⟩
  | cons value values ih =>
    rw [matchAll] at h
    split at h
    · rename_i after hafter
      obtain ⟨item, hequal, hperm⟩ := matchOne_unmatched hafter
      obtain ⟨matched, rest, hrest, hforall⟩ := ih h
      exact ⟨item :: matched, rest, (hrest.cons item).trans hperm.symm, .cons hequal hforall⟩
    · cases h

/-- The pairs of values that equality takes for equal. -/
inductive Equal (hasher : List UInt8 → UInt64) : KeyValue → KeyValue → Prop
  | refl (a : KeyValue) : Equal hasher a a
  | number (a b : Number) (h : a.eq b = true) : Equal hasher (.number a) (.number b)
  | tuple (left right : List KeyValue) (h : valueEqItems hasher left right = true) :
      Equal hasher (.tuple left) (.tuple right)
  | frozenSet (left right : List KeyValue) (h : left.length = right.length)
      (hall : containsAll hasher right left = true) :
      Equal hasher (.frozenSet left) (.frozenSet right)
  | payload (a b : KeyValue) (values : List UInt8) (ha : a.payload = some values)
      (hb : b.payload = some values) : Equal hasher a b
  | byteArrayLeft (values : List UInt8) (b : KeyValue) : Equal hasher (.byteArray values) b
  | byteArrayRight (a : KeyValue) (values : List UInt8) : Equal hasher a (.byteArray values)
  | identity (id : UInt64) (left right : List (String × KeyValue)) :
      Equal hasher (.instanceObject id left) (.instanceObject id right)

lemma equal_of_valueEq {a b : KeyValue} (h : valueEq hasher a b = true) : Equal hasher a b := by
  unfold valueEq at h
  split at h
  · exact .refl _
  · exact .number _ _ h
  · rw [Bool.and_eq_true, beq_iff_eq, beq_iff_eq] at h
    rename_i aReal aImag bReal bImag
    obtain ⟨hreal, himag⟩ := h
    obtain ⟨aReal⟩ := aReal
    obtain ⟨aImag⟩ := aImag
    obtain rfl := hreal
    obtain rfl := himag
    exact .refl _
  · rw [beq_iff_eq] at h
    subst h
    exact .refl _
  · exact .tuple _ _ h
  · rw [Bool.and_eq_true, beq_iff_eq] at h
    exact .frozenSet _ _ h.1 h.2
  · rw [beq_iff_eq] at h
    subst h
    exact .refl _
  · exact .byteArrayLeft _ _
  · exact .byteArrayRight _ _
  · exact .byteArrayLeft _ _
  · split at h
    · rename_i hleft hright
      rw [beq_iff_eq] at h
      subst h
      exact .payload _ _ _ hleft hright
    · rw [beq_iff_eq] at h
      subst h
      exact .identity _ _ _
  · exact .byteArrayRight _ _
  · exact .byteArrayLeft _ _
  · rw [beq_iff_eq] at h
    exact .payload _ _ _ h rfl
  · rw [beq_iff_eq] at h
    exact .payload _ _ _ rfl h
  · cases h

lemma valueKeyEqual_of_valueEq {a b : KeyValue} (h : valueEq hasher a b = true) :
    valueKeyEqual hasher a b = true := by
  rw [valueKeyEqual, h]
  rfl

/-- The pairs of values that key equality takes for equal. -/
inductive KeyEqual (hasher : List UInt8 → UInt64) : KeyValue → KeyValue → Prop
  | equal (a b : KeyValue) (h : valueEq hasher a b = true) : KeyEqual hasher a b
  | left (a b value : KeyValue) (ha : a.backing = some value)
      (h : valueKeyEqual hasher value b = true) : KeyEqual hasher a b
  | right (a b value : KeyValue) (hb : b.backing = some value)
      (h : valueKeyEqual hasher a value = true) : KeyEqual hasher a b
  | number (a b : Number) (h : a.keyEqual b = true) : KeyEqual hasher (.number a) (.number b)
  | complex (aReal aImag bReal bImag : Binary64) (hreal : floatKeyEqual aReal bReal = true)
      (himag : floatKeyEqual aImag bImag = true) :
      KeyEqual hasher (.complex aReal aImag) (.complex bReal bImag)
  | tuple (left right : List KeyValue) (hlength : left.length = right.length)
      (h : keyEqualItems hasher left right = true) : KeyEqual hasher (.tuple left) (.tuple right)
  | frozenSet (left right : List KeyValue) (hlength : left.length = right.length)
      (h : matchAll hasher left right (List.replicate right.length false) = true) :
      KeyEqual hasher (.frozenSet left) (.frozenSet right)

lemma keyEqual_of_valueKeyEqual {a b : KeyValue} (h : valueKeyEqual hasher a b = true) :
    KeyEqual hasher a b := by
  rw [valueKeyEqual, Bool.or_eq_true] at h
  obtain h | h := h
  · exact .equal _ _ h
  split at h
  · exact .left _ _ _ ‹_› h
  split at h
  · exact .right _ _ _ ‹_› h
  split at h
  · exact .number _ _ h
  · rw [Bool.and_eq_true] at h
    exact .complex _ _ _ _ h.1 h.2
  · rw [Bool.and_eq_true, beq_iff_eq] at h
    exact .tuple _ _ h.1 h.2
  · rw [Bool.and_eq_true, beq_iff_eq] at h
    exact .frozenSet _ _ h.1 h.2
  · cases h

/-! ### Equal keys -/

lemma normalizedBits_floatKeyEqual {x y : Binary64} (h : floatKeyEqual x y = true) :
    normalizedBits x = normalizedBits y := by
  rw [floatKeyEqual, Bool.or_eq_true, Bool.and_eq_true, Bool.and_eq_true, beq_iff_eq] at h
  obtain heq | ⟨-, hbits⟩ := h
  · exact normalizedBits_congr heq
  · obtain ⟨bits⟩ := x
    obtain rfl := hbits
    rfl

lemma agree_number {a b : Number} (h : a.keyEqual b = true) :
    Agree hasher (.number a) (.number b) := by
  refine agree_of_eq ?_
  rw [valueHashKey, valueHashKey]
  exact numberHash_congr hasher h

lemma agree_tuple {left right : List KeyValue} (h : List.Forall₂ (Agree hasher) left right) :
    Agree hasher (.tuple left) (.tuple right) := by
  intro x y hx hy
  rw [valueHashKey] at hx hy
  obtain ⟨xs, hxs, rfl⟩ := Option.map_eq_some_iff.1 hx
  obtain ⟨ys, hys, rfl⟩ := Option.map_eq_some_iff.1 hy
  rw [map_hash_eq h (hashItems_eq hxs) (hashItems_eq hys)]

lemma agree_frozenSet {left right matched : List KeyValue} (hlength : left.length = right.length)
    (h : List.Forall₂ (Agree hasher) left matched) (hperm : matched.Perm right) :
    Agree hasher (.frozenSet left) (.frozenSet right) := by
  intro x y hx hy
  rw [valueHashKey] at hx hy
  obtain ⟨xs, hxs, rfl⟩ := Option.map_eq_some_iff.1 hx
  obtain ⟨ys, hys, rfl⟩ := Option.map_eq_some_iff.1 hy
  rw [foldl_hash_eq h hperm (hashItems_eq hxs) (hashItems_eq hys), hlength]

lemma valueHashKey_hashed (value : KeyValue) :
    valueHashKey hasher value.hashed = valueHashKey hasher value := by
  unfold KeyValue.hashed
  cases hbacking : value.backing with
  | none => rfl
  | some other => exact (valueHashKey_backing hbacking).symm

/-- A search in the index finds a member with the hash of the value. -/
lemma exists_of_contains {hash : UInt64} {items : List KeyValue} {value : KeyValue}
    (h : contains hasher (some hash) items value = true) :
    ∃ item ∈ items, valueHashKey hasher item = some hash ∧
      valueKeyEqual hasher item value = true := by
  induction items with
  | nil => simp [contains] at h
  | cons item items ih =>
    rw [contains, Bool.or_eq_true, Bool.and_eq_true, Option.isNone_some, Bool.false_or,
      beq_iff_eq] at h
    obtain ⟨hhash, hequal⟩ | h := h
    · exact ⟨item, List.mem_cons_self, hhash, hequal⟩
    · obtain ⟨found, hfound, hspec⟩ := ih h
      exact ⟨found, List.mem_cons_of_mem _ hfound, hspec⟩

/-- Where no member is found twice, the members that are found have the same hashes. -/
lemma containsAll_hashes {left right : List KeyValue} (h : containsAll hasher right left = true)
    (hhashes : ∀ value ∈ left, (valueHashKey hasher value).isSome)
    (hunshared : left.Pairwise fun u u' => ∀ v ∈ right,
      ¬(valueKeyEqual hasher v u = true ∧ valueKeyEqual hasher v u' = true)) :
    ∃ matched, matched.Nodup ∧ matched ⊆ right ∧ List.Forall₂ (fun u v =>
      valueHashKey hasher u = valueHashKey hasher v ∧ valueKeyEqual hasher v u = true) left
        matched := by
  induction left with
  | nil => exact ⟨[], List.nodup_nil, List.nil_subset _, .nil⟩
  | cons value left ih =>
    rw [containsAll, Bool.and_eq_true] at h
    rw [List.forall_mem_cons] at hhashes
    obtain ⟨hfirst, hrest⟩ := List.pairwise_cons.1 hunshared
    obtain ⟨hash, hhash⟩ := Option.isSome_iff_exists.1 hhashes.1
    rw [hhash] at h
    obtain ⟨item, hitem, hitemHash, hequal⟩ := exists_of_contains h.1
    obtain ⟨matched, hnodup, hsubset, hpairs⟩ := ih h.2 hhashes.2 hrest
    refine ⟨item :: matched, List.nodup_cons.2 ⟨fun hmem => ?_, hnodup⟩,
      List.cons_subset.2 ⟨hitem, hsubset⟩, .cons ⟨hhash.trans hitemHash.symm, hequal⟩ hpairs⟩
    obtain ⟨idx, hidx, rfl⟩ := List.mem_iff_getElem.1 hmem
    have hlength := hpairs.length_eq
    have hother := hpairs.get (by omega) hidx
    exact hfirst _ (List.get_mem _ _) _ hitem ⟨hequal, hother.2⟩

lemma agree_found {left right : List KeyValue} (hlength : left.length = right.length)
    (h : containsAll hasher right left = true)
    (hunshared : left.Pairwise fun u u' => ∀ v ∈ right,
      ¬(valueKeyEqual hasher v u = true ∧ valueKeyEqual hasher v u' = true)) :
    Agree hasher (.frozenSet left) (.frozenSet right) := by
  intro x y hx hy
  have hhashes : ∀ value ∈ left, (valueHashKey hasher value).isSome := by
    rw [valueHashKey] at hx
    obtain ⟨xs, hxs, -⟩ := Option.map_eq_some_iff.1 hx
    intro value hvalue
    have hmem := List.mem_map_of_mem (f := valueHashKey hasher) hvalue
    rw [hashItems_eq hxs] at hmem
    obtain ⟨hash, -, hhash⟩ := List.mem_map.1 hmem
    rw [← hhash]
    rfl
  obtain ⟨matched, hnodup, hsubset, hpairs⟩ := containsAll_hashes h hhashes hunshared
  have hperm : matched.Perm right :=
    (hnodup.subperm hsubset).perm_of_length_le (by rw [← hpairs.length_eq, hlength])
  exact agree_frozenSet hlength (hpairs.imp fun _ _ huv => agree_of_eq huv.1) hperm x y hx hy

/-- Every two values that a comparison takes for equal are hashed alike, and are one object where
they have one identity. -/
def Regular (hasher : List UInt8 → UInt64) (a b : KeyValue) : Prop :=
  ∀ u v, KeyValue.Compared hasher a b (u, v) →
    KeyValue.SameObject u v ∧ KeyValue.Hashable hasher u v

lemma Regular.step {a b u v : KeyValue} (h : Regular hasher a b)
    (hstep : KeyValue.Step hasher (a, b) (u, v)) : Regular hasher u v :=
  fun _ _ hcompared => h _ _ (.head hstep hcompared)

lemma sizeOf_zip {left right : List KeyValue} {u v : KeyValue} (h : (u, v) ∈ left.zip right) :
    sizeOf u + sizeOf v < sizeOf (KeyValue.tuple left) + sizeOf (KeyValue.tuple right) := by
  have hleft := List.sizeOf_lt_of_mem (List.of_mem_zip h).1
  have hright := List.sizeOf_lt_of_mem (List.of_mem_zip h).2
  simp only [KeyValue.tuple.sizeOf_spec]
  omega

lemma sizeOf_members {left right : List KeyValue} {u v : KeyValue} (hu : u ∈ left)
    (hv : v ∈ right) :
    sizeOf u + sizeOf v < sizeOf (KeyValue.frozenSet left) + sizeOf (KeyValue.frozenSet right) := by
  have hleft := List.sizeOf_lt_of_mem hu
  have hright := List.sizeOf_lt_of_mem hv
  simp only [KeyValue.frozenSet.sizeOf_spec]
  omega

/-- The induction hypothesis of the sizes. -/
def AgreeBelow (hasher : List UInt8 → UInt64) (size : ℕ) : Prop :=
  ∀ u v, sizeOf u + sizeOf v < size → Regular hasher u v → valueKeyEqual hasher u v = true →
    Agree hasher u v

lemma agree_items {left right : List KeyValue}
    (ih : AgreeBelow hasher (sizeOf (KeyValue.tuple left) + sizeOf (KeyValue.tuple right)))
    (hregular : Regular hasher (.tuple left) (.tuple right)) (hlength : left.length = right.length)
    (h : ∀ p ∈ left.zip right, valueKeyEqual hasher p.1 p.2 = true) :
    Agree hasher (.tuple left) (.tuple right) :=
  agree_tuple (List.forall₂_iff_zip.2 ⟨hlength, fun {u v} huv =>
    ih u v (sizeOf_zip huv) (hregular.step (.item _ _ u v huv (h _ huv))) (h _ huv)⟩)

/-- Members that are paired agree, in whichever order the pairs are compared. -/
lemma forall₂_agree {left matched : List KeyValue} {rel : KeyValue → KeyValue → Prop}
    (h : List.Forall₂ rel left matched)
    (hrel : ∀ u ∈ left, ∀ v ∈ matched, rel u v → Agree hasher u v) :
    List.Forall₂ (Agree hasher) left matched := by
  obtain ⟨hlength, hpairs⟩ := List.forall₂_iff_zip.1 h
  exact List.forall₂_iff_zip.2 ⟨hlength, fun {u v} huv =>
    hrel u (List.of_mem_zip huv).1 v (List.of_mem_zip huv).2 (hpairs huv)⟩

lemma agree_of_equal {a b : KeyValue} (ih : AgreeBelow hasher (sizeOf a + sizeOf b))
    (hregular : Regular hasher a b) (h : valueEq hasher a b = true) : Agree hasher a b := by
  obtain ⟨hsame, hhashable⟩ := hregular a b .refl
  obtain _ | ⟨a, b, hnumber⟩ | ⟨left, right, hitems⟩ | ⟨left, right, hlength, hall⟩ |
    ⟨_, _, values, ha, hb⟩ | _ | _ | ⟨id, left, right⟩ := equal_of_valueEq h
  · exact agree_of_eq rfl
  · refine agree_number ?_
    unfold Number.keyEqual
    rw [hnumber]
    rfl
  · obtain ⟨hlength, hpairs⟩ := valueEqItems_zip hitems
    exact agree_items ih hregular hlength fun p hp => valueKeyEqual_of_valueEq (hpairs p hp)
  · exact agree_found hlength hall (hhashable.unshared left right rfl rfl)
  · refine agree_of_eq ?_
    rw [← valueHashKey_hashed a, hhashable.storage values ha hb, valueHashKey_hashed]
  · intro x y hx
    rw [valueHashKey] at hx
    cases hx
  · intro x y hx hy
    rw [valueHashKey] at hy
    cases hy
  · obtain rfl := hsame id left right rfl rfl
    exact agree_of_eq rfl

lemma agree_of_keyEqual {a b : KeyValue} (ih : AgreeBelow hasher (sizeOf a + sizeOf b))
    (hregular : Regular hasher a b) (hequal : valueKeyEqual hasher a b = true) :
    Agree hasher a b := by
  obtain ⟨_, _, h⟩ | ⟨_, _, value, ha, h⟩ | ⟨_, _, value, hb, h⟩ | ⟨a, b, h⟩ |
    ⟨aReal, aImag, bReal, bImag, hreal, himag⟩ | ⟨left, right, hlength, h⟩ |
    ⟨left, right, hlength, h⟩ := keyEqual_of_valueKeyEqual hequal
  · exact agree_of_equal ih hregular h
  · have hlt := KeyValue.sizeOf_backing ha
    have hagree := ih value b (by omega) (hregular.step (.left a b value ha h)) h
    rw [Agree, valueHashKey_backing ha]
    exact hagree
  · have hlt := KeyValue.sizeOf_backing hb
    have hagree := ih a value (by omega) (hregular.step (.right a b value hb h)) h
    rw [Agree, valueHashKey_backing hb]
    exact hagree
  · exact agree_number h
  · refine agree_of_eq ?_
    rw [valueHashKey, valueHashKey, normalizedBits_floatKeyEqual hreal,
      normalizedBits_floatKeyEqual himag]
  · exact agree_items ih hregular hlength (keyEqualItems_zip h)
  · obtain ⟨matched, rest, hperm, hpaired⟩ := matchAll_paired h
    rw [unmatched_replicate] at hperm
    have hrest : rest = [] := by
      have hcount := hperm.length_eq
      rw [List.length_append, ← hpaired.length_eq] at hcount
      exact List.eq_nil_of_length_eq_zero (by omega)
    rw [hrest, List.append_nil] at hperm
    refine agree_frozenSet hlength (forall₂_agree hpaired fun u hu v hv huv => ?_) hperm
    have hmember : v ∈ right := hperm.mem_iff.1 hv
    exact ih u v (sizeOf_members hu hmember) (hregular.step (.member _ _ u v hu hmember huv)) huv

lemma agreeBelow (size : ℕ) : AgreeBelow hasher size := by
  induction size with
  | zero => exact fun u v hlt => (Nat.not_lt_zero _ hlt).elim
  | succ size ih =>
    intro u v hlt hregular h
    refine agree_of_keyEqual (fun u' v' hlt' => ih u' v' (by omega)) hregular h

/-- Keys that are equal have one hash, where every two values that their comparison takes for equal
are hashed alike. -/
theorem hash_eq_of_valueKeyEqual {a b : KeyValue} (hcondition : valueKeyEqual hasher a b = true →
      ∀ u v, KeyValue.Compared hasher a b (u, v) →
        KeyValue.SameObject u v ∧ KeyValue.Hashable hasher u v)
    (h : valueKeyEqual hasher a b = true) {x y : UInt64} (hx : valueHashKey hasher a = some x)
    (hy : valueHashKey hasher b = some y) : x = y :=
  agreeBelow (sizeOf a + sizeOf b + 1) a b (Nat.lt_succ_self _) (hcondition h) h x y hx hy

end Values

/-- A hasher that reads the tag of the value. -/
def tagHasher (stream : List UInt8) : UInt64 := (stream.headD 0).toUInt64

/-- What is closed under the steps of a comparison holds of all that it compares. -/
lemma compared_of_closed {hasher : List UInt8 → UInt64} {a b : KeyValue}
    (holds : KeyValue × KeyValue → Prop) (hfirst : holds (a, b))
    (hstep : ∀ p q, holds p → KeyValue.Step hasher p q → holds q) {p : KeyValue × KeyValue}
    (h : KeyValue.Compared hasher a b p) : holds p := by
  induction h with
  | refl => exact hfirst
  | tail _ hnext ih => exact hstep _ _ ih hnext

/-- `(1, x)` and `(1.0, b'a')` for an instance `x` with the bytes `b'a'` behind it. -/
theorem hash_eq_of_valueKeyEqual_one :
    ∃ x, valueHashKey tagHasher (.tuple [.number (.int 1),
        .instanceObject 1 [(bytesBackingStorageAttr, .bytes [97])]]) = some x ∧
      valueHashKey tagHasher (.tuple [.number (.float (Binary64.ofInt 1)), .bytes [97]]) =
        some x := by
  have hbacking : KeyValue.backing (.instanceObject 1 [(bytesBackingStorageAttr, .bytes [97])]) =
      some (.bytes [97]) := rfl
  have hequal : valueKeyEqual tagHasher (.tuple [.number (.int 1),
        .instanceObject 1 [(bytesBackingStorageAttr, .bytes [97])]])
      (.tuple [.number (.float (Binary64.ofInt 1)), .bytes [97]]) = true := by
    refine valueKeyEqual_of_valueEq ?_
    rw [valueEq, valueEqItems, valueEqItems, valueEqItems, valueEq, valueEq]
    decide
  have hx : valueHashKey tagHasher (.tuple [.number (.int 1),
      .instanceObject 1 [(bytesBackingStorageAttr, .bytes [97])]]) = some 4 := by
    rw [valueHashKey, hashItems, hashItems, hashItems, valueHashKey,
      numberHash_of_bits tagHasher rfl, valueHashKey_backing hbacking, valueHashKey]
    rfl
  have hy : valueHashKey tagHasher (.tuple [.number (.float (Binary64.ofInt 1)), .bytes [97]]) =
      some 4 := by
    rw [valueHashKey, hashItems, hashItems, hashItems, valueHashKey,
      numberHash_of_bits tagHasher rfl, valueHashKey]
    rfl
  refine ⟨4, hx, hy.trans (congrArg some (hash_eq_of_valueKeyEqual (fun _ u v huv => ?_) hequal hx
    hy).symm)⟩
  have hcases := compared_of_closed (fun p => p = (.tuple [.number (.int 1),
        .instanceObject 1 [(bytesBackingStorageAttr, .bytes [97])]],
      .tuple [.number (.float (Binary64.ofInt 1)), .bytes [97]]) ∨
      p = (.number (.int 1), .number (.float (Binary64.ofInt 1))) ∨
      p = (.instanceObject 1 [(bytesBackingStorageAttr, .bytes [97])], .bytes [97]) ∨
      p = (.bytes [97], .bytes [97])) (.inl rfl) (fun p q hp hstep => by
    rcases hp with rfl | rfl | rfl | rfl
    · cases hstep with
      | item _ _ _ _ hmem _ =>
        rcases List.mem_cons.1 hmem with heq | hmem
        · exact .inr (.inl heq)
        · exact .inr (.inr (.inl (List.mem_singleton.1 hmem)))
      | left _ _ _ ha => cases ha
      | right _ _ _ hb => cases hb
    · cases hstep with
      | left _ _ _ ha => cases ha
      | right _ _ _ hb => cases hb
    · cases hstep with
      | left _ _ _ ha =>
        obtain rfl := Option.some.inj (hbacking.symm.trans ha)
        exact .inr (.inr (.inr rfl))
      | right _ _ _ hb => cases hb
    · cases hstep with
      | left _ _ _ ha => cases ha
      | right _ _ _ hb => cases hb) huv
  have hbytes : KeyValue.hashed (.instanceObject 1 [(bytesBackingStorageAttr, .bytes [97])]) =
      KeyValue.hashed (.bytes [97]) := rfl
  refine ⟨fun id left right hu hv => ?_, ⟨fun values hu hv => ?_, fun left right hu hv => ?_⟩⟩
  · rcases hcases with heq | heq | heq | heq <;> obtain ⟨rfl, rfl⟩ := Prod.mk.inj heq <;> cases hv
  · rcases hcases with heq | heq | heq | heq <;> obtain ⟨rfl, rfl⟩ := Prod.mk.inj heq
    · cases hu
    · cases hu
    · exact hbytes
    · rfl
  · rcases hcases with heq | heq | heq | heq <;> obtain ⟨rfl, rfl⟩ := Prod.mk.inj heq <;> cases hv

/-- An instance whose bytes are in a byte array equals the bytes, and is hashed by its identity. -/
theorem equal_bytes_hashed_differently :
    ¬∀ (hasher : List UInt8 → UInt64) (a b : KeyValue) (x y : UInt64),
      valueKeyEqual hasher a b = true → valueHashKey hasher a = some x →
        valueHashKey hasher b = some y → x = y := by
  intro h
  have hbacking : KeyValue.instanceHashableBackingValue
      [(bytesBackingStorageAttr, .byteArray [1])] = none := rfl
  have hequal := h tagHasher (.instanceObject 1 [(bytesBackingStorageAttr, .byteArray [1])])
    (.bytes [1]) 11 6
    (valueKeyEqual_of_valueEq (by rw [valueEq]; rfl))
    (by
      rw [valueHashKey]
      split
      · rename_i hsome
        rw [hbacking] at hsome
        cases hsome
      · rfl)
    (by rw [valueHashKey]; rfl)
  exact absurd hequal (by decide)

end Pyrs
