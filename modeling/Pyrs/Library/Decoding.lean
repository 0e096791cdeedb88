import Mathlib.Data.UInt
import Mathlib.Tactic.Ring

/-!
# Decoders of byte buffers

A decoder moves a cursor over a buffer.  It decodes some bytes to a value when, wherever the bytes
stand in a buffer, it reads the value from there, leaves the cursor behind them and keeps the rest
of its state.  Decoders of parts make a decoder of the whole.
-/

namespace Decoding

/-- A position in a buffer, and what a decoder keeps besides. -/
structure Cursor (σ : Type) where
  data : List UInt8
  offset : ℕ
  kept : σ

abbrev Decoder (ε σ α : Type) : Type := StateT (Cursor σ) (Except ε) α

variable {ε σ α β : Type}

def Decodes (decoder : Decoder ε σ α) (bytes : List UInt8) (value : α) : Prop :=
  ∀ (before after : List UInt8) (kept : σ),
    decoder ⟨before ++ (bytes ++ after), before.length, kept⟩ =
      .ok (value, ⟨before ++ (bytes ++ after), before.length + bytes.length, kept⟩)

lemma Decodes.pure (value : α) : Decodes (pure value : Decoder ε σ α) [] value :=
  fun _ _ _ => rfl

lemma Decodes.bind {decoder : Decoder ε σ α} {next : α → Decoder ε σ β} {first second : List UInt8}
    {a : α} {b : β} (hfirst : Decodes decoder first a) (hsecond : Decodes (next a) second b) :
    Decodes (decoder >>= next) (first ++ second) b := by
  intro before after kept
  have hthen := hsecond (before ++ first) after kept
  rw [List.append_assoc, List.length_append] at hthen
  change (decoder _ >>= fun result => next result.1 result.2) = _
  rw [List.append_assoc, hfirst before (second ++ after) kept]
  change next a _ = _
  rw [hthen, List.length_append, Nat.add_assoc]

/-- A step that reads nothing. -/
lemma Decodes.bind_nil {decoder : Decoder ε σ α} {next : α → Decoder ε σ β} {bytes : List UInt8}
    {a : α} {b : β} (hfirst : Decodes decoder [] a) (hsecond : Decodes (next a) bytes b) :
    Decodes (decoder >>= next) bytes b := hfirst.bind hsecond

/-- A last step that reads nothing. -/
lemma Decodes.bind_last {decoder : Decoder ε σ α} {next : α → Decoder ε σ β} {bytes : List UInt8}
    {a : α} {b : β} (hfirst : Decodes decoder bytes a) (hsecond : Decodes (next a) [] b) :
    Decodes (decoder >>= next) bytes b := by
  have hbind := hfirst.bind hsecond
  rwa [List.append_nil] at hbind

lemma Decodes.map {decoder : Decoder ε σ α} {bytes : List UInt8} {a : α} (f : α → β)
    (h : Decodes decoder bytes a) :
    Decodes (decoder >>= fun a => Pure.pure (f a)) bytes (f a) := h.bind_last (Decodes.pure (f a))

/-! ## Little-endian numbers -/

/-- The bytes of a number, the least significant first. -/
def leBytes : ℕ → ℕ → List UInt8
  | 0, _ => []
  | width + 1, value => UInt8.ofNat value :: leBytes width (value / 256)

def fromLeBytes : List UInt8 → ℕ
  | [] => 0
  | byte :: bytes => byte.toNat + 256 * fromLeBytes bytes

attribute [local simp] leBytes fromLeBytes

@[simp] lemma length_leBytes (width value : ℕ) : (leBytes width value).length = width := by
  induction width generalizing value with
  | zero => rfl
  | succ width ih => rw [leBytes, List.length_cons, ih]

lemma fromLeBytes_leBytes {width value : ℕ} (h : value < 256 ^ width) :
    fromLeBytes (leBytes width value) = value := by
  induction width generalizing value with
  | zero =>
    rw [pow_zero] at h
    exact (Nat.lt_one_iff.1 h).symm
  | succ width ih =>
    have hdiv : value / 256 < 256 ^ width := by
      rw [Nat.div_lt_iff_lt_mul (by decide), ← pow_succ]
      exact h
    rw [leBytes, fromLeBytes, ih hdiv, UInt8.toNat_ofNat']
    exact Nat.mod_add_div value 256

lemma fromLeBytes_lt (bytes : List UInt8) : fromLeBytes bytes < 256 ^ bytes.length := by
  induction bytes with
  | nil => decide
  | cons byte bytes ih =>
    have hbyte := byte.toNat_lt
    rw [fromLeBytes, List.length_cons, pow_succ]
    omega

lemma fromLeBytes_append (left right : List UInt8) :
    fromLeBytes (left ++ right) = fromLeBytes left + 256 ^ left.length * fromLeBytes right := by
  induction left with
  | nil => rw [List.nil_append, fromLeBytes, List.length_nil, pow_zero, one_mul, Nat.zero_add]
  | cons byte left ih =>
    rw [List.cons_append, fromLeBytes, fromLeBytes, ih, List.length_cons, pow_succ]
    ring

lemma fromLeBytes_replicate_zero (n : ℕ) : fromLeBytes (List.replicate n 0) = 0 := by
  induction n with
  | zero => rfl
  | succ n ih => simp [List.replicate_succ, ih]

/-- The first bytes are the number modulo a power of their base. -/
lemma fromLeBytes_take (n : ℕ) (bytes : List UInt8) :
    fromLeBytes (bytes.take n) = fromLeBytes bytes % 256 ^ n := by
  rcases Nat.lt_or_ge n bytes.length with hshort | hlong
  · have hlt := fromLeBytes_lt (bytes.take n)
    have happend := fromLeBytes_append (bytes.take n) (bytes.drop n)
    rw [List.take_append_drop] at happend
    rw [List.length_take_of_le hshort.le] at hlt happend
    rw [happend, Nat.add_mul_mod_self_left, Nat.mod_eq_of_lt hlt]
  · have hlt := (fromLeBytes_lt bytes).trans_le (Nat.pow_le_pow_right (by decide) hlong)
    rw [List.take_of_length_le hlong, Nat.mod_eq_of_lt hlt]

/-- Bytes of one length are known by their number. -/
lemma fromLeBytes_inj {left right : List UInt8} (hlength : left.length = right.length)
    (h : fromLeBytes left = fromLeBytes right) : left = right := by
  induction left generalizing right with
  | nil => exact (List.eq_nil_of_length_eq_zero hlength.symm).symm
  | cons byte left ih =>
    cases right with
    | nil => cases hlength
    | cons byte' right =>
      have hbyte := byte.toNat_lt
      have hbyte' := byte'.toNat_lt
      rw [fromLeBytes, fromLeBytes] at h
      have hfirst : byte = byte' := UInt8.toNat_inj.1 (by omega)
      have hrest : left = right := ih (Nat.succ.inj hlength) (by omega)
      rw [hfirst, hrest]

end Decoding
