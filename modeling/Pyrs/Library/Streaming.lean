import Mathlib.Data.List.Basic
import Mathlib.Data.Int.Init

/-!
# Streams through stateful decompressors

A decompressor is called with one chunk after the other and a limit for each output.  `Streams`
says what its caller relies on, for the whole sequence of calls.
-/

/-- A decompressor object: what a call returns, and the attributes that its caller reads. -/
structure Decompressor (State Byte Fault : Type) where
  call : State → List Byte → ℤ → Except Fault (List Byte × State)
  eof : State → Bool
  unusedData : State → List Byte
  /-- The input that the caller has to give again, in front of the next chunk. -/
  unconsumedTail : State → List Byte
  unlimited : ℤ → Prop

namespace Decompressor

variable {State Byte Fault : Type} (decompressor : Decompressor State Byte Fault)
  (stream payload : List Byte)

/-- The calls from a state in which so much has been supplied and delivered: each returns, within
its limit, the end is seen exactly where the stream has been supplied and the payload delivered,
and then what is behind the stream is unused.  An unlimited call without input fetches the rest. -/
def Streams : State → List Byte → List Byte → List (List Byte × ℤ) → Prop
  | state, _, delivered, [] => ∀ limit, decompressor.unlimited limit →
      ∃ out next, decompressor.call state (decompressor.unconsumedTail state) limit =
        .ok (out, next) ∧ delivered ++ out = payload ∧ decompressor.eof next = true
  | state, supplied, delivered, (chunk, limit) :: calls =>
      ∃ out next, decompressor.call state (decompressor.unconsumedTail state ++ chunk) limit =
          .ok (out, next) ∧
        (decompressor.unlimited limit ∨ (out.length : ℤ) ≤ limit) ∧
        (decompressor.eof next = true ↔
          delivered ++ out = payload ∧ stream.length ≤ (supplied ++ chunk).length) ∧
        (decompressor.eof next = true →
          decompressor.unusedData next = (supplied ++ chunk).drop stream.length) ∧
        Streams next (supplied ++ chunk) (delivered ++ out) calls

/-- Behind the end of the stream every chunk is unused data. -/
structure Absorbs : Prop where
  call : ∀ state chunk limit, decompressor.eof state = true → ∃ next,
    decompressor.call state chunk limit = .ok ([], next) ∧ decompressor.eof next = true ∧
      decompressor.unusedData next = decompressor.unusedData state ++ chunk ∧
      decompressor.unconsumedTail next = decompressor.unconsumedTail state

variable {decompressor stream payload}

lemma Absorbs.streams (h : decompressor.Absorbs)
    (hlimit : ∀ limit, decompressor.unlimited limit ∨ (0 : ℤ) ≤ limit)
    {supplied : List Byte} {state : State} (heof : decompressor.eof state = true)
    (htail : decompressor.unconsumedTail state = []) (hsupplied : stream.length ≤ supplied.length)
    (hunused : decompressor.unusedData state = supplied.drop stream.length)
    (calls : List (List Byte × ℤ)) :
    decompressor.Streams stream payload state supplied payload calls := by
  induction calls generalizing state supplied with
  | nil =>
    intro limit _
    obtain ⟨next, hcall, hnext, -, -⟩ :=
      h.call state (decompressor.unconsumedTail state) limit heof
    exact ⟨[], next, hcall, List.append_nil _, hnext⟩
  | cons head calls ih =>
    obtain ⟨chunk, limit⟩ := head
    obtain ⟨next, hcall, hnext, hunused', htail'⟩ := h.call state chunk limit heof
    have hle : stream.length ≤ (supplied ++ chunk).length := by
      rw [List.length_append]
      omega
    have hdrop : decompressor.unusedData next = (supplied ++ chunk).drop stream.length := by
      rw [hunused', hunused, List.drop_append_of_le_length hsupplied]
    refine ⟨[], next, ?_, ?_, ?_, fun _ => hdrop, ?_⟩
    · rw [htail, List.nil_append]
      exact hcall
    · exact hlimit limit
    · exact ⟨fun _ => ⟨List.append_nil _, hle⟩, fun _ => hnext⟩
    · rw [List.append_nil]
      exact ih hnext (htail'.trans htail) hle hdrop

end Decompressor
