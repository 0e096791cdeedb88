import Pyrs.Model.Decompressors
import Mathlib.Tactic.Linarith

/-!
# Decompressing a stream in chunks

Both objects start the decoder anew for every call and cut what is over the limit.  A stream is
therefore delivered exactly where one call takes all of it and returns all of its payload.
-/

namespace Pyrs

/-- An output that is cut at a limit, if there is one, is whole if there is none or it fits. -/
lemma limited_eq_iff {limited : Prop} [Decidable limited] {limit : ℤ} {payload : List UInt8}
    (hlimited : limited → 0 ≤ limit) :
    (if limited ∧ limit < payload.length then payload.take limit.toNat else payload) = payload ↔
      ¬ limited ∨ (payload.length : ℤ) ≤ limit := by
  split_ifs with h
  · have hlength : limit.toNat < payload.length := by
      have := hlimited h.1
      omega
    refine ⟨fun heq => ?_, fun hwhole => ?_⟩
    · have htake := congrArg List.length heq
      rw [List.length_take] at htake
      omega
    · exact absurd h (fun h => hwhole.elim (fun hnot => hnot h.1) (not_le.2 h.2))
  · exact ⟨fun _ => (not_and_or.1 h).imp id not_lt.1, fun _ => rfl⟩

namespace Bz2

/-- `BZ2_bzBuffToBuffDecompress` on a stream of a payload.  What stands behind a complete stream is
left alone. -/
structure Decodes (buffToBuffDecompress : BuffToBuffDecompress) (stream payload : List UInt8) :
    Prop where
  complete : ∀ trailing outCap, payload.length ≤ outCap →
    buffToBuffDecompress (stream ++ trailing) outCap = (bzOk, payload)
  full : ∀ trailing outCap, outCap < payload.length →
    (buffToBuffDecompress (stream ++ trailing) outCap).1 = bzOutbuffFull
  incomplete : ∀ part outCap, part <+: stream → part ≠ stream →
    (buffToBuffDecompress part outCap).1 ≠ bzOk

/-- The input is below the bound of `c_uint`, and so is one of the rooms that hold the payload. -/
def FitsCUint (input payload : List UInt8) : Prop :=
  input.length ≤ cUintMax ∧ ∃ doublings, payload.length ≤ firstOutCap input * 2 ^ doublings ∧
    firstOutCap input * 2 ^ doublings ≤ cUintMax

/-- The first call has the stream and nothing else, and its limit lets the payload through. -/
def DeliveredAtOnce (stream payload : List UInt8) (calls : List (List UInt8 × ℤ)) : Prop :=
  ∃ limit rest, calls = (stream, limit) :: rest ∧ FitsCUint stream payload ∧
    (limit < 0 ∨ (payload.length : ℤ) ≤ limit)

section

variable {buffToBuffDecompress : BuffToBuffDecompress} {stream payload trailing : List UInt8}

lemma decompressRounds_complete (h : Decodes buffToBuffDecompress stream payload)
    {doublings outCap : ℕ} (hfits : payload.length ≤ outCap * 2 ^ doublings)
    (hbound : outCap * 2 ^ doublings ≤ cUintMax) {fuel : ℕ} (hfuel : doublings < fuel) :
    decompressRounds buffToBuffDecompress (stream ++ trailing) fuel outCap = .ok payload := by
  induction fuel generalizing doublings outCap with
  | zero => omega
  | succ fuel ih =>
    have hle : outCap ≤ outCap * 2 ^ doublings := Nat.le_mul_of_pos_right _ (by positivity)
    rw [decompressRounds, if_neg (by omega)]
    by_cases hroom : payload.length ≤ outCap
    · rw [h.complete trailing outCap hroom, if_pos rfl]
    · cases doublings with
      | zero =>
        rw [pow_zero, mul_one] at hfits
        exact absurd hfits hroom
      | succ doublings =>
        have hcode := h.full trailing outCap (by omega)
        rw [hcode, if_neg (by decide), if_pos rfl]
        rw [pow_succ', ← mul_assoc] at hfits hbound
        exact ih hfits hbound (by omega)

/-- A room that the loop stops at holds the payload. -/
lemma decompressRounds_eq_ok (h : Decodes buffToBuffDecompress stream payload) {fuel outCap : ℕ}
    {out : List UInt8}
    (hrun : decompressRounds buffToBuffDecompress (stream ++ trailing) fuel outCap = .ok out) :
    out = payload ∧ ∃ doublings, payload.length ≤ outCap * 2 ^ doublings ∧
      outCap * 2 ^ doublings ≤ cUintMax := by
  induction fuel generalizing outCap with
  | zero => cases hrun
  | succ fuel ih =>
    rw [decompressRounds] at hrun
    by_cases hbound : cUintMax < outCap
    · rw [if_pos hbound] at hrun
      cases hrun
    · rw [if_neg hbound] at hrun
      by_cases hroom : payload.length ≤ outCap
      · rw [h.complete trailing outCap hroom, if_pos rfl] at hrun
        cases hrun
        exact ⟨rfl, 0, by rw [pow_zero, mul_one]; exact hroom, by rw [pow_zero]; omega⟩
      · have hcode := h.full trailing outCap (by omega)
        rw [hcode, if_neg (by decide), if_pos rfl] at hrun
        obtain ⟨hout, doublings, hfits, hle⟩ := ih hrun
        refine ⟨hout, doublings + 1, ?_, ?_⟩ <;> rw [pow_succ', ← mul_assoc] <;> assumption

lemma decompressRounds_incomplete (h : Decodes buffToBuffDecompress stream payload)
    {part : List UInt8} (hpart : part <+: stream) (hne : part ≠ stream) {fuel outCap : ℕ}
    (out : List UInt8) : decompressRounds buffToBuffDecompress part fuel outCap ≠ .ok out := by
  induction fuel generalizing outCap with
  | zero => exact nofun
  | succ fuel ih =>
    rw [decompressRounds, if_neg (h.incomplete part outCap hpart hne)]
    split_ifs
    · exact nofun
    · exact ih
    · exact nofun

/-- The room has grown beyond the bound before the rounds are over. -/
lemma doublings_lt {input : List UInt8} {doublings : ℕ}
    (h : firstOutCap input * 2 ^ doublings ≤ cUintMax) : doublings < 23 := by
  by_contra hle
  have hpow : 2 ^ 23 ≤ 2 ^ doublings := Nat.pow_le_pow_right (by decide) (by omega)
  have hfirst : 1024 ≤ firstOutCap input := (Nat.le_add_left 1024 _).trans (le_max_left _ _)
  have hmul : 1024 * 2 ^ 23 ≤ firstOutCap input * 2 ^ doublings := Nat.mul_le_mul hfirst hpow
  have hmax : cUintMax < 1024 * 2 ^ 23 := by decide
  omega

lemma bz2DecompressBytes_eq_ok_iff (h : Decodes buffToBuffDecompress stream payload)
    {out : List UInt8} :
    bz2DecompressBytes buffToBuffDecompress (stream ++ trailing) = .ok out ↔
      out = payload ∧ FitsCUint (stream ++ trailing) payload := by
  rw [bz2DecompressBytes]
  by_cases hlarge : cUintMax < (stream ++ trailing).length
  · rw [if_pos hlarge]
    exact ⟨nofun, fun hfits => absurd hfits.2.1 (by omega)⟩
  rw [if_neg hlarge]
  constructor
  · intro hrun
    obtain ⟨hout, hfits⟩ := decompressRounds_eq_ok h hrun
    exact ⟨hout, by omega, hfits⟩
  · rintro ⟨rfl, -, doublings, hfits, hbound⟩
    exact decompressRounds_complete h hfits hbound (doublings_lt hbound)

lemma bz2DecompressBytes_incomplete (h : Decodes buffToBuffDecompress stream payload)
    {part : List UInt8} (hpart : part <+: stream) (hne : part ≠ stream) (out : List UInt8) :
    bz2DecompressBytes buffToBuffDecompress part ≠ .ok out := by
  rw [bz2DecompressBytes]
  split_ifs
  · exact nofun
  · exact decompressRounds_incomplete h hpart hne out

lemma absorbs : (decompressor buffToBuffDecompress).Absorbs := by
  refine ⟨fun state chunk limit heof => ?_⟩
  exact ⟨{ state with unusedData := state.unusedData ++ chunk }, if_pos heof, heof, rfl, rfl⟩

/-- A call before the end of the stream. -/
lemma call_eq_ok {state : Bz2DecompressorState} (heof : state.eof = false) {chunk : List UInt8}
    {limit : ℤ} {out : List UInt8} {next : Bz2DecompressorState} :
    (decompressor buffToBuffDecompress).call state chunk limit = .ok (out, next) ↔
      ∃ bytes, bz2DecompressBytes buffToBuffDecompress chunk = .ok bytes ∧
        out = (if 0 ≤ limit ∧ limit < bytes.length then bytes.take limit.toNat else bytes) ∧
          next = { eof := true, unusedData := [], needsInput := true } := by
  change builtinBz2DecompressorDecompress buffToBuffDecompress state chunk limit = _ ↔ _
  rw [builtinBz2DecompressorDecompress, if_neg (by rw [heof]; exact Bool.false_ne_true)]
  cases bz2DecompressBytes buffToBuffDecompress chunk with
  | error fault => exact ⟨nofun, fun ⟨_, h, _⟩ => by cases h⟩
  | ok bytes =>
    constructor
    · intro h
      cases h
      exact ⟨bytes, rfl, rfl, rfl⟩
    · rintro ⟨_, h, rfl, rfl⟩
      cases h
      rfl

lemma cut_eq_iff {limit : ℤ} {payload : List UInt8} :
    (if 0 ≤ limit ∧ limit < payload.length then payload.take limit.toNat else payload) = payload ↔
      limit < 0 ∨ (payload.length : ℤ) ≤ limit := by
  rw [limited_eq_iff id, not_le]

/-- A stream with what follows it is delivered, under every split into chunks, every limit and
calls without input in between, exactly where the first call has the whole stream and nothing
else, and returns the whole payload. -/
theorem decompressor_streams_iff (hdecodes : Decodes buffToBuffDecompress stream payload)
    (hstream : stream ≠ []) {calls : List (List UInt8 × ℤ)}
    (hsplit : (calls.map Prod.fst).flatten = stream ++ trailing) :
    (decompressor buffToBuffDecompress).Streams stream payload .new [] [] calls ↔
      DeliveredAtOnce stream payload calls := by
  constructor
  · intro hstreams
    cases calls with
    | nil => exact absurd (List.append_eq_nil_iff.1 hsplit.symm).1 hstream
    | cons head rest =>
      obtain ⟨chunk, limit⟩ := head
      obtain ⟨out, next, hcall, -, heof, hunused, -⟩ := hstreams
      obtain ⟨bytes, hbytes, rfl, rfl⟩ := (call_eq_ok rfl).1 hcall
      obtain ⟨hout, hsupplied⟩ := heof.1 rfl
      have hprefix : chunk <+: stream ++ trailing :=
        ⟨(rest.map Prod.fst).flatten, by rw [← hsplit, List.map_cons, List.flatten_cons]⟩
      obtain ⟨more, rfl⟩ : stream <+: chunk :=
        List.prefix_of_prefix_length_le (List.prefix_append _ _) hprefix hsupplied
      have hmore : ([] : List UInt8) = ([] ++ (stream ++ more)).drop stream.length := hunused rfl
      rw [List.nil_append, List.drop_left] at hmore
      subst hmore
      obtain ⟨rfl, hfits⟩ := (bz2DecompressBytes_eq_ok_iff hdecodes).1 hbytes
      rw [List.append_nil] at hfits ⊢
      exact ⟨limit, rest, rfl, hfits, cut_eq_iff.1 hout⟩
  · rintro ⟨limit, rest, rfl, hfits, hlimit⟩
    have hbytes := (@bz2DecompressBytes_eq_ok_iff _ _ _ [] hdecodes payload).2
    rw [List.append_nil] at hbytes
    have hcut := cut_eq_iff.2 hlimit
    refine ⟨payload, { eof := true, unusedData := [], needsInput := true }, ?_, hlimit, ?_, ?_, ?_⟩
    · exact (call_eq_ok rfl).2 ⟨payload, hbytes ⟨rfl, hfits⟩, hcut.symm, rfl⟩
    · exact ⟨fun _ => ⟨rfl, le_rfl⟩, fun _ => rfl⟩
    · intro _
      exact (List.drop_length (l := stream)).symm
    · refine absorbs.streams (fun limit => lt_or_ge limit 0) rfl rfl le_rfl ?_ rest
      exact (List.drop_length (l := stream)).symm

end

/-- A decoder of one stream. -/
def decodeOne (stream payload : List UInt8) : BuffToBuffDecompress := fun source outCap =>
  if stream <+: source then
    if payload.length ≤ outCap then (bzOk, payload) else (bzOutbuffFull, [])
  else (-7, [])

lemma decodeOne_decodes (stream payload : List UInt8) :
    Decodes (decodeOne stream payload) stream payload where
  complete trailing outCap h := by rw [decodeOne, if_pos (List.prefix_append _ _), if_pos h]
  full trailing outCap h := by
    rw [decodeOne, if_pos (List.prefix_append _ _), if_neg (by omega)]
  incomplete part outCap hpart hne := by
    rw [decodeOne, if_neg fun h => hne (hpart.eq_of_length_le h.length_le)]
    decide

/-- The stream of no bytes. -/
def emptyStream : List UInt8 :=
  [0x42, 0x5a, 0x68, 0x39, 0x17, 0x72, 0x45, 0x38, 0x50, 0x90, 0x00, 0x00, 0x00, 0x00]

/-- The stream of `b'hi'`. -/
def hiStream : List UInt8 :=
  [0x42, 0x5a, 0x68, 0x39, 0x31, 0x41, 0x59, 0x26, 0x53, 0x59, 0x9a, 0x89, 0xb4, 0x22, 0x00, 0x00,
    0x00, 0x01, 0x00, 0x00, 0x60, 0x20, 0x00, 0x21, 0x00, 0x82, 0xb1, 0x77, 0x24, 0x53, 0x85, 0x09,
    0x09, 0xa8, 0x9b, 0x42, 0x20]

/-- The stream of `b'hi'` in a call for one byte, and a byte behind it in another call. -/
theorem decompressor_streams_iff_hi :
    (decompressor (decodeOne hiStream [0x68, 0x69])).Streams hiStream [0x68, 0x69] .new [] []
        [(hiStream, 1), ([7], -1)] ↔
      DeliveredAtOnce hiStream [0x68, 0x69] [(hiStream, 1), ([7], -1)] :=
  @decompressor_streams_iff _ _ _ [7] (decodeOne_decodes _ _) (by decide) _ rfl

/-- Split after its first byte, the stream of no bytes raises an error. -/
theorem decompressor_loses_splitStreams :
    ¬∀ (buffToBuffDecompress : BuffToBuffDecompress) (stream payload trailing : List UInt8)
      (calls : List (List UInt8 × ℤ)), Decodes buffToBuffDecompress stream payload → stream ≠ [] →
        (calls.map Prod.fst).flatten = stream ++ trailing →
          (decompressor buffToBuffDecompress).Streams stream payload .new [] [] calls := by
  intro h
  obtain ⟨out, next, hcall, -⟩ := h (decodeOne emptyStream []) emptyStream [] []
    [([0x42], -1), (emptyStream.tail, -1)] (decodeOne_decodes _ _) (by decide) rfl
  obtain ⟨bytes, hbytes, -⟩ := (call_eq_ok rfl).1 hcall
  exact bz2DecompressBytes_incomplete (decodeOne_decodes emptyStream []) (by decide) (by decide)
    bytes hbytes

end Bz2

namespace Zlib

/-- `inflate` decodes a stream of a payload.  `rest` says which part of the stream a state has
still to read, and which part of the payload to write. -/
structure Decodes {Stream : Type} (library : Inflate Stream) (wbits : ℤ)
    (rest : Stream → List UInt8 → List UInt8 → Prop) (stream payload : List UInt8) : Prop where
  start : ∃ first, library.inflateInit2 wbits = .ok first ∧ rest first stream payload ∧
    ∀ room, library.inflate first [] room = ⟨first, zBufError, 0, []⟩
  /-- With the whole rest of the stream at hand, a call sees the end or fills the room. -/
  whole : ∀ state input output trailing room, rest state input output → 0 < room →
    ∃ next code consumed written, library.inflate state (input ++ trailing) room =
        ⟨next, code, consumed, written⟩ ∧
      (code = zStreamEnd ∧ consumed = input.length ∧ written = output ∨
        code = zOk ∧ consumed ≤ input.length ∧ written.length = room ∧
          ∃ more, output = written ++ more ∧ rest next (input.drop consumed) more)
  unfinished : ∀ state input output part room, rest state input output → part <+: input →
    part ≠ input → (library.inflate state part room).code ≠ zStreamEnd

/-- Behind calls without input, one call has the whole stream, and its limit lets the payload
through. -/
def ArrivesWhole (stream payload : List UInt8) (calls : List (List UInt8 × ℤ)) : Prop :=
  ∃ idle chunk limit others, calls = idle ++ (chunk, limit) :: others ∧
    (∀ call ∈ idle, call.1 = []) ∧ stream <+: chunk ∧ chunk.length ≤ cUintMax ∧
      (limit ≤ 0 ∨ (payload.length : ℤ) ≤ limit)

section

variable {Stream : Type} {library : Inflate Stream} {wbits : ℤ}
  {rest : Stream → List UInt8 → List UInt8 → Prop} {stream payload : List UInt8}

/-- The rounds over the whole rest of a stream; what is left to write decreases. -/
lemma inflateRounds_whole (h : Decodes library wbits rest stream payload) {fuel : ℕ}
    {state : Stream} {input output : List UInt8} (hrest : rest state input output)
    (hfuel : output.length < fuel) (trailing out : List UInt8) :
    inflateRounds library fuel state (input ++ trailing) out =
      .ok (out ++ output, true, trailing) := by
  induction fuel generalizing state input output out with
  | zero => omega
  | succ fuel ih =>
    obtain ⟨next, code, consumed, written, hcall, hend | hfull⟩ :=
      h.whole state input output trailing zChunkSize hrest (by decide)
    · obtain ⟨rfl, rfl, rfl⟩ := hend
      rw [inflateRounds, hcall]
      dsimp only
      rw [if_pos rfl, List.drop_left]
    · obtain ⟨rfl, hconsumed, hlength, more, rfl, hnext⟩ := hfull
      have hwritten : written ≠ [] := by
        rintro rfl
        exact absurd hlength (by decide)
      have hpos : 0 < written.length := List.length_pos_iff.2 hwritten
      rw [List.length_append] at hfuel
      rw [inflateRounds, hcall]
      dsimp only
      rw [if_neg (by decide), if_pos rfl, if_neg fun hidle => hwritten hidle.2,
        List.drop_append_of_le_length hconsumed, ih hnext (by omega), List.append_assoc]

lemma zlibInflateBytes_whole (h : Decodes library wbits rest stream payload) {fuel : ℕ}
    (hfuel : payload.length < fuel) {trailing : List UInt8}
    (hlength : (stream ++ trailing).length ≤ cUintMax) :
    zlibInflateBytes library fuel (stream ++ trailing) wbits false =
      .ok (payload, true, trailing) := by
  obtain ⟨first, hinit, hrest, -⟩ := h.start
  have hrounds := inflateRounds_whole h hrest hfuel trailing []
  rw [List.nil_append] at hrounds
  rw [zlibInflateBytes, if_neg (by omega), hinit]
  dsimp only
  rw [hrounds]
  rfl

lemma zlibInflateBytes_nil (h : Decodes library wbits rest stream payload) {fuel : ℕ}
    (hfuel : 0 < fuel) :
    zlibInflateBytes library fuel [] wbits false = .ok ([], false, []) := by
  obtain ⟨first, hinit, -, hidle⟩ := h.start
  obtain ⟨fuel, rfl⟩ : ∃ rounds, fuel = rounds + 1 := ⟨fuel - 1, by omega⟩
  have hrounds : inflateRounds library (fuel + 1) first [] [] = .ok ([], false, []) := by
    rw [inflateRounds, hidle]
    rfl
  have hlength : ¬cUintMax < ([] : List UInt8).length := Nat.not_lt_zero _
  rw [zlibInflateBytes, if_neg hlength, hinit]
  dsimp only
  rw [hrounds]
  rfl

lemma absorbs (fuel : ℕ) : (decompressObject library fuel).Absorbs := by
  refine ⟨fun state chunk limit heof => ?_⟩
  exact ⟨{ state with unusedData := state.unusedData ++ chunk }, if_pos heof, heof, rfl, rfl⟩

/-- The output of a call is cut at its limit. -/
def cut (limit : ℤ) (out : List UInt8) : List UInt8 :=
  if 0 < limit ∧ limit < out.length then out.take limit.toNat else out

lemma cut_eq_iff {limit : ℤ} : cut limit payload = payload ↔
    limit ≤ 0 ∨ (payload.length : ℤ) ≤ limit := by
  rw [cut, limited_eq_iff le_of_lt, not_lt]

/-- A call before the end of the stream. -/
lemma call_eq_ok {fuel : ℕ} {chunk : List UInt8} {limit : ℤ} {out : List UInt8}
    {next : ZlibDecompressObjectState} :
    (decompressObject library fuel).call (.new wbits) chunk limit = .ok (out, next) ↔
      ∃ bytes eof unused, zlibInflateBytes library fuel chunk wbits false =
          .ok (bytes, eof, unused) ∧ out = cut limit bytes ∧
        next = { wbits, eof, unusedData := unused, unconsumedTail := [] } := by
  change builtinZlibDecompressObjectDecompress library fuel (.new wbits) chunk limit = _ ↔ _
  have hnew : ¬(ZlibDecompressObjectState.new wbits).eof = true := Bool.false_ne_true
  rw [builtinZlibDecompressObjectDecompress, if_neg hnew]
  change (zlibInflateBytes library fuel chunk wbits false >>= _) = _ ↔ _
  cases zlibInflateBytes library fuel chunk wbits false with
  | error fault => exact ⟨nofun, fun ⟨_, _, _, h, _⟩ => by cases h⟩
  | ok result =>
    obtain ⟨bytes, eof, unused⟩ := result
    constructor
    · intro h
      cases h
      exact ⟨bytes, eof, unused, rfl, rfl, rfl⟩
    · rintro ⟨_, _, _, h, rfl, rfl⟩
      cases h
      rfl

/-- A call without input leaves a new object as it is. -/
lemma call_nil (h : Decodes library wbits rest stream payload) {fuel : ℕ} (hfuel : 0 < fuel)
    (limit : ℤ) :
    (decompressObject library fuel).call (.new wbits) [] limit = .ok ([], .new wbits) := by
  refine call_eq_ok.2 ⟨[], false, [], zlibInflateBytes_nil h hfuel, ?_, rfl⟩
  rw [cut, if_neg]
  rintro ⟨hlt, hlt'⟩
  exact absurd (hlt.trans hlt') (lt_irrefl 0)

lemma streams_of_arrivesWhole (h : Decodes library wbits rest stream payload)
    (hstream : stream ≠ []) {fuel : ℕ} (hfuel : payload.length < fuel)
    {calls : List (List UInt8 × ℤ)} (hwhole : ArrivesWhole stream payload calls) :
    (decompressObject library fuel).Streams stream payload (.new wbits) [] [] calls := by
  obtain ⟨idle, chunk, limit, others, rfl, hidle, ⟨trailing, rfl⟩, hlength, hlimit⟩ := hwhole
  have hpos : 0 < stream.length := List.length_pos_iff.2 hstream
  induction idle with
  | nil =>
    have hcut := cut_eq_iff.2 hlimit
    have hbytes := zlibInflateBytes_whole h hfuel hlength
    have hdrop : (stream ++ trailing).drop stream.length = trailing := List.drop_left
    have hle : stream.length ≤ (stream ++ trailing).length := by
      rw [List.length_append]
      omega
    refine ⟨payload, { wbits, eof := true, unusedData := trailing, unconsumedTail := [] }, ?_,
      hlimit, ⟨fun _ => ⟨rfl, hle⟩, fun _ => rfl⟩, fun _ => hdrop.symm, ?_⟩
    · exact call_eq_ok.2 ⟨payload, true, trailing, hbytes, hcut.symm, rfl⟩
    · refine (absorbs fuel).streams (fun limit => (le_or_gt limit 0).imp id le_of_lt) rfl rfl hle
        ?_ others
      exact hdrop.symm
  | cons head idle ih =>
    obtain ⟨empty, bound⟩ := head
    obtain rfl : empty = [] := hidle _ List.mem_cons_self
    refine ⟨[], .new wbits, call_nil h (by omega) bound, ?_, ?_, nofun, ?_⟩
    · exact (le_or_gt bound 0).imp id le_of_lt
    · refine ⟨nofun, fun hle => absurd hle.2 ?_⟩
      exact not_le.2 hpos
    · exact ih fun call hcall => hidle call (List.mem_cons_of_mem _ hcall)

end

/-! ## A decoder that decodes nothing else -/

/-- A machine for one stream: it reads the stream as it comes, and writes the payload behind its
last byte. -/
def inflateOne (stream payload : List UInt8) : Inflate (List UInt8 × List UInt8) where
  inflateInit2 _ := .ok (stream, payload)
  inflate state input room :=
    if state.1 <+: input then
      ⟨([], state.2.drop room), if state.2.length ≤ room then zStreamEnd else zOk, state.1.length,
        state.2.take room⟩
    else if input = [] then ⟨state, zBufError, 0, []⟩
    else if input <+: state.1 then ⟨(state.1.drop input.length, state.2), zOk, input.length, []⟩
    else ⟨state, -3, 0, []⟩

lemma inflateOne_decodes {stream : List UInt8} (hstream : stream ≠ []) (payload : List UInt8)
    (wbits : ℤ) : Decodes (inflateOne stream payload) wbits
      (fun state input output => state = (input, output)) stream payload where
  start := by
    refine ⟨(stream, payload), rfl, rfl, fun room => ?_⟩
    rw [inflateOne]
    dsimp only
    rw [if_neg fun h => hstream (List.prefix_nil.1 h), if_pos rfl]
  whole := by
    rintro _ input output trailing room rfl hroom
    refine ⟨_, _, _, _, if_pos (List.prefix_append _ _), ?_⟩
    dsimp only
    by_cases hle : output.length ≤ room
    · exact .inl ⟨if_pos hle, rfl, List.take_of_length_le hle⟩
    · refine .inr ⟨if_neg hle, le_rfl, ?_, output.drop room, ?_, ?_⟩
      · rw [List.length_take]
        omega
      · exact (List.take_append_drop room output).symm
      · rw [List.drop_length]
  unfinished := by
    rintro _ input output part room rfl hpart hne
    have hnot : ¬input <+: part := fun h => hne (hpart.eq_of_length_le h.length_le)
    rw [inflateOne]
    dsimp only
    rw [if_neg hnot]
    have hcodes : zBufError ≠ zStreamEnd ∧ zOk ≠ zStreamEnd := by decide
    split_ifs
    · exact hcodes.1
    · exact hcodes.2

section

variable {stream payload : List UInt8} {wbits : ℤ}

lemma inflateOne_part {input : List UInt8} (hwhole : ¬stream <+: input) (room : ℕ) :
    (inflateOne stream payload).inflate (stream, payload) input room =
      if input = [] then ⟨(stream, payload), zBufError, 0, []⟩
      else if input <+: stream then ⟨(stream.drop input.length, payload), zOk, input.length, []⟩
      else ⟨(stream, payload), -3, 0, []⟩ := if_neg hwhole

/-- A state that has not read the stream ends only on an input that begins with it. -/
lemma inflateRounds_inflateOne {fuel : ℕ} {input out written remaining : List UInt8}
    (hrun : inflateRounds (inflateOne stream payload) fuel (stream, payload) input out =
      .ok (written, true, remaining)) : ∃ trailing, input = stream ++ trailing := by
  cases fuel with
  | zero => cases hrun
  | succ fuel =>
    by_cases hwhole : stream <+: input
    · obtain ⟨trailing, rfl⟩ := hwhole
      exact ⟨trailing, rfl⟩
    · rw [inflateRounds, inflateOne_part hwhole] at hrun
      by_cases hnil : input = []
      · rw [if_pos hnil] at hrun
        subst hnil
        cases hrun
      · rw [if_neg hnil] at hrun
        by_cases hpart : input <+: stream
        · rw [if_pos hpart] at hrun
          simp only [List.drop_length] at hrun
          cases hrun
        · rw [if_neg hpart] at hrun
          cases hrun

/-- A call of an object that has not seen the end sees it only where its input begins with the
stream, and then delivers no more than the payload. -/
lemma call_inflateOne {fuel : ℕ} {chunk : List UInt8} {limit : ℤ} {out : List UInt8}
    {next : ZlibDecompressObjectState} (hstream : stream ≠ []) (hfuel : payload.length < fuel)
    (hcall : (decompressObject (inflateOne stream payload) fuel).call (.new wbits) chunk limit =
      .ok (out, next)) :
    next = .new wbits ∨ ∃ trailing, chunk = stream ++ trailing ∧ chunk.length ≤ cUintMax ∧
      out = cut limit payload ∧ next.eof = true ∧ next.unusedData = trailing := by
  obtain ⟨bytes, eof, unused, hbytes, rfl, rfl⟩ := call_eq_ok.1 hcall
  have hlength : chunk.length ≤ cUintMax := by
    by_contra hlarge
    rw [zlibInflateBytes, if_pos (by omega)] at hbytes
    cases hbytes
  have hrun := hbytes
  rw [zlibInflateBytes, if_neg (by omega)] at hrun
  change (inflateRounds (inflateOne stream payload) fuel (stream, payload) chunk [] >>= _) = _
    at hrun
  cases hrounds : inflateRounds (inflateOne stream payload) fuel (stream, payload) chunk [] with
  | error fault =>
    rw [hrounds] at hrun
    cases hrun
  | ok result =>
    obtain ⟨written, ended, remaining⟩ := result
    rw [hrounds] at hrun
    cases ended with
    | false =>
      cases hrun
      exact .inl rfl
    | true =>
      obtain ⟨trailing, rfl⟩ := inflateRounds_inflateOne hrounds
      rw [zlibInflateBytes_whole (inflateOne_decodes hstream payload wbits) hfuel hlength] at hbytes
      cases hbytes
      exact .inr ⟨_, rfl, hlength, rfl, rfl, rfl⟩

/-- Once a part of the stream has been read alone, the object does not see its end where it is. -/
lemma not_streams_of_supplied {fuel : ℕ} (hstream : stream ≠ []) (hfuel : payload.length < fuel)
    {calls : List (List UInt8 × ℤ)} {supplied delivered : List UInt8} (hsupplied : supplied ≠ []) :
    ¬(decompressObject (inflateOne stream payload) fuel).Streams stream payload (.new wbits)
      supplied delivered calls := by
  induction calls generalizing supplied delivered with
  | nil =>
    intro h
    obtain ⟨out, next, hcall, -, heof⟩ := h 0 le_rfl
    rcases call_inflateOne hstream hfuel hcall with rfl | ⟨trailing, hchunk, -⟩
    · cases heof
    · exact hstream (List.append_eq_nil_iff.1 hchunk.symm).1
  | cons head calls ih =>
    obtain ⟨chunk, limit⟩ := head
    rintro ⟨out, next, hcall, -, heof, hunused, hstreams⟩
    rcases call_inflateOne hstream hfuel hcall with rfl | ⟨trailing, hchunk, -, -, hend, hnext⟩
    · exact ih (fun h => hsupplied (List.append_eq_nil_iff.1 h).1) hstreams
    · have hlength := congrArg List.length (hnext.symm.trans (hunused hend))
      have hchunk' : chunk.length = _ := congrArg List.length hchunk
      have hpos : 0 < supplied.length := List.length_pos_iff.2 hsupplied
      rw [List.length_drop, List.length_append] at hlength
      rw [List.length_append] at hchunk'
      omega

lemma arrivesWhole_of_streams {fuel : ℕ} (hstream : stream ≠ []) (hfuel : payload.length < fuel)
    {calls : List (List UInt8 × ℤ)}
    (h : (decompressObject (inflateOne stream payload) fuel).Streams stream payload (.new wbits)
      [] [] calls) : ArrivesWhole stream payload calls := by
  induction calls with
  | nil =>
    obtain ⟨out, next, hcall, -, heof⟩ := h 0 le_rfl
    rcases call_inflateOne hstream hfuel hcall with rfl | ⟨trailing, hchunk, -⟩
    · cases heof
    · exact absurd (List.append_eq_nil_iff.1 hchunk.symm).1 hstream
  | cons head calls ih =>
    obtain ⟨chunk, limit⟩ := head
    obtain ⟨out, next, hcall, -, heof, -, hstreams⟩ := h
    rcases call_inflateOne hstream hfuel hcall with rfl | ⟨trailing, hchunk, hlength, hout, hend, -⟩
    · by_cases hempty : chunk = []
      · -- a call without input leaves the object as it was
        subst hempty
        have hnil := call_nil (inflateOne_decodes hstream payload wbits) (by omega : 0 < fuel) limit
        obtain rfl : out = [] := congrArg Prod.fst (Except.ok.inj (hcall.symm.trans hnil))
        obtain ⟨idle, later, bound, others, rfl, hidle, hlater⟩ := ih hstreams
        refine ⟨([], limit) :: idle, later, bound, others, rfl, ?_, hlater⟩
        intro call hmem
        rcases List.mem_cons.1 hmem with rfl | hmem
        · rfl
        · exact hidle call hmem
      · exact absurd hstreams (not_streams_of_supplied hstream hfuel hempty)
    · refine ⟨[], chunk, limit, calls, rfl, nofun, ⟨trailing, hchunk.symm⟩, hlength, ?_⟩
      rw [← cut_eq_iff, ← hout]
      exact (heof.1 hend).1

end

/-! ## The streams that are delivered -/

/-- What every correct decoder guarantees of a sequence of calls: the payload is delivered, its end
seen and what is behind it kept, exactly where behind calls without input one call has the whole
stream and a limit that lets the payload through. -/
theorem decompressObject_streams_iff {wbits : ℤ} {stream payload : List UInt8}
    (hstream : stream ≠ []) {calls : List (List UInt8 × ℤ)} :
    (∀ (Stream : Type) (library : Inflate Stream)
        (rest : Stream → List UInt8 → List UInt8 → Prop),
      Decodes library wbits rest stream payload → ∀ fuel, payload.length < fuel →
        (decompressObject library fuel).Streams stream payload (.new wbits) [] [] calls) ↔
      ArrivesWhole stream payload calls := by
  constructor
  · intro h
    exact arrivesWhole_of_streams hstream (Nat.lt_succ_self payload.length)
      (h _ _ _ (inflateOne_decodes hstream payload wbits) _ (Nat.lt_succ_self payload.length))
  · intro hwhole Stream library rest hdecodes fuel hfuel
    exact streams_of_arrivesWhole hdecodes hstream hfuel hwhole

/-- The stream of the two bytes of `hi`. -/
def hiStream : List UInt8 := [0x78, 0x9c, 0xcb, 0xc8, 0x04, 0x00, 0x01, 0x3b, 0x00, 0xd2]

/-- The stream of `hi` in one call, with a byte behind it. -/
theorem decompressObject_streams_iff_hi :
    (∀ (Stream : Type) (library : Inflate Stream)
        (rest : Stream → List UInt8 → List UInt8 → Prop),
      Decodes library 15 rest hiStream [0x68, 0x69] → ∀ fuel, [0x68, 0x69].length < fuel →
        (decompressObject library fuel).Streams hiStream [0x68, 0x69] (.new 15) [] []
          [([], 0), (hiStream ++ [7], 2)]) ↔
      ArrivesWhole hiStream [0x68, 0x69] [([], 0), (hiStream ++ [7], 2)] :=
  decompressObject_streams_iff (by decide)

/-- With a limit of one byte the second byte of `hi` is lost. -/
theorem decompressObject_loses_cutOutput :
    ¬∀ (Stream : Type) (library : Inflate Stream)
        (rest : Stream → List UInt8 → List UInt8 → Prop) (wbits : ℤ) (stream payload : List UInt8),
      stream ≠ [] → Decodes library wbits rest stream payload → ∀ fuel, payload.length < fuel →
        ∀ calls trailing, (calls.map Prod.fst).flatten = stream ++ trailing →
          (decompressObject library fuel).Streams stream payload (.new wbits) [] [] calls := by
  intro h
  have hstream : hiStream ≠ [] := by decide
  have hstreams := h _ _ _ 15 hiStream [0x68, 0x69] hstream
    (inflateOne_decodes hstream [0x68, 0x69] 15) 3 (by decide) [(hiStream, 1)] [] rfl
  obtain ⟨idle, chunk, limit, others, hcalls, hidle, hprefix, -, hlimit⟩ :=
    arrivesWhole_of_streams hstream (by decide) hstreams
  cases idle with
  | nil =>
    cases hcalls
    exact absurd hlimit (by decide)
  | cons head idle =>
    obtain ⟨rfl, -⟩ := List.cons.inj hcalls
    exact hstream (hidle _ List.mem_cons_self)

end Zlib

end Pyrs
