import Pyrs.Library.Results
import Pyrs.Model.ExceptionTables
import Mathlib.Algebra.BigOperators.Group.List.Basic

/-!
# The parsing of exception tables

The bytes of an exception table are parsed into its handlers, in order, and whatever bytes are
parsed into are ranges of instructions with targets.
-/

namespace Pyrs

namespace ExceptionTable

/-! ## The bytes of a table -/

/-- The groups in front of the last one. -/
def highGroups (value : ℕ) : List UInt8 :=
  if value = 0 then [] else highGroups (value / 64) ++ [UInt8.ofNat (64 + value % 64)]

def writeVarint (value : ℕ) : List UInt8 :=
  highGroups (value / 64) ++ [UInt8.ofNat (value % 64)]

/-- The first byte of an entry has a mark of its own. -/
def markFirst : List UInt8 → List UInt8
  | [] => []
  | byte :: bytes => (byte ||| 0x80) :: bytes

end ExceptionTable

open ExceptionTable in
def ExceptionHandler.encode (handler : ExceptionHandler) : List UInt8 :=
  markFirst (writeVarint handler.start) ++ (writeVarint (handler.end - handler.start) ++
    (writeVarint handler.target ++ writeVarint (2 * handler.depth + handler.pushLasti.toNat)))

/-- A range of instructions and a target. -/
structure ExceptionHandler.InRange (instructionCount : ℕ) (handler : ExceptionHandler) : Prop where
  start_lt : handler.start < handler.end
  end_le : handler.end ≤ instructionCount
  target_le : handler.target ≤ instructionCount

/-- The numbers of a handler fit in the groups of an entry. -/
structure ExceptionHandler.Fits (handler : ExceptionHandler) : Prop where
  start_lt : handler.start < 2 ^ 30
  size_lt : handler.end - handler.start < 2 ^ 30
  target_lt : handler.target < 2 ^ 30
  depth_lt : handler.depth < 2 ^ 30

namespace ExceptionTable

open Results

/-! ## Numbers -/

variable {value : ℕ} {rest : List UInt8}

lemma group_and (value : ℕ) (hvalue : value < 128) :
    (UInt8.ofNat value &&& 0x3F).toUInt32 = UInt32.ofNat (value % 64) ∧
      (UInt8.ofNat value &&& 0x40 = 0 ↔ value < 64) := by
  have hall : ∀ k : Fin 128, (UInt8.ofNat k &&& 0x3F).toUInt32 = UInt32.ofNat (k % 64) ∧
      (UInt8.ofNat k &&& 0x40 = 0 ↔ k.val < 64) := by decide
  exact hall ⟨value, hvalue⟩

lemma marked_and (byte : UInt8) :
    (byte ||| 0x80) &&& 0x3F = byte &&& 0x3F ∧ (byte ||| 0x80) &&& 0x40 = byte &&& 0x40 := by
  have hall : ∀ k : Fin 256, (UInt8.ofNat k ||| 0x80) &&& 0x3F = UInt8.ofNat k &&& 0x3F ∧
      (UInt8.ofNat k ||| 0x80) &&& 0x40 = UInt8.ofNat k &&& 0x40 := by decide +kernel
  simpa using hall ⟨byte.toNat, byte.toNat_lt⟩

lemma toNat_ofNat {value : ℕ} (h : value < 2 ^ 32) : (UInt32.ofNat value).toNat = value :=
  UInt32.toNat_ofNat_of_lt' h

lemma shiftLeft_or (high : ℕ) {low : ℕ} (hlow : low < 64) (h : high * 64 + low < 2 ^ 32) :
    UInt32.ofNat high <<< 6 ||| UInt32.ofNat low = UInt32.ofNat (high * 64 + low) := by
  have hshifted : (UInt32.ofNat high <<< 6).toNat = 2 ^ 6 * high := by
    rw [UInt32.toNat_shiftLeft, toNat_ofNat (by omega), Nat.shiftLeft_eq]
    change high * 2 ^ 6 % 2 ^ 32 = _
    omega
  refine UInt32.toNat_inj.1 ?_
  rw [UInt32.toNat_or, hshifted, toNat_ofNat (by omega), toNat_ofNat h,
    ← Nat.two_pow_add_eq_or_of_lt hlow]
  omega

/-- A group behind another one comes to the number of both. -/
lemma parseGroups_continued (high : ℕ) {low : ℕ} (hlow : low < 128)
    (h : high * 64 + low % 64 < 2 ^ 32) :
    parseGroups (UInt32.ofNat high) (UInt8.ofNat (64 + high % 64)) (UInt8.ofNat low :: rest) =
      parseGroups (UInt32.ofNat (high * 64 + low % 64)) (UInt8.ofNat low) rest := by
  have hmark := (group_and (64 + high % 64) (by omega)).2
  rw [parseGroups, if_neg (by rw [hmark]; omega), (group_and low hlow).1,
    shiftLeft_or high (Nat.mod_lt _ (by decide)) h]

/-- Behind the high groups the parser has their number. -/
lemma parseVarint_highGroups {high low : ℕ} (hhigh : high ≠ 0) (hlow : low < 128)
    (h : high * 64 + low % 64 < 2 ^ 32) :
    parseVarint (highGroups high ++ UInt8.ofNat low :: rest) =
      parseGroups (UInt32.ofNat (high * 64 + low % 64)) (UInt8.ofNat low) rest := by
  induction high using Nat.strongRecOn generalizing low rest with
  | ind high ih =>
    rw [highGroups, if_neg hhigh, List.append_assoc, List.singleton_append]
    by_cases hfirst : high / 64 = 0
    · have hgroup : (64 + high % 64) % 64 = high := by omega
      rw [hfirst, highGroups, if_pos rfl, List.nil_append, parseVarint,
        (group_and (64 + high % 64) (by omega)).1, hgroup, parseGroups_continued high hlow h]
    · have hsplit : high / 64 * 64 + (64 + high % 64) % 64 = high := by omega
      rw [ih (high / 64) (by omega) hfirst (by omega) (by omega), hsplit,
        parseGroups_continued high hlow h]

/-- The last group ends the number. -/
lemma parseGroups_last (acc : UInt32) {low : ℕ} (hlow : low < 64) :
    parseGroups acc (UInt8.ofNat low) rest = .ok (acc, rest) := by
  have hmark := (group_and low (by omega)).2.2 hlow
  cases rest <;> rw [parseGroups, if_pos hmark]

lemma parseVarint_writeVarint (h : value < 2 ^ 32) :
    parseVarint (writeVarint value ++ rest) = .ok (UInt32.ofNat value, rest) := by
  have hlow : value % 64 < 64 := Nat.mod_lt _ (by decide)
  rw [writeVarint, List.append_assoc, List.singleton_append]
  by_cases hfirst : value / 64 = 0
  · have hsmall : value % 64 % 64 = value := by omega
    rw [hfirst, highGroups, if_pos rfl, List.nil_append, parseVarint,
      (group_and (value % 64) (by omega)).1, hsmall, parseGroups_last _ hlow]
  · have hsplit : value / 64 * 64 + value % 64 % 64 = value := by omega
    rw [parseVarint_highGroups hfirst (by omega) (by omega), hsplit, parseGroups_last _ hlow]

/-- The mark of an entry is not part of its first number. -/
lemma parseVarint_markFirst {bytes : List UInt8} (h : bytes ≠ []) :
    parseVarint (markFirst bytes ++ rest) = parseVarint (bytes ++ rest) := by
  cases bytes with
  | nil => exact absurd rfl h
  | cons byte bytes =>
    obtain ⟨hgroup, hmark⟩ := marked_and byte
    simp only [markFirst, List.cons_append, parseVarint, hgroup]
    cases hrest : bytes ++ rest <;> simp only [parseGroups, hmark]

lemma writeVarint_ne_nil (value : ℕ) : writeVarint value ≠ [] := by
  simp [writeVarint]

/-! ## Entries -/

lemma parseEntry_encode {instructionCount : ℕ} {handler : ExceptionHandler}
    (hrange : handler.InRange instructionCount) (hfits : handler.Fits) :
    parseEntry instructionCount (handler.encode ++ rest) = .ok (handler, rest) := by
  obtain ⟨start, stop, target, depth, pushLasti⟩ := handler
  obtain ⟨hstart, hend, htarget⟩ := hrange
  obtain ⟨hstartFits, hsizeFits, htargetFits, hdepthFits⟩ := hfits
  dsimp only at *
  have hlasti : pushLasti.toNat < 2 := by cases pushLasti <;> decide
  have hstop : saturatingAdd start (stop - start) = stop := by
    rw [saturatingAdd]
    omega
  have hdepth : (2 * depth + pushLasti.toNat) >>> 1 = depth := by
    rw [Nat.shiftRight_eq_div_pow]
    omega
  have hpush : decide ((2 * depth + pushLasti.toNat) &&& 1 = 1) = pushLasti := by
    rw [Nat.and_one_is_mod]
    cases pushLasti <;> simp [Nat.add_mod]
  simp only [ExceptionHandler.encode, List.append_assoc, parseEntry,
    parseVarint_markFirst (writeVarint_ne_nil _), ok_bind,
    parseVarint_writeVarint (show start < 2 ^ 32 by omega),
    parseVarint_writeVarint (show stop - start < 2 ^ 32 by omega),
    parseVarint_writeVarint (show target < 2 ^ 32 by omega),
    parseVarint_writeVarint (show 2 * depth + pushLasti.toNat < 2 ^ 32 by omega),
    toNat_ofNat (show start < 2 ^ 32 by omega),
    toNat_ofNat (show stop - start < 2 ^ 32 by omega),
    toNat_ofNat (show target < 2 ^ 32 by omega),
    toNat_ofNat (show 2 * depth + pushLasti.toNat < 2 ^ 32 by omega), hstop, hdepth, hpush]
  rw [if_neg (by omega), if_neg (by omega)]
  rfl

lemma encode_ne_nil (handler : ExceptionHandler) : handler.encode ≠ [] := by
  intro h
  obtain ⟨hfirst, -⟩ := List.append_eq_nil_iff.1 h
  cases hwrite : writeVarint handler.start with
  | nil => exact writeVarint_ne_nil _ hwrite
  | cons byte bytes =>
    rw [hwrite] at hfirst
    cases hfirst

/-- As many rounds as there are bytes are enough. -/
lemma parseEntries_encode {instructionCount rounds : ℕ} {handlers : List ExceptionHandler}
    (h : ∀ handler ∈ handlers, handler.InRange instructionCount ∧ handler.Fits)
    (hrounds : handlers.length ≤ rounds) :
    parseEntries instructionCount rounds (handlers.flatMap ExceptionHandler.encode) =
      .ok handlers := by
  induction handlers generalizing rounds with
  | nil => cases rounds <;> rfl
  | cons handler handlers ih =>
    obtain ⟨⟨hrange, hfits⟩, hrest⟩ := List.forall_mem_cons.1 h
    obtain ⟨rounds, rfl⟩ : ∃ more, rounds = more + 1 :=
      ⟨rounds - 1, by rw [List.length_cons] at hrounds; omega⟩
    have hparse : parseEntry instructionCount
        (handler.encode ++ handlers.flatMap ExceptionHandler.encode) = .ok (handler, _) :=
      parseEntry_encode hrange hfits
    have hmore := ih hrest (Nat.le_of_succ_le_succ hrounds)
    rw [List.flatMap_cons]
    cases hbytes : handler.encode ++ handlers.flatMap ExceptionHandler.encode with
    | nil => exact absurd (List.append_eq_nil_iff.1 hbytes).1 (encode_ne_nil handler)
    | cons byte bytes =>
      rw [hbytes] at hparse
      rw [parseEntries, hparse]
      change (parseEntries instructionCount rounds _ >>= _) = _
      rw [hmore]
      rfl

/-- An entry is checked before it becomes a handler. -/
lemma inRange_of_parseEntry {instructionCount : ℕ} {bytes : List UInt8}
    {handler : ExceptionHandler} (h : parseEntry instructionCount bytes = .ok (handler, rest)) :
    handler.InRange instructionCount := by
  obtain ⟨⟨start, bytes⟩, -, h⟩ := Results.bind_eq_ok.1 h
  obtain ⟨⟨size, bytes⟩, -, h⟩ := Results.bind_eq_ok.1 h
  obtain ⟨⟨target, bytes⟩, -, h⟩ := Results.bind_eq_ok.1 h
  obtain ⟨⟨depthAndLasti, bytes⟩, -, h⟩ := Results.bind_eq_ok.1 h
  dsimp only at h
  split at h
  · cases h
  next hin =>
    split at h
    · cases h
    next hlt =>
      obtain rfl := (Prod.mk.inj (Except.ok.inj h)).1
      simp only [not_or, Nat.not_lt] at hin
      exact ⟨Nat.not_le.1 hlt, hin.2.1, hin.2.2⟩

lemma inRange_of_parseEntries {instructionCount rounds : ℕ} {bytes : List UInt8}
    {handlers : List ExceptionHandler}
    (h : parseEntries instructionCount rounds bytes = .ok handlers) :
    ∀ handler ∈ handlers, handler.InRange instructionCount := by
  induction rounds generalizing bytes handlers with
  | zero =>
    cases bytes with
    | nil =>
      obtain rfl := Except.ok.inj h
      simp
    | cons byte bytes => cases h
  | succ rounds ih =>
    cases bytes with
    | nil =>
      obtain rfl := Except.ok.inj h
      simp
    | cons byte bytes =>
      obtain ⟨⟨handler, bytes⟩, hentry, h⟩ := Results.bind_eq_ok.1 h
      obtain ⟨more, hmore, h⟩ := Results.bind_eq_ok.1 h
      obtain rfl := Except.ok.inj h
      exact List.forall_mem_cons.2 ⟨inRange_of_parseEntry hentry, ih hmore⟩

/-! ## Tables -/

/-- The bytes of a table are parsed into its handlers, and all handlers that any bytes are parsed
into are in range. -/
theorem parseExceptionTable_correct (instructionCount : ℕ) :
    (∀ handlers : List ExceptionHandler,
      (∀ handler ∈ handlers, handler.InRange instructionCount ∧ handler.Fits) →
      parseExceptionTable (handlers.flatMap ExceptionHandler.encode) instructionCount =
        .ok handlers) ∧
    ∀ (bytes : List UInt8) (handlers : List ExceptionHandler),
      parseExceptionTable bytes instructionCount = .ok handlers →
      ∀ handler ∈ handlers, handler.InRange instructionCount := by
  refine ⟨fun handlers h => parseEntries_encode h ?_, fun bytes handlers => inRange_of_parseEntries⟩
  have hsum := List.length_le_sum_of_one_le (handlers.map fun handler => handler.encode.length)
  rw [List.length_map, ← List.length_flatMap] at hsum
  refine hsum fun length hlength => ?_
  obtain ⟨handler, -, rfl⟩ := List.mem_map.1 hlength
  exact List.length_pos_of_ne_nil (encode_ne_nil handler)

/-- Handlers for the instructions from 1 to 70, with its target at 100, and for the next two. -/
theorem parseExceptionTable_correct_twoHandlers :
    parseExceptionTable [0x81, 0x41, 0x05, 0x41, 0x24, 0x03, 0xc1, 0x06, 0x02, 0x41, 0x2e, 0x00]
        120 = .ok [⟨1, 70, 100, 1, true⟩, ⟨70, 72, 110, 0, false⟩] := by
  have hbytes : [⟨1, 70, 100, 1, true⟩, ⟨70, 72, 110, 0, false⟩].flatMap ExceptionHandler.encode =
      [0x81, 0x41, 0x05, 0x41, 0x24, 0x03, 0xc1, 0x06, 0x02, 0x41, 0x2e, 0x00] := by
    decide +kernel
  have h := (parseExceptionTable_correct 120).1 [⟨1, 70, 100, 1, true⟩, ⟨70, 72, 110, 0, false⟩]
  rw [hbytes] at h
  refine h fun handler hmem => ?_
  rcases List.mem_pair.1 hmem with rfl | rfl
  · exact ⟨⟨by decide, by decide, by decide⟩, ⟨by decide, by decide, by decide, by decide⟩⟩
  · exact ⟨⟨by decide, by decide, by decide⟩, ⟨by decide, by decide, by decide, by decide⟩⟩

end ExceptionTable

end Pyrs
