import Pyrs.Model.CheckedLineTables
import Pyrs.Properties.LineTableDecoding

/-!
# Panics of the reader of line tables

What the numbers of a line table demand of the reader: that a number has no more groups than fit,
and that the lines and columns they come to, as integers without a bound, are those of the machine.
The reader does not panic exactly where the demands of the entries that it reads are met.
-/

namespace Pyrs

namespace LineTable

/-! ## Reading without bounds -/

inductive Demand
  | groups (count : ℕ)
  | number (value : ℤ)

def Demand.Met : Demand → Prop
  | groups count => count ≤ 6
  | number value => -2 ^ 31 ≤ value ∧ value < 2 ^ 31

instance (demand : Demand) : Decidable demand.Met := by
  cases demand <;> unfold Demand.Met <;> infer_instance

/-- What a reader demands, and what it reads if the bytes are well-formed. -/
structure Reading (α : Type) where
  demands : List Demand
  result : Option α

namespace Reading

variable {α β : Type}

def AllMet (reading : Reading α) : Prop := ∀ demand ∈ reading.demands, demand.Met

instance (reading : Reading α) : Decidable reading.AllMet :=
  inferInstanceAs (Decidable (∀ demand ∈ reading.demands, demand.Met))

def demand (demand : Demand) : Reading Unit := ⟨[demand], some ()⟩

def malformed : Reading α := ⟨[], none⟩

instance : Monad Reading where
  pure a := ⟨[], some a⟩
  bind reading next :=
    match reading.result with
    | some a => ⟨reading.demands ++ (next a).demands, (next a).result⟩
    | none => ⟨reading.demands, none⟩

end Reading

/-- The bytes of a number, and those behind it if it has an end. -/
def splitNumber : List UInt8 → List UInt8 × Option (List UInt8)
  | [] => ([], none)
  | read :: rest =>
    if read &&& 0x40 = 0 then ([read], some rest)
    else (read :: (splitNumber rest).1, (splitNumber rest).2)

def groupsValue : List UInt8 → ℕ
  | [] => 0
  | group :: groups => (group &&& 0x3F).toNat + 64 * groupsValue groups

/-- The number of some groups; bits that it has no room for are dropped. -/
def unsignedValue (groups : List UInt8) : ℤ := (UInt32.ofNat (groupsValue groups)).toInt32.toInt

/-- The lowest bit is the sign. -/
def signedValue (groups : List UInt8) : ℤ :=
  let value := groupsValue groups % 2 ^ 32
  if value % 2 = 1 then -(value / 2 : ℕ) else (value / 2 : ℕ)

def readNumber (value : List UInt8 → ℤ) (table : List UInt8) : Reading (ℤ × List UInt8) :=
  ⟨[.groups (splitNumber table).1.length],
    (splitNumber table).2.map fun rest => (value (splitNumber table).1, rest)⟩

/-- The line behind an entry, and the bytes behind it. -/
def readEntry (infoKind : ℕ) (line : ℤ) (table : List UInt8) : Reading (ℤ × List UInt8) :=
  if infoKind = PY_CODE_LOCATION_INFO_NONE then return (line, table)
  else if infoKind = PY_CODE_LOCATION_INFO_LONG then do
    let (lineDelta, table) ← readNumber signedValue table
    Reading.demand (.number (line + lineDelta))
    let (endLineDelta, table) ← readNumber unsignedValue table
    let (column, table) ← readNumber unsignedValue table
    Reading.demand (.number (column - 1))
    let (endColumn, table) ← readNumber unsignedValue table
    Reading.demand (.number (endColumn - 1))
    Reading.demand (.number (line + lineDelta + endLineDelta))
    return (line + lineDelta, table)
  else if infoKind = PY_CODE_LOCATION_INFO_NO_COLUMNS then do
    let (lineDelta, table) ← readNumber signedValue table
    Reading.demand (.number (line + lineDelta))
    return (line + lineDelta, table)
  else if PY_CODE_LOCATION_INFO_ONE_LINE0 ≤ infoKind ∧
      infoKind ≤ PY_CODE_LOCATION_INFO_ONE_LINE2 then do
    Reading.demand (.number (line + (infoKind - 10)))
    match table with
    | _ :: _ :: table => return (line + (infoKind - 10), table)
    | _ => Reading.malformed
  else
    match table with
    | second :: table => if second.toNat < 128 then return (line, table) else Reading.malformed
    | [] => Reading.malformed

/-- The entries up to the last instruction. -/
def readEntries (instructionCount : ℕ) : ℕ → List UInt8 → ℕ → ℤ → Reading Unit
  | 0, _, _, _ => return ()
  | _ + 1, [], _, _ => return ()
  | fuel + 1, first :: rest, instructionIndex, line =>
    if instructionIndex < instructionCount then
      if first.toNat < 128 then Reading.malformed
      else do
        let (line, rest) ← readEntry (first.toNat / 8 % 16) line rest
        readEntries instructionCount fuel rest
          (min (instructionIndex + (first.toNat % 8 + 1)) instructionCount) line
    else return ()

/-- What a line table demands. -/
def readTable (linetable : List UInt8) (firstlineno : Int32) (instructionCount : ℕ) :
    Reading Unit :=
  readEntries instructionCount linetable.length linetable 0 firstlineno.toInt

/-! ## Checked computations and readings -/

open Checked (panic i32)

/-- The computation panics where a demand is not met; else it gives what is read, or an error where
the bytes are malformed. -/
structure Agrees {α β : Type} (view : α → β) (x : Checked α) (reading : Reading β) : Prop where
  ok : reading.AllMet → ∀ b, reading.result = some b → ∃ a, x.run = some (.ok a) ∧ view a = b
  error : reading.AllMet → reading.result = none → ∃ message, x.run = some (.error message)
  panic : ¬ reading.AllMet → x.run = none

namespace Agrees

variable {α α' β β' : Type} {view : α → β} {view' : α' → β'}

lemma pure (a : α) : Agrees view (Pure.pure a) (Pure.pure (view a)) where
  ok _ b hb := ⟨a, rfl, Option.some.inj hb⟩
  error _ h := by cases h
  panic h := absurd (fun _ hmem => by cases hmem) h

lemma throw (message : String) : Agrees view (throw message) Reading.malformed where
  ok _ b hb := by cases hb
  error _ _ := ⟨message, rfl⟩
  panic h := absurd (fun _ hmem => by cases hmem) h

lemma bind {x : Checked α} {reading : Reading β} {f : α → Checked α'} {next : β → Reading β'}
    (hx : Agrees view x reading)
    (hf : ∀ a, x.run = some (.ok a) → Agrees view' (f a) (next (view a))) :
    Agrees view' (x >>= f) (reading >>= next) := by
  obtain ⟨demands, result⟩ := reading
  have hrun : (x >>= f).run = x.run >>= ExceptT.bindCont f := rfl
  cases result with
  | none =>
    have hbind : ((⟨demands, none⟩ : Reading β) >>= next) = ⟨demands, none⟩ := rfl
    rw [hbind]
    refine ⟨fun _ _ hb => ?_, fun hmet _ => ?_, fun hmet => ?_⟩
    · cases hb
    · obtain ⟨message, hmessage⟩ := hx.error hmet rfl
      exact ⟨message, by rw [hrun, hmessage]; rfl⟩
    · rw [hrun, hx.panic hmet]
      rfl
  | some b =>
    have hbind : ((⟨demands, some b⟩ : Reading β) >>= next) =
        ⟨demands ++ (next b).demands, (next b).result⟩ := rfl
    rw [hbind]
    by_cases hmet : ∀ demand ∈ demands, demand.Met
    · obtain ⟨a, ha, rfl⟩ := hx.ok hmet b rfl
      have hfirst : (x >>= f).run = (f a).run := by
        rw [hrun, ha]
        rfl
      have hall : (⟨demands ++ (next (view a)).demands, (next (view a)).result⟩ :
          Reading β').AllMet ↔ (next (view a)).AllMet := by
        simp only [Reading.AllMet, List.forall_mem_append]
        exact ⟨And.right, fun h => ⟨hmet, h⟩⟩
      refine ⟨fun h b hb => ?_, fun h hnone => ?_, fun h => ?_⟩
      · rw [hfirst]
        exact (hf a ha).ok (hall.1 h) b hb
      · rw [hfirst]
        exact (hf a ha).error (hall.1 h) hnone
      · rw [hfirst]
        exact (hf a ha).panic fun h' => h (hall.2 h')
    · have hpanic : (x >>= f).run = none := by
        rw [hrun, hx.panic hmet]
        rfl
      have hnot : ¬ (⟨demands ++ (next b).demands, (next b).result⟩ : Reading β').AllMet :=
        fun h => hmet (List.forall_mem_append.1 h).1
      exact ⟨fun h => absurd h hnot, fun h => absurd h hnot, fun _ => hpanic⟩

/-- A checked number is demanded to fit. -/
lemma number {f : ℤ → Checked α'} {next : Reading β'} (value : ℤ)
    (hf : Agrees view' (f value) next) :
    Agrees view' (i32 value >>= f) (Reading.demand (.number value) >>= fun _ => next) := by
  have hvalue : Agrees (fun _ => ()) (i32 value) (Reading.demand (.number value)) := by
    have hall : (Reading.demand (.number value)).AllMet ↔
        -2 ^ 31 ≤ value ∧ value < 2 ^ 31 := by
      simp [Reading.AllMet, Reading.demand, Demand.Met]
    refine ⟨fun h _ _ => ⟨value, ?_, rfl⟩, fun _ h => absurd h nofun, fun h => ?_⟩
    · rw [i32, if_pos (hall.1 h)]
      rfl
    · rw [i32, if_neg fun h' => h (hall.2 h')]
      rfl
  refine hvalue.bind fun a ha => ?_
  unfold i32 at ha
  split at ha
  · obtain rfl := Except.ok.inj (Option.some.inj ha)
    exact hf
  · cases ha

end Agrees

/-- A number that fits is checked in vain. -/
lemma i32_eq {value : ℤ} (h : -2 ^ 31 ≤ value ∧ value < 2 ^ 31) : i32 value = pure value :=
  if_pos h

/-! ## Numbers -/

lemma byte_facts (byte : UInt8) :
    (byte &&& 0x80 = 0 ↔ byte.toNat < 128) ∧ (byte &&& 0x07).toNat = byte.toNat % 8 ∧
      (byte >>> 3 &&& 0x0F).toNat = byte.toNat / 8 % 16 ∧
      (byte.toNat &&& 0x80 = 0 ↔ byte.toNat < 128) := by
  have hall : ∀ k : Fin 256, (UInt8.ofNat k &&& 0x80 = 0 ↔ k.val < 128) ∧
      (UInt8.ofNat k &&& 0x07).toNat = k % 8 ∧
      (UInt8.ofNat k >>> 3 &&& 0x0F).toNat = k / 8 % 16 ∧
      (k.val &&& 0x80 = 0 ↔ k.val < 128) := by decide +kernel
  simpa using hall ⟨byte.toNat, byte.toNat_lt⟩

/-- A group goes to its place; bits behind the last place are dropped. -/
lemma or_shiftLeft_group (acc group : UInt32) {shift : ℕ} (hshift : shift < 32)
    (hacc : acc.toNat < 2 ^ shift) :
    acc ||| group <<< UInt32.ofNat shift =
      UInt32.ofNat (acc.toNat + group.toNat * 2 ^ shift) := by
  have hamount : (UInt32.ofNat shift).toNat % 32 = shift := by
    rw [UInt32.toNat_ofNat']
    omega
  obtain ⟨more, hmore⟩ := Nat.exists_eq_add_of_le hshift.le
  have hpow : (2 : ℕ) ^ 32 = 2 ^ shift * 2 ^ more := by
    rw [← Nat.pow_add, ← hmore]
  have hplaced : (group <<< UInt32.ofNat shift).toNat =
      2 ^ shift * (group.toNat % 2 ^ more) := by
    rw [UInt32.toNat_shiftLeft, hamount, Nat.shiftLeft_eq, Nat.mul_comm, hpow,
      Nat.mul_mod_mul_left]
  have hlt : 2 ^ shift * (group.toNat % 2 ^ more) + acc.toNat < 2 ^ 32 := by
    have hle : group.toNat % 2 ^ more + 1 ≤ 2 ^ more := Nat.mod_lt _ (Nat.two_pow_pos more)
    have hmul := Nat.mul_le_mul_left (2 ^ shift) hle
    rw [← hpow, Nat.mul_succ] at hmul
    omega
  refine UInt32.toNat_inj.1 ?_
  have hsplit : acc.toNat + group.toNat * 2 ^ shift =
      2 ^ shift * (group.toNat % 2 ^ more) + acc.toNat + 2 ^ 32 * (group.toNat / 2 ^ more) := by
    conv_lhs => rw [← Nat.mod_add_div group.toNat (2 ^ more)]
    rw [hpow]
    ring
  rw [UInt32.toNat_or, hplaced, Nat.or_comm, ← Nat.two_pow_add_eq_or_of_lt hacc,
    UInt32.toNat_ofNat', hsplit, Nat.add_mul_mod_self_left, Nat.mod_eq_of_lt hlt]

/-- The loop takes six groups, and the bytes behind a longer number end the program. -/
lemma readVarint_run (table : List UInt8) {acc : UInt32} {k : ℕ} (hk : k ≤ 6)
    (hacc : acc.toNat < 2 ^ (6 * k)) :
    (k + (splitNumber table).1.length ≤ 6 →
      (Checked.readVarint acc (6 * k) table).run =
        some (match (splitNumber table).2 with
          | some rest => .ok (UInt32.ofNat (acc.toNat +
              groupsValue (splitNumber table).1 * 2 ^ (6 * k)), rest)
          | none => .error "invalid linetable: truncated payload while reading varint")) ∧
    (6 < k + (splitNumber table).1.length → (Checked.readVarint acc (6 * k) table).run = none) := by
  induction table generalizing acc k with
  | nil =>
    simp only [splitNumber, List.length_nil, Nat.add_zero]
    exact ⟨fun _ => rfl, fun h => absurd hk (Nat.not_le.2 h)⟩
  | cons read rest ih =>
    rw [Checked.readVarint]
    by_cases hshift : k = 6
    · subst hshift
      rw [if_neg (by decide)]
      have hlong : 0 < (splitNumber (read :: rest)).1.length := by
        rw [splitNumber]
        split <;> simp
      exact ⟨fun h => by omega, fun _ => rfl⟩
    · rw [if_pos (by omega), or_shiftLeft_group acc _ (by omega) hacc, UInt8.toNat_toUInt32]
      by_cases hlast : read &&& 0x40 = 0
      · rw [splitNumber, if_pos hlast, if_pos hlast]
        refine ⟨fun _ => ?_, fun h => ?_⟩
        · simp only [groupsValue, Nat.mul_zero, Nat.add_zero]
          rfl
        · rw [List.length_singleton] at h
          omega
      · have hnext : min (6 * k + 6) (2 ^ 32 - 1) = 6 * (k + 1) := by omega
        rw [splitNumber, if_neg hlast, if_neg hlast, hnext]
        have hgroup : (read &&& 0x3F).toNat < 64 := by
          rw [UInt8.toNat_and]
          exact Nat.and_lt_two_pow _ (by decide : 63 < 2 ^ 6)
        have hpow : 2 ^ (6 * (k + 1)) = 64 * 2 ^ (6 * k) := by ring
        have hsum : acc.toNat + (read &&& 0x3F).toNat * 2 ^ (6 * k) < 2 ^ (6 * (k + 1)) := by
          have hmul := Nat.mul_le_mul_right (2 ^ (6 * k)) (Nat.le_of_lt_succ hgroup)
          rw [hpow]
          omega
        have hlt : (UInt32.ofNat (acc.toNat + (read &&& 0x3F).toNat * 2 ^ (6 * k))).toNat <
            2 ^ (6 * (k + 1)) := by
          rw [UInt32.toNat_ofNat']
          exact (Nat.mod_le _ _).trans_lt hsum
        have hstep := ih (by omega) hlt
        simp only [List.length_cons, groupsValue]
        refine ⟨fun h => ?_, fun h => hstep.2 (by omega)⟩
        rw [hstep.1 (by omega)]
        cases (splitNumber rest).2 with
        | none => rfl
        | some behind =>
          have hvalue : UInt32.ofNat ((UInt32.ofNat (acc.toNat +
              (read &&& 0x3F).toNat * 2 ^ (6 * k))).toNat +
                groupsValue (splitNumber rest).1 * 2 ^ (6 * (k + 1))) =
              UInt32.ofNat (acc.toNat + ((read &&& 0x3F).toNat +
                64 * groupsValue (splitNumber rest).1) * 2 ^ (6 * k)) := by
            refine UInt32.toNat_inj.1 ?_
            rw [UInt32.toNat_ofNat', UInt32.toNat_ofNat', UInt32.toNat_ofNat', Nat.mod_add_mod,
              hpow]
            congr 1
            ring
          rw [hvalue]

lemma agrees_unsigned (table : List UInt8) :
    Agrees id (Checked.readVarintFromLinetable table) (readNumber unsignedValue table) := by
  obtain ⟨hshort, hlong⟩ := readVarint_run table (by decide : 0 ≤ 6)
    (by decide : (0 : UInt32).toNat < 2 ^ (6 * 0))
  rw [Nat.zero_add] at hshort hlong
  have hall : (readNumber unsignedValue table).AllMet ↔ (splitNumber table).1.length ≤ 6 := by
    simp [Reading.AllMet, readNumber, Demand.Met]
  have hrun : (Checked.readVarintFromLinetable table).run =
      (Checked.readVarint 0 (6 * 0) table).run.map fun outcome =>
        outcome.map fun read => (read.1.toInt32.toInt, read.2) := by
    unfold Checked.readVarintFromLinetable
    change ((Checked.readVarint 0 0 table).run >>= ExceptT.bindCont _) = _
    rcases (Checked.readVarint 0 (6 * 0) table).run with _ | _ | _ <;> rfl
  refine ⟨fun hmet number hnumber => ?_, fun hmet hnone => ?_, fun hmet => ?_⟩
  · obtain ⟨rest, hrest, rfl⟩ := Option.map_eq_some_iff.1 hnumber
    refine ⟨_, ?_, rfl⟩
    rw [hrun, hshort (hall.1 hmet), hrest]
    simp [unsignedValue, Except.map]
  · rw [readNumber, Option.map_eq_none_iff] at hnone
    rw [hrun, hshort (hall.1 hmet), hnone]
    exact ⟨_, rfl⟩
  · rw [hrun, hlong (Nat.not_le.1 fun h => hmet (hall.2 h))]
    rfl

/-- The number with a sign of the number without one. -/
def withSignBit (value : ℤ) : ℤ :=
  let value := (Int32.ofInt value).toUInt32.toNat
  if value % 2 = 1 then -(value / 2 : ℕ) else (value / 2 : ℕ)

lemma withSignBit_unsignedValue (groups : List UInt8) :
    withSignBit (unsignedValue groups) = signedValue groups := by
  have hback : (Int32.ofInt (unsignedValue groups)).toUInt32 =
      UInt32.ofNat (groupsValue groups) := by
    rw [unsignedValue, Int32.ofInt_toInt]
    rfl
  simp only [withSignBit, signedValue, hback, UInt32.toNat_ofNat']

lemma agrees_signed (table : List UInt8) :
    Agrees id (Checked.readSignedVarintFromLinetable table) (readNumber signedValue table) := by
  have hreading : readNumber signedValue table =
      readNumber unsignedValue table >>= fun number =>
        pure (withSignBit number.1, number.2) := by
    unfold readNumber
    cases hrest : (splitNumber table).2 with
    | none => rfl
    | some rest =>
      change _ = (⟨_ ++ [], some (withSignBit (unsignedValue _), rest)⟩ : Reading (ℤ × List UInt8))
      rw [withSignBit_unsignedValue]
      rfl
  rw [hreading]
  refine (agrees_unsigned table).bind fun number _ => ?_
  obtain ⟨value, rest⟩ := number
  have hvalue := (Int32.ofInt value).toUInt32.toNat_lt
  obtain ⟨hodd, hhalf⟩ := odd_or_half hvalue
  rw [UInt32.ofNat_toNat] at hodd hhalf
  have hnonneg : (((Int32.ofInt value).toUInt32 >>> 1).toInt32).toInt =
      ((Int32.ofInt value).toUInt32.toNat / 2 : ℕ) := by
    rw [hhalf]
    exact Int32.toInt_ofNat_of_lt (by omega)
  dsimp only
  rw [hnonneg, i32_eq (by omega)]
  change Agrees id _ (pure (withSignBit value, rest))
  split
  next h =>
    have hsign : withSignBit value = -((Int32.ofInt value).toUInt32.toNat / 2 : ℕ) :=
      if_pos (hodd.1 h)
    rw [hsign, pure_bind]
    exact .pure _
  next h =>
    have hsign : withSignBit value = ((Int32.ofInt value).toUInt32.toNat / 2 : ℕ) :=
      if_neg fun h' => h (hodd.2 h')
    rw [hsign]
    exact .pure _

/-! ## Entries -/

lemma agrees_payload {infoKind : ℕ} (hkind : infoKind < 16) (line : ℤ) (table : List UInt8) :
    Agrees (fun (read : (Span × ℤ) × List UInt8) => (read.1.2, read.2))
      (Checked.readPayload infoKind line table) (readEntry infoKind line table) := by
  unfold Checked.readPayload readEntry
  split
  · exact .pure _
  split
  · refine (agrees_signed table).bind fun (lineDelta, table) _ => ?_
    refine .number (line + lineDelta) ?_
    refine (agrees_unsigned table).bind fun (endLineDelta, table) _ => ?_
    refine (agrees_unsigned table).bind fun (column, table) _ => ?_
    refine .number (column - 1) ?_
    refine (agrees_unsigned table).bind fun (endColumn, table) _ => ?_
    refine .number (endColumn - 1) ?_
    refine .number (line + lineDelta + endLineDelta) ?_
    exact .pure _
  split
  · refine (agrees_signed table).bind fun (lineDelta, table) _ => ?_
    refine .number (line + lineDelta) ?_
    exact .pure _
  split
  · rw [i32_eq (by omega), pure_bind]
    refine .number (line + (infoKind - 10)) ?_
    match table with
    | [] => exact .throw _
    | [_] => exact .throw _
    | column :: endColumn :: table => exact .pure _
  · match table with
    | [] => exact .throw _
    | second :: table =>
      have hsecond := (byte_facts second).2.2.2
      have hcolumn : infoKind <<< 3 ||| second.toNat >>> 4 < 2 ^ 7 := by
        have hbyte := second.toNat_lt
        refine Nat.or_lt_two_pow ?_ ?_
        · rw [Nat.shiftLeft_eq]
          omega
        · rw [Nat.shiftRight_eq_div_pow]
          omega
      have hwidth : second.toNat &&& 0x0F ≤ 15 := Nat.and_le_right
      have hend : i32 (((infoKind <<< 3 ||| second.toNat >>> 4 : ℕ) : ℤ) +
          (second.toNat &&& 0x0F : ℕ)) = pure _ := i32_eq (by omega)
      change Agrees _ (if (second.toNat : ℤ).toNat &&& 0x80 ≠ 0 then _ else _)
        (if second.toNat < 128 then _ else _)
      rw [Int.toNat_natCast]
      by_cases hshort : second.toNat < 128
      · rw [if_neg (not_not.2 (hsecond.2 hshort)), if_pos hshort, hend]
        exact .pure _
      · rw [if_pos fun h => hshort (hsecond.1 h), if_neg hshort]
        exact .throw _

lemma agrees_entries (instructionCount fuel : ℕ) (table : List UInt8) (instructionIndex : ℕ)
    (line : ℤ) (locations : List Location) :
    Agrees (fun _ => ())
      (Checked.decodeEntries instructionCount fuel table instructionIndex line locations)
      (readEntries instructionCount fuel table instructionIndex line) := by
  induction fuel generalizing table instructionIndex line locations with
  | zero => exact .pure _
  | succ fuel ih =>
    cases table with
    | nil => exact .pure _
    | cons first rest =>
      obtain ⟨hmarker, hunits, hkind, -⟩ := byte_facts first
      rw [Checked.decodeEntries, readEntries]
      split
      · by_cases hmark : first.toNat < 128
        · rw [if_pos (hmarker.2 hmark), if_pos hmark]
          exact .throw _
        · rw [if_neg fun h => hmark (hmarker.1 h), if_neg hmark]
          simp only [hunits, hkind]
          exact (agrees_payload (Nat.mod_lt _ (by decide)) line rest).bind
            fun ((span, line), rest) _ => ih rest _ line _
      · exact .pure _

/-! ## Tables -/

/-- The reader of a line table ends with locations or with an error exactly where the demands of the
table are met. -/
theorem decodeCpythonLinetableLocations_panics_iff (linetable : List UInt8) (firstlineno : Int32)
    (instructionCount : ℕ) :
    (∃ outcome, (Checked.decodeCpythonLinetableLocations linetable firstlineno
        instructionCount).run = some outcome) ↔
      (readTable linetable firstlineno instructionCount).AllMet := by
  have hagrees := agrees_entries instructionCount linetable.length linetable 0 firstlineno.toInt
    (List.replicate instructionCount .unknown)
  constructor
  · rintro ⟨outcome, hrun⟩
    by_contra hmet
    have hpanic := hagrees.panic hmet
    rw [Checked.decodeCpythonLinetableLocations, hpanic] at hrun
    cases hrun
  · intro hmet
    cases hresult : (readTable linetable firstlineno instructionCount).result with
    | some result =>
      obtain ⟨locations, hrun, -⟩ := hagrees.ok hmet result hresult
      exact ⟨_, hrun⟩
    | none =>
      obtain ⟨message, hrun⟩ := hagrees.error hmet hresult
      exact ⟨_, hrun⟩

/-- A number of seven groups. -/
theorem decodeCpythonLinetableLocations_sevenGroups :
    (Checked.decodeCpythonLinetableLocations [0xF0, 0x40, 0x40, 0x40, 0x40, 0x40, 0x40, 0x00] 1
      1).run = none := by
  decide +kernel

end LineTable

end Pyrs
