import Pyrs.Library.Results
import Pyrs.Model.LineTables
import Mathlib.Tactic.Ring
import Mathlib.Tactic.Linarith

/-!
# The decoding of line tables

The entries of a location table, the bytes that encode them, and the locations they give to the
code units.  `decodeCpythonLinetableLocations` reads the locations back from the bytes.
-/

namespace Pyrs

namespace LineTable

/-! ## Location tables -/

/-- The forms of an entry, each with what its encoding can say. -/
inductive Form
  | none
  | long (lineDelta : ℤ) (endLineDelta : ℕ) (column endColumn : Option ℕ)
  | noColumns (lineDelta : ℤ)
  | oneLine (lineDelta : Fin 3) (column endColumn : Fin 128)
  | short (column : Fin 80) (width : Fin 16)

structure Entry where
  form : Form
  codeUnits : ℕ
  codeUnits_pos : 0 < codeUnits
  codeUnits_le : codeUnits ≤ 8

/-- A column counts from one, and is zero where it is missing. -/
def oneBased : Option ℕ → ℕ
  | .none => 0
  | .some column => column + 1

/-- The location of a span of lines; there is none where the lines are negative. -/
def spanLocation (line endLine : ℤ) (column endColumn : Option ℕ) : Location :=
  if line < 0 then .unknown else ⟨line.toNat, oneBased column, endLine.toNat, oneBased endColumn⟩

namespace Form

/-- The line of an entry, from the line of the entry in front of it. -/
def line (previous : ℤ) : Form → ℤ
  | none | short _ _ => previous
  | long lineDelta _ _ _ | noColumns lineDelta => previous + lineDelta
  | oneLine lineDelta _ _ => previous + lineDelta.val

def location (previous : ℤ) (form : Form) : Location :=
  let line := form.line previous
  match form with
  | none => .unknown
  | long _ endLineDelta column endColumn =>
    spanLocation line (line + endLineDelta) column endColumn
  | noColumns _ => spanLocation line line .none .none
  | oneLine _ column endColumn => spanLocation line line (.some column) (.some endColumn)
  | short column width => spanLocation line line (.some column) (.some (column + width))

end Form

/-- The location of a code unit: that of the entry that covers it. -/
def coverage (previous : ℤ) : List Entry → ℕ → Location
  | [], _ => .unknown
  | entry :: entries, i =>
    if i < entry.codeUnits then entry.form.location previous
    else coverage (entry.form.line previous) entries (i - entry.codeUnits)

/-! ## Their encoding -/

/-- Groups of six bits, the lowest first, with a mark on each group but the last. -/
def writeVarint (value : ℕ) : List UInt8 :=
  if value < 64 then [UInt8.ofNat value]
  else UInt8.ofNat (64 + value % 64) :: writeVarint (value / 64)

def zigzag (value : ℤ) : ℕ := if value < 0 then 2 * (-value).toNat + 1 else 2 * value.toNat

namespace Form

def kind : Form → ℕ
  | none => 15
  | long _ _ _ _ => 14
  | noColumns _ => 13
  | oneLine lineDelta _ _ => 10 + lineDelta.val
  | short column _ => column.val / 8

def payload : Form → List UInt8
  | none => []
  | long lineDelta endLineDelta column endColumn =>
    writeVarint (zigzag lineDelta) ++ (writeVarint endLineDelta ++
      (writeVarint (oneBased column) ++ writeVarint (oneBased endColumn)))
  | noColumns lineDelta => writeVarint (zigzag lineDelta)
  | oneLine _ column endColumn => [UInt8.ofNat column, UInt8.ofNat endColumn]
  | short column width => [UInt8.ofNat (16 * (column.val % 8) + width.val)]

end Form

def Entry.encode (entry : Entry) : List UInt8 :=
  UInt8.ofNat (128 + 8 * entry.form.kind + (entry.codeUnits - 1)) :: entry.form.payload

def encodeTable (entries : List Entry) : List UInt8 := entries.flatMap Entry.encode

/-! ## Tables whose numbers fit -/

def InI32 (value : ℤ) : Prop := -2 ^ 31 ≤ value ∧ value < 2 ^ 31

def Form.Fits (previous : ℤ) (form : Form) : Prop :=
  InI32 (form.line previous) ∧
    match form with
    | long lineDelta endLineDelta column endColumn =>
      zigzag lineDelta < 2 ^ 32 ∧ endLineDelta < 2 ^ 32 ∧
        InI32 (previous + lineDelta + endLineDelta) ∧
        (∀ c ∈ column, InI32 c) ∧ ∀ c ∈ endColumn, InI32 c
    | noColumns lineDelta => zigzag lineDelta < 2 ^ 32
    | none | oneLine _ _ _ | short _ _ => True

/-- The numbers of the entries, and the lines they come to, are those of the machine. -/
def Fits (previous : ℤ) : List Entry → Prop
  | [] => True
  | entry :: entries => entry.form.Fits previous ∧ Fits (entry.form.line previous) entries

/-! ## Numbers -/

variable {value shift : ℕ} {rest : List UInt8}

lemma readByteFromLinetable_cons (byte : UInt8) :
    readByteFromLinetable (byte :: rest) = .ok (Int32.ofNat byte.toNat, rest) := rfl

lemma or_shiftLeft (acc : UInt32) (low : UInt8) (hshift : shift < 32)
    (hacc : acc.toNat < 2 ^ shift) (hlow : low.toNat * 2 ^ shift < 2 ^ 32) :
    (acc ||| (low.toUInt32 <<< UInt32.ofNat (shift % 32))).toNat =
      acc.toNat + low.toNat * 2 ^ shift := by
  have hamount : (UInt32.ofNat (shift % 32)).toNat % 32 = shift := by
    rw [UInt32.toNat_ofNat']
    omega
  have hshifted : (low.toUInt32 <<< UInt32.ofNat (shift % 32)).toNat = 2 ^ shift * low.toNat := by
    rw [UInt32.toNat_shiftLeft, hamount, UInt8.toNat_toUInt32, Nat.shiftLeft_eq,
      Nat.mod_eq_of_lt hlow, Nat.mul_comm]
  rw [UInt32.toNat_or, hshifted, Nat.or_comm, ← Nat.two_pow_add_eq_or_of_lt hacc]
  ring

lemma group_and (value : ℕ) (hvalue : value < 128) :
    (UInt8.ofNat value &&& 0x3F).toNat = value % 64 ∧
      (UInt8.ofNat value &&& 0x40 = 0 ↔ value < 64) := by
  have hall : ∀ k : Fin 128, (UInt8.ofNat k &&& 0x3F).toNat = k % 64 ∧
      (UInt8.ofNat k &&& 0x40 = 0 ↔ k.val < 64) := by decide
  exact hall ⟨value, hvalue⟩

/-- The loop adds the groups at the place it has come to. -/
lemma readVarint_writeVarint (value shift : ℕ) (acc : UInt32) (hshift : shift < 32)
    (hacc : acc.toNat < 2 ^ shift) (hvalue : acc.toNat + value * 2 ^ shift < 2 ^ 32) :
    readVarint acc shift (writeVarint value ++ rest) =
      .ok (UInt32.ofNat (acc.toNat + value * 2 ^ shift), rest) := by
  induction value using Nat.strong_induction_on generalizing acc shift with
  | _ value ih =>
    rw [writeVarint]
    split
    case isTrue hlast =>
      obtain ⟨hlow, hmark⟩ := group_and value (by omega)
      have hsum := or_shiftLeft acc (UInt8.ofNat value &&& 0x3F) hshift hacc
        (by rw [hlow, Nat.mod_eq_of_lt hlast]; omega)
      rw [hlow, Nat.mod_eq_of_lt hlast] at hsum
      simp only [List.singleton_append, readVarint, hmark, hlast, if_true]
      rw [← hsum, UInt32.ofNat_toNat]
    case isFalse hmore =>
      obtain ⟨hlow, hmark⟩ := group_and (64 + value % 64) (by omega)
      have hnext : 2 ^ (shift + 6) = 64 * 2 ^ shift := by ring
      have hsplit : value % 64 * 2 ^ shift + value / 64 * 2 ^ (shift + 6) = value * 2 ^ shift := by
        rw [hnext, ← Nat.mul_assoc, ← Nat.add_mul]
        congr 1
        omega
      have hshift' : shift + 6 < 32 := by
        have : 2 ^ (shift + 6) < 2 ^ 32 := by
          rw [hnext]
          have : 64 * 2 ^ shift ≤ value * 2 ^ shift := Nat.mul_le_mul_right _ (by omega)
          omega
        exact (Nat.pow_lt_pow_iff_right (by omega)).1 this
      have hgroup : (64 + value % 64) % 64 = value % 64 := by omega
      have hsum := or_shiftLeft acc (UInt8.ofNat (64 + value % 64) &&& 0x3F) hshift hacc
        (by rw [hlow, hgroup]; omega)
      rw [hlow, hgroup] at hsum
      have hlt : value % 64 * 2 ^ shift ≤ 63 * 2 ^ shift := Nat.mul_le_mul_right _ (by omega)
      have hmin : min (shift + 6) (2 ^ 32 - 1) = shift + 6 := min_eq_left (by omega)
      have hrest := ih (value / 64) (by omega) (shift + 6)
        (acc ||| ((UInt8.ofNat (64 + value % 64) &&& 0x3F).toUInt32 <<<
          UInt32.ofNat (shift % 32))) hshift' (by rw [hsum, hnext]; omega) (by rw [hsum]; omega)
      rw [List.cons_append, readVarint, if_neg (by rw [hmark]; omega), hmin]
      refine hrest.trans ?_
      rw [hsum, Nat.add_assoc, hsplit]

lemma readVarintFromLinetable_eq (hvalue : value < 2 ^ 32) :
    readVarintFromLinetable (writeVarint value ++ rest) = .ok (Int32.ofNat value, rest) := by
  have hread : readVarint 0 0 (writeVarint value ++ rest) = .ok (UInt32.ofNat value, rest) := by
    have h := @readVarint_writeVarint rest value 0 0 (by decide) (by decide)
      (by simpa using hvalue)
    simpa using h
  simp only [readVarintFromLinetable, hread]
  rfl

lemma odd_or_half (hvalue : value < 2 ^ 32) :
    (UInt32.ofNat value &&& 1 = 1 ↔ value % 2 = 1) ∧
      UInt32.ofNat value >>> 1 = UInt32.ofNat (value / 2) := by
  constructor
  · rw [← UInt32.toNat_inj, UInt32.toNat_and, UInt32.toNat_ofNat', Nat.mod_eq_of_lt hvalue]
    simp [Nat.and_one_is_mod]
  · rw [← UInt32.toNat_inj, UInt32.toNat_shiftRight, UInt32.toNat_ofNat', UInt32.toNat_ofNat',
      Nat.mod_eq_of_lt hvalue, Nat.mod_eq_of_lt (show value / 2 < 2 ^ 32 by omega)]
    simp [Nat.shiftRight_one]

lemma readSignedVarintFromLinetable_eq {delta : ℤ} (hdelta : zigzag delta < 2 ^ 32) :
    readSignedVarintFromLinetable (writeVarint (zigzag delta) ++ rest) =
      .ok (Int32.ofInt delta, rest) := by
  obtain ⟨hodd, hhalf⟩ := odd_or_half hdelta
  have hread : readSignedVarintFromLinetable (writeVarint (zigzag delta) ++ rest) =
      .ok (if UInt32.ofNat (zigzag delta) &&& 1 = 1 then
          -(UInt32.ofNat (zigzag delta) >>> 1).toInt32
        else (UInt32.ofNat (zigzag delta) >>> 1).toInt32, rest) := by
    simp only [readSignedVarintFromLinetable, readVarintFromLinetable_eq hdelta]
    rfl
  have hsigned : ∀ n : ℕ, (UInt32.ofNat n).toInt32 = Int32.ofInt n := fun n => rfl
  rw [hread, hhalf, hsigned]
  by_cases hneg : delta < 0
  · have hzigzag : zigzag delta = 2 * (-delta).toNat + 1 := if_pos hneg
    rw [if_pos (hodd.2 (by omega)), ← Int32.ofInt_neg]
    congr 3
    omega
  · have hzigzag : zigzag delta = 2 * delta.toNat := if_neg hneg
    rw [if_neg (fun h => by have := hodd.1 h; omega)]
    congr 3
    omega

/-! ## Entries -/

def machineColumn : Option ℕ → Int32
  | .none => -1
  | .some column => Int32.ofNat column

/-- The span that the bytes of a form say. -/
def Form.span (previous : ℤ) (form : Form) : Span :=
  let line := form.line previous
  match form with
  | none => ⟨-1, -1, -1, -1⟩
  | long _ endLineDelta column endColumn =>
    ⟨Int32.ofInt line, machineColumn column, Int32.ofInt (line + endLineDelta),
      machineColumn endColumn⟩
  | noColumns _ =>
    ⟨Int32.ofInt line, machineColumn .none, Int32.ofInt line, machineColumn .none⟩
  | oneLine _ column endColumn =>
    ⟨Int32.ofInt line, machineColumn (.some column), Int32.ofInt line,
      machineColumn (.some endColumn)⟩
  | short column width =>
    ⟨Int32.ofInt line, machineColumn (.some column), Int32.ofInt line,
      machineColumn (.some (column + width))⟩

lemma oneBased_sub_one (column : Option ℕ) :
    Int32.ofNat (oneBased column) - 1 = machineColumn column := by
  cases column with
  | none => rfl
  | some column =>
    rw [oneBased, Int32.ofNat_add]
    exact Int32.add_sub_cancel _ _

lemma columnOneBased_machineColumn {column : Option ℕ} (h : ∀ c ∈ column, InI32 c) :
    columnOneBased (machineColumn column) = oneBased column := by
  cases column with
  | none => rfl
  | some column =>
    have hcolumn : (Int32.ofNat column).toInt = column :=
      Int32.toInt_ofNat_of_lt (by have := (h column rfl).2; omega)
    have hnonneg : ¬ Int32.ofNat column < 0 := by
      rw [Int32.lt_iff_toInt_lt, hcolumn, Int32.toInt_zero]
      omega
    rw [machineColumn, columnOneBased, if_neg hnonneg, ← Int32.toNat_toInt, hcolumn, oneBased,
      Int.toNat_natCast]

lemma span_location {line endLine : ℤ} {column endColumn : Option ℕ} (hline : InI32 line)
    (hend : InI32 endLine) (hcolumn : ∀ c ∈ column, InI32 c)
    (hendColumn : ∀ c ∈ endColumn, InI32 c) :
    Span.location ⟨Int32.ofInt line, machineColumn column, Int32.ofInt endLine,
        machineColumn endColumn⟩ = spanLocation line endLine column endColumn := by
  have htoInt : ∀ {value : ℤ}, InI32 value → (Int32.ofInt value).toInt = value :=
    fun h => Int32.toInt_ofInt_of_le h.1 h.2
  have hneg : Int32.ofInt line < 0 ↔ line < 0 := by
    rw [Int32.lt_iff_toInt_lt, htoInt hline, Int32.toInt_zero]
  simp only [Span.location, spanLocation, hneg, columnOneBased_machineColumn hcolumn,
    columnOneBased_machineColumn hendColumn, ← Int32.toNat_toInt, htoInt hline, htoInt hend,
    Location.withEnd]

lemma inI32_of_lt {value : ℕ} (h : value < 128) : InI32 value := ⟨by omega, by omega⟩

lemma Form.span_location {previous : ℤ} {form : Form} (h : form.Fits previous) :
    (form.span previous).location = form.location previous := by
  obtain ⟨hline, hform⟩ := h
  have hnone : ∀ c ∈ Option.none (α := ℕ), InI32 c := fun c hc => nomatch hc
  have hsome : ∀ {column : ℕ}, column < 128 → ∀ c ∈ Option.some column, InI32 c := by
    rintro column hcolumn c ⟨⟩
    exact inI32_of_lt hcolumn
  cases form with
  | none => rfl
  | long lineDelta endLineDelta column endColumn =>
    obtain ⟨_, _, hend, hcolumn, hendColumn⟩ := hform
    exact LineTable.span_location hline hend hcolumn hendColumn
  | noColumns lineDelta => exact LineTable.span_location hline hline hnone hnone
  | oneLine lineDelta column endColumn =>
    exact LineTable.span_location hline hline (hsome column.isLt) (hsome endColumn.isLt)
  | short column width =>
    exact LineTable.span_location hline hline (hsome (by omega)) (hsome (by omega))

lemma readByte_short (column : Fin 80) (width : Fin 16) :
    let second := Int32.ofNat (UInt8.ofNat (16 * (column.val % 8) + width.val)).toNat
    second &&& 0x80 = 0 ∧
      (Int32.ofNat (column.val / 8) <<< 3 ||| second >>> 4) = Int32.ofNat column ∧
      second &&& 0x0F = Int32.ofNat width := by
  have hsecond : ∀ (low : Fin 8) (width : Fin 16),
      let second := Int32.ofNat (UInt8.ofNat (16 * low.val + width.val)).toNat
      second &&& 0x80 = 0 ∧ second >>> 4 = Int32.ofNat low ∧
        second &&& 0x0F = Int32.ofNat width := by
    decide
  have hcolumn : ∀ (kind : Fin 10) (low : Fin 8),
      (Int32.ofNat kind <<< 3 ||| Int32.ofNat low) = Int32.ofNat (8 * kind.val + low.val) := by
    decide
  obtain ⟨hmark, hlow, hwidth⟩ := hsecond ⟨column.val % 8, by omega⟩ width
  refine ⟨hmark, ?_, hwidth⟩
  dsimp only at hlow ⊢
  rw [hlow, hcolumn ⟨column.val / 8, by omega⟩ ⟨column.val % 8, by omega⟩]
  exact congrArg Int32.ofNat (Nat.div_add_mod column.val 8)

lemma readPayload_payload {previous : ℤ} {form : Form} (h : form.Fits previous) :
    readPayload form.kind (Int32.ofInt previous) (form.payload ++ rest) =
      .ok ((form.span previous, Int32.ofInt (form.line previous)), rest) := by
  obtain ⟨-, hform⟩ := h
  cases form with
  | none => rfl
  | long lineDelta endLineDelta column endColumn =>
    obtain ⟨hdelta, hendDelta, -, hcolumn, hendColumn⟩ := hform
    have honeBased : ∀ {column : Option ℕ}, (∀ c ∈ column, InI32 c) → oneBased column < 2 ^ 32 := by
      rintro (_ | column) hcolumn
      · decide
      · have := (hcolumn column rfl).2
        simp only [oneBased]
        omega
    have hnone : ¬ 14 = PY_CODE_LOCATION_INFO_NONE := by decide
    have hlong : 14 = PY_CODE_LOCATION_INFO_LONG := rfl
    simp only [readPayload, Form.kind, Form.payload, List.append_assoc, if_neg hnone, if_pos hlong,
      readSignedVarintFromLinetable_eq hdelta, readVarintFromLinetable_eq hendDelta,
      readVarintFromLinetable_eq (honeBased hcolumn),
      readVarintFromLinetable_eq (honeBased hendColumn), Results.ok_bind]
    simp only [Form.span, Form.line, Int32.ofInt_add, ← oneBased_sub_one]
    rfl
  | noColumns lineDelta =>
    simp only [readPayload, Form.kind, Form.payload, readSignedVarintFromLinetable_eq hform]
    simp only [Form.span, Form.line, Int32.ofInt_add]
    rfl
  | oneLine lineDelta column endColumn =>
    have hdelta : Int32.ofNat (10 + lineDelta.val) - 10 = Int32.ofInt lineDelta.val := by
      rw [Int32.ofNat_add, Int32.add_comm]
      exact Int32.add_sub_cancel _ _
    have hbyte : ∀ column : Fin 128, (UInt8.ofNat column).toNat = column := by decide
    have hkind : ∀ lineDelta : Fin 3, 10 + lineDelta.val ≠ PY_CODE_LOCATION_INFO_NONE ∧
        10 + lineDelta.val ≠ PY_CODE_LOCATION_INFO_LONG ∧
        10 + lineDelta.val ≠ PY_CODE_LOCATION_INFO_NO_COLUMNS ∧
        PY_CODE_LOCATION_INFO_ONE_LINE0 ≤ 10 + lineDelta.val ∧
        10 + lineDelta.val ≤ PY_CODE_LOCATION_INFO_ONE_LINE2 := by decide
    obtain ⟨hnone, hlong, hcolumns, hone⟩ := hkind lineDelta
    simp only [readPayload, Form.kind, Form.payload, if_neg hnone, if_neg hlong, if_neg hcolumns,
      if_pos hone, List.cons_append, List.nil_append, readByteFromLinetable_cons, Results.ok_bind,
      hbyte,
      hdelta]
    simp only [Form.span, Form.line, Int32.ofInt_add]
    rfl
  | short column width =>
    have hkind : ∀ column : Fin 80, column.val / 8 ≠ PY_CODE_LOCATION_INFO_NONE ∧
        column.val / 8 ≠ PY_CODE_LOCATION_INFO_LONG ∧
        column.val / 8 ≠ PY_CODE_LOCATION_INFO_NO_COLUMNS ∧
        ¬ (PY_CODE_LOCATION_INFO_ONE_LINE0 ≤ column.val / 8 ∧
          column.val / 8 ≤ PY_CODE_LOCATION_INFO_ONE_LINE2) := by decide
    obtain ⟨hnone, hlong, hcolumns, hone⟩ := hkind column
    obtain ⟨hmark, hcolumn, hwidth⟩ := readByte_short column width
    simp only [readPayload, Form.kind, Form.payload, if_neg hnone, if_neg hlong, if_neg hcolumns,
      if_neg hone, List.cons_append, List.nil_append, readByteFromLinetable_cons, Results.ok_bind]
    simp only [Form.span, Form.line, machineColumn, Int32.ofNat_add, ← hcolumn, ← hwidth]
    exact if_neg (not_not.2 hmark)

/-! ## Tables -/

lemma first_byte : ∀ (kind : Fin 16) (units : Fin 8),
    let first := UInt8.ofNat (128 + 8 * kind.val + units.val)
    first &&& 0x80 ≠ 0 ∧ (first &&& 0x07).toNat = units.val ∧
      (first >>> 3 &&& 0x0F).toNat = kind.val := by
  decide

lemma fillSlots_eq (front slots : List Location) (count : ℕ) (location : Location)
    (h : count ≤ slots.length) :
    fillSlots (front ++ slots) front.length (front.length + count) location =
      front ++ (List.replicate count location ++ slots.drop count) := by
  rw [fillSlots, Nat.add_sub_cancel_left]
  induction count generalizing front slots with
  | zero => simp
  | succ count ih =>
    obtain _ | ⟨slot, slots⟩ := slots
    · simp at h
    · have hset : (front ++ slot :: slots).set front.length location =
          (front ++ [location]) ++ slots := by simp
      have hrest := ih (front ++ [location]) slots (by simpa using h)
      rw [List.length_append, List.length_singleton] at hrest
      rw [List.range'_succ, List.foldl_cons, hset, hrest, List.replicate_succ]
      simp

/-- The locations of the first code units. -/
def covered (previous : ℤ) (entries : List Entry) (count : ℕ) : List Location :=
  (List.range count).map (coverage previous entries)

lemma covered_nil (previous : ℤ) (count : ℕ) :
    covered previous [] count = List.replicate count .unknown := by
  simp [covered, coverage]

lemma covered_cons (previous : ℤ) (entry : Entry) (entries : List Entry) (count : ℕ) :
    covered previous (entry :: entries) count =
      List.replicate (min entry.codeUnits count) (entry.form.location previous) ++
        covered (entry.form.line previous) entries (count - entry.codeUnits) := by
  apply List.ext_getElem
  · simp only [covered, List.length_append, List.length_map, List.length_range,
      List.length_replicate]
    omega
  · intro i hi hi'
    simp only [covered, List.getElem_map, List.getElem_range, List.getElem_append,
      List.length_replicate, List.getElem_replicate, coverage]
    have hcount : i < count := by simpa [covered] using hi
    by_cases hin : i < entry.codeUnits
    · rw [if_pos hin, dif_pos (by omega)]
    · rw [if_neg hin, dif_neg (by omega)]
      congr 1
      omega

/-- In the loop, the slots in front of the index are filled and the slots behind it are not. -/
lemma decodeEntries_encodeTable {previous : ℤ} {entries : List Entry} (h : Fits previous entries)
    (fuel : ℕ) (hfuel : (encodeTable entries).length ≤ fuel) (front : List Location) (count : ℕ) :
    decodeEntries (front.length + count) fuel (encodeTable entries) front.length
        (Int32.ofInt previous) (front ++ List.replicate count .unknown) =
      .ok (front ++ covered previous entries count) := by
  induction entries generalizing previous fuel front count with
  | nil =>
    rw [covered_nil, encodeTable, List.flatMap_nil]
    cases fuel <;> rfl
  | cons entry entries ih =>
    obtain ⟨form, codeUnits, hpos, hle⟩ := entry
    obtain ⟨hform, hentries⟩ := h
    have hkind : form.kind < 16 := by
      cases form <;> simp only [Form.kind] <;> omega
    obtain ⟨hmarker, hunits, hinfo⟩ := first_byte ⟨form.kind, hkind⟩ ⟨codeUnits - 1, by omega⟩
    dsimp only at hmarker hunits hinfo
    have htable : encodeTable (⟨form, codeUnits, hpos, hle⟩ :: entries) =
        UInt8.ofNat (128 + 8 * form.kind + (codeUnits - 1)) ::
          (form.payload ++ encodeTable entries) := rfl
    rw [htable] at hfuel ⊢
    obtain _ | fuel := fuel
    · simp at hfuel
    · by_cases hcount : count = 0
      · simp [decodeEntries, hcount, covered]
      · have hstop : min (front.length + (codeUnits - 1 + 1)) (front.length + count) =
            front.length + min codeUnits count := by omega
        have hrest := ih hentries fuel (by simp at hfuel; omega)
          (front ++ List.replicate (min codeUnits count) (form.location previous))
          (count - codeUnits)
        rw [List.length_append, List.length_replicate,
          show front.length + min codeUnits count + (count - codeUnits) = front.length + count by
            omega] at hrest
        rw [decodeEntries, if_pos (by omega), if_neg hmarker]
        dsimp only
        rw [hinfo, hunits, readPayload_payload hform, Results.ok_bind]
        dsimp only
        rw [hstop, Form.span_location hform, fillSlots_eq _ _ _ _ (by simp), List.drop_replicate,
          show count - min codeUnits count = count - codeUnits by omega, ← List.append_assoc,
          hrest, covered_cons, List.append_assoc]

/-- The decoder gives each instruction the location of the entry that covers it, and none behind
the last entry. -/
theorem decode_encodeTable (firstlineno : Int32) (entries : List Entry)
    (h : Fits firstlineno.toInt entries) (instructionCount : ℕ) :
    decodeCpythonLinetableLocations (encodeTable entries) firstlineno instructionCount =
      .ok ((List.range instructionCount).map (coverage firstlineno.toInt entries)) := by
  have hentries := decodeEntries_encodeTable h _ le_rfl [] instructionCount
  simpa [decodeCpythonLinetableLocations, covered] using hentries

def sampleEntries : List Entry :=
  [⟨.long 2 1 (some 4) (some 70), 2, by decide, by decide⟩, ⟨.none, 1, by decide, by decide⟩,
    ⟨.oneLine 1 3 9, 1, by decide, by decide⟩, ⟨.short 19 5, 3, by decide, by decide⟩]

theorem decode_sampleEntries :
    decodeCpythonLinetableLocations (encodeTable sampleEntries) 10 8 =
      .ok [⟨12, 5, 13, 71⟩, ⟨12, 5, 13, 71⟩, .unknown, ⟨13, 4, 13, 10⟩, ⟨13, 20, 13, 25⟩,
        ⟨13, 20, 13, 25⟩, ⟨13, 20, 13, 25⟩, .unknown] :=
  (decode_encodeTable 10 sampleEntries
    (by simp [sampleEntries, Fits, Form.Fits, Form.line, InI32, zigzag]) 8).trans (by decide)

end LineTable

end Pyrs
