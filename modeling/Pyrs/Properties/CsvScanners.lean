import Mathlib.Data.List.Induction
import Pyrs.Model.Csv

/-!
# The two scanners of a CSV row

`Position` says where in a record a text ends, one character at a time, without looking ahead.
`csv_record_state` follows it on every row.  `parse_csv_row_simple` follows it until a quote stands
behind an empty quoted section: there it opens another section.  So the two agree on all the ways a
row goes on exactly where this does not happen and no section opens behind a bare line break.
-/

namespace Pyrs

namespace Csv

/-! ## Accepted dialects -/

/-- What `validate_csv_parameter_consistency` makes sure of. -/
structure Dialect.Valid (dialect : Dialect) : Prop where
  quoting : 0 ≤ dialect.quoting ∧ dialect.quoting ≤ 5
  quotechar_isSome : dialect.quoting ≠ 3 → dialect.quotechar ≠ none
  delimiter_break : isLineBreak dialect.delimiter = false
  quotechar_break : ∀ ch, dialect.quotechar = some ch → isLineBreak ch = false
  escapechar_break : ∀ ch, dialect.escapechar = some ch → isLineBreak ch = false
  quotechar_space : dialect.skipinitialspace = true → dialect.quotechar ≠ some ' '
  escapechar_space : dialect.skipinitialspace = true → dialect.escapechar ≠ some ' '
  quotechar_delimiter : dialect.quotechar ≠ some dialect.delimiter
  escapechar_delimiter : dialect.escapechar ≠ some dialect.delimiter
  quotechar_escapechar : ∀ ch, dialect.quotechar = some ch → dialect.escapechar ≠ some ch

lemma guard_eq_ok {condition : Prop} [Decidable condition] {message : String}
    {next : Unit → Except String Unit} {rest : Except String Unit} :
    (if condition then throw message >>= next else rest) = .ok () ↔ ¬condition ∧ rest = .ok () := by
  by_cases hcondition : condition
  · rw [if_pos hcondition]
    exact ⟨fun h => (by cases h), fun h => absurd hcondition h.1⟩
  · rw [if_neg hcondition]
    exact ⟨fun h => ⟨hcondition, h⟩, fun h => h.2⟩

/-- An accepted dialect is valid. -/
lemma valid_of_accepted {dialect : Dialect}
    (h : validateCsvParameterConsistency dialect = .ok ()) : dialect.Valid := by
  simp only [validateCsvParameterConsistency, guard_eq_ok] at h
  obtain ⟨hquoting, hquote, hdelimiter, hquoteBreak, hescapeBreak, hquoteSpace, hescapeSpace,
    hquoteDelimiter, hescapeDelimiter, hquoteEscape, -⟩ := h
  exact {
    quoting := not_not.1 hquoting
    quotechar_isSome := fun hne hnone => hquote ⟨hnone, hne⟩
    delimiter_break := by simpa using hdelimiter
    quotechar_break := fun ch hch => by simpa [hch] using hquoteBreak
    escapechar_break := fun ch hch => by simpa [hch] using hescapeBreak
    quotechar_space := fun hskip hspace => hquoteSpace ⟨hskip, hspace⟩
    escapechar_space := fun hskip hspace => hescapeSpace ⟨hskip, hspace⟩
    quotechar_delimiter := hquoteDelimiter
    escapechar_delimiter := hescapeDelimiter
    quotechar_escapechar := fun ch hquote hescape =>
      hquoteEscape ⟨by rw [hquote]; rfl, by rw [hquote, hescape]⟩ }

variable {dialect : Dialect}

lemma quotechar_of_active {ch : Char} (h : dialect.activeQuotechar = some ch) :
    dialect.quotechar = some ch := by
  rw [Dialect.activeQuotechar] at h
  split at h
  · cases h
  · exact h

lemma quotechar_not_escape (hvalid : dialect.Valid) {ch : Char}
    (h : dialect.activeQuotechar = some ch) : dialect.escapechar ≠ some ch :=
  hvalid.quotechar_escapechar ch (quotechar_of_active h)

lemma quotechar_not_delimiter (hvalid : dialect.Valid) {ch : Char}
    (h : dialect.activeQuotechar = some ch) : ch ≠ dialect.delimiter := by
  rintro rfl
  exact hvalid.quotechar_delimiter (quotechar_of_active h)

/-! ## Positions -/

/-- Where in a record a text ends.  Behind an opening quote and behind a closing one the position
keeps whether the section between them is empty. -/
inductive Position
  | fieldStart
  | text
  | escape
  | quoted (empty : Bool)
  | quotedEscape
  | closing (empty : Bool)
  | closedEmpty
  deriving DecidableEq

namespace Position

def inQuotes : Position → Bool
  | .quoted _ | .quotedEscape => true
  | _ => false

def escaping : Position → Bool
  | .escape | .quotedEscape => true
  | _ => false

variable (dialect) in
/-- The position behind a character that does not open or double a quote. -/
def outside (behindSpace : Position) (ch : Char) : Position :=
  if dialect.escapechar = some ch then .escape
  else if ch = dialect.delimiter then .fieldStart
  else if dialect.skipinitialspace && ch == ' ' then behindSpace
  else .text

variable (dialect) in
def next : Position → Char → Position
  | .fieldStart, ch =>
    if dialect.activeQuotechar = some ch then .quoted true else outside dialect .fieldStart ch
  | .text, ch => outside dialect .text ch
  | .escape, _ => .text
  | .quoted empty, ch =>
    if dialect.activeQuotechar = some ch then .closing empty
    else if dialect.escapechar = some ch then .quotedEscape
    else .quoted false
  | .quotedEscape, _ => .quoted false
  | .closing empty, ch =>
    if dialect.doublequote && dialect.activeQuotechar == some ch then .quoted false
    else outside dialect (if empty then .closedEmpty else .text) ch
  | .closedEmpty, ch => outside dialect .closedEmpty ch

/-- A line break outside of quotes that is not escaped. -/
def breaks (position : Position) (ch : Char) : Bool :=
  isLineBreak ch && !position.inQuotes && !position.escaping

variable (dialect) in
/-- A quote that opens a section. -/
def opens (position : Position) (ch : Char) : Bool :=
  dialect.activeQuotechar == some ch && position == .fieldStart

variable (dialect) in
/-- A quote behind an empty quoted section, where it doubles no quote. -/
def reopens (position : Position) (ch : Char) : Bool :=
  dialect.activeQuotechar == some ch &&
    (position == .closedEmpty || (position == .closing true && !dialect.doublequote))

end Position

variable (dialect) in
/-- The position behind a text. -/
def position (row : List Char) : Position :=
  row.foldl (Position.next dialect) .fieldStart

/-! ## The state of a record -/

variable (dialect) in
/-- The scanner of the record state stands at a position. -/
def RecordAt (inQuotes atFieldStart : Bool) (row : List Char) : Position → Prop
  | .fieldStart => inQuotes = false ∧ atFieldStart = true
  | .text | .closedEmpty => inQuotes = false ∧ atFieldStart = false
  | .closing _ => inQuotes = false ∧ atFieldStart = false ∧
    (dialect.doublequote = true → ∀ ch ∈ row.head?, dialect.activeQuotechar ≠ some ch)
  | .quoted _ => inQuotes = true ∧ atFieldStart = false
  | .escape | .quotedEscape => False

lemma foldl_next_cons (position : Position) (ch : Char) (chars : List Char) :
    (ch :: chars).foldl (Position.next dialect) position =
      chars.foldl (Position.next dialect) (position.next dialect ch) := rfl

/-- Outside of quotes, where a character neither opens nor doubles a quote. -/
lemma csvRecordStateLoop_outside (hvalid : dialect.Valid) {atFieldStart : Bool} {ch : Char}
    {chars : List Char} {behindSpace : Position}
    (hspace : behindSpace = .fieldStart ∧ atFieldStart = true ∧ dialect.activeQuotechar ≠ some ch ∨
      (behindSpace = .text ∨ behindSpace = .closedEmpty) ∧ atFieldStart = false)
    (ih : ∀ (rest : List Char), rest.length ≤ chars.length → ∀ inQuotes atFieldStart position,
      RecordAt dialect inQuotes atFieldStart rest position →
      csvRecordStateLoop dialect inQuotes atFieldStart rest =
        ⟨(rest.foldl (Position.next dialect) position).inQuotes,
          (rest.foldl (Position.next dialect) position).escaping⟩) :
    csvRecordStateLoop dialect false atFieldStart (ch :: chars) =
      ⟨(chars.foldl (Position.next dialect) (Position.outside dialect behindSpace ch)).inQuotes,
        (chars.foldl (Position.next dialect)
          (Position.outside dialect behindSpace ch)).escaping⟩ := by
  rw [Position.outside]
  by_cases hescape : dialect.escapechar = some ch
  · rw [if_pos hescape]
    cases chars with
    | nil =>
      rw [csvRecordStateLoop.eq_def]
      dsimp only
      rw [if_pos hescape]
      rfl
    | cons next rest =>
      rw [csvRecordStateLoop.eq_def]
      dsimp only
      rw [if_pos hescape]
      exact ih rest (by simp) false false .text ⟨rfl, rfl⟩
  · rw [if_neg hescape, csvRecordStateLoop.eq_def]
    dsimp only
    rw [if_neg hescape]
    by_cases hskip : (dialect.skipinitialspace && ch == ' ') = true
    · have hquote : dialect.activeQuotechar ≠ some ch := by
        intro hactive
        rw [Bool.and_eq_true, beq_iff_eq] at hskip
        refine hvalid.quotechar_space hskip.1 ?_
        rw [← hskip.2]
        exact quotechar_of_active hactive
      rw [Bool.and_eq_true] at hskip
      rw [hskip.1, hskip.2]
      rcases hspace with ⟨rfl, rfl, -⟩ | ⟨hspace, rfl⟩
      · simp only [Bool.not_false, Bool.and_self, ↓reduceIte, ite_self]
        exact ih chars (Nat.le_refl _) false true .fieldStart ⟨rfl, rfl⟩
      · rw [if_neg (by simp), if_neg hquote]
        by_cases hdelimiter : ch = dialect.delimiter
        · rw [if_pos hdelimiter, if_pos (by simp [hdelimiter])]
          exact ih chars (Nat.le_refl _) false true .fieldStart ⟨rfl, rfl⟩
        · rw [if_neg hdelimiter, if_neg (by simp [hdelimiter])]
          refine ih chars (Nat.le_refl _) false false behindSpace ?_
          rcases hspace with rfl | rfl <;> exact ⟨rfl, rfl⟩
    · rw [if_neg (fun h => hskip (by
        rw [Bool.and_eq_true, Bool.and_eq_true, Bool.and_eq_true] at h
        rw [h.1.1.1, h.2]
        rfl))]
      by_cases hquote : dialect.activeQuotechar = some ch
      · -- a quote inside a field stands for itself
        have hstart : atFieldStart = false := by
          rcases hspace with ⟨-, -, hne⟩ | ⟨-, hstart⟩
          · exact absurd hquote hne
          · exact hstart
        have hdelimiter := quotechar_not_delimiter hvalid hquote
        rw [if_pos hquote, hstart, if_neg hdelimiter, if_neg hskip]
        exact ih chars (Nat.le_refl _) false false .text ⟨rfl, rfl⟩
      · rw [if_neg hquote]
        by_cases hdelimiter : ch = dialect.delimiter
        · rw [if_pos hdelimiter, if_pos (by simp [hdelimiter])]
          exact ih chars (Nat.le_refl _) false true .fieldStart ⟨rfl, rfl⟩
        · rw [if_neg hdelimiter, if_neg (by simp [hdelimiter]), if_neg hskip]
          exact ih chars (Nat.le_refl _) false false .text ⟨rfl, rfl⟩

/-- Inside of quotes. -/
lemma csvRecordStateLoop_quoted (hvalid : dialect.Valid) {ch : Char} {chars : List Char}
    (empty : Bool)
    (ih : ∀ (rest : List Char), rest.length ≤ chars.length → ∀ inQuotes atFieldStart position,
      RecordAt dialect inQuotes atFieldStart rest position →
      csvRecordStateLoop dialect inQuotes atFieldStart rest =
        ⟨(rest.foldl (Position.next dialect) position).inQuotes,
          (rest.foldl (Position.next dialect) position).escaping⟩) :
    csvRecordStateLoop dialect true false (ch :: chars) =
      ⟨((ch :: chars).foldl (Position.next dialect) (.quoted empty)).inQuotes,
        ((ch :: chars).foldl (Position.next dialect) (.quoted empty)).escaping⟩ := by
  rw [foldl_next_cons, Position.next, csvRecordStateLoop.eq_def]
  dsimp only
  by_cases hquote : dialect.activeQuotechar = some ch
  · have hescape := quotechar_not_escape hvalid hquote
    rw [if_neg hescape, if_neg (by simp), if_pos hquote, if_pos hquote]
    cases chars with
    | nil => rfl
    | cons next rest =>
      by_cases hdouble : (dialect.doublequote && next == ch) = true
      · rw [Bool.and_eq_true, beq_iff_eq] at hdouble
        obtain ⟨hdq, rfl⟩ := hdouble
        have hnext : (Position.closing empty).next dialect next = .quoted false := by
          rw [Position.next, if_pos (by simp [hdq, hquote])]
        rw [foldl_next_cons, hnext, hdq]
        simp only [↓reduceIte, Bool.true_and, beq_self_eq_true]
        exact ih rest (by simp) true false (.quoted false) ⟨rfl, rfl⟩
      · simp only [↓reduceIte]
        rw [if_neg hdouble]
        refine ih (next :: rest) (Nat.le_refl _) false false (.closing empty)
          ⟨rfl, rfl, fun hdq other hother => ?_⟩
        obtain rfl : next = other := by simpa using hother
        intro hother
        have heq : ch = next := Option.some.inj (hquote.symm.trans hother)
        exact hdouble (by simp [hdq, heq])
  · rw [if_neg hquote, if_neg hquote]
    by_cases hescape : dialect.escapechar = some ch
    · rw [if_pos hescape, if_pos hescape]
      cases chars with
      | nil => rfl
      | cons next rest => exact ih rest (by simp) true false (.quoted false) ⟨rfl, rfl⟩
    · rw [if_neg hescape, if_neg hescape, if_neg (by simp), if_neg (by simp)]
      exact ih chars (Nat.le_refl _) true false (.quoted false) ⟨rfl, rfl⟩

lemma csvRecordStateLoop_eq (hvalid : dialect.Valid) (row : List Char)
    (inQuotes atFieldStart : Bool)
    (position : Position) (h : RecordAt dialect inQuotes atFieldStart row position) :
    csvRecordStateLoop dialect inQuotes atFieldStart row =
      ⟨(row.foldl (Position.next dialect) position).inQuotes,
        (row.foldl (Position.next dialect) position).escaping⟩ := by
  induction hn : row.length using Nat.strongRecOn generalizing row inQuotes atFieldStart
    position with
  | _ n ih =>
    cases row with
    | nil =>
      rw [csvRecordStateLoop]
      cases position <;> first | exact h.elim | (rw [h.1]; rfl)
    | cons ch chars =>
      have hchars : ∀ (rest : List Char), rest.length ≤ chars.length →
          ∀ inQuotes atFieldStart position, RecordAt dialect inQuotes atFieldStart rest position →
          csvRecordStateLoop dialect inQuotes atFieldStart rest =
            ⟨(rest.foldl (Position.next dialect) position).inQuotes,
              (rest.foldl (Position.next dialect) position).escaping⟩ := by
        intro rest hrest inQuotes atFieldStart position h
        rw [List.length_cons] at hn
        exact ih rest.length (by omega) rest inQuotes atFieldStart position h rfl
      cases position with
      | escape => exact h.elim
      | quotedEscape => exact h.elim
      | quoted empty =>
        obtain ⟨rfl, rfl⟩ := h
        exact csvRecordStateLoop_quoted hvalid empty hchars
      | fieldStart =>
        obtain ⟨rfl, rfl⟩ := h
        rw [foldl_next_cons, Position.next]
        by_cases hquote : dialect.activeQuotechar = some ch
        · have hescape := quotechar_not_escape hvalid hquote
          have hspace : (dialect.skipinitialspace && !false && true && ch == ' ') = false := by
            by_contra htrue
            simp only [Bool.not_false, Bool.and_true, Bool.not_eq_false, Bool.and_eq_true,
              beq_iff_eq] at htrue
            refine hvalid.quotechar_space htrue.1 ?_
            rw [← htrue.2]
            exact quotechar_of_active hquote
          rw [if_pos hquote, csvRecordStateLoop.eq_def]
          dsimp only
          rw [if_neg hescape, hspace, if_neg Bool.false_ne_true, if_pos hquote,
            if_neg Bool.false_ne_true, if_pos rfl]
          exact hchars chars (Nat.le_refl _) true false (.quoted true) ⟨rfl, rfl⟩
        · rw [if_neg hquote]
          exact csvRecordStateLoop_outside hvalid (Or.inl ⟨rfl, rfl, hquote⟩) hchars
      | text =>
        obtain ⟨rfl, rfl⟩ := h
        exact csvRecordStateLoop_outside hvalid (Or.inr ⟨Or.inl rfl, rfl⟩) hchars
      | closedEmpty =>
        obtain ⟨rfl, rfl⟩ := h
        exact csvRecordStateLoop_outside hvalid (Or.inr ⟨Or.inr rfl, rfl⟩) hchars
      | closing empty =>
        obtain ⟨rfl, rfl, hdouble⟩ := h
        have hnot : ¬(dialect.doublequote && dialect.activeQuotechar == some ch) = true := by
          intro htrue
          rw [Bool.and_eq_true, beq_iff_eq] at htrue
          exact hdouble htrue.1 ch rfl htrue.2
        rw [foldl_next_cons, Position.next, if_neg hnot]
        refine csvRecordStateLoop_outside hvalid (Or.inr ⟨?_, rfl⟩) hchars
        cases empty
        · exact Or.inl rfl
        · exact Or.inr rfl

/-- The state of a record is read off its position. -/
theorem csvRecordState_eq (hvalid : dialect.Valid) (row : List Char) :
    csvRecordState dialect row =
      ⟨(position dialect row).inQuotes, (position dialect row).escaping⟩ := by
  rw [csvRecordState]
  split
  · next hrow =>
    rw [hrow]
    rfl
  · exact csvRecordStateLoop_eq hvalid row false true .fieldStart ⟨rfl, rfl⟩

/-! ## Parsing a row -/

variable (dialect) in
/-- The position in the reading of `parse_csv_row_simple`, which stops at a bare line break and
opens a section behind an empty one. -/
def Position.read (position : Position) (ch : Char) : Option Position :=
  if position.breaks ch then none
  else if position.reopens dialect ch then some (.quoted true)
  else some (position.next dialect ch)

variable (dialect) in
/-- The parser stands at a position. -/
def ParseAt (state : ParseState) (row : List Char) : Position → Prop
  | .fieldStart => state.current = [] ∧ state.inQuotes = false ∧ state.justClosedQuote = false
  | .text => state.current ≠ [] ∧ state.inQuotes = false ∧ state.justClosedQuote = false
  | .closedEmpty => state.current = [] ∧ state.inQuotes = false ∧ state.justClosedQuote = false ∧
    dialect.skipinitialspace = true
  | .quoted empty => state.inQuotes = true ∧ state.current.isEmpty = empty
  | .closing empty => state.inQuotes = false ∧ state.justClosedQuote = true ∧
    state.current.isEmpty = empty ∧
    (dialect.doublequote = true → ∀ ch ∈ row.head?, dialect.activeQuotechar ≠ some ch)
  | .escape | .quotedEscape => False

/-- An outcome of the loop shows what a reading says. -/
def Agrees (reading : Option Position) : Except String ParseState → Prop
  | .error _ => reading = none
  | .ok state => ∃ position, reading = some position ∧ state.inQuotes = position.inQuotes

lemma foldlM_read_cons (position : Position) (ch : Char) (chars : List Char) :
    (ch :: chars).foldlM (Position.read dialect) position =
      (position.read dialect ch).bind fun position =>
        chars.foldlM (Position.read dialect) position := rfl

/-- Skipped spaces leave the position at the start of the field. -/
lemma foldlM_skipSpaces (hvalid : dialect.Valid) (chars : List Char) :
    (skipSpaces dialect chars).foldlM (Position.read dialect) .fieldStart =
      chars.foldlM (Position.read dialect) .fieldStart := by
  rw [skipSpaces]
  split
  · next hskip =>
    induction chars with
    | nil => rfl
    | cons ch chars ih =>
      by_cases hspace : ch = ' '
      · subst hspace
        have hread : Position.fieldStart.read dialect ' ' = some .fieldStart := by
          have hquote : dialect.activeQuotechar ≠ some ' ' := fun h =>
            hvalid.quotechar_space hskip (quotechar_of_active h)
          have hnext : Position.fieldStart.next dialect ' ' = .fieldStart := by
            rw [Position.next, if_neg hquote, Position.outside,
              if_neg (hvalid.escapechar_space hskip), hskip]
            simp
          rw [Position.read, if_neg (by decide), Position.reopens, if_neg (by simp), hnext]
        rw [List.dropWhile_cons_of_pos (by decide), ih, foldlM_read_cons, hread]
        rfl
      · rw [List.dropWhile_cons_of_neg (by simpa using hspace)]
  · rfl

variable (dialect) in
lemma length_skipSpaces_le (chars : List Char) :
    (skipSpaces dialect chars).length ≤ chars.length := by
  rw [skipSpaces]
  split
  · exact (List.dropWhile_suffix _).length_le
  · exact Nat.le_refl _

variable (dialect) in
/-- A turn of the loop keeps to a reading: it stops where the reading stops, ends the row where the
reading ends, or goes on at a position from which the reading goes on. -/
def StepAgrees (reading : Option Position) : Except String (ParseState × List Char) → Prop
  | .error _ => reading = none
  | .ok (state, chars) =>
    (chars = [] ∧ ∃ position, reading = some position ∧ state.inQuotes = position.inQuotes) ∨
    ∃ position, ParseAt dialect state chars position ∧
      reading = chars.foldlM (Position.read dialect) position

lemma quotechar_not_break (hvalid : dialect.Valid) {ch : Char}
    (h : dialect.activeQuotechar = some ch) : isLineBreak ch = false :=
  hvalid.quotechar_break ch (quotechar_of_active h)

lemma read_escape (ch : Char) : Position.escape.read dialect ch = some .text := by
  rw [Position.read, if_neg (by simp [Position.breaks, Position.escaping]), if_neg (by
    simp [Position.reopens])]
  rfl

lemma read_quotedEscape (ch : Char) :
    Position.quotedEscape.read dialect ch = some (.quoted false) := by
  rw [Position.read, if_neg (by simp [Position.breaks, Position.escaping]), if_neg (by
    simp [Position.reopens])]
  rfl

lemma read_quoted (empty : Bool) (ch : Char) :
    (Position.quoted empty).read dialect ch = some ((Position.quoted empty).next dialect ch) := by
  rw [Position.read, if_neg (by simp [Position.breaks, Position.inQuotes]), if_neg (by
    simp [Position.reopens])]

/-- A turn outside of quotes. -/
lemma parseCsvChar_outside (hvalid : dialect.Valid) (hstrict : dialect.strict = false)
    (state : ParseState) {ch : Char} {chars : List Char} {behindSpace position : Position}
    (hin : state.inQuotes = false) (hclosed : state.justClosedQuote = false)
    (hspace : (behindSpace = .fieldStart ∨ behindSpace = .closedEmpty) ∧ state.current = [] ∨
      behindSpace = .text ∧ state.current ≠ [])
    (hread : position.read dialect ch =
      if isLineBreak ch then none
      else if dialect.activeQuotechar = some ch ∧ state.current = [] then some (.quoted true)
      else some (Position.outside dialect behindSpace ch)) :
    StepAgrees dialect ((ch :: chars).foldlM (Position.read dialect) position)
      (parseCsvChar dialect none state ch chars) := by
  rw [foldlM_read_cons, hread, parseCsvChar.eq_def, hin, hstrict]
  by_cases hquote : dialect.activeQuotechar = some ch
  · have hbreak := quotechar_not_break hvalid hquote
    rw [if_pos hquote, hbreak, if_neg Bool.false_ne_true, if_neg Bool.false_ne_true]
    by_cases hcurrent : state.current = []
    · rw [if_pos ⟨hquote, hcurrent⟩, if_pos (by simp [hcurrent])]
      exact Or.inr ⟨.quoted true, ⟨rfl, by simp [hcurrent]⟩, rfl⟩
    · have houtside : Position.outside dialect behindSpace ch = .text := by
        have hescape := quotechar_not_escape hvalid hquote
        have hdelimiter := quotechar_not_delimiter hvalid hquote
        have htext : behindSpace = .text := by
          rcases hspace with ⟨-, hempty⟩ | ⟨htext, -⟩
          · exact absurd hempty hcurrent
          · exact htext
        rw [Position.outside, if_neg hescape, if_neg hdelimiter, htext, ite_self]
      rw [if_neg (fun h => hcurrent h.2), if_neg (by simpa using hcurrent),
        if_neg Bool.false_ne_true, houtside]
      exact Or.inr ⟨.text, ⟨by simp [ParseState.push], hin, rfl⟩, rfl⟩
  · have hopen : ¬(dialect.activeQuotechar = some ch ∧ state.current = []) := fun h => hquote h.1
    rw [if_neg hquote, if_neg hopen]
    by_cases hescape : dialect.escapechar = some ch
    · have hbreak := hvalid.escapechar_break ch hescape
      rw [if_pos hescape, hbreak, if_neg Bool.false_ne_true, Position.outside, if_pos hescape]
      cases chars with
      | nil =>
        dsimp only
        rw [if_neg Bool.false_ne_true]
        split
        · exact Or.inl ⟨rfl, .escape, rfl, hin⟩
        · exact Or.inl ⟨rfl, .escape, rfl, hin⟩
      | cons next rest =>
        refine Or.inr ⟨.text, ⟨by simp [ParseState.push], hin, hclosed⟩, ?_⟩
        change (next :: rest).foldlM (Position.read dialect) .escape = _
        rw [foldlM_read_cons, read_escape]
        rfl
    · rw [if_neg hescape]
      by_cases hskip : (dialect.skipinitialspace && !false && state.current.isEmpty && ch == ' ') =
          true
      · rw [if_pos hskip]
        simp only [Bool.not_false, Bool.and_true, Bool.and_eq_true, beq_iff_eq,
          List.isEmpty_iff] at hskip
        obtain ⟨⟨hskip, hcurrent⟩, rfl⟩ := hskip
        have hoptions : behindSpace = .fieldStart ∨ behindSpace = .closedEmpty := by
          rcases hspace with ⟨hoptions, -⟩ | ⟨-, hne⟩
          · exact hoptions
          · exact absurd hcurrent hne
        rw [if_neg (by decide : ¬isLineBreak ' ' = true), Position.outside, if_neg hescape, hskip]
        refine Or.inr ?_
        split
        · exact ⟨.fieldStart, ⟨hcurrent, hin, hclosed⟩, rfl⟩
        · rcases hoptions with rfl | rfl
          · exact ⟨.fieldStart, ⟨hcurrent, hin, hclosed⟩, rfl⟩
          · exact ⟨.closedEmpty, ⟨hcurrent, hin, hclosed, hskip⟩, rfl⟩
      · rw [if_neg hskip]
        cases hbreak : isLineBreak ch with
        | true =>
          simp only [↓reduceIte, Bool.not_false, Bool.and_self]
          rfl
        | false =>
          simp only [Bool.false_and, Bool.false_eq_true, ↓reduceIte]
          by_cases hdelimiter : ch = dialect.delimiter
          · rw [if_pos (by simp [hdelimiter]), Position.outside, if_neg hescape, if_pos hdelimiter]
            refine Or.inr ⟨.fieldStart, ⟨rfl, hin, rfl⟩, ?_⟩
            rw [foldlM_skipSpaces hvalid]
            rfl
          · have houtside : Position.outside dialect behindSpace ch = .text := by
              rw [Position.outside, if_neg hescape, if_neg hdelimiter]
              split
              · next hboth =>
                rcases hspace with ⟨-, hempty⟩ | ⟨htext, -⟩
                · rw [Bool.and_eq_true] at hboth
                  exact absurd (by simp [hboth.1, hboth.2, hempty]) hskip
                · exact htext
              · rfl
            rw [if_neg (by simp [hdelimiter]), houtside]
            exact Or.inr ⟨.text, ⟨by simp [ParseState.push], hin, rfl⟩, rfl⟩

/-- A turn inside of quotes. -/
lemma parseCsvChar_quoted (hvalid : dialect.Valid) (hstrict : dialect.strict = false)
    {state : ParseState} {ch : Char} {chars : List Char} (hin : state.inQuotes = true) :
    StepAgrees dialect
      ((ch :: chars).foldlM (Position.read dialect) (.quoted state.current.isEmpty))
      (parseCsvChar dialect none state ch chars) := by
  rw [foldlM_read_cons, read_quoted, Position.next, parseCsvChar.eq_def, hin, hstrict]
  by_cases hquote : dialect.activeQuotechar = some ch
  · rw [if_pos hquote, if_pos hquote, if_pos rfl]
    cases hdouble : dialect.doublequote && chars.head? == some ch with
    | true =>
      rw [Bool.and_eq_true, beq_iff_eq] at hdouble
      obtain ⟨hdq, hhead⟩ := hdouble
      cases chars with
      | nil => cases hhead
      | cons next rest =>
        obtain rfl : next = ch := Option.some.inj hhead
        have hnext : (Position.closing state.current.isEmpty).read dialect next =
            some (.quoted false) := by
          have hbreak := quotechar_not_break hvalid hquote
          rw [Position.read, if_neg (by simp [Position.breaks, hbreak]), if_neg (by
            simp [Position.reopens, hdq]), Position.next, if_pos (by simp [hdq, hquote])]
        refine Or.inr ⟨.quoted false, ⟨hin, by simp [ParseState.push]⟩, ?_⟩
        change (next :: rest).foldlM (Position.read dialect) _ = _
        rw [foldlM_read_cons, hnext]
        rfl
    | false =>
      refine Or.inr
        ⟨.closing state.current.isEmpty, ⟨rfl, rfl, rfl, fun hdq other hother => ?_⟩, rfl⟩
      intro hactive
      have heq : ch = other := Option.some.inj (hquote.symm.trans hactive)
      subst heq
      have hhead : chars.head? = some ch := hother
      rw [hdq, hhead] at hdouble
      simp at hdouble
  · rw [if_neg hquote, if_neg hquote]
    by_cases hescape : dialect.escapechar = some ch
    · rw [if_pos hescape, if_pos hescape]
      cases chars with
      | nil => exact Or.inl ⟨rfl, .quotedEscape, rfl, hin⟩
      | cons next rest =>
        refine Or.inr ⟨.quoted false, ⟨hin, by simp [ParseState.push]⟩, ?_⟩
        change (next :: rest).foldlM (Position.read dialect) .quotedEscape = _
        rw [foldlM_read_cons, read_quotedEscape]
        rfl
    · rw [if_neg hescape, if_neg hescape, if_neg (by simp), if_neg (by simp), if_neg (by simp)]
      exact Or.inr ⟨.quoted false, ⟨hin, by simp [ParseState.push]⟩, rfl⟩

/-- A turn of the loop. -/
lemma parseCsvStep_agrees (hvalid : dialect.Valid) (hstrict : dialect.strict = false)
    {state : ParseState} {ch : Char} {chars : List Char} {position : Position}
    (h : ParseAt dialect state (ch :: chars) position) :
    StepAgrees dialect ((ch :: chars).foldlM (Position.read dialect) position)
      (parseCsvStep dialect none state ch chars) := by
  have hopens : ∀ {position : Position}, position.inQuotes = false → position.escaping = false →
      position.breaks ch = isLineBreak ch := by
    intro position hquotes hescaping
    rw [Position.breaks, hquotes, hescaping]
    simp
  cases position with
  | escape => exact h.elim
  | quotedEscape => exact h.elim
  | quoted empty =>
    obtain ⟨hin, rfl⟩ := h
    rw [parseCsvStep, hin, if_neg (by simp)]
    exact parseCsvChar_quoted hvalid hstrict hin
  | fieldStart =>
    obtain ⟨hcurrent, hin, hclosed⟩ := h
    rw [parseCsvStep, hclosed, Bool.and_false, if_neg Bool.false_ne_true]
    refine parseCsvChar_outside hvalid hstrict state hin hclosed (Or.inl ⟨Or.inl rfl, hcurrent⟩) ?_
    rw [Position.read, hopens rfl rfl, Position.reopens, Position.next]
    by_cases hquote : dialect.activeQuotechar = some ch <;> simp [hquote, hcurrent]
  | text =>
    obtain ⟨hcurrent, hin, hclosed⟩ := h
    rw [parseCsvStep, hclosed, Bool.and_false, if_neg Bool.false_ne_true]
    refine parseCsvChar_outside hvalid hstrict state hin hclosed (Or.inr ⟨rfl, hcurrent⟩) ?_
    rw [Position.read, hopens rfl rfl, Position.reopens, Position.next]
    simp [hcurrent]
  | closedEmpty =>
    obtain ⟨hcurrent, hin, hclosed, -⟩ := h
    rw [parseCsvStep, hclosed, Bool.and_false, if_neg Bool.false_ne_true]
    refine parseCsvChar_outside hvalid hstrict state hin hclosed (Or.inl ⟨Or.inr rfl, hcurrent⟩) ?_
    rw [Position.read, hopens rfl rfl, Position.reopens, Position.next]
    by_cases hquote : dialect.activeQuotechar = some ch <;> simp [hquote, hcurrent]
  | closing empty =>
    obtain ⟨hin, hclosed, hempty, hdouble⟩ := h
    have hnot : ¬(dialect.doublequote && dialect.activeQuotechar == some ch) = true := by
      intro htrue
      rw [Bool.and_eq_true, beq_iff_eq] at htrue
      exact hdouble htrue.1 ch rfl htrue.2
    rw [parseCsvStep, if_pos (by rw [hin, hclosed]; rfl)]
    by_cases hdelimiter : ch = dialect.delimiter
    · have hread : (Position.closing empty).read dialect ch = some .fieldStart := by
        have hquote : dialect.activeQuotechar ≠ some ch := fun h =>
          quotechar_not_delimiter hvalid h hdelimiter
        have hescape : dialect.escapechar ≠ some ch := by
          rw [hdelimiter]
          exact hvalid.escapechar_delimiter
        have hbreak : isLineBreak ch = false := by rw [hdelimiter, hvalid.delimiter_break]
        rw [Position.read, hopens rfl rfl, hbreak, if_neg Bool.false_ne_true, if_neg (by
          simp [Position.reopens, hquote]), Position.next, if_neg hnot, Position.outside,
          if_neg hescape, if_pos hdelimiter]
      rw [if_pos (by simp [hdelimiter]), foldlM_read_cons, hread]
      refine Or.inr ⟨.fieldStart, ⟨rfl, hin, rfl⟩, ?_⟩
      rw [foldlM_skipSpaces hvalid]
      rfl
    · rw [if_neg (by simpa using hdelimiter), hstrict, if_neg Bool.false_ne_true]
      have hread : (Position.closing empty).read dialect ch =
          if isLineBreak ch then none
          else if dialect.activeQuotechar = some ch ∧ state.current = [] then some (.quoted true)
          else some (Position.outside dialect (if empty then .closedEmpty else .text) ch) := by
        rw [Position.read, hopens rfl rfl, Position.reopens, Position.next, if_neg hnot]
        by_cases hquote : dialect.activeQuotechar = some ch
        · have hdq : dialect.doublequote = false := by
            by_contra htrue
            exact hnot (by simp [hquote, htrue])
          cases hlist : state.current with
          | nil =>
            rw [hlist] at hempty
            simp [hquote, hdq, ← hempty]
          | cons first rest =>
            rw [hlist] at hempty
            simp [hquote, hdq, ← hempty]
        · simp [hquote]
      refine parseCsvChar_outside hvalid hstrict { state with justClosedQuote := false } hin rfl ?_
        hread
      cases hlist : state.current with
      | nil =>
        rw [hlist] at hempty
        exact Or.inl ⟨Or.inr (by rw [← hempty]; rfl), rfl⟩
      | cons first rest =>
        rw [hlist] at hempty
        exact Or.inr ⟨by rw [← hempty]; rfl, by simp⟩

/-- What a turn leaves is not longer than what it found. -/
lemma length_parseCsvStep_le {fieldLimit : Option ℕ} {state state' : ParseState} {ch : Char}
    {chars chars' : List Char}
    (h : parseCsvStep dialect fieldLimit state ch chars = .ok (state', chars')) :
    chars'.length ≤ chars.length := by
  have hchar : ∀ {state : ParseState},
      parseCsvChar dialect fieldLimit state ch chars = .ok (state', chars') →
        chars'.length ≤ chars.length := by
    intro state h
    rw [parseCsvChar.eq_def] at h
    have hskip := length_skipSpaces_le dialect chars
    repeat' split at h
    all_goals cases h
    all_goals simp_all
  rw [parseCsvStep] at h
  split at h
  · split at h
    · cases h
      exact length_skipSpaces_le dialect _
    · split at h
      · cases h
      · exact hchar h
  · exact hchar h

/-- The loop keeps to the reading. -/
lemma parseCsvLoop_agrees (hvalid : dialect.Valid) (hstrict : dialect.strict = false) (fuel : ℕ)
    (row : List Char) (hfuel : row.length ≤ fuel) (state : ParseState) (position : Position)
    (h : ParseAt dialect state row position) :
    Agrees (row.foldlM (Position.read dialect) position)
      (parseCsvLoop dialect none fuel state row) := by
  induction fuel generalizing row state position with
  | zero =>
    obtain rfl : row = [] := List.length_eq_zero_iff.1 (by omega)
    refine ⟨position, rfl, ?_⟩
    cases position <;> first | exact h.elim | exact h.1 | exact h.2.1
  | succ fuel ih =>
    cases row with
    | nil =>
      refine ⟨position, rfl, ?_⟩
      cases position <;> first | exact h.elim | exact h.1 | exact h.2.1
    | cons ch chars =>
      have hstep := parseCsvStep_agrees hvalid hstrict h
      rw [parseCsvLoop]
      cases hturn : parseCsvStep dialect none state ch chars with
      | error message =>
        rw [hturn] at hstep
        exact hstep
      | ok result =>
        obtain ⟨state', chars'⟩ := result
        rw [hturn] at hstep
        have hlength := length_parseCsvStep_le hturn
        rcases hstep with ⟨rfl, hend⟩ | ⟨position', hposition, hreading⟩
        · change Agrees _ (parseCsvLoop dialect none fuel state' [])
          cases fuel <;> exact hend
        · rw [hreading]
          rw [List.length_cons] at hfuel
          exact ih chars' (by omega) state' position' hposition

/-! ## The scanners compared -/

variable (dialect) in
/-- The record state is in quotes exactly when the loop of the parser ends in them. -/
def ScannersAgree (row : List Char) : Prop :=
  (csvRecordState dialect row).inQuotes = true ↔
    ∃ state, parseCsvRowState dialect none row = .ok state ∧ state.inQuotes = true

variable (dialect) in
def BreaksIn (row : List Char) : Prop :=
  ∃ before ch after, row = before ++ ch :: after ∧ (position dialect before).breaks ch = true

variable (dialect) in
/-- Up to the first bare line break no quote stands behind an empty quoted section, and behind it no
section opens. -/
def Tracks (row : List Char) : Prop :=
  ∀ before ch after, row = before ++ ch :: after →
    (¬BreaksIn dialect before → (position dialect before).reopens dialect ch = false) ∧
    (BreaksIn dialect before → (position dialect before).opens dialect ch = false)

/-- A position that only an opening quote leads into quotes. -/
def Position.bare : Position → Bool
  | .fieldStart | .text | .escape | .closedEmpty => true
  | _ => false

lemma bare_outside {behindSpace : Position} (h : behindSpace.bare = true) (ch : Char) :
    (Position.outside dialect behindSpace ch).bare = true := by
  rw [Position.outside]
  repeat' split
  all_goals first | rfl | exact h

lemma bare_next {position : Position} {ch : Char} (h : position.bare = true)
    (hopens : position.opens dialect ch = false) : (position.next dialect ch).bare = true := by
  cases position with
  | fieldStart =>
    rw [Position.opens, beq_self_eq_true, Bool.and_true, beq_eq_false_iff_ne] at hopens
    rw [Position.next, if_neg hopens]
    exact bare_outside rfl ch
  | text => exact bare_outside rfl ch
  | escape => rfl
  | closedEmpty => exact bare_outside rfl ch
  | quoted empty => cases h
  | quotedEscape => cases h
  | closing empty => cases h

/-- Behind a bare line break. -/
lemma bare_next_of_breaks (hvalid : dialect.Valid) {position : Position} {ch : Char}
    (h : position.breaks ch = true) : (position.next dialect ch).bare = true := by
  rw [Position.breaks, Bool.and_eq_true, Bool.and_eq_true] at h
  obtain ⟨⟨hbreak, hquotes⟩, hescaping⟩ := h
  have hquote : dialect.activeQuotechar ≠ some ch := by
    intro hactive
    rw [quotechar_not_break hvalid hactive] at hbreak
    cases hbreak
  cases position with
  | fieldStart =>
    rw [Position.next, if_neg hquote]
    exact bare_outside rfl ch
  | text => exact bare_outside rfl ch
  | escape => rfl
  | closedEmpty => exact bare_outside rfl ch
  | quoted empty => cases hquotes
  | quotedEscape => cases hquotes
  | closing empty =>
    rw [Position.next, if_neg (by simp [hquote])]
    exact bare_outside (by cases empty <;> rfl) ch

lemma position_concat (row : List Char) (ch : Char) :
    position dialect (row ++ [ch]) = (position dialect row).next dialect ch := by
  rw [position, List.foldl_append]
  rfl

lemma breaksIn_concat (row : List Char) (ch : Char) :
    BreaksIn dialect (row ++ [ch]) ↔
      BreaksIn dialect row ∨ (position dialect row).breaks ch = true := by
  constructor
  · rintro ⟨before, other, after, hrow, hbreaks⟩
    rcases List.eq_nil_or_concat after with rfl | ⟨init, last, rfl⟩
    · obtain ⟨rfl, hother⟩ := List.append_inj' hrow rfl
      cases hother
      exact Or.inr hbreaks
    · rw [List.concat_eq_append, ← List.cons_append, ← List.append_assoc] at hrow
      obtain ⟨hinit, -⟩ := List.append_inj' hrow rfl
      exact Or.inl ⟨before, other, init, hinit, hbreaks⟩
  · rintro (⟨before, other, after, rfl, hbreaks⟩ | hbreaks)
    · exact ⟨before, other, after ++ [ch], by simp, hbreaks⟩
    · exact ⟨row, ch, [], rfl, hbreaks⟩

lemma foldlM_read_concat (row : List Char) (ch : Char) :
    (row ++ [ch]).foldlM (Position.read dialect) .fieldStart =
      (row.foldlM (Position.read dialect) .fieldStart).bind fun position =>
        position.read dialect ch := by
  rw [List.foldlM_append]
  change _ >>= _ = _ >>= _
  congr 1
  funext position
  rw [foldlM_read_cons]
  cases position.read dialect ch <;> rfl

lemma Tracks.init {row : List Char} {ch : Char} (h : Tracks dialect (row ++ [ch])) :
    Tracks dialect row := by
  rintro before other after rfl
  exact h before other (after ++ [ch]) (by simp)

/-- The reading of the parser follows the positions until a bare line break stops it. -/
lemma Tracks.reading (hvalid : dialect.Valid) {row : List Char} (h : Tracks dialect row) :
    (BreaksIn dialect row ∧ row.foldlM (Position.read dialect) .fieldStart = none ∧
      (position dialect row).bare = true) ∨
    (¬BreaksIn dialect row ∧
      row.foldlM (Position.read dialect) .fieldStart = some (position dialect row)) := by
  induction row using List.reverseRecOn with
  | nil =>
    refine Or.inr ⟨?_, rfl⟩
    rintro ⟨before, ch, after, hrow, -⟩
    simp at hrow
  | append_singleton row ch ih =>
    have hlast := h row ch [] rfl
    rw [breaksIn_concat, position_concat, foldlM_read_concat]
    rcases ih h.init with ⟨hbreaks, hnone, hbare⟩ | ⟨hbreaks, hsome⟩
    · rw [hnone]
      exact Or.inl ⟨Or.inl hbreaks, rfl, bare_next hbare (hlast.2 hbreaks)⟩
    · rw [hsome, Option.bind_some, Position.read]
      cases hbreak : (position dialect row).breaks ch with
      | true => exact Or.inl ⟨Or.inr rfl, if_pos rfl, bare_next_of_breaks hvalid hbreak⟩
      | false =>
        refine Or.inr ⟨not_or.2 ⟨hbreaks, Bool.false_ne_true⟩, ?_⟩
        rw [if_neg Bool.false_ne_true, hlast.1 hbreaks, if_neg Bool.false_ne_true]

lemma inQuotes_of_bare {position : Position} (h : position.bare = true) :
    position.inQuotes = false := by
  cases position <;> first | rfl | cases h

/-- Agreement, on the positions. -/
lemma scannersAgree_iff (hvalid : dialect.Valid) (hstrict : dialect.strict = false)
    (row : List Char) :
    ScannersAgree dialect row ↔
      ((position dialect row).inQuotes = true ↔
        ∃ p, row.foldlM (Position.read dialect) .fieldStart = some p ∧ p.inQuotes = true) := by
  have hparse : Agrees (row.foldlM (Position.read dialect) .fieldStart)
      (parseCsvRowState dialect none row) :=
    parseCsvLoop_agrees hvalid hstrict row.length row (Nat.le_refl _) .initial .fieldStart
      ⟨rfl, rfl, rfl⟩
  rw [ScannersAgree, csvRecordState_eq hvalid]
  refine iff_congr Iff.rfl ?_
  cases hstate : parseCsvRowState dialect none row with
  | error message =>
    rw [hstate] at hparse
    have hnone : row.foldlM (Position.read dialect) .fieldStart = none := hparse
    rw [hnone]
    simp
  | ok state =>
    rw [hstate] at hparse
    obtain ⟨p, hreading, hquotes⟩ := hparse
    rw [hreading]
    simp [hquotes]

/-- The two scanners agree on every text with which a row begins exactly when no quote stands behind
an empty quoted section and, behind a bare line break, no section opens. -/
theorem scannersAgree_prefixes_iff (dialect : Dialect)
    (haccepted : validateCsvParameterConsistency dialect = .ok ()) (hstrict : dialect.strict = false)
    (row : List Char) :
    (∀ shown, shown <+: row → ScannersAgree dialect shown) ↔ Tracks dialect row := by
  have hvalid := valid_of_accepted haccepted
  constructor
  · intro hagree
    induction row using List.reverseRecOn with
    | nil =>
      intro before ch after hrow
      simp at hrow
    | append_singleton row ch ih =>
      have hinit := ih fun shown hshown => hagree shown (hshown.trans (List.prefix_append _ _))
      have hlast := (scannersAgree_iff hvalid hstrict _).1 (hagree _ (List.prefix_refl _))
      rw [position_concat, foldlM_read_concat] at hlast
      intro before other after hrow
      rcases List.eq_nil_or_concat after with rfl | ⟨init, last, rfl⟩
      · obtain ⟨rfl, hother⟩ := List.append_inj' hrow rfl
        cases hother
        rcases hinit.reading hvalid with ⟨hbreaks, hnone, hbare⟩ | ⟨hbreaks, hsome⟩
        · refine ⟨fun hnot => absurd hbreaks hnot, fun _ => ?_⟩
          by_contra hopens
          rw [Bool.not_eq_false, Position.opens, Bool.and_eq_true, beq_iff_eq, beq_iff_eq] at hopens
          rw [hnone, hopens.2, Position.next, if_pos hopens.1] at hlast
          obtain ⟨p, hp, -⟩ := hlast.1 rfl
          cases hp
        · refine ⟨fun _ => ?_, fun h => absurd h hbreaks⟩
          by_contra hreopens
          rw [Bool.not_eq_false] at hreopens
          have hquote := hreopens
          rw [Position.reopens, Bool.and_eq_true, beq_iff_eq] at hquote
          have hbreak : ¬(position dialect row).breaks ch = true := by
            rw [Position.breaks, quotechar_not_break hvalid hquote.1]
            simp
          rw [hsome, Option.bind_some, Position.read, if_neg hbreak, if_pos hreopens] at hlast
          have hin := hlast.2 ⟨_, rfl, rfl⟩
          -- the position is behind the quote as behind any other character
          have hout : ((position dialect row).next dialect ch).inQuotes = false := by
            rcases Bool.or_eq_true _ _ ▸ hquote.2 with hclosed | hclosing
            · rw [beq_iff_eq.1 hclosed]
              exact inQuotes_of_bare (bare_outside rfl ch)
            · rw [Bool.and_eq_true, beq_iff_eq, Bool.not_eq_true'] at hclosing
              rw [hclosing.1, Position.next, if_neg (by simp [hclosing.2])]
              exact inQuotes_of_bare (bare_outside rfl ch)
          rw [hout] at hin
          cases hin
      · rw [List.concat_eq_append, ← List.cons_append, ← List.append_assoc] at hrow
        obtain ⟨hinitial, -⟩ := List.append_inj' hrow rfl
        exact hinit before other init hinitial
  · rintro htracks shown ⟨rest, rfl⟩
    have hshown : Tracks dialect shown := by
      rintro before ch after rfl
      exact htracks before ch (after ++ rest) (by simp)
    rw [scannersAgree_iff hvalid hstrict]
    rcases hshown.reading hvalid with ⟨-, hnone, hbare⟩ | ⟨-, hsome⟩
    · rw [hnone, inQuotes_of_bare hbare]
      simp
    · rw [hsome]
      simp

/-- Commas and double quotes, where a quote in a quoted section is not doubled. -/
def undoubled : Dialect where
  delimiter := ','
  quotechar := some '"'
  escapechar := none
  doublequote := false
  skipinitialspace := false
  lineterminator := ['\r', '\n']
  quoting := 0
  strict := false

/-- An open quoted section. -/
theorem scannersAgree_open : ScannersAgree undoubled ['"', 'a'] := by
  refine (scannersAgree_prefixes_iff undoubled rfl rfl ['"', 'a']).2 ?_ _ (List.prefix_refl _)
  intro before ch after hrow
  rcases before with _ | ⟨first, _ | ⟨second, rest⟩⟩
  · cases hrow
    refine ⟨fun _ => by decide, ?_⟩
    rintro ⟨before, other, after, hnil, -⟩
    simp at hnil
  · cases hrow
    exact ⟨fun _ => by decide, fun _ => by decide⟩
  · have hlength := congrArg List.length hrow
    simp at hlength

/-- Three quotes: the parser opens a second section behind an empty one. -/
theorem not_scannersAgree_reopened :
    ¬∀ (dialect : Dialect), validateCsvParameterConsistency dialect = .ok () →
      dialect.strict = false → ∀ row, ScannersAgree dialect row := by
  intro h
  have hagree := (h undoubled rfl rfl ['"', '"', '"']).2 ⟨⟨[], [], true, true, false⟩, rfl, rfl⟩
  have hstate : csvRecordState undoubled ['"', '"', '"'] = ⟨false, false⟩ := by decide
  rw [hstate] at hagree
  cases hagree

end Csv

end Pyrs
