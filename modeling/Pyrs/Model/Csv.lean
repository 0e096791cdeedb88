import Mathlib.Data.Int.Notation
import Mathlib.Data.List.Basic

/-!
# Reading and writing CSV

The scanners, the field writer and the reader loop of `vm/stdlib/csv.rs`, over texts as lists of
characters.  A field of the writer is a string.
-/

namespace Pyrs

namespace Csv

/-- The parameters of a dialect. -/
structure Dialect where
  delimiter : Char
  quotechar : Option Char
  escapechar : Option Char
  doublequote : Bool
  skipinitialspace : Bool
  lineterminator : List Char
  quoting : ℤ
  strict : Bool

/-- `\n` or `\r`. -/
def isLineBreak (ch : Char) : Bool :=
  ch == '\n' || ch == '\r'

/-- `validate_csv_parameter_consistency`. -/
def validateCsvParameterConsistency (dialect : Dialect) : Except String Unit := do
  if ¬(0 ≤ dialect.quoting ∧ dialect.quoting ≤ 5) then
    throw "bad \"quoting\" value"
  if dialect.quotechar = none ∧ dialect.quoting ≠ 3 then
    throw "quotechar must be set if quoting enabled"
  if isLineBreak dialect.delimiter then
    throw "bad delimiter value"
  if dialect.quotechar.any isLineBreak then
    throw "bad quotechar value"
  if dialect.escapechar.any isLineBreak then
    throw "bad escapechar value"
  if dialect.skipinitialspace ∧ dialect.quotechar = some ' ' then
    throw "bad quotechar value"
  if dialect.skipinitialspace ∧ dialect.escapechar = some ' ' then
    throw "bad escapechar value"
  if dialect.quotechar = some dialect.delimiter then
    throw "bad delimiter or quotechar value"
  if dialect.escapechar = some dialect.delimiter then
    throw "bad delimiter or escapechar value"
  if dialect.quotechar.isSome ∧ dialect.quotechar = dialect.escapechar then
    throw "bad escapechar or quotechar value"
  if dialect.delimiter ∈ dialect.lineterminator then
    throw "bad delimiter or lineterminator value"
  if dialect.quotechar.any (· ∈ dialect.lineterminator) then
    throw "bad quotechar or lineterminator value"
  if dialect.escapechar.any (· ∈ dialect.lineterminator) then
    throw "bad escapechar or lineterminator value"

/-- The quote character of both scanners: none when quoting is off. -/
def Dialect.activeQuotechar (dialect : Dialect) : Option Char :=
  if dialect.quoting = 3 then none else dialect.quotechar

/-! ## The state of a record -/

/-- The state of the scanner of records. -/
structure CsvRecordState where
  inQuotes : Bool
  trailingEscape : Bool
  deriving DecidableEq

/-- The loop of `csv_record_state`. -/
def csvRecordStateLoop (dialect : Dialect) (inQuotes atFieldStart : Bool) :
    List Char → CsvRecordState
  | [] => ⟨inQuotes, false⟩
  | ch :: chars =>
    if dialect.escapechar = some ch then
      match chars with
      | [] => ⟨inQuotes, true⟩
      | _ :: chars => csvRecordStateLoop dialect inQuotes false chars
    else if dialect.skipinitialspace && !inQuotes && atFieldStart && ch == ' ' then
      csvRecordStateLoop dialect inQuotes atFieldStart chars
    else if dialect.activeQuotechar = some ch then
      if inQuotes then
        match chars with
        | [] => ⟨false, false⟩
        | next :: rest =>
          if dialect.doublequote && next == ch then csvRecordStateLoop dialect inQuotes false rest
          else csvRecordStateLoop dialect false atFieldStart (next :: rest)
      else if atFieldStart then csvRecordStateLoop dialect true false chars
      else csvRecordStateLoop dialect false false chars
    else if ch == dialect.delimiter && !inQuotes then
      csvRecordStateLoop dialect inQuotes true chars
    else csvRecordStateLoop dialect inQuotes false chars

/-- `csv_record_state`. -/
def csvRecordState (dialect : Dialect) (row : List Char) : CsvRecordState :=
  if row = [] then ⟨false, false⟩ else csvRecordStateLoop dialect false true row

/-! ## Parsing a row -/

/-- A field, and whether it was quoted. -/
structure CsvParsedField where
  value : List Char
  quoted : Bool
  deriving DecidableEq

/-- The state of the parser of rows. -/
structure ParseState where
  fields : List CsvParsedField
  current : List Char
  fieldQuoted : Bool
  inQuotes : Bool
  justClosedQuote : Bool
  deriving DecidableEq

/-- One character more of the field. -/
def ParseState.push (state : ParseState) (ch : Char) : ParseState :=
  { state with current := state.current ++ [ch] }

/-- The field ends. -/
def ParseState.endField (state : ParseState) : ParseState :=
  { state with
    fields := state.fields ++ [⟨state.current, state.fieldQuoted⟩]
    current := []
    fieldQuoted := false
    justClosedQuote := false }

/-- The spaces that are skipped behind a delimiter. -/
def skipSpaces (dialect : Dialect) (chars : List Char) : List Char :=
  if dialect.skipinitialspace then chars.dropWhile (· == ' ') else chars

/-- The body of the loop of `parse_csv_row_simple`, behind the test for a closed quote. -/
def parseCsvChar (dialect : Dialect) (fieldLimit : Option ℕ) (state : ParseState) (ch : Char)
    (chars : List Char) : Except String (ParseState × List Char) :=
  if dialect.activeQuotechar = some ch then
    if state.inQuotes then
      if dialect.doublequote && chars.head? == some ch then pure (state.push ch, chars.tail)
      else pure ({ state with inQuotes := false, justClosedQuote := true }, chars)
    else if state.current.isEmpty then
      pure ({ state with fieldQuoted := true, inQuotes := true, justClosedQuote := false }, chars)
    else if dialect.strict then throw "',' expected after '\"'"
    else pure ({ state.push ch with justClosedQuote := false }, chars)
  else if dialect.escapechar = some ch then
    match chars with
    | next :: chars => pure (state.push next, chars)
    | [] =>
      if dialect.strict then throw "unexpected end of data"
      else if state.inQuotes || state.current.isEmpty then pure (state.push '\n', [])
      else pure (state.push ch, [])
  else if dialect.skipinitialspace && !state.inQuotes && state.current.isEmpty && ch == ' ' then
    pure (state, chars)
  else if isLineBreak ch && !state.inQuotes then
    throw "new-line character seen in unquoted field - do you need to open the file with newline=''?"
  else if ch == dialect.delimiter && !state.inQuotes then
    pure (state.endField, skipSpaces dialect chars)
  else if fieldLimit.any (· < (state.current ++ [ch]).length) then
    throw "field larger than field limit"
  else pure ({ state.push ch with justClosedQuote := false }, chars)

/-- The body of the loop of `parse_csv_row_simple`: the state and the rest after it. -/
def parseCsvStep (dialect : Dialect) (fieldLimit : Option ℕ) (state : ParseState) (ch : Char)
    (chars : List Char) : Except String (ParseState × List Char) :=
  if !state.inQuotes && state.justClosedQuote then
    if ch == dialect.delimiter then pure (state.endField, skipSpaces dialect chars)
    else if dialect.strict then throw "',' expected after '\"'"
    else parseCsvChar dialect fieldLimit { state with justClosedQuote := false } ch chars
  else parseCsvChar dialect fieldLimit state ch chars

/-- The loop of `parse_csv_row_simple`.  Each turn reads at least a character, so the length of the
row is enough fuel. -/
def parseCsvLoop (dialect : Dialect) (fieldLimit : Option ℕ) :
    ℕ → ParseState → List Char → Except String ParseState
  | _, state, [] => pure state
  | 0, _, _ :: _ => throw "out of fuel"
  | fuel + 1, state, ch :: chars => do
    let (state, chars) ← parseCsvStep dialect fieldLimit state ch chars
    parseCsvLoop dialect fieldLimit fuel state chars

/-- No field is begun. -/
def ParseState.initial : ParseState := ⟨[], [], false, false, false⟩

/-- The state in which the loop of `parse_csv_row_simple` ends on a row. -/
def parseCsvRowState (dialect : Dialect) (fieldLimit : Option ℕ) (row : List Char) :
    Except String ParseState :=
  parseCsvLoop dialect fieldLimit row.length .initial row

/-- `parse_csv_row_simple`. -/
def parseCsvRowSimple (dialect : Dialect) (fieldLimit : Option ℕ) (row : List Char) :
    Except String (List CsvParsedField) :=
  if row = [] then pure []
  else do
    let state ← parseCsvRowState dialect fieldLimit row
    if state.inQuotes && dialect.strict then throw "unexpected end of data"
    pure (state.fields ++ [⟨state.current, state.fieldQuoted⟩])

/-! ## The reader -/

/-- `split_csv_line_ending`. -/
def splitCsvLineEnding (text : List Char) : List Char × List Char :=
  match text.reverse with
  | '\n' :: '\r' :: body => (body.reverse, ['\r', '\n'])
  | '\n' :: body => (body.reverse, ['\n'])
  | '\r' :: body => (body.reverse, ['\r'])
  | _ => (text, [])

/-- A value that the reader gives for a field; `F` are the floats. -/
inductive CsvValue (F : Type)
  | str (text : List Char)
  | none
  | float (value : F)
  deriving DecidableEq

section Reader

variable {F : Type} (parseFloat : List Char → Except String F)

/-- `csv_reader_value_for_field`. -/
def csvReaderValueForField (quoting : ℤ) (field : CsvParsedField) : Except String (CsvValue F) :=
  if quoting = 2 ∧ field.quoted = false ∧ field.value ≠ [] then .float <$> parseFloat field.value
  else if quoting = 4 ∧ field.quoted = false ∧ field.value = [] then pure .none
  else if quoting = 4 ∧ field.quoted = false then .float <$> parseFloat field.value
  else if quoting = 5 ∧ field.quoted = false ∧ field.value = [] then pure .none
  else pure (.str field.value)

/-- The record that a complete row makes. -/
def csvRecord (dialect : Dialect) (fieldLimit : Option ℕ) (row : List Char) :
    Except String (List (CsvValue F)) := do
  let fields ← parseCsvRowSimple dialect fieldLimit row
  fields.mapM (csvReaderValueForField parseFloat dialect.quoting)

/-- The loop of `builtin_csv_reader_next` over the physical lines that are left: the record, and the
lines behind it. -/
def csvReaderNext (dialect : Dialect) (fieldLimit : Option ℕ) (pendingRecord : List Char) :
    List (List Char) → Except String (List (CsvValue F) × List (List Char))
  | [] =>
    if pendingRecord = [] then throw "StopIteration"
    else (·, []) <$> csvRecord parseFloat dialect fieldLimit pendingRecord
  | text :: lines =>
    let (lineBody, lineEnding) := splitCsvLineEnding text
    let row := pendingRecord ++ lineBody
    let recordState := csvRecordState dialect row
    if recordState.trailingEscape then
      if lineEnding = ['\r', '\n'] then
        if recordState.inQuotes then csvReaderNext dialect fieldLimit (row ++ ['\r', '\n']) lines
        else (·, lines) <$> csvRecord parseFloat dialect fieldLimit (row ++ ['\r'])
      else csvReaderNext dialect fieldLimit (row ++ lineEnding) lines
    else if recordState.inQuotes then csvReaderNext dialect fieldLimit (row ++ lineEnding) lines
    else (·, lines) <$> csvRecord parseFloat dialect fieldLimit row

end Reader

/-- The physical lines of a text file that is opened with `newline=''`. -/
def physicalLines : List Char → List (List Char)
  | [] => []
  | '\r' :: '\n' :: text => ['\r', '\n'] :: physicalLines text
  | ch :: text =>
    if isLineBreak ch then [ch] :: physicalLines text
    else
      match physicalLines text with
      | [] => [[ch]]
      | line :: lines => (ch :: line) :: lines

/-! ## The writer -/

/-- Puts the escape character before the characters that need it. -/
def escapeWhere (escapechar : Option Char) (mustEscape : Char → Bool) :
    List Char → Except String (List Char)
  | [] => pure []
  | ch :: chars =>
    if mustEscape ch then
      match escapechar with
      | none => throw "need to escape, but no escapechar set"
      | some escape => ([escape, ch] ++ ·) <$> escapeWhere escapechar mustEscape chars
    else ([ch] ++ ·) <$> escapeWhere escapechar mustEscape chars

/-- The characters of a field between quotes. -/
def quoteChars (dialect : Dialect) (quote : Char) : List Char → Except String (List Char)
  | [] => pure []
  | ch :: chars =>
    if ch = quote then
      if dialect.doublequote then ([quote, quote] ++ ·) <$> quoteChars dialect quote chars
      else
        match dialect.escapechar with
        | some escape => ([escape, quote] ++ ·) <$> quoteChars dialect quote chars
        | none => throw "need to escape quotechar"
    else if dialect.escapechar = some ch then ([ch, ch] ++ ·) <$> quoteChars dialect quote chars
    else ([ch] ++ ·) <$> quoteChars dialect quote chars

/-- `quote_csv_field`. -/
def quoteCsvField (dialect : Dialect) (field : List Char) (forceQuote : Bool) :
    Except String (List Char) :=
  let containsQuote := dialect.quotechar.any (· ∈ field)
  let needsQuote := dialect.delimiter ∈ field ∨ '\n' ∈ field ∨ '\r' ∈ field ∨
    (containsQuote ∧ (dialect.doublequote ∨ dialect.escapechar = none))
  if dialect.quoting = 3 then
    escapeWhere dialect.escapechar (fun ch => ch == dialect.delimiter || isLineBreak ch ||
      dialect.quotechar == some ch || dialect.escapechar == some ch) field
  else if forceQuote = false ∧ ¬needsQuote then
    if dialect.escapechar.isSome then
      escapeWhere dialect.escapechar (fun ch => (dialect.quotechar == some ch && !dialect.doublequote)
        || dialect.escapechar == some ch) field
    else if containsQuote && !dialect.doublequote then throw "need to escape quotechar"
    else pure field
  else
    match dialect.quotechar with
    | none => escapeWhere dialect.escapechar
      (fun ch => ch == dialect.delimiter || isLineBreak ch) field
    | some quote => (fun escaped => [quote] ++ escaped ++ [quote]) <$> quoteChars dialect quote field

/-- `csv_writer_field_from_value` on a string: the text of the field, and whether it counts as
quoted. -/
def csvWriterField (dialect : Dialect) (text : List Char) : Except String (List Char × Bool) := do
  let forceQuote := dialect.quoting = 1 ∨ dialect.quoting = 2 ∨ dialect.quoting = 4 ∨
    dialect.quoting = 5
  let rendered ← quoteCsvField dialect text forceQuote
  pure (rendered, forceQuote ∨ rendered ≠ text)

/-- The quotes that `writerow` puts for an empty field where it cannot be left out. -/
def emptyQuoted (dialect : Dialect) (fields : List (List Char × Bool)) :
    Except String (List (List Char × Bool)) :=
  match fields with
  | [([], false)] =>
    if dialect.quoting = 3 ∨ dialect.quoting = 4 ∨ dialect.quoting = 5 then
      throw "single empty field record must be quoted"
    else
      match dialect.quotechar with
      | some quote => pure [([quote, quote], true)]
      | none => pure fields
  | _ => pure fields

/-- The quotes for empty fields between spaces. -/
def spacedField (dialect : Dialect) (field : List Char × Bool) : Except String (List Char × Bool) :=
  if field = ([], false) then
    if dialect.quoting = 3 then
      throw "empty field must be quoted if delimiter is space and skipinitialspace is true"
    else
      match dialect.quotechar with
      | some quote => pure ([quote, quote], true)
      | none =>
        throw "empty field must be quoted if delimiter is space and skipinitialspace is true"
  else pure field

/-- The line that `builtin_csv_writerow` writes for a row of strings. -/
def csvWriterow (dialect : Dialect) (row : List (List Char)) : Except String (List Char) := do
  let fields ← row.mapM (csvWriterField dialect)
  let fields ← emptyQuoted dialect fields
  let fields ←
    if dialect.delimiter = ' ' ∧ dialect.skipinitialspace then fields.mapM (spacedField dialect)
    else pure fields
  pure ([dialect.delimiter].intercalate (fields.map Prod.fst) ++ dialect.lineterminator)

end Csv

end Pyrs
