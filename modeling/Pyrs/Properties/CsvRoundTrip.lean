import Mathlib.Data.List.Forall2
import Pyrs.Properties.CsvScanners

/-!
# Writing a CSV row and reading it back

The text of a written field either has no bare special character or stands between quotes, and both
kinds of text are read back as the field.  Line breaks in a written row stand in quotes or behind
the escape character, so the reader takes the physical lines of the row together.
-/

namespace Pyrs

namespace Csv

variable {dialect : Dialect}

/-! ## Physical lines -/

attribute [local simp] physicalLines

lemma splitCsvLineEnding_cons {ch : Char} (hch : isLineBreak ch = false) {line : List Char}
    (hline : line ≠ []) :
    splitCsvLineEnding (ch :: line) =
      (ch :: (splitCsvLineEnding line).1, (splitCsvLineEnding line).2) := by
  have hbreak : ch ≠ '\n' ∧ ch ≠ '\r' := by
    rw [isLineBreak, Bool.or_eq_false_iff, beq_eq_false_iff_ne, beq_eq_false_iff_ne] at hch
    exact hch
  obtain ⟨reversed, rfl⟩ : ∃ reversed : List Char, line = reversed.reverse :=
    ⟨line.reverse, (List.reverse_reverse line).symm⟩
  have hreversed : reversed ≠ [] := fun h => hline (by rw [h, List.reverse_nil])
  rw [splitCsvLineEnding, splitCsvLineEnding, List.reverse_cons, List.reverse_reverse]
  obtain _ | ⟨last, rest⟩ := reversed
  · exact absurd rfl hreversed
  · by_cases hlast : last = '\n'
    · subst hlast
      obtain _ | ⟨before, rest⟩ := rest
      · simp [hbreak.2]
      · by_cases hbefore : before = '\r'
        · subst hbefore
          simp
        · simp [hbefore]
    · by_cases hreturn : last = '\r'
      · subst hreturn
        simp
      · simp [hlast, hreturn]

lemma physicalLines_cons {ch : Char} (hch : isLineBreak ch = false) {text line : List Char}
    {lines : List (List Char)} (htext : physicalLines text = line :: lines) :
    physicalLines (ch :: text) = (ch :: line) :: lines := by
  have hreturn : ch ≠ '\r' := by
    rintro rfl
    cases hch
  rw [physicalLines.eq_def]
  split
  · next heq => cases heq
  · next heq =>
    rw [List.cons.injEq] at heq
    exact absurd heq.1 hreturn
  · next other rest _ heq =>
    cases heq
    rw [hch, if_neg Bool.false_ne_true, htext]

lemma physicalLines_return {text : List Char} (htext : text.head? ≠ some '\n') :
    physicalLines ('\r' :: text) = ['\r'] :: physicalLines text := by
  rw [physicalLines.eq_def]
  split
  · next heq => cases heq
  · next heq =>
    cases heq
    exact absurd rfl htext
  · next heq =>
    cases heq
    rfl

/-- A text that is not empty has a first line that is not. -/
lemma physicalLines_ne_nil {text : List Char} (htext : text ≠ []) :
    ∃ line lines, physicalLines text = line :: lines ∧ line ≠ [] := by
  rw [physicalLines.eq_def]
  split
  · exact absurd rfl htext
  · exact ⟨_, _, rfl, by simp⟩
  · next ch rest _ =>
    split
    · exact ⟨_, _, rfl, by simp⟩
    · cases physicalLines rest with
      | nil => exact ⟨_, _, rfl, by simp⟩
      | cons line lines => exact ⟨_, _, rfl, by simp⟩

/-! ## The loop of the reader -/

section Reader

variable {F : Type} {parseFloat : List Char → Except String F} {fieldLimit : Option ℕ}

variable (dialect) in
/-- Every line break of a text stands in quotes or is escaped. -/
def KeepsBreaks : Position → List Char → Prop
  | _, [] => True
  | position, ch :: chars =>
    position.breaks ch = false ∧ KeepsBreaks (position.next dialect ch) chars

lemma return_not_quote (hvalid : dialect.Valid) : ¬dialect.activeQuotechar = some '\r' := by
  intro hquote
  cases quotechar_not_break hvalid hquote

lemma return_not_escape (hvalid : dialect.Valid) : ¬dialect.escapechar = some '\r' := by
  intro hescape
  cases hvalid.escapechar_break '\r' hescape

/-- A carriage return in quotes stays in quotes. -/
lemma Position.inQuotes_next_return (hvalid : dialect.Valid) {position : Position}
    (h : position.inQuotes = true) : (position.next dialect '\r').inQuotes = true := by
  cases position with
  | quoted empty =>
    rw [Position.next, if_neg (return_not_quote hvalid), if_neg (return_not_escape hvalid)]
    rfl
  | quotedEscape => rfl
  | _ => cases h

/-- An escape keeps one of the two characters of a line ending only. -/
lemma Position.inQuotes_of_pair {position : Position}
    (hkept : position.inQuotes = true ∨ position.escaping = true)
    (hnext : (position.next dialect '\r').breaks '\n' = false) : position.inQuotes = true := by
  rcases hkept with hquotes | hescaping
  · exact hquotes
  · cases position with
    | escape => cases hnext
    | quotedEscape => rfl
    | _ => cases hescaping

lemma csvReaderNext_cons {ch : Char} (hch : isLineBreak ch = false) {line : List Char}
    (hline : line ≠ []) (pending : List Char) (lines : List (List Char)) :
    csvReaderNext parseFloat dialect fieldLimit pending ((ch :: line) :: lines) =
      csvReaderNext parseFloat dialect fieldLimit (pending ++ [ch]) (line :: lines) := by
  rw [csvReaderNext, csvReaderNext, splitCsvLineEnding_cons hch hline]
  simp

/-- A line that is a line ending and nothing else. -/
lemma csvReaderNext_ending (hvalid : dialect.Valid) (pending : List Char) {ending : List Char}
    (hsplit : splitCsvLineEnding ending = ([], ending)) (lines : List (List Char)) :
    csvReaderNext parseFloat dialect fieldLimit pending (ending :: lines) =
      if (position dialect pending).escaping then
        if ending = ['\r', '\n'] then
          if (position dialect pending).inQuotes then
            csvReaderNext parseFloat dialect fieldLimit (pending ++ ['\r', '\n']) lines
          else (·, lines) <$> csvRecord parseFloat dialect fieldLimit (pending ++ ['\r'])
        else csvReaderNext parseFloat dialect fieldLimit (pending ++ ending) lines
      else if (position dialect pending).inQuotes then
        csvReaderNext parseFloat dialect fieldLimit (pending ++ ending) lines
      else (·, lines) <$> csvRecord parseFloat dialect fieldLimit pending := by
  rw [csvReaderNext, hsplit]
  dsimp only
  rw [List.append_nil, csvRecordState_eq hvalid]

variable (parseFloat fieldLimit) in
/-- The lines of a row whose breaks are kept make one record. -/
lemma csvReaderNext_physicalLines (hvalid : dialect.Valid) {terminator : List Char}
    (hterminator : terminator = ['\n'] ∨ terminator = ['\r'] ∨ terminator = ['\r', '\n'])
    (body pending : List Char) (hkeeps : KeepsBreaks dialect (position dialect pending) body)
    (hquotes : (position dialect (pending ++ body)).inQuotes = false)
    (hescaping : (position dialect (pending ++ body)).escaping = false) :
    csvReaderNext parseFloat dialect fieldLimit pending (physicalLines (body ++ terminator)) =
      (·, []) <$> csvRecord parseFloat dialect fieldLimit (pending ++ body) := by
  induction hn : body.length using Nat.strongRecOn generalizing body pending with
  | _ n ih =>
    have hnext : ∀ (front rest : List Char), body = front ++ rest → front ≠ [] →
        KeepsBreaks dialect (position dialect (pending ++ front)) rest →
        csvReaderNext parseFloat dialect fieldLimit (pending ++ front)
            (physicalLines (rest ++ terminator)) =
          (·, []) <$> csvRecord parseFloat dialect fieldLimit (pending ++ body) := by
      rintro front rest rfl hfront hrest
      have hpos := List.length_pos_of_ne_nil hfront
      rw [List.length_append] at hn
      rw [← List.append_assoc] at hquotes hescaping ⊢
      exact ih rest.length (by omega) rest (pending ++ front) hrest hquotes hescaping rfl
    cases body with
    | nil =>
      rw [List.append_nil] at hquotes hescaping ⊢
      have hlines : physicalLines ([] ++ terminator) = [terminator] := by
        rcases hterminator with rfl | rfl | rfl <;> rfl
      have hsplit : splitCsvLineEnding terminator = ([], terminator) := by
        rcases hterminator with rfl | rfl | rfl <;> rfl
      rw [hlines, csvReaderNext_ending hvalid pending hsplit, hquotes, hescaping,
        if_neg Bool.false_ne_true, if_neg Bool.false_ne_true]
    | cons ch rest =>
      obtain ⟨hbreaks, hrest⟩ := hkeeps
      rw [← position_concat] at hrest
      cases hch : isLineBreak ch with
      | false =>
        have hne : rest ++ terminator ≠ [] := by
          rcases hterminator with rfl | rfl | rfl <;> simp
        obtain ⟨line, lines, hlines, hline⟩ := physicalLines_ne_nil hne
        rw [List.cons_append, physicalLines_cons hch hlines, csvReaderNext_cons hch hline, ← hlines]
        exact hnext [ch] rest rfl (by simp) hrest
      | true =>
        have hkept : (position dialect pending).inQuotes = true ∨
            (position dialect pending).escaping = true := by
          rw [Position.breaks, hch, Bool.true_and, ← Bool.not_or, Bool.not_eq_false',
            Bool.or_eq_true] at hbreaks
          exact hbreaks
        -- a line that ends in the single break
        have hsingle : splitCsvLineEnding [ch] = ([], [ch]) →
            physicalLines (ch :: rest ++ terminator) = [ch] :: physicalLines (rest ++ terminator) →
            csvReaderNext parseFloat dialect fieldLimit pending
                (physicalLines (ch :: rest ++ terminator)) =
              (·, []) <$> csvRecord parseFloat dialect fieldLimit (pending ++ ch :: rest) := by
          intro hsplit hlines
          rw [hlines, csvReaderNext_ending hvalid pending hsplit]
          cases hesc : (position dialect pending).escaping with
          | true =>
            rw [if_pos rfl, if_neg (by simp)]
            exact hnext [ch] rest rfl (by simp) hrest
          | false =>
            rw [hesc] at hkept
            rw [if_neg Bool.false_ne_true, if_pos (hkept.resolve_right Bool.false_ne_true)]
            exact hnext [ch] rest rfl (by simp) hrest
        have hcases : ch = '\n' ∨ ch = '\r' := by
          rw [isLineBreak, Bool.or_eq_true, beq_iff_eq, beq_iff_eq] at hch
          exact hch
        rcases hcases with rfl | rfl
        · exact hsingle rfl rfl
        · cases rest with
          | nil =>
            have hposition : (position dialect pending).inQuotes = false := by
              rw [position_concat] at hquotes
              by_contra hopen
              rw [Bool.not_eq_false] at hopen
              rw [Position.inQuotes_next_return hvalid hopen] at hquotes
              cases hquotes
            have hesc := hkept.resolve_left (by rw [hposition]; exact Bool.false_ne_true)
            rcases hterminator with rfl | rfl | rfl
            · -- the escaped break and the terminator make one line ending
              change csvReaderNext parseFloat dialect fieldLimit pending [['\r', '\n']] = _
              rw [csvReaderNext_ending hvalid pending rfl, hposition, hesc, if_pos rfl, if_pos rfl,
                if_neg Bool.false_ne_true]
            · exact hsingle rfl rfl
            · exact hsingle rfl rfl
          | cons next rest =>
            by_cases hnewline : next = '\n'
            · subst hnewline
              have hposition := Position.inQuotes_of_pair hkept (by
                have hbreak := hrest.1
                rwa [position_concat] at hbreak)
              have hfront := hnext ['\r', '\n'] rest rfl (by simp) (by
                have hlater := hrest.2
                rw [← position_concat, List.append_assoc] at hlater
                exact hlater)
              change csvReaderNext parseFloat dialect fieldLimit pending
                (['\r', '\n'] :: physicalLines (rest ++ terminator)) = _
              rw [csvReaderNext_ending hvalid pending rfl, hposition, if_pos rfl, if_pos rfl,
                if_pos rfl]
              split
              · exact hfront
              · exact hfront
            · exact hsingle rfl (physicalLines_return (by simpa using hnewline))

end Reader

/-! ## The text of a field -/

variable (dialect) in
/-- A character that stands for itself outside of quotes. -/
structure Plain (ch : Char) : Prop where
  quote : dialect.activeQuotechar ≠ some ch
  escape : dialect.escapechar ≠ some ch
  delimiter : ch ≠ dialect.delimiter
  noBreak : isLineBreak ch = false

variable (dialect) in
/-- The text of a field without quotes: the characters that are not plain are escaped. -/
inductive EscapedText : List Char → List Char → Prop
  | nil : EscapedText [] []
  | plain {ch : Char} {field text : List Char} :
    Plain dialect ch → EscapedText field text → EscapedText (ch :: field) (ch :: text)
  | escaped {escape ch : Char} {field text : List Char} : dialect.escapechar = some escape →
    EscapedText field text → EscapedText (ch :: field) (escape :: ch :: text)

variable (dialect) in
/-- The text of a field between quotes. -/
inductive QuotedText (quote : Char) : List Char → List Char → Prop
  | nil : QuotedText quote [] []
  | plain {ch : Char} {field text : List Char} : ch ≠ quote → dialect.escapechar ≠ some ch →
    QuotedText quote field text → QuotedText quote (ch :: field) (ch :: text)
  | doubled {field text : List Char} : dialect.doublequote = true →
    QuotedText quote field text → QuotedText quote (quote :: field) (quote :: quote :: text)
  | escaped {escape ch : Char} {field text : List Char} : dialect.escapechar = some escape →
    QuotedText quote field text → QuotedText quote (ch :: field) (escape :: ch :: text)

variable (dialect) in
/-- The texts that the writer has for a field. -/
inductive Rendering (field : List Char) : List Char → Prop
  | escaped {text : List Char} : EscapedText dialect field text → Rendering field text
  | quoted {quote : Char} {inner : List Char} : dialect.activeQuotechar = some quote →
    QuotedText dialect quote field inner → Rendering field ([quote] ++ inner ++ [quote])

lemma map_eq_ok {α β : Type} {f : α → β} {x : Except String α} {b : β}
    (h : f <$> x = .ok b) : ∃ a, x = .ok a ∧ f a = b := by
  cases x with
  | error message => cases h
  | ok a =>
    cases h
    exact ⟨a, rfl, rfl⟩

lemma escapedText_of_escapeWhere {mustEscape : Char → Bool} {field text : List Char}
    (hplain : ∀ ch ∈ field, mustEscape ch = false → Plain dialect ch)
    (h : escapeWhere dialect.escapechar mustEscape field = .ok text) :
    EscapedText dialect field text := by
  induction field generalizing text with
  | nil =>
    cases h
    exact .nil
  | cons ch field ih =>
    have hrest := fun other hother => hplain other (List.mem_cons_of_mem _ hother)
    rw [escapeWhere.eq_def] at h
    dsimp only at h
    cases hmust : mustEscape ch with
    | true =>
      rw [hmust, if_pos rfl] at h
      cases hescape : dialect.escapechar with
      | none =>
        rw [hescape] at h
        cases h
      | some escape =>
        rw [hescape] at h
        obtain ⟨inner, hinner, rfl⟩ := map_eq_ok h
        rw [← hescape] at hinner
        exact .escaped hescape (ih hrest hinner)
    | false =>
      rw [hmust, if_neg Bool.false_ne_true] at h
      obtain ⟨inner, hinner, rfl⟩ := map_eq_ok h
      exact .plain (hplain ch List.mem_cons_self hmust) (ih hrest hinner)

lemma escapedText_self {field : List Char} (h : ∀ ch ∈ field, Plain dialect ch) :
    EscapedText dialect field field := by
  induction field with
  | nil => exact .nil
  | cons ch field ih =>
    exact .plain (h ch List.mem_cons_self)
      (ih fun other hother => h other (List.mem_cons_of_mem _ hother))

lemma quotedText_of_quoteChars {quote : Char} {field text : List Char}
    (h : quoteChars dialect quote field = .ok text) : QuotedText dialect quote field text := by
  induction field generalizing text with
  | nil =>
    cases h
    exact .nil
  | cons ch field ih =>
    rw [quoteChars.eq_def] at h
    dsimp only at h
    by_cases hquote : ch = quote
    · subst hquote
      rw [if_pos rfl] at h
      cases hdouble : dialect.doublequote with
      | true =>
        rw [hdouble, if_pos rfl] at h
        obtain ⟨inner, hinner, rfl⟩ := map_eq_ok h
        exact .doubled hdouble (ih hinner)
      | false =>
        rw [hdouble, if_neg Bool.false_ne_true] at h
        cases hescape : dialect.escapechar with
        | none =>
          rw [hescape] at h
          cases h
        | some escape =>
          rw [hescape] at h
          obtain ⟨inner, hinner, rfl⟩ := map_eq_ok h
          exact .escaped hescape (ih hinner)
    · rw [if_neg hquote] at h
      by_cases hescape : dialect.escapechar = some ch
      · rw [if_pos hescape] at h
        obtain ⟨inner, hinner, rfl⟩ := map_eq_ok h
        exact .escaped hescape (ih hinner)
      · rw [if_neg hescape] at h
        obtain ⟨inner, hinner, rfl⟩ := map_eq_ok h
        exact .plain hquote hescape (ih hinner)

/-- The texts of the writer. -/
lemma rendering_of_quoteCsvField (hvalid : dialect.Valid) {field text : List Char}
    {forceQuote : Bool} (h : quoteCsvField dialect field forceQuote = .ok text) :
    Rendering dialect field text := by
  rw [quoteCsvField] at h
  by_cases hnone : dialect.quoting = 3
  · rw [if_pos hnone] at h
    refine .escaped (escapedText_of_escapeWhere (fun ch _ hmust => ?_) h)
    simp only [Bool.or_eq_false_iff, beq_eq_false_iff_ne] at hmust
    obtain ⟨⟨⟨hdelimiter, hbreak⟩, hquote⟩, hescape⟩ := hmust
    exact ⟨fun hactive => hquote (quotechar_of_active hactive), hescape, hdelimiter, hbreak⟩
  · have hactive : dialect.activeQuotechar = dialect.quotechar := if_neg hnone
    rw [if_neg hnone] at h
    split at h
    · next hbare =>
      obtain ⟨-, hneeds⟩ := hbare
      simp only [not_or, not_and] at hneeds
      obtain ⟨hdelimiter, hnewline, hreturn, hquotes⟩ := hneeds
      have hbreak : ∀ ch ∈ field, isLineBreak ch = false := by
        intro ch hch
        rw [isLineBreak, Bool.or_eq_false_iff, beq_eq_false_iff_ne, beq_eq_false_iff_ne]
        exact ⟨fun heq => hnewline (heq ▸ hch), fun heq => hreturn (heq ▸ hch)⟩
      have hplain : ∀ ch ∈ field, dialect.quotechar ≠ some ch → dialect.escapechar ≠ some ch →
          Plain dialect ch := by
        intro ch hch hquote hescape
        exact ⟨by rwa [hactive], hescape, fun heq => hdelimiter (heq ▸ hch), hbreak ch hch⟩
      have hquoteMem : ∀ ch ∈ field, dialect.quotechar = some ch →
          ¬dialect.doublequote = true ∧ ¬dialect.escapechar = none := by
        intro ch hch hquote
        exact hquotes (by rw [hquote]; simpa using hch)
      split at h
      · refine .escaped (escapedText_of_escapeWhere (fun ch hch hmust => ?_) h)
        simp only [Bool.or_eq_false_iff, Bool.and_eq_false_iff, beq_eq_false_iff_ne,
          Bool.not_eq_false'] at hmust
        refine hplain ch hch ?_ hmust.2
        rcases hmust.1 with hne | hdouble
        · exact hne
        · exact fun hquote => (hquoteMem ch hch hquote).1 hdouble
      · next hescape =>
        have hescapeNone : dialect.escapechar = none := by simpa using hescape
        split at h
        · cases h
        · cases h
          refine .escaped (escapedText_self fun ch hch => hplain ch hch ?_ (by simp [hescapeNone]))
          exact fun hquote => (hquoteMem ch hch hquote).2 hescapeNone
    · cases hquote : dialect.quotechar with
      | none => exact absurd hquote (hvalid.quotechar_isSome hnone)
      | some quote =>
        rw [hquote] at h
        obtain ⟨inner, hinner, rfl⟩ := map_eq_ok h
        exact .quoted (hactive.trans hquote) (quotedText_of_quoteChars hinner)

/-! ## Parsing the text of a field -/

section Parsing

variable {fieldLimit : Option ℕ}

variable (dialect fieldLimit) in
/-- The loop of the parser, with as much fuel as it takes. -/
def Parses (state : ParseState) (row : List Char) (final : ParseState) : Prop :=
  ∀ fuel, row.length ≤ fuel → parseCsvLoop dialect fieldLimit fuel state row = .ok final

lemma Parses.nil (state : ParseState) : Parses dialect fieldLimit state [] state := by
  intro fuel _
  cases fuel <;> rfl

lemma Parses.cons (state' : ParseState) {state final : ParseState} {ch : Char}
    {chars chars' : List Char}
    (hstep : parseCsvStep dialect fieldLimit state ch chars = .ok (state', chars'))
    (h : Parses dialect fieldLimit state' chars' final) :
    Parses dialect fieldLimit state (ch :: chars) final := by
  intro fuel hfuel
  have hlength := length_parseCsvStep_le hstep
  cases fuel with
  | zero => simp at hfuel
  | succ fuel =>
    rw [List.length_cons] at hfuel
    rw [parseCsvLoop, hstep]
    exact h fuel (by omega)

/-- A field of this length is within the limit. -/
def Within (fieldLimit : Option ℕ) (length : ℕ) : Prop :=
  ∀ limit, fieldLimit = some limit → length ≤ limit

lemma Within.mono {m n : ℕ} (h : Within fieldLimit n) (hle : m ≤ n) : Within fieldLimit m :=
  fun limit hlimit => Nat.le_trans hle (h limit hlimit)

lemma Within.not_exceeded {n : ℕ} (h : Within fieldLimit n) :
    ¬fieldLimit.any (· < n) = true := by
  cases fieldLimit with
  | none => simp
  | some limit => simpa using h limit rfl

/-- A state outside of quotes in which no quote was just closed. -/
def bareState (fields : List CsvParsedField) (current : List Char) : ParseState :=
  ⟨fields, current, false, false, false⟩

lemma parses_escapedText (hvalid : dialect.Valid) (hskip : dialect.skipinitialspace = false)
    {fields : List CsvParsedField} {field text rest : List Char} {final : ParseState}
    (htext : EscapedText dialect field text) (current : List Char)
    (hlimit : Within fieldLimit (current ++ field).length)
    (h : Parses dialect fieldLimit (bareState fields (current ++ field)) rest final) :
    Parses dialect fieldLimit (bareState fields current) (text ++ rest) final := by
  induction htext generalizing current with
  | nil => rwa [List.append_nil] at h
  | @plain ch field text hplain _ ih =>
    rw [List.append_cons] at hlimit h
    have hwithin : Within fieldLimit (current ++ [ch]).length := hlimit.mono (by simp)
    refine Parses.cons (bareState fields (current ++ [ch])) ?_
      (ih (current ++ [ch]) hlimit h)
    rw [parseCsvStep, if_neg (by simp [bareState]), parseCsvChar.eq_def, if_neg hplain.quote,
      if_neg hplain.escape, hskip, if_neg (by simp), if_neg (by simp [hplain.noBreak]),
      if_neg (by simp [hplain.delimiter])]
    exact if_neg hwithin.not_exceeded
  | @escaped escape ch field text hescape _ ih =>
    rw [List.append_cons] at hlimit h
    have hquote : dialect.activeQuotechar ≠ some escape := fun hactive =>
      quotechar_not_escape hvalid hactive hescape
    refine Parses.cons (bareState fields (current ++ [ch])) ?_
      (ih (current ++ [ch]) hlimit h)
    rw [parseCsvStep, if_neg (by simp [bareState]), parseCsvChar.eq_def, if_neg hquote,
      if_pos hescape]
    rfl

lemma intercalate_cons_cons (delimiter : Char) (text text' : List Char) (texts : List (List Char)) :
    [delimiter].intercalate (text :: text' :: texts) =
      text ++ delimiter :: [delimiter].intercalate (text' :: texts) := by
  simp [List.intercalate]

/-- A state in quotes. -/
def quotedState (fields : List CsvParsedField) (current : List Char) : ParseState :=
  ⟨fields, current, true, true, false⟩

lemma parses_quotedText (hvalid : dialect.Valid) {quote : Char}
    (hquote : dialect.activeQuotechar = some quote) {fields : List CsvParsedField}
    {field text rest : List Char} {final : ParseState}
    (htext : QuotedText dialect quote field text) (current : List Char)
    (hlimit : Within fieldLimit (current ++ field).length)
    (h : Parses dialect fieldLimit (quotedState fields (current ++ field)) rest final) :
    Parses dialect fieldLimit (quotedState fields current) (text ++ rest) final := by
  induction htext generalizing current with
  | nil => rwa [List.append_nil] at h
  | @plain ch field text hne hescape _ ih =>
    rw [List.append_cons] at hlimit h
    have hwithin : Within fieldLimit (current ++ [ch]).length := hlimit.mono (by simp)
    have hactive : dialect.activeQuotechar ≠ some ch := by
      rw [hquote]
      exact fun heq => hne (Option.some.inj heq).symm
    refine Parses.cons (quotedState fields (current ++ [ch])) ?_
      (ih (current ++ [ch]) hlimit h)
    rw [parseCsvStep, if_neg (by simp [quotedState]), parseCsvChar.eq_def, if_neg hactive,
      if_neg hescape, if_neg (by simp [quotedState]), if_neg (by simp [quotedState]),
      if_neg (by simp [quotedState])]
    exact if_neg hwithin.not_exceeded
  | @doubled field text hdouble _ ih =>
    rw [List.append_cons] at hlimit h
    refine Parses.cons (quotedState fields (current ++ [quote])) ?_
      (ih (current ++ [quote]) hlimit h)
    rw [parseCsvStep, if_neg (by simp [quotedState]), parseCsvChar.eq_def, if_pos hquote,
      if_pos (by rfl), if_pos (by simp [hdouble])]
    rfl
  | @escaped escape ch field text hescape _ ih =>
    rw [List.append_cons] at hlimit h
    have hactive : dialect.activeQuotechar ≠ some escape := fun hactive =>
      quotechar_not_escape hvalid hactive hescape
    refine Parses.cons (quotedState fields (current ++ [ch])) ?_
      (ih (current ++ [ch]) hlimit h)
    rw [parseCsvStep, if_neg (by simp [quotedState]), parseCsvChar.eq_def, if_neg hactive,
      if_pos hescape]
    rfl

variable (fieldLimit) in
/-- Behind the text of a field the parser has the field. -/
lemma parses_rendering (hvalid : dialect.Valid) (hskip : dialect.skipinitialspace = false)
    (fields : List CsvParsedField) {field text : List Char} (htext : Rendering dialect field text)
    (hlimit : Within fieldLimit field.length) :
    ∃ quoted closed, ∀ rest final, (∀ ch, rest.head? = some ch → ch = dialect.delimiter) →
      Parses dialect fieldLimit ⟨fields, field, quoted, false, closed⟩ rest final →
      Parses dialect fieldLimit (bareState fields []) (text ++ rest) final := by
  cases htext with
  | escaped htext =>
    exact ⟨false, false, fun rest final _ h => parses_escapedText hvalid hskip htext [] hlimit h⟩
  | @quoted quote inner hquote htext =>
    refine ⟨true, true, fun rest final hrest h => ?_⟩
    have hclosing : Parses dialect fieldLimit (quotedState fields field) (quote :: rest) final := by
      refine Parses.cons _ ?_ h
      have hnot : ¬(dialect.doublequote && rest.head? == some quote) = true := by
        intro htrue
        rw [Bool.and_eq_true, beq_iff_eq] at htrue
        have heq := hrest quote htrue.2
        rw [heq] at hquote
        exact quotechar_not_delimiter hvalid hquote rfl
      rw [parseCsvStep, if_neg (by simp [quotedState]), parseCsvChar.eq_def, if_pos hquote,
        if_pos (by rfl), if_neg hnot]
      rfl
    have hinner := parses_quotedText hvalid hquote htext [] hlimit hclosing
    have hsplit : [quote] ++ inner ++ [quote] ++ rest = quote :: (inner ++ quote :: rest) := by simp
    rw [hsplit]
    refine Parses.cons _ ?_ hinner
    rw [parseCsvStep, if_neg (by simp [bareState]), parseCsvChar.eq_def, if_pos hquote,
      if_neg (by simp [bareState]), if_pos (by rfl)]
    rfl

lemma parseCsvStep_delimiter (hvalid : dialect.Valid) (hskip : dialect.skipinitialspace = false)
    (fields : List CsvParsedField) (field rest : List Char) (quoted closed : Bool) :
    parseCsvStep dialect fieldLimit ⟨fields, field, quoted, false, closed⟩ dialect.delimiter rest =
      .ok (bareState (fields ++ [⟨field, quoted⟩]) [], rest) := by
  have hspaces : skipSpaces dialect rest = rest := by
    rw [skipSpaces, hskip, if_neg Bool.false_ne_true]
  cases closed with
  | true =>
    rw [parseCsvStep, if_pos (by rfl), if_pos (by simp), hspaces]
    rfl
  | false =>
    have hquote : dialect.activeQuotechar ≠ some dialect.delimiter := fun hactive =>
      quotechar_not_delimiter hvalid hactive rfl
    rw [parseCsvStep, if_neg (by simp), parseCsvChar.eq_def, if_neg hquote,
      if_neg hvalid.escapechar_delimiter, hskip, if_neg (by simp),
      if_neg (by simp [hvalid.delimiter_break]), if_pos (by simp), hspaces]
    rfl

/-- The texts of some fields, between delimiters, are parsed as the fields. -/
lemma parses_row (hvalid : dialect.Valid) (hskip : dialect.skipinitialspace = false)
    {row texts : List (List Char)} (htexts : List.Forall₂ (Rendering dialect) row texts)
    (hne : row ≠ []) (hlimit : ∀ field ∈ row, Within fieldLimit field.length)
    (fields : List CsvParsedField) :
    ∃ final, Parses dialect fieldLimit (bareState fields [])
        ([dialect.delimiter].intercalate texts) final ∧ final.inQuotes = false ∧
      (final.fields ++ [(⟨final.current, final.fieldQuoted⟩ : CsvParsedField)]).map
        CsvParsedField.value =
        fields.map CsvParsedField.value ++ row := by
  induction htexts generalizing fields with
  | nil => exact absurd rfl hne
  | @cons field text row texts htext htexts ih =>
    obtain ⟨quoted, closed, hfield⟩ := parses_rendering fieldLimit hvalid hskip fields htext
      (hlimit field List.mem_cons_self)
    cases htexts with
    | nil =>
      refine ⟨⟨fields, field, quoted, false, closed⟩, ?_, rfl, by simp⟩
      have hsingle := hfield [] _ (by simp) (Parses.nil _)
      simpa [List.intercalate] using hsingle
    | @cons field' text' row texts htext' htexts =>
      obtain ⟨final, hparses, hquotes, hvalues⟩ := ih (by simp)
        (fun other hother => hlimit other (List.mem_cons_of_mem _ hother))
        (fields ++ [⟨field, quoted⟩])
      refine ⟨final, ?_, hquotes, by rw [hvalues]; simp⟩
      rw [intercalate_cons_cons]
      refine hfield _ final (by simp) (Parses.cons _ ?_ hparses)
      exact parseCsvStep_delimiter hvalid hskip fields field _ quoted closed

end Parsing

/-! ## The line breaks of a row -/

lemma keepsBreaks_append (position : Position) (first second : List Char) :
    KeepsBreaks dialect position (first ++ second) ↔
      KeepsBreaks dialect position first ∧
        KeepsBreaks dialect (first.foldl (Position.next dialect) position) second := by
  induction first generalizing position with
  | nil => simp [KeepsBreaks]
  | cons ch first ih => rw [List.cons_append, KeepsBreaks, KeepsBreaks, ih, and_assoc]; rfl

/-- A position at which a field can end. -/
def Position.settled : Position → Bool
  | .fieldStart | .text | .closing _ => true
  | _ => false

lemma breaks_of_not_break {position : Position} {ch : Char} (h : isLineBreak ch = false) :
    position.breaks ch = false := by
  rw [Position.breaks, h]
  rfl

lemma next_delimiter (hvalid : dialect.Valid) {position : Position}
    (h : position.settled = true) : position.next dialect dialect.delimiter = .fieldStart := by
  have hquote : dialect.activeQuotechar ≠ some dialect.delimiter := fun hactive =>
    quotechar_not_delimiter hvalid hactive rfl
  have houtside : ∀ behindSpace : Position,
      Position.outside dialect behindSpace dialect.delimiter = .fieldStart := by
    intro behindSpace
    rw [Position.outside, if_neg hvalid.escapechar_delimiter, if_pos rfl]
  cases position with
  | fieldStart => rw [Position.next, if_neg hquote, houtside]
  | text => rw [Position.next, houtside]
  | closing empty => rw [Position.next, if_neg (by simp [hquote]), houtside]
  | _ => cases h

lemma escapedText_keeps (hvalid : dialect.Valid) (hskip : dialect.skipinitialspace = false)
    {field text : List Char} (htext : EscapedText dialect field text) {position : Position}
    (hposition : position = .fieldStart ∨ position = .text) :
    KeepsBreaks dialect position text ∧
      (text.foldl (Position.next dialect) position).settled = true := by
  induction htext generalizing position with
  | nil => exact ⟨trivial, by rcases hposition with rfl | rfl <;> rfl⟩
  | @plain ch field text hplain _ ih =>
    have hnext : position.next dialect ch = .text := by
      have houtside : ∀ behindSpace : Position,
          Position.outside dialect behindSpace ch = .text := by
        intro behindSpace
        rw [Position.outside, if_neg hplain.escape, if_neg hplain.delimiter, hskip]
        rfl
      rcases hposition with rfl | rfl
      · rw [Position.next, if_neg hplain.quote, houtside]
      · rw [Position.next, houtside]
    rw [KeepsBreaks, List.foldl_cons, hnext]
    have hrest := ih (Or.inr rfl)
    exact ⟨⟨breaks_of_not_break hplain.noBreak, hrest.1⟩, hrest.2⟩
  | @escaped escape ch field text hescape _ ih =>
    have hquote : dialect.activeQuotechar ≠ some escape := fun hactive =>
      quotechar_not_escape hvalid hactive hescape
    have hnext : position.next dialect escape = .escape := by
      rcases hposition with rfl | rfl
      · rw [Position.next, if_neg hquote, Position.outside, if_pos hescape]
      · rw [Position.next, Position.outside, if_pos hescape]
    rw [KeepsBreaks, KeepsBreaks, List.foldl_cons, List.foldl_cons, hnext]
    have hrest := ih (Or.inr rfl)
    exact ⟨⟨breaks_of_not_break (hvalid.escapechar_break escape hescape),
      by simp [Position.breaks, Position.escaping], hrest.1⟩, hrest.2⟩

lemma quotedText_keeps (hvalid : dialect.Valid) {quote : Char}
    (hquote : dialect.activeQuotechar = some quote) {field text : List Char}
    (htext : QuotedText dialect quote field text) (empty : Bool) :
    KeepsBreaks dialect (.quoted empty) text ∧
      ∃ empty', text.foldl (Position.next dialect) (.quoted empty) = .quoted empty' := by
  induction htext generalizing empty with
  | nil => exact ⟨trivial, empty, rfl⟩
  | @plain ch field text hne hescape _ ih =>
    have hactive : dialect.activeQuotechar ≠ some ch := by
      rw [hquote]
      exact fun heq => hne (Option.some.inj heq).symm
    have hnext : (Position.quoted empty).next dialect ch = .quoted false := by
      rw [Position.next, if_neg hactive, if_neg hescape]
    rw [KeepsBreaks, List.foldl_cons, hnext]
    have hrest := ih false
    exact ⟨⟨by simp [Position.breaks, Position.inQuotes], hrest.1⟩, hrest.2⟩
  | @doubled field text hdouble _ ih =>
    have hnext : (Position.quoted empty).next dialect quote = .closing empty := by
      rw [Position.next, if_pos hquote]
    have hdoubled : (Position.closing empty).next dialect quote = .quoted false := by
      rw [Position.next, if_pos (by simp [hdouble, hquote])]
    rw [KeepsBreaks, KeepsBreaks, List.foldl_cons, List.foldl_cons, hnext, hdoubled]
    have hrest := ih false
    have hbreak := quotechar_not_break hvalid hquote
    exact ⟨⟨breaks_of_not_break hbreak, breaks_of_not_break hbreak, hrest.1⟩, hrest.2⟩
  | @escaped escape ch field text hescape _ ih =>
    have hactive : dialect.activeQuotechar ≠ some escape := fun hactive =>
      quotechar_not_escape hvalid hactive hescape
    have hnext : (Position.quoted empty).next dialect escape = .quotedEscape := by
      rw [Position.next, if_neg hactive, if_pos hescape]
    rw [KeepsBreaks, KeepsBreaks, List.foldl_cons, List.foldl_cons, hnext]
    have hrest := ih false
    exact ⟨⟨by simp [Position.breaks, Position.inQuotes],
      by simp [Position.breaks, Position.inQuotes], hrest.1⟩, hrest.2⟩

lemma rendering_keeps (hvalid : dialect.Valid) (hskip : dialect.skipinitialspace = false)
    {field text : List Char} (htext : Rendering dialect field text) :
    KeepsBreaks dialect .fieldStart text ∧
      (text.foldl (Position.next dialect) .fieldStart).settled = true := by
  cases htext with
  | escaped htext => exact escapedText_keeps hvalid hskip htext (Or.inl rfl)
  | @quoted quote inner hquote htext =>
    have hopening : Position.fieldStart.next dialect quote = .quoted true := by
      rw [Position.next, if_pos hquote]
    have hbreak := quotechar_not_break hvalid hquote
    obtain ⟨hkeeps, empty, hend⟩ := quotedText_keeps hvalid hquote htext true
    have hclosing : (Position.quoted empty).next dialect quote = .closing empty := by
      rw [Position.next, if_pos hquote]
    refine ⟨?_, ?_⟩
    · rw [List.append_assoc, List.singleton_append, KeepsBreaks, hopening, keepsBreaks_append, hend]
      exact ⟨breaks_of_not_break hbreak, hkeeps, breaks_of_not_break hbreak, trivial⟩
    · rw [List.append_assoc, List.singleton_append, List.foldl_cons, hopening, List.foldl_append,
        hend, List.foldl_cons, hclosing]
      rfl

/-- The line breaks of a written row are kept, and the row ends outside of quotes. -/
lemma row_keeps (hvalid : dialect.Valid) (hskip : dialect.skipinitialspace = false)
    {row texts : List (List Char)} (htexts : List.Forall₂ (Rendering dialect) row texts) :
    KeepsBreaks dialect .fieldStart ([dialect.delimiter].intercalate texts) ∧
      (position dialect ([dialect.delimiter].intercalate texts)).settled = true := by
  induction htexts with
  | nil => exact ⟨trivial, rfl⟩
  | @cons field text row texts htext htexts ih =>
    obtain ⟨hkeeps, hsettled⟩ := rendering_keeps hvalid hskip htext
    cases htexts with
    | nil =>
      have hsingle : [dialect.delimiter].intercalate [text] = text := by simp [List.intercalate]
      rw [hsingle]
      exact ⟨hkeeps, hsettled⟩
    | @cons field' text' row texts htext' htexts =>
      rw [intercalate_cons_cons, position, keepsBreaks_append, KeepsBreaks, List.foldl_append,
        List.foldl_cons, next_delimiter hvalid hsettled]
      exact ⟨⟨hkeeps, breaks_of_not_break hvalid.delimiter_break, ih.1⟩, ih.2⟩

/-! ## The written line -/

lemma forall₂_of_mapM {α β : Type} {f : α → Except String β} {items : List α} {results : List β}
    (h : items.mapM f = .ok results) :
    List.Forall₂ (fun item result => f item = .ok result) items results := by
  induction items generalizing results with
  | nil =>
    cases h
    exact .nil
  | cons item items ih =>
    rw [List.mapM_cons] at h
    cases hitem : f item with
    | error message =>
      rw [hitem] at h
      cases h
    | ok result =>
      rw [hitem] at h
      cases hitems : items.mapM f with
      | error message =>
        rw [hitems] at h
        cases h
      | ok others =>
        rw [hitems] at h
        cases h
        exact .cons hitem (ih hitems)

/-- A field that has to be quoted has a text. -/
lemma ne_nil_of_forced (hvalid : dialect.Valid) (hquoting : dialect.quoting ≠ 3)
    {field text : List Char} (h : quoteCsvField dialect field true = .ok text) : text ≠ [] := by
  rw [quoteCsvField, if_neg hquoting, if_neg (by simp)] at h
  cases hquote : dialect.quotechar with
  | none => exact absurd hquote (hvalid.quotechar_isSome hquoting)
  | some quote =>
    rw [hquote] at h
    obtain ⟨inner, -, rfl⟩ := map_eq_ok h
    simp

/-- What the writer has for a field, and that it counts an empty text as quoted only if the field is
to be quoted. -/
lemma csvWriterField_eq_ok (hvalid : dialect.Valid) {field text : List Char} {quoted : Bool}
    (h : csvWriterField dialect field = .ok (text, quoted)) :
    Rendering dialect field text ∧ (text = [] → field = [] ∧ quoted = false) := by
  rw [csvWriterField] at h
  generalize hforce : decide (dialect.quoting = 1 ∨ dialect.quoting = 2 ∨ dialect.quoting = 4 ∨
    dialect.quoting = 5) = force at h
  cases htext : quoteCsvField dialect field force with
  | error message =>
    rw [htext] at h
    cases h
  | ok rendered =>
    rw [htext] at h
    simp only [bind, Except.bind, pure, Except.pure, Except.ok.injEq, Prod.mk.injEq] at h
    obtain ⟨rfl, rfl⟩ := h
    have hrendering := rendering_of_quoteCsvField hvalid htext
    refine ⟨hrendering, ?_⟩
    rintro rfl
    have hfield : field = [] := by
      generalize htexts : ([] : List Char) = empty at hrendering
      cases hrendering with
      | escaped hescaped =>
        subst htexts
        cases hescaped
        rfl
      | quoted _ _ => simp at htexts
    subst hfield
    refine ⟨rfl, ?_⟩
    cases force with
    | false => simpa using hforce
    | true =>
      have hquoting : dialect.quoting ≠ 3 := by
        rw [decide_eq_true_eq] at hforce
        omega
      exact absurd rfl (ne_nil_of_forced hvalid hquoting htext)

lemma emptyQuoted_eq_ok (hvalid : dialect.Valid) {row : List (List Char)}
    {fields fields' : List (List Char × Bool)}
    (hwritten : List.Forall₂ (fun field written => csvWriterField dialect field = .ok written)
      row fields)
    (h : emptyQuoted dialect fields = .ok fields') :
    List.Forall₂ (Rendering dialect) row (fields'.map Prod.fst) ∧ fields'.map Prod.fst ≠ [[]] := by
  rw [emptyQuoted.eq_def] at h
  split at h
  · obtain _ | ⟨hfield, hnone⟩ := hwritten
    cases hnone
    split at h
    · cases h
    · next hquoting =>
      rw [not_or] at hquoting
      have hactive : dialect.activeQuotechar = dialect.quotechar := if_neg hquoting.1
      have hnil := ((csvWriterField_eq_ok hvalid hfield).2 rfl).1
      cases hquote : dialect.quotechar with
      | none => exact absurd hquote (hvalid.quotechar_isSome hquoting.1)
      | some quote =>
        rw [hquote] at h
        cases h
        rw [hnil]
        exact ⟨.cons (.quoted (hactive.trans hquote) .nil) .nil, by simp⟩
  · next hother =>
    cases h
    refine ⟨?_, fun hsingle => ?_⟩
    · rw [List.forall₂_map_right_iff]
      exact hwritten.imp fun field written hfield => (csvWriterField_eq_ok hvalid hfield).1
    · obtain ⟨⟨text, quoted⟩, rfl, htext⟩ := List.map_eq_singleton_iff.1 hsingle
      obtain _ | ⟨hfield, -⟩ := hwritten
      have hquoted := ((csvWriterField_eq_ok hvalid hfield).2 htext).2
      have htext' : text = [] := htext
      exact hother (by rw [htext', hquoted])

/-- A written line is made of a text for each field, and is not empty. -/
lemma csvWriterow_eq_ok (hvalid : dialect.Valid) (hskip : dialect.skipinitialspace = false)
    {row : List (List Char)} (hne : row ≠ []) {line : List Char}
    (h : csvWriterow dialect row = .ok line) :
    ∃ texts, List.Forall₂ (Rendering dialect) row texts ∧
      line = [dialect.delimiter].intercalate texts ++ dialect.lineterminator ∧
      [dialect.delimiter].intercalate texts ≠ [] := by
  rw [csvWriterow] at h
  cases hfields : row.mapM (csvWriterField dialect) with
  | error message =>
    rw [hfields] at h
    cases h
  | ok fields =>
    cases hempty : emptyQuoted dialect fields with
    | error message =>
      rw [hfields] at h
      change (emptyQuoted dialect fields >>= _) = _ at h
      rw [hempty] at h
      cases h
    | ok fields' =>
      have hspaced : ¬(dialect.delimiter = ' ' ∧ dialect.skipinitialspace = true) := by simp [hskip]
      simp only [hfields, hempty, if_neg hspaced, bind, Except.bind, pure, Except.pure,
        Except.ok.injEq] at h
      obtain ⟨htexts, hsingle⟩ := emptyQuoted_eq_ok hvalid (forall₂_of_mapM hfields) hempty
      refine ⟨fields'.map Prod.fst, htexts, h.symm, ?_⟩
      generalize fields'.map Prod.fst = texts at htexts hsingle
      cases htexts with
      | nil => exact absurd rfl hne
      | @cons field text row texts _ htexts =>
        cases htexts with
        | nil =>
          intro hempty
          refine hsingle ?_
          have hflat : [dialect.delimiter].intercalate [text] = text := by simp [List.intercalate]
          rw [← hflat, hempty]
        | cons _ _ => simp [List.intercalate]

/-! ## The round trip -/

/-- A row of strings that is written in an accepted dialect, without skipped spaces and with the
quoting of strings, is read back from the physical lines of the file. -/
theorem csvReaderNext_csvWriterow {F : Type} (parseFloat : List Char → Except String F)
    (dialect : Dialect) (fieldLimit : Option ℕ)
    (haccepted : validateCsvParameterConsistency dialect = .ok ())
    (hskip : dialect.skipinitialspace = false)
    (hquoting : dialect.quoting = 0 ∨ dialect.quoting = 1 ∨ dialect.quoting = 3)
    (hterminator : dialect.lineterminator = ['\n'] ∨ dialect.lineterminator = ['\r'] ∨
      dialect.lineterminator = ['\r', '\n'])
    (row : List (List Char)) (hne : row ≠ [])
    (hlimit : ∀ field ∈ row, ∀ limit, fieldLimit = some limit → field.length ≤ limit)
    (line : List Char) (hline : csvWriterow dialect row = .ok line) :
    csvReaderNext parseFloat dialect fieldLimit [] (physicalLines line) =
      .ok (row.map CsvValue.str, []) := by
  have hvalid := valid_of_accepted haccepted
  obtain ⟨texts, htexts, rfl, hbody⟩ := csvWriterow_eq_ok hvalid hskip hne hline
  obtain ⟨hkeeps, hsettled⟩ := row_keeps hvalid hskip htexts
  have hquotes : (position dialect ([dialect.delimiter].intercalate texts)).inQuotes = false := by
    cases hend : position dialect ([dialect.delimiter].intercalate texts) <;>
      rw [hend] at hsettled <;> first | rfl | cases hsettled
  have hescaping : (position dialect ([dialect.delimiter].intercalate texts)).escaping = false := by
    cases hend : position dialect ([dialect.delimiter].intercalate texts) <;>
      rw [hend] at hsettled <;> first | rfl | cases hsettled
  have hread := csvReaderNext_physicalLines parseFloat fieldLimit hvalid
    hterminator ([dialect.delimiter].intercalate texts) [] hkeeps hquotes hescaping
  rw [List.nil_append] at hread
  rw [hread]
  obtain ⟨final, hparses, hfinal, hvalues⟩ := parses_row hvalid hskip htexts hne hlimit []
  have hstate : parseCsvRowState dialect fieldLimit ([dialect.delimiter].intercalate texts) =
      .ok final := hparses _ (Nat.le_refl _)
  have hvalue : csvReaderValueForField parseFloat dialect.quoting =
      fun field => pure (.str field.value) := by
    funext field
    rw [csvReaderValueForField]
    rcases hquoting with h | h | h <;> rw [h] <;> simp
  have hrecord : csvRecord parseFloat dialect fieldLimit ([dialect.delimiter].intercalate texts) =
      .ok (row.map CsvValue.str) := by
    rw [csvRecord, parseCsvRowSimple, if_neg hbody, hstate]
    change ((if final.inQuotes && dialect.strict then _ else _) >>= _) = _
    rw [hfinal, Bool.false_and, if_neg Bool.false_ne_true, hvalue]
    change (List.mapM (fun field : CsvParsedField => pure (CsvValue.str field.value)) _) = _
    rw [List.mapM_pure, ← List.nil_append row, ← List.map_nil (f := CsvParsedField.value),
      ← hvalues, List.map_map]
    rfl
  rw [hrecord]
  rfl

/-- Commas, doubled double quotes and lines that end in `\r\n`. -/
def excel : Dialect where
  delimiter := ','
  quotechar := some '"'
  escapechar := none
  doublequote := true
  skipinitialspace := false
  lineterminator := ['\r', '\n']
  quoting := 0
  strict := false

/-- A field with a comma, a quote and a line break, and an empty one. -/
theorem csvReaderNext_csvWriterow_excel :
    csvReaderNext (F := ℕ) (fun _ => .error "could not convert string to float") excel
        (some 131072) []
        (physicalLines ['"', ',', '"', '"', '\n', '"', ',', '\r', '\n']) =
      .ok ([[',', '"', '\n'], []].map CsvValue.str, []) :=
  csvReaderNext_csvWriterow _ excel (some 131072) rfl rfl (Or.inl rfl) (Or.inr (Or.inr rfl))
    [[',', '"', '\n'], []] (by simp)
    (by
      intro field hfield limit hlimit
      obtain rfl := Option.some.inj hlimit
      simp only [List.mem_cons, List.not_mem_nil, or_false] at hfield
      rcases hfield with rfl | rfl <;> simp)
    _ rfl

end Csv

end Pyrs
