import Pyrs.Properties.StringLiterals

/-!
# Raw string literals

The body of a raw literal is its text up to the first closing delimiter that is not behind an odd
number of backslashes.  The lexer looks back for them where one quote closes the literal.  Where
three do, it ends at the first three quotes.
-/

namespace Pyrs

namespace Lexing

open Lexer

/-! ## Raw literals -/

/-- An odd run of backslashes stands in front. -/
def Protected (before : List Char) : Prop :=
  (before.reverse.takeWhile (· == '\\')).length % 2 = 1

instance (before : List Char) : Decidable (Protected before) :=
  inferInstanceAs (Decidable (_ = 1))

/-- The text behind the opening delimiter of a raw literal: its body, the first closing delimiter
that is not protected, and what follows.  In front of a line break in single quotes there is a
backslash. -/
structure RawLiteral (triple : Bool) (quote : Char) (text body rest : List Char) : Prop where
  split : text = body ++ (delimiter triple quote ++ rest)
  closes : ¬Protected body
  first : ∀ initial remaining, body = initial ++ remaining → remaining ≠ [] →
    delimiter triple quote <+: remaining ++ (delimiter triple quote ++ rest) → Protected initial
  lines : triple = false → ∀ initial remaining, body = initial ++ '\n' :: remaining →
    Protected initial ∨ ∃ front, initial = front ++ ['\r'] ∧ Protected front

/-- No delimiter stands in front of the one behind a body. -/
def FirstDelimiter (triple : Bool) (quote : Char) (body rest : List Char) : Prop :=
  ∀ initial remaining, body = initial ++ remaining → remaining ≠ [] →
    ¬delimiter triple quote <+: remaining ++ (delimiter triple quote ++ rest)

/-- The lexer returns this body and stops in front of this text. -/
def ReadsRaw (tables : UnicodeTables) (lexer : Lexer) (quote : Char) (body rest : List Char) :
    Prop :=
  ∃ later, consumeString tables lexer quote true = .ok (body, later) ∧ later.rest = rest

lemma Protected.ends {before : List Char} (h : Protected before) :
    ∃ front, before = front ++ ['\\'] := by
  rw [Protected] at h
  rcases List.eq_nil_or_concat before with rfl | ⟨front, last, rfl⟩
  · cases h
  · refine ⟨front, ?_⟩
    rw [List.concat_eq_append, List.reverse_append, List.reverse_singleton, List.singleton_append,
      List.takeWhile_cons] at h
    split at h
    · next hlast => rw [List.concat_eq_append, eq_of_beq hlast]
    · cases h

/-- Where the loop stands: the line breaks behind a backslash are read together with it. -/
structure Settled (initial remaining : List Char) : Prop where
  backslash : ∀ front tail, initial = front ++ ['\\'] →
    remaining ≠ '\n' :: tail ∧ remaining ≠ '\r' :: tail
  lineBreak : ∀ front tail, initial = front ++ ['\\', '\r'] → remaining ≠ '\n' :: tail

lemma append_pair (front : List Char) (first second : Char) :
    front ++ [first, second] = front ++ [first] ++ [second] := by
  simp

/-- Behind a character other than a backslash. -/
lemma Settled.plain {initial remaining : List Char} {ch : Char}
    (h : Settled initial (ch :: remaining)) (hch : ch ≠ '\\') :
    Settled (initial ++ [ch]) remaining where
  backslash front tail hfront := absurd (List.append_singleton_inj.1 hfront).2 hch
  lineBreak front tail hfront := by
    rw [append_pair] at hfront
    obtain ⟨hinitial, rfl⟩ := List.append_singleton_inj.1 hfront
    exact absurd rfl (h.backslash front remaining hinitial).2

/-- Behind a line break that was read with the backslash in front of it. -/
lemma settled_lineFeed (initial remaining : List Char) : Settled (initial ++ ['\n']) remaining where
  backslash front tail hfront := by cases (List.append_singleton_inj.1 hfront).2
  lineBreak front tail hfront := by
    rw [append_pair] at hfront
    cases (List.append_singleton_inj.1 hfront).2

/-! ## The loop -/

section loop

variable {tables : UnicodeTables} {start lexer : Lexer} {quote : Char} {triple : Bool}
variable {content text body rest : List Char}

/-- The loop over a raw literal. -/
def rawLoop (tables : UnicodeTables) (start : Lexer) (quote : Char) (triple : Bool)
    (content : List Char) (lexer : Lexer) : Except LexError (List Char × Lexer) :=
  consumeTurns start (stringTurn tables start quote true triple) (lexer.rest.length + 1) content ()
    lexer

lemma rawLoop_more {ch : Char} {content' : List Char} {later : Lexer}
    (hpeek : lexer.peekChar = some ch)
    (hturn : stringTurn tables start quote true triple content () lexer ch =
      .ok (.more content' () later)) :
    rawLoop tables start quote triple content lexer =
      rawLoop tables start quote triple content' later :=
  consumeTurns_more hpeek hturn

lemma rawLoop_done {ch : Char} {later : Lexer} (hpeek : lexer.peekChar = some ch)
    (hturn : stringTurn tables start quote true triple content () lexer ch =
      .ok (.done content later)) :
    rawLoop tables start quote triple content lexer = .ok (content, later) := by
  simp only [rawLoop, consumeTurns, hpeek, hturn, Results.ok_bind]
  rfl

/-- The lexer has read the first part of a body, and what is behind the rest of it is known. -/
structure Stands (opened : Lexer) (quote : Char) (initial remaining behind : List Char)
    (lexer : Lexer) : Prop where
  quoted : ∃ before, opened.before = quote :: before
  reads : Reads initial opened lexer
  rest : lexer.rest = remaining ++ behind
  settled : Settled initial remaining

variable {opened : Lexer} {initial remaining behind : List Char}

lemma takeWhile_reverse_append (hquote : quote ≠ '\\') (before : List Char) :
    (initial.reverse ++ quote :: before).takeWhile (· == '\\') =
      initial.reverse.takeWhile (· == '\\') := by
  induction initial.reverse with
  | nil => simp [hquote]
  | cons ch text ih => by_cases hch : ch = '\\' <;> simp [hch, ih]

/-- The backward scan stops at the opening quote. -/
lemma Stands.escaped_iff (h : Stands opened quote initial remaining behind lexer)
    (hquote : quote ≠ '\\') : lexer.rawQuoteIsEscaped = true ↔ Protected initial := by
  obtain ⟨before, hbefore⟩ := h.quoted
  rw [rawQuoteIsEscaped, h.reads.before, hbefore, takeWhile_reverse_append hquote, Protected,
    beq_iff_eq]

/-- A turn over one character. -/
lemma Stands.advance {ch : Char}
    (h : Stands opened quote initial (ch :: remaining) behind lexer) (hch : ch ≠ '\\') :
    Stands opened quote (initial ++ [ch]) remaining behind lexer.advance where
  quoted := h.quoted
  reads := h.reads.trans (reads_advance (peekChar_of_rest h.rest))
  rest := rest_advance h.rest
  settled := h.settled.plain hch

/-- A turn over a backslash. -/
lemma Stands.backslash (h : Stands opened quote initial ('\\' :: remaining) behind lexer)
    (hbehind : behind.head? = some quote) (hquote : quote = '\'' ∨ quote = '"') :
    ∃ read remaining', '\\' :: remaining = read ++ remaining' ∧ read ≠ [] ∧
      lexer.textTo lexer.consumeRawBackslash = read ∧
      Stands opened quote (initial ++ read) remaining' behind lexer.consumeRawBackslash := by
  have hadvance : lexer.advance.rest = remaining ++ behind := rest_advance h.rest
  have hreads := h.reads.trans (reads_advance (peekChar_of_rest h.rest))
  have hturn (read remaining' : List Char) (later : Lexer) (hne : read ≠ [])
      (hsplit : '\\' :: remaining = read ++ remaining')
      (hreads : Reads (initial ++ read) opened later) (hrest : later.rest = remaining' ++ behind)
      (hsettled : Settled (initial ++ read) remaining') :
      ∃ read remaining', '\\' :: remaining = read ++ remaining' ∧ read ≠ [] ∧
        lexer.textTo later = read ∧
        Stands opened quote (initial ++ read) remaining' behind later := by
    refine ⟨read, remaining', hsplit, hne, ?_, h.quoted, hreads, hrest, hsettled⟩
    rw [textTo, h.rest, hrest, hsplit, List.append_assoc, List.length_append,
      Nat.add_sub_cancel, List.take_left]
  -- The quote behind the body is no line break.
  have hnone (ch : Char) (hch : ch = '\n' ∨ ch = '\r') (later : List Char)
      (hlater : later ++ behind = ch :: (later ++ behind).tail) :
      ∃ tail, later = ch :: tail := by
    cases later with
    | nil =>
      rw [List.nil_append] at hlater
      rw [hlater, List.head?_cons, Option.some.injEq] at hbehind
      subst hbehind
      rcases hquote with rfl | rfl <;> rcases hch with hch | hch <;> cases hch
    | cons first tail => exact ⟨tail, by rw [(List.cons.inj hlater).1]⟩
  rw [consumeRawBackslash]
  split_ifs with hfeed hreturn
  · have hrest := rest_of_peekChar hfeed
    rw [hadvance] at hrest
    obtain ⟨tail, rfl⟩ := hnone '\n' (.inl rfl) remaining hrest
    have hlater : lexer.advance.advance.rest = tail ++ behind := rest_advance hadvance
    refine hturn ['\\', '\n'] tail _ (List.cons_ne_nil _ _) rfl ?_ hlater ?_
    · rw [append_pair]
      exact hreads.trans (reads_advance hfeed)
    · rw [append_pair]
      exact settled_lineFeed _ _
  · have hrest := rest_of_peekChar hreturn
    rw [hadvance] at hrest
    obtain ⟨tail, rfl⟩ := hnone '\r' (.inr rfl) remaining hrest
    have hlater : lexer.advance.advance.rest = tail ++ behind := rest_advance hadvance
    have hreads' := hreads.trans (reads_advance hreturn)
    rw [advanceIf]
    by_cases hnext : lexer.advance.advance.peekChar = some '\n'
    · rw [hnext, if_pos (by rfl)]
      have hrest' := rest_of_peekChar hnext
      rw [hlater] at hrest'
      obtain ⟨tail, rfl⟩ := hnone '\n' (.inl rfl) tail hrest'
      have hlater' : lexer.advance.advance.advance.rest = tail ++ behind := rest_advance hlater
      refine hturn ['\\', '\r', '\n'] tail _ (List.cons_ne_nil _ _) rfl ?_ hlater' ?_
      · have hall := hreads'.trans (reads_advance hnext)
        simpa using hall
      · have hsettled := settled_lineFeed (initial ++ ['\\', '\r']) tail
        simpa using hsettled
    · rw [if_neg (by
        rw [Option.any_eq_true]
        rintro ⟨ch, hch, heq⟩
        exact hnext (by rw [hch, eq_of_beq heq]))]
      refine hturn ['\\', '\r'] tail _ (List.cons_ne_nil _ _) rfl ?_ hlater ⟨?_, ?_⟩
      · rw [append_pair]
        exact hreads'
      · intro front tail hfront
        rw [append_pair] at hfront
        cases (List.append_singleton_inj.1 hfront).2
      · rintro front tail - rfl
        exact hnext (peekChar_of_rest hlater)
  · refine hturn ['\\'] remaining _ (List.cons_ne_nil _ _) rfl hreads hadvance ⟨?_, ?_⟩
    · intro front tail _
      constructor
      · rintro rfl
        exact hfeed (peekChar_of_rest hadvance)
      · rintro rfl
        exact hreturn (peekChar_of_rest hadvance)
    · intro front tail hfront
      rw [append_pair] at hfront
      cases (List.append_singleton_inj.1 hfront).2

/-- What the loop needs of a body: it is closed where it ends and not before. -/
structure RawScan (triple : Bool) (quote : Char) (body rest : List Char) : Prop where
  closes : triple = false → ¬Protected body
  first : ∀ initial remaining, body = initial ++ remaining → remaining ≠ [] →
    delimiter triple quote <+: remaining ++ (delimiter triple quote ++ rest) →
      triple = false ∧ Protected initial
  lines : triple = false → ∀ initial remaining, body = initial ++ '\n' :: remaining →
    Protected initial ∨ ∃ front, initial = front ++ ['\r'] ∧ Protected front

lemma RawLiteral.rawScan (h : RawLiteral triple quote text body rest)
    (hfirst : triple = true → FirstDelimiter triple quote body rest) :
    RawScan triple quote body rest where
  closes _ := h.closes
  first initial remaining hbody hne hdelimiter := by
    cases htriple : triple with
    | true => exact absurd hdelimiter (hfirst htriple initial remaining hbody hne)
    | false => exact ⟨rfl, h.first initial remaining hbody hne hdelimiter⟩
  lines := h.lines

lemma rawLoop_close (hscan : RawScan triple quote body rest) (hquote : quote ≠ '\\')
    (h : Stands opened quote body [] (delimiter triple quote ++ rest) lexer) :
    ∃ later, rawLoop tables start quote triple body lexer = .ok (body, later) ∧
      later.rest = rest := by
  have hrest : lexer.rest = delimiter triple quote ++ rest := h.rest
  have hpeek : lexer.peekChar = some quote :=
    peekChar_of_rest (by rw [hrest, delimiter_eq_cons]; rfl)
  have hreads := (reads_iterate hrest).rest
  rw [hrest] at hreads
  have hlater := (List.append_cancel_left hreads).symm
  have hclosing : consumeClosing quote true triple body () lexer =
      some (.done body (Lexer.advance^[(delimiter triple quote).length] lexer)) := by
    rw [consumeClosing]
    cases triple with
    | true => rw [if_pos rfl, if_pos (atTriple_iff.2 ⟨rest, hrest.symm⟩)]; rfl
    | false =>
      have hfree : ¬(true && lexer.rawQuoteIsEscaped) = true := by
        rw [Bool.true_and, h.escaped_iff hquote]
        exact hscan.closes rfl
      rw [if_neg Bool.false_ne_true, if_pos hpeek, if_neg hfree]
      rfl
  refine ⟨_, rawLoop_done hpeek ?_, hlater⟩
  rw [stringTurn, hclosing]
  rfl

/-- The turn at a character of the body that is no backslash. -/
lemma stringTurn_rawPlain (tables : UnicodeTables) (start : Lexer)
    (hscan : RawScan triple quote body rest) (hquote : quote ≠ '\\')
    {ch : Char} (hbody : body = initial ++ ch :: remaining) (hch : ch ≠ '\\')
    (h : Stands opened quote initial (ch :: remaining) (delimiter triple quote ++ rest) lexer) :
    stringTurn tables start quote true triple initial () lexer ch =
      .ok (.more (initial ++ [ch]) () lexer.advance) := by
  have hfirst := hscan.first initial (ch :: remaining) hbody (List.cons_ne_nil _ _)
  rw [← h.rest] at hfirst
  have hbreak : ¬(ch = '\n' ∧ triple = false) := by
    rintro ⟨rfl, htriple⟩
    rcases hscan.lines htriple initial remaining hbody with hprotected | ⟨front, rfl, hprotected⟩
    · obtain ⟨front, rfl⟩ := hprotected.ends
      exact (h.settled.backslash front remaining rfl).1 rfl
    · obtain ⟨front, rfl⟩ := hprotected.ends
      exact h.settled.lineBreak front remaining (by simp) rfl
  rw [stringTurn, consumeClosing]
  cases triple with
  | true =>
    have hno : ¬lexer.atTriple quote = true := fun htriple =>
      absurd (hfirst (atTriple_iff.1 htriple)).1.symm Bool.false_ne_true
    rw [if_pos rfl, if_neg hno]
    dsimp only
    rw [if_neg hbreak, consumeContent, if_neg (by simp [hch]), if_neg hch]
    rfl
  | false =>
    rw [if_neg Bool.false_ne_true]
    by_cases hclose : lexer.peekChar = some quote
    · obtain rfl : ch = quote := Option.some.inj ((peekChar_of_rest h.rest).symm.trans hclose)
      have hprotected := (hfirst (by rw [h.rest]; exact ⟨_, rfl⟩)).2
      have hescaped : (true && lexer.rawQuoteIsEscaped) = true := by
        rw [Bool.true_and, h.escaped_iff hquote]
        exact hprotected
      rw [if_pos hclose, if_pos hescaped]
      rfl
    · rw [if_neg hclose]
      dsimp only
      rw [if_neg hbreak, consumeContent, if_neg (by simp [hch]), if_neg hch]
      rfl

lemma stringTurn_rawBackslash (tables : UnicodeTables) (start : Lexer)
    (hscan : RawScan triple quote body rest)
    (hquote : quote = '\'' ∨ quote = '"') (hbody : body = initial ++ '\\' :: remaining)
    (h : Stands opened quote initial ('\\' :: remaining) (delimiter triple quote ++ rest) lexer) :
    stringTurn tables start quote true triple initial () lexer '\\' =
      .ok (.more (initial ++ lexer.textTo lexer.consumeRawBackslash)
        () lexer.consumeRawBackslash) := by
  have hne : quote ≠ '\\' := by rcases hquote with rfl | rfl <;> decide
  have hclosing : consumeClosing quote true triple initial () lexer = none := by
    rw [consumeClosing]
    cases triple with
    | true =>
      have hno : ¬lexer.atTriple quote = true := fun htriple => by
        have hdelimiter := atTriple_iff.1 htriple
        rw [h.rest] at hdelimiter
        exact absurd (hscan.first initial _ hbody (List.cons_ne_nil _ _) hdelimiter).1.symm
          Bool.false_ne_true
      rw [if_pos rfl, if_neg hno]
    | false =>
      rw [if_neg Bool.false_ne_true, if_neg]
      intro hpeek
      exact hne (Option.some.inj ((peekChar_of_rest h.rest).symm.trans hpeek)).symm
  rw [stringTurn, hclosing]
  dsimp only
  rw [if_neg (by simp), consumeContent, if_pos ⟨rfl, rfl⟩]
  rfl

/-- The loop returns the body. -/
lemma rawLoop_body (hscan : RawScan triple quote body rest) (hquote : quote = '\'' ∨ quote = '"')
    (hbody : body = initial ++ remaining)
    (h : Stands opened quote initial remaining (delimiter triple quote ++ rest) lexer) :
    ∃ later, rawLoop tables start quote triple initial lexer = .ok (body, later) ∧
      later.rest = rest := by
  have hne : quote ≠ '\\' := by rcases hquote with rfl | rfl <;> decide
  induction hlength : remaining.length using Nat.strong_induction_on
    generalizing initial remaining lexer with
  | _ length ih =>
    cases remaining with
    | nil =>
      rw [List.append_nil] at hbody
      subst hbody
      exact rawLoop_close hscan hne h
    | cons ch remaining =>
      by_cases hch : ch = '\\'
      · subst hch
        obtain ⟨read, remaining', hsplit, hread, htext, hlater⟩ :=
          h.backslash (by rw [delimiter_eq_cons]; rfl) hquote
        have hturn := stringTurn_rawBackslash tables start hscan hquote hbody h
        rw [htext] at hturn
        rw [rawLoop_more (peekChar_of_rest h.rest) hturn]
        have hshorter : remaining'.length < length := by
          have hpos := List.length_pos_iff.2 hread
          rw [← hlength, hsplit, List.length_append]
          omega
        exact ih _ hshorter (by rw [hbody, hsplit, List.append_assoc]) hlater rfl
      · have hturn := stringTurn_rawPlain tables start hscan hne hbody hch h
        rw [rawLoop_more (peekChar_of_rest h.rest) hturn]
        have hshorter : remaining.length < length := by
          rw [← hlength, List.length_cons]
          exact Nat.lt_succ_self _
        exact ih _ hshorter (by rw [hbody, List.append_assoc]; rfl) (h.advance hch) rfl

end loop

/-! ## Raw literals as the lexer reads them -/

lemma exists_firstDelimiter {triple : Bool} {quote : Char} (initial : List Char) {later : List Char}
    (h : delimiter triple quote <+: later) :
    ∃ body rest, initial ++ later = body ++ (delimiter triple quote ++ rest) ∧
      body.length ≤ initial.length ∧ FirstDelimiter triple quote body rest := by
  have hnow {text : List Char} (h : delimiter triple quote <+: text) :
      ∃ rest, text = [] ++ (delimiter triple quote ++ rest) ∧
        FirstDelimiter triple quote [] rest := by
    obtain ⟨rest, hrest⟩ := h
    refine ⟨rest, hrest.symm, fun front remaining hbody hne => ?_⟩
    exact absurd (List.append_eq_nil_iff.1 hbody.symm).2 hne
  induction initial with
  | nil =>
    obtain ⟨rest, htext, hfirst⟩ := hnow h
    exact ⟨[], rest, htext, le_rfl, hfirst⟩
  | cons ch initial ih =>
    by_cases hhere : delimiter triple quote <+: ch :: initial ++ later
    · obtain ⟨rest, htext, hfirst⟩ := hnow hhere
      exact ⟨[], rest, htext, Nat.zero_le _, hfirst⟩
    · obtain ⟨body, rest, htext, hle, hfirst⟩ := ih
      refine ⟨ch :: body, rest, congrArg (ch :: ·) htext, Nat.succ_le_succ hle, ?_⟩
      intro front remaining hbody hne hdelimiter
      cases front with
      | nil =>
        rw [List.nil_append] at hbody
        rw [← hbody, List.cons_append, ← htext] at hdelimiter
        exact hhere hdelimiter
      | cons first front =>
        obtain ⟨rfl, rfl⟩ := List.cons.inj hbody
        exact hfirst front remaining rfl hne hdelimiter

lemma consumeString_raw_eq (tables : UnicodeTables) {lexer : Lexer} {quote : Char}
    {body rest : List Char} (hpeek : lexer.peekChar = some quote)
    (htext : literalText lexer quote = body ++ rest) :
    ∃ opened : Lexer, Stands opened quote [] body rest opened ∧
      consumeString tables lexer quote true =
        rawLoop tables lexer quote (lexer.atTriple quote) [] opened := by
  have hsettled : Settled [] body :=
    ⟨fun front _ h => by simp at h, fun front _ h => by simp at h⟩
  cases htriple : lexer.atTriple quote with
  | true =>
    obtain ⟨behind, hbehind⟩ := atTriple_iff.1 htriple
    have hreads := reads_iterate hbehind.symm
    refine ⟨advance^[3] lexer, ⟨⟨quote :: quote :: lexer.before, ?_⟩, .refl _, ?_, hsettled⟩,
      by rw [consumeString, consumeOpening, htriple]; rfl⟩
    · exact hreads.before
    · rw [← htext, literalText, htriple, hreads.rest, List.drop_left]
      rfl
  | false =>
    have hreads := reads_advance hpeek
    refine ⟨lexer.advance, ⟨⟨lexer.before, hreads.before⟩, .refl _, ?_, hsettled⟩,
      by rw [consumeString, consumeOpening, htriple]; rfl⟩
    rw [← htext, literalText, htriple, hreads.rest]
    rfl

lemma readsRaw_of_scan (tables : UnicodeTables) {lexer : Lexer} {quote : Char}
    {body rest : List Char} (hquote : quote = '\'' ∨ quote = '"')
    (hpeek : lexer.peekChar = some quote)
    (htext : literalText lexer quote = body ++ (delimiter (lexer.atTriple quote) quote ++ rest))
    (hscan : RawScan (lexer.atTriple quote) quote body rest) :
    ReadsRaw tables lexer quote body rest := by
  obtain ⟨opened, hstands, hconsume⟩ := consumeString_raw_eq tables hpeek htext
  rw [ReadsRaw, hconsume]
  exact rawLoop_body hscan hquote rfl hstands

/-- A raw literal is read up to its closing delimiter if and only if there are no three quotes in
front of the three that close it. -/
theorem consumeString_raw_iff (tables : UnicodeTables) {lexer : Lexer} {quote : Char}
    {body rest : List Char} (hquote : quote = '\'' ∨ quote = '"')
    (hpeek : lexer.peekChar = some quote)
    (hliteral : RawLiteral (lexer.atTriple quote) quote (literalText lexer quote) body rest) :
    ReadsRaw tables lexer quote body rest ↔
      (lexer.atTriple quote = true → FirstDelimiter true quote body rest) := by
  constructor
  · rintro ⟨later, hok, -⟩ htriple
    intro initial remaining hbody hne hdelimiter
    have htext := hliteral.split
    rw [htriple, hbody, List.append_assoc] at htext
    obtain ⟨body', rest', hsplit, hle, hfirst⟩ :=
      exists_firstDelimiter initial hdelimiter
    rw [hsplit] at htext
    have hscan : RawScan (lexer.atTriple quote) quote body' rest' := by
      rw [htriple]
      exact ⟨nofun, fun initial remaining hbody hne hdelimiter =>
        absurd hdelimiter (hfirst initial remaining hbody hne), nofun⟩
    rw [← htriple] at htext
    obtain ⟨later', hok', -⟩ := readsRaw_of_scan tables hquote hpeek htext hscan
    obtain ⟨rfl, -⟩ := Prod.mk.inj (Except.ok.inj (hok.symm.trans hok'))
    have hpos := List.length_pos_iff.2 hne
    rw [hbody, List.length_append] at hle
    omega
  · intro hfirst
    refine readsRaw_of_scan tables hquote hpeek hliteral.split (hliteral.rawScan fun htriple => ?_)
    rw [htriple]
    exact hfirst htriple

/-- In a body of a backslash and a quote. -/
lemma protected_of_quoted {triple : Bool} {initial remaining behind : List Char}
    (hbody : ['\\', '\''] = initial ++ remaining) (hne : remaining ≠ [])
    (hdelimiter : delimiter triple '\'' <+: remaining ++ behind) : Protected initial := by
  rcases initial with _ | ⟨first, _ | ⟨second, initial⟩⟩
  · rw [← show _ = remaining from hbody, delimiter_eq_cons, List.cons_append,
      List.cons_prefix_cons] at hdelimiter
    cases hdelimiter.1
  · obtain ⟨rfl, -⟩ := List.cons.inj hbody
    decide
  · obtain ⟨-, hbody⟩ := List.cons.inj hbody
    obtain ⟨-, hbody⟩ := List.cons.inj hbody
    exact absurd (List.append_eq_nil_iff.1 hbody.symm).2 hne

/-- The literal `r'\''`. -/
theorem consumeString_raw_iff_quote :
    ReadsRaw ⟨fun _ => false, fun _ => false, fun _ => none⟩
      (Lexer.new ['\'', '\\', '\'', '\'', '+']) '\'' ['\\', '\''] ['+'] := by
  refine (consumeString_raw_iff _ (.inl rfl) rfl ⟨rfl, by decide,
    fun _ _ => protected_of_quoted, fun _ initial remaining hbody => ?_⟩).2 nofun
  have hmem : '\n' ∈ ['\\', '\''] := by
    rw [hbody]
    simp
  exact absurd hmem (by decide)

/-- The literal `r'''\''''`: the body has a quote behind the backslash. -/
theorem consumeString_raw_tripleQuote :
    RawLiteral true '\'' (literalText
        (Lexer.new ['\'', '\'', '\'', '\\', '\'', '\'', '\'', '\'']) '\'') ['\\', '\''] [] ∧
      ¬ReadsRaw ⟨fun _ => false, fun _ => false, fun _ => none⟩
        (Lexer.new ['\'', '\'', '\'', '\\', '\'', '\'', '\'', '\'']) '\'' ['\\', '\''] [] := by
  refine ⟨⟨rfl, by decide, fun _ _ => protected_of_quoted, nofun⟩, ?_⟩
  rintro ⟨later, hok, -⟩
  have hcontent := congrArg (fun result => result.toOption.map Prod.fst) hok
  have hread : ['\\'] = ['\\', '\''] := Option.some.inj hcontent
  revert hread
  decide

end Lexing

end Pyrs
