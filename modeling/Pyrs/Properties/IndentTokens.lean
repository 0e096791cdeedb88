import Mathlib.Data.List.TakeWhile
import Pyrs.Properties.LexerErrors

/-!
# Indent and Dedent tokens

The tokens of a source nest, their offsets grow and the indent stack is strictly increasing in every
run.  A line that holds only white space or a comment leaves the block structure alone, unless its
indentation ends at a carriage return: `consume_indentation` then takes the line for one with code.
-/

namespace Pyrs

namespace Lexing

/-- The tokens that take up no text. -/
def TokenKind.isZeroWidth : TokenKind → Bool
  | .indent | .dedent | .endMarker => true
  | _ => false

def Token.isIndentation (token : Token) : Bool := token.kind = .indent ∨ token.kind = .dedent

/-- A token ends before an offset, or takes up no text and does not begin behind it. -/
def Token.PrecedesOffset (token : Token) (offset : ℕ) : Prop :=
  if token.kind.isZeroWidth then token.offset ≤ offset else token.offset < offset

/-- Every prefix has at least as many indents as dedents, and the totals are equal. -/
structure Balanced (tokens : List Token) : Prop where
  nested : ∀ front, front <+: tokens →
    front.countP (·.kind = .dedent) ≤ front.countP (·.kind = .indent)
  totals : tokens.countP (·.kind = .dedent) = tokens.countP (·.kind = .indent)

/-- The line behind so many line breaks. -/
def lineAt : ℕ → List Char → List Char
  | 0, text => text.takeWhile (· != '\n')
  | _ + 1, [] => []
  | count + 1, ch :: text => if ch = '\n' then lineAt count text else lineAt (count + 1) text

def isWhiteSpace (ch : Char) : Bool := ch ∈ [' ', '\t', '\x0c', '\r']

/-- A line of white space, or of white space and a comment. -/
def isBlankLine (line : List Char) : Bool :=
  (line.dropWhile isWhiteSpace).head?.all (· == '#')

/-- The bytes of a source. -/
def sourceLength (source : List Char) : ℕ := (source.map Char.utf8Size).sum

/-- No indent and no dedent stands on a blank line, those at the end of the source aside. -/
def BlankLinesSilent (source : List Char) (tokens : List Token) : Prop :=
  ∀ token ∈ tokens, token.isIndentation → token.offset < sourceLength source →
    isBlankLine (lineAt (token.line - 1) source) = false

/-- The states at the head of the loop of `tokenize`, with the tokens so far. -/
inductive Reaches (tables : UnicodeTables) (source : List Char) : Lexer → List Token → Prop
  | start : Reaches tables source (Lexer.new source) []
  | turn {lexer later : Lexer} {tokens produced : List Token} (ch : Char)
      (h : Reaches tables source lexer tokens) (hpeek : lexer.peekChar = some ch)
      (hstep : Lexer.step tables lexer = .ok (produced, later)) :
      Reaches tables source later (tokens ++ produced)

/-- What a run promises of its indent stacks and its tokens. -/
structure IndentsSound (tables : UnicodeTables) (source : List Char) (tokens : List Token) :
    Prop where
  balanced : Balanced tokens
  increasing : ∀ lexer read, Reaches tables source lexer read →
    lexer.indentStack.Pairwise (· > ·)
  offsets : tokens.Pairwise fun token later => token.PrecedesOffset later.offset
  blankLines : BlankLinesSilent source tokens

/-- The lexer stands at a line outside of brackets. -/
def Lexer.AtLine (lexer : Lexer) : Prop :=
  lexer.atLineStart = true ∧ lexer.parenLevel = 0

/-- The line that the lexer stands at. -/
def Lexer.currentLine (lexer : Lexer) : List Char := lexer.rest.takeWhile (· != '\n')

/-- The column that the indentation of the line reaches. -/
def Lexer.indentColumn (lexer : Lexer) : ℕ :=
  (lexer.rest.takeWhile Lexer.isIndentation).foldl Lexer.indentLevel 0

/-- A blank line whose indentation ends at a carriage return is indented like its block. -/
def Lexer.KeepsLevel (lexer : Lexer) : Prop :=
  lexer.AtLine → isBlankLine lexer.currentLine →
    (lexer.rest.dropWhile Lexer.isIndentation).head? = some '\r' →
      lexer.indentColumn = lexer.indentStack.head?.getD 0

/-! ## The nesting of tokens -/

/-- The depth behind tokens that begin at a depth. -/
def nesting : ℕ → List Token → Option ℕ
  | depth, [] => some depth
  | depth, token :: tokens =>
    if token.kind = .indent then nesting (depth + 1) tokens
    else if token.kind = .dedent then if depth = 0 then none else nesting (depth - 1) tokens
    else nesting depth tokens

lemma nesting_append (depth : ℕ) (tokens tokens' : List Token) :
    nesting depth (tokens ++ tokens') = (nesting depth tokens).bind (nesting · tokens') := by
  induction tokens generalizing depth with
  | nil => rfl
  | cons token tokens ih =>
    rw [List.cons_append, nesting, nesting]
    split
    · exact ih _
    split
    · split
      · rfl
      · exact ih _
    · exact ih _

lemma count_of_nesting {depth depth' : ℕ} {tokens : List Token}
    (h : nesting depth tokens = some depth') :
    depth + tokens.countP (·.kind = .indent) = depth' + tokens.countP (·.kind = .dedent) := by
  induction tokens generalizing depth with
  | nil =>
    obtain rfl := Option.some.inj h
    rfl
  | cons token tokens ih =>
    rw [nesting] at h
    rw [List.countP_cons, List.countP_cons]
    split at h
    case isTrue hindent =>
      have := ih h
      simp [hindent]
      omega
    split at h
    case isTrue hdedent =>
      split at h
      · cases h
      · have := ih h
        simp [hdedent]
        omega
    case isFalse hindent hdedent =>
      have := ih h
      simp [hindent, hdedent]
      omega

lemma balanced_of_nesting {tokens : List Token} (h : nesting 0 tokens = some 0) :
    Balanced tokens where
  nested front hfront := by
    obtain ⟨back, rfl⟩ := hfront
    rw [nesting_append] at h
    obtain ⟨depth, hdepth, -⟩ := Option.bind_eq_some_iff.1 h
    have := count_of_nesting hdepth
    omega
  totals := by
    have := count_of_nesting h
    omega

lemma nesting_of_plain (depth : ℕ) {tokens : List Token}
    (h : ∀ token ∈ tokens, token.kind.isZeroWidth = false) : nesting depth tokens = some depth := by
  induction tokens with
  | nil => rfl
  | cons token tokens ih =>
    have hplain := h token (List.mem_cons_self ..)
    have hindent : token.kind ≠ .indent := fun heq => by simp [heq, TokenKind.isZeroWidth] at hplain
    have hdedent : token.kind ≠ .dedent := fun heq => by simp [heq, TokenKind.isZeroWidth] at hplain
    rw [nesting, if_neg hindent, if_neg hdedent]
    exact ih fun token hmem => h token (List.mem_cons_of_mem _ hmem)

/-! ## Lines -/

lemma lineAt_count {front rest : List Char} (h : front = [] ∨ front.getLast? = some '\n') :
    lineAt (front.count '\n') (front ++ rest) = rest.takeWhile (· != '\n') := by
  induction front with
  | nil => simp [lineAt]
  | cons ch front ih =>
    have hfront : front = [] ∧ ch = '\n' ∨ front.getLast? = some '\n' := by
      cases front with
      | nil => simpa using h
      | cons other front => simpa using h
    have hih := ih (hfront.imp_left And.left)
    by_cases hch : ch = '\n'
    · rw [hch, List.count_cons_self, List.cons_append, lineAt, if_pos rfl]
      exact hih
    · have hlast : front.getLast? = some '\n' := hfront.resolve_left fun hnil => hch hnil.2
      have hcount : 0 < front.count '\n' := List.count_pos_iff.2 (List.mem_of_getLast? hlast)
      obtain ⟨count, hsucc⟩ := Nat.exists_eq_succ_of_ne_zero hcount.ne'
      rw [List.count_cons_of_ne hch, hsucc, List.cons_append, lineAt, if_neg hch]
      rw [hsucc] at hih
      exact hih

namespace Lexer

variable {tables : UnicodeTables} {lexer later : Lexer} {ch : Char} {tokens : List Token}

/-! ## The start of a line -/

lemma extends_consumeIndentation (lexer : Lexer) : Extends lexer lexer.consumeIndentation.2 :=
  extends_advanceWhile isIndentation lexer

lemma consumeIndentation_rest (lexer : Lexer) :
    lexer.consumeIndentation.2.rest = lexer.rest.dropWhile isIndentation := by
  have h := (reads_advanceWhile isIndentation lexer).rest
  refine List.append_cancel_left (?_ : lexer.rest.takeWhile isIndentation ++ _ = _)
  rw [List.takeWhile_append_dropWhile]
  exact h.symm

/-- What tokens do to the indent stack. -/
structure Indents (stack : List ℕ) (lexer : Lexer) (tokens : List Token) (stack' : List ℕ) :
    Prop where
  increasing : stack'.Pairwise (· > ·)
  nonempty : stack' ≠ []
  nests : nesting (stack.length - 1) tokens = some (stack'.length - 1)
  indentation : ∀ token ∈ tokens, token.isIndentation = true
  place : ∀ token ∈ tokens, token.offset = lexer.offset ∧ token.line = lexer.line

lemma indents_popIndents {level : ℕ} {stack stack' : List ℕ} (hstack : stack.Pairwise (· > ·))
    (hnonempty : stack ≠ [])
    (h : popIndents lexer level stack = .ok (tokens, stack')) :
    Indents stack lexer tokens stack' := by
  induction stack generalizing tokens stack' with
  | nil => exact absurd rfl hnonempty
  | cons top stack ih =>
    rw [popIndents] at h
    split at h
    · obtain ⟨rfl, rfl⟩ := Prod.mk.inj (pure_eq_ok.1 h)
      exact ⟨hstack, hnonempty, rfl, List.forall_mem_nil _, List.forall_mem_nil _⟩
    · obtain ⟨⟨produced, rest⟩, hpop, h⟩ := Results.bind_eq_ok.1 h
      obtain ⟨rfl, rfl⟩ := Prod.mk.inj (pure_eq_ok.1 h)
      have hne : stack ≠ [] := by
        rintro rfl
        exact absurd hpop throw_ne_ok
      have hrest := ih (List.pairwise_cons.1 hstack).2 hne hpop
      refine ⟨hrest.increasing, hrest.nonempty, ?_, ?_, ?_⟩
      · have hlength := List.length_pos_iff.2 hne
        have hnests := hrest.nests
        have hdepth : (top :: stack).length - 1 = (stack.length - 1) + 1 := by
          rw [List.length_cons]
          omega
        rw [hdepth, nesting, if_neg (by simp [token]), if_pos (by simp [token]),
          if_neg (Nat.succ_ne_zero _)]
        exact hnests
      · exact List.forall_mem_cons.2 ⟨rfl, hrest.indentation⟩
      · exact List.forall_mem_cons.2 ⟨⟨rfl, rfl⟩, hrest.place⟩

/-- The indent stack and the tokens agree, and there are tokens where the level is another. -/
lemma indents_emitIndentTokens {level : ℕ} {stack : List ℕ}
    (hstack : lexer.indentStack.Pairwise (· > ·)) (hnonempty : lexer.indentStack ≠ [])
    (h : emitIndentTokens lexer level = .ok (tokens, stack)) :
    Indents lexer.indentStack lexer tokens stack ∧
      (tokens = [] ↔ level = lexer.indentStack.head?.getD 0) := by
  rw [emitIndentTokens] at h
  obtain ⟨top, below, hcons⟩ := List.exists_cons_of_ne_nil hnonempty
  split at h
  case isTrue hlevel =>
    obtain ⟨rfl, rfl⟩ := Prod.mk.inj (pure_eq_ok.1 h)
    exact ⟨⟨hstack, hnonempty, rfl, List.forall_mem_nil _, List.forall_mem_nil _⟩, by simp [hlevel]⟩
  case isFalse hlevel =>
  split at h
  case isTrue habove =>
    obtain ⟨rfl, rfl⟩ := Prod.mk.inj (pure_eq_ok.1 h)
    refine ⟨⟨?_, List.cons_ne_nil _ _, ?_, ?_, ?_⟩, by simp [hlevel]⟩
    · rw [hcons] at hstack habove ⊢
      refine List.pairwise_cons.2 ⟨fun other hother => ?_, hstack⟩
      rcases List.mem_cons.1 hother with rfl | hother
      · exact habove
      · exact Nat.lt_trans ((List.pairwise_cons.1 hstack).1 other hother) habove
    · rw [nesting, if_pos (by simp [token]), nesting, hcons]
      rfl
    · simp [Token.isIndentation, token]
    · simp [token]
  case isFalse habove =>
    refine ⟨indents_popIndents hstack hnonempty h, ?_⟩
    rw [hcons, popIndents] at h
    rw [hcons] at hlevel ⊢
    rw [if_neg (by simpa using hlevel)] at h
    obtain ⟨⟨produced, rest⟩, -, h⟩ := Results.bind_eq_ok.1 h
    obtain ⟨rfl, -⟩ := Prod.mk.inj (pure_eq_ok.1 h)
    simpa using hlevel

/-- Code stands behind the indentation, as far as `consume_indentation` can tell. -/
def SeesCode (lexer : Lexer) : Prop :=
  ∃ ch, (lexer.rest.dropWhile isIndentation).head? = some ch ∧ ch ≠ '\n' ∧ ch ≠ '#'

/-- What `tokenize` does at the start of a line. -/
structure LineBegun (lexer : Lexer) (tokens : List Token) (later : Lexer) : Prop where
  reads : Reads (lexer.rest.takeWhile isIndentation) lexer later
  atLineStart : later.atLineStart = false
  parenLevel : later.parenLevel = lexer.parenLevel
  indents : Indents lexer.indentStack later tokens later.indentStack
  silent : tokens ≠ [] ↔
    lexer.SeesCode ∧ lexer.indentColumn ≠ lexer.indentStack.head?.getD 0

lemma lineBegun_beginLine (hstack : lexer.indentStack.Pairwise (· > ·))
    (hnonempty : lexer.indentStack ≠ []) (h : beginLine lexer = .ok (tokens, later)) :
    LineBegun lexer tokens later := by
  have hreads : Reads _ lexer lexer.consumeIndentation.2 := reads_advanceWhile isIndentation lexer
  have hextends := extends_consumeIndentation lexer
  have hpeek : lexer.consumeIndentation.2.peekChar =
      (lexer.rest.dropWhile isIndentation).head? := congrArg _ (consumeIndentation_rest lexer)
  rw [beginLine] at h
  dsimp only at h
  split at h
  case isTrue hblank =>
    obtain ⟨rfl, rfl⟩ := Prod.mk.inj (pure_eq_ok.1 h)
    refine ⟨⟨hreads.rest, hreads.before, hreads.line⟩, rfl, hextends.parenLevel, ?_, ?_⟩
    · rw [← hextends.indentStack] at hstack hnonempty ⊢
      exact ⟨hstack, hnonempty, rfl, List.forall_mem_nil _, List.forall_mem_nil _⟩
    · simp only [ne_eq, not_true_eq_false, false_iff]
      rintro ⟨⟨ch, hhead, hbreak, hcomment⟩, -⟩
      simp [hpeek, hhead, hbreak, hcomment] at hblank
  case isFalse hcode =>
    obtain ⟨⟨produced, stack⟩, hemit, h⟩ := Results.bind_eq_ok.1 h
    obtain ⟨rfl, rfl⟩ := Prod.mk.inj (pure_eq_ok.1 h)
    rw [← hextends.indentStack] at hstack hnonempty
    obtain ⟨hindents, hsilent⟩ := indents_emitIndentTokens hstack hnonempty hemit
    rw [hextends.indentStack] at hindents hsilent
    refine ⟨⟨hreads.rest, hreads.before, hreads.line⟩, rfl, hextends.parenLevel,
      ⟨hindents.increasing, hindents.nonempty, hindents.nests, hindents.indentation,
        hindents.place⟩, ?_⟩
    have hsees : lexer.SeesCode := by
      cases hhead : (lexer.rest.dropWhile isIndentation).head? with
      | none => simp [hpeek, hhead] at hcode
      | some ch =>
        simp [hpeek, hhead] at hcode
        exact ⟨ch, hhead, hcode.1, hcode.2⟩
    simp only [ne_eq, hsilent, hsees, true_and]
    exact Iff.rfl

/-! ## A turn -/

lemma prefixedKind_plain (letters : List Char) : (prefixedKind letters).isZeroWidth = false := by
  rw [prefixedKind]
  split
  · rfl
  split
  · rfl
  split <;> rfl

lemma nameKind_plain (lexeme : List Char) : (nameKind lexeme).isZeroWidth = false := by
  rw [nameKind]
  split <;> rfl

lemma operators_spec : ∀ entry ∈ operators,
    entry.1.length ≠ 0 ∧ entry.2.isZeroWidth = false := by decide

/-- What a turn of `tokenize` does behind the indentation. -/
structure CharRead (lexer : Lexer) (tokens : List Token) (later : Lexer) : Prop where
  reads : ∃ read ≠ [], Reads read lexer later
  indentStack : later.indentStack = lexer.indentStack
  plain : ∀ token ∈ tokens, token.kind.isZeroWidth = false
  place : ∀ token ∈ tokens, token.offset = lexer.offset
  single : tokens.length ≤ 1
  lineStart : lexer.atLineStart = false → later.atLineStart = true →
    later.parenLevel = 0 ∧ later.before.head? = some '\n'

lemma CharRead.of_progresses (h : Progresses lexer later) : CharRead lexer [] later where
  reads := h.reads_ne_nil
  indentStack := h.indentStack
  plain := List.forall_mem_nil _
  place := List.forall_mem_nil _
  single := Nat.zero_le _
  lineStart hstart hlater := by simp [h.atLineStart, hstart] at hlater

lemma CharRead.of_token (h : Progresses lexer later) {kind : TokenKind} (lexeme : List Char)
    (hkind : kind.isZeroWidth = false) : CharRead lexer [lexer.token kind lexeme] later :=
  { CharRead.of_progresses h with
    plain := by simpa [token] using hkind
    place := by simp [token]
    single := Nat.le_refl _ }

/-- The brackets and the start of a line aside, a later state is another one. -/
lemma CharRead.of_eq {other : Lexer} (h : CharRead lexer tokens later)
    (hbefore : other.before = later.before) (hrest : other.rest = later.rest)
    (hline : other.line = later.line) (hstack : other.indentStack = later.indentStack)
    (hstart : lexer.atLineStart = false → other.atLineStart = true →
      other.parenLevel = 0 ∧ other.before.head? = some '\n') : CharRead lexer tokens other where
  reads := by
    obtain ⟨read, hread, hreads⟩ := h.reads
    exact ⟨read, hread, hrest ▸ hreads.rest, hbefore ▸ hreads.before, hline ▸ hreads.line⟩
  indentStack := hstack.trans h.indentStack
  plain := h.plain
  place := h.place
  single := h.single
  lineStart := hstart

lemma charRead_consumeWord (hpeek : lexer.peekChar = some ch)
    (hword : ch = '_' ∨ tables.isAlphabetic ch = true)
    (h : consumeWord tables lexer = .ok (tokens, later)) : CharRead lexer tokens later := by
  rw [consumeWord] at h
  obtain ⟨result, hprefixed, h⟩ := Results.bind_eq_ok.1 h
  split at h
  case h_1 kind content last =>
    obtain ⟨rfl, rfl⟩ := Prod.mk.inj (pure_eq_ok.1 h)
    obtain ⟨hprogress, letters, rfl⟩ := progresses_consumePrefixedString hprefixed
    exact .of_token hprogress content (prefixedKind_plain letters)
  case h_2 =>
    obtain ⟨rfl, rfl⟩ := Prod.mk.inj (pure_eq_ok.1 h)
    exact .of_token (progresses_consumeIdentifier hpeek hword) _ (nameKind_plain _)

lemma charRead_consumeChar (hpeek : lexer.peekChar = some ch)
    (h : consumeChar tables lexer ch = .ok (tokens, later)) : CharRead lexer tokens later := by
  have hadvance := progresses_advance hpeek
  rw [consumeChar] at h
  split at h
  · obtain ⟨rfl, rfl⟩ := Prod.mk.inj (pure_eq_ok.1 h)
    exact .of_progresses hadvance
  split at h
  case isTrue hcomment =>
    obtain ⟨rfl, rfl⟩ := Prod.mk.inj (pure_eq_ok.1 h)
    exact .of_progresses (progresses_consumeComment (hcomment ▸ hpeek))
  split at h
  case isTrue hbreak =>
    split at h
    case isTrue hlevel =>
      obtain ⟨rfl, rfl⟩ := Prod.mk.inj (pure_eq_ok.1 h)
      refine (CharRead.of_token hadvance ['\n'] rfl).of_eq rfl rfl rfl rfl fun _ _ => ⟨?_, ?_⟩
      · exact hadvance.parenLevel.trans hlevel
      · rw [(reads_advance hpeek).before, hbreak]
        rfl
    · obtain ⟨rfl, rfl⟩ := Prod.mk.inj (pure_eq_ok.1 h)
      exact (CharRead.of_progresses hadvance).of_eq rfl rfl rfl rfl fun _ hlater =>
        absurd hlater Bool.false_ne_true
  split at h
  · split at h
    · obtain ⟨rfl, rfl⟩ := Prod.mk.inj (pure_eq_ok.1 h)
      exact (CharRead.of_progresses (hadvance.trans (extends_advance _))).of_eq rfl rfl rfl
        rfl fun _ hlater => absurd hlater Bool.false_ne_true
    · exact absurd h throw_ne_ok
  split at h
  · obtain ⟨rfl, rfl⟩ := Prod.mk.inj (pure_eq_ok.1 h)
    exact .of_token (progresses_consumeNumberFromDot hpeek) _ rfl
  split at h
  case h_1 text kind hoperator =>
    obtain ⟨rfl, rfl⟩ := Prod.mk.inj (pure_eq_ok.1 h)
    obtain ⟨hlength, hkind⟩ := operators_spec _ (List.mem_of_find?_eq_some hoperator)
    have hread := progresses_iterate hlength hpeek
    refine (CharRead.of_token hread text.toList hkind).of_eq rfl rfl rfl rfl ?_
    intro hstart hlater
    simp [hread.atLineStart, hstart] at hlater
  split at h
  · obtain ⟨⟨content, last⟩, hstring, h⟩ := Results.bind_eq_ok.1 h
    obtain ⟨rfl, rfl⟩ := Prod.mk.inj (pure_eq_ok.1 h)
    exact .of_token (progresses_consumeString hpeek hstring) content rfl
  split at h
  case isTrue hdigit =>
    obtain ⟨rfl, rfl⟩ := Prod.mk.inj (pure_eq_ok.1 h)
    exact .of_token (progresses_consumeNumber hpeek hdigit) _ rfl
  split at h
  case isTrue hword => exact charRead_consumeWord hpeek hword h
  · exact absurd h throw_ne_ok

/-- What holds at the head of the loop of `tokenize`. -/
structure Invariant (source : List Char) (lexer : Lexer) (tokens : List Token) : Prop where
  source : source = lexer.before.reverse ++ lexer.rest
  line : lexer.line = lexer.before.count '\n' + 1
  lineStart : lexer.atLineStart = true →
    lexer.parenLevel = 0 ∧ (lexer.before = [] ∨ lexer.before.head? = some '\n')
  increasing : lexer.indentStack.Pairwise (· > ·)
  nonempty : lexer.indentStack ≠ []
  nests : nesting 0 tokens = some (lexer.indentStack.length - 1)
  offsets : tokens.Pairwise fun token later => token.PrecedesOffset later.offset
  read : ∀ token ∈ tokens, token.PrecedesOffset lexer.offset

lemma invariant_new (source : List Char) : Invariant source (new source) [] where
  source := rfl
  line := rfl
  lineStart _ := ⟨rfl, .inl rfl⟩
  increasing := List.pairwise_singleton ..
  nonempty := List.cons_ne_nil _ _
  nests := rfl
  offsets := .nil
  read := List.forall_mem_nil _

/-- A turn of `tokenize` up to its first character behind the indentation. -/
structure Entered (lexer : Lexer) (tokens : List Token) (middle : Lexer) : Prop where
  reads : ∃ read, Reads read lexer middle
  rest : lexer.AtLine → middle.rest = lexer.rest.dropWhile isIndentation
  line : middle.line = lexer.line
  atLineStart : middle.atLineStart = false
  indents : Indents lexer.indentStack middle tokens middle.indentStack
  silent : tokens ≠ [] ↔
    lexer.AtLine ∧ lexer.SeesCode ∧ lexer.indentColumn ≠ lexer.indentStack.head?.getD 0

lemma Entered.of_lineBegun {middle : Lexer} (h : LineBegun lexer tokens middle)
    (hline : lexer.AtLine) : Entered lexer tokens middle where
  reads := ⟨_, h.reads⟩
  rest _ := by
    refine List.append_cancel_left (?_ : lexer.rest.takeWhile isIndentation ++ _ = _)
    rw [List.takeWhile_append_dropWhile]
    exact h.reads.rest.symm
  line := by
    have hbreak : '\n' ∉ lexer.rest.takeWhile isIndentation := fun hmem =>
      absurd (List.mem_takeWhile_imp hmem) (by decide)
    rw [h.reads.line, List.count_eq_zero.2 hbreak, Nat.add_zero]
  atLineStart := h.atLineStart
  indents := h.indents
  silent := h.silent.trans (and_iff_right hline).symm

variable {source : List Char} {produced : List Token}

lemma Entered.refl (hinv : Invariant source lexer tokens) (hline : ¬ lexer.AtLine) :
    Entered lexer [] lexer where
  reads := ⟨[], .refl lexer⟩
  rest hyes := absurd hyes hline
  line := rfl
  atLineStart := by
    cases hstart : lexer.atLineStart with
    | false => rfl
    | true => exact absurd ⟨hstart, (hinv.lineStart hstart).1⟩ hline
  indents := ⟨hinv.increasing, hinv.nonempty, rfl, List.forall_mem_nil _, List.forall_mem_nil _⟩
  silent := by simp [hline]

/-- A turn of `tokenize`: the tokens of an indentation, and then a character, unless there is none
behind the indentation. -/
lemma entered_step (hinv : Invariant source lexer tokens)
    (h : step tables lexer = .ok (produced, later)) :
    ∃ indents middle plain, produced = indents ++ plain ∧ Entered lexer indents middle ∧
      (CharRead middle plain later ∨ plain = [] ∧ later = middle ∧ middle.rest = []) := by
  rw [step, ← apply_ite (· >>= _)] at h
  obtain ⟨⟨indents, middle⟩, hbegun, h⟩ := Results.bind_eq_ok.1 h
  have hbegin : Entered lexer indents middle := by
    split at hbegun
    case isTrue hline =>
      exact .of_lineBegun (lineBegun_beginLine hinv.increasing hinv.nonempty hbegun) hline
    case isFalse hline =>
      obtain ⟨rfl, rfl⟩ := Prod.mk.inj (pure_eq_ok.1 hbegun)
      exact .refl hinv hline
  dsimp only at h
  split at h
  case h_1 hpeek =>
    obtain ⟨rfl, rfl⟩ := Prod.mk.inj (pure_eq_ok.1 h)
    exact ⟨indents, middle, [], (List.append_nil _).symm, hbegin,
      .inr ⟨rfl, rfl, List.head?_eq_none_iff.1 hpeek⟩⟩
  case h_2 ch hpeek =>
    obtain ⟨⟨plain, last⟩, hchar, h⟩ := Results.bind_eq_ok.1 h
    obtain ⟨rfl, rfl⟩ := Prod.mk.inj (pure_eq_ok.1 h)
    exact ⟨indents, middle, plain, rfl, hbegin, .inl (charRead_consumeChar hpeek hchar)⟩

end Lexer

/-! ## Offsets -/

namespace Token

variable {token : Token} {offset offset' : ℕ}

lemma PrecedesOffset.mono (h : token.PrecedesOffset offset) (hle : offset ≤ offset') :
    token.PrecedesOffset offset' := by
  rw [PrecedesOffset] at h ⊢
  split at h
  case isTrue hzero =>
    rw [if_pos hzero]
    exact Nat.le_trans h hle
  case isFalse hzero =>
    rw [if_neg hzero]
    exact Nat.lt_of_lt_of_le h hle

lemma isZeroWidth_of_isIndentation (h : token.isIndentation = true) :
    token.kind.isZeroWidth = true := by
  rcases of_decide_eq_true h with h | h <;> rw [h] <;> rfl

lemma precedesOffset_of_zeroWidth (h : token.kind.isZeroWidth = true)
    (hle : token.offset ≤ offset) : token.PrecedesOffset offset := by
  rw [PrecedesOffset, if_pos h]
  exact hle

end Token

lemma sum_utf8Size_pos {read : List Char} (h : read ≠ []) :
    0 < (read.map Char.utf8Size).sum := by
  obtain ⟨ch, rest, rfl⟩ := List.exists_cons_of_ne_nil h
  rw [List.map_cons, List.sum_cons]
  exact Nat.add_pos_left ch.utf8Size_pos _

lemma Reads.offset_le {read : List Char} {lexer later : Lexer} (h : Reads read lexer later) :
    lexer.offset ≤ later.offset := h.offset ▸ Nat.le_add_right _ _

/-- The tokens of a turn, behind the tokens so far. -/
lemma offsets_append {lexer middle : Lexer} {tokens indents : List Token} (plain : List Token)
    (hoffsets : tokens.Pairwise fun token later => token.PrecedesOffset later.offset)
    (hread : ∀ token ∈ tokens, token.PrecedesOffset lexer.offset)
    (hle : lexer.offset ≤ middle.offset)
    (hindents : ∀ token ∈ indents,
      token.kind.isZeroWidth = true ∧ token.offset = middle.offset)
    (hplain : ∀ token ∈ plain, token.offset = middle.offset) (hsingle : plain.length ≤ 1) :
    (tokens ++ (indents ++ plain)).Pairwise fun token later =>
      token.PrecedesOffset later.offset := by
  have hplace : ∀ token ∈ indents ++ plain, token.offset = middle.offset := fun token hmem =>
    (List.mem_append.1 hmem).elim (fun hmem => (hindents token hmem).2) (hplain token)
  have hzero : ∀ token ∈ indents, ∀ later ∈ indents ++ plain,
      token.PrecedesOffset later.offset := fun token hmem later hlater =>
    Token.precedesOffset_of_zeroWidth (hindents token hmem).1
      (Nat.le_of_eq ((hindents token hmem).2.trans (hplace later hlater).symm))
  refine List.pairwise_append.2 ⟨hoffsets, List.pairwise_append.2 ⟨?_, ?_, ?_⟩, ?_⟩
  · exact List.pairwise_of_forall_mem_list fun token hmem later hlater =>
      hzero token hmem later (List.mem_append_left _ hlater)
  · match plain, hsingle with
    | [], _ => exact .nil
    | [token], _ => exact List.pairwise_singleton ..
  · exact fun token hmem later hlater => hzero token hmem later (List.mem_append_right _ hlater)
  · intro token hmem later hlater
    rw [hplace later hlater]
    exact (hread token hmem).mono hle

/-! ## Runs -/

namespace Lexer

variable {tables : UnicodeTables} {source : List Char} {lexer middle later : Lexer}
  {tokens produced : List Token}

lemma CharRead.offset_lt {plain : List Token} (h : CharRead lexer plain later) :
    lexer.offset < later.offset := by
  obtain ⟨read, hne, hread⟩ := h.reads
  rw [hread.offset]
  exact Nat.lt_add_of_pos_right (sum_utf8Size_pos hne)

/-- The state behind what was read keeps the text and the line. -/
lemma Invariant.of_reads (hinv : Invariant source lexer tokens) {read : List Char}
    (h : Reads read lexer later) :
    source = later.before.reverse ++ later.rest ∧
      later.line = later.before.count '\n' + 1 := by
  refine ⟨?_, ?_⟩
  · rw [hinv.source, h.rest, h.before, List.reverse_append, List.reverse_reverse, List.append_assoc]
  · rw [h.line, hinv.line, h.before, List.count_append, List.count_reverse]
    omega

lemma Entered.zeroWidth {indents : List Token} (h : Entered lexer indents middle) :
    ∀ token ∈ indents, token.kind.isZeroWidth = true ∧ token.offset = middle.offset :=
  fun token hmem => ⟨Token.isZeroWidth_of_isIndentation (h.indents.indentation token hmem),
    (h.indents.place token hmem).1⟩

/-- A turn of `tokenize` preserves the invariant. -/
lemma invariant_step (hinv : Invariant source lexer tokens)
    (h : step tables lexer = .ok (produced, later)) :
    Invariant source later (tokens ++ produced) := by
  obtain ⟨indents, middle, plain, rfl, hentered, hchar⟩ := entered_step hinv h
  obtain ⟨skipped, hskipped⟩ := hentered.reads
  have hindents := hentered.indents
  have hnests : nesting 0 (tokens ++ indents) = some (middle.indentStack.length - 1) := by
    rw [nesting_append, hinv.nests]
    exact hindents.nests
  rcases hchar with hchar | ⟨rfl, rfl, -⟩
  case inl =>
    obtain ⟨read, hne, hread⟩ := hchar.reads
    have htext := hinv.of_reads (hskipped.trans hread)
    refine ⟨htext.1, htext.2, fun hstart => ?_, ?_, ?_, ?_, ?_, ?_⟩
    · exact (hchar.lineStart hentered.atLineStart hstart).imp_right .inr
    · exact hchar.indentStack ▸ hindents.increasing
    · exact hchar.indentStack ▸ hindents.nonempty
    · rw [← List.append_assoc, nesting_append, hnests, hchar.indentStack]
      exact nesting_of_plain _ hchar.plain
    · exact offsets_append _ hinv.offsets hinv.read hskipped.offset_le hentered.zeroWidth
        hchar.place hchar.single
    · have hlt := hchar.offset_lt
      refine List.forall_mem_append.2 ⟨fun token hmem => ?_, List.forall_mem_append.2 ⟨?_, ?_⟩⟩
      · exact (hinv.read token hmem).mono (Nat.le_trans hskipped.offset_le (Nat.le_of_lt hlt))
      · intro token hmem
        obtain ⟨hzero, hplace⟩ := hentered.zeroWidth token hmem
        exact Token.precedesOffset_of_zeroWidth hzero (hplace ▸ Nat.le_of_lt hlt)
      · intro token hmem
        rw [Token.PrecedesOffset, if_neg (by simp [hchar.plain token hmem]),
          hchar.place token hmem]
        exact hlt
  case inr =>
    have htext := hinv.of_reads hskipped
    refine ⟨htext.1, htext.2, fun hstart => ?_, hindents.increasing, hindents.nonempty, ?_, ?_, ?_⟩
    · simp [hentered.atLineStart] at hstart
    · rw [List.append_nil]
      exact hnests
    · exact offsets_append _ hinv.offsets hinv.read hskipped.offset_le hentered.zeroWidth
        (List.forall_mem_nil _) (Nat.zero_le _)
    · rw [List.append_nil]
      refine List.forall_mem_append.2 ⟨fun token hmem => ?_, fun token hmem => ?_⟩
      · exact (hinv.read token hmem).mono hskipped.offset_le
      · obtain ⟨hzero, hplace⟩ := hentered.zeroWidth token hmem
        exact Token.precedesOffset_of_zeroWidth hzero (Nat.le_of_eq hplace)

/-- A turn of `tokenize` reads something. -/
lemma shorter_step {ch : Char} (hinv : Invariant source lexer tokens)
    (hpeek : lexer.peekChar = some ch) (h : step tables lexer = .ok (produced, later)) :
    later.rest.length < lexer.rest.length := by
  obtain ⟨indents, middle, plain, -, hentered, hchar⟩ := entered_step hinv h
  obtain ⟨skipped, hskipped⟩ := hentered.reads
  rcases hchar with hchar | ⟨-, rfl, hrest⟩
  · obtain ⟨read, hne, hread⟩ := hchar.reads
    have hlength := List.length_pos_iff.2 hne
    rw [hskipped.rest, hread.rest, List.length_append, List.length_append]
    omega
  · rw [hrest, rest_of_peekChar hpeek]
    exact Nat.succ_pos _

end Lexer

variable {tables : UnicodeTables} {source : List Char} {lexer : Lexer} {read tokens : List Token}

/-- Every state that a run reaches keeps the invariant. -/
theorem Reaches.invariant (h : Reaches tables source lexer read) :
    Lexer.Invariant source lexer read := by
  induction h with
  | start => exact Lexer.invariant_new source
  | turn ch _ _ hstep ih => exact Lexer.invariant_step ih hstep

/-- The loop goes on from any state that the run reaches, with rounds enough for the rest. -/
lemma Reaches.tokenize_eq (h : Reaches tables source lexer read) :
    ∃ fuel, lexer.rest.length ≤ fuel ∧
      tokenize tables source = (read ++ ·) <$> Lexer.tokenizeLoop tables (fuel + 1) lexer := by
  induction h with
  | start =>
    refine ⟨source.length, Nat.le_refl _, ?_⟩
    rw [tokenize]
    simp
  | @turn lexer later tokens produced ch h hpeek hstep ih =>
    obtain ⟨fuel, hfuel, htokenize⟩ := ih
    have hshorter := Lexer.shorter_step h.invariant hpeek hstep
    cases fuel with
    | zero => omega
    | succ fuel =>
      refine ⟨fuel, by omega, ?_⟩
      rw [htokenize, Lexer.tokenizeLoop, hpeek]
      dsimp only
      rw [hstep]
      change (tokens ++ ·) <$> (do
        pure (produced ++ (← Lexer.tokenizeLoop tables (fuel + 1) later))) = _
      cases Lexer.tokenizeLoop tables (fuel + 1) later <;> simp

/-- How a run of turns ends. -/
inductive RunEnds (tables : UnicodeTables) (source : List Char) :
    Except LexError (List Token) → Prop
  | finish {lexer : Lexer} {read : List Token} (h : Reaches tables source lexer read)
      (hpeek : lexer.peekChar = none) : RunEnds tables source (.ok (read ++ lexer.finish))
  | fail {lexer : Lexer} {read : List Token} {ch : Char} {error : LexError}
      (h : Reaches tables source lexer read) (hpeek : lexer.peekChar = some ch)
      (hstep : Lexer.step tables lexer = .error error) : RunEnds tables source (.error error)

lemma Reaches.exists_runEnds (h : Reaches tables source lexer read) :
    ∃ result, RunEnds tables source result := by
  induction hlength : lexer.rest.length using Nat.strongRecOn generalizing lexer read with
  | _ length ih =>
    cases hpeek : lexer.peekChar with
    | none => exact ⟨_, .finish h hpeek⟩
    | some ch =>
      cases hstep : Lexer.step tables lexer with
      | error error => exact ⟨_, .fail h hpeek hstep⟩
      | ok result =>
        have hshorter := Lexer.shorter_step h.invariant hpeek hstep
        exact ih _ (hlength ▸ hshorter) (h.turn ch hpeek hstep) rfl

lemma RunEnds.tokenize_eq {result : Except LexError (List Token)}
    (h : RunEnds tables source result) : tokenize tables source = result := by
  cases h with
  | finish h hpeek =>
    obtain ⟨fuel, -, htokenize⟩ := h.tokenize_eq
    rw [htokenize, Lexer.tokenizeLoop, hpeek]
    rfl
  | fail h hpeek hstep =>
    obtain ⟨fuel, -, htokenize⟩ := h.tokenize_eq
    rw [htokenize, Lexer.tokenizeLoop, hpeek]
    dsimp only
    rw [hstep]
    rfl

/-- Tokenizing gives what its run of turns comes to, the tokens or the error of the turn that fails:
the rounds of the loop never run out. -/
theorem tokenize_eq_iff (result : Except LexError (List Token)) :
    tokenize tables source = result ↔ RunEnds tables source result := by
  refine ⟨?_, RunEnds.tokenize_eq⟩
  rintro rfl
  obtain ⟨result, h⟩ := Reaches.start.exists_runEnds
  rw [h.tokenize_eq]
  exact h

/-- Where tokenizing fails, the error is that of a turn: no loop has run out of rounds. -/
theorem inFuel_tokenize : InFuel (tokenize tables source) := by
  obtain ⟨result, h⟩ := Reaches.start.exists_runEnds
  rw [h.tokenize_eq]
  cases h with
  | finish h hpeek => exact .pure _
  | fail h hpeek hstep =>
    intro error herror
    obtain rfl := Except.error.inj herror
    exact Lexer.inFuel_step _ hstep

/-- A loop that ends has gone through states that the run reaches. -/
lemma Reaches.ends (h : Reaches tables source lexer read) {fuel : ℕ} {out : List Token}
    (hloop : Lexer.tokenizeLoop tables fuel lexer = .ok out) :
    ∃ last read', Reaches tables source last read' ∧ last.peekChar = none ∧
      read ++ out = read' ++ last.finish := by
  induction fuel generalizing lexer read out with
  | zero => exact absurd hloop Lexer.throw_ne_ok
  | succ fuel ih =>
    rw [Lexer.tokenizeLoop] at hloop
    split at hloop
    case h_1 hpeek =>
      obtain rfl := Lexer.pure_eq_ok.1 hloop
      exact ⟨lexer, read, h, hpeek, rfl⟩
    case h_2 ch hpeek =>
      obtain ⟨⟨produced, later⟩, hstep, hloop⟩ := Results.bind_eq_ok.1 hloop
      obtain ⟨rest, hrest, hout⟩ := Results.bind_eq_ok.1 hloop
      obtain rfl := Lexer.pure_eq_ok.1 hout
      obtain ⟨last, read', hreaches, hpeek', happend⟩ := ih (.turn ch h hpeek hstep) hrest
      exact ⟨last, read', hreaches, hpeek', by rw [← happend, List.append_assoc]⟩

/-- Where `tokenize` succeeds, it goes on from every state that it reaches. -/
lemma Reaches.goes_on (h : Reaches tables source lexer read)
    (hok : tokenize tables source = .ok tokens) :
    ∃ fuel out, Lexer.tokenizeLoop tables fuel lexer = .ok out ∧ tokens = read ++ out := by
  induction h with
  | start => exact ⟨_, tokens, hok, rfl⟩
  | turn ch _ hpeek hstep ih =>
    obtain ⟨fuel, out, hloop, rfl⟩ := ih
    cases fuel with
    | zero => exact absurd hloop Lexer.throw_ne_ok
    | succ fuel =>
      rw [Lexer.tokenizeLoop, hpeek] at hloop
      obtain ⟨result, hstep', hloop⟩ := Results.bind_eq_ok.1 hloop
      obtain rfl := Except.ok.inj (hstep.symm.trans hstep')
      obtain ⟨rest, hrest, hout⟩ := Results.bind_eq_ok.1 hloop
      obtain rfl := Lexer.pure_eq_ok.1 hout
      exact ⟨fuel, rest, hrest, (List.append_assoc ..).symm⟩

/-! ## Blank lines -/

lemma head?_dropWhile_of_blank {rest : List Char} {ch : Char}
    (hhead : (rest.dropWhile Lexer.isIndentation).head? = some ch) (hbreak : ch ≠ '\n')
    (hcomment : ch ≠ '#') (hblank : isBlankLine (rest.takeWhile (· != '\n')) = true) :
    ch = '\r' := by
  induction rest with
  | nil => cases hhead
  | cons first rest ih =>
    by_cases hfirst : Lexer.isIndentation first = true
    · have hwhite : isWhiteSpace first = true ∧ first ≠ '\n' := by
        simp only [Lexer.isIndentation, List.mem_cons, List.not_mem_nil, or_false,
          decide_eq_true_eq] at hfirst
        rcases hfirst with rfl | rfl | rfl <;> decide
      rw [List.dropWhile_cons_of_pos hfirst] at hhead
      rw [List.takeWhile_cons_of_pos (by simpa using hwhite.2), isBlankLine,
        List.dropWhile_cons_of_pos hwhite.1] at hblank
      exact ih hhead hblank
    · rw [List.dropWhile_cons_of_neg hfirst] at hhead
      obtain rfl := Option.some.inj hhead
      rw [List.takeWhile_cons_of_pos (by simpa using hbreak), isBlankLine] at hblank
      by_cases hwhite : isWhiteSpace first = true
      · simp only [isWhiteSpace, List.mem_cons, List.not_mem_nil, or_false,
          decide_eq_true_eq] at hwhite
        simp only [Lexer.isIndentation, List.mem_cons, List.not_mem_nil, or_false,
          decide_eq_true_eq] at hfirst
        tauto
      · rw [List.dropWhile_cons_of_neg hwhite] at hblank
        simp [hcomment] at hblank

lemma Lexer.Invariant.lineAt_line (hinv : Lexer.Invariant source lexer read)
    (hline : lexer.AtLine) : lineAt (lexer.line - 1) source = lexer.currentLine := by
  have hfront : lexer.before.reverse = [] ∨ lexer.before.reverse.getLast? = some '\n' := by
    rw [List.reverse_eq_nil_iff, List.getLast?_reverse]
    exact (hinv.lineStart hline.1).2
  have hcount : lexer.line - 1 = lexer.before.reverse.count '\n' := by
    rw [hinv.line, List.count_reverse, Nat.add_sub_cancel]
  rw [hcount, hinv.source]
  exact lineAt_count hfront

/-- A turn that begins a line puts its tokens on a line that is not blank, as long as the line
keeps its level. -/
lemma blankLinesSilent_step {later : Lexer} {produced : List Token}
    (hinv : Lexer.Invariant source lexer read) (hkeeps : lexer.KeepsLevel)
    (h : Lexer.step tables lexer = .ok (produced, later)) : BlankLinesSilent source produced := by
  obtain ⟨indents, middle, plain, rfl, hentered, hchar⟩ := Lexer.entered_step hinv h
  intro token hmem hindentation _
  rcases List.mem_append.1 hmem with hmem | hmem
  case inl =>
    obtain ⟨hline, ⟨ch, hhead, hbreak, hcomment⟩, hcolumn⟩ :=
      hentered.silent.1 (List.ne_nil_of_mem hmem)
    rw [(hentered.indents.place token hmem).2, hentered.line, hinv.lineAt_line hline]
    refine Bool.eq_false_iff.2 fun hblank => hcolumn (hkeeps hline hblank ?_)
    rw [hhead, head?_dropWhile_of_blank hhead hbreak hcomment hblank]
  case inr =>
    have hplain : token.kind.isZeroWidth = false := by
      rcases hchar with hchar | ⟨rfl, -⟩
      · exact hchar.plain token hmem
      · cases hmem
    rw [Token.isZeroWidth_of_isIndentation hindentation] at hplain
    cases hplain

/-- A blank line whose indentation ends at a carriage return and is not that of its block gets a
token. -/
lemma keepsLevel_of_blankLinesSilent {later : Lexer} {produced : List Token}
    (hinv : Lexer.Invariant source lexer read) (hsilent : BlankLinesSilent source produced)
    (h : Lexer.step tables lexer = .ok (produced, later)) : lexer.KeepsLevel := by
  intro hline hblank hhead
  by_contra hcolumn
  obtain ⟨indents, middle, plain, rfl, hentered, -⟩ := Lexer.entered_step hinv h
  have hindents : indents ≠ [] :=
    hentered.silent.2 ⟨hline, ⟨'\r', hhead, by decide, by decide⟩, hcolumn⟩
  obtain ⟨token, hmem⟩ := List.exists_mem_of_ne_nil _ hindents
  have hplace := hentered.indents.place token hmem
  have hbehind : token.offset < sourceLength source := by
    obtain ⟨skipped, hskipped⟩ := hentered.reads
    have hrest : middle.rest ≠ [] := by
      rw [hentered.rest hline]
      exact fun hnil => by simp [hnil] at hhead
    rw [hplace.1, sourceLength, (hinv.of_reads hskipped).1, List.map_append, List.sum_append,
      List.map_reverse, List.sum_reverse]
    exact Nat.lt_add_of_pos_right (sum_utf8Size_pos hrest)
  have hblank' := hsilent token (List.mem_append_left _ hmem)
    (hentered.indents.indentation token hmem) hbehind
  rw [hplace.2, hentered.line, hinv.lineAt_line hline, hblank] at hblank'
  cases hblank'

lemma Reaches.blankLinesSilent (h : Reaches tables source lexer read)
    (hkeeps : ∀ lexer read, Reaches tables source lexer read → lexer.KeepsLevel) :
    BlankLinesSilent source read := by
  induction h with
  | start => exact List.forall_mem_nil _
  | turn ch hreaches _ hstep ih =>
    intro token hmem
    rcases List.mem_append.1 hmem with hmem | hmem
    · exact ih token hmem
    · exact blankLinesSilent_step hreaches.invariant (hkeeps _ _ hreaches) hstep token hmem

/-! ## The end of the source -/

lemma nesting_finish (lexer : Lexer) :
    nesting (lexer.indentStack.length - 1) lexer.finish = some 0 := by
  rw [Lexer.finish]
  generalize lexer.indentStack.length - 1 = depth
  induction depth with
  | zero => rfl
  | succ depth ih =>
    rw [List.replicate_succ, List.cons_append, nesting, if_neg (by simp [Lexer.token]),
      if_pos (by simp [Lexer.token]), if_neg (Nat.succ_ne_zero _)]
    exact ih

lemma finish_zeroWidth (lexer : Lexer) : ∀ token ∈ lexer.finish,
    token.kind.isZeroWidth = true ∧ token.offset = lexer.offset := by
  intro token hmem
  rcases List.mem_append.1 hmem with hmem | hmem
  · rw [List.eq_of_mem_replicate hmem]
    exact ⟨rfl, rfl⟩
  · rw [List.mem_singleton.1 hmem]
    exact ⟨rfl, rfl⟩

/-- The tokens of a run that ends. -/
lemma Lexer.Invariant.tokens_finish (hinv : Lexer.Invariant source lexer read)
    (hpeek : lexer.peekChar = none) :
    Balanced (read ++ lexer.finish) ∧
      ((read ++ lexer.finish).Pairwise fun token later => token.PrecedesOffset later.offset) ∧
      (BlankLinesSilent source read → BlankLinesSilent source (read ++ lexer.finish)) := by
  refine ⟨balanced_of_nesting ?_, ?_, fun hsilent token hmem hindentation hbehind => ?_⟩
  · rw [nesting_append, hinv.nests]
    exact nesting_finish lexer
  · have h := offsets_append [] hinv.offsets hinv.read (Nat.le_refl _)
      (finish_zeroWidth lexer) (List.forall_mem_nil _) (Nat.zero_le _)
    rwa [List.append_nil] at h
  · rcases List.mem_append.1 hmem with hmem | hmem
    · exact hsilent token hmem hindentation hbehind
    · have hrest : lexer.rest = [] := List.head?_eq_none_iff.1 hpeek
      rw [(finish_zeroWidth lexer token hmem).2, sourceLength, hinv.source, hrest,
        List.append_nil, List.map_reverse, List.sum_reverse] at hbehind
      exact absurd hbehind (Nat.lt_irrefl _)

/-- A run that succeeds has balanced indents, increasing indent stacks and growing offsets, and
leaves blank lines alone, exactly when every blank line whose indentation ends at a carriage return
is indented like the block that it stands in. -/
theorem indentsSound_iff (hok : tokenize tables source = .ok tokens) :
    IndentsSound tables source tokens ↔
      ∀ lexer read, Reaches tables source lexer read → lexer.KeepsLevel := by
  constructor
  case mp =>
    intro hsound lexer read hreaches hline hblank hhead
    obtain ⟨fuel, out, hloop, rfl⟩ := hreaches.goes_on hok
    have hpeek : ∃ ch, lexer.peekChar = some ch := by
      cases hpeek : lexer.peekChar with
      | some ch => exact ⟨ch, rfl⟩
      | none =>
        rw [List.head?_eq_none_iff.1 hpeek] at hhead
        cases hhead
    obtain ⟨ch, hpeek⟩ := hpeek
    cases fuel with
    | zero => exact absurd hloop Lexer.throw_ne_ok
    | succ fuel =>
      rw [Lexer.tokenizeLoop, hpeek] at hloop
      obtain ⟨⟨produced, later⟩, hstep, hloop⟩ := Results.bind_eq_ok.1 hloop
      obtain ⟨rest, -, hout⟩ := Results.bind_eq_ok.1 hloop
      obtain rfl := Lexer.pure_eq_ok.1 hout
      have hsilent : BlankLinesSilent source produced := fun token hmem =>
        hsound.blankLines token (List.mem_append_right _ (List.mem_append_left _ hmem))
      exact keepsLevel_of_blankLinesSilent hreaches.invariant hsilent hstep hline hblank hhead
  case mpr =>
    intro hkeeps
    obtain ⟨last, read, hreaches, hpeek, happend⟩ := Reaches.start.ends hok
    obtain ⟨hbalanced, hoffsets, hblank⟩ := hreaches.invariant.tokens_finish hpeek
    rw [List.nil_append] at happend
    rw [happend]
    exact ⟨hbalanced, fun _ _ h => h.invariant.increasing, hoffsets,
      hblank (hreaches.blankLinesSilent hkeeps)⟩

/-- Tables that know the letters and digits of ASCII. -/
def asciiTables : UnicodeTables := ⟨Char.isAlpha, Char.isDigit, fun _ => none⟩

/-- The tokens of a block of two lines with an empty line between them. -/
def blankLineBlock : List Token :=
  [⟨.keyword .if, ['i', 'f'], 0, 1, 1⟩, ⟨.name, ['x'], 3, 1, 4⟩, ⟨.colon, [':'], 4, 1, 5⟩,
    ⟨.newline, ['\n'], 5, 1, 6⟩, ⟨.indent, [], 7, 2, 2⟩, ⟨.name, ['y'], 7, 2, 2⟩,
    ⟨.newline, ['\n'], 8, 2, 3⟩, ⟨.newline, ['\n'], 9, 3, 1⟩, ⟨.name, ['z'], 11, 4, 2⟩,
    ⟨.dedent, [], 12, 4, 3⟩, ⟨.endMarker, [], 12, 4, 3⟩]

theorem indentsSound_iff_blankLine :
    tokenize asciiTables "if x:\n y\n\n z".toList = .ok blankLineBlock ∧
      (IndentsSound asciiTables "if x:\n y\n\n z".toList blankLineBlock ↔
        ∀ lexer read, Reaches asciiTables "if x:\n y\n\n z".toList lexer read →
          lexer.KeepsLevel) :=
  ⟨by decide +kernel, indentsSound_iff (by decide +kernel)⟩

/-- The tokens of a block with an empty line that ends in a carriage return. -/
def splitBlock : List Token :=
  [⟨.keyword .if, ['i', 'f'], 0, 1, 1⟩, ⟨.name, ['x'], 3, 1, 4⟩, ⟨.colon, [':'], 4, 1, 5⟩,
    ⟨.newline, ['\n'], 5, 1, 6⟩, ⟨.indent, [], 7, 2, 2⟩, ⟨.name, ['y'], 7, 2, 2⟩,
    ⟨.newline, ['\n'], 8, 2, 3⟩, ⟨.dedent, [], 9, 3, 1⟩, ⟨.newline, ['\n'], 10, 3, 2⟩,
    ⟨.indent, [], 12, 4, 2⟩, ⟨.name, ['z'], 12, 4, 2⟩, ⟨.dedent, [], 13, 4, 3⟩,
    ⟨.endMarker, [], 13, 4, 3⟩]

/-- The empty line closes the block, and the line behind it opens another one. -/
theorem not_indentsSound_splitBlock :
    tokenize asciiTables "if x:\n y\n\r\n z".toList = .ok splitBlock ∧
      ¬ IndentsSound asciiTables "if x:\n y\n\r\n z".toList splitBlock := by
  refine ⟨by decide +kernel, fun hsound => ?_⟩
  have hblank := hsound.blankLines ⟨.dedent, [], 9, 3, 1⟩ (by decide) rfl (by decide)
  exact absurd hblank (by decide)

end Lexing

end Pyrs
