import Pyrs.Library.Results
import Pyrs.Model.Lexer

/-!
# What the lexer reads

The scanners of the lexer only move forward: they read characters of the source, count its lines,
and leave the indent stack, the brackets and the start of a line alone.
-/

namespace Pyrs

namespace Lexing

/-- A later state of the lexer has read these characters. -/
structure Reads (read : List Char) (lexer later : Lexer) : Prop where
  rest : lexer.rest = read ++ later.rest
  before : later.before = read.reverse ++ lexer.before
  line : later.line = lexer.line + read.count '\n'

namespace Reads

variable {read read' : List Char} {lexer middle later : Lexer}

lemma refl (lexer : Lexer) : Reads [] lexer lexer := ⟨rfl, rfl, rfl⟩

lemma trans (h : Reads read lexer middle) (h' : Reads read' middle later) :
    Reads (read ++ read') lexer later where
  rest := by rw [h.rest, h'.rest, List.append_assoc]
  before := by rw [h'.before, h.before, List.reverse_append, List.append_assoc]
  line := by rw [h'.line, h.line, List.count_append, Nat.add_assoc]

lemma offset (h : Reads read lexer later) :
    later.offset = lexer.offset + (read.map Char.utf8Size).sum := by
  simp [Lexer.offset, h.before, Nat.add_comm]

end Reads

/-- A scanner goes from one state to the other. -/
structure Extends (lexer later : Lexer) : Prop where
  reads : ∃ read, Reads read lexer later
  indentStack : later.indentStack = lexer.indentStack
  atLineStart : later.atLineStart = lexer.atLineStart
  parenLevel : later.parenLevel = lexer.parenLevel

/-- A scanner goes from one state to the other and reads something. -/
structure Progresses (lexer later : Lexer) : Prop extends Extends lexer later where
  shorter : later.rest.length < lexer.rest.length

namespace Extends

variable {lexer middle later : Lexer}

lemma refl (lexer : Lexer) : Extends lexer lexer := ⟨⟨[], .refl lexer⟩, rfl, rfl, rfl⟩

lemma trans (h : Extends lexer middle) (h' : Extends middle later) : Extends lexer later where
  reads := by
    obtain ⟨read, hread⟩ := h.reads
    obtain ⟨read', hread'⟩ := h'.reads
    exact ⟨read ++ read', hread.trans hread'⟩
  indentStack := h'.indentStack.trans h.indentStack
  atLineStart := h'.atLineStart.trans h.atLineStart
  parenLevel := h'.parenLevel.trans h.parenLevel

lemma length_le (h : Extends lexer later) : later.rest.length ≤ lexer.rest.length := by
  obtain ⟨read, hread⟩ := h.reads
  rw [hread.rest, List.length_append]
  omega

lemma progresses (h : Extends lexer middle) (h' : Progresses middle later) :
    Progresses lexer later :=
  ⟨h.trans h'.toExtends, Nat.lt_of_lt_of_le h'.shorter h.length_le⟩

end Extends

namespace Progresses

variable {lexer middle later : Lexer}

lemma trans (h : Progresses lexer middle) (h' : Extends middle later) : Progresses lexer later :=
  ⟨h.toExtends.trans h', Nat.lt_of_le_of_lt h'.length_le h.shorter⟩

lemma reads_ne_nil (h : Progresses lexer later) : ∃ read ≠ [], Reads read lexer later := by
  obtain ⟨read, hread⟩ := h.reads
  refine ⟨read, fun hnil => ?_, hread⟩
  have hlength := h.shorter
  simp [hread.rest, hnil] at hlength

end Progresses

namespace Lexer

variable {tables : UnicodeTables} {start lexer later : Lexer} {ch quote : Char}

/-! ## Single characters -/

lemma rest_of_peekChar (h : lexer.peekChar = some ch) : lexer.rest = ch :: lexer.rest.tail :=
  (List.eq_cons_of_mem_head? h).trans rfl

lemma reads_advance (h : lexer.peekChar = some ch) : Reads [ch] lexer lexer.advance := by
  have hrest := rest_of_peekChar h
  refine ⟨?_, ?_, ?_⟩ <;> rw [advance, hrest]
  · rfl
  · rfl
  · by_cases hch : ch = '\n' <;> simp [hch]

@[simp] lemma advance_indentStack : lexer.advance.indentStack = lexer.indentStack := by
  rw [advance]
  split <;> rfl

@[simp] lemma advance_atLineStart : lexer.advance.atLineStart = lexer.atLineStart := by
  rw [advance]
  split <;> rfl

@[simp] lemma advance_parenLevel : lexer.advance.parenLevel = lexer.parenLevel := by
  rw [advance]
  split <;> rfl

lemma progresses_advance (h : lexer.peekChar = some ch) : Progresses lexer lexer.advance where
  reads := ⟨[ch], reads_advance h⟩
  indentStack := advance_indentStack
  atLineStart := advance_atLineStart
  parenLevel := advance_parenLevel
  shorter := by
    rw [(reads_advance h).rest]
    simp

lemma extends_advance (lexer : Lexer) : Extends lexer lexer.advance := by
  cases h : lexer.peekChar with
  | none =>
    rw [advance, List.head?_eq_none_iff.1 h]
    exact .refl lexer
  | some ch => exact (progresses_advance h).toExtends

lemma extends_iterate (count : ℕ) (lexer : Lexer) : Extends lexer (advance^[count] lexer) := by
  induction count generalizing lexer with
  | zero => exact .refl lexer
  | succ count ih => exact (extends_advance lexer).trans (ih lexer.advance)

lemma progresses_iterate {count : ℕ} (hcount : count ≠ 0) (h : lexer.peekChar = some ch) :
    Progresses lexer (advance^[count] lexer) := by
  obtain ⟨count, rfl⟩ := Nat.exists_eq_succ_of_ne_zero hcount
  exact (progresses_advance h).trans (extends_iterate count lexer.advance)

/-- Advancing reads as many characters as there are. -/
lemma reads_iterate {read rest : List Char} (h : lexer.rest = read ++ rest) :
    Reads read lexer (advance^[read.length] lexer) := by
  induction read generalizing lexer with
  | nil => exact .refl lexer
  | cons ch read ih =>
    have hread : Reads [ch] lexer lexer.advance := reads_advance (by rw [peekChar, h]; rfl)
    have hrest : lexer.advance.rest = read ++ rest := by
      have := hread.rest
      rw [h] at this
      simpa using this.symm
    exact hread.trans (ih hrest)

lemma peekChar_iterate (count : ℕ) (lexer : Lexer) :
    (advance^[count] lexer).peekChar = lexer.peekCharAt count := by
  induction count generalizing lexer with
  | zero => simp [peekChar, peekCharAt, List.head?_eq_getElem?]
  | succ count ih =>
    refine (ih lexer.advance).trans ?_
    rw [advance]
    split
    case h_1 hrest => simp [peekCharAt, hrest]
    case h_2 hrest => simp [peekCharAt, hrest]

lemma reads_advanceWhile (isOne : Char → Bool) (lexer : Lexer) :
    Reads (lexer.rest.takeWhile isOne) lexer (lexer.advanceWhile isOne) :=
  reads_iterate List.takeWhile_append_dropWhile.symm

lemma extends_advanceWhile (isOne : Char → Bool) (lexer : Lexer) :
    Extends lexer (lexer.advanceWhile isOne) := extends_iterate _ lexer

lemma progresses_advanceWhile {isOne : Char → Bool} (h : lexer.peekChar = some ch)
    (hch : isOne ch = true) : Progresses lexer (lexer.advanceWhile isOne) := by
  refine progresses_iterate ?_ h
  rw [rest_of_peekChar h, List.takeWhile_cons_of_pos hch]
  simp

lemma extends_advanceIf (isOne : Char → Bool) (lexer : Lexer) :
    Extends lexer (lexer.advanceIf isOne) := by
  rw [advanceIf]
  split
  · exact extends_advance lexer
  · exact .refl lexer

lemma progresses_advanceIf {isOne : Char → Bool} (h : lexer.peekChar = some ch)
    (hch : isOne ch = true) : Progresses lexer (lexer.advanceIf isOne) := by
  rw [advanceIf, if_pos (by simp [h, hch])]
  exact progresses_advance h

/-! ## Comments, names and numbers -/

lemma progresses_consumeComment (h : lexer.peekChar = some '#') :
    Progresses lexer lexer.consumeComment := progresses_advanceWhile h (by decide)

lemma progresses_consumeIdentifier (h : lexer.peekChar = some ch)
    (hch : ch = '_' ∨ tables.isAlphabetic ch = true) :
    Progresses lexer (lexer.consumeIdentifier tables) := by
  refine progresses_advanceWhile h ?_
  rcases hch with rfl | hch
  · rfl
  · simp [UnicodeTables.isAlphanumeric, hch]

lemma extends_consumeImaginary (lexer : Lexer) : Extends lexer lexer.consumeImaginary :=
  extends_advanceIf _ lexer

lemma extends_consumeExponent (lexer : Lexer) : Extends lexer lexer.consumeExponent := by
  rw [consumeExponent]
  split
  · exact ((extends_advance lexer).trans (extends_advanceIf _ _)).trans (extends_advanceWhile _ _)
  · exact .refl lexer

lemma extends_consumeFraction (lexer : Lexer) : Extends lexer lexer.consumeFraction := by
  rw [consumeFraction]
  split
  · exact (extends_advance lexer).trans (extends_advanceWhile _ _)
  · exact .refl lexer

lemma progresses_consumeNumber (h : lexer.peekChar = some ch) (hch : ch.isDigit = true) :
    Progresses lexer lexer.consumeNumber := by
  rw [consumeNumber]
  split
  case isTrue hzero =>
    have hfirst : Progresses lexer (lexer.advanceIf (· == '0')) := progresses_advanceIf hzero.1 rfl
    exact ((hfirst.trans (extends_advance _)).trans (extends_advanceWhile _ _)).trans
      (extends_consumeImaginary _)
  case isFalse =>
    have hdigits : Progresses lexer
        ((lexer.advanceIf (· == '0')).advanceWhile isDigitOrUnderscore) := by
      by_cases hzero : ch = '0'
      · subst hzero
        exact (progresses_advanceIf h rfl).trans (extends_advanceWhile _ _)
      · rw [advanceIf, if_neg (by simp [h, hzero])]
        exact progresses_advanceWhile h (by simp [isDigitOrUnderscore, hch])
    exact ((hdigits.trans (extends_consumeFraction _)).trans (extends_consumeExponent _)).trans
      (extends_consumeImaginary _)

lemma progresses_consumeNumberFromDot (h : lexer.peekChar = some ch) :
    Progresses lexer lexer.consumeNumberFromDot :=
  (((progresses_advance h).trans (extends_advanceWhile _ _)).trans
    (extends_consumeExponent _)).trans
    (extends_consumeImaginary _)

/-! ## Escape sequences -/

lemma throw_ne_ok {α : Type} {error : LexError} {a : α} :
    (throw error : Except LexError α) ≠ .ok a := nofun

lemma pure_eq_ok {α : Type} {a b : α} : (pure a : Except LexError α) = .ok b ↔ a = b := by
  simp [pure, Except.pure]

lemma extends_consumeHex {message : String} {width value value' : ℕ}
    (h : consumeHex start message width value lexer = .ok (value', later)) :
    Extends lexer later := by
  induction width generalizing lexer value with
  | zero =>
    obtain rfl := congrArg Prod.snd (pure_eq_ok.1 h)
    exact .refl lexer
  | succ width ih =>
    rw [consumeHex] at h
    split at h
    · exact absurd h throw_ne_ok
    split at h
    · exact absurd h throw_ne_ok
    · exact (extends_advance lexer).trans (ih h)

lemma extends_consumeOctal (width value : ℕ) (lexer : Lexer) :
    Extends lexer (consumeOctal width value lexer).2 := by
  induction width generalizing lexer value with
  | zero => exact .refl lexer
  | succ width ih =>
    rw [consumeOctal]
    split
    · split
      · exact (extends_advance lexer).trans (ih _ _)
      · exact .refl lexer
    · exact .refl lexer

lemma extends_consumeUnicodeName {escaped : Option Char}
    (h : consumeUnicodeName tables start lexer = .ok (escaped, later)) : Extends lexer later := by
  rw [consumeUnicodeName] at h
  split at h
  · exact absurd h throw_ne_ok
  split at h
  · split at h
    · exact absurd h throw_ne_ok
    · obtain rfl := congrArg Prod.snd (pure_eq_ok.1 h)
      exact (extends_advanceWhile _ lexer).trans (extends_advance _)
  · exact absurd h throw_ne_ok

lemma extends_consumeEscapedChar {escaped : Option Char}
    (h : consumeEscapedChar tables start lexer = .ok (escaped, later)) : Extends lexer later := by
  rw [consumeEscapedChar] at h
  split at h
  · exact absurd h throw_ne_ok
  case h_2 ch hpeek =>
  split at h
  · obtain rfl := congrArg Prod.snd (pure_eq_ok.1 h)
    exact extends_advance lexer
  split at h
  · obtain ⟨⟨value, middle⟩, hhex, h⟩ := Results.bind_eq_ok.1 h
    obtain rfl := congrArg Prod.snd (pure_eq_ok.1 h)
    exact (extends_advance lexer).trans (extends_consumeHex hhex)
  split at h
  · obtain rfl := congrArg Prod.snd (pure_eq_ok.1 h)
    exact extends_consumeOctal 3 0 lexer
  split at h
  · obtain ⟨⟨value, middle⟩, hhex, h⟩ := Results.bind_eq_ok.1 h
    dsimp only at h
    split at h
    · obtain rfl := congrArg Prod.snd (pure_eq_ok.1 h)
      exact (extends_advance lexer).trans (extends_consumeHex hhex)
    · exact absurd h throw_ne_ok
  split at h
  · split at h
    · obtain rfl := congrArg Prod.snd (pure_eq_ok.1 h)
      exact .refl lexer
    · exact ((extends_advance lexer).trans (extends_advance _)).trans
        (extends_consumeUnicodeName h)
  split at h
  · obtain rfl := congrArg Prod.snd (pure_eq_ok.1 h)
    exact extends_advance lexer
  split at h
  · obtain rfl := congrArg Prod.snd (pure_eq_ok.1 h)
    exact (extends_advance lexer).trans (extends_advanceIf _ _)
  · obtain rfl := congrArg Prod.snd (pure_eq_ok.1 h)
    exact .refl lexer

/-! ## Strings -/

lemma progresses_consumeRawBackslash (h : lexer.peekChar = some ch) :
    Progresses lexer lexer.consumeRawBackslash := by
  refine (progresses_advance h).trans ?_
  rw [consumeRawBackslash]
  split
  · exact extends_advance _
  split
  · exact (extends_advance _).trans (extends_advanceIf _ _)
  · exact .refl _

lemma progresses_consumeOpening (h : lexer.peekChar = some ch) :
    Progresses lexer (lexer.consumeOpening quote).2 := by
  rw [consumeOpening]
  split
  · exact progresses_iterate (by decide) h
  · exact progresses_advance h

lemma progresses_consumeContent {raw : Bool} {content content' : List Char}
    {double : Char → List Char} (hpeek : lexer.peekChar = some ch)
    (h : consumeContent tables start raw content lexer ch double = .ok (content', later)) :
    Progresses lexer later := by
  rw [consumeContent] at h
  split at h
  · obtain rfl := congrArg Prod.snd (pure_eq_ok.1 h)
    exact progresses_consumeRawBackslash hpeek
  split at h
  · obtain ⟨⟨escaped, middle⟩, hescape, h⟩ := Results.bind_eq_ok.1 h
    obtain rfl := congrArg Prod.snd (pure_eq_ok.1 h)
    exact (progresses_advance hpeek).trans (extends_consumeEscapedChar hescape)
  · obtain rfl := congrArg Prod.snd (pure_eq_ok.1 h)
    exact progresses_advance hpeek

section turns

variable {State : Type} {content content' : List Char} {state : State} {raw triple : Bool}

/-- The lexer behind a turn. -/
def Turn.last : Turn State → Lexer
  | .done _ last => last
  | .more _ _ last => last

lemma progresses_consumeClosing {turn : Turn State} (hpeek : lexer.peekChar = some ch)
    (h : consumeClosing quote raw triple content state lexer = some turn) :
    Progresses lexer turn.last := by
  rw [consumeClosing] at h
  split at h
  · split at h
    · obtain rfl := Option.some.inj h
      exact progresses_iterate (by decide) hpeek
    · cases h
  split at h
  · split at h <;> obtain rfl := Option.some.inj h <;> exact progresses_advance hpeek
  · cases h

/-- A loop over a string moves forward where its turns do. -/
lemma extends_consumeTurns
    {turn : List Char → State → Lexer → Char → Except LexError (Turn State)}
    (hturn : ∀ content state lexer ch result, lexer.peekChar = some ch →
      turn content state lexer ch = .ok result → Progresses lexer result.last)
    {fuel : ℕ} (h : consumeTurns start turn fuel content state lexer = .ok (content', later)) :
    Extends lexer later := by
  induction fuel generalizing content state lexer with
  | zero => exact absurd h throw_ne_ok
  | succ fuel ih =>
    rw [consumeTurns] at h
    split at h
    · exact absurd h throw_ne_ok
    case h_2 ch hpeek =>
    obtain ⟨result, hresult, h⟩ := Results.bind_eq_ok.1 h
    have hforward := (hturn content state lexer ch result hpeek hresult).toExtends
    cases result with
    | done content lexer =>
      obtain rfl := congrArg Prod.snd (pure_eq_ok.1 h)
      exact hforward
    | more content state lexer => exact hforward.trans (ih h)

/-- A loop over a string ends before its rounds do: more of them change nothing. -/
lemma consumeTurns_fuel
    {turn : List Char → State → Lexer → Char → Except LexError (Turn State)}
    (hturn : ∀ content state lexer ch result, lexer.peekChar = some ch →
      turn content state lexer ch = .ok result → Progresses lexer result.last)
    {fuel fuel' : ℕ} (hfuel : lexer.rest.length < fuel) (hfuel' : lexer.rest.length < fuel') :
    consumeTurns start turn fuel content state lexer =
      consumeTurns start turn fuel' content state lexer := by
  induction fuel generalizing fuel' content state lexer with
  | zero => cases hfuel
  | succ fuel ih =>
    cases fuel' with
    | zero => cases hfuel'
    | succ fuel' =>
      rw [consumeTurns, consumeTurns]
      cases hpeek : lexer.peekChar with
      | none => rfl
      | some ch =>
        dsimp only
        cases hresult : turn content state lexer ch with
        | error error => rfl
        | ok result =>
          have hshorter := (hturn content state lexer ch result hpeek hresult).shorter
          cases result with
          | done content lexer => rfl
          | more content state later =>
            exact ih (Nat.lt_of_lt_of_le hshorter (Nat.le_of_lt_succ hfuel))
              (Nat.lt_of_lt_of_le hshorter (Nat.le_of_lt_succ hfuel'))

lemma progresses_stringTurn {result : Turn Unit} (hpeek : lexer.peekChar = some ch)
    (h : stringTurn tables start quote raw triple content () lexer ch = .ok result) :
    Progresses lexer result.last := by
  rw [stringTurn] at h
  split at h
  case h_1 hclosing =>
    obtain rfl := pure_eq_ok.1 h
    exact progresses_consumeClosing hpeek hclosing
  split at h
  · exact absurd h throw_ne_ok
  · obtain ⟨⟨content, middle⟩, hcontent, h⟩ := Results.bind_eq_ok.1 h
    obtain rfl := pure_eq_ok.1 h
    exact progresses_consumeContent hpeek hcontent

lemma progresses_consumeString (hpeek : lexer.peekChar = some ch)
    (h : consumeString tables lexer quote raw = .ok (content, later)) : Progresses lexer later :=
  (progresses_consumeOpening hpeek).trans
    (extends_consumeTurns (fun _ _ _ _ _ => progresses_stringTurn) h)

/-! ## Strings with fields -/

lemma progresses_fieldQuoteTurn {state : FieldState} (hpeek : lexer.peekChar = some ch) :
    Progresses lexer (fieldQuoteTurn content state lexer ch quote).last := by
  rw [fieldQuoteTurn]
  split
  · split
    · exact progresses_iterate (by decide) hpeek
    · exact progresses_advance hpeek
  split
  · exact progresses_advance hpeek
  split
  · exact progresses_advance hpeek
  split <;> exact progresses_advance hpeek

lemma progresses_fieldTurn {state : FieldState} {result : Turn FieldState}
    (hpeek : lexer.peekChar = some ch) (h : fieldTurn content state lexer ch = some result) :
    Progresses lexer result.last := by
  rw [fieldTurn] at h
  split at h
  · obtain rfl := Option.some.inj h
    exact progresses_advance hpeek
  split at h
  · obtain rfl := Option.some.inj h
    exact progresses_fieldQuoteTurn hpeek
  split at h
  · obtain rfl := Option.some.inj h
    exact progresses_advance hpeek
  split at h
  · obtain rfl := Option.some.inj h
    exact progresses_advance hpeek
  split at h
  · obtain rfl := Option.some.inj h
    dsimp only [Turn.last]
    split
    · exact progresses_iterate (by decide) hpeek
    · exact progresses_advance hpeek
  · cases h

lemma progresses_braceTurn {state : FieldState} (hpeek : lexer.peekChar = some ch) :
    Progresses lexer (braceTurn content state lexer ch).last := by
  rw [braceTurn]
  split
  · exact (progresses_advance hpeek).trans (extends_advance _)
  · exact progresses_advance hpeek

lemma progresses_fieldBackslash (hpeek : lexer.peekChar = some ch)
    (h : fieldBackslash start content lexer = .ok (content', later)) : Progresses lexer later := by
  rw [fieldBackslash] at h
  split at h
  · exact absurd h throw_ne_ok
  · obtain rfl := congrArg Prod.snd (pure_eq_ok.1 h)
    exact (progresses_advance hpeek).trans (extends_advance _)

lemma progresses_fstringTurn {state : FieldState} {result : Turn FieldState}
    (hpeek : lexer.peekChar = some ch)
    (h : fstringTurn tables start quote raw triple content state lexer ch = .ok result) :
    Progresses lexer result.last := by
  rw [fstringTurn] at h
  dsimp only at h
  split at h
  case h_1 turn hinside =>
    obtain rfl := pure_eq_ok.1 h
    split at hinside
    · exact progresses_fieldTurn hpeek hinside
    · exact progresses_consumeClosing hpeek hinside
  split at h
  · exact absurd h throw_ne_ok
  split at h
  · obtain rfl := pure_eq_ok.1 h
    exact progresses_braceTurn hpeek
  split at h
  · obtain ⟨⟨content, middle⟩, hcontent, h⟩ := Results.bind_eq_ok.1 h
    obtain rfl := pure_eq_ok.1 h
    exact progresses_fieldBackslash hpeek hcontent
  · obtain ⟨⟨content, middle⟩, hcontent, h⟩ := Results.bind_eq_ok.1 h
    obtain rfl := pure_eq_ok.1 h
    exact progresses_consumeContent hpeek hcontent

lemma progresses_consumeFstring (hpeek : lexer.peekChar = some ch)
    (h : consumeFstring tables lexer quote raw = .ok (content, later)) : Progresses lexer later :=
  (progresses_consumeOpening hpeek).trans
    (extends_consumeTurns (fun _ _ _ _ _ => progresses_fstringTurn) h)

end turns

lemma progresses_consumePrefixedString {kind : TokenKind} {content : List Char}
    (h : consumePrefixedString tables lexer = .ok (some (kind, content, later))) :
    Progresses lexer later ∧ ∃ letters, kind = prefixedKind letters := by
  rw [consumePrefixedString] at h
  dsimp only at h
  split at h
  · simp [pure, Except.pure] at h
  case h_2 quote hquote =>
  split at h
  · simp [pure, Except.pure] at h
  split at h
  · exact absurd h throw_ne_ok
  have hopened : (advance^[((lexer.rest.take 2).takeWhile Char.isAlpha).length] lexer).peekChar =
      some quote := (peekChar_iterate _ lexer).trans hquote
  split at h
  · obtain ⟨⟨content', middle⟩, hstring, h⟩ := Results.bind_eq_ok.1 h
    obtain ⟨rfl, rfl, rfl⟩ : _ ∧ _ ∧ _ := by simpa [pure, Except.pure] using h
    exact ⟨(extends_iterate _ lexer).progresses (progresses_consumeFstring hopened hstring), _, rfl⟩
  · obtain ⟨⟨content', middle⟩, hstring, h⟩ := Results.bind_eq_ok.1 h
    obtain ⟨rfl, rfl, rfl⟩ : _ ∧ _ ∧ _ := by simpa [pure, Except.pure] using h
    exact ⟨(extends_iterate _ lexer).progresses (progresses_consumeString hopened hstring), _, rfl⟩

end Lexer

end Lexing

end Pyrs
