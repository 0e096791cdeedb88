import Pyrs.Properties.LexerProgress

/-!
# The errors of the lexer

A turn of the lexer fails with an error of the source only: the loops over strings have as many
rounds as there are characters left, and each of their turns reads one.
-/

namespace Pyrs

namespace Lexing

/-- The computation does not fail for want of rounds. -/
def InFuel {α : Type} (outcome : Except LexError α) : Prop :=
  ∀ error, outcome = .error error → error.message ≠ "out of fuel"

namespace InFuel

variable {α β : Type}

lemma pure (a : α) : InFuel (Pure.pure a) := by
  intro error h
  cases h

lemma throw {lexer : Lexer} {message : String} (h : message ≠ "out of fuel") :
    InFuel (throw (lexer.error message) : Except LexError α) := by
  intro error herror
  obtain rfl := Except.error.inj herror
  exact h

lemma bind {outcome : Except LexError α} {next : α → Except LexError β} (h : InFuel outcome)
    (hnext : ∀ a, outcome = .ok a → InFuel (next a)) : InFuel (outcome >>= next) := by
  intro error herror
  cases houtcome : outcome with
  | error error' =>
    rw [houtcome] at herror
    obtain rfl := Except.error.inj herror
    exact h _ houtcome
  | ok a =>
    rw [houtcome] at herror
    exact hnext a houtcome error herror

end InFuel

namespace Lexer

variable {tables : UnicodeTables} {start lexer : Lexer} {ch quote : Char} {raw triple : Bool}
  {content : List Char}

/-! ## Escapes -/

lemma inFuel_consumeHex {message : String} (hmessage : message ≠ "out of fuel") (width value : ℕ) :
    InFuel (consumeHex start message width value lexer) := by
  induction width generalizing lexer value with
  | zero => exact .pure _
  | succ width ih =>
    rw [consumeHex]
    split
    · exact .throw (by decide)
    split
    · exact .throw hmessage
    · exact ih _

lemma inFuel_consumeUnicodeName : InFuel (consumeUnicodeName tables start lexer) := by
  rw [consumeUnicodeName]
  split
  · exact .throw (by decide)
  split
  · split
    · exact .throw (by decide)
    · exact .pure _
  · exact .throw (by decide)

lemma inFuel_consumeEscapedChar : InFuel (consumeEscapedChar tables start lexer) := by
  rw [consumeEscapedChar]
  split
  · exact .throw (by decide)
  split
  · exact .pure _
  split_ifs
  · exact .bind (inFuel_consumeHex (by decide) _ _) fun _ _ => .pure _
  · exact .pure _
  · refine .bind (inFuel_consumeHex (by decide) _ _) fun _ _ => ?_
    dsimp only
    split
    · exact .pure _
    · exact .throw (by decide)
  · refine .bind (inFuel_consumeHex (by decide) _ _) fun _ _ => ?_
    dsimp only
    split
    · exact .pure _
    · exact .throw (by decide)
  · exact .pure _
  · exact inFuel_consumeUnicodeName
  · exact .pure _
  · exact .pure _
  · exact .pure _

/-! ## Strings -/

lemma inFuel_consumeContent (double : Char → List Char) :
    InFuel (consumeContent tables start raw content lexer ch double) := by
  rw [consumeContent]
  split_ifs
  · exact .pure _
  · exact .bind inFuel_consumeEscapedChar fun _ _ => .pure _
  · exact .pure _

/-- A loop whose turns read something has rounds left when the source ends. -/
lemma inFuel_consumeTurns {State : Type} {state : State}
    {turn : List Char → State → Lexer → Char → Except LexError (Turn State)}
    (hturn : ∀ content state lexer ch result, lexer.peekChar = some ch →
      turn content state lexer ch = .ok result → Progresses lexer result.last)
    (hinFuel : ∀ content state lexer ch, InFuel (turn content state lexer ch)) {fuel : ℕ}
    (hfuel : lexer.rest.length < fuel) :
    InFuel (consumeTurns start turn fuel content state lexer) := by
  induction fuel generalizing content state lexer with
  | zero => cases hfuel
  | succ fuel ih =>
    rw [consumeTurns]
    cases hpeek : lexer.peekChar with
    | none => exact .throw (by decide)
    | some ch =>
      refine .bind (hinFuel content state lexer ch) fun result hresult => ?_
      have hshorter := (hturn content state lexer ch result hpeek hresult).shorter
      cases result with
      | done content later => exact .pure _
      | more content state later => exact ih (Nat.lt_of_lt_of_le hshorter (Nat.le_of_lt_succ hfuel))

lemma inFuel_stringTurn :
    InFuel (stringTurn tables start quote raw triple content () lexer ch) := by
  rw [stringTurn]
  split
  · exact .pure _
  split_ifs
  · exact .throw (by decide)
  · exact .bind (inFuel_consumeContent _) fun _ _ => .pure _

lemma inFuel_consumeString : InFuel (consumeString tables lexer quote raw) := by
  rw [consumeString]
  exact inFuel_consumeTurns (fun _ _ _ _ _ => progresses_stringTurn)
    (fun _ _ _ _ => inFuel_stringTurn) (Nat.lt_succ_self _)

lemma inFuel_fieldBackslash : InFuel (fieldBackslash start content lexer) := by
  rw [fieldBackslash]
  split
  · exact .throw (by decide)
  · exact .pure _

lemma inFuel_fstringTurn (state : FieldState) :
    InFuel (fstringTurn tables start quote raw triple content state lexer ch) := by
  rw [fstringTurn]
  dsimp only
  split
  · exact .pure _
  split_ifs
  · exact .throw (by decide)
  · exact .pure _
  · exact .bind inFuel_fieldBackslash fun _ _ => .pure _
  · exact .bind (inFuel_consumeContent _) fun _ _ => .pure _

lemma inFuel_consumeFstring : InFuel (consumeFstring tables lexer quote raw) := by
  rw [consumeFstring]
  exact inFuel_consumeTurns (fun _ _ _ _ _ => progresses_fstringTurn)
    (fun _ state _ _ => inFuel_fstringTurn state) (Nat.lt_succ_self _)

/-! ## Turns -/

lemma prefixConflict_ne (letters : List Char) : ∀ message ∈ prefixConflict letters,
    message ≠ "out of fuel" := by
  unfold prefixConflict
  split_ifs <;> simp

lemma inFuel_consumePrefixedString : InFuel (consumePrefixedString tables lexer) := by
  rw [consumePrefixedString]
  dsimp only
  split
  · exact .pure _
  split
  · exact .pure _
  split
  case h_1 message hconflict => exact .throw (prefixConflict_ne _ _ hconflict)
  split_ifs
  · exact .bind inFuel_consumeFstring fun _ _ => .pure _
  · exact .bind inFuel_consumeString fun _ _ => .pure _

lemma inFuel_popIndents (level : ℕ) (stack : List ℕ) : InFuel (popIndents lexer level stack) := by
  induction stack with
  | nil => exact .throw (by decide)
  | cons top stack ih =>
    rw [popIndents]
    split_ifs
    · exact .pure _
    · exact .bind ih fun _ _ => .pure _

lemma inFuel_beginLine : InFuel (beginLine lexer) := by
  rw [beginLine]
  dsimp only
  split_ifs
  · exact .pure _
  · refine .bind ?_ fun _ _ => .pure _
    rw [emitIndentTokens]
    split_ifs
    · exact .pure _
    · exact .pure _
    · exact inFuel_popIndents _ _

lemma inFuel_consumeWord : InFuel (consumeWord tables lexer) := by
  rw [consumeWord]
  refine .bind inFuel_consumePrefixedString fun word _ => ?_
  cases word <;> exact .pure _

lemma unexpected_ne (ch : Char) : "unexpected character: " ++ ch.toString ≠ "out of fuel" := by
  intro h
  have hfirst := congrArg (fun text => text.toList.head?) h
  rw [String.toList_append] at hfirst
  have hletter : some 'u' = some 'o' := hfirst
  cases hletter

lemma inFuel_consumeChar : InFuel (consumeChar tables lexer ch) := by
  rw [consumeChar]
  split
  · exact .pure _
  split
  · exact .pure _
  split
  · split <;> exact .pure _
  split
  · split
    · exact .pure _
    · exact .throw (by decide)
  split
  · exact .pure _
  split
  · exact .pure _
  split
  · exact .bind inFuel_consumeString fun _ _ => .pure _
  split
  · exact .pure _
  split
  · exact inFuel_consumeWord
  · exact .throw (unexpected_ne ch)

/-- No turn fails for want of rounds. -/
lemma inFuel_step : InFuel (step tables lexer) := by
  rw [step]
  split
  case' isTrue => refine .bind inFuel_beginLine fun begun _ => ?_
  case' isFalse => refine .bind (.pure _) fun begun _ => ?_
  all_goals
    cases hpeek : begun.2.peekChar with
    | none =>
      simp only [hpeek]
      exact .pure _
    | some ch =>
      simp only [hpeek]
      exact .bind inFuel_consumeChar fun _ _ => .pure _

end Lexer

end Lexing

end Pyrs
