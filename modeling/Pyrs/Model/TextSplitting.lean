import Mathlib.Data.List.DropRight

/-!
# Splitting text

`py_split_whitespace`, `py_rsplit_whitespace` and `py_splitlines` of `vm/mod.rs`.  A text is the
list of its characters, and the offset of a character is its position in that list.
-/

namespace Pyrs

namespace TextSplitting

/-- `char::is_whitespace`: the characters with the property White_Space. -/
def isWhitespace (ch : Char) : Bool :=
  let code := ch.toNat
  (0x9 ≤ code && code ≤ 0xD) || code == 0x20 || code == 0x85 || code == 0xA0 || code == 0x1680 ||
    (0x2000 ≤ code && code ≤ 0x200A) || code == 0x2028 || code == 0x2029 || code == 0x202F ||
    code == 0x205F || code == 0x3000

/-! ## Runs of whitespace -/

/-- The loop of `first_whitespace_run` from the character at `idx` on. -/
def firstRunLoop : Option ℕ → ℕ → List Char → Option (ℕ × ℕ)
  | runStart, idx, [] => runStart.map fun start => (start, idx)
  | runStart, idx, ch :: rest =>
    if isWhitespace ch then firstRunLoop (some (runStart.getD idx)) (idx + 1) rest
    else match runStart with
      | some start => some (start, idx)
      | none => firstRunLoop none (idx + 1) rest

def firstWhitespaceRun (text : List Char) : Option (ℕ × ℕ) := firstRunLoop none 0 text

/-- The variables of `last_whitespace_run` in front of the character at `idx`. -/
structure RunState where
  idx : ℕ
  runStart : Option ℕ
  lastRun : Option (ℕ × ℕ)

/-- One character more. -/
def RunState.next (state : RunState) (ch : Char) : RunState :=
  if isWhitespace ch then ⟨state.idx + 1, some (state.runStart.getD state.idx), state.lastRun⟩
  else match state.runStart with
    | some start => ⟨state.idx + 1, none, some (start, state.idx)⟩
    | none => ⟨state.idx + 1, none, state.lastRun⟩

def lastWhitespaceRun (text : List Char) : Option (ℕ × ℕ) :=
  let state := text.foldl RunState.next ⟨0, none, none⟩
  match state.runStart with
  | some start => some (start, text.length)
  | none => state.lastRun

/-! ## Splitting at whitespace -/

def trimStart (text : List Char) : List Char := text.dropWhile isWhitespace

def trimEnd (text : List Char) : List Char := text.rdropWhile isWhitespace

/-- `str::split` at whitespace, with the characters of the current part. -/
def splitCharsLoop : List Char → List Char → List (List Char)
  | part, [] => [part]
  | part, ch :: rest =>
    if isWhitespace ch then part :: splitCharsLoop [] rest else splitCharsLoop (part ++ [ch]) rest

/-- `str::split_whitespace`. -/
def splitWhitespace (text : List Char) : List (List Char) :=
  (splitCharsLoop [] text).filter (!·.isEmpty)

/-- The loop of `py_split_whitespace` while so many splits are left: the remainder and the parts. -/
def splitLoop : ℕ → List Char → List (List Char) → List Char × List (List Char)
  | 0, remainder, parts => (remainder, parts)
  | splits + 1, remainder, parts => match firstWhitespaceRun remainder with
    | none => (remainder, parts)
    | some (runStart, runEnd) =>
      let parts := parts ++ [remainder.take runStart]
      let remainder := trimStart (remainder.drop runEnd)
      if remainder.isEmpty then (remainder, parts) else splitLoop splits remainder parts

def pySplitWhitespace (text : List Char) (maxsplit : ℤ) : List (List Char) :=
  if maxsplit < 0 then splitWhitespace text
  else if maxsplit = 0 then
    let trimmed := trimStart text
    if trimmed.isEmpty then [] else [trimmed]
  else
    let remainder := trimStart text
    if remainder.isEmpty then []
    else
      let (remainder, parts) := splitLoop maxsplit.toNat remainder []
      if remainder.isEmpty then parts else parts ++ [remainder]

/-- The loop of `py_rsplit_whitespace`. -/
def rsplitLoop : ℕ → List Char → List (List Char) → List Char × List (List Char)
  | 0, remainder, parts => (remainder, parts)
  | splits + 1, remainder, parts => match lastWhitespaceRun remainder with
    | none => (remainder, parts)
    | some (runStart, runEnd) =>
      let parts := parts ++ [remainder.drop runEnd]
      let remainder := trimEnd (remainder.take runStart)
      if remainder.isEmpty then (remainder, parts) else rsplitLoop splits remainder parts

def pyRsplitWhitespace (text : List Char) (maxsplit : ℤ) : List (List Char) :=
  if maxsplit < 0 then splitWhitespace text
  else if maxsplit = 0 then
    let trimmed := trimEnd text
    if trimmed.isEmpty then [] else [trimmed]
  else
    let remainder := trimEnd text
    if remainder.isEmpty then []
    else
      let (remainder, parts) := rsplitLoop maxsplit.toNat remainder []
      (if remainder.isEmpty then parts else parts ++ [remainder]).reverse

/-! ## Splitting into lines -/

def isPySplitlineBreak (ch : Char) : Bool :=
  ch ∈ ['\n', '\x0b', '\x0c', '\x1c', '\x1d', '\x1e', '\u0085', '\u2028', '\u2029']

/-- The loop of `py_splitlines` at the character at `idx`, in the line that begins at `start`. -/
def splitlinesLoop (text : List Char) (keepends : Bool) : ℕ → ℕ → List Char → List (List Char)
  | start, _, [] => if start < text.length then [text.drop start] else []
  | start, idx, '\r' :: '\n' :: rest =>
    (text.take (if keepends then idx + 2 else idx)).drop start ::
      splitlinesLoop text keepends (idx + 2) (idx + 2) rest
  | start, idx, ch :: rest =>
    if ch == '\r' || isPySplitlineBreak ch then
      (text.take (if keepends then idx + 1 else idx)).drop start ::
        splitlinesLoop text keepends (idx + 1) (idx + 1) rest
    else splitlinesLoop text keepends start (idx + 1) rest

def pySplitlines (text : List Char) (keepends : Bool) : List (List Char) :=
  splitlinesLoop text keepends 0 0 text

end TextSplitting

end Pyrs
