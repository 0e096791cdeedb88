import Mathlib.Data.List.Basic

/-!
# Repeated matching

`vm/stdlib/re.rs`, `findall`, `finditer` and `split` of a compiled pattern, and the search of
`vm/mod.rs` they repeat.  A subject is a list of characters, which positions index in bytes, or a
list of bytes.  The paths of a pattern's SRE program are given with it.
-/

namespace Pyrs

/-- What a subject consists of. -/
class SubjectUnit (α : Type) where
  /-- How many bytes it takes. -/
  width : α → ℕ
  width_pos : ∀ unit, 0 < width unit

export SubjectUnit (width width_pos)

instance : SubjectUnit Char := ⟨Char.utf8Size, Char.utf8Size_pos⟩

instance : SubjectUnit UInt8 := ⟨fun _ => 1, fun _ => Nat.one_pos⟩

section Offsets

variable {α : Type} [SubjectUnit α]

/-- `SreText::byte_offset`. -/
def byteOffset : List α → ℕ → ℕ
  | [], index => index
  | _ :: _, 0 => 0
  | unit :: text, index + 1 => width unit + byteOffset text index

def byteLen (text : List α) : ℕ := byteOffset text text.length

def takeBytes : List α → ℕ → Option (List α)
  | _, 0 => some []
  | [], _ + 1 => none
  | unit :: text, offset + 1 =>
    if width unit ≤ offset + 1 then
      (takeBytes text (offset + 1 - width unit)).map (unit :: ·)
    else none

def dropBytes : List α → ℕ → Option (List α)
  | text, 0 => some text
  | [], _ + 1 => none
  | unit :: text, offset + 1 =>
    if width unit ≤ offset + 1 then dropBytes text (offset + 1 - width unit) else none

/-- `text[start..stop]`, which panics inside a character. -/
def sliceBytes (text : List α) (start stop : ℕ) : Except String (List α) :=
  match (takeBytes text stop).bind (dropBytes · start) with
  | some part => .ok part
  | none => .error "byte index is not a char boundary"

def isCharBoundary (text : List α) (offset : ℕ) : Bool := (takeBytes text offset).isSome

def utf8CharIndexToByte (text : List α) (charIndex : ℕ) : Option ℕ :=
  if text.length < charIndex then none else some (byteOffset text charIndex)

/-- The `byte_to_char` of `alloc_re_match_value`; a subject of single bytes is not looked at. -/
def byteToChar (text : List α) (offset : ℕ) : Except String ℕ :=
  if text.all (width · == 1) then .ok offset
  else
    match takeBytes text offset with
    | some part => .ok part.length
    | none => .error "invalid regex match bounds"

end Offsets

def clampIndex (len : ℕ) (raw : Int) : ℕ :=
  if raw < 0 then (len + raw).toNat else min raw.toNat len

def normalizeStringWindow (text : List Char) (rawPos rawEnd : Int) :
    Except String (ℕ × ℕ × ℕ × ℕ) :=
  let startChar := clampIndex text.length rawPos
  let stopChar := max (clampIndex text.length rawEnd) startChar
  match utf8CharIndexToByte text startChar, utf8CharIndexToByte text stopChar with
  | some startByte, some stopByte => .ok (startByte, stopByte, startChar, stopChar)
  | _, _ => .error "invalid regex match bounds"

/-! ## The search -/

inductive ReMode
  | search | «match» | fullMatch
deriving DecidableEq

/-- A match; its end is `finish`. -/
structure ReMatchDetail where
  start : ℕ
  finish : ℕ
  captures : List (Option (ℕ × ℕ))
deriving DecidableEq

def ReMatchDetail.map (f : ℕ → ℕ) (detail : ReMatchDetail) : ReMatchDetail where
  start := f detail.start
  finish := f detail.finish
  captures := detail.captures.map (Option.map (Prod.map f f))

/-- A path of a program to `SUCCESS`: where it ends, and its marks. -/
structure SrePath where
  finish : ℕ
  marks : List (Option ℕ)

/-- An SRE program, by its successful paths over a text from a position in it, in the order in
which backtracking tries them. -/
structure SreProgram (α : Type) where
  groups : ℕ
  paths : List α → ℕ → List SrePath
  bounds : ∀ text start, start ≤ text.length → ∀ path ∈ paths text start,
    start ≤ path.finish ∧ path.finish ≤ text.length

/-- The positions of a group, if it took part. -/
def SrePath.capture (path : SrePath) (len group : ℕ) : Option (ℕ × ℕ) :=
  match path.marks[group * 2]?.join, path.marks[group * 2 + 1]?.join with
  | some start, some stop => if start ≤ stop ∧ stop ≤ len then some (start, stop) else none
  | _, _ => none

section Search

variable {α : Type} [SubjectUnit α] (program : SreProgram α) (text : List α)

/-- `sre_run_program` ends at the end of the first path. -/
def SreProgram.tryStart (mode : ReMode) (start : ℕ) : Option ReMatchDetail :=
  match (program.paths text start).head? with
  | none => none
  | some path =>
    if mode = .fullMatch ∧ path.finish ≠ text.length then none
    else some
      { start := byteOffset text start
        finish := byteOffset text path.finish
        captures := (List.range program.groups).map fun group =>
          (path.capture text.length group).map (Prod.map (byteOffset text) (byteOffset text)) }

def compiledRegexMatchDetailsWithText (mode : ReMode) : Option ReMatchDetail :=
  match mode with
  | .search => (List.range (text.length + 1)).findSome? (program.tryStart text mode)
  | .match | .fullMatch => program.tryStart text mode 0

end Search

/-- A compiled pattern with its source text.  A pattern of bytes has a program too. -/
inductive RePattern
  | str (pattern : List Char) (program : SreProgram Char)
  | bytes (pattern : List UInt8) (program : SreProgram UInt8)

inductive ReNormalizedTarget
  | text (text : List Char)
  | bytes (bytes : List UInt8)

/-- What the operations use besides. -/
structure ReRuntime where
  /-- The number of groups and the rows, for the patterns of the `csv` module. -/
  csvSnifferPatternFindall : List Char → List Char → Option (ℕ × List (List (List Char)))
  /-- The search for a pattern of bytes, by its text. -/
  reMatchDetailsBytes : List UInt8 → List UInt8 → Option ReMatchDetail

/-! ## The loop of the three operations -/

inductive GroupValue (α : Type)
  | none
  | text (text : List α)
deriving DecidableEq

section Loop

variable {α β : Type} [SubjectUnit α] (text : List α) (stop : ℕ)

/-- `while next < stop && !text.is_char_boundary(next)`, within a number of steps. -/
def skipToBoundary : ℕ → ℕ → ℕ
  | 0, next => next
  | steps + 1, next =>
    if next < stop ∧ isCharBoundary text next = false then skipToBoundary steps (next + 1)
    else next

/-- Where the search after a match begins, if there is one. -/
def nextCursor (start finish : ℕ) : Option ℕ :=
  if finish = start then
    if stop ≤ finish then none else some (skipToBoundary text stop stop (finish + 1))
  else some finish

/-- The loop, within a number of rounds: what every match adds to the output, and the end of the
last match.  `emit` takes the end of the match before, the cursor and the match, relative to the
cursor; `checked` is whether the operation leaves the loop at a match beyond the window, and
`budget` how many more matches it takes. -/
def repeatSearch (search : List α → Option ReMatchDetail) (checked : Bool)
    (emit : ℕ → ℕ → ReMatchDetail → Except String (List β)) :
    ℕ → Option ℕ → ℕ → ℕ → Except String (List β × ℕ)
  | 0, _, _, _ => .error "the loop does not end"
  | rounds + 1, budget, segmentStart, cursor =>
    if stop < cursor ∨ budget = some 0 then .ok ([], segmentStart)
    else do
      let suffix ← sliceBytes text cursor stop
      match search suffix with
      | none => .ok ([], segmentStart)
      | some detail =>
        let absoluteStart := cursor + detail.start
        let absoluteEnd := cursor + detail.finish
        if checked ∧ (stop < absoluteStart ∨ stop < absoluteEnd) then .ok ([], segmentStart)
        else do
          let values ← emit segmentStart cursor detail
          match nextCursor text stop absoluteStart absoluteEnd with
          | none => .ok (values, absoluteEnd)
          | some next => do
            let (rest, last) ←
              repeatSearch search checked emit rounds (budget.map (· - 1)) absoluteEnd next
            .ok (values ++ rest, last)

/-- The text of a group, if it took part. -/
def groupValue (cursor : ℕ) : Option (ℕ × ℕ) → Except String (GroupValue α)
  | none => .ok .none
  | some (start, stop) => do
    let part ← sliceBytes text (cursor + start) (cursor + stop)
    .ok (.text part)

/-! ## `findall` -/

inductive FindallItem (α : Type)
  | value (value : GroupValue α)
  | tuple (values : List (GroupValue α))
deriving DecidableEq

def findallItem (cursor : ℕ) (detail : ReMatchDetail) : Except String (FindallItem α) :=
  match detail.captures with
  | [] => do
    let part ← sliceBytes text (cursor + detail.start) (cursor + detail.finish)
    .ok (.value (.text part))
  | [capture] => do
    let value ← groupValue text cursor capture
    .ok (.value value)
  | captures => do
    let values ← captures.mapM (groupValue text cursor)
    .ok (.tuple values)

def findallFrom (search : List α → Option ReMatchDetail) (start : ℕ) :
    Except String (List (FindallItem α)) := do
  let (items, _) ← repeatSearch text stop search true
    (fun _ cursor detail => do
      let item ← findallItem text cursor detail
      .ok [item])
    (stop + 1) none 0 start
  .ok items

/-! ## `finditer` -/

/-- What `alloc_re_match_value` stores of a match. -/
structure ReMatchValue (α : Type) where
  start : ℕ
  finish : ℕ
  groups : List (GroupValue α)
  spans : List (Option (ℕ × ℕ))
  pos : ℕ
  endpos : ℕ
deriving DecidableEq

def charSpan : Option (ℕ × ℕ) → Except String (Option (ℕ × ℕ))
  | none => .ok none
  | some (start, stop) => do
    let spanStart ← byteToChar text start
    let spanEnd ← byteToChar text stop
    .ok (some (spanStart, spanEnd))

/-- `expectedGroups` is the largest group that has a name. -/
def allocReMatchValue (detail : ReMatchDetail) (expectedGroups pos endpos : ℕ) :
    Except String (ReMatchValue α) := do
  let captures := detail.captures ++
    List.replicate (expectedGroups - detail.captures.length) none
  let start ← byteToChar text detail.start
  let finish ← byteToChar text detail.finish
  let groups ← captures.mapM (groupValue text 0)
  let spans ← captures.mapM (charSpan text)
  .ok { start, finish, groups, spans, pos, endpos }

def finditerFrom (search : List α → Option ReMatchDetail) (start expectedGroups : ℕ)
    (pos endpos : ℕ) : Except String (List (ReMatchValue α)) := do
  let (items, _) ← repeatSearch text stop search false
    (fun _ cursor detail => do
      let item ← allocReMatchValue text (detail.map (cursor + ·)) expectedGroups pos endpos
      .ok [item])
    (stop + 1) none 0 start
  .ok items

/-! ## `split` -/

def splitFrom (search : List α → Option ReMatchDetail) (maxsplit : Int) :
    Except String (List (GroupValue α)) := do
  let stop := byteLen text
  let maxsplit := maxsplit.toNat
  let (parts, segmentStart) ← repeatSearch text stop search true
    (fun segmentStart cursor detail => do
      let part ← sliceBytes text segmentStart (cursor + detail.start)
      let groups ← detail.captures.mapM (groupValue text cursor)
      .ok (.text part :: groups))
    (stop + 1) (if maxsplit = 0 then none else some maxsplit) 0 0
  let tail ← sliceBytes text segmentStart stop
  .ok (parts ++ [.text tail])

end Loop

/-! ## The operations -/

/-- The results of an operation over a subject of characters or of bytes. -/
inductive ReResult (β : Type → Type)
  | text (items : List (β Char))
  | bytes (items : List (β UInt8))

section Operations

variable (runtime : ReRuntime)

def csvRow (groupCount : ℕ) (row : List (List Char)) : FindallItem Char :=
  if groupCount = 1 then .value (.text (row.headD [])) else .tuple (row.map .text)

def builtinRePatternFindall (pattern : RePattern) (target : ReNormalizedTarget)
    (pos endpos : Option Int) : Except String (ReResult FindallItem) :=
  match target with
  | .text text =>
    match pattern with
    | .bytes _ _ => .error "cannot use a bytes pattern on a string-like object"
    | .str patternText program =>
      match runtime.csvSnifferPatternFindall patternText text with
      | some (groupCount, rows) => .ok (.text (rows.map (csvRow groupCount)))
      | none => do
        let (start, stop, _, _) ←
          normalizeStringWindow text (pos.getD 0) (endpos.getD text.length)
        let items ← findallFrom text stop
          (fun suffix => compiledRegexMatchDetailsWithText program suffix .search) start
        .ok (.text items)
  | .bytes bytes =>
    match pattern with
    | .str _ _ => .error "cannot use a string pattern on a bytes-like object"
    | .bytes patternBytes _ => do
      let start := clampIndex bytes.length (pos.getD 0)
      let stop := max (clampIndex bytes.length (endpos.getD bytes.length)) start
      let items ← findallFrom bytes stop (runtime.reMatchDetailsBytes patternBytes) start
      .ok (.bytes items)

def builtinRePatternFinditer (pattern : RePattern) (expectedGroups : ℕ)
    (target : ReNormalizedTarget) (pos endpos : Option Int) :
    Except String (ReResult ReMatchValue) :=
  match target with
  | .text text =>
    match pattern with
    | .bytes _ _ => .error "cannot use a bytes pattern on a string-like object"
    | .str _ program => do
      let (start, stop, startChar, stopChar) ←
        normalizeStringWindow text (pos.getD 0) (endpos.getD text.length)
      let items ← finditerFrom text stop
        (fun suffix => compiledRegexMatchDetailsWithText program suffix .search) start
        expectedGroups startChar stopChar
      .ok (.text items)
  | .bytes bytes =>
    match pattern with
    | .str _ _ => .error "cannot use a string pattern on a bytes-like object"
    | .bytes patternBytes _ => do
      let start := clampIndex bytes.length (pos.getD 0)
      let stop := max (clampIndex bytes.length (endpos.getD bytes.length)) start
      let items ← finditerFrom bytes stop (runtime.reMatchDetailsBytes patternBytes) start
        expectedGroups start stop
      .ok (.bytes items)

def builtinRePatternSplit (pattern : RePattern) (target : ReNormalizedTarget)
    (maxsplit : Int) : Except String (ReResult GroupValue) :=
  match target with
  | .text text =>
    match pattern with
    | .bytes _ _ => .error "cannot use a bytes pattern on a string-like object"
    | .str _ program => do
      let parts ← splitFrom text
        (fun suffix => compiledRegexMatchDetailsWithText program suffix .search) maxsplit
      .ok (.text parts)
  | .bytes bytes =>
    match pattern with
    | .str _ _ => .error "cannot use a string pattern on a bytes-like object"
    | .bytes patternBytes _ => do
      let parts ← splitFrom bytes (runtime.reMatchDetailsBytes patternBytes) maxsplit
      .ok (.bytes parts)

end Operations

end Pyrs
