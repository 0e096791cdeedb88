import Pyrs.Library.Attempts
import Pyrs.Library.UndoLog
import Pyrs.Model.CharacterClasses

/-!
# The interpreter of compiled patterns

`sre_run_program` and `sre_collect_program_end_states` of `vm/mod.rs` with `SreMarkState` below them.
A run keeps a record of the points this development speaks about: where an attempt begins after
another one was given up, and where marks are restored from a snapshot.  Nothing reads the record,
nor the two flags of a run: `held` says that a failure of the run goes back to a checkpoint, `kept`
that its success is followed by steps whose failure does.
-/

namespace Pyrs

namespace Sre

def SRE_OP_SUCCESS : ℤ := 1
def SRE_OP_ANY : ℤ := 2
def SRE_OP_ANY_ALL : ℤ := 3
def SRE_OP_ASSERT : ℤ := 4
def SRE_OP_ASSERT_NOT : ℤ := 5
def SRE_OP_AT : ℤ := 6
def SRE_OP_BRANCH : ℤ := 7
def SRE_OP_GROUPREF : ℤ := 11
def SRE_OP_INFO : ℤ := 14
def SRE_OP_JUMP : ℤ := 15
def SRE_OP_MARK : ℤ := 17
def SRE_OP_MAX_UNTIL : ℤ := 18
def SRE_OP_MIN_UNTIL : ℤ := 19
def SRE_OP_NOT_LITERAL : ℤ := 20
def SRE_OP_REPEAT : ℤ := 23
def SRE_OP_REPEAT_ONE : ℤ := 24
def SRE_OP_MIN_REPEAT_ONE : ℤ := 26
def SRE_OP_GROUPREF_IGNORE : ℤ := 30
def SRE_OP_NOT_LITERAL_IGNORE : ℤ := 33
def SRE_OP_GROUPREF_LOC_IGNORE : ℤ := 34
def SRE_OP_NOT_LITERAL_LOC_IGNORE : ℤ := 37
def SRE_OP_GROUPREF_UNI_IGNORE : ℤ := 38
def SRE_OP_NOT_LITERAL_UNI_IGNORE : ℤ := 41

def SRE_AT_BEGINNING : ℤ := 0
def SRE_AT_BEGINNING_LINE : ℤ := 1
def SRE_AT_BEGINNING_STRING : ℤ := 2
def SRE_AT_BOUNDARY : ℤ := 3
def SRE_AT_NON_BOUNDARY : ℤ := 4
def SRE_AT_END : ℤ := 5
def SRE_AT_END_LINE : ℤ := 6
def SRE_AT_END_STRING : ℤ := 7
def SRE_AT_LOC_BOUNDARY : ℤ := 8
def SRE_AT_LOC_NON_BOUNDARY : ℤ := 9
def SRE_AT_UNI_BOUNDARY : ℤ := 10
def SRE_AT_UNI_NON_BOUNDARY : ℤ := 11

/-! ## Marks -/

/-- The slots of the marks: one for the start and one for the end of each group. -/
abbrev SreSlots := List (Option ℕ)

/-- `SreMarkUndo`. -/
inductive SreMarkUndo
  | set (index : ℕ) (old : Option ℕ)
  | resize (oldLen : ℕ)
  deriving DecidableEq, Repr

/-- What going back over a change restores. -/
def SreMarkUndo.revert : SreMarkUndo → SreSlots → SreSlots
  | .set index old, slots => slots.set index old
  | .resize oldLen, slots => slots.take oldLen

/-- `SreMarkState`: the value is the slots. -/
abbrev SreMarkState := Logged SreSlots SreMarkUndo

namespace SreMarkState

/-- `checkpoint`: the length of the undo log. -/
def checkpoint (marks : SreMarkState) : ℕ := marks.undo.length

/-- `restore`: the changes behind the checkpoint are taken back, the last one first. -/
def restore (checkpoint : ℕ) (marks : SreMarkState) : SreMarkState :=
  Logged.unwind SreMarkUndo.revert checkpoint marks.value marks.undo

/-- The value of a slot. -/
def get (marks : SreMarkState) (index : ℕ) : Option ℕ := marks.value[index]?.join

/-- `set`: a slot of the marks, and its old value in the log. -/
def set (index : ℕ) (value : Option ℕ) (marks : SreMarkState) : SreMarkState :=
  match marks.value[index]? with
  | none =>
    { value := marks.value ++ List.replicate (index - marks.value.length) none ++ [value]
      undo := .resize marks.value.length :: marks.undo }
  | some old =>
    if old = value then marks
    else { value := marks.value.set index value, undo := .set index old :: marks.undo }

/-- `restore_slots`: the slots of a snapshot, with an empty log. -/
def restoreSlots (snapshot : SreSlots) (_marks : SreMarkState) : SreMarkState := ⟨snapshot, []⟩

end SreMarkState

/-! ## Runs -/

/-- What a run records. -/
inductive SreEvent
  /-- An attempt begins, with the slots it should find and those it finds. -/
  | retry (entry now : SreSlots)
  /-- A `MIN_REPEAT_ONE` went on beyond its minimum, with the lengths of the undo log before and
  after the iteration. -/
  | iteration (before after : ℕ)
  /-- A `REPEAT` begins, with the flags of the run and the length of the undo log. -/
  | repeat (held kept : Bool) (undoLen : ℕ)
  deriving DecidableEq, Repr

/-- The marks, and the record of the attempts that proofs are about. -/
structure SreMachine where
  marks : SreMarkState
  record : List SreEvent

/-- Steps over the machine that may fail. -/
abbrev SreM := Attempt SreMachine

/-- Reads the marks. -/
def getMarks : SreM SreMarkState := .read SreMachine.marks

/-- Changes the marks. -/
def modifyMarks (f : SreMarkState → SreMarkState) : SreM Unit :=
  .update fun machine => { machine with marks := f machine.marks }

/-- Adds an event to the record. -/
def recordEvent (event : SreMachine → SreEvent) : SreM Unit :=
  .update fun machine => { machine with record := machine.record ++ [event machine] }

/-- A program with the text it runs on, and what the standard library knows of characters. -/
structure SreInput where
  toLowercase : Char → List Char
  isAlphanumeric : Char → Bool
  isWhitespace : Char → Bool
  code : List ℤ
  text : List Char

/-- Ends of a part, each with the slots it was first reached with, in the order of the ends. -/
abbrev SreResults := List (ℕ × SreSlots)

/-- `sre_record_end_state`. -/
def sreRecordEndState (finish : ℕ) (slots : SreSlots) : SreResults → SreResults
  | [] => [(finish, slots)]
  | (other, otherSlots) :: results =>
    if finish < other then (finish, slots) :: (other, otherSlots) :: results
    else if finish = other then (other, otherSlots) :: results
    else (other, otherSlots) :: sreRecordEndState finish slots results

/-- The two functions one level deeper. -/
structure SreRunner where
  run : Bool → Bool → ℕ → ℕ → ℕ → SreM ℕ
  collect : ℕ → ℕ → ℕ → SreResults → SreM SreResults

section

variable (input : SreInput)

/-! ## Single characters and positions -/

def sreAtMatches (at_ : ℤ) (pos : ℕ) : Bool :=
  let len := input.text.length
  let prev := if pos > 0 then input.text[pos - 1]? else none
  let cur := input.text[pos]?
  let asciiBoundary := (prev.map sreCharIsWordAscii).getD false !=
    (cur.map sreCharIsWordAscii).getD false
  let unicodeBoundary := (prev.map (sreCharIsWordUnicode input.isAlphanumeric)).getD false !=
    (cur.map (sreCharIsWordUnicode input.isAlphanumeric)).getD false
  if at_ = SRE_AT_BEGINNING ∨ at_ = SRE_AT_BEGINNING_STRING then pos = 0
  else if at_ = SRE_AT_BEGINNING_LINE then pos = 0 ∨ prev = some '\n'
  else if at_ = SRE_AT_END then pos = len ∨ (pos + 1 = len ∧ cur = some '\n')
  else if at_ = SRE_AT_END_LINE then pos = len ∨ cur = some '\n'
  else if at_ = SRE_AT_END_STRING then pos = len
  else if at_ = SRE_AT_BOUNDARY ∨ at_ = SRE_AT_LOC_BOUNDARY then asciiBoundary
  else if at_ = SRE_AT_NON_BOUNDARY ∨ at_ = SRE_AT_LOC_NON_BOUNDARY then !asciiBoundary
  else if at_ = SRE_AT_UNI_BOUNDARY then unicodeBoundary
  else if at_ = SRE_AT_UNI_NON_BOUNDARY then !unicodeBoundary
  else false

/-- The literals that ignore case. -/
def sreLiteralIgnore (opcode : ℤ) : Bool :=
  opcode ∈ [SRE_OP_LITERAL_IGNORE, SRE_OP_LITERAL_LOC_IGNORE, SRE_OP_LITERAL_UNI_IGNORE,
    SRE_OP_NOT_LITERAL_IGNORE, SRE_OP_NOT_LITERAL_LOC_IGNORE, SRE_OP_NOT_LITERAL_UNI_IGNORE]

/-- Whether the character at the cursor is the one behind the opcode. -/
def sreLiteralMatches (readLiteral : List ℤ → ℕ → Option ℕ) (opcode : ℤ) (pc cursor : ℕ) :
    Option Bool := do
  let expected ← charFromU32 (← readLiteral input.code (pc + 1))
  let current ← input.text[cursor]?
  return if sreLiteralIgnore opcode then sreCharEqualIgnoreCase input.toLowercase current expected
    else current == expected

/-- The loop of `range_matches`. -/
def rangeLoop (ignoreCase : Bool) (leftStart rightStart : ℕ) : ℕ → ℕ → Option Unit
  | 0, _ => some ()
  | len + 1, offset => do
    let left ← input.text[leftStart + offset]?
    let right ← input.text[rightStart + offset]?
    let isMatch :=
      if ignoreCase then sreCharEqualIgnoreCase input.toLowercase left right else left == right
    if isMatch then rangeLoop ignoreCase leftStart rightStart len (offset + 1) else none

/-- `range_matches`. -/
def rangeMatches (leftStart leftEnd rightStart : ℕ) (ignoreCase : Bool) : Option ℕ :=
  if leftEnd < leftStart then none
  else do
    let len := leftEnd - leftStart
    let candidateEnd ← checkedUsize (rightStart + len)
    if candidateEnd > input.text.length then none
    else do
      rangeLoop input ignoreCase leftStart rightStart len 0
      return candidateEnd

/-- `sre_groupref_matches`. -/
def sreGrouprefMatches (pos : ℕ) (marks : SreMarkState) (group : ℕ) (ignoreCase : Bool) :
    Option ℕ := do
  let start ← marks.get (group * 2)
  let finish ← marks.get (group * 2 + 1)
  if finish < start then none else rangeMatches input start finish pos ignoreCase

/-- The references to groups that ignore case. -/
def sreGrouprefIgnore (opcode : ℤ) : Bool :=
  opcode ∈ [SRE_OP_GROUPREF_IGNORE, SRE_OP_GROUPREF_LOC_IGNORE, SRE_OP_GROUPREF_UNI_IGNORE]

/-- The opcodes that try nothing, which both functions treat alike: where they go on, and the new
cursor. -/
def sreSimpleStep (readLiteral : List ℤ → ℕ → Option ℕ) (opcode : ℤ) (pc cursor : ℕ) :
    SreM (ℕ × ℕ) :=
  if opcode = SRE_OP_INFO ∨ opcode = SRE_OP_JUMP then do
    let skip ← .ofOption (sreReadUsize input.code (pc + 1))
    pure (pc + 1 + skip, cursor)
  else if opcode = SRE_OP_AT then do
    let at_ ← .ofOption input.code[pc + 1]?
    if sreAtMatches input at_ cursor then pure (pc + 2, cursor) else .fail
  else if opcode = SRE_OP_LITERAL ∨ opcode = SRE_OP_LITERAL_IGNORE ∨
      opcode = SRE_OP_LITERAL_LOC_IGNORE ∨ opcode = SRE_OP_LITERAL_UNI_IGNORE then do
    let isMatch ← .ofOption (sreLiteralMatches input readLiteral opcode pc cursor)
    if isMatch then pure (pc + 2, cursor + 1) else .fail
  else if opcode = SRE_OP_NOT_LITERAL ∨ opcode = SRE_OP_NOT_LITERAL_IGNORE ∨
      opcode = SRE_OP_NOT_LITERAL_LOC_IGNORE ∨ opcode = SRE_OP_NOT_LITERAL_UNI_IGNORE then do
    let isMatch ← .ofOption (sreLiteralMatches input readLiteral opcode pc cursor)
    if isMatch then .fail else pure (pc + 2, cursor + 1)
  else if opcode = SRE_OP_ANY then do
    let current ← .ofOption input.text[cursor]?
    if current = '\n' then .fail else pure (pc + 1, cursor + 1)
  else if opcode = SRE_OP_ANY_ALL then do
    let _ ← .ofOption input.text[cursor]?
    pure (pc + 1, cursor + 1)
  else if opcode = SRE_OP_IN ∨ opcode = SRE_OP_IN_IGNORE ∨ opcode = SRE_OP_IN_LOC_IGNORE ∨
      opcode = SRE_OP_IN_UNI_IGNORE then do
    let skip ← .ofOption (sreReadUsize input.code (pc + 1))
    let current ← .ofOption input.text[cursor]?
    let isMatch ← .ofOption (sreClassMatches input.toLowercase input.isAlphanumeric
      input.isWhitespace input.code (pc + 2) (pc + 1 + skip) opcode current)
    if isMatch then pure (pc + 1 + skip, cursor + 1) else .fail
  else if opcode = SRE_OP_MARK then do
    let markIndex ← .ofOption (sreReadUsize input.code (pc + 1))
    modifyMarks (·.set markIndex (some cursor))
    pure (pc + 2, cursor)
  else if opcode = SRE_OP_GROUPREF ∨ opcode = SRE_OP_GROUPREF_IGNORE ∨
      opcode = SRE_OP_GROUPREF_LOC_IGNORE ∨ opcode = SRE_OP_GROUPREF_UNI_IGNORE then do
    let group ← .ofOption (sreReadUsize input.code (pc + 1))
    let marks ← getMarks
    let next ← .ofOption (sreGrouprefMatches input cursor marks group (sreGrouprefIgnore opcode))
    pure (pc + 2, next)
  else .fail

/-- `as u32` of the word behind a literal. -/
def sreCastU32 (code : List ℤ) (index : ℕ) : Option ℕ :=
  code[index]?.map fun raw => (raw % 2 ^ 32).toNat

/-! ## `sre_run_program` -/

section

variable (inner : SreRunner) (held kept : Bool) (pcLimit : ℕ)

/-- Whether a `BRANCH` has an alternative at a place. -/
def sreHasAlternative (branch : ℕ) : Bool :=
  branch < pcLimit && sreReadUsize input.code branch ∉ [none, some 0]

/-- The loop of `BRANCH`.  Each of its rounds moves on, so that the words of the program are enough
steps. -/
def sreBranch (entry : SreSlots) (cursor : ℕ) : ℕ → ℕ → SreM ℕ
  | 0, _ => .fail
  | steps + 1, branch => do
    let skip ← .ofOption (sreReadUsize input.code branch)
    if skip = 0 then .fail
    else do
      let marks ← getMarks
      recordEvent fun machine => .retry entry machine.marks.value
      let more := sreHasAlternative input pcLimit (branch + skip)
      match ← (inner.run (held || kept || more) kept (branch + 1) pcLimit cursor).outcome with
      | some matched => pure matched
      | none => do
        modifyMarks (SreMarkState.restore marks.checkpoint)
        if pcLimit ≤ branch + skip then .fail else sreBranch entry cursor steps (branch + skip)

/-- `ASSERT` and `ASSERT_NOT`: where the run goes on. -/
def sreAssert (opcode : ℤ) (pc cursor : ℕ) : SreM ℕ := do
  let skip ← .ofOption (sreReadUsize input.code (pc + 1))
  let back ← .ofOption (sreReadUsize input.code (pc + 2))
  let subLimit := pc + 1 + skip
  if cursor < back then .fail
  else do
    let marks ← getMarks
    if opcode = SRE_OP_ASSERT then
      match ← (inner.run (held || kept) (held || kept) (pc + 3) subLimit
          (cursor - back)).outcome with
      | some _ => pure subLimit
      | none => do
        modifyMarks (SreMarkState.restore marks.checkpoint)
        .fail
    else
      match ← (inner.run true (held || kept) (pc + 3) subLimit (cursor - back)).outcome with
      | some _ => do
        modifyMarks (SreMarkState.restore marks.checkpoint)
        .fail
      | none => do
        modifyMarks (SreMarkState.restore marks.checkpoint)
        recordEvent fun machine => .retry marks.value machine.marks.value
        pure subLimit

/-- How far a repetition got, with the marks at that point, of which the code only keeps the
checkpoint. -/
structure SreCandidate where
  pos : ℕ
  marks : SreMarkState

/-- The iterations of a `REPEAT_ONE` after the first `count` of them. -/
def sreIterations (lazy : Bool) (minCount unitStart nextPc : ℕ) :
    ℕ → ℕ → ℕ → SreM (List SreCandidate)
  | 0, _, _ => pure []
  | hardMax + 1, count, repPos => do
    let marks ← getMarks
    match ← (inner.run true true unitStart nextPc repPos).outcome with
    | none => do
      modifyMarks (SreMarkState.restore marks.checkpoint)
      pure []
    | some nextPos =>
      if nextPos = repPos then do
        modifyMarks (SreMarkState.restore marks.checkpoint)
        pure []
      else do
        let marks' ← getMarks
        if lazy && minCount ≤ count then
          recordEvent fun _ => .iteration marks.checkpoint marks'.checkpoint
        let rest ← sreIterations lazy minCount unitStart nextPc hardMax (count + 1) nextPos
        pure (⟨nextPos, marks'⟩ :: rest)

/-- The attempts behind a `REPEAT_ONE`, in the order of the candidates. -/
def sreCandidates (nextPc : ℕ) : List SreCandidate → SreM ℕ
  | [] => .fail
  | candidate :: candidates => do
    modifyMarks (SreMarkState.restore candidate.marks.checkpoint)
    recordEvent fun machine => .retry candidate.marks.value machine.marks.value
    match ← (inner.run (held || kept || !candidates.isEmpty) kept nextPc pcLimit
        candidate.pos).outcome with
    | some result => pure result
    | none => do
      modifyMarks (SreMarkState.restore candidate.marks.checkpoint)
      sreCandidates nextPc candidates

/-- `REPEAT_ONE` and `MIN_REPEAT_ONE`. -/
def sreRepeatOne (opcode : ℤ) (pc cursor : ℕ) : SreM ℕ := do
  let skip ← .ofOption (sreReadUsize input.code (pc + 1))
  let minCount ← .ofOption (sreReadUsize input.code (pc + 2))
  let maxCountRaw ← .ofOption (sreReadUsize input.code (pc + 3))
  let lazy : Bool := opcode ≠ SRE_OP_REPEAT_ONE
  let hardMax := min maxCountRaw (input.text.length - cursor)
  let marks ← getMarks
  let iterations ← sreIterations inner lazy minCount (pc + 4) (pc + 1 + skip) hardMax 0 cursor
  let states := ⟨cursor, marks⟩ :: iterations
  if minCount > iterations.length then do
    modifyMarks (SreMarkState.restore marks.checkpoint)
    .fail
  else do
    let candidates :=
      if lazy then states.drop minCount else (states.drop minCount).reverse
    match ← (sreCandidates inner held kept pcLimit (pc + 1 + skip) candidates).outcome with
    | some result => pure result
    | none => do
      modifyMarks (SreMarkState.restore marks.checkpoint)
      .fail

/-- `sre_repeat_unit_states`. -/
def sreRepeatUnitStates (unitStart untilPc startPos : ℕ) : SreM SreResults := do
  let marks ← getMarks
  let results ← inner.collect unitStart (untilPc + 1) startPos []
  modifyMarks (SreMarkState.restoreSlots marks.value)
  pure results

/-- One repetition from every state: the new states, whether one moved on and whether one did not.
-/
def sreRepeatRound (unitStart untilPc : ℕ) :
    List (ℕ × SreSlots) → SreM (List (ℕ × SreSlots) × Bool × Bool)
  | [] => pure ([], false, false)
  | (repPos, repMarks) :: current => do
    modifyMarks (SreMarkState.restoreSlots repMarks)
    let units ← sreRepeatUnitStates inner unitStart untilPc repPos
    let (next, advanced, stop) ← sreRepeatRound unitStart untilPc current
    pure (units ++ next, units.any (·.1 ≠ repPos) || advanced, units.any (·.1 = repPos) || stop)

/-- The states after one and more repetitions. -/
def sreRepeatStates (unitStart untilPc : ℕ) :
    ℕ → List (ℕ × SreSlots) → SreM (List (List (ℕ × SreSlots)))
  | 0, _ => pure []
  | hardMax + 1, current => do
    let (next, advanced, stop) ← sreRepeatRound inner unitStart untilPc current
    if next.isEmpty then pure []
    else if !advanced || stop then pure [next]
    else do
      let rest ← sreRepeatStates unitStart untilPc hardMax next
      pure (next :: rest)

/-- The states a `REPEAT` goes on from, in their order. -/
def sreRepeatOrder (untilOpcode : ℤ) (minCount : ℕ) (states : List (List (ℕ × SreSlots))) :
    List (ℕ × SreSlots) :=
  if untilOpcode = SRE_OP_MAX_UNTIL then (states.drop minCount).reverse.flatMap List.reverse
  else (states.drop minCount).flatten

/-- The states behind the repetitions, the first one that matches on. -/
def sreRepeatCandidates (nextPc : ℕ) : List (ℕ × SreSlots) → SreM ℕ
  | [] => .fail
  | (pos, slots) :: candidates => do
    modifyMarks (SreMarkState.restoreSlots slots)
    match ← (inner.run false false nextPc pcLimit pos).outcome with
    | some result => pure result
    | none => sreRepeatCandidates nextPc candidates

/-- `REPEAT`. -/
def sreRepeat (pc cursor : ℕ) : SreM ℕ := do
  let skip ← .ofOption (sreReadUsize input.code (pc + 1))
  let minCount ← .ofOption (sreReadUsize input.code (pc + 2))
  let maxCountRaw ← .ofOption (sreReadUsize input.code (pc + 3))
  let untilPc := pc + 1 + skip
  let untilOpcode ← .ofOption input.code[untilPc]?
  if untilOpcode ≠ SRE_OP_MAX_UNTIL ∧ untilOpcode ≠ SRE_OP_MIN_UNTIL then .fail
  else do
    let hardMax := min maxCountRaw (input.text.length - cursor + 1)
    let marks ← getMarks
    recordEvent fun machine => .repeat held kept machine.marks.checkpoint
    let repetitions ←
      sreRepeatStates inner (pc + 4) untilPc hardMax [(cursor, marks.value)]
    if minCount > repetitions.length then do
      modifyMarks (SreMarkState.restoreSlots marks.value)
      .fail
    else
      match ← (sreRepeatCandidates inner pcLimit (untilPc + 1) (sreRepeatOrder untilOpcode minCount
          ([(cursor, marks.value)] :: repetitions))).outcome with
      | some result => pure result
      | none => do
        modifyMarks (SreMarkState.restoreSlots marks.value)
        .fail

/-- The loop over the opcodes.  Every opcode moves on, so that the words of the program are enough
steps. -/
def sreRunLoop : ℕ → ℕ → ℕ → SreM ℕ
  | 0, _, _ => .fail
  | steps + 1, pc, cursor =>
    if pcLimit ≤ pc then .fail
    else do
      let opcode ← .ofOption input.code[pc]?
      if opcode = SRE_OP_SUCCESS ∨ opcode = SRE_OP_MAX_UNTIL ∨ opcode = SRE_OP_MIN_UNTIL then
        pure cursor
      else if opcode = SRE_OP_FAILURE then .fail
      else if opcode = SRE_OP_BRANCH then do
        let marks ← getMarks
        sreBranch input inner held kept pcLimit marks.value cursor (pcLimit - pc) (pc + 1)
      else if opcode = SRE_OP_ASSERT ∨ opcode = SRE_OP_ASSERT_NOT then do
        let next ← sreAssert input inner held kept opcode pc cursor
        sreRunLoop steps next cursor
      else if opcode = SRE_OP_REPEAT then sreRepeat input inner held kept pcLimit pc cursor
      else if opcode = SRE_OP_REPEAT_ONE ∨ opcode = SRE_OP_MIN_REPEAT_ONE then
        sreRepeatOne input inner held kept pcLimit opcode pc cursor
      else do
        let (next, cursor) ← sreSimpleStep input sreCastU32 opcode pc cursor
        sreRunLoop steps next cursor

/-! ## `sre_collect_program_end_states` -/

/-- The loop of `BRANCH`. -/
def sreCollectBranch (base : SreSlots) (cursor : ℕ) : ℕ → ℕ → SreResults → SreM SreResults
  | 0, _, results => pure results
  | steps + 1, branch, results => do
    modifyMarks (SreMarkState.restoreSlots base)
    match sreReadUsize input.code branch with
    | none | some 0 => pure results
    | some (skip + 1) => do
      let results ← inner.collect (branch + 1) pcLimit cursor results
      if pcLimit ≤ branch + (skip + 1) then do
        modifyMarks (SreMarkState.restoreSlots base)
        pure results
      else sreCollectBranch base cursor steps (branch + (skip + 1)) results

/-- The attempts behind a construct from a list of states. -/
def sreCollectFrom (nextPc : ℕ) : List (ℕ × SreSlots) → SreResults → SreM SreResults
  | [], results => pure results
  | (pos, slots) :: states, results => do
    modifyMarks (SreMarkState.restoreSlots slots)
    let results ← inner.collect nextPc pcLimit pos results
    sreCollectFrom nextPc states results

/-- `ASSERT`: every way through the part is followed. -/
def sreCollectAssert (pc skip back cursor : ℕ) (results : SreResults) : SreM SreResults := do
  let marks ← getMarks
  let subResults ← inner.collect (pc + 3) (pc + 1 + skip) (cursor - back) []
  let results ← sreCollectFrom inner pcLimit (pc + 1 + skip)
    (subResults.map fun (_, slots) => (cursor, slots)) results
  modifyMarks (SreMarkState.restoreSlots marks.value)
  pure results

/-- `ASSERT_NOT`: whether the run goes on. -/
def sreCollectAssertNot (pc skip back cursor : ℕ) : SreM Bool := do
  let marks ← getMarks
  let subResults ← inner.collect (pc + 3) (pc + 1 + skip) (cursor - back) []
  modifyMarks (SreMarkState.restoreSlots marks.value)
  pure subResults.isEmpty

/-- `REPEAT`. -/
def sreCollectRepeat (pc cursor : ℕ) (results : SreResults) : SreM SreResults :=
  match sreReadUsize input.code (pc + 1), sreReadUsize input.code (pc + 2),
    sreReadUsize input.code (pc + 3) with
  | some skip, some minCount, some maxCountRaw =>
    let untilPc := pc + 1 + skip
    match input.code[untilPc]? with
    | none => pure results
    | some untilOpcode =>
      if untilOpcode ≠ SRE_OP_MAX_UNTIL ∧ untilOpcode ≠ SRE_OP_MIN_UNTIL then pure results
      else do
        let hardMax := min maxCountRaw (input.text.length - cursor + 1)
        let marks ← getMarks
        let repetitions ←
          sreRepeatStates inner (pc + 4) untilPc hardMax [(cursor, marks.value)]
        if minCount > repetitions.length then do
          modifyMarks (SreMarkState.restoreSlots marks.value)
          pure results
        else do
          let results ← sreCollectFrom inner pcLimit (untilPc + 1)
            (sreRepeatOrder untilOpcode minCount ([(cursor, marks.value)] :: repetitions)) results
          modifyMarks (SreMarkState.restoreSlots marks.value)
          pure results
  | _, _, _ => pure results

/-- The iterations of a `REPEAT_ONE`, with snapshots. -/
def sreCollectIterations (unitStart nextPc : ℕ) : ℕ → ℕ → SreM (List (ℕ × SreSlots))
  | 0, _ => pure []
  | hardMax + 1, repPos => do
    let marks ← getMarks
    match ← (inner.run false false unitStart nextPc repPos).outcome with
    | none => do
      modifyMarks (SreMarkState.restoreSlots marks.value)
      pure []
    | some nextPos =>
      if nextPos = repPos then do
        modifyMarks (SreMarkState.restoreSlots marks.value)
        pure []
      else do
        let marks' ← getMarks
        let rest ← sreCollectIterations unitStart nextPc hardMax nextPos
        pure ((nextPos, marks'.value) :: rest)

/-- `REPEAT_ONE` and `MIN_REPEAT_ONE`. -/
def sreCollectRepeatOne (opcode : ℤ) (pc cursor : ℕ) (results : SreResults) : SreM SreResults :=
  match sreReadUsize input.code (pc + 1), sreReadUsize input.code (pc + 2),
    sreReadUsize input.code (pc + 3) with
  | some skip, some minCount, some maxCountRaw => do
    let hardMax := min maxCountRaw (input.text.length - cursor)
    let marks ← getMarks
    let iterations ← sreCollectIterations inner (pc + 4) (pc + 1 + skip) hardMax cursor
    let states := (cursor, marks.value) :: iterations
    if minCount > iterations.length then do
      modifyMarks (SreMarkState.restoreSlots marks.value)
      pure results
    else do
      let candidates :=
        if opcode = SRE_OP_REPEAT_ONE then (states.drop minCount).reverse else states.drop minCount
      let results ← sreCollectFrom inner pcLimit (pc + 1 + skip) candidates results
      modifyMarks (SreMarkState.restoreSlots marks.value)
      pure results
  | _, _, _ => pure results

/-- The loop over the opcodes. -/
def sreCollectLoop : ℕ → ℕ → ℕ → SreResults → SreM SreResults
  | 0, _, _, results => pure results
  | steps + 1, pc, cursor, results =>
    if pcLimit ≤ pc then pure results
    else
      match input.code[pc]? with
      | none => pure results
      | some opcode =>
        if opcode = SRE_OP_SUCCESS ∨ opcode = SRE_OP_MAX_UNTIL ∨ opcode = SRE_OP_MIN_UNTIL then do
          let marks ← getMarks
          pure (sreRecordEndState cursor marks.value results)
        else if opcode = SRE_OP_FAILURE then pure results
        else if opcode = SRE_OP_BRANCH then do
          let marks ← getMarks
          sreCollectBranch input inner pcLimit marks.value cursor (pcLimit - pc) (pc + 1) results
        else if opcode = SRE_OP_ASSERT ∨ opcode = SRE_OP_ASSERT_NOT then
          match sreReadUsize input.code (pc + 1), sreReadUsize input.code (pc + 2) with
          | some skip, some back =>
            if cursor < back then pure results
            else if opcode = SRE_OP_ASSERT then
              sreCollectAssert inner pcLimit pc skip back cursor results
            else do
              if ← sreCollectAssertNot inner pc skip back cursor then
                sreCollectLoop steps (pc + 1 + skip) cursor results
              else pure results
          | _, _ => pure results
        else if opcode = SRE_OP_REPEAT then sreCollectRepeat input inner pcLimit pc cursor results
        else if opcode = SRE_OP_REPEAT_ONE ∨ opcode = SRE_OP_MIN_REPEAT_ONE then
          sreCollectRepeatOne input inner pcLimit opcode pc cursor results
        else do
          match ← (sreSimpleStep input sreReadU32 opcode pc cursor).outcome with
          | none => pure results
          | some (next, cursor) => sreCollectLoop steps next cursor results

end

/-! ## Depth -/

/-- Both functions with so many levels left; with none left they give up. -/
def sreRunner : ℕ → SreRunner
  | 0 => ⟨fun _ _ _ _ _ => .fail, fun _ _ _ results => pure results⟩
  | levels + 1 =>
    let inner := sreRunner levels
    { run := fun held kept pcStart pcLimit pos =>
        sreRunLoop input inner held kept pcLimit (pcLimit - pcStart) pcStart pos
      collect := fun pcStart pcLimit pos results =>
        sreCollectLoop input inner pcLimit (pcLimit - pcStart) pcStart pos results }

/-- `sre_run_program` at a depth, up to 512. -/
def sreRunProgram (pcStart pcLimit pos depth : ℕ) : SreM ℕ :=
  (sreRunner input (513 - depth)).run false false pcStart pcLimit pos

end

end Sre

end Pyrs
