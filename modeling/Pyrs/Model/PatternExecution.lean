import Pyrs.Library.StructuredRuns
import Pyrs.Model.Compiler.Patterns
import Pyrs.Model.Numbers

/-!
# What the code of a pattern does

The instructions that `compile_pattern_test` and `compile_pattern_bindings` of `compiler/mod.rs`
emit for the patterns without classes, one step for each group of them that belongs together, and
what `execute_instruction` of `vm/vm_execution.rs` does with the stack at each.  Where an
instruction would raise, or would do what the code of patterns has no use for, a step has no
outcome.
-/

namespace Pyrs

open StructuredCode

/-! ## Values -/

/-- The values that the code of a pattern meets.  A dict is its entries in order. -/
inductive MatchValue
  | scalar (value : Constant)
  | list (items : List MatchValue)
  | tuple (items : List MatchValue)
  | dict (entries : List (MatchValue × MatchValue))
  | slice (lower upper : Option ℤ)
  | builtin (name : String)

/-- The entries of a mapping. -/
abbrev MatchEntries := List (MatchValue × MatchValue)

/-- The number of a constant. -/
def Constant.number : Constant → Option Number
  | .bool value => some (.bool value)
  | .int value => some (.int (Int64.ofInt value))
  | .bigInt value => some (.bigInt value)
  | .float bits => some (.float ⟨bits⟩)
  | .none | .str _ => Option.none

/-- The equality of values that are no containers. -/
def Constant.valueEq : Constant → Constant → Bool
  | .none, .none => true
  | .str left, .str right => left == right
  | .int left, .int right => left == right
  | left, right =>
    match left.number, right.number with
    | some left, some right => left.eq right
    | _, _ => false

/-- `value_key_equal` of a key and of one that is no container. -/
def MatchValue.keyEqual (key : MatchValue) (value : Constant) : Bool :=
  match key with
  | .scalar key =>
    key.valueEq value || match key, value with
      | .float key, .float value => floatKeyEqual ⟨key⟩ ⟨value⟩
      | _, _ => false
  | _ => false

/-- The entry of a key in a dict. -/
def findEntry (entries : MatchEntries) (key : Constant) : Option (MatchValue × MatchValue) :=
  entries.find? fun entry => entry.1.keyEqual key

/-- The entries of a dict without that of a key. -/
def removeEntry (entries : MatchEntries) (key : Constant) : MatchEntries :=
  entries.eraseP fun entry => entry.1.keyEqual key

/-! ## Items and slices -/

/-- The position that an index stands for: from the end when it is negative. -/
def resolveIndex (length : ℕ) (index : ℤ) : Option ℕ :=
  let index := if index < 0 then index + length else index
  if index < 0 ∨ length ≤ index then none else some index.toNat

/-- A bound of `slice_indices` for the step one. -/
def sliceBound (length : ℕ) (bound : ℤ) : ℕ :=
  let bound := if bound < 0 then bound + length else bound
  if bound < 0 then 0 else min bound.toNat length

/-- The items at `slice_indices` for the step one. -/
def sliceItems (items : List MatchValue) (lower upper : Option ℤ) : List MatchValue :=
  let start := sliceBound items.length (lower.getD 0)
  let stop := sliceBound items.length (upper.getD items.length)
  (items.drop start).take (stop - start)

/-- `value_to_optional_index`. -/
def optionalIndex : MatchValue → Option (Option ℤ)
  | .scalar .none => some none
  | .scalar (.int value) => some (some value)
  | _ => none

/-- `getitem_value`. -/
def getItemValue (value index : MatchValue) : Option MatchValue :=
  match value, index with
  | .list items, .scalar (.int index) | .tuple items, .scalar (.int index) =>
    (resolveIndex items.length index).bind (items[·]?)
  | .list items, .slice lower upper => some (.list (sliceItems items lower upper))
  | .tuple items, .slice lower upper => some (.tuple (sliceItems items lower upper))
  | .dict entries, .scalar key => (findEntry entries key).map (·.2)
  | _, _ => none

/-! ## Comparisons and calls -/

/-- `CompareEq`; two containers are not compared. -/
def compareEqValues : MatchValue → MatchValue → Option Bool
  | .scalar left, .scalar right => some (left.valueEq right)
  | .scalar _, _ | _, .scalar _ => some false
  | _, _ => none

/-- `CompareGe`, of lengths. -/
def compareGeValues : MatchValue → MatchValue → Option Bool
  | .scalar (.int left), .scalar (.int right) => some (decide (right ≤ left))
  | _, _ => none

/-- `CompareIn`, for a dict. -/
def compareInValues : MatchValue → MatchValue → Option Bool
  | .scalar key, .dict entries => some (findEntry entries key).isSome
  | _, _ => none

/-- Whether the class of a value is the one of a builtin name. -/
def MatchValue.hasType (value : MatchValue) (name : String) : Bool :=
  match value with
  | .list _ => name == "list"
  | .tuple _ => name == "tuple"
  | .dict _ => name == "dict"
  | _ => false

/-- `isinstance`, for the builtin types. -/
def isInstance (value : MatchValue) : MatchValue → Option Bool
  | .builtin name => some (value.hasType name)
  | .tuple [.builtin name, .builtin name'] => some (value.hasType name || value.hasType name')
  | _ => none

/-- The builtin functions that the code of patterns calls. -/
def callBuiltin (function : String) (args : List MatchValue) : Option MatchValue :=
  match function, args with
  | "isinstance", [value, types] => (isInstance value types).map fun b => .scalar (.bool b)
  | "len", [.list items] | "len", [.tuple items] => some (.scalar (.int items.length))
  | "list", [.list items] | "list", [.tuple items] => some (.list items)
  | "dict", [.dict entries] => some (.dict entries)
  | _, _ => none

/-- The builtin names that the code of patterns reads. -/
def matchBuiltins : List String := ["list", "tuple", "dict", "len", "isinstance"]

/-- The value of a literal: a constant or a negated number. -/
def Expr.literalValue : Expr → Option Constant
  | .constant value => some value
  | .unary .neg (.constant (.int value)) => some (.int (-value))
  | .unary .neg (.constant (.bigInt value)) => some (.bigInt (-value))
  | .unary .neg (.constant (.float bits)) => some (.float (bits ^^^ 9223372036854775808))
  | _ => none

/-! ## Steps -/

/-- The steps of the code of a pattern.  A temporary is known by its place among those in use, the
latest first; `fresh` and `release` only change which ones are. -/
inductive PatternStep
  | fresh (kind : String)
  | release
  | storeTemp (place : ℕ)
  | loadTemp (place : ℕ)
  | loadVariable (name : String)
  | storeVariable (name : String)
  | const (value : Constant)
  | evaluate (key : Expr)
  | subscript
  | buildSlice
  | buildTuple (count : ℕ)
  | call (count : ℕ)
  | compareEq
  | compareGe
  | compareIn
  | deleteItem (place : ℕ) (key : Expr)
  | dupTop
  | popTop
  | branch (opcode : Opcode)

/-- The targets of the jumps of a pattern. -/
inductive PatternLabel
  | fail | done | next
  deriving DecidableEq, Repr

/-- The code of a pattern, over its labels. -/
abbrev PatternCode := SCode PatternStep PatternLabel

/-- The instructions of a step, with the names of the temporaries in use. -/
def PatternStep.assemble (routines : Routines) (temps : List String) :
    PatternStep → CompileM (List String)
  | .fresh kind => do
    let temp ← freshTemp kind
    pure (temp :: temps)
  | .release => pure temps.tail
  | .storeTemp place => do
    emitStoreName (temps.getD place "")
    pure temps
  | .loadTemp place => do
    emitLoadName (temps.getD place "")
    pure temps
  | .loadVariable name => do
    emitLoadName name
    pure temps
  | .storeVariable name => do
    emitStoreNameScoped name
    pure temps
  | .const value => do
    emitConst (constantToValue value)
    pure temps
  | .evaluate key => do
    routines.compileExpr key
    pure temps
  | .subscript => do
    emit .subscript none
    pure temps
  | .buildSlice => do
    emit .buildSlice (some 3)
    pure temps
  | .buildTuple count => do
    emit .buildTuple (some count)
    pure temps
  | .call count => do
    emit .callFunction (some count)
    pure temps
  | .compareEq => do
    emit .compareEq none
    pure temps
  | .compareGe => do
    emit .compareGe none
    pure temps
  | .compareIn => do
    emit .compareIn none
    pure temps
  | .deleteItem place key => do
    emitLoadName (temps.getD place "")
    routines.compileExpr key
    emit .deleteSubscript none
    pure temps
  | .dupTop => do
    emit .dupTop none
    pure temps
  | .popTop => do
    emit .popTop none
    pure temps
  | .branch opcode => do
    emit opcode none
    pure temps

/-- The instruction of a step that branches. -/
def PatternStep.branchOpcode : PatternStep → Opcode
  | .branch opcode => opcode
  | _ => .jump

/-- The jumps to each label that are still to be patched. -/
abbrev PendingJumps := PatternLabel → List ℕ

/-- No jump waits for its target. -/
def noJumps : PendingJumps := fun _ => []

/-- Jumps that wait for one target. -/
def jumpsTo (label : PatternLabel) (jumps : List ℕ) : PendingJumps :=
  fun label' => if label' = label then jumps else []

/-- The instructions of the code of a pattern. -/
def assemblePattern (routines : Routines) :
    PatternCode → List String → CompileM (List String × PendingJumps)
  | .nil, temps => pure (temps, noJumps)
  | .op step, temps => do
    let temps ← step.assemble routines temps
    pure (temps, noJumps)
  | .br label step, temps => do
    let jump ← emitJump step.branchOpcode
    pure (temps, jumpsTo label [jump])
  | .seq first second, temps => do
    let (temps, jumps) ← assemblePattern routines first temps
    let (temps, jumps') ← assemblePattern routines second temps
    pure (temps, fun label => jumps label ++ jumps' label)
  | .block label body, temps => do
    let (temps, jumps) ← assemblePattern routines body temps
    patchJumps (jumps label) (← currentIp)
    pure (temps, Function.update jumps label [])
  | .loop label body, temps => do
    let start ← currentIp
    let (temps, jumps) ← assemblePattern routines body temps
    patchJumps (jumps label) start
    pure (temps, Function.update jumps label [])

/-! ## Execution -/

/-- A run in progress.  The top of the stack comes first; a temporary may hold a value.  At module
level a temporary is loaded by `LoadName`, whose inline cache `StoreFast` does not touch: `entries`
are the matching entries that an earlier run left at the loads of temporaries to come. -/
structure PatternState where
  stack : List MatchValue
  temps : List (Option MatchValue)
  vars : String → Option MatchValue
  entries : ℕ → Option MatchValue

namespace PatternState

variable (state : PatternState)

/-- A value is pushed. -/
def push (value : MatchValue) : PatternState :=
  { state with stack := value :: state.stack }

/-- A builtin name stands for itself where no variable hides it. -/
def load (name : String) : Option MatchValue :=
  (state.vars name).or (if name ∈ matchBuiltins then some (.builtin name) else none)

/-- The value of a temporary. -/
def temp (place : ℕ) : Option MatchValue :=
  state.temps.getD place none

/-- The load of a temporary, with the cached value if there is one. -/
def loadTemp (place : ℕ) : Option (MatchValue × PatternState) :=
  ((state.entries 0).or (state.temp place)).map fun value =>
    (value, { state with entries := fun load => state.entries (load + 1) })

/-- Replaces the two topmost values. -/
def combine (operation : MatchValue → MatchValue → Option MatchValue) : Option PatternState :=
  match state.stack with
  | right :: left :: stack =>
    (operation left right).map fun value => { state with stack := value :: stack }
  | _ => none

/-- `CallFunction`: the function is below its arguments. -/
def call (count : ℕ) : Option PatternState :=
  match state.stack.drop count with
  | .builtin function :: stack =>
    (callBuiltin function (state.stack.take count).reverse).map fun value =>
      { state with stack := value :: stack }
  | _ => none

end PatternState

/-- What a step does.  The dict of which `deleteItem` deletes a key is the copy that the temporary
alone refers to, so that it changes the value of the temporary; a cached dict is another one. -/
def PatternStep.execute (state : PatternState) : PatternStep → Option PatternState
  | .fresh _ => some { state with temps := none :: state.temps }
  | .release => some { state with temps := state.temps.tail }
  | .storeTemp place =>
    match state.stack with
    | value :: stack =>
      some { state with stack := stack, temps := state.temps.set place (some value) }
    | [] => none
  | .loadTemp place => (state.loadTemp place).map fun (value, state) => state.push value
  | .loadVariable name => (state.load name).map state.push
  | .storeVariable name =>
    match state.stack with
    | value :: stack =>
      some { state with
        stack := stack, vars := Function.update state.vars name (some value) }
    | [] => none
  | .const value => some (state.push (.scalar value))
  | .evaluate key => key.literalValue.map fun value => state.push (.scalar value)
  | .subscript => state.combine getItemValue
  | .buildSlice =>
    match state.stack with
    | .scalar .none :: upper :: lower :: stack => do
      let upper ← optionalIndex upper
      let lower ← optionalIndex lower
      some { state with stack := .slice lower upper :: stack }
    | _ => none
  | .buildTuple count =>
    if count ≤ state.stack.length then
      some { state with
        stack := .tuple (state.stack.take count).reverse :: state.stack.drop count }
    else none
  | .call count => state.call count
  | .compareEq =>
    state.combine fun left right => (compareEqValues left right).map fun b => .scalar (.bool b)
  | .compareGe =>
    state.combine fun left right => (compareGeValues left right).map fun b => .scalar (.bool b)
  | .compareIn =>
    state.combine fun left right => (compareInValues left right).map fun b => .scalar (.bool b)
  | .deleteItem place key =>
    match state.loadTemp place, key.literalValue with
    | some (.dict entries, after), some key =>
      if (findEntry entries key).isSome then
        match state.entries 0 with
        | some _ => some after
        | none => some { after with
          temps := state.temps.set place (some (.dict (removeEntry entries key))) }
      else none
    | _, _ => none
  | .dupTop =>
    match state.stack with
    | value :: stack => some { state with stack := value :: value :: stack }
    | [] => none
  | .popTop =>
    match state.stack with
    | _ :: stack => some { state with stack := stack }
    | [] => none
  | .branch _ => none

/-- Whether a jump is taken; the conditional ones pop a boolean. -/
def PatternStep.branches (step : PatternStep) (state : PatternState) :
    Option (Bool × PatternState) :=
  match step.branchOpcode, state.stack with
  | .jump, _ => some (true, state)
  | .jumpIfFalse, .scalar (.bool b) :: stack => some (!b, { state with stack := stack })
  | .jumpIfTrue, .scalar (.bool b) :: stack => some (b, { state with stack := stack })
  | _, _ => none

/-- The run of the code of a pattern. -/
def PatternState.run (state : PatternState) (code : PatternCode) :
    Option (Option PatternLabel × PatternState) :=
  code.run (fun step state => step.execute state) PatternStep.branches state

end Pyrs
