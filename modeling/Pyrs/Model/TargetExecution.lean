import Pyrs.Model.Compiler.Expressions

/-!
# What the code of an assignment does

The instructions that `compile_store_target_from_stack` and `compile_aug_assign` of
`compiler/mod.rs` emit, one operation for each group of them that belongs together, and what
`execute_instruction` of `vm/vm_execution.rs` does with the stack at each.  A value is told apart by
where it comes from, and what can be observed of a run is its list of evaluations, reads and stores.
Runs in which nothing raises are followed.
-/

namespace Pyrs

/-! ## Values and events -/

/-- What unpacking takes out of a value: the item at an index, the list of those between the first
and the last ones, or the item so many places from the end. -/
inductive Part
  | item (index : ℕ)
  | rest (before after : ℕ)
  | fromEnd (distance : ℕ)
  deriving DecidableEq, Repr

/-- A value by its origin. -/
inductive Origin
  | result (expr : Expr)
  | variable (name : String)
  | attribute (object : Origin) (name : String)
  | element (container index : Origin)
  | combined (op : AugOp) (left right : Origin)
  | part (part : Part) (value : Origin)

/-- What the surroundings of an assignment can notice. -/
inductive AssignEvent
  | evaluate (expr : Expr)
  | loadVariable (name : String)
  | loadAttribute (object : Origin) (name : String)
  | loadElement (container index : Origin)
  | combine (op : AugOp) (left right : Origin)
  | storeVariable (name : String) (value : Origin)
  | storeAttribute (object : Origin) (name : String) (value : Origin)
  | storeElement (container index value : Origin)

/-! ## Unpacking -/

/-- What `UnpackSequence` pushes, the first one at the bottom. -/
def unpackSequenceItems (count : ℕ) (value : Origin) : List Origin :=
  (List.range count).map fun index => .part (.item index) value

/-- What `UnpackEx` pushes, the first one at the bottom. -/
def unpackExItems (before after : ℕ) (value : Origin) : List Origin :=
  unpackSequenceItems before value ++ .part (.rest before after) value ::
    (List.range after).map fun index => .part (.fromEnd (after - index)) value

/-- What the instruction of `emit_unpack` pushes: `UnpackEx` reads its counts back from the two
halves of its argument. -/
def unpackedItems (items : List AssignTarget) (value : Origin) : List Origin :=
  match items.findIdx? (·.isStarred) with
  | some starIdx =>
    let packed := packUnpackCounts starIdx (items.length - starIdx - 1)
    unpackExItems (packed % 2 ^ 16) (packed >>> 16) value
  | none => unpackSequenceItems items.length value

/-! ## Operations -/

/-- The steps of an assignment.  A temporary is known by its place among those in use, the latest
first; `fresh` and `release` only change which ones are. -/
inductive TargetOp
  | fresh (kind : String)
  | release
  | evaluate (expr : Expr)
  | storeTemp (place : ℕ)
  | loadTemp (place : ℕ)
  | deleteTemp (place : ℕ)
  | loadVariable (name : String)
  | storeVariable (name : String)
  | loadAttr (name : String)
  | storeAttr (name : String)
  | subscript
  | storeSubscript
  | unpack (items : List AssignTarget)
  | dupTop
  | augment (op : AugOp)

/-- The instructions of a step, with the names of the temporaries in use. -/
def TargetOp.assemble (routines : Routines) (temps : List String) :
    TargetOp → CompileM (List String)
  | .fresh kind => do
    let temp ← freshTemp kind
    pure (temp :: temps)
  | .release => pure temps.tail
  | .evaluate expr => do
    routines.compileExpr expr
    pure temps
  | .storeTemp place => do
    emitStoreName (temps.getD place "")
    pure temps
  | .loadTemp place => do
    emitLoadName (temps.getD place "")
    pure temps
  | .deleteTemp place => do
    emitDeleteName (temps.getD place "")
    pure temps
  | .loadVariable name => do
    emitLoadName name
    pure temps
  | .storeVariable name => do
    emitStoreNameScoped name
    pure temps
  | .loadAttr name => do
    emitLoadAttr (← mangledName name)
    pure temps
  | .storeAttr name => do
    let idx ← addName (← mangledName name)
    emit .storeAttr (some idx)
    pure temps
  | .subscript => do
    emit .subscript none
    pure temps
  | .storeSubscript => do
    emit .storeSubscript none
    emit .popTop none
    pure temps
  | .unpack items => do
    emitUnpack items
    pure temps
  | .dupTop => do
    emit .dupTop none
    pure temps
  | .augment op => do
    emit (augOpcode op) none
    pure temps

/-- The instructions of a list of steps. -/
def assemble (routines : Routines) (temps : List String) (ops : List TargetOp) :
    CompileM (List String) :=
  ops.foldlM (TargetOp.assemble routines) temps

/-! ## Execution -/

/-- A run in progress.  The top of the stack comes first; a temporary may hold a value.  At module
level a temporary is loaded by `LoadName`, whose inline cache `StoreFast` does not touch: `entries`
are the matching entries that an earlier run left at the loads of temporaries to come. -/
structure TargetState where
  stack : List Origin
  temps : List (Option Origin)
  trace : List AssignEvent
  entries : ℕ → Option Origin

def TargetState.push (state : TargetState) (value : Origin) : TargetState :=
  { state with stack := value :: state.stack }

def TargetState.log (state : TargetState) (event : AssignEvent) : TargetState :=
  { state with trace := state.trace ++ [event] }

/-- What a step does; nothing where the stack has too few values or a temporary is not set. -/
def TargetOp.execute (state : TargetState) : TargetOp → Option TargetState
  | .fresh _ => some { state with temps := none :: state.temps }
  | .release => some { state with temps := state.temps.tail }
  | .evaluate expr => some ((state.log (.evaluate expr)).push (.result expr))
  | .storeTemp place =>
    match state.stack with
    | value :: stack =>
      some { state with stack := stack, temps := state.temps.set place (some value) }
    | [] => none
  | .loadTemp place => do
    let value ← (state.entries 0).or (state.temps.getD place none)
    some ({ state with entries := fun load => state.entries (load + 1) }.push value)
  | .deleteTemp place => do
    let _ ← state.temps.getD place none
    some { state with temps := state.temps.set place none }
  | .loadVariable name => some ((state.log (.loadVariable name)).push (.variable name))
  | .storeVariable name =>
    match state.stack with
    | value :: stack => some ({ state with stack := stack }.log (.storeVariable name value))
    | [] => none
  | .loadAttr name =>
    match state.stack with
    | object :: stack =>
      some (({ state with stack := stack }.log (.loadAttribute object name)).push
        (.attribute object name))
    | [] => none
  | .storeAttr name =>
    match state.stack with
    | value :: object :: stack =>
      some ({ state with stack := stack }.log (.storeAttribute object name value))
    | _ => none
  | .subscript =>
    match state.stack with
    | index :: container :: stack =>
      some (({ state with stack := stack }.log (.loadElement container index)).push
        (.element container index))
    | _ => none
  | .storeSubscript =>
    match state.stack with
    | value :: index :: container :: stack =>
      some ({ state with stack := stack }.log (.storeElement container index value))
    | _ => none
  | .unpack items =>
    match state.stack with
    | value :: stack => some { state with stack := (unpackedItems items value).reverse ++ stack }
    | [] => none
  | .dupTop =>
    match state.stack with
    | value :: stack => some { state with stack := value :: value :: stack }
    | [] => none
  | .augment op =>
    match state.stack with
    | right :: left :: stack =>
      some (({ state with stack := stack }.log (.combine op left right)).push
        (.combined op left right))
    | _ => none

/-- The run of a list of steps. -/
def execute (ops : List TargetOp) (state : TargetState) : Option TargetState :=
  ops.foldlM TargetOp.execute state

end Pyrs
