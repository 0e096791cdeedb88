import Pyrs.Library.Association
import Pyrs.Model.Compiler.Expressions

/-!
# Running a call

The code of a call of `compiler/mod.rs` and the opcodes of `vm/vm_execution.rs` that it uses:
`LIST_APPEND`, `LIST_EXTEND`, the two dict opcodes, and the three calls.  The code is a list of
operations, each of which the compiler emits as the block of an expression or as one or two
instructions.  What the block of an expression computes is left to a `World`: it depends on what was
evaluated before, and an evaluation can raise.  The temporaries are fast locals of the frame, which
no other code writes.  At module level they are loaded by `LoadName`, whose inline cache `StoreFast`
does not touch.
-/

namespace Pyrs

namespace Calls

/-- An expression of a call, as it stands there. -/
inductive Event
  | callee (func : Expr)
  | argument (arg : CallArg)

/-- The expression of an event. -/
def Event.expr : Event → Expr
  | .callee func => func
  | .argument arg => arg.value

/-- What a call finds: how its expressions evaluate after what was evaluated before them, what the
values are as iterables, as mappings with string keys and as strings, and the matching entry that an
earlier run left in the inline cache at the load of a temporary. -/
structure World (V : Type) where
  eval : List Event → Event → Except String V
  elements : V → List V
  items : V → List (String × V)
  items_nodup : ∀ value, ((items value).map Prod.fst).Nodup
  str : String → V
  asStr : V → Option String
  asStr_str : ∀ text, asStr (str text) = some text
  cached : String → Option V

/-- How a call ends: its code is rejected or faults, an exception of a class is raised, or the
callee is called.  The last two carry what was evaluated until then. -/
inductive Outcome (V : Type)
  | failed (message : String)
  | raised (trace : List Event) (exception : String)
  | called (trace : List Event) (callee : V) (args : List V) (kwargs : List (String × V))

/-! ## The operations -/

/-- The operations of the code of a call. -/
inductive CallOp
  | eval (event : Event)
  | storeTemp (temp : String)
  | loadTemp (temp : String)
  | loadStr (text : String)
  | buildList
  | listAppend
  | listExtend
  | buildDict
  | dictSet
  | dictUpdate
  | callFunction (count : ℕ)
  | callFunctionKw (packed : ℕ)
  | callFunctionVar

/-- What the compiler emits for an operation. -/
def CallOp.emit (routines : Routines) : CallOp → CompileM Unit
  | .eval event => routines.compileExpr event.expr
  | .storeTemp temp => emitStoreName temp
  | .loadTemp temp => emitLoadName temp
  | .loadStr text => emitConst (.str text)
  | .buildList => Pyrs.emit .buildList (some 0)
  | .listAppend => Pyrs.emit .listAppend none
  | .listExtend => Pyrs.emit .listExtend none
  | .buildDict => Pyrs.emit .buildDict (some 0)
  | .dictSet => Pyrs.emit .dictSet none
  | .dictUpdate => Pyrs.emit .dictUpdate none
  | .callFunction count => Pyrs.emit .callFunction (some count)
  | .callFunctionKw packed => Pyrs.emit .callFunctionKw (some packed)
  | .callFunctionVar => Pyrs.emit .callFunctionVar none

/-- What the stack holds. -/
inductive Slot (V : Type)
  | value (value : V)
  | list (values : List V)
  | dict (entries : List (String × V))

/-- The stack, the temporaries and what was evaluated. -/
structure Machine (V : Type) where
  trace : List Event
  temps : String → Option V
  stack : List (Slot V)

section Step

variable {V : Type} (world : World V)

/-- `dict_set_value` on a dict with string keys. -/
def dictSetValue (key : String) (value : V) (entries : List (String × V)) : List (String × V) :=
  Association.store (· == ·) key value entries

/-- `apply_dict_stack_merge` with `reject_duplicates` off. -/
def applyDictStackMerge (incoming entries : List (String × V)) : List (String × V) :=
  incoming.foldl (fun entries item => dictSetValue item.1 item.2 entries) entries

/-- `decode_call_counts`. -/
def decodeCallCounts (arg : ℕ) : ℕ × ℕ :=
  (arg &&& 0xFFFF, arg >>> 16)

/-- The machine with one value more. -/
def Machine.push (machine : Machine V) (slot : Slot V) : Machine V :=
  { machine with stack := slot :: machine.stack }

/-- The keyword arguments on the stack, the last on top.  The class of both errors is the one that
`classify_runtime_error_message` finds for their message. -/
def popKwargs (trace : List Event) : ℕ → List (Slot V) → List (String × V) →
    Except (Outcome V) (List (String × V) × List (Slot V))
  | 0, stack, kwargs => pure (kwargs, stack)
  | count + 1, .value value :: .value name :: stack, kwargs =>
    match world.asStr name with
    | none => throw (.raised trace "TypeError")  -- keyword name must be string
    | some name =>
      if name ∈ kwargs.map Prod.fst then
        throw (.raised trace "RuntimeError")  -- duplicate keyword argument
      else popKwargs trace count stack ((name, value) :: kwargs)
  | _ + 1, _, _ => throw (.failed "stack underflow")

/-- The arguments of a call, from the top of the stack. -/
def popArgs : ℕ → List (Slot V) → List V → Except (Outcome V) (List V × List (Slot V))
  | 0, stack, args => pure (args, stack)
  | count + 1, .value value :: stack, args => popArgs count stack (value :: args)
  | _ + 1, _, _ => throw (.failed "stack underflow")

/-- Pops the arguments and the callee, and calls. -/
def popCall (trace : List Event) (posCount : ℕ) (kwargs : List (String × V))
    (stack : List (Slot V)) : Except (Outcome V) (Machine V) := do
  let (args, stack) ← popArgs posCount stack []
  match stack with
  | .value callee :: _ => throw (.called trace callee args kwargs)
  | _ => throw (.failed "stack underflow")

/-- What the load of a temporary finds. -/
def World.load (temps : String → Option V) (temp : String) : Option V :=
  (world.cached temp).or (temps temp)

/-- One operation.  A call ends the run. -/
def step (machine : Machine V) : CallOp → Except (Outcome V) (Machine V)
  | .eval event =>
    match world.eval machine.trace event with
    | .ok value => pure
      { machine with trace := machine.trace ++ [event], stack := .value value :: machine.stack }
    | .error exception => throw (.raised (machine.trace ++ [event]) exception)
  | .storeTemp temp =>
    match machine.stack with
    | .value value :: stack => pure
      { machine with temps := Function.update machine.temps temp (some value), stack := stack }
    | _ => throw (.failed "stack underflow")
  | .loadTemp temp =>
    match world.load machine.temps temp with
    | some value => pure (machine.push (.value value))
    | none => throw (.failed "unbound local")
  | .loadStr text => pure (machine.push (.value (world.str text)))
  | .buildList => pure (machine.push (.list []))
  | .listAppend =>
    match machine.stack with
    | .value value :: .list values :: stack =>
      pure { machine with stack := .list (values ++ [value]) :: stack }
    | _ => throw (.failed "list append expects list")
  | .listExtend =>
    match machine.stack with
    | .value other :: .list values :: stack =>
      pure { machine with stack := .list (values ++ world.elements other) :: stack }
    | _ => throw (.failed "list extend expects list")
  | .buildDict => pure (machine.push (.dict []))
  | .dictSet =>
    match machine.stack with
    | .value value :: .value key :: .dict entries :: stack =>
      match world.asStr key with
      | some key => pure { machine with stack := .dict (dictSetValue key value entries) :: stack }
      | none => throw (.failed "key is not a string")
    | _ => throw (.failed "dict set expects dict")
  | .dictUpdate =>
    match machine.stack with
    | .value update :: .dict entries :: stack =>
      pure { machine with
        stack := .dict (applyDictStackMerge (world.items update) entries) :: stack }
    | _ => throw (.failed "dict update expects dict")
  | .callFunction count => popCall machine.trace count [] machine.stack
  | .callFunctionKw packed => do
    let (posCount, kwCount) := decodeCallCounts packed
    let (kwargs, stack) ← popKwargs world machine.trace kwCount machine.stack []
    popCall machine.trace posCount kwargs stack
  | .callFunctionVar =>
    match machine.stack with
    | .dict kwargs :: .list args :: .value callee :: _ =>
      if (kwargs.map Prod.fst).Nodup then throw (.called machine.trace callee args kwargs)
      else throw (.raised machine.trace "RuntimeError")  -- duplicate keyword argument
    | _ => throw (.failed "call args must be list")

/-- Instructions one after the other. -/
def exec (machine : Machine V) (code : List CallOp) : Except (Outcome V) (Machine V) :=
  code.foldlM (step world) machine

/-! ## The code of a call -/

/-- The code that evaluates an argument into its temporary. -/
def tempCode (arg : CallArg) (temp : String) : List CallOp :=
  [.eval (.argument arg), .storeTemp temp]

/-- Adds a positional argument to the list. -/
def positionalCode : TempArg → List CallOp
  | .positional temp => [.loadTemp temp, .listAppend]
  | .star temp => [.loadTemp temp, .listExtend]
  | .keyword _ _ | .doubleStar _ => []

/-- Adds a keyword argument to the dict. -/
def keywordCode : TempArg → List CallOp
  | .keyword name temp => [.loadStr name, .loadTemp temp, .dictSet]
  | .doubleStar temp => [.loadTemp temp, .dictUpdate]
  | .positional _ | .star _ => []

/-- The code behind the evaluations of a call with unpacking. -/
def gatherCode (temps : List TempArg) : List CallOp :=
  .buildList :: temps.flatMap positionalCode ++
    (.buildDict :: temps.flatMap keywordCode ++ [.callFunctionVar])

/-- A call with unpacking whose arguments have these temporaries. -/
def starredCode (args : List (CallArg × String)) : List CallOp :=
  args.flatMap (fun arg => tempCode arg.1 arg.2) ++
    gatherCode (args.map fun arg => arg.1.withTemp arg.2)

/-- Evaluates an argument of a plain call. -/
def argCode : CallArg → List CallOp
  | .positional value => [.eval (.argument (.positional value))]
  | .keyword name value => [.loadStr name, .eval (.argument (.keyword name value))]
  | .star _ | .doubleStar _ => []

/-- The number of positional arguments. -/
def posCount (args : List CallArg) : ℕ :=
  args.countP fun arg => !arg.isKeyword && !arg.isStarred

/-- The number of keyword arguments. -/
def kwCount (args : List CallArg) : ℕ :=
  args.countP (·.isKeyword)

/-- A call without unpacking, when its counts can be packed. -/
def plainCode (args : List CallArg) : Option (List CallOp) :=
  if 0 < kwCount args then
    if posCount args > 0xFFFF ∨ kwCount args > 0xFFFF then none
    else some (args.flatMap argCode ++ [.callFunctionKw ((kwCount args <<< 16) ||| posCount args)])
  else some (args.flatMap argCode ++ [.callFunction (posCount args)])

/-- The code of a call, with the temporary each argument has if it needs one. -/
def callCode (func : Expr) (args : List (CallArg × String)) : Option (List CallOp) :=
  ((if args.any (·.1.isStarred) then some (starredCode args) else plainCode (args.map Prod.fst))).map
    (CallOp.eval (.callee func) :: ·)

/-- Compiles and runs a call. -/
def runCall (func : Expr) (args : List (CallArg × String)) : Outcome V :=
  match callCode func args with
  | none => .failed "too many call arguments"
  | some code =>
    match exec world ⟨[], fun _ => none, []⟩ code with
    | .error outcome => outcome
    | .ok _ => .failed "no call"

end Step

/-! ## Calls as Python has them -/

section Python

variable {V : Type} (world : World V)

/-- An argument that provides keywords. -/
def ofKeywords : CallArg → Bool
  | .keyword _ _ | .doubleStar _ => true
  | .positional _ | .star _ => false

/-- The order of evaluation: an iterable is evaluated before the keyword arguments and mappings,
also where it stands behind them. -/
def pythonOrder (args : List CallArg) : List CallArg :=
  args.filter (!ofKeywords ·) ++ args.filter (ofKeywords ·)

/-- Evaluates expressions one after the other. -/
def evalAll (trace : List Event) : List Event → Except (Outcome V) (List V)
  | [] => pure []
  | event :: events =>
    match world.eval trace event with
    | .error exception => throw (.raised (trace ++ [event]) exception)
    | .ok value => (value :: ·) <$> evalAll (trace ++ [event]) events

/-- What an argument adds to the positional arguments. -/
def argsOf : CallArg × V → List V
  | (.positional _, value) => [value]
  | (.star _, value) => world.elements value
  | _ => []

/-- What an argument adds to the keyword arguments. -/
def kwargsOf : CallArg × V → List (String × V)
  | (.keyword name _, value) => [(name, value)]
  | (.doubleStar _, value) => world.items value
  | _ => []

/-- What a call evaluates, in the order of its text. -/
def eventsOf (func : Expr) (args : List CallArg) : List Event :=
  .callee func :: args.map .argument

/-- The call in Python. -/
def pythonCall (func : Expr) (args : List CallArg) : Outcome V :=
  match evalAll world [] (eventsOf func (pythonOrder args)) with
  | .error outcome => outcome
  | .ok [] => .failed "no callee"
  | .ok (callee :: values) =>
    let valued := (pythonOrder args).zip values
    let kwargs := valued.flatMap (kwargsOf world)
    if (kwargs.map Prod.fst).Nodup then
      .called (eventsOf func (pythonOrder args)) callee (valued.flatMap (argsOf world)) kwargs
    else .raised (eventsOf func (pythonOrder args)) "TypeError"

end Python

end Calls

end Pyrs
