import Pyrs.Model.Bytecode

/-!
# Argument binding

`bind_arguments` and `apply_bindings` of `vm/mod.rs`, and the two ways in which
`push_function_call_from_obj` of `vm/vm_execution.rs` fills the local variables of a frame.  The
tracing that environment variables switch on is left out, and so is what the frame holds besides its
variables.
-/

namespace Pyrs

/-! ## Functions and frames -/

/-- What a call puts into a variable: a value, or the object that collects the surplus. -/
inductive Argument (V : Type)
  | value (value : V)
  | tuple (items : List V)
  | dict (entries : List (String × V))

/-- A function as far as a call binds its arguments.  `qualname` and `ownerQualname` are what its
dictionary and its owner class hold for error messages. -/
structure FunctionObject (V : Type) where
  code : CodeObject
  defaults : List V
  kwonlyDefaults : List (String × V)
  qualname : Option String
  ownerQualname : Option String

/-- The arguments by the kinds of parameters. -/
structure BoundArguments (V : Type) where
  posonly : List V
  positional : List V
  kwonly : List V
  vararg : Option (List V)
  kwarg : Option (List (String × V))

/-- The variables of a frame: fast locals by the index of their name, cells, and the others. -/
structure CallFrame (V : Type) where
  fastLocals : List (Option (Argument V))
  cells : List (Option (Argument V))
  locals : List (String × Argument V)

/-! ## Layout of a code object -/

namespace CodeObject

/-- `name_to_index` after `rebuild_layout_indexes`: a later name takes the place of an equal one. -/
def nameToIndex (code : CodeObject) (name : String) : Option Nat :=
  code.names.zipIdx.reverse.lookup name

/-- `cellvar_to_index`. -/
def cellvarToIndex (code : CodeObject) (name : String) : Option Nat :=
  code.cellvars.zipIdx.reverse.lookup name

/-- The parameters that positional arguments reach. -/
def positionalParams (code : CodeObject) : List String :=
  code.posonlyParams ++ code.params

/-- The fast local that an instruction needs. -/
def fastLocalOf (instr : Instruction) : Option Nat :=
  match instr.opcode with
  | .loadFast | .storeFast => instr.arg
  | _ => none

/-- `fast_local_count`: the fast locals of the instructions and of the positional parameters. -/
def fastLocalCount (code : CodeObject) : Nat :=
  (code.instructions.filterMap fastLocalOf ++
    code.positionalParams.filterMap code.nameToIndex).foldl (fun count idx => max count (idx + 1)) 0

/-- `plain_positional_arity`. -/
def plainPositionalArity (code : CodeObject) : Option Nat :=
  if code.kwonlyParams.isEmpty && code.vararg.isNone && code.kwarg.isNone then
    some (code.posonlyParams.length + code.params.length)
  else none

end CodeObject

section Binding

variable {V : Type}

/-- `plain_positional_call_arity`. -/
def FunctionObject.plainPositionalCallArity (func : FunctionObject V) : Option Nat :=
  if func.defaults.isEmpty && func.kwonlyDefaults.isEmpty then func.code.plainPositionalArity
  else none

/-! ## Messages -/

/-- `function_name_for_argument_errors`. -/
def functionNameForArgumentErrors (func : FunctionObject V) : String :=
  match func.qualname, func.ownerQualname with
  | some qualname, _ => qualname
  | none, some owner => s!"{owner}.{func.code.name}"
  | none, none => func.code.name

def formatMissingPositionalArgumentsError (functionName : String) (missing : List String) : String :=
  match missing with
  | [] => s!"{functionName}() missing required positional argument"
  | [name] => s!"{functionName}() missing 1 required positional argument: '{name}'"
  | [first, second] =>
    s!"{functionName}() missing 2 required positional arguments: '{first}' and '{second}'"
  | names =>
    let quoted := names.map fun name => s!"'{name}'"
    let front := ", ".intercalate quoted.dropLast
    let tail := quoted.getLastD ""
    let count := names.length
    s!"{functionName}() missing {count} required positional arguments: {front}, and {tail}"

def formatTooManyPositionalArgumentsError (functionName : String)
    (minExpected maxExpected given : Nat) : String :=
  let givenVerb := if given = 1 then "was" else "were"
  if minExpected = maxExpected then
    let argWord := if maxExpected = 1 then "argument" else "arguments"
    s!"{functionName}() takes {maxExpected} positional {argWord} but {given} {givenVerb} given"
  else
    s!"{functionName}() takes from {minExpected} to {maxExpected} positional arguments but " ++
      s!"{given} {givenVerb} given"

/-- Two values for one parameter. -/
def multipleValuesError (functionName name : String) : String :=
  s!"{functionName}() got multiple values for argument '{name}'"

/-- The message for a keyword without a parameter. -/
def unexpectedKeywordError (functionName name : String) : String :=
  s!"{functionName}() got an unexpected keyword argument '{name}'"

/-! ## Binding -/

/-- The path of `bind_arguments` for plain positional calls. -/
def bindPlainPositional (func : FunctionObject V) (positional : List V) :
    Except String (BoundArguments V) :=
  let functionName := functionNameForArgumentErrors func
  let posonlyLen := func.code.posonlyParams.length
  let totalPositional := posonlyLen + func.code.params.length
  if positional.length < totalPositional then
    .error (formatMissingPositionalArgumentsError functionName
      (func.code.positionalParams.drop positional.length))
  else if totalPositional < positional.length then
    .error (formatTooManyPositionalArgumentsError functionName totalPositional totalPositional
      positional.length)
  else .ok ⟨positional.take posonlyLen, positional.drop posonlyLen, [], none, none⟩

/-- The keyword arguments of the order, and behind them the rest of the map. -/
def takeInOrder (kwargs : List (String × V)) : List String → List (String × V)
  | [] => kwargs
  | name :: order =>
    match kwargs.lookup name with
    | some value => (name, value) :: takeInOrder (kwargs.filter (·.1 ≠ name)) order
    | none => takeInOrder kwargs order

/-- The keyword arguments in the order in which they are bound. -/
def orderedKwargs (kwargs : List (String × V)) (kwargsOrder : Option (List String)) :
    List (String × V) :=
  takeInOrder kwargs (kwargsOrder.getD [])

/-- What the loop over the keyword arguments fills. -/
structure KeywordState (V : Type) where
  bound : List (Option V)
  kwonly : List (String × V)
  extra : List (String × V)

/-- A keyword argument that no parameter takes. -/
def bindExtraKeyword (func : FunctionObject V) (state : KeywordState V) (name : String) (value : V) :
    Except String (KeywordState V) :=
  if func.code.kwarg.isSome then
    if (state.extra.lookup name).isSome then
      .error (multipleValuesError (functionNameForArgumentErrors func) name)
    else .ok { state with extra := state.extra ++ [(name, value)] }
  else .error (unexpectedKeywordError (functionNameForArgumentErrors func) name)

/-- One keyword argument. -/
def bindKeyword (func : FunctionObject V) (state : KeywordState V) (keyword : String × V) :
    Except String (KeywordState V) :=
  let (name, value) := keyword
  let posonlyLen := func.code.posonlyParams.length
  if name ∈ func.code.posonlyParams then bindExtraKeyword func state name value
  else
    match func.code.params.findIdx? (· = name) with
    | some index =>
      if (state.bound[posonlyLen + index]?.join).isSome then
        .error (multipleValuesError (functionNameForArgumentErrors func) name)
      else .ok { state with bound := state.bound.set (posonlyLen + index) (some value) }
    | none =>
      if name ∈ func.code.kwonlyParams then
        if (state.kwonly.lookup name).isSome then
          .error (multipleValuesError (functionNameForArgumentErrors func) name)
        else .ok { state with kwonly := (name, value) :: state.kwonly }
      else bindExtraKeyword func state name value

/-- The required positional parameters without a value. -/
def missingRequired (code : CodeObject) (required : Nat) (bound : List (Option V)) : List String :=
  ((code.positionalParams.zip bound).take required).filterMap fun (name, slot) =>
    if slot.isNone then some name else none

/-- The positional parameters without a value get their defaults. -/
def fillDefaults (defaults : List V) (required : Nat) (bound : List (Option V)) : List (Option V) :=
  bound.mapIdx fun idx slot => if required ≤ idx then slot.or defaults[idx - required]? else slot

/-- The value of a keyword-only parameter. -/
def bindKeywordOnly (func : FunctionObject V) (kwonly : List (String × V)) (name : String) :
    Except String V :=
  match kwonly.lookup name with
  | some value => .ok value
  | none =>
    match func.kwonlyDefaults.lookup name with
    | some value => .ok value
    | none => .error "missing keyword-only argument"

/-- The general path of `bind_arguments`. -/
def bindGeneral (func : FunctionObject V) (positional : List V) (kwargs : List (String × V))
    (kwargsOrder : Option (List String)) : Except String (BoundArguments V) := do
  let functionName := functionNameForArgumentErrors func
  let posonlyLen := func.code.posonlyParams.length
  let totalPositional := posonlyLen + func.code.params.length
  if totalPositional < func.defaults.length then throw "invalid function defaults"
  if totalPositional < positional.length ∧ func.code.vararg.isNone then
    throw (formatTooManyPositionalArgumentsError functionName
      (totalPositional - func.defaults.length) totalPositional positional.length)
  let extraPositional := positional.drop totalPositional
  let required := totalPositional - func.defaults.length
  let bound := (List.range totalPositional).map fun idx => positional[idx]?
  let state ← (orderedKwargs kwargs kwargsOrder).foldlM (bindKeyword func) ⟨bound, [], []⟩
  let missing := missingRequired func.code required state.bound
  if !missing.isEmpty then throw (formatMissingPositionalArgumentsError functionName missing)
  -- every slot is filled by now
  let filled := (fillDefaults func.defaults required state.bound).reduceOption
  let kwonly ← func.code.kwonlyParams.mapM (bindKeywordOnly func state.kwonly)
  pure ⟨filled.take posonlyLen, filled.drop posonlyLen, kwonly,
    func.code.vararg.map fun _ => extraPositional, func.code.kwarg.map fun _ => state.extra⟩

/-- `bind_arguments`. -/
def bindArguments (func : FunctionObject V) (positional : List V) (kwargs : List (String × V))
    (kwargsOrder : Option (List String)) : Except String (BoundArguments V) :=
  if kwargs.isEmpty && func.defaults.isEmpty && func.code.kwonlyParams.isEmpty &&
      func.code.vararg.isNone && func.code.kwarg.isNone then
    bindPlainPositional func positional
  else bindGeneral func positional kwargs kwargsOrder

/-! ## Frames -/

/-- The variables of a new frame. -/
def CallFrame.new (code : CodeObject) (closure : List (Option (Argument V))) : CallFrame V where
  fastLocals := List.replicate code.fastLocalCount none
  cells := List.replicate code.cellvars.length none ++ closure
  locals := []

/-- The entry of a name that is there already. -/
def updateExisting (locals : List (String × Argument V)) (name : String) (arg : Argument V) :
    List (String × Argument V) :=
  locals.map fun entry => if entry.1 = name then (name, arg) else entry

/-- `frame.locals.insert`. -/
def insertLocal (locals : List (String × Argument V)) (name : String) (arg : Argument V) :
    List (String × Argument V) :=
  (name, arg) :: locals.filter (·.1 ≠ name)

/-- `assign_binding`: a fast local that the frame has no slot for is lost. -/
def assignBinding (code : CodeObject) (frame : CallFrame V) (name : String) (arg : Argument V) :
    CallFrame V :=
  match (code.cellvarToIndex name).filter (· < frame.cells.length) with
  | some idx =>
    { fastLocals :=
        match code.nameToIndex name with
        | some slotIdx => frame.fastLocals.set slotIdx (some arg)
        | none => frame.fastLocals
      cells := frame.cells.set idx (some arg)
      locals := updateExisting frame.locals name arg }
  | none =>
    match code.nameToIndex name with
    | some slotIdx =>
      { frame with
        fastLocals := frame.fastLocals.set slotIdx (some arg)
        locals := updateExisting frame.locals name arg }
    | none => { frame with locals := insertLocal frame.locals name arg }

/-- The loop over the parameters of one kind. -/
def assignBindings (code : CodeObject) (frame : CallFrame V) (bindings : List (String × Argument V)) :
    CallFrame V :=
  bindings.foldl (fun frame binding => assignBinding code frame binding.1 binding.2) frame

/-- `apply_bindings`. -/
def applyBindings (code : CodeObject) (frame : CallFrame V) (bindings : BoundArguments V) :
    CallFrame V :=
  let frame := assignBindings code frame (code.posonlyParams.zip (bindings.posonly.map .value))
  let frame := assignBindings code frame (code.params.zip (bindings.positional.map .value))
  let frame := assignBindings code frame (code.kwonlyParams.zip (bindings.kwonly.map .value))
  let frame := assignBindings code frame
    (code.vararg.toList.map (·, .tuple (bindings.vararg.getD [])))
  assignBindings code frame (code.kwarg.toList.map (·, .dict (bindings.kwarg.getD [])))

/-- `store_fast_positional_arg`. -/
def storeFastPositionalArg (code : CodeObject) (frame : CallFrame V) (argIndex : Nat) (value : V) :
    CallFrame V :=
  let name := code.positionalParams[argIndex]?
  match (name.bind code.cellvarToIndex).filter (· < frame.cells.length) with
  | some cellIdx => { frame with cells := frame.cells.set cellIdx (some (.value value)) }
  | none =>
    match (name.bind code.nameToIndex).filter (· < frame.fastLocals.length) with
    | some slotIdx => { frame with fastLocals := frame.fastLocals.set slotIdx (some (.value value)) }
    | none =>
      match name with
      | some name => { frame with locals := insertLocal frame.locals name (.value value) }
      | none => frame

/-- The variables that `push_function_call_from_obj` starts a frame with. -/
def pushFunctionCall (func : FunctionObject V) (closure : List (Option (Argument V)))
    (args : List V) (kwargs : List (String × V)) (kwargsOrder : Option (List String)) :
    Except String (CallFrame V) :=
  let frame := CallFrame.new func.code closure
  if kwargs.isEmpty && decide (func.plainPositionalCallArity = some args.length) then
    .ok (args.zipIdx.foldl (fun frame (value, argIndex) =>
      storeFastPositionalArg func.code frame argIndex value) frame)
  else
    (bindArguments func args kwargs kwargsOrder).map (applyBindings func.code frame)

/-- The value of a variable: that of its cell or of its fast local, else what the frame holds under
the name. -/
def CallFrame.local? (code : CodeObject) (frame : CallFrame V) (name : String) :
    Option (Argument V) :=
  match (code.cellvarToIndex name).filter (· < frame.cells.length) with
  | some idx => frame.cells[idx]?.join
  | none => ((code.nameToIndex name).bind fun idx => frame.fastLocals[idx]?.join).or
      (frame.locals.lookup name)

end Binding

end Pyrs
