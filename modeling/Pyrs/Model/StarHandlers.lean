import Pyrs.Model.Exceptions

/-!
# The handlers of `except*`

The code that `compile_try_except_star` emits behind the start of the handlers, and its execution.
The type expression and the body of a handler are one instruction each: the type gives a value, and
the body completes or raises.  Instructions are counted from the start of the handlers.  Tracebacks
and contexts of exceptions that are raised are left out.
-/

namespace Pyrs

/-- A handler, with what its parts do in a run: the machine and the next object number when its type
has been evaluated, the value of the type, and what its body raises, or the deletion of its name
behind it. -/
structure StarHandler where
  named : Bool
  vm : Vm
  nextObjectId : ℕ
  handlerType : Value
  raises : Option ExceptionObject

/-- The instructions around the handlers. -/
inductive StarOp
  | storeRemaining
  | loadRemaining
  | typeExpr (index : ℕ)
  | matchExceptionStar
  | dupTop
  | jumpIfNone (target : ℕ)
  | storeName
  | popTop
  | body (index : ℕ)
  | deleteName
  | clearException
  | jump (target : ℕ)
  | raise

/-- The code of a handler, the jumps patched. -/
def starHandlerCode (start index : ℕ) (named : Bool) : List StarOp :=
  let nextHandlerStart := start + if named then 11 else 10
  [.loadRemaining, .typeExpr index, .matchExceptionStar, .storeRemaining, .dupTop,
    .jumpIfNone nextHandlerStart] ++
    (if named then [.storeName, .body index, .deleteName] else [.popTop, .body index]) ++
    [.clearException, .jump (nextHandlerStart + 1), .popTop]

/-- The handlers one after the other: each takes its part of the group and leaves the rest. -/
def starHandlersCode : ℕ → ℕ → List StarHandler → List StarOp
  | _, _, [] => []
  | start, index, handler :: handlers =>
    starHandlerCode start index handler.named ++
      starHandlersCode (start + (starHandlerCode start index handler.named).length) (index + 1)
        handlers

/-- The remainder is raised, unless it is `None`. -/
def starReraiseCode (start : ℕ) : List StarOp :=
  [.loadRemaining, .jumpIfNone (start + 4), .loadRemaining, .raise]

/-- `compile_try_except_star`, from the start of the handlers on. -/
def compileStarHandlers (handlers : List StarHandler) : List StarOp :=
  let code := .storeRemaining :: starHandlersCode 1 0 handlers
  code ++ starReraiseCode code.length

/-- The frame, and the handlers whose body was run, each with the current exception that it saw. -/
structure StarFrame where
  ip : ℕ
  stack : List Value
  remaining : Value
  activeException : Option Value
  vm : Vm
  nextObjectId : ℕ
  bodies : List (ℕ × Option Value)

/-- How the statement ends: normally, with an exception, or with an error of an instruction. -/
inductive StarEnd
  | completed
  | raised (exception : Value)
  | failed (error : RuntimeError)

/-- How the statement ends, and what each body was given. -/
structure StarResult where
  ending : StarEnd
  bodies : List (ℕ × Option Value)

/-- On to the next instruction. -/
def StarFrame.advance (frame : StarFrame) (stack : List Value) : StarFrame :=
  { frame with ip := frame.ip + 1, stack := stack }

/-- The statement ends. -/
def StarFrame.ends (frame : StarFrame) (ending : StarEnd) : StarFrame ⊕ StarResult :=
  .inr ⟨ending, frame.bodies⟩

/-- One instruction.  At module level the remainder is loaded by `LoadName`, whose inline cache the
`StoreFast` of the remainder does not touch: `entries` are the matching entries that an earlier run
of the statement left, by instruction. -/
def StarFrame.execute (entries : ℕ → Option Value) (handlers : List StarHandler)
    (frame : StarFrame) :
    StarOp → StarFrame ⊕ StarResult
  | .storeRemaining =>
    match frame.stack with
    | value :: stack => .inl { frame.advance stack with remaining := value }
    | [] => frame.ends (.failed "stack underflow")
  | .loadRemaining =>
    .inl (frame.advance ((entries frame.ip).getD frame.remaining :: frame.stack))
  | .typeExpr index =>
    match handlers[index]? with
    | some handler =>
      .inl { frame.advance (handler.handlerType :: frame.stack) with
        vm := handler.vm
        nextObjectId := handler.nextObjectId }
    | none => frame.ends (.failed "no such handler")
  | .matchExceptionStar =>
    match frame.stack with
    | handlerType :: exception :: stack =>
      match frame.vm.exceptionSplitForStar frame.activeException exception handlerType
        frame.nextObjectId with
      | .ok ((matched, remaining), nextObjectId) =>
        .inl { frame.advance
            ((remaining.map Value.exception).getD .none ::
              (matched.map Value.exception).getD .none :: stack) with
          activeException := (matched.map Value.exception).or frame.activeException
          nextObjectId := nextObjectId }
      | .error error => frame.ends (.failed error)
    | _ => frame.ends (.failed "stack underflow")
  | .dupTop =>
    match frame.stack with
    | value :: stack => .inl (frame.advance (value :: value :: stack))
    | [] => frame.ends (.failed "stack underflow")
  | .jumpIfNone target =>
    match frame.stack with
    | .none :: stack => .inl { frame with ip := target, stack := stack }
    | _ :: stack => .inl (frame.advance stack)
    | [] => frame.ends (.failed "stack underflow")
  | .storeName | .popTop =>
    match frame.stack with
    | _ :: stack => .inl (frame.advance stack)
    | [] => frame.ends (.failed "stack underflow")
  | .body index =>
    match handlers[index]? with
    | some handler =>
      let bodies := frame.bodies ++ [(index, frame.activeException)]
      match handler.raises with
      | some exception => .inr ⟨.raised (.exception exception), bodies⟩
      | none => .inl { frame.advance frame.stack with bodies := bodies }
    | none => frame.ends (.failed "no such handler")
  | .deleteName => .inl (frame.advance frame.stack)
  | .clearException => .inl { frame.advance frame.stack with activeException := none }
  | .jump target => .inl { frame with ip := target }
  | .raise =>
    match frame.stack with
    | value :: _ => frame.ends (.raised value)
    | [] => frame.ends (.failed "stack underflow")

/-- The run of a frame ends with a result. -/
inductive StarFrame.Ends (code : List StarOp) (entries : ℕ → Option Value)
    (handlers : List StarHandler) : StarFrame → StarResult → Prop
  | completed (frame : StarFrame) (h : code[frame.ip]? = none) :
      Ends code entries handlers frame ⟨.completed, frame.bodies⟩
  | ended (frame : StarFrame) (op : StarOp) (result : StarResult) (h : code[frame.ip]? = some op)
      (hexecute : frame.execute entries handlers op = .inr result) :
      Ends code entries handlers frame result
  | step (frame next : StarFrame) (op : StarOp) (result : StarResult)
      (h : code[frame.ip]? = some op) (hexecute : frame.execute entries handlers op = .inl next)
      (hnext : Ends code entries handlers next result) : Ends code entries handlers frame result

/-- The frame at the start of the handlers: the exception is current and on the stack. -/
def StarFrame.entered (exception : ExceptionObject) (stack : List Value) (vm : Vm)
    (nextObjectId : ℕ) : StarFrame where
  ip := 0
  stack := .exception exception :: stack
  remaining := .none
  activeException := some (.exception exception)
  vm := vm
  nextObjectId := nextObjectId
  bodies := []

end Pyrs
