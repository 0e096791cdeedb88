import Mathlib.Algebra.GroupWithZero.Nat
import Pyrs.Model.Bytecode

/-!
# Exception classes, handler matching and the group split of the virtual machine

The part of `vm_execution.rs` that decides which handler takes an exception.  An exception object
carries only the *name* of its class.  Matching walks the names upwards through the map
`exception_parents`, which a class statement fills, and through the table of the built-in
exceptions.

Of the base values that `classFromBaseValue` sees, a class object stands for itself, and a built-in
exception type and a built-in type for their synthetic class; every other base is rejected with its
error.
-/

namespace Pyrs

/-- The message of a `RuntimeError`. -/
abbrev RuntimeError := String

/-! ## The built-in exceptions -/

/-- `builtin_exception_parent`, as a table. -/
def builtinExceptionParents : List (String × String) :=
  [("Exception", "BaseException"), ("GeneratorExit", "BaseException"),
    ("SystemExit", "BaseException"), ("KeyboardInterrupt", "BaseException"),
    ("BaseExceptionGroup", "BaseException"), ("ExceptionGroup", "BaseExceptionGroup"),
    ("StopIteration", "Exception"), ("StopAsyncIteration", "Exception"),
    ("ArithmeticError", "Exception"), ("FloatingPointError", "ArithmeticError"),
    ("OverflowError", "ArithmeticError"), ("ZeroDivisionError", "ArithmeticError"),
    ("AssertionError", "Exception"), ("AttributeError", "Exception"),
    ("LookupError", "Exception"), ("IndexError", "LookupError"), ("KeyError", "LookupError"),
    ("BufferError", "Exception"), ("EOFError", "Exception"), ("MemoryError", "Exception"),
    ("ReferenceError", "Exception"), ("SyntaxError", "Exception"),
    ("IndentationError", "SyntaxError"), ("TabError", "IndentationError"),
    ("NameError", "Exception"), ("UnboundLocalError", "NameError"),
    ("ImportError", "Exception"), ("ModuleNotFoundError", "ImportError"),
    ("RuntimeError", "Exception"), ("RecursionError", "RuntimeError"),
    ("PythonFinalizationError", "RuntimeError"), ("NotImplementedError", "RuntimeError"),
    ("SystemError", "Exception"), ("_IncompleteInputError", "SyntaxError"),
    ("OSError", "Exception"), ("FileNotFoundError", "OSError"), ("FileExistsError", "OSError"),
    ("IsADirectoryError", "OSError"), ("BlockingIOError", "OSError"),
    ("InterruptedError", "OSError"), ("ProcessLookupError", "OSError"),
    ("ChildProcessError", "OSError"), ("ConnectionError", "OSError"),
    ("BrokenPipeError", "ConnectionError"), ("ConnectionAbortedError", "ConnectionError"),
    ("ConnectionRefusedError", "ConnectionError"), ("ConnectionResetError", "ConnectionError"),
    ("TimeoutError", "OSError"), ("NotADirectoryError", "OSError"),
    ("PermissionError", "OSError"), ("UnsupportedOperation", "OSError"),
    ("InterpreterError", "Exception"), ("InterpreterNotFoundError", "InterpreterError"),
    ("TypeError", "Exception"), ("ValueError", "Exception"), ("NotShareableError", "TypeError"),
    ("PickleError", "Exception"), ("PicklingError", "PickleError"),
    ("UnpicklingError", "PickleError"), ("ExpatError", "Exception"), ("SSLError", "OSError"),
    ("SSLZeroReturnError", "SSLError"), ("SSLWantReadError", "SSLError"),
    ("SSLWantWriteError", "SSLError"), ("SSLSyscallError", "SSLError"),
    ("SSLEOFError", "SSLError"), ("SSLCertVerificationError", "SSLError"),
    ("Error", "Exception"), ("Warning", "Exception"), ("UserWarning", "Warning"),
    ("DeprecationWarning", "Warning"), ("PendingDeprecationWarning", "Warning"),
    ("RuntimeWarning", "Warning"), ("SyntaxWarning", "Warning"), ("FutureWarning", "Warning"),
    ("ImportWarning", "Warning"), ("UnicodeWarning", "Warning"), ("BytesWarning", "Warning"),
    ("ResourceWarning", "Warning"), ("EncodingWarning", "Warning"),
    ("InterfaceError", "Error"), ("DatabaseError", "Error"), ("DataError", "DatabaseError"),
    ("OperationalError", "DatabaseError"), ("IntegrityError", "DatabaseError"),
    ("InternalError", "DatabaseError"), ("ProgrammingError", "DatabaseError"),
    ("NotSupportedError", "DatabaseError"), ("QueueError", "RuntimeError"),
    ("QueueNotFoundError", "QueueError"), ("UnicodeError", "ValueError"),
    ("UnicodeEncodeError", "UnicodeError"), ("UnicodeDecodeError", "UnicodeError"),
    ("UnicodeTranslateError", "UnicodeError")]

def builtinExceptionParent (name : String) : Option String :=
  builtinExceptionParents.lookup name

/-! ## Class objects -/

/-- A class: its bases and its method resolution order. -/
structure ClassObject where
  name : String
  bases : List ClassRef
  mro : List ClassRef
  deriving DecidableEq

/-- The fields of `Vm` that matching reads: the user classes, indexed by their reference, and
`exception_parents`, the latest insertion first. -/
structure Vm where
  classes : List ClassObject
  exceptionParents : List (String × String)

/-- The machine after start-up, with the entries `vm_bootstrap_import.rs` puts into
`exception_parents`. -/
def Vm.initial : Vm where
  classes := []
  exceptionParents :=
    [("UnsupportedDigestmodError", "ValueError"), ("NotSupportedError", "DatabaseError"),
      ("ProgrammingError", "DatabaseError"), ("InternalError", "DatabaseError"),
      ("IntegrityError", "DatabaseError"), ("OperationalError", "DatabaseError"),
      ("DataError", "DatabaseError"), ("DatabaseError", "Error"), ("InterfaceError", "Error")]

/-- The names above a built-in exception, nearest first.  The fuel bounds the depth of the
table. -/
def builtinExceptionChain : Nat → String → List String
  | 0, _ => []
  | fuel + 1, name =>
    match builtinExceptionParent name with
    | some parent => parent :: builtinExceptionChain fuel parent
    | none => []

/-- The name of the class of a built-in type. -/
def BuiltinType.name : BuiltinType → String
  | .type => "type"
  | .bool => "bool"
  | .int => "int"
  | .float => "float"
  | .str => "str"
  | .list => "list"
  | .tuple => "tuple"
  | .dict => "dict"
  | .set => "set"
  | .frozenSet => "frozenset"
  | .enumerate => "enumerate"
  | .bytes => "bytes"
  | .byteArray => "bytearray"
  | .arrayArray => "array"
  | .memoryView => "memoryview"
  | .complex => "complex"
  | .typesModuleType => "module"
  | .classMethod => "classmethod"
  | .staticMethod => "staticmethod"
  | .property => "property"
  | .functoolsPartial => "partial"
  | .collectionsCounter => "Counter"
  | .collectionsDeque => "deque"
  | .collectionsDefaultDict => "defaultdict"
  | .collectionsOrderedDict => "OrderedDict"

/-- The classes above a built-in type, nearest first.  Only three types of `collections` have a base
of their own. -/
def BuiltinType.ancestors : BuiltinType → List ClassRef
  | .collectionsCounter | .collectionsDefaultDict | .collectionsOrderedDict =>
    [.builtin .dict, .object]
  | _ => [.object]

/-- The class objects by reference.  A synthetic class has one base, the parent of its name where it
is an exception, and a linear method resolution order. -/
def Vm.classData (vm : Vm) : ClassRef → Option ClassObject
  | .object => some ⟨"object", [], [.object]⟩
  | .syntheticException name =>
    some
      { name := name
        bases :=
          match builtinExceptionParent name with
          | some parent => [.syntheticException parent]
          | none => [.object]
        mro :=
          .syntheticException name ::
            (builtinExceptionChain builtinExceptionParents.length name).map .syntheticException ++
            [.object] }
  | .builtin base =>
    some ⟨base.name, base.ancestors.take 1, .builtin base :: base.ancestors⟩
  | .user id => vm.classes[id]?

/-! ## Method resolution order -/

/-- One pass of `collect_mro_entries`: the entries of a class that are not in `seen` yet, and
`seen` with them. -/
def Vm.collectMroEntries (vm : Vm) :
    Nat → ClassRef → List ClassRef → List ClassRef × List ClassRef
  | 0, _, seen => ([], seen)
  | fuel + 1, cls, seen =>
    match vm.classData cls with
    | none => ([], seen)
    | some data =>
      if data.mro ≠ [] then
        data.mro.foldl
          (fun acc entry =>
            if entry ∈ acc.2 then acc else (acc.1 ++ [entry], acc.2 ++ [entry]))
          ([], seen)
      else if cls ∈ seen then ([], seen)
      else
        data.bases.foldl
          (fun acc base =>
            let (candidates, seen) := vm.collectMroEntries fuel base acc.2
            (acc.1 ++ candidates.filter (· ∉ acc.1), seen))
          ([cls], seen ++ [cls])

/-- The method resolution order of a class, with the class named `object` moved to the end. -/
def Vm.classMroEntries (vm : Vm) (cls : ClassRef) : List ClassRef :=
  let entries := (vm.collectMroEntries (vm.classes.length + 1) cls []).1
  match entries.find? fun entry => (vm.classData entry).map (·.name) = some "object" with
  | some objectEntry => entries.erase objectEntry ++ [objectEntry]
  | none => entries

/-- The merge loop of `build_class_mro`.  Every round removes at least one entry, so the total
length of the sequences bounds the rounds. -/
def mergeMro : Nat → List (List ClassRef) → Option (List ClassRef)
  | 0, _ => none
  | fuel + 1, seqs =>
    let seqs := seqs.filter (· ≠ [])
    if seqs = [] then some []
    else
      let heads := seqs.filterMap List.head?
      match heads.find? fun head => seqs.all fun other => head ∉ other.tail with
      | none => none
      | some head =>
        (mergeMro fuel (seqs.map fun seq => if seq.head? = some head then seq.tail else seq)).map
          (head :: ·)

/-- `none` stands for the error "cannot create a consistent method resolution order". -/
def Vm.buildClassMro (vm : Vm) (cls : ClassRef) (bases : List ClassRef) :
    Option (List ClassRef) :=
  if bases = [] then some [cls]
  else
    let seqs := bases.map vm.classMroEntries ++ [bases]
    (mergeMro ((seqs.map List.length).sum + 1) seqs).map (cls :: ·)

/-! ## Matching by name -/

/-- The recorded parent of an exception, or the one of the start-up. -/
def Vm.exceptionParentName (vm : Vm) (name : String) : Option String :=
  match vm.exceptionParents.lookup name with
  | some parent => some parent
  | none => builtinExceptionParent name

/-- The loop of `exception_inherits`.  It stops at a name seen before, and every name it visits is
a parent of one of the two tables. -/
def Vm.exceptionInheritsLoop (vm : Vm) (handlerName : String) :
    Nat → List String → Option String → Bool
  | 0, _, _ => false
  | _, _, none => false
  | fuel + 1, seen, some name =>
    if name ∈ seen then false
    else if name = "ExceptionGroup" ∧ handlerName = "Exception" then true
    else if name = handlerName then true
    else vm.exceptionInheritsLoop handlerName fuel (name :: seen) (vm.exceptionParentName name)

def Vm.exceptionInherits (vm : Vm) (exceptionName handlerName : String) : Bool :=
  if exceptionName = "ExceptionGroup" ∧ handlerName = "Exception" then true
  else if exceptionName = handlerName then true
  else
    vm.exceptionInheritsLoop handlerName
      (vm.exceptionParents.length + builtinExceptionParents.length + 1) []
      (vm.exceptionParentName exceptionName)

def Vm.classIsExceptionClass (vm : Vm) (cls : ClassRef) : Bool :=
  (vm.classMroEntries cls).any fun entry =>
    match vm.classData entry with
    | some data => vm.exceptionInherits data.name "BaseException"
    | none => false

/-- The name an exception value is matched under.  A value that is not an exception stands for the
current exception of the frame. -/
def Vm.matchedExceptionName (vm : Vm) (active : Option Value) (exception : Value) :
    Except RuntimeError String :=
  match exception with
  | .exception exc => .ok exc.name
  | .exceptionType name => .ok name
  | .class cls => ofClass cls
  | _ =>
    match active with
    | some (.exception exc) => .ok exc.name
    | some (.exceptionType name) => .ok name
    | some (.class cls) => ofClass cls
    | _ => .error "expected exception instance"
where
  ofClass (cls : ClassRef) : Except RuntimeError String :=
    match vm.classIsExceptionClass cls, vm.classData cls with
    | true, some data => .ok data.name
    | _, _ => .error "expected exception instance"

mutual

/-- `exception_matches` once the name of the exception is known. -/
def Vm.nameMatches (vm : Vm) (exceptionName : String) : Value → Except RuntimeError Bool
  | .tuple items => vm.nameMatchesAny exceptionName items
  | .list items => vm.nameMatchesAny exceptionName items
  | .exceptionType name => .ok (vm.exceptionInherits exceptionName name)
  | .exception exc => .ok (vm.exceptionInherits exceptionName exc.name)
  | .class cls =>
    match vm.classIsExceptionClass cls, vm.classData cls with
    | true, some data => .ok (vm.exceptionInherits exceptionName data.name)
    | _, _ => .error "except expects exception type"
  | _ => .error "except expects exception type"

/-- The loop over the members of a tuple or list of handlers, left at the first match. -/
def Vm.nameMatchesAny (vm : Vm) (exceptionName : String) :
    List Value → Except RuntimeError Bool
  | [] => .ok false
  | item :: items => do
    if ← vm.nameMatches exceptionName item then
      return true
    vm.nameMatchesAny exceptionName items

end

/-- `exception_matches`; `active` is the current exception of the top frame. -/
def Vm.exceptionMatches (vm : Vm) (active : Option Value) (exception handlerType : Value) :
    Except RuntimeError Bool := do
  let exceptionName ← vm.matchedExceptionName active exception
  vm.nameMatches exceptionName handlerType

/-! ## Class statements -/

/-- `record_exception_parent_for_class`: only the first base that is an exception class is
recorded. -/
def Vm.recordExceptionParentForClass (vm : Vm) (cls : ClassRef) : Vm :=
  match vm.classData cls with
  | none => vm
  | some data =>
    if data.name = "BaseException" then vm
    else
      match data.bases.find? vm.classIsExceptionClass with
      | none => vm
      | some base =>
        match vm.classData base with
        | none => vm
        | some baseData =>
          { vm with exceptionParents := (data.name, baseData.name) :: vm.exceptionParents }

def classFromBaseValue : Value → Except RuntimeError ClassRef
  | .class cls => .ok cls
  | .exceptionType name => .ok (.syntheticException name)
  | .builtin (.ofType base) => .ok (.builtin base)
  | .builtin .typingTypeVar => .error "type 'typing.TypeVar' is not an acceptable base type"
  | .builtin .typingTypeVarTuple =>
    .error "type 'typing.TypeVarTuple' is not an acceptable base type"
  | .builtin .typingParamSpec => .error "type 'typing.ParamSpec' is not an acceptable base type"
  | _ => .error "bases must be types"

/-- `build_default_class_value`: allocate the class object, give it its method resolution order
when there is one, and record its parent. -/
def Vm.buildDefaultClassValue (vm : Vm) (name : String) (bases : List ClassRef) :
    Vm × ClassRef :=
  let cls := ClassRef.user vm.classes.length
  let allocated : Vm := { vm with classes := vm.classes ++ [⟨name, bases, []⟩] }
  let mro := (allocated.buildClassMro cls bases).getD []
  let linearized : Vm := { vm with classes := vm.classes ++ [⟨name, bases, mro⟩] }
  (linearized.recordExceptionParentForClass cls, cls)

/-- `class_value_from_module` for a class whose metaclass is `type`: the default base is `object`,
and the parent is recorded a second time at the end. -/
def Vm.classValueFromModule (vm : Vm) (name : String) (bases : List ClassRef) : Vm × ClassRef :=
  let defaultBases := if bases = [] then [ClassRef.object] else bases
  let (vm, cls) := vm.buildDefaultClassValue name defaultBases
  (vm.recordExceptionParentForClass cls, cls)

def Vm.ensureUniqueBaseClasses (vm : Vm) : List ClassRef → Except RuntimeError Unit
  | [] => .ok ()
  | base :: bases =>
    if base ∈ bases then
      let baseName := ((vm.classData base).map (·.name)).getD "object"
      .error s!"duplicate base class {baseName}"
    else vm.ensureUniqueBaseClasses bases

/-- A class statement with the values of its bases. -/
def Vm.classStatement (vm : Vm) (name : String) (bases : List Value) :
    Except RuntimeError (Vm × ClassRef) := do
  let bases ← bases.mapM classFromBaseValue
  vm.ensureUniqueBaseClasses bases
  return vm.classValueFromModule name bases

/-- An assignment to `__bases__` of a user class.  Without a consistent order the class gets itself
and its bases. -/
def Vm.updateClassBasesAttr (vm : Vm) (id : ℕ) (bases : List Value) :
    Except RuntimeError Vm := do
  let bases ← bases.mapM classFromBaseValue
  vm.ensureUniqueBaseClasses bases
  let cls := ClassRef.user id
  let mro := if bases = [] then [cls] else (vm.buildClassMro cls bases).getD (cls :: bases)
  return { vm with
    classes := vm.classes.modify id fun data => { data with bases := bases, mro := mro } }

/-! ## Exception groups -/

/-- Exception objects are numbered by a global counter. -/
abbrev ExceptionM := StateT Nat (Except RuntimeError)

/-- `ExceptionObject::with_members`, which draws the next number. -/
def ExceptionObject.withMembers (name : String) (message : Option String)
    (members : List ExceptionObject) : ExceptionM ExceptionObject := do
  let objectId ← get
  set (objectId + 1)
  return {
    objectId := objectId
    name := name
    message := message
    notes := []
    exceptions := members
    cause := none
    context := none
    suppressContext := false
    attrs := [] }

/-- `clone_exception_group_with_members`: a group with the fields of the template. -/
def cloneExceptionGroupWithMembers (template : ExceptionObject)
    (members : List ExceptionObject) : ExceptionM ExceptionObject := do
  let clone ← ExceptionObject.withMembers template.name template.message members
  return { clone with
    notes := template.notes
    cause := template.cause
    context := template.context
    suppressContext := template.suppressContext
    attrs := template.attrs }

/-- One part of a split group: `None` when it has no member. -/
def cloneUnlessEmpty (template : ExceptionObject) :
    List ExceptionObject → ExceptionM (Option ExceptionObject)
  | [] => pure none
  | member :: members => some <$> cloneExceptionGroupWithMembers template (member :: members)

/-- `wrap_naked_exception_for_star`. -/
def Vm.wrapNakedExceptionForStar (vm : Vm) (exception : ExceptionObject) :
    ExceptionM ExceptionObject := do
  let groupName :=
    if vm.exceptionInherits exception.name "Exception" then "ExceptionGroup"
    else "BaseExceptionGroup"
  let wrapped ← ExceptionObject.withMembers groupName (some "") [exception]
  return { wrapped with
    attrs := [("args", .tuple [.str "", .list [.exception exception]])] }

mutual

/-- `exception_split_for_star_object_mode`: the matched and the remaining part of an exception. -/
def Vm.exceptionSplitForStarObjectMode (vm : Vm) (active : Option Value) (handlerType : Value)
    (wrapLeafMatches : Bool) :
    ExceptionObject → ExceptionM (Option ExceptionObject × Option ExceptionObject)
  | ⟨objectId, name, message, notes, exceptions, cause, context, suppressContext, attrs⟩ => do
    let exception : ExceptionObject :=
      ⟨objectId, name, message, notes, exceptions, cause, context, suppressContext, attrs⟩
    if vm.exceptionInherits name "BaseExceptionGroup" then
      let (matchedMembers, remainingMembers) ← vm.splitMembers active handlerType exceptions
      let matchedGroup ← cloneUnlessEmpty exception matchedMembers
      let remainingGroup ← cloneUnlessEmpty exception remainingMembers
      return (matchedGroup, remainingGroup)
    else
      if ← vm.exceptionMatches active (.exception exception) handlerType then
        if wrapLeafMatches then
          return (some (← vm.wrapNakedExceptionForStar exception), none)
        else
          return (some exception, none)
      else
        return (none, some exception)

/-- The loop over the members of a group. -/
def Vm.splitMembers (vm : Vm) (active : Option Value) (handlerType : Value) :
    List ExceptionObject → ExceptionM (List ExceptionObject × List ExceptionObject)
  | [] => return ([], [])
  | member :: members => do
    let (matched, remaining) ←
      vm.exceptionSplitForStarObjectMode active handlerType false member
    let (matchedMembers, remainingMembers) ← vm.splitMembers active handlerType members
    return (matched.toList ++ matchedMembers, remaining.toList ++ remainingMembers)

end

/-- `exception_split_for_star`. -/
def Vm.exceptionSplitForStar (vm : Vm) (active : Option Value) (exception handlerType : Value) :
    ExceptionM (Option ExceptionObject × Option ExceptionObject) :=
  match exception with
  | .exception exc => vm.exceptionSplitForStarObjectMode active handlerType true exc
  | _ => throw "expected exception instance"

end Pyrs
