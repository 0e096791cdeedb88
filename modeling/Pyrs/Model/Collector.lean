import Mathlib.Data.Fintype.Card

/-!
# The cycle collector

The heap of the runtime, the references that the objects own, the ones that the collector traces,
and a collection: what the roots lead to is marked, and every other object is emptied.

A reference is the address of an object, of a code object or of the attributes of an exception; the
addresses of a heap are finitely many.  Fields that hold no reference are left out of the iterators,
and the tracebacks out of the exceptions.
-/

namespace Pyrs

namespace Gc

/-- An exception value.  Its attributes are shared, behind a reference. -/
inductive ExceptionObject (Ref : Type)
  | mk (objectId : UInt64) (name : String) (message : Option String)
      (exceptions : List (ExceptionObject Ref)) (cause context : Option (ExceptionObject Ref))
      (attrs : Ref)

/-- A value of the heap: one of those without references, or a reference. -/
inductive Value (Ref : Type)
  | none
  | bool (value : Bool)
  | int (value : Int64)
  | bigInt (value : ℤ)
  | float (bits : UInt64)
  | complex (real imag : UInt64)
  | str (text : String)
  | list (obj : Ref)
  | tuple (obj : Ref)
  | dict (obj : Ref)
  | dictKeys (obj : Ref)
  | dictValues (obj : Ref)
  | dictItems (obj : Ref)
  | set (obj : Ref)
  | frozenSet (obj : Ref)
  | bytes (obj : Ref)
  | byteArray (obj : Ref)
  | memoryView (obj : Ref)
  | iterator (obj : Ref)
  | generator (obj : Ref)
  | module (obj : Ref)
  | class (obj : Ref)
  | instance (obj : Ref)
  | super (obj : Ref)
  | boundMethod (obj : Ref)
  | function (obj : Ref)
  | cell (obj : Ref)
  | exception (value : ExceptionObject Ref)
  | exceptionType (name : String)
  | slice (lower upper step : Option Int64)
  | code (code : Ref)
  | builtin (index : ℕ)

/-- What an iterator goes through. -/
inductive IteratorKind (Ref : Type)
  | list (obj : Ref)
  | listReverse (list : Ref)
  | tuple (obj : Ref)
  | str (text : String)
  | dictView (dict : Ref)
  | dictReverse (dict : Ref)
  | set (obj : Ref)
  | bytes (obj : Ref)
  | byteArray (obj : Ref)
  | memoryView (obj : Ref)
  | cycle (source : Value Ref) (values : List (Value Ref))
  | count
  | rangeObject
  | enumerate (iterator : Value Ref)
  | map (values : List (Value Ref)) (func : Value Ref) (iterators sources : List (Value Ref))
  | zip (iterators : List (Value Ref))
  | chain (sources : List (Value Ref)) (current : Option (Value Ref))
  | chainFromIterable (sourceIterable : Value Ref) (source current : Option (Value Ref))
  | accumulate (iterator : Value Ref) (func total initial : Option (Value Ref))
  | combinations (pool : List (Value Ref))
  | combinationsWithReplacement (pool : List (Value Ref))
  | permutations (pool : List (Value Ref))
  | product (pools : List (List (Value Ref)))
  | compress (data selectors : Value Ref)
  | dropWhile (predicate iterator : Value Ref)
  | filter (predicate iterator : Value Ref)
  | filterFalse (predicate iterator : Value Ref)
  | islice (iterator : Value Ref)
  | pairwise (iterator : Value Ref) (previous : Option (Value Ref))
  | starMap (callable iterator : Value Ref)
  | takeWhile (predicate iterator : Value Ref)
  | zipLongest (iterators : List (Value Ref)) (fillvalue : Value Ref)
  | tee (shared : Value Ref)
  | repeat (value : Value Ref)
  | batched (iterator : Value Ref)
  | groupBy (shared : Value Ref)
  | groupByGrouper (shared key : Value Ref)
  | range
  | reversedSequenceGetItem (target getitem : Value Ref)
  | reversedCpythonSequence (target : Value Ref)
  | sequenceGetItem (target getitem : Value Ref)
  | cpythonSequence (target : Value Ref)
  | callIter (callable sentinel : Value Ref)

/-- A memoryview holds the object it views. -/
structure MemoryViewObject (Ref : Type) where
  source : Ref
  exportOwner : Option Ref

/-- An iterator holds what it goes through. -/
structure IteratorObject (Ref : Type) where
  kind : IteratorKind Ref
  index : ℕ

/-- A generator holds its frame's values. -/
structure GeneratorObject (Ref : Type) where
  code : Ref
  started : Bool
  running : Bool
  closed : Bool

/-- A module holds its globals. -/
structure ModuleObject (Ref : Type) where
  globals : List (String × Value Ref)
  dict : Option Ref

/-- A class holds its bases and its attributes. -/
structure ClassObject (Ref : Type) where
  bases : List Ref
  mro : List Ref
  attrs : List (String × Value Ref)
  slots : Option (List String)
  metaclass : Option Ref

/-- An instance holds its class and its attributes. -/
structure InstanceObject (Ref : Type) where
  cls : Ref
  attrs : List (String × Value Ref)

/-- A `super` object holds where the lookup begins. -/
structure SuperObject (Ref : Type) where
  startClass : Ref
  object : Ref
  objectType : Ref

/-- A bound method holds the function and the receiver. -/
structure BoundMethod (Ref : Type) where
  function : Ref
  receiver : Ref

/-- A function holds its code, its module and what it was defined with. -/
structure FunctionObject (Ref : Type) where
  code : Ref
  module : Ref
  defaults : List (Value Ref)
  kwonlyDefaults : List (String × Value Ref)
  plainPositionalCallArity : Option ℕ
  callCacheEpoch : UInt64
  closure : List Ref
  annotations : Option Ref
  ownerClass : Option Ref
  dict : Option Ref

/-- The kinds of objects. -/
inductive Object (Ref : Type)
  | list (values : List (Value Ref))
  | tuple (values : List (Value Ref))
  | dict (entries : List (Value Ref × Value Ref))
  | set (values : List (Value Ref))
  | frozenSet (values : List (Value Ref))
  | bytes (values : List UInt8)
  | byteArray (values : List UInt8)
  | memoryView (view : MemoryViewObject Ref)
  | iterator (iterator : IteratorObject Ref)
  | generator (generator : GeneratorObject Ref)
  | module (module : ModuleObject Ref)
  | class (cls : ClassObject Ref)
  | instance (object : InstanceObject Ref)
  | super (object : SuperObject Ref)
  | boundMethod (method : BoundMethod Ref)
  | nativeMethod (kind : ℕ)
  | function (function : FunctionObject Ref)
  | cell (value : Option (Value Ref))
  | dictView (dict : Ref)

/-- The constants of code are no objects of the heap. -/
structure CodeObject (Ref : Type) where
  constants : List (Value Ref)
  plainPositionalArity : Option ℕ

/-- What is stored at the addresses.  The ids of objects come from a counter.  The registry holds
the objects that are alive; one that is borrowed is not emptied. -/
structure Heap (Ref : Type) where
  id : Ref → UInt64
  object : Ref → Object Ref
  code : Ref → CodeObject Ref
  attrs : Ref → List (String × Value Ref)
  registry : List Ref
  borrowed : Ref → Bool
  id_injective : Function.Injective id

variable {Ref : Type}

/-- The object that a value refers to. -/
def Value.object : Value Ref → Option Ref
  | .list obj | .tuple obj | .dict obj | .dictKeys obj | .dictValues obj | .dictItems obj
  | .set obj | .frozenSet obj | .bytes obj | .byteArray obj | .memoryView obj | .iterator obj
  | .generator obj | .module obj | .class obj | .instance obj | .super obj | .function obj
  | .boundMethod obj | .cell obj => some obj
  | _ => .none

/-- `OwnedReleaseItem`: a value, or a reference to an object. -/
inductive Item (Ref : Type)
  | value (value : Value Ref)
  | objRef (obj : Ref)

/-! ## What objects own -/

/-- What an iterator refers to. -/
def ownedIteratorChildren : IteratorKind Ref → List (Item Ref)
  | .list obj | .tuple obj | .set obj | .bytes obj | .byteArray obj | .memoryView obj =>
    [.objRef obj]
  | .listReverse list => [.objRef list]
  | .str _ | .count | .rangeObject => []
  | .dictView dict | .dictReverse dict => [.objRef dict]
  | .cycle source values => .value source :: values.map .value
  | .enumerate iterator => [.value iterator]
  | .map values func iterators sources =>
    values.map .value ++ .value func :: (iterators.map .value ++ sources.map .value)
  | .zip iterators => iterators.map .value
  | .chain sources current => sources.map .value ++ current.toList.map .value
  | .chainFromIterable sourceIterable source current =>
    .value sourceIterable :: (source.toList.map .value ++ current.toList.map .value)
  | .accumulate iterator func total initial =>
    .value iterator ::
      (func.toList.map .value ++ (total.toList.map .value ++ initial.toList.map .value))
  | .combinations pool | .combinationsWithReplacement pool | .permutations pool =>
    pool.map .value
  | .product pools => pools.flatMap fun pool => pool.map .value
  | .compress data selectors => [.value data, .value selectors]
  | .dropWhile predicate iterator | .filter predicate iterator | .filterFalse predicate iterator
  | .starMap predicate iterator => [.value predicate, .value iterator]
  | .islice iterator | .batched iterator | .groupBy iterator | .tee iterator => [.value iterator]
  | .pairwise iterator previous => .value iterator :: previous.toList.map .value
  | .takeWhile predicate iterator => [.value predicate, .value iterator]
  | .zipLongest iterators fillvalue => iterators.map .value ++ [.value fillvalue]
  | .repeat value => [.value value]
  | .groupByGrouper shared key => [.value shared, .value key]
  | .range => []
  | .reversedSequenceGetItem target getitem | .sequenceGetItem target getitem =>
    [.value target, .value getitem]
  | .reversedCpythonSequence target | .cpythonSequence target => [.value target]
  | .callIter callable sentinel => [.value callable, .value sentinel]

/-- What an object refers to. -/
def ownedObjectChildren : Object Ref → List (Item Ref)
  | .list values | .tuple values => values.map .value
  | .dict entries => entries.flatMap fun entry => [.value entry.1, .value entry.2]
  | .dictView dict => [.objRef dict]
  | .set values | .frozenSet values => values.map .value
  | .bytes _ | .byteArray _ | .nativeMethod _ => []
  | .memoryView view => .objRef view.source :: view.exportOwner.toList.map .objRef
  | .iterator iterator => ownedIteratorChildren iterator.kind
  | .generator generator => [.value (.code generator.code)]
  | .module module => module.globals.map (fun entry => .value entry.2) ++
      module.dict.toList.map .objRef
  | .class cls => cls.bases.map .objRef ++ (cls.mro.map .objRef ++
      (cls.metaclass.toList.map .objRef ++ cls.attrs.map fun entry => .value entry.2))
  | .instance object => .objRef object.cls :: object.attrs.map fun entry => .value entry.2
  | .super object => [.objRef object.startClass, .objRef object.object, .objRef object.objectType]
  | .boundMethod method => [.objRef method.function, .objRef method.receiver]
  | .function function => .value (.code function.code) :: .objRef function.module ::
      (function.defaults.map .value ++
        (function.kwonlyDefaults.map (fun entry => .value entry.2) ++
          (function.closure.map .objRef ++ (function.annotations.toList.map .objRef ++
            (function.ownerClass.toList.map .objRef ++ function.dict.toList.map .objRef)))))
  | .cell value => value.toList.map .value

namespace Heap

/-- The values that an exception holds: its attributes, its members, its cause and its context. -/
def exceptionChildren (heap : Heap Ref) : ExceptionObject Ref → List (Item Ref)
  | .mk _ _ _ exceptions cause context attrs =>
    (heap.attrs attrs).map (fun entry => .value entry.2) ++
      (exceptions ++ (cause.toList ++ context.toList)).map fun member => .value (.exception member)

/-- What an item owns. -/
def ownedChildren (heap : Heap Ref) : Item Ref → List (Item Ref)
  | .objRef obj => ownedObjectChildren (heap.object obj)
  | .value (.code code) => (heap.code code).constants.map .value
  | .value (.exception value) => heap.exceptionChildren value
  | .value value => value.object.toList.map .objRef

end Heap

/-! ## Tracing -/

/-- What `trace_object` pushes and traces for an iterator, in its order. -/
def tracedIteratorChildren : IteratorKind Ref → List (Item Ref)
  | .list list | .listReverse list | .tuple list | .set list | .bytes list | .byteArray list
  | .memoryView list => [.objRef list]
  | .dictView dict | .dictReverse dict => [.objRef dict]
  | .cycle source values => .value source :: values.map .value
  | .enumerate iterator => [.value iterator]
  | .map values func iterators sources =>
    values.map .value ++ .value func :: (iterators.map .value ++ sources.map .value)
  | .zip iterators => iterators.map .value
  | .chain sources current => sources.map .value ++ current.toList.map .value
  | .chainFromIterable sourceIterable source current =>
    .value sourceIterable :: (source.toList.map .value ++ current.toList.map .value)
  | .accumulate iterator func total initial =>
    .value iterator ::
      (func.toList.map .value ++ (total.toList.map .value ++ initial.toList.map .value))
  | .combinations pool | .combinationsWithReplacement pool => pool.map .value
  | .permutations pool => pool.map .value
  | .product pools => pools.flatMap fun pool => pool.map .value
  | .compress data selectors => [.value data, .value selectors]
  | .dropWhile predicate iterator => [.value predicate, .value iterator]
  | .filter predicate iterator => [.value predicate, .value iterator]
  | .filterFalse predicate iterator => [.value predicate, .value iterator]
  | .islice iterator => [.value iterator]
  | .pairwise iterator previous => .value iterator :: previous.toList.map .value
  | .starMap callable iterator => [.value callable, .value iterator]
  | .takeWhile predicate iterator => [.value predicate, .value iterator]
  | .zipLongest iterators fillvalue => iterators.map .value ++ [.value fillvalue]
  | .tee shared => [.value shared]
  | .repeat value => [.value value]
  | .batched iterator => [.value iterator]
  | .groupBy shared => [.value shared]
  | .groupByGrouper shared key => [.value shared, .value key]
  | .sequenceGetItem target getitem => [.value target, .value getitem]
  | .reversedSequenceGetItem target getitem => [.value target, .value getitem]
  | .cpythonSequence target => [.value target]
  | .reversedCpythonSequence target => [.value target]
  | .callIter callable sentinel => [.value callable, .value sentinel]
  | .str _ | .count | .rangeObject | .range => []

/-- The stack of a collection, and the code objects whose constants were traced. -/
structure Trace (Ref : Type) where
  stack : List Ref
  codePtrs : Finset Ref

namespace Heap

/-- What `trace_object` pushes and traces for an object, in its order. -/
def tracedObjectChildren (heap : Heap Ref) : Object Ref → List (Item Ref)
  | .list values | .tuple values => values.map .value
  | .dict entries => entries.flatMap fun entry => [.value entry.1, .value entry.2]
  | .dictView dict => [.objRef dict]
  | .set values | .frozenSet values => values.map .value
  | .bytes _ | .byteArray _ => []
  | .memoryView view => [.objRef view.source]
  | .iterator iterator => tracedIteratorChildren iterator.kind
  | .generator _ => []
  | .module module => module.globals.map (fun entry => .value entry.2) ++
      module.dict.toList.map .objRef
  | .class cls => cls.bases.map .objRef ++ (cls.metaclass.toList.map .objRef ++
      (cls.mro.map .objRef ++ cls.attrs.map fun entry => .value entry.2))
  | .instance object => .objRef object.cls :: object.attrs.map fun entry => .value entry.2
  | .super object => [.objRef object.startClass, .objRef object.object, .objRef object.objectType]
  | .function function => .objRef function.module :: (function.defaults.map .value ++
      (function.kwonlyDefaults.map (fun entry => .value entry.2) ++
        (function.closure.map .objRef ++ (function.annotations.toList.map .objRef ++
          (function.dict.toList.map .objRef ++
            (heap.code function.code).constants.map .value)))))
  | .boundMethod method => [.objRef method.function, .objRef method.receiver]
  | .nativeMethod _ => []
  | .cell value => value.toList.map .value

variable [DecidableEq Ref]

/-- `trace_value` of values.  The constants of a code object are traced before the values behind
it. -/
def traceValues [Fintype Ref] (heap : Heap Ref) (marked : Finset UInt64) :
    List (Value Ref) → Trace Ref → Trace Ref
  | [], trace => trace
  | .code code :: values, trace =>
    if code ∈ trace.codePtrs then traceValues heap marked values trace
    else
      traceValues heap marked ((heap.code code).constants ++ values)
        { trace with codePtrs := insert code trace.codePtrs }
  | value :: values, trace =>
    match value.object with
    | some obj =>
      if heap.id obj ∈ marked then traceValues heap marked values trace
      else traceValues heap marked values { trace with stack := obj :: trace.stack }
    | none => traceValues heap marked values trace
termination_by values trace => (trace.codePtrsᶜ.card, values.length)
decreasing_by
  all_goals first
    | exact Prod.Lex.right _ (Nat.lt_succ_self _)
    | (refine Prod.Lex.left _ _ (Finset.card_lt_card ?_)
       rw [Finset.compl_ssubset_compl]
       exact Finset.ssubset_insert ‹_›)

/-- A reference is put on the stack when it is seen first. -/
def traceItem [Fintype Ref] (heap : Heap Ref) (marked : Finset UInt64) (trace : Trace Ref) :
    Item Ref → Trace Ref
  | .value value => heap.traceValues marked [value] trace
  | .objRef obj => { trace with stack := obj :: trace.stack }

/-- All that an object refers to. -/
def traceObject [Fintype Ref] (heap : Heap Ref) (marked : Finset UInt64) (trace : Trace Ref)
    (object : Object Ref) : Trace Ref :=
  (heap.tracedObjectChildren object).foldl (heap.traceItem marked) trace

/-- The loop of `reachable_object_ids`. -/
def markStack [Fintype Ref] (heap : Heap Ref) (trace : Trace Ref) (marked : Finset UInt64) :
    Finset UInt64 :=
  match _hstack : trace.stack with
  | [] => marked
  | obj :: stack =>
    if heap.id obj ∈ marked then markStack heap { trace with stack := stack } marked
    else
      let marked := insert (heap.id obj) marked
      markStack heap (heap.traceObject marked { trace with stack := stack } (heap.object obj))
        marked
termination_by ((Finset.univ.filter fun obj => heap.id obj ∉ marked).card, trace.stack.length)
decreasing_by
  · rw [_hstack]
    exact Prod.Lex.right _ (Nat.lt_succ_self _)
  · refine Prod.Lex.left _ _ (Finset.card_lt_card ?_)
    refine Finset.ssubset_iff_of_subset (fun other hother => ?_) |>.2 ⟨obj, ?_, ?_⟩
    · simp only [Finset.mem_filter, Finset.mem_univ, true_and, Finset.mem_insert, not_or]
        at hother ⊢
      exact hother.2
    · simpa using ‹heap.id obj ∉ _›
    · simp

def reachableObjectIds [Fintype Ref] (heap : Heap Ref) (roots : List (Value Ref)) :
    Finset UInt64 :=
  let trace := roots.foldl (fun trace value => heap.traceValues ∅ [value] trace) ⟨[], ∅⟩
  heap.markStack trace ∅

/-! ## Clearing -/

def refreshPlainPositionalCallArity (heap : Heap Ref) (function : FunctionObject Ref) :
    FunctionObject Ref :=
  { function with
    plainPositionalCallArity :=
      if function.defaults.isEmpty && function.kwonlyDefaults.isEmpty then
        (heap.code function.code).plainPositionalArity
      else none
    callCacheEpoch :=
      if function.callCacheEpoch + 1 = 0 then 1 else function.callCacheEpoch + 1 }

/-- What `clear_object_refs` leaves of an object. -/
def clearedObject (heap : Heap Ref) : Object Ref → Object Ref
  | .list _ => .list []
  | .tuple _ => .tuple []
  | .dict _ => .dict []
  | .dictView _ => .bytes []
  | .set _ => .set []
  | .frozenSet _ => .frozenSet []
  | .bytes _ => .bytes []
  | .byteArray _ => .byteArray []
  | .memoryView _ => .bytes []
  | .iterator _ => .iterator ⟨.str "", 0⟩
  | .generator generator =>
    .generator { generator with started := false, running := false, closed := true }
  | .module module => .module { module with globals := [], dict := none }
  | .class _ => .class ⟨[], [], [], none, none⟩
  | .instance object => .instance { object with attrs := [] }
  | .super _ => .bytes []
  | .function function =>
    let function := { function with defaults := [], kwonlyDefaults := [] }
    let function := heap.refreshPlainPositionalCallArity function
    .function { function with closure := [], annotations := none, dict := none }
  | .boundMethod _ => .bytes []
  | .nativeMethod kind => .nativeMethod kind
  | .cell _ => .cell none

/-- `clear_object_refs`; an object that is borrowed stays. -/
def clearObjectRefs (heap : Heap Ref) (obj : Ref) : Heap Ref :=
  if heap.borrowed obj then heap
  else { heap with object := Function.update heap.object obj (heap.clearedObject (heap.object obj)) }

/-- `collect_cycles`: what the roots do not reach is cleared. -/
def collectCycles [Fintype Ref] (heap : Heap Ref) (roots : List (Value Ref)) : Heap Ref :=
  let marked := heap.reachableObjectIds roots
  heap.registry.foldl
    (fun heap obj => if heap.id obj ∈ marked then heap else heap.clearObjectRefs obj) heap

end Heap

end Gc

end Pyrs
