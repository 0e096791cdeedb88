import Pyrs.Model.Globals

/-!
# Call sites with one argument

`vm/vm_execution.rs` and `vm/mod.rs`: `push_function_call_one_arg_from_obj` with its call-site
cache, the uncached `push_function_call_from_obj`, the frames and their pools, and what changes a
function object.  All pools clear the variables of a frame and keep its caches for the same code
object only.  Left out are the versions of the globals, which `Model/Globals.lean` follows, the
active exception, which every path copies from the caller, and the fallback globals of a
comprehension, which no path without cells serves.
-/

namespace Pyrs

/-- The paths of calls with one argument. -/
inductive OneArgCallHotPath
  | simplePositionalNoCells
  | simplePositional
  | generic
  deriving DecidableEq

/-- An entry of the cache of a call site. -/
structure OneArgCallSiteCacheEntry where
  funcId : ℕ
  funcEpoch : ℕ
  hotPath : OneArgCallHotPath
  cachedCode : Option ℕ
  cachedModule : Option ℕ
  cachedOwnerClass : Option ℕ
  cachedClosure : Option (List ℕ)

/-- A function object; `plain_positional_call_arity` is computed from it. -/
structure CallableFunction (V : Type) where
  code : ℕ
  moduleId : ℕ
  defaults : List V
  kwonlyDefaults : List (String × V)
  callCacheEpoch : ℕ
  closure : List ℕ
  ownerClass : Option ℕ
  qualname : Option String

/-- A frame at its start.  The cells of `bound` are those of the cell variables and, behind
them, the closure. -/
structure SiteFrame (V : Type) where
  code : ℕ
  moduleId : ℕ
  functionGlobals : ℕ
  ownerClass : Option ℕ
  closure : List ℕ
  bound : CallFrame V
  isModule : Bool
  oneArgInlineCache : List (Option OneArgCallSiteCacheEntry)
  simpleOneArgNoCells : Bool

/-- The functions, the frames and the pools that calls read. -/
structure CallSiteVm (V : Type) where
  codes : ℕ → CodeObject
  functions : ℕ → CallableFunction V
  /-- Ids are never used again. -/
  nextFunction : ℕ
  /-- `class_qualname` -/
  classQualname : ℕ → String
  cellValues : ℕ → Option (Argument V)
  frames : List (SiteFrame V)
  framePool : List (SiteFrame V)
  simpleFramePool : List (SiteFrame V)
  simpleSlot0Pool : List (SiteFrame V)
  simpleSlot0PoolKey : Option (ℕ × ℕ)
  generatorStates : List (ℕ × SiteFrame V)
  recursionLimit : ℕ

variable {V : Type}

/-- Code that the compiler made of a comprehension. -/
def CodeObject.isComprehension (code : CodeObject) : Bool :=
  code.name ∈ ["<listcomp>", "<dictcomp>", "<genexpr>"]

/-- The variables of a frame without cells. -/
def CallFrame.noCells (code : CodeObject) : CallFrame V where
  fastLocals := List.replicate code.fastLocalCount none
  cells := []
  locals := []

/-- The argument in `push_simple_positional_function_frame_one_arg_no_cells_ref`. -/
def CallFrame.storeNoCellsArg (code : CodeObject) (frame : CallFrame V) (arg0 : V) : CallFrame V :=
  match code.plainPositionalArg0Slot.filter (· < frame.fastLocals.length) with
  | some slotIdx => { frame with fastLocals := frame.fastLocals.set slotIdx (some (.value arg0)) }
  | none =>
    match code.positionalParams.head? with
    | some name => { frame with locals := insertLocal frame.locals name (.value arg0) }
    | none => frame

namespace CallSiteVm

variable (vm : CallSiteVm V)

/-- What a call of the function binds its arguments with. -/
def binding (data : CallableFunction V) : FunctionObject V where
  code := vm.codes data.code
  defaults := data.defaults
  kwonlyDefaults := data.kwonlyDefaults
  qualname := data.qualname
  ownerQualname := data.ownerClass.map vm.classQualname

/-! ## Frames and their pools -/

/-- No entry at any instruction. -/
def emptyCache (code : ℕ) : List (Option OneArgCallSiteCacheEntry) :=
  List.replicate (vm.codes code).instructions.length none

/-- `Frame::new` -/
def newFrame (code moduleId : ℕ) (ownerClass : Option ℕ) : SiteFrame V where
  code := code
  moduleId := moduleId
  functionGlobals := moduleId
  ownerClass := ownerClass
  closure := []
  bound := .noCells (vm.codes code)
  isModule := false
  oneArgInlineCache := vm.emptyCache code
  simpleOneArgNoCells := false

/-- `reset_for_reuse` -/
def resetForReuse (frame : SiteFrame V) (code moduleId : ℕ) (ownerClass : Option ℕ) :
    SiteFrame V :=
  { vm.newFrame code moduleId ownerClass with
    oneArgInlineCache :=
      if frame.code = code then frame.oneArgInlineCache else vm.emptyCache code }

/-- `prepare_simple_one_arg_no_cells_ref`; its first branch differs only in what it leaves as it
is. -/
def prepareSimpleOneArgNoCells (frame : SiteFrame V) (code moduleId : ℕ) (ownerClass : Option ℕ) :
    SiteFrame V where
  code := code
  moduleId := moduleId
  functionGlobals := if frame.moduleId = moduleId then frame.functionGlobals else moduleId
  ownerClass := ownerClass
  closure := []
  bound := .noCells (vm.codes code)
  isModule := false
  oneArgInlineCache :=
    if frame.code = code then frame.oneArgInlineCache else vm.emptyCache code
  simpleOneArgNoCells := true

def acquireFrame (code moduleId : ℕ) (ownerClass : Option ℕ) : SiteFrame V × CallSiteVm V :=
  match vm.framePool with
  | frame :: pool =>
    (vm.resetForReuse frame code moduleId ownerClass, { vm with framePool := pool })
  | [] => (vm.newFrame code moduleId ownerClass, vm)

/-- `acquire_simple_frame_no_cells_ref`. -/
def acquireSimpleFrameNoCells (code moduleId : ℕ) (ownerClass : Option ℕ) :
    SiteFrame V × CallSiteVm V :=
  match vm.simpleFramePool with
  | frame :: pool =>
    (vm.prepareSimpleOneArgNoCells frame code moduleId ownerClass,
      { vm with simpleFramePool := pool })
  | [] => ({ vm.newFrame code moduleId ownerClass with simpleOneArgNoCells := true }, vm)

/-- `retarget_simple_slot0_pool` -/
def retargetSimpleSlot0Pool (key : ℕ × ℕ) : CallSiteVm V :=
  if vm.simpleSlot0PoolKey = some key then vm
  else
    { vm with
      simpleFramePool := vm.simpleSlot0Pool.reverse ++ vm.simpleFramePool
      simpleSlot0Pool := []
      simpleSlot0PoolKey := some key }

/-- `acquire_simple_frame_slot0_no_cells_fast_ref`: a frame of the slot-0 pool keeps its code,
module and owner class. -/
def acquireSimpleFrameSlot0 (code moduleId : ℕ) : SiteFrame V × CallSiteVm V :=
  let vm := vm.retargetSimpleSlot0Pool (code, moduleId)
  match vm.simpleSlot0Pool with
  | frame :: pool =>
    ({ frame with bound := .noCells (vm.codes frame.code), simpleOneArgNoCells := true },
      { vm with simpleSlot0Pool := pool })
  | [] => vm.acquireSimpleFrameNoCells code moduleId none

/-- `recycle_frame`; a pool holds at most 256 frames. -/
def recycleFrame (frame : SiteFrame V) : CallSiteVm V :=
  if 256 ≤ vm.framePool.length then vm
  else { vm with framePool := { frame with simpleOneArgNoCells := false } :: vm.framePool }

/-- `recycle_simple_frame_clean_slot0_unchecked` -/
def recycleSimpleFrameCleanSlot0 (frame : SiteFrame V) : CallSiteVm V :=
  if 256 ≤ vm.simpleSlot0Pool.length then vm
  else
    let vm := vm.retargetSimpleSlot0Pool (frame.code, frame.moduleId)
    { vm with
      simpleSlot0Pool := { frame with simpleOneArgNoCells := true } :: vm.simpleSlot0Pool }

/-- `recycle_simple_frame` with `try_recycle_simple_slot0_frame`. -/
def recycleSimpleFrame (frame : SiteFrame V) : CallSiteVm V :=
  if 256 ≤ vm.simpleFramePool.length then vm
  else
    let frame := { frame with closure := [], simpleOneArgNoCells := true }
    if (vm.codes frame.code).singleArgDirectSlot ∧ frame.ownerClass = none then
      let vm := vm.retargetSimpleSlot0Pool (frame.code, frame.moduleId)
      if 256 ≤ vm.simpleSlot0Pool.length then
        { vm with simpleFramePool := frame :: vm.simpleFramePool }
      else { vm with simpleSlot0Pool := frame :: vm.simpleSlot0Pool }
    else { vm with simpleFramePool := frame :: vm.simpleFramePool }

/-! ## Calls -/

/-- `push_frame_checked` -/
def pushFrameChecked (frame : SiteFrame V) : Except String (SiteFrame V) × CallSiteVm V :=
  if vm.recursionLimit ≤ vm.frames.length then (.error "maximum recursion depth exceeded", vm)
  else (.ok frame, { vm with frames := frame :: vm.frames })

/-- The frame of a generator waits under its id; the others run. -/
def finishCall (frame : SiteFrame V) (generatorId : ℕ) :
    Except String (SiteFrame V) × CallSiteVm V :=
  if (vm.codes frame.code).returnsGeneratorLike then
    (.ok frame, { vm with generatorStates := (generatorId, frame) :: vm.generatorStates })
  else vm.pushFrameChecked frame

/-- `push_function_call_from_obj` for positional arguments. -/
def pushFunctionCallFromObj (funcId : ℕ) (args : List V) (generatorId : ℕ) :
    Except String (SiteFrame V) × CallSiteVm V :=
  let data := vm.functions funcId
  match pushFunctionCall (vm.binding data) (data.closure.map vm.cellValues) args [] none with
  | .error message => (.error message, vm)
  | .ok bound =>
    let (frame, vm) := vm.acquireFrame data.code data.moduleId data.ownerClass
    vm.finishCall { frame with closure := data.closure, bound := bound } generatorId

/-- `push_simple_positional_function_frame_one_arg` -/
def pushSimplePositionalOneArg (code moduleId : ℕ) (ownerClass : Option ℕ) (closure : List ℕ)
    (arg0 : V) (generatorId : ℕ) : Except String (SiteFrame V) × CallSiteVm V :=
  let bound := CallFrame.new (vm.codes code) (closure.map vm.cellValues)
  let bound := storeFastPositionalArg (vm.codes code) bound 0 arg0
  let (frame, vm) := vm.acquireFrame code moduleId ownerClass
  vm.finishCall { frame with closure := closure, bound := bound } generatorId

/-- `push_simple_positional_function_frame_one_arg_no_cells_ref` -/
def pushNoCells (code moduleId : ℕ) (ownerClass : Option ℕ) (arg0 : V) :
    Except String (SiteFrame V) × CallSiteVm V :=
  let (frame, vm) := vm.acquireSimpleFrameNoCells code moduleId ownerClass
  vm.pushFrameChecked
    { frame with bound := frame.bound.storeNoCellsArg (vm.codes code) arg0 }

/-- `push_simple_positional_function_frame_one_arg_slot0_no_cells_ref` -/
def pushSlot0NoCells (code moduleId : ℕ) (ownerClass : Option ℕ) (arg0 : V) :
    Except String (SiteFrame V) × CallSiteVm V :=
  let (frame, vm) :=
    match ownerClass with
    | none => vm.acquireSimpleFrameSlot0 code moduleId
    | some _ => vm.acquireSimpleFrameNoCells code moduleId ownerClass
  vm.pushFrameChecked
    { frame with
      bound :=
        { frame.bound with
          fastLocals := frame.bound.fastLocals.set 0 (some (.value arg0)) } }

/-- `push_simple_positional_function_frame_one_arg_no_cells_cached_ref` -/
def pushNoCellsCached (code moduleId : ℕ) (ownerClass : Option ℕ) (arg0 : V) :
    Except String (SiteFrame V) × CallSiteVm V :=
  if (vm.codes code).singleArgDirectSlot then vm.pushSlot0NoCells code moduleId ownerClass arg0
  else vm.pushNoCells code moduleId ownerClass arg0

/-- A call with two or three arguments whose frame needs no cells. -/
def pushNoCellsArgs (funcId : ℕ) (args : List V) : Except String (SiteFrame V) × CallSiteVm V :=
  let data := vm.functions funcId
  let (frame, vm) := vm.acquireSimpleFrameNoCells data.code data.moduleId data.ownerClass
  let bound := args.zipIdx.foldl (fun bound (value, argIndex) =>
    storeFastPositionalArg (vm.codes data.code) bound argIndex value) frame.bound
  vm.pushFrameChecked { frame with bound := bound }

/-- The call takes one positional argument, and its frame needs no cells. -/
def noCellsHot (data : CallableFunction V) : Bool :=
  (vm.binding data).plainPositionalCallArity = some 1 ∧
    (vm.codes data.code).plainPositionalArg0Cell = none ∧ (vm.codes data.code).cellvars = [] ∧
    data.closure = [] ∧ (vm.codes data.code).returnsGeneratorLike = false ∧
    (vm.codes data.code).isComprehension = false

/-- The entry of the running frame for a site. -/
def cachedEntry (site : ℕ) : Option OneArgCallSiteCacheEntry :=
  vm.frames.head?.bind fun frame => frame.oneArgInlineCache[site]?.join

/-- The running frame with another entry at a site. -/
def withEntry (site : ℕ) (entry : Option OneArgCallSiteCacheEntry) : CallSiteVm V :=
  match vm.frames with
  | [] => vm
  | frame :: frames =>
    { vm with
      frames := { frame with oneArgInlineCache := frame.oneArgInlineCache.set site entry } ::
        frames }

/-- What a hit of the cache does. -/
inductive CachedCallAction
  | simpleNoCells (code moduleId : ℕ) (ownerClass : Option ℕ)
  | simpleNoCellsFromFunc
  | simplePositional (code moduleId : ℕ) (ownerClass : Option ℕ) (closure : List ℕ)
  | simplePositionalFromFunc
  | generic

/-- What an entry of the function tells the call to do; none when the entry is old.  An entry for
the path without cells answers before its epoch is looked at. -/
def cachedAction (entry : OneArgCallSiteCacheEntry) : Option CachedCallAction :=
  let valid := decide ((vm.functions entry.funcId).callCacheEpoch = entry.funcEpoch)
  match entry.hotPath with
  | .simplePositionalNoCells =>
    match entry.cachedCode, entry.cachedModule with
    | some code, some moduleId => some (.simpleNoCells code moduleId entry.cachedOwnerClass)
    | _, _ => if valid then some .simpleNoCellsFromFunc else none
  | .simplePositional =>
    if valid then
      match entry.cachedCode, entry.cachedModule, entry.cachedClosure with
      | some code, some moduleId, some closure =>
        some (.simplePositional code moduleId entry.cachedOwnerClass closure)
      | _, _, _ => some .simplePositionalFromFunc
    else none
  | .generic => if valid then some .generic else none

/-- Pushes the frame of a hit. -/
def performAction (funcId : ℕ) (arg0 : V) (generatorId : ℕ) :
    CachedCallAction → Except String (SiteFrame V) × CallSiteVm V
  | .simpleNoCells code moduleId ownerClass => vm.pushNoCellsCached code moduleId ownerClass arg0
  | .simpleNoCellsFromFunc =>
    let data := vm.functions funcId
    vm.pushNoCellsCached data.code data.moduleId data.ownerClass arg0
  | .simplePositional code moduleId ownerClass closure =>
    vm.pushSimplePositionalOneArg code moduleId ownerClass closure arg0 generatorId
  | .simplePositionalFromFunc =>
    let data := vm.functions funcId
    vm.pushSimplePositionalOneArg data.code data.moduleId data.ownerClass data.closure arg0
      generatorId
  | .generic => vm.pushFunctionCallFromObj funcId [arg0] generatorId

/-- The entry that a call without a valid entry leaves at its site. -/
def siteEntry (funcId : ℕ) : OneArgCallSiteCacheEntry :=
  let data := vm.functions funcId
  if (vm.binding data).plainPositionalCallArity = some 1 then
    { funcId := funcId
      funcEpoch := data.callCacheEpoch
      hotPath := if vm.noCellsHot data then .simplePositionalNoCells else .simplePositional
      cachedCode := some data.code
      cachedModule := some data.moduleId
      cachedOwnerClass := data.ownerClass
      cachedClosure := if vm.noCellsHot data then none else some data.closure }
  else ⟨funcId, data.callCacheEpoch, .generic, none, none, none, none⟩

/-- The part of `push_function_call_one_arg_from_obj` behind the cache. -/
def fillSite (site funcId : ℕ) (arg0 : V) (generatorId : ℕ) :
    Except String (SiteFrame V) × CallSiteVm V :=
  let data := vm.functions funcId
  let entry := vm.siteEntry funcId
  let vm := vm.withEntry site (some entry)
  match entry.hotPath with
  | .simplePositionalNoCells =>
    vm.pushNoCellsCached data.code data.moduleId data.ownerClass arg0
  | .simplePositional =>
    vm.pushSimplePositionalOneArg data.code data.moduleId data.ownerClass data.closure arg0
      generatorId
  | .generic => vm.pushFunctionCallFromObj funcId [arg0] generatorId

/-- `push_function_call_one_arg_from_obj` -/
def pushFunctionCallOneArg (site funcId : ℕ) (arg0 : V) (generatorId : ℕ) :
    Except String (SiteFrame V) × CallSiteVm V :=
  match ((vm.cachedEntry site).filter (·.funcId = funcId)).bind vm.cachedAction with
  | some action => vm.performAction funcId arg0 generatorId action
  | none => vm.fillSite site funcId arg0 generatorId

/-! ## Returns -/

/-- A return.  `fast` stands for the guards of the fast return paths. -/
def returnValue (fast : Bool) : CallSiteVm V :=
  match vm.frames with
  | [] => vm
  | frame :: frames =>
    let vm := { vm with frames := frames }
    if frame.simpleOneArgNoCells then
      if fast && (vm.codes frame.code).singleArgDirectSlot && frame.ownerClass.isNone then
        vm.recycleSimpleFrameCleanSlot0 frame
      else vm.recycleSimpleFrame frame
    else if frame.isModule || (vm.codes frame.code).returnsGeneratorLike then vm
    else vm.recycleFrame frame

/-- A generator yields, and its frame is kept. -/
def suspendGenerator (generatorId : ℕ) : CallSiteVm V :=
  match vm.frames with
  | [] => vm
  | frame :: frames =>
    { vm with frames := frames, generatorStates := (generatorId, frame) :: vm.generatorStates }

/-- The frame of a generator runs on. -/
def resumeGenerator (generatorId : ℕ) : CallSiteVm V :=
  match vm.generatorStates.find? (·.1 = generatorId) with
  | none => vm
  | some entry =>
    { vm with
      frames := entry.2 :: vm.frames
      generatorStates := vm.generatorStates.filter (·.1 ≠ generatorId) }

/-! ## Changes -/

/-- The frame with an empty cache. -/
def clearFrame (frame : SiteFrame V) : SiteFrame V :=
  { frame with oneArgInlineCache := frame.oneArgInlineCache.map fun _ => none }

/-- `clear_type_related_inline_caches` -/
def clearInlineCaches : CallSiteVm V :=
  { vm with
    frames := vm.frames.map clearFrame
    generatorStates := vm.generatorStates.map fun entry => (entry.1, clearFrame entry.2) }

/-- Another function under an id. -/
def withFunction (funcId : ℕ) (data : CallableFunction V) : CallSiteVm V :=
  { vm with functions := Function.update vm.functions funcId data }

/-- `FunctionObject::new`, with the attributes that `MakeFunction` adds. -/
def createFunction (data : CallableFunction V) : CallSiteVm V :=
  { vm.withFunction vm.nextFunction data with nextFunction := vm.nextFunction + 1 }

/-- An assignment to `__code__`. -/
def setCode (funcId code : ℕ) : CallSiteVm V :=
  let data := vm.functions funcId
  vm.withFunction funcId
    { data with code := code, callCacheEpoch := touchVersion data.callCacheEpoch }

/-- An assignment to `__defaults__`. -/
def setDefaults (funcId : ℕ) (defaults : List V) : CallSiteVm V :=
  let data := vm.functions funcId
  vm.withFunction funcId
    { data with defaults := defaults, callCacheEpoch := touchVersion data.callCacheEpoch }

/-- An assignment to `__kwdefaults__`. -/
def setKwdefaults (funcId : ℕ) (kwonlyDefaults : List (String × V)) : CallSiteVm V :=
  let data := vm.functions funcId
  vm.withFunction funcId
    { data with
      kwonlyDefaults := kwonlyDefaults, callCacheEpoch := touchVersion data.callCacheEpoch }

/-- `set_function_owner_class`, for the functions of a class body. -/
def setOwnerClass (funcId classId : ℕ) : CallSiteVm V :=
  let data := vm.functions funcId
  match data.ownerClass with
  | none => vm.withFunction funcId { data with ownerClass := some classId }
  | some _ => vm

/-- A cell gets a value, or none. -/
def storeCell (cell : ℕ) (value : Option (Argument V)) : CallSiteVm V :=
  { vm with cellValues := Function.update vm.cellValues cell value }

end CallSiteVm

end Pyrs
