import Mathlib.Algebra.Group.Nat.Defs
import Pyrs.Model.Arguments

/-!
# Module globals and their caches

`vm/mod.rs` and `vm/vm_execution.rs`: the globals of modules with their versions, the call frames
with the inline caches of `LoadGlobal`, the pools of finished frames, and the calls, returns, stores
and loads that work on them.  A frame is left with the fields that these read.  Code objects are
`Rc` pointers, here indices of `codes`.
-/

namespace Pyrs

/-- A counter of 64 bits that skips zero. -/
def touchVersion (version : ℕ) : ℕ :=
  let next := (version + 1) % 2 ^ 64
  if next = 0 then 1 else next

/-- A module: its globals and their version. -/
structure ModuleObject (V : Type) where
  name : String
  globals : String → Option V
  globalsVersion : ℕ

/-- A module without globals. -/
def ModuleObject.new {V : Type} (name : String) : ModuleObject V :=
  ⟨name, fun _ => none, 1⟩

/-- An entry of the cache of a `LoadGlobal`. -/
structure LoadGlobalSiteCacheEntry (V : Type) where
  globalsModuleId : ℕ
  globalsVersion : ℕ
  builtinsVersion : ℕ
  value : V

/-- A frame with the version of globals that it was made under. -/
structure GlobalsFrame (V : Type) where
  code : ℕ
  moduleId : ℕ
  functionGlobals : ℕ
  functionGlobalsVersion : ℕ
  ownerClass : Option ℕ
  isModule : Bool
  loadGlobalInlineCache : List (Option (LoadGlobalSiteCacheEntry V))
  simpleOneArgNoCells : Bool

/-- What a call reads of a function. -/
structure CalledFunction where
  code : ℕ
  moduleId : ℕ
  ownerClass : Option ℕ
  plainPositionalCallArity : Option ℕ
  hasClosure : Bool

/-- The innermost frame is the first one. -/
structure GlobalsVm (V : Type) where
  codes : ℕ → CodeObject
  modules : ℕ → ModuleObject V
  /-- `modules.get("builtins")` -/
  builtinsModule : Option ℕ
  builtins : String → Option V
  builtinsVersion : ℕ
  frames : List (GlobalsFrame V)
  framePool : List (GlobalsFrame V)
  simpleFramePool : List (GlobalsFrame V)
  simpleSlot0Pool : List (GlobalsFrame V)
  simpleSlot0PoolKey : Option (ℕ × ℕ)
  generatorStates : List (ℕ × GlobalsFrame V)
  recursionLimit : ℕ

/-! ## Code objects -/

namespace CodeObject

/-- The slot of the first positional parameter, unless it is a cell. -/
def plainPositionalArg0Slot (code : CodeObject) : Option ℕ :=
  code.positionalParams.head?.bind code.nameToIndex

/-- The cell of the first parameter, where it has one. -/
def plainPositionalArg0Cell (code : CodeObject) : Option ℕ :=
  code.positionalParams.head?.bind code.cellvarToIndex

/-- The only fast local is the first parameter. -/
def singleArgDirectSlot (code : CodeObject) : Bool :=
  code.fastLocalCount = 1 ∧ code.plainPositionalArg0Slot = some 0

/-- Code whose call gives a generator. -/
def returnsGeneratorLike (code : CodeObject) : Bool :=
  code.isGenerator || code.isCoroutine || code.isAsyncGenerator

/-- The name that the `LoadGlobal` at an index loads. -/
def globalName (code : CodeObject) (site : ℕ) : Option String :=
  match code.instructions[site]? with
  | some ⟨.loadGlobal, some raw⟩ => code.names[raw >>> 1]?
  | _ => none

end CodeObject

variable {V : Type}

namespace GlobalsVm

variable (vm : GlobalsVm V)

/-- The version of a module's globals. -/
def globalsVersion (moduleId : ℕ) : ℕ :=
  (vm.modules moduleId).globalsVersion

/-! ## Frames and their pools -/

/-- No entry at any instruction. -/
def emptyCache (code : ℕ) : List (Option (LoadGlobalSiteCacheEntry V)) :=
  List.replicate (vm.codes code).instructions.length none

/-- `Frame::new` -/
def newFrame (code moduleId : ℕ) (isModule : Bool) (ownerClass : Option ℕ) : GlobalsFrame V where
  code := code
  moduleId := moduleId
  functionGlobals := moduleId
  functionGlobalsVersion := vm.globalsVersion moduleId
  ownerClass := ownerClass
  isModule := isModule
  loadGlobalInlineCache := vm.emptyCache code
  simpleOneArgNoCells := false

/-- `reset_for_reuse`: the caches stay when the code object does. -/
def resetForReuse (frame : GlobalsFrame V) (code moduleId : ℕ) (isModule : Bool)
    (ownerClass : Option ℕ) : GlobalsFrame V where
  code := code
  moduleId := moduleId
  functionGlobals := moduleId
  functionGlobalsVersion := vm.globalsVersion moduleId
  ownerClass := ownerClass
  isModule := isModule
  loadGlobalInlineCache :=
    if frame.code = code then frame.loadGlobalInlineCache else vm.emptyCache code
  simpleOneArgNoCells := false

/-- `prepare_simple_one_arg_no_cells_ref` -/
def prepareSimpleOneArgNoCells (frame : GlobalsFrame V) (code moduleId : ℕ)
    (ownerClass : Option ℕ) : GlobalsFrame V :=
  if frame.code = code ∧ frame.moduleId = moduleId ∧ frame.ownerClass = none ∧ ownerClass = none ∧
      (vm.codes code).singleArgDirectSlot = true then
    { frame with
      functionGlobalsVersion := vm.globalsVersion moduleId
      simpleOneArgNoCells := true }
  else
    { frame with
      code := code
      moduleId := moduleId
      functionGlobals := if frame.moduleId = moduleId then frame.functionGlobals else moduleId
      functionGlobalsVersion := vm.globalsVersion moduleId
      ownerClass := ownerClass
      loadGlobalInlineCache :=
        if frame.code = code then frame.loadGlobalInlineCache else vm.emptyCache code
      simpleOneArgNoCells := true }

def acquireFrame (code moduleId : ℕ) (isModule : Bool) (ownerClass : Option ℕ) :
    GlobalsFrame V × GlobalsVm V :=
  match vm.framePool with
  | frame :: pool =>
    (vm.resetForReuse frame code moduleId isModule ownerClass, { vm with framePool := pool })
  | [] => (vm.newFrame code moduleId isModule ownerClass, vm)

/-- `acquire_simple_frame_no_cells_ref`. -/
def acquireSimpleFrameNoCells (code moduleId : ℕ) (ownerClass : Option ℕ) :
    GlobalsFrame V × GlobalsVm V :=
  match vm.simpleFramePool with
  | frame :: pool =>
    (vm.prepareSimpleOneArgNoCells frame code moduleId ownerClass,
      { vm with simpleFramePool := pool })
  | [] => ({ vm.newFrame code moduleId false ownerClass with simpleOneArgNoCells := true }, vm)

/-- `retarget_simple_slot0_pool`: frames for another function move to the general pool. -/
def retargetSimpleSlot0Pool (key : ℕ × ℕ) : GlobalsVm V :=
  if vm.simpleSlot0PoolKey = some key then vm
  else
    { vm with
      simpleFramePool := vm.simpleSlot0Pool.reverse ++ vm.simpleFramePool
      simpleSlot0Pool := []
      simpleSlot0PoolKey := some key }

/-- `acquire_simple_frame_slot0_no_cells_fast_ref` -/
def acquireSimpleFrameSlot0 (code moduleId globalsVersion : ℕ) : GlobalsFrame V × GlobalsVm V :=
  let vm := vm.retargetSimpleSlot0Pool (code, moduleId)
  match vm.simpleSlot0Pool with
  | frame :: pool =>
    ({ frame with functionGlobalsVersion := globalsVersion, simpleOneArgNoCells := true },
      { vm with simpleSlot0Pool := pool })
  | [] =>
    match vm.simpleFramePool with
    | frame :: pool =>
      ({ vm.prepareSimpleOneArgNoCells frame code moduleId none with
          functionGlobalsVersion := globalsVersion },
        { vm with simpleFramePool := pool })
    | [] =>
      ({ vm.newFrame code moduleId false none with
          functionGlobalsVersion := globalsVersion, simpleOneArgNoCells := true }, vm)

/-- `recycle_frame`; a pool holds at most 256 frames. -/
def recycleFrame (frame : GlobalsFrame V) : GlobalsVm V :=
  if 256 ≤ vm.framePool.length then vm
  else { vm with framePool := { frame with simpleOneArgNoCells := false } :: vm.framePool }

/-- `recycle_simple_frame_clean_slot0_unchecked` -/
def recycleSimpleFrameCleanSlot0 (frame : GlobalsFrame V) : GlobalsVm V :=
  if 256 ≤ vm.simpleSlot0Pool.length then vm
  else
    let vm := vm.retargetSimpleSlot0Pool (frame.code, frame.moduleId)
    { vm with
      simpleSlot0Pool := { frame with simpleOneArgNoCells := true } :: vm.simpleSlot0Pool }

/-- `recycle_simple_frame` with `try_recycle_simple_slot0_frame`. -/
def recycleSimpleFrame (frame : GlobalsFrame V) : GlobalsVm V :=
  if 256 ≤ vm.simpleFramePool.length then vm
  else
    let frame := { frame with isModule := false, simpleOneArgNoCells := true }
    if (vm.codes frame.code).singleArgDirectSlot ∧ frame.ownerClass = none then
      let vm := vm.retargetSimpleSlot0Pool (frame.code, frame.moduleId)
      if 256 ≤ vm.simpleSlot0Pool.length then
        { vm with simpleFramePool := frame :: vm.simpleFramePool }
      else { vm with simpleSlot0Pool := frame :: vm.simpleSlot0Pool }
    else { vm with simpleFramePool := frame :: vm.simpleFramePool }

/-! ## Calls and returns -/

/-- `push_frame_checked`: at the recursion limit the frame is dropped. -/
def pushFrameChecked (frame : GlobalsFrame V) : GlobalsVm V :=
  if vm.recursionLimit ≤ vm.frames.length then vm
  else { vm with frames := frame :: vm.frames }

/-- A call on a path that builds its frame with `acquire_frame`.  The frame of a generator waits
under its id. -/
def pushFunctionCallFromObj (func : CalledFunction) (generatorId : ℕ) : GlobalsVm V :=
  let (frame, vm) := vm.acquireFrame func.code func.moduleId false func.ownerClass
  if (vm.codes func.code).returnsGeneratorLike then
    { vm with generatorStates := (generatorId, frame) :: vm.generatorStates }
  else vm.pushFrameChecked frame

/-- `push_simple_positional_function_frame_one_arg_no_cells_ref` -/
def pushSimpleNoCells (func : CalledFunction) : GlobalsVm V :=
  let (frame, vm) := vm.acquireSimpleFrameNoCells func.code func.moduleId func.ownerClass
  vm.pushFrameChecked frame

/-- `push_simple_positional_function_frame_one_arg_slot0_no_cells_ref`: the version comes from the
caller. -/
def pushSimpleSlot0NoCells (func : CalledFunction) : GlobalsVm V :=
  let globalsVersion :=
    (vm.frames.head?.map (·.functionGlobalsVersion)).getD (vm.globalsVersion func.moduleId)
  let (frame, vm) :=
    match func.ownerClass with
    | none => vm.acquireSimpleFrameSlot0 func.code func.moduleId globalsVersion
    | some _ =>
      let (frame, vm) := vm.acquireSimpleFrameNoCells func.code func.moduleId func.ownerClass
      ({ frame with functionGlobalsVersion := globalsVersion }, vm)
  vm.pushFrameChecked frame

/-- The call takes one positional argument, and its frame needs no cells. -/
def noCellsHot (func : CalledFunction) : Bool :=
  func.plainPositionalCallArity = some 1 ∧
    (vm.codes func.code).plainPositionalArg0Cell = none ∧ (vm.codes func.code).cellvars = [] ∧
    func.hasClosure = false ∧ (vm.codes func.code).returnsGeneratorLike = false

/-- `push_function_call_one_arg_from_obj` without its call-site cache. -/
def pushFunctionCallOneArg (func : CalledFunction) (generatorId : ℕ) : GlobalsVm V :=
  if vm.noCellsHot func then
    if (vm.codes func.code).singleArgDirectSlot then vm.pushSimpleSlot0NoCells func
    else vm.pushSimpleNoCells func
  else vm.pushFunctionCallFromObj func generatorId

/-- A return.  `fast` stands for the guards of the two fast return paths that read the operands of
the frame. -/
def returnValue (fast : Bool) : GlobalsVm V :=
  match vm.frames with
  | [] => vm
  | frame :: frames =>
    let vm := { vm with frames := frames }
    if frame.simpleOneArgNoCells then
      if fast && (vm.codes frame.code).singleArgDirectSlot && frame.ownerClass.isNone then
        vm.recycleSimpleFrameCleanSlot0 frame
      else vm.recycleSimpleFrame frame
    else if frame.isModule || (vm.codes frame.code).returnsGeneratorLike then vm
    else vm.recycleFrame frame

/-- A generator gives up its frame at a `yield`. -/
def suspendGenerator (generatorId : ℕ) : GlobalsVm V :=
  match vm.frames with
  | [] => vm
  | frame :: frames =>
    { vm with frames := frames, generatorStates := (generatorId, frame) :: vm.generatorStates }

/-- A suspended generator runs on. -/
def resumeGenerator (generatorId : ℕ) : GlobalsVm V :=
  match vm.generatorStates.find? (·.1 = generatorId) with
  | none => vm
  | some entry =>
    { vm with
      frames := entry.2 :: vm.frames
      generatorStates := vm.generatorStates.filter (·.1 ≠ generatorId) }

/-! ## Stores -/

/-- The version of a frame, and its cache entries, after a write to a module. -/
def propagateFrame (moduleId version : ℕ) (frame : GlobalsFrame V) : GlobalsFrame V :=
  { frame with
    functionGlobalsVersion :=
      if frame.functionGlobals = moduleId then version else frame.functionGlobalsVersion
    loadGlobalInlineCache := frame.loadGlobalInlineCache.map fun slot =>
      slot.filter fun cached => cached.globalsModuleId ≠ moduleId }

/-- `propagate_module_globals_version`: only the frames of the stack and of suspended generators. -/
def propagateModuleGlobalsVersion (moduleId version : ℕ) : GlobalsVm V :=
  { vm with
    frames := vm.frames.map (propagateFrame moduleId version)
    generatorStates := vm.generatorStates.map fun entry =>
      (entry.1, propagateFrame moduleId version entry.2) }

/-- Write or remove a global, and touch the version of its module. -/
def writeGlobal (moduleId : ℕ) (name : String) (value : Option V) : GlobalsVm V :=
  let data := vm.modules moduleId
  let data := { data with
    globals := Function.update data.globals name value
    globalsVersion := touchVersion data.globalsVersion }
  { vm with modules := Function.update vm.modules moduleId data }

/-- A builtin gets a value, or none. -/
def writeBuiltin (name : String) (value : Option V) : GlobalsVm V :=
  { vm with
    builtins := Function.update vm.builtins name value
    builtinsVersion := touchVersion vm.builtinsVersion }

/-- `upsert_module_global`, for `StoreGlobal` and for `StoreAttr` on a module. -/
def upsertModuleGlobal (moduleId : ℕ) (name : String) (value : V) : GlobalsVm V :=
  let isBuiltinsModule := (vm.modules moduleId).name = "builtins"
  let vm := vm.writeGlobal moduleId name (some value)
  let vm := if isBuiltinsModule then vm.writeBuiltin name (some value) else vm
  vm.propagateModuleGlobalsVersion moduleId (vm.globalsVersion moduleId)

/-- `StoreGlobal` of the running frame. -/
def storeGlobal (name : String) (value : V) : GlobalsVm V :=
  match vm.frames with
  | [] => vm
  | frame :: _ => vm.upsertModuleGlobal frame.functionGlobals name value

/-- `store_name_by_index`; outside a module the name is a local. -/
def storeName (name : String) (value : V) : GlobalsVm V :=
  match vm.frames with
  | [] => vm
  | frame :: _ =>
    if frame.isModule then
      let vm := vm.writeGlobal frame.moduleId name (some value)
      vm.propagateModuleGlobalsVersion frame.moduleId (vm.globalsVersion frame.moduleId)
    else vm

/-- `DeleteAttr` on a module. -/
def deleteModuleAttr (moduleId : ℕ) (name : String) : Except String (GlobalsVm V) :=
  match (vm.modules moduleId).globals name with
  | none => .error s!"module attribute '{name}' does not exist"
  | some _ =>
    let vm := vm.writeGlobal moduleId name none
    .ok (vm.propagateModuleGlobalsVersion moduleId (vm.globalsVersion moduleId))

/-! ## Loads -/

/-- `lookup_builtin_global` keeps what it finds in the `builtins` module. -/
def lookupBuiltinGlobal (name : String) : Option V × GlobalsVm V :=
  match vm.builtins name with
  | some value => (some value, vm)
  | none =>
    match vm.builtinsModule.bind fun moduleId => (vm.modules moduleId).globals name with
    | some value => (some value, vm.writeBuiltin name (some value))
    | none => (none, vm)

/-- `resolve_load_global_value` -/
def resolveLoadGlobalValue (frame : GlobalsFrame V) (name : String) : Option V × GlobalsVm V :=
  match (vm.modules frame.functionGlobals).globals name with
  | some value => (some value, vm)
  | none => vm.lookupBuiltinGlobal name

/-- `LoadGlobal` at an instruction of the running frame; no value stands for a `NameError`. -/
def loadGlobal (site : ℕ) : Option V × GlobalsVm V :=
  match vm.frames with
  | [] => (none, vm)
  | frame :: frames =>
    match (vm.codes frame.code).globalName site with
    | none => (none, vm)
    | some name =>
      match (frame.loadGlobalInlineCache[site]?.join).filter fun cached =>
          cached.globalsModuleId = frame.functionGlobals ∧
            cached.globalsVersion = frame.functionGlobalsVersion ∧
            cached.builtinsVersion = vm.builtinsVersion with
      | some cached => (some cached.value, vm)
      | none =>
        match vm.resolveLoadGlobalValue frame name with
        | (none, vm) => (none, vm)
        | (some value, vm) =>
          let entry := ⟨frame.functionGlobals, frame.functionGlobalsVersion, vm.builtinsVersion,
            value⟩
          let frame := if frame.functionGlobalsVersion ≠ 0 then
              { frame with
                loadGlobalInlineCache := frame.loadGlobalInlineCache.set site (some entry) }
            else frame
          (some value, { vm with frames := frame :: frames })

end GlobalsVm

end Pyrs
