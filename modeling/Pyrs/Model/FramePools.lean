import Pyrs.Model.Frame

/-!
# Frame pools

The frames of the virtual machine, with all their fields, and the three pools that frames are taken
from and returned to.  Values, objects, code objects and the entries of the site caches are any
types; code objects and objects are compared by identity.
-/

namespace Pyrs

namespace FramePool

/-- How a generator goes on. -/
inductive GeneratorResumeKind
  | next
  | throw
  | close

/-- What the pools read of a code object. -/
structure CodeTable (Code : Type) where
  fastLocalCount : Code → ℕ
  instructionLen : Code → ℕ
  plainPositionalArg0Slot : Code → Option ℕ

/-- The fields of a frame. -/
structure Frame (Value Obj Code Site : Type) where
  frameId : ℕ
  code : Code
  ip : ℕ
  lastIp : ℕ
  stack : List Value
  locals : List (String × Value)
  fastLocals : List (Option Value)
  moduleLocalsDict : Option Obj
  cells : List Obj
  module : Obj
  functionGlobals : Obj
  functionGlobalsVersion : UInt64
  globalsFallback : Option Obj
  localsFallback : Option (List (String × Value))
  ownerClass : Option Obj
  isModule : Bool
  returnModule : Bool
  discardResult : Bool
  returnInstance : Option Obj
  returnClass : Bool
  classNamespace : Option Value
  classBases : List Obj
  classOrigBases : Option Value
  classMetaclass : Option Value
  classKeywords : List (String × Value)
  blocks : List Block
  activeException : Option Value
  exceptStarMatchLasti : Option ℕ
  reraiseLastiOverride : Option ℕ
  expectNoneReturn : Bool
  generatorOwner : Option Obj
  generatorAwaitingResumeValue : Bool
  generatorResumeValue : Option Value
  generatorPendingThrow : Option Value
  generatorResumeKind : Option GeneratorResumeKind
  yieldFromIter : Option Value
  sendDelegateState : Option (UInt64 × ℕ)
  quickenedSites : List (Option Site)
  loadFastInlineCache : List (Option Site)
  loadAttrInlineCache : List (Option Site × Option Site)
  oneArgInlineCache : List (Option Site)
  loadGlobalInlineCache : List (Option Site)
  simpleOneArgNoCells : Bool

variable {Value Obj Code Site : Type}

namespace Frame

/-- `Frame::new`, for the next frame id and the globals version of the module. -/
def new (codes : CodeTable Code) (frameId : ℕ) (version : UInt64) (code : Code) (module : Obj)
    (isModule returnModule : Bool) (cells : List Obj) (ownerClass : Option Obj) :
    Frame Value Obj Code Site where
  frameId := frameId
  code := code
  ip := 0
  lastIp := 0
  stack := []
  locals := []
  fastLocals := List.replicate (codes.fastLocalCount code) none
  moduleLocalsDict := none
  cells := cells
  module := module
  functionGlobalsVersion := version
  functionGlobals := module
  globalsFallback := none
  localsFallback := none
  ownerClass := ownerClass
  isModule := isModule
  returnModule := returnModule
  discardResult := false
  returnInstance := none
  returnClass := false
  classNamespace := none
  classBases := []
  classOrigBases := none
  classMetaclass := none
  classKeywords := []
  blocks := []
  activeException := none
  exceptStarMatchLasti := none
  reraiseLastiOverride := none
  expectNoneReturn := false
  generatorOwner := none
  generatorAwaitingResumeValue := false
  generatorResumeValue := none
  generatorPendingThrow := none
  generatorResumeKind := none
  yieldFromIter := none
  sendDelegateState := none
  quickenedSites := List.replicate (codes.instructionLen code) none
  loadFastInlineCache := List.replicate (codes.instructionLen code) none
  loadAttrInlineCache := List.replicate (codes.instructionLen code) (none, none)
  oneArgInlineCache := List.replicate (codes.instructionLen code) none
  loadGlobalInlineCache := List.replicate (codes.instructionLen code) none
  simpleOneArgNoCells := false

/-- `fill(None)` -/
def fillNone (fastLocals : List (Option Value)) : List (Option Value) :=
  fastLocals.map fun _ => none

/-- The first slot is set to `None`, if there is one. -/
def clearFirst : List (Option Value) → List (Option Value)
  | [] => []
  | _ :: slots => none :: slots

/-- The site caches of the code of a frame, and slots for its locals. -/
def resetSites (codes : CodeTable Code) (frame : Frame Value Obj Code Site) :
    Frame Value Obj Code Site :=
  let instructionLen := codes.instructionLen frame.code
  let fastLocalsLen := codes.fastLocalCount frame.code
  { frame with
    quickenedSites := List.replicate instructionLen none
    loadFastInlineCache := List.replicate instructionLen none
    loadAttrInlineCache := List.replicate instructionLen (none, none)
    oneArgInlineCache := List.replicate instructionLen none
    loadGlobalInlineCache := List.replicate instructionLen none
    fastLocals :=
      if frame.fastLocals.length < fastLocalsLen then
        frame.fastLocals ++ List.replicate (fastLocalsLen - frame.fastLocals.length) none
      else frame.fastLocals.take fastLocalsLen }

section Reuse

variable [DecidableEq Code] [DecidableEq Obj] (codes : CodeTable Code)

def resetForReuse (frame : Frame Value Obj Code Site) (version : UInt64) (code : Code)
    (module : Obj) (isModule returnModule : Bool) (cells : List Obj) (ownerClass : Option Obj) :
    Frame Value Obj Code Site :=
  let sameCode := frame.code = code
  let frame := { frame with
    code := code
    ip := 0
    lastIp := 0
    exceptStarMatchLasti := none
    reraiseLastiOverride := none
    cells := cells
    module := module
    functionGlobalsVersion := version
    functionGlobals := module
    ownerClass := ownerClass
    isModule := isModule
    returnModule := returnModule
    discardResult := false
    returnClass := false
    expectNoneReturn := false
    generatorAwaitingResumeValue := false
    sendDelegateState := none
    simpleOneArgNoCells := false }
  let frame := if sameCode then frame else frame.resetSites codes
  { frame with fastLocals := fillNone frame.fastLocals }

/-- The local of a code object is its one argument. -/
def singleArgDirectSlot (code : Code) : Bool :=
  codes.fastLocalCount code = 1 && codes.plainPositionalArg0Slot code = some 0

/-- What `prepare_simple_one_arg_no_cells_ref` writes before it looks at the site caches. -/
def moveTo (frame : Frame Value Obj Code Site) (version : UInt64) (code : Code) (module : Obj)
    (ownerClass : Option Obj) : Frame Value Obj Code Site :=
  let frame := { frame with
    code := code
    ip := 0
    lastIp := 0
    exceptStarMatchLasti := none
    reraiseLastiOverride := none }
  let frame :=
    if frame.module = module then frame
    else { frame with module := module, functionGlobals := module }
  let frame := { frame with functionGlobalsVersion := version }
  let frame :=
    if frame.ownerClass = ownerClass then frame else { frame with ownerClass := ownerClass }
  { frame with simpleOneArgNoCells := true }

def prepareSimpleOneArgNoCellsRef (frame : Frame Value Obj Code Site) (version : UInt64)
    (code : Code) (module : Obj) (ownerClass : Option Obj) : Frame Value Obj Code Site :=
  if frame.code = code ∧ frame.module = module ∧ frame.ownerClass.isNone ∧ ownerClass.isNone ∧
      frame.sendDelegateState.isNone ∧ frame.fastLocals.length = 1 ∧
      codes.plainPositionalArg0Slot code = some 0 then
    { frame with
      ip := 0
      lastIp := 0
      exceptStarMatchLasti := none
      reraiseLastiOverride := none
      functionGlobalsVersion := version
      simpleOneArgNoCells := true }
  else
    let moved := frame.moveTo version code module ownerClass
    let moved := if frame.code = code then moved else moved.resetSites codes
    if singleArgDirectSlot codes moved.code then moved
    else { moved with fastLocals := fillNone moved.fastLocals }

end Reuse

/-- What `recycle_frame` leaves of a frame. -/
def cleared (frame : Frame Value Obj Code Site) : Frame Value Obj Code Site :=
  { frame with
    fastLocals := fillNone frame.fastLocals
    stack := []
    locals := []
    cells := []
    blocks := []
    classBases := []
    classKeywords := []
    moduleLocalsDict := none
    globalsFallback := none
    localsFallback := none
    returnInstance := none
    classOrigBases := none
    classMetaclass := none
    classNamespace := none
    activeException := none
    exceptStarMatchLasti := none
    reraiseLastiOverride := none
    generatorOwner := none
    generatorResumeValue := none
    generatorPendingThrow := none
    generatorResumeKind := none
    yieldFromIter := none
    sendDelegateState := none
    simpleOneArgNoCells := false }

/-- What `recycle_simple_frame` leaves of a frame, before it looks at the fast locals. -/
def simplyCleared (frame : Frame Value Obj Code Site) : Frame Value Obj Code Site :=
  { frame with
    locals := []
    cells := []
    blocks := []
    classBases := []
    classKeywords := []
    stack := []
    moduleLocalsDict := none
    globalsFallback := none
    localsFallback := none
    returnInstance := none
    classOrigBases := none
    classMetaclass := none
    classNamespace := none
    generatorOwner := none
    generatorResumeValue := none
    generatorPendingThrow := none
    generatorResumeKind := none
    yieldFromIter := none
    sendDelegateState := none
    activeException := none
    exceptStarMatchLasti := none
    reraiseLastiOverride := none
    discardResult := false
    returnClass := false
    expectNoneReturn := false
    generatorAwaitingResumeValue := false
    isModule := false
    returnModule := false
    simpleOneArgNoCells := true }

/-- The fields that the first branch of `recycle_simple_frame` finds empty. -/
structure Settled (frame : Frame Value Obj Code Site) : Prop where
  locals : frame.locals = []
  cells : frame.cells = []
  blocks : frame.blocks = []
  classBases : frame.classBases = []
  classKeywords : frame.classKeywords = []
  stack : frame.stack = []
  moduleLocalsDict : frame.moduleLocalsDict = none
  globalsFallback : frame.globalsFallback = none
  localsFallback : frame.localsFallback = none
  returnInstance : frame.returnInstance = none
  classOrigBases : frame.classOrigBases = none
  classMetaclass : frame.classMetaclass = none
  classNamespace : frame.classNamespace = none
  generatorOwner : frame.generatorOwner = none
  generatorResumeValue : frame.generatorResumeValue = none
  generatorPendingThrow : frame.generatorPendingThrow = none
  generatorResumeKind : frame.generatorResumeKind = none
  yieldFromIter : frame.yieldFromIter = none
  sendDelegateState : frame.sendDelegateState = none
  activeException : frame.activeException = none
  discardResult : frame.discardResult = false
  returnClass : frame.returnClass = false
  expectNoneReturn : frame.expectNoneReturn = false
  generatorAwaitingResumeValue : frame.generatorAwaitingResumeValue = false
  isModule : frame.isModule = false
  returnModule : frame.returnModule = false

/-- The test of the first branch of `recycle_simple_frame`. -/
def isSettled (frame : Frame Value Obj Code Site) : Bool :=
  frame.locals.isEmpty && frame.cells.isEmpty && frame.blocks.isEmpty &&
    frame.classBases.isEmpty && frame.classKeywords.isEmpty && frame.stack.isEmpty &&
    frame.moduleLocalsDict.isNone && frame.globalsFallback.isNone &&
    frame.localsFallback.isNone && frame.returnInstance.isNone &&
    frame.classOrigBases.isNone && frame.classMetaclass.isNone && frame.classNamespace.isNone &&
    frame.generatorOwner.isNone && frame.generatorResumeValue.isNone &&
    frame.generatorPendingThrow.isNone && frame.generatorResumeKind.isNone &&
    frame.yieldFromIter.isNone && frame.sendDelegateState.isNone &&
    frame.activeException.isNone && frame.exceptStarMatchLasti.isNone &&
    frame.reraiseLastiOverride.isNone && !frame.discardResult && !frame.returnClass &&
    !frame.expectNoneReturn && !frame.generatorAwaitingResumeValue && !frame.isModule &&
    !frame.returnModule

end Frame

/-- The pools, the next frame id, and the globals versions of the modules. -/
structure Vm (Value Obj Code Site : Type) where
  framePool : List (Frame Value Obj Code Site)
  simpleFramePool : List (Frame Value Obj Code Site)
  simpleSlot0Pool : List (Frame Value Obj Code Site)
  simpleSlot0PoolKey : Option (Code × Obj)
  nextVmFrameId : ℕ
  globalsVersion : Obj → UInt64

namespace Vm

section Pools

variable [DecidableEq Code] [DecidableEq Obj] (codes : CodeTable Code)

def acquireFrame (vm : Vm Value Obj Code Site) (code : Code) (module : Obj)
    (isModule returnModule : Bool) (cells : List Obj) (ownerClass : Option Obj) :
    Frame Value Obj Code Site × Vm Value Obj Code Site :=
  match vm.framePool with
  | frame :: pool =>
    (frame.resetForReuse codes (vm.globalsVersion module) code module isModule returnModule cells
      ownerClass, { vm with framePool := pool })
  | [] =>
    (.new codes vm.nextVmFrameId (vm.globalsVersion module) code module isModule returnModule cells
      ownerClass, { vm with nextVmFrameId := vm.nextVmFrameId + 1 })

def recycleFrame (vm : Vm Value Obj Code Site) (frame : Frame Value Obj Code Site) :
    Vm Value Obj Code Site :=
  if 256 ≤ vm.framePool.length then vm else { vm with framePool := frame.cleared :: vm.framePool }

def acquireSimpleFrameNoCellsRef (vm : Vm Value Obj Code Site) (code : Code) (module : Obj)
    (ownerClass : Option Obj) : Frame Value Obj Code Site × Vm Value Obj Code Site :=
  match vm.simpleFramePool with
  | frame :: pool =>
    (frame.prepareSimpleOneArgNoCellsRef codes (vm.globalsVersion module) code module ownerClass,
      { vm with simpleFramePool := pool })
  | [] =>
    ({ Frame.new codes vm.nextVmFrameId (vm.globalsVersion module) code module false false []
        ownerClass with simpleOneArgNoCells := true },
      { vm with nextVmFrameId := vm.nextVmFrameId + 1 })

/-- The frames of a pool for other code go back to the simple frames. -/
def retargetSimpleSlot0Pool (vm : Vm Value Obj Code Site) (key : Code × Obj) :
    Vm Value Obj Code Site :=
  if vm.simpleSlot0PoolKey = some key then vm
  else
    { vm with
      simpleFramePool := vm.simpleSlot0Pool.reverse ++ vm.simpleFramePool
      simpleSlot0Pool := []
      simpleSlot0PoolKey := some key }

def acquireSimpleFrameSlot0NoCellsFastRef (vm : Vm Value Obj Code Site) (code : Code)
    (module : Obj) (globalsVersion : UInt64) :
    Frame Value Obj Code Site × Vm Value Obj Code Site :=
  let vm := vm.retargetSimpleSlot0Pool (code, module)
  match vm.simpleSlot0Pool with
  | frame :: pool =>
    ({ frame with
        ip := 0
        lastIp := 0
        exceptStarMatchLasti := none
        reraiseLastiOverride := none
        functionGlobalsVersion := globalsVersion
        simpleOneArgNoCells := true }, { vm with simpleSlot0Pool := pool })
  | [] =>
    match vm.simpleFramePool with
    | frame :: pool =>
      ({ frame.prepareSimpleOneArgNoCellsRef codes (vm.globalsVersion module) code module none with
          functionGlobalsVersion := globalsVersion }, { vm with simpleFramePool := pool })
    | [] =>
      ({ Frame.new codes vm.nextVmFrameId (vm.globalsVersion module) code module false false []
          none with
          functionGlobalsVersion := globalsVersion
          simpleOneArgNoCells := true }, { vm with nextVmFrameId := vm.nextVmFrameId + 1 })

/-- The frame is returned where it is not taken. -/
def tryRecycleSimpleSlot0Frame (vm : Vm Value Obj Code Site) (frame : Frame Value Obj Code Site) :
    Vm Value Obj Code Site × Option (Frame Value Obj Code Site) :=
  if frame.ownerClass.isSome || !Frame.singleArgDirectSlot codes frame.code then (vm, some frame)
  else
    let vm := vm.retargetSimpleSlot0Pool (frame.code, frame.module)
    if 256 ≤ vm.simpleSlot0Pool.length then (vm, some frame)
    else
      let frame := { frame with
        ip := 0
        lastIp := 0
        exceptStarMatchLasti := none
        reraiseLastiOverride := none
        fastLocals := Frame.clearFirst frame.fastLocals
        simpleOneArgNoCells := true }
      ({ vm with simpleSlot0Pool := frame :: vm.simpleSlot0Pool }, none)

def recycleSimpleFrame (vm : Vm Value Obj Code Site) (frame : Frame Value Obj Code Site) :
    Vm Value Obj Code Site :=
  if 256 ≤ vm.simpleFramePool.length then vm
  else if Frame.singleArgDirectSlot codes frame.code && frame.isSettled then
    match vm.tryRecycleSimpleSlot0Frame codes frame with
    | (vm, none) => vm
    | (vm, some frame) =>
      let frame := { frame with
        fastLocals := Frame.clearFirst frame.fastLocals
        simpleOneArgNoCells := true }
      { vm with simpleFramePool := frame :: vm.simpleFramePool }
  else
    let frame := frame.simplyCleared
    if Frame.singleArgDirectSlot codes frame.code then
      match vm.tryRecycleSimpleSlot0Frame codes frame with
      | (vm, none) => vm
      | (vm, some frame) =>
        let frame := { frame with fastLocals := Frame.fillNone frame.fastLocals }
        { vm with simpleFramePool := frame :: vm.simpleFramePool }
    else
      let frame := { frame with fastLocals := Frame.fillNone frame.fastLocals }
      { vm with simpleFramePool := frame :: vm.simpleFramePool }

def recycleSimpleFrameCleanSlot0Unchecked (vm : Vm Value Obj Code Site)
    (frame : Frame Value Obj Code Site) : Vm Value Obj Code Site :=
  if 256 ≤ vm.simpleSlot0Pool.length then vm
  else
    let vm := vm.retargetSimpleSlot0Pool (frame.code, frame.module)
    let frame := { frame with
      ip := 0
      lastIp := 0
      fastLocals := Frame.clearFirst frame.fastLocals
      simpleOneArgNoCells := true }
    { vm with simpleSlot0Pool := frame :: vm.simpleSlot0Pool }

end Pools

end Vm

/-! ## Runs -/

/-- What executing a frame leaves as it is: its id, its code, how many fast locals it has, its
module, its class and its mark, and the globals of a simple frame. -/
structure Executes (before after : Frame Value Obj Code Site) : Prop where
  frameId : after.frameId = before.frameId
  code : after.code = before.code
  fastLocals : after.fastLocals.length = before.fastLocals.length
  module : after.module = before.module
  ownerClass : after.ownerClass = before.ownerClass
  mark : after.simpleOneArgNoCells = before.simpleOneArgNoCells
  functionGlobals : before.simpleOneArgNoCells = true →
    after.functionGlobals = before.functionGlobals

/-- The virtual machine and the frames that are in no pool. -/
structure State (Value Obj Code Site : Type) where
  vm : Vm Value Obj Code Site
  frames : List (Frame Value Obj Code Site)

/-- What every caller of `recycle_simple_frame_clean_slot0_unchecked` looks at.  The fast return of
`LoadFast` and that of `ReturnValue` look at more fields. -/
structure FastReturns (codes : CodeTable Code) (frame : Frame Value Obj Code Site) : Prop where
  mark : frame.simpleOneArgNoCells = true
  stack : frame.stack = []
  discardResult : frame.discardResult = false
  activeException : frame.activeException = none
  ownerClass : frame.ownerClass = none
  slot : Frame.singleArgDirectSlot codes frame.code = true

/-- A step of a run.  Frames are taken from the pools or made, do anything that a frame can do, and
are recycled or dropped; the modules change.  `Allowed` restricts the frames that are recycled
unchecked. -/
inductive Step [DecidableEq Code] [DecidableEq Obj] (codes : CodeTable Code)
    (Allowed : Frame Value Obj Code Site → Prop) :
    State Value Obj Code Site → State Value Obj Code Site → Prop
  | acquire (vm : Vm Value Obj Code Site) (frames : List (Frame Value Obj Code Site)) (code : Code)
      (module : Obj) (isModule returnModule : Bool) (cells : List Obj) (ownerClass : Option Obj)
      (frame : Frame Value Obj Code Site) (after : Vm Value Obj Code Site)
      (h : vm.acquireFrame codes code module isModule returnModule cells ownerClass =
        (frame, after)) : Step codes Allowed ⟨vm, frames⟩ ⟨after, frame :: frames⟩
  | acquireSimple (vm : Vm Value Obj Code Site) (frames : List (Frame Value Obj Code Site))
      (code : Code) (module : Obj) (ownerClass : Option Obj) (frame : Frame Value Obj Code Site)
      (after : Vm Value Obj Code Site)
      (h : vm.acquireSimpleFrameNoCellsRef codes code module ownerClass = (frame, after)) :
      Step codes Allowed ⟨vm, frames⟩ ⟨after, frame :: frames⟩
  | acquireSlot0 (vm : Vm Value Obj Code Site) (frames : List (Frame Value Obj Code Site))
      (code : Code) (module : Obj) (globalsVersion : UInt64) (frame : Frame Value Obj Code Site)
      (after : Vm Value Obj Code Site) (hcode : Frame.singleArgDirectSlot codes code = true)
      (h : vm.acquireSimpleFrameSlot0NoCellsFastRef codes code module globalsVersion =
        (frame, after)) : Step codes Allowed ⟨vm, frames⟩ ⟨after, frame :: frames⟩
  | new (vm : Vm Value Obj Code Site) (frames : List (Frame Value Obj Code Site)) (code : Code)
      (module : Obj) (isModule returnModule : Bool) (cells : List Obj) (ownerClass : Option Obj) :
      Step codes Allowed ⟨vm, frames⟩ ⟨{ vm with nextVmFrameId := vm.nextVmFrameId + 1 },
        .new codes vm.nextVmFrameId (vm.globalsVersion module) code module isModule returnModule
          cells ownerClass :: frames⟩
  | execute (vm : Vm Value Obj Code Site) (before after : List (Frame Value Obj Code Site))
      (frame executed : Frame Value Obj Code Site) (h : Executes frame executed) :
      Step codes Allowed ⟨vm, before ++ frame :: after⟩ ⟨vm, before ++ executed :: after⟩
  | recycle (vm : Vm Value Obj Code Site) (before after : List (Frame Value Obj Code Site))
      (frame : Frame Value Obj Code Site) :
      Step codes Allowed ⟨vm, before ++ frame :: after⟩
        ⟨if frame.simpleOneArgNoCells then vm.recycleSimpleFrame codes frame
          else vm.recycleFrame frame, before ++ after⟩
  | recycleUnchecked (vm : Vm Value Obj Code Site)
      (before after : List (Frame Value Obj Code Site)) (frame : Frame Value Obj Code Site)
      (hreturns : FastReturns codes frame) (hallowed : Allowed frame) :
      Step codes Allowed ⟨vm, before ++ frame :: after⟩
        ⟨vm.recycleSimpleFrameCleanSlot0Unchecked frame, before ++ after⟩
  | drop (vm : Vm Value Obj Code Site) (before after : List (Frame Value Obj Code Site))
      (frame : Frame Value Obj Code Site) :
      Step codes Allowed ⟨vm, before ++ frame :: after⟩ ⟨vm, before ++ after⟩
  | modules (vm : Vm Value Obj Code Site) (frames : List (Frame Value Obj Code Site))
      (globalsVersion : Obj → UInt64) :
      Step codes Allowed ⟨vm, frames⟩ ⟨{ vm with globalsVersion := globalsVersion }, frames⟩

end FramePool

end Pyrs
