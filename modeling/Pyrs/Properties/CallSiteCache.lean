import Pyrs.Model.CallSites
import Pyrs.Properties.GlobalsCache

/-!
# The cache of one-argument call sites

An entry for the path without cells is trusted without a look at the epoch of its function.  As long
as such an entry is cached, its function has to keep what the entry holds; every other entry dies
with the epoch.
-/

namespace Pyrs

variable {V : Type}

/-! ## Runs -/

inductive CallSiteAction (V : Type)
  | callOneArg (site funcId : ℕ) (arg0 : V) (generatorId : ℕ)
  | call (funcId : ℕ) (args : List V) (generatorId : ℕ)
  | callNoCells (funcId : ℕ) (args : List V)
  | returnValue (fast : Bool)
  | suspendGenerator (generatorId : ℕ)
  | resumeGenerator (generatorId : ℕ)
  | createFunction (data : CallableFunction V)
  | setCode (funcId code : ℕ)
  | setDefaults (funcId : ℕ) (defaults : List V)
  | setKwdefaults (funcId : ℕ) (kwonlyDefaults : List (String × V))
  | setOwnerClass (funcId classId : ℕ)
  | clearInlineCaches
  | storeCell (cell : ℕ) (value : Option (Argument V))

/-- What a call hands to the frame that it pushes. -/
structure PushedFrame (V : Type) where
  code : ℕ
  functionGlobals : ℕ
  ownerClass : Option ℕ
  closure : List ℕ
  bound : CallFrame V

def SiteFrame.pushed (frame : SiteFrame V) : PushedFrame V :=
  ⟨frame.code, frame.functionGlobals, frame.ownerClass, frame.closure, frame.bound⟩

namespace CallSiteVm

def perform (vm : CallSiteVm V) : CallSiteAction V → CallSiteVm V
  | .callOneArg site funcId arg0 generatorId =>
    (vm.pushFunctionCallOneArg site funcId arg0 generatorId).2
  | .call funcId args generatorId => (vm.pushFunctionCallFromObj funcId args generatorId).2
  | .callNoCells funcId args => (vm.pushNoCellsArgs funcId args).2
  | .returnValue fast => vm.returnValue fast
  | .suspendGenerator generatorId => vm.suspendGenerator generatorId
  | .resumeGenerator generatorId => vm.resumeGenerator generatorId
  | .createFunction data => vm.createFunction data
  | .setCode funcId code => vm.setCode funcId code
  | .setDefaults funcId defaults => vm.setDefaults funcId defaults
  | .setKwdefaults funcId kwonlyDefaults => vm.setKwdefaults funcId kwonlyDefaults
  | .setOwnerClass funcId classId => vm.setOwnerClass funcId classId
  | .clearInlineCaches => vm.clearInlineCaches
  | .storeCell cell value => vm.storeCell cell value

/-- A module is about to run. -/
structure Starts (vm : CallSiteVm V) : Prop where
  frames : ∃ code moduleId, vm.frames = [{ vm.newFrame code moduleId none with isModule := true }]
  framePool : vm.framePool = []
  simpleFramePool : vm.simpleFramePool = []
  simpleSlot0Pool : vm.simpleSlot0Pool = []
  generatorStates : vm.generatorStates = []

/-- The machines that allowed actions lead to; only functions that exist are called. -/
inductive Reaches (Allowed : CallSiteVm V → CallSiteAction V → Prop) : CallSiteVm V → Prop
  | start {vm : CallSiteVm V} (h : vm.Starts) : Reaches Allowed vm
  | step {vm : CallSiteVm V} {action : CallSiteAction V} (h : Reaches Allowed vm)
      (hknown : ∀ site funcId arg0 generatorId,
        action = .callOneArg site funcId arg0 generatorId → funcId < vm.nextFunction)
      (hallowed : Allowed vm action) : Reaches Allowed (vm.perform action)

/-- The frames that run, wait or are pooled. -/
def allFrames (vm : CallSiteVm V) : List (SiteFrame V) :=
  (vm.frames ++ vm.generatorStates.map Prod.snd) ++
    (vm.framePool ++ vm.simpleFramePool ++ vm.simpleSlot0Pool)

def Cached (vm : CallSiteVm V) (entry : OneArgCallSiteCacheEntry) : Prop :=
  ∃ frame ∈ vm.allFrames, some entry ∈ frame.oneArgInlineCache

/-- No epoch is at its last value.  A function with an entry for the path without cells gets no
other code object and at most one default, and one whose entry holds an owner class that is still
looked at gets no other owner class. -/
structure KeepsCallSites (vm : CallSiteVm V) (action : CallSiteAction V) : Prop where
  epochs_lt : ∀ funcId, (vm.functions funcId).callCacheEpoch < 2 ^ 64 - 1
  code : ∀ funcId code, action = .setCode funcId code → ∀ entry, vm.Cached entry →
    entry.funcId = funcId → entry.hotPath = .simplePositionalNoCells →
      code = (vm.functions funcId).code
  defaults : ∀ funcId defaults, action = .setDefaults funcId defaults → ∀ entry,
    vm.Cached entry → entry.funcId = funcId → entry.hotPath = .simplePositionalNoCells →
      defaults.length ≤ 1
  ownerClass : ∀ funcId classId, action = .setOwnerClass funcId classId → ∀ entry,
    vm.Cached entry → entry.funcId = funcId →
      entry.hotPath = .simplePositionalNoCells ∨ entry.hotPath = .simplePositional ∧
        entry.funcEpoch = (vm.functions funcId).callCacheEpoch →
      (vm.functions funcId).ownerClass ≠ none

/-! ## The invariant -/

/-- The function can still be called on the path without cells. -/
structure StillHot (vm : CallSiteVm V) (data : CallableFunction V) : Prop where
  arity : (vm.codes data.code).plainPositionalArity = some 1
  cellvars : (vm.codes data.code).cellvars = []
  closure : data.closure = []
  generator : (vm.codes data.code).returnsGeneratorLike = false
  defaults : data.defaults.length ≤ 1

structure EntryOk (vm : CallSiteVm V) (entry : OneArgCallSiteCacheEntry) : Prop where
  known : entry.funcId < vm.nextFunction
  epoch_le : entry.funcEpoch ≤ (vm.functions entry.funcId).callCacheEpoch
  holds : entry.hotPath = .simplePositionalNoCells ∨ entry.hotPath = .simplePositional ∧
      entry.funcEpoch = (vm.functions entry.funcId).callCacheEpoch →
    entry.cachedCode = some (vm.functions entry.funcId).code ∧
      entry.cachedModule = some (vm.functions entry.funcId).moduleId ∧
      entry.cachedOwnerClass = (vm.functions entry.funcId).ownerClass
  noCells : entry.hotPath = .simplePositionalNoCells →
    vm.StillHot (vm.functions entry.funcId)
  simple : entry.hotPath = .simplePositional →
    entry.funcEpoch = (vm.functions entry.funcId).callCacheEpoch →
      entry.cachedClosure = some (vm.functions entry.funcId).closure ∧
        (vm.binding (vm.functions entry.funcId)).plainPositionalCallArity = some 1

structure FrameOk (vm : CallSiteVm V) (frame : SiteFrame V) : Prop where
  functionGlobals : frame.functionGlobals = frame.moduleId
  closure : frame.simpleOneArgNoCells = true → frame.closure = []
  entries : ∀ entry, some entry ∈ frame.oneArgInlineCache → vm.EntryOk entry

/-- A frame of the slot-0 pool is ready for the key of the pool. -/
structure Slot0Ok (vm : CallSiteVm V) (key : Option (ℕ × ℕ)) (frame : SiteFrame V) : Prop
    extends vm.FrameOk frame where
  key : key = some (frame.code, frame.moduleId)
  ownerClass : frame.ownerClass = none
  noClosure : frame.closure = []

/-- The invariant of runs. -/
structure Coherent (vm : CallSiteVm V) : Prop where
  live : ∀ frame ∈ vm.frames ++ vm.generatorStates.map Prod.snd, vm.FrameOk frame
  framePool : ∀ frame ∈ vm.framePool, vm.FrameOk frame
  simpleFramePool : ∀ frame ∈ vm.simpleFramePool, vm.FrameOk frame
  simpleSlot0Pool : ∀ frame ∈ vm.simpleSlot0Pool, vm.Slot0Ok vm.simpleSlot0PoolKey frame

variable {vm vm' : CallSiteVm V}

lemma Coherent.entryOk (h : vm.Coherent) {entry : OneArgCallSiteCacheEntry}
    (hcached : vm.Cached entry) : vm.EntryOk entry := by
  obtain ⟨frame, hframe, hentry⟩ := hcached
  suffices hok : vm.FrameOk frame from hok.entries entry hentry
  simp only [allFrames, List.mem_append] at hframe
  rcases hframe with hframe | (hframe | hframe) | hframe
  · exact h.live frame (List.mem_append.2 hframe)
  · exact h.framePool frame hframe
  · exact h.simpleFramePool frame hframe
  · exact (h.simpleSlot0Pool frame hframe).toFrameOk

end CallSiteVm

/-! ## The path without cells -/

section Hot

variable {code : CodeObject} {func : FunctionObject V}

/-- A code object for one plain positional argument. -/
lemma CodeObject.params_of_plainPositionalArity (h : code.plainPositionalArity = some 1) :
    code.kwonlyParams = [] ∧ code.vararg = none ∧ code.kwarg = none ∧
      ∃ name, code.positionalParams = [name] ∧
        (code.posonlyParams = [name] ∧ code.params = [] ∨
          code.posonlyParams = [] ∧ code.params = [name]) := by
  unfold plainPositionalArity at h
  split_ifs at h with hplain
  simp only [Bool.and_eq_true, List.isEmpty_iff, Option.isNone_iff_eq_none] at hplain
  refine ⟨hplain.1.1, hplain.1.2, hplain.2, ?_⟩
  have hlength := Option.some.inj h
  unfold positionalParams
  rcases hposonly : code.posonlyParams with _ | ⟨name, posonly⟩
  · rw [hposonly, List.length_nil, Nat.zero_add] at hlength
    obtain ⟨name, hname⟩ := List.length_eq_one_iff.1 hlength
    exact ⟨name, by simp [hname], .inr ⟨rfl, hname⟩⟩
  · rw [hposonly, List.length_cons] at hlength
    have hrest : posonly = [] := List.length_eq_zero_iff.1 (by omega)
    have hparams : code.params = [] := List.length_eq_zero_iff.1 (by omega)
    exact ⟨name, by simp [hrest, hparams], .inl ⟨by rw [hrest], hparams⟩⟩

/-- One argument for one parameter, with or without a default. -/
lemma bindArguments_one (harity : func.code.plainPositionalArity = some 1)
    (hdefaults : func.defaults.length ≤ 1) (arg0 : V) :
    bindArguments func [arg0] [] none =
      .ok ⟨[arg0].take func.code.posonlyParams.length, [arg0].drop func.code.posonlyParams.length,
        [], none, none⟩ := by
  obtain ⟨hkwonly, hvararg, hkwarg, name, -, hparams⟩ :=
    CodeObject.params_of_plainPositionalArity harity
  unfold bindArguments
  rcases hcases : func.defaults with _ | ⟨default, defaults⟩
  · rcases hparams with ⟨hposonly, hparams⟩ | ⟨hposonly, hparams⟩ <;>
      simp [hkwonly, hvararg, hkwarg, bindPlainPositional, hposonly, hparams]
  · have hrest : defaults = [] := by
      rw [hcases, List.length_cons] at hdefaults
      exact List.length_eq_zero_iff.1 (by omega)
    subst hrest
    rcases hparams with ⟨hposonly, hparams⟩ | ⟨hposonly, hparams⟩ <;>
      simp [hkwonly, hvararg, hkwarg, bindGeneral, hposonly, hparams, hcases, orderedKwargs,
        takeInOrder, missingRequired, fillDefaults, List.reduceOption] <;> rfl

/-- Without cells, a parameter is assigned where the path without cells stores it. -/
lemma assignBinding_noCells {name : String} (hparams : code.positionalParams = [name])
    (hcellvars : code.cellvars = []) (arg0 : V) :
    assignBinding code (.noCells code) name (.value arg0) =
      (CallFrame.noCells code).storeNoCellsArg code arg0 := by
  have hcell : code.cellvarToIndex name = none := by simp [CodeObject.cellvarToIndex, hcellvars]
  unfold assignBinding CallFrame.storeNoCellsArg CodeObject.plainPositionalArg0Slot
  rw [hcell, hparams]
  dsimp only [Option.filter_none, List.head?_cons, Option.bind_some]
  cases hslot : code.nameToIndex name with
  | none => rfl
  | some slotIdx =>
    have hmem : slotIdx ∈ code.positionalParams.filterMap code.nameToIndex := by
      simp [hparams, hslot]
    have hcount : slotIdx < code.fastLocalCount := lt_foldl_max (List.mem_append_right _ hmem) 0
    have hlt : slotIdx < (CallFrame.noCells code : CallFrame V).fastLocals.length := by
      simpa [CallFrame.noCells] using hcount
    rw [Option.filter_some, decide_eq_true hlt]
    rfl

/-- So does the path for plain positional calls. -/
lemma storeFastPositionalArg_noCells (hcellvars : code.cellvars = []) (arg0 : V) :
    storeFastPositionalArg code (.noCells code) 0 arg0 =
      (CallFrame.noCells code).storeNoCellsArg code arg0 := by
  have hcell : ∀ name, code.cellvarToIndex name = none := fun name => by
    simp [CodeObject.cellvarToIndex, hcellvars]
  unfold storeFastPositionalArg CallFrame.storeNoCellsArg CodeObject.plainPositionalArg0Slot
  rcases code.positionalParams with _ | ⟨name, params⟩
  · rfl
  · dsimp only [List.getElem?_cons_zero, List.head?_cons, Option.bind_some]
    rw [hcell]
    rfl

/-- With a single fast local, the argument is stored into it at once. -/
lemma storeNoCellsArg_slot0 (h : code.singleArgDirectSlot = true) (arg0 : V) :
    (CallFrame.noCells code).storeNoCellsArg code arg0 =
      { CallFrame.noCells code with
        fastLocals := (CallFrame.noCells code).fastLocals.set 0 (some (.value arg0)) } := by
  obtain ⟨hcount, hslot⟩ := of_decide_eq_true h
  unfold CallFrame.storeNoCellsArg
  rw [hslot, Option.filter_some, if_pos (by simp [CallFrame.noCells, hcount])]

/-- What a call of a hot function binds, cached or not. -/
lemma CallSiteVm.StillHot.pushFunctionCall {vm : CallSiteVm V} {data : CallableFunction V}
    (h : vm.StillHot data) (arg0 : V) :
    pushFunctionCall (vm.binding data) (data.closure.map vm.cellValues) [arg0] [] none =
      .ok ((CallFrame.noCells (vm.codes data.code)).storeNoCellsArg (vm.codes data.code) arg0) := by
  have hnew : CallFrame.new (vm.codes data.code) (data.closure.map vm.cellValues) =
      CallFrame.noCells (vm.codes data.code) := by
    unfold CallFrame.new CallFrame.noCells
    rw [h.cellvars, h.closure]
    rfl
  unfold Pyrs.pushFunctionCall
  dsimp only
  change (if _ then _ else (bindArguments (vm.binding data) [arg0] [] none).map
    (applyBindings (vm.codes data.code) (CallFrame.new (vm.codes data.code) _))) = _
  split_ifs
  · rw [← storeFastPositionalArg_noCells h.cellvars, ← hnew]
    rfl
  · rw [bindArguments_one h.arity h.defaults, hnew]
    obtain ⟨hkwonly, hvararg, hkwarg, name, hname, hparams⟩ :=
      CodeObject.params_of_plainPositionalArity h.arity
    rw [← assignBinding_noCells hname h.cellvars]
    change Except.ok (applyBindings _ _ _) = _
    congr 1
    rcases hparams with ⟨hposonly, hparams⟩ | ⟨hposonly, hparams⟩ <;>
      simp [applyBindings, assignBindings, binding, hposonly, hparams, hkwonly, hvararg, hkwarg]

end Hot

namespace CallSiteVm

variable {vm vm' : CallSiteVm V}

/-! ## Pools -/

/-- The machine with other pools. -/
def withPools (vm : CallSiteVm V) (framePool simpleFramePool simpleSlot0Pool : List (SiteFrame V))
    (key : Option (ℕ × ℕ)) : CallSiteVm V :=
  { vm with
    framePool := framePool
    simpleFramePool := simpleFramePool
    simpleSlot0Pool := simpleSlot0Pool
    simpleSlot0PoolKey := key }

/-- Entries stay right when functions and code objects stay. -/
lemma EntryOk.congr {entry : OneArgCallSiteCacheEntry} (h : vm.EntryOk entry)
    (hcodes : vm'.codes = vm.codes) (hnext : vm'.nextFunction = vm.nextFunction)
    (hfunctions : vm'.functions = vm.functions) : vm'.EntryOk entry := by
  obtain ⟨hknown, hepoch, hholds, hnoCells, hsimple⟩ := h
  refine ⟨by rwa [hnext], by rwa [hfunctions], by rwa [hfunctions], fun hpath => ?_,
    fun hpath hsame => ?_⟩
  · obtain ⟨harity, hcellvars, hclosure, hgenerator, hdefaults⟩ := hnoCells hpath
    rw [hfunctions]
    exact ⟨by rwa [hcodes], by rwa [hcodes], hclosure, by rwa [hcodes], hdefaults⟩
  · rw [hfunctions] at hsame ⊢
    obtain ⟨hclosure, harity⟩ := hsimple hpath hsame
    refine ⟨hclosure, ?_⟩
    unfold FunctionObject.plainPositionalCallArity binding at harity ⊢
    rwa [hcodes]

lemma FrameOk.congr {frame : SiteFrame V} (h : vm.FrameOk frame)
    (hcodes : vm'.codes = vm.codes) (hnext : vm'.nextFunction = vm.nextFunction)
    (hfunctions : vm'.functions = vm.functions) : vm'.FrameOk frame :=
  ⟨h.functionGlobals, h.closure,
    fun entry hentry => (h.entries entry hentry).congr hcodes hnext hfunctions⟩

lemma Slot0Ok.congr {key : Option (ℕ × ℕ)} {frame : SiteFrame V} (h : vm.Slot0Ok key frame)
    (hcodes : vm'.codes = vm.codes) (hnext : vm'.nextFunction = vm.nextFunction)
    (hfunctions : vm'.functions = vm.functions) : vm'.Slot0Ok key frame :=
  ⟨h.toFrameOk.congr hcodes hnext hfunctions, h.key, h.ownerClass, h.noClosure⟩

lemma Coherent.withPools (h : vm.Coherent)
    {framePool simpleFramePool simpleSlot0Pool : List (SiteFrame V)} {key : Option (ℕ × ℕ)}
    (hframes : ∀ frame ∈ framePool, vm.FrameOk frame)
    (hsimple : ∀ frame ∈ simpleFramePool, vm.FrameOk frame)
    (hslot0 : ∀ frame ∈ simpleSlot0Pool, vm.Slot0Ok key frame) :
    (vm.withPools framePool simpleFramePool simpleSlot0Pool key).Coherent :=
  ⟨fun frame hframe => (h.live frame hframe).congr rfl rfl rfl,
    fun frame hframe => (hframes frame hframe).congr rfl rfl rfl,
    fun frame hframe => (hsimple frame hframe).congr rfl rfl rfl,
    fun frame hframe => (hslot0 frame hframe).congr rfl rfl rfl⟩

lemma Coherent.withLive (h : vm.Coherent) {frames : List (SiteFrame V)}
    {generatorStates : List (ℕ × SiteFrame V)}
    (hlive : ∀ frame ∈ frames ++ generatorStates.map Prod.snd, vm.FrameOk frame) :
    ({ vm with frames := frames, generatorStates := generatorStates } : CallSiteVm V).Coherent :=
  ⟨fun frame hframe => (hlive frame hframe).congr rfl rfl rfl,
    fun frame hframe => (h.framePool frame hframe).congr rfl rfl rfl,
    fun frame hframe => (h.simpleFramePool frame hframe).congr rfl rfl rfl,
    fun frame hframe => (h.simpleSlot0Pool frame hframe).congr rfl rfl rfl⟩

lemma notMem_emptyCache (vm : CallSiteVm V) (code : ℕ) (entry : OneArgCallSiteCacheEntry) :
    some entry ∉ vm.emptyCache code := fun h => by
  cases (List.mem_replicate.1 h).2

lemma frameOk_newFrame (vm : CallSiteVm V) (code moduleId : ℕ) (ownerClass : Option ℕ) :
    vm.FrameOk (vm.newFrame code moduleId ownerClass) :=
  ⟨rfl, fun _ => rfl, fun entry hentry => absurd hentry (notMem_emptyCache vm code entry)⟩

/-- A frame for the code, module and owner class, and the machine without it. -/
structure Acquires (vm : CallSiteVm V) (code moduleId : ℕ) (ownerClass : Option ℕ)
    (result : SiteFrame V × CallSiteVm V) : Prop where
  coherent : result.2.Coherent
  frameOk : vm.FrameOk result.1
  pushed : result.1.pushed = ⟨code, moduleId, ownerClass, [], .noCells (vm.codes code)⟩
  pools : ∃ framePool simpleFramePool simpleSlot0Pool key,
    result.2 = vm.withPools framePool simpleFramePool simpleSlot0Pool key

lemma entries_retarget {frame : SiteFrame V} (h : vm.FrameOk frame) (code : ℕ) :
    ∀ entry, some entry ∈ (if frame.code = code then frame.oneArgInlineCache
      else vm.emptyCache code) → vm.EntryOk entry := by
  intro entry hentry
  split_ifs at hentry
  · exact h.entries entry hentry
  · exact absurd hentry (notMem_emptyCache vm code entry)

lemma acquires_acquireFrame (h : vm.Coherent) (code moduleId : ℕ) (ownerClass : Option ℕ) :
    Acquires vm code moduleId ownerClass (vm.acquireFrame code moduleId ownerClass) := by
  unfold acquireFrame
  split
  next frame pool hpool =>
    have hmem := hpool ▸ h.framePool
    refine ⟨h.withPools (fun frame hframe => hmem frame (List.mem_cons_of_mem _ hframe))
      h.simpleFramePool h.simpleSlot0Pool, ?_, rfl, _, _, _, _, rfl⟩
    exact ⟨rfl, fun _ => rfl, entries_retarget (hmem frame List.mem_cons_self) code⟩
  next => exact ⟨h, frameOk_newFrame .., rfl, _, _, _, _, rfl⟩

lemma acquires_acquireSimpleFrameNoCells (h : vm.Coherent) (code moduleId : ℕ)
    (ownerClass : Option ℕ) :
    Acquires vm code moduleId ownerClass
      (vm.acquireSimpleFrameNoCells code moduleId ownerClass) := by
  unfold acquireSimpleFrameNoCells
  split
  next frame pool hpool =>
    have hmem := hpool ▸ h.simpleFramePool
    have hframe := hmem frame List.mem_cons_self
    have hglobals : (if frame.moduleId = moduleId then frame.functionGlobals else moduleId) =
        moduleId := by
      split_ifs with hmodule
      · exact hframe.functionGlobals.trans hmodule
      · rfl
    refine ⟨h.withPools h.framePool
      (fun frame hframe => hmem frame (List.mem_cons_of_mem _ hframe)) h.simpleSlot0Pool,
      ⟨hglobals, fun _ => rfl, entries_retarget hframe code⟩, ?_, _, _, _, _, rfl⟩
    unfold prepareSimpleOneArgNoCells SiteFrame.pushed
    rw [hglobals]
  next =>
    exact ⟨h, ⟨rfl, fun _ => rfl, (frameOk_newFrame vm code moduleId ownerClass).entries⟩, rfl,
      _, _, _, _, rfl⟩

lemma coherent_retargetSimpleSlot0Pool (h : vm.Coherent) (key : ℕ × ℕ) :
    (vm.retargetSimpleSlot0Pool key).Coherent ∧
      (vm.retargetSimpleSlot0Pool key).simpleSlot0PoolKey = some key ∧
      ∃ simpleFramePool simpleSlot0Pool key', vm.retargetSimpleSlot0Pool key =
        vm.withPools vm.framePool simpleFramePool simpleSlot0Pool key' := by
  unfold retargetSimpleSlot0Pool
  split_ifs with hkey
  · exact ⟨h, hkey, _, _, _, rfl⟩
  · have hpool := MovingFrames.forall_retargeted h.simpleFramePool
      fun frame hframe => (h.simpleSlot0Pool frame hframe).toFrameOk
    exact ⟨h.withPools h.framePool hpool (by simp), rfl, _, _, _, rfl⟩

lemma acquires_acquireSimpleFrameSlot0 (h : vm.Coherent) (code moduleId : ℕ) :
    Acquires vm code moduleId none (vm.acquireSimpleFrameSlot0 code moduleId) := by
  obtain ⟨hcoherent, hkey, simpleFramePool, simpleSlot0Pool, key, hpools⟩ :=
    coherent_retargetSimpleSlot0Pool h (code, moduleId)
  unfold acquireSimpleFrameSlot0
  dsimp only
  generalize vm.retargetSimpleSlot0Pool (code, moduleId) = retargeted at *
  split
  next frame pool hpool =>
    have hmem := hpool ▸ hcoherent.simpleSlot0Pool
    have hframe := hmem frame List.mem_cons_self
    obtain ⟨hcode, hmodule⟩ := Prod.mk.inj (Option.some.inj (hkey.symm.trans hframe.key))
    subst hpools
    refine ⟨hcoherent.withPools hcoherent.framePool hcoherent.simpleFramePool
      fun frame hframe => hmem frame (List.mem_cons_of_mem _ hframe),
      ⟨hframe.functionGlobals, fun _ => hframe.noClosure, fun entry hentry =>
        (hframe.entries entry hentry).congr rfl rfl rfl⟩, ?_, _, _, _, _, rfl⟩
    unfold SiteFrame.pushed
    rw [hframe.functionGlobals, hframe.ownerClass, hframe.noClosure, ← hcode, ← hmodule]
    rfl
  next =>
    obtain ⟨hcoherent', hframe, hpushed, _, _, _, _, hpools'⟩ :=
      acquires_acquireSimpleFrameNoCells hcoherent code moduleId none
    subst hpools
    exact ⟨hcoherent', hframe.congr rfl rfl rfl, hpushed, _, _, _, _, hpools'⟩

/-! ## Calls -/

/-- What a push of the frame gives. -/
def pushOutcome (vm : CallSiteVm V) (frame : PushedFrame V) : Except String (PushedFrame V) :=
  if vm.recursionLimit ≤ vm.frames.length then .error "maximum recursion depth exceeded"
  else .ok frame

/-- The same for a call that may make a generator. -/
def finishOutcome (vm : CallSiteVm V) (frame : PushedFrame V) : Except String (PushedFrame V) :=
  if (vm.codes frame.code).returnsGeneratorLike then .ok frame else vm.pushOutcome frame

/-- What a call without a cache gives. -/
def callOutcome (vm : CallSiteVm V) (data : CallableFunction V) (args : List V) :
    Except String (PushedFrame V) :=
  match pushFunctionCall (vm.binding data) (data.closure.map vm.cellValues) args [] none with
  | .error message => .error message
  | .ok bound => vm.finishOutcome ⟨data.code, data.moduleId, data.ownerClass, data.closure, bound⟩

/-- The result of a push, and the machine behind it. -/
structure Pushes (outcome : Except String (PushedFrame V))
    (result : Except String (SiteFrame V) × CallSiteVm V) : Prop where
  outcome : result.1.map SiteFrame.pushed = outcome
  coherent : result.2.Coherent

lemma pushes_pushFrameChecked (h : vm.Coherent) {frame : SiteFrame V} (hframe : vm.FrameOk frame) :
    Pushes (vm.pushOutcome frame.pushed) (vm.pushFrameChecked frame) := by
  unfold pushFrameChecked pushOutcome
  split_ifs
  · exact ⟨rfl, h⟩
  · refine ⟨rfl, h.withLive fun other hother => ?_⟩
    rcases List.mem_cons.1 hother with rfl | hother
    · exact hframe
    · exact h.live other hother

lemma pushes_finishCall (h : vm.Coherent) {frame : SiteFrame V} (hframe : vm.FrameOk frame)
    (generatorId : ℕ) : Pushes (vm.finishOutcome frame.pushed)
    (vm.finishCall frame generatorId) := by
  have hcode : frame.pushed.code = frame.code := rfl
  unfold finishCall finishOutcome
  rw [hcode]
  split_ifs
  · refine ⟨rfl, h.withLive fun other hother => ?_⟩
    rw [List.map_cons, List.mem_append, List.mem_cons, or_left_comm, ← List.mem_append] at hother
    rcases hother with rfl | hother
    · exact hframe
    · exact h.live other hother
  · exact pushes_pushFrameChecked h hframe

/-- An acquired frame with its variables is pushed. -/
lemma Acquires.push {code moduleId : ℕ} {ownerClass : Option ℕ}
    {result : SiteFrame V × CallSiteVm V} (h : Acquires vm code moduleId ownerClass result)
    (bound : CallFrame V) :
    Pushes (vm.pushOutcome ⟨code, moduleId, ownerClass, [], bound⟩)
      (result.2.pushFrameChecked { result.1 with bound := bound }) := by
  obtain ⟨hcoherent, hframe, hpushed, _, _, _, _, hpools⟩ := h
  have hframe' : result.2.FrameOk { result.1 with bound := bound } := by
    rw [hpools]
    exact ⟨hframe.functionGlobals, hframe.closure,
      fun entry hentry => (hframe.entries entry hentry).congr rfl rfl rfl⟩
  have hpush := pushes_pushFrameChecked hcoherent hframe'
  have hsame : SiteFrame.pushed { result.1 with bound := bound } =
      { result.1.pushed with bound := bound } := rfl
  have houtcome : ∀ frame, result.2.pushOutcome frame = vm.pushOutcome frame := fun _ => by
    rw [hpools]
    rfl
  rwa [hsame, hpushed, houtcome] at hpush

lemma pushes_pushNoCellsCached (h : vm.Coherent) (code moduleId : ℕ) (ownerClass : Option ℕ)
    (arg0 : V) :
    Pushes (vm.pushOutcome ⟨code, moduleId, ownerClass, [],
        (CallFrame.noCells (vm.codes code)).storeNoCellsArg (vm.codes code) arg0⟩)
      (vm.pushNoCellsCached code moduleId ownerClass arg0) := by
  have hbound : ∀ {result : SiteFrame V × CallSiteVm V},
      Acquires vm code moduleId ownerClass result →
        result.1.bound = .noCells (vm.codes code) ∧ result.2.codes = vm.codes := by
    rintro result ⟨-, -, hpushed, _, _, _, _, hpools⟩
    exact ⟨congrArg PushedFrame.bound hpushed, by rw [hpools]; rfl⟩
  unfold pushNoCellsCached
  split_ifs with hdirect
  · rw [storeNoCellsArg_slot0 hdirect]
    unfold pushSlot0NoCells
    cases ownerClass with
    | none =>
      have hacquires := acquires_acquireSimpleFrameSlot0 h code moduleId
      rw [← (hbound hacquires).1]
      exact hacquires.push _
    | some owner =>
      have hacquires := acquires_acquireSimpleFrameNoCells h code moduleId (some owner)
      rw [← (hbound hacquires).1]
      exact hacquires.push _
  · have hacquires := acquires_acquireSimpleFrameNoCells h code moduleId ownerClass
    obtain ⟨hnew, hcodes⟩ := hbound hacquires
    rw [← hnew]
    unfold pushNoCells
    dsimp only
    rw [hcodes]
    exact hacquires.push _

lemma pushes_pushNoCellsArgs (h : vm.Coherent) (funcId : ℕ) (args : List V) :
    ∃ outcome, Pushes outcome (vm.pushNoCellsArgs funcId args) :=
  ⟨_, (acquires_acquireSimpleFrameNoCells h _ _ _).push _⟩

/-- An acquired general frame with its cells and variables is pushed, or waits. -/
lemma pushes_acquireFrame (h : vm.Coherent) (code moduleId : ℕ) (ownerClass : Option ℕ)
    (closure : List ℕ) (bound : CallFrame V) (generatorId : ℕ) :
    Pushes (vm.finishOutcome ⟨code, moduleId, ownerClass, closure, bound⟩)
      ((vm.acquireFrame code moduleId ownerClass).2.finishCall
        { (vm.acquireFrame code moduleId ownerClass).1 with closure := closure, bound := bound }
        generatorId) := by
  obtain ⟨hcoherent, hframe, hpushed, _, _, _, _, hpools⟩ :=
    acquires_acquireFrame h code moduleId ownerClass
  have hsimple : (vm.acquireFrame code moduleId ownerClass).1.simpleOneArgNoCells = false := by
    unfold acquireFrame
    split <;> rfl
  generalize vm.acquireFrame code moduleId ownerClass = result at *
  have hframe' : result.2.FrameOk { result.1 with closure := closure, bound := bound } := by
    rw [hpools]
    refine ⟨hframe.functionGlobals, fun htrue => ?_,
      fun entry hentry => (hframe.entries entry hentry).congr rfl rfl rfl⟩
    rw [hsimple] at htrue
    cases htrue
  have hpush := pushes_finishCall hcoherent hframe' generatorId
  have hsame : SiteFrame.pushed { result.1 with closure := closure, bound := bound } =
      { result.1.pushed with closure := closure, bound := bound } := rfl
  have houtcome : ∀ frame, result.2.finishOutcome frame = vm.finishOutcome frame := fun _ => by
    rw [hpools]
    rfl
  rwa [hsame, hpushed, houtcome] at hpush

lemma pushes_pushFunctionCallFromObj (h : vm.Coherent) (funcId : ℕ) (args : List V)
    (generatorId : ℕ) : Pushes (vm.callOutcome (vm.functions funcId) args)
      (vm.pushFunctionCallFromObj funcId args generatorId) := by
  unfold pushFunctionCallFromObj callOutcome
  dsimp only
  cases pushFunctionCall (vm.binding (vm.functions funcId))
      ((vm.functions funcId).closure.map vm.cellValues) args [] none with
  | error message => exact ⟨rfl, h⟩
  | ok bound => exact pushes_acquireFrame h _ _ _ _ _ generatorId

/-- The path for one positional argument gives what the uncached call gives. -/
lemma pushes_pushSimplePositionalOneArg (h : vm.Coherent) {data : CallableFunction V}
    (harity : (vm.binding data).plainPositionalCallArity = some 1) (arg0 : V) (generatorId : ℕ) :
    Pushes (vm.callOutcome data [arg0]) (vm.pushSimplePositionalOneArg data.code data.moduleId
      data.ownerClass data.closure arg0 generatorId) := by
  have hcall : pushFunctionCall (vm.binding data) (data.closure.map vm.cellValues) [arg0] [] none =
      .ok (storeFastPositionalArg (vm.codes data.code)
        (CallFrame.new (vm.codes data.code) (data.closure.map vm.cellValues)) 0 arg0) := by
    unfold pushFunctionCall
    dsimp only
    rw [if_pos (by simp [harity])]
    rfl
  unfold callOutcome
  rw [hcall]
  exact pushes_acquireFrame h _ _ _ _ _ generatorId

/-- So does the path without cells, for a function that is still hot. -/
lemma pushes_of_stillHot (h : vm.Coherent) {data : CallableFunction V} (hhot : vm.StillHot data)
    (arg0 : V) : Pushes (vm.callOutcome data [arg0])
      (vm.pushNoCellsCached data.code data.moduleId data.ownerClass arg0) := by
  have hpush := pushes_pushNoCellsCached h data.code data.moduleId data.ownerClass arg0
  unfold callOutcome finishOutcome
  rw [hhot.pushFunctionCall]
  dsimp only
  rw [hhot.generator, if_neg Bool.false_ne_true, hhot.closure]
  exact hpush

/-! ## The site -/

lemma coherent_withEntry (h : vm.Coherent) (site : ℕ) {entry : OneArgCallSiteCacheEntry}
    (hentry : vm.EntryOk entry) : (vm.withEntry site (some entry)).Coherent := by
  unfold withEntry
  split
  next => exact h
  next frame frames hframes =>
    have hlive := hframes ▸ h.live
    have hlift : ∀ other, vm.FrameOk other → FrameOk
        { vm with frames := { frame with
          oneArgInlineCache := frame.oneArgInlineCache.set site (some entry) } :: frames }
        other := fun other hother => hother.congr rfl rfl rfl
    refine ⟨fun other hother => hlift other ?_,
      fun other hother => (h.framePool other hother).congr rfl rfl rfl,
      fun other hother => (h.simpleFramePool other hother).congr rfl rfl rfl,
      fun other hother => (h.simpleSlot0Pool other hother).congr rfl rfl rfl⟩
    rcases List.mem_cons.1 hother with rfl | hother
    · have hframe := hlive frame List.mem_cons_self
      refine ⟨hframe.functionGlobals, hframe.closure, fun other hother => ?_⟩
      rcases List.mem_or_eq_of_mem_set hother with hother | heq
      · exact hframe.entries other hother
      · exact Option.some.inj heq ▸ hentry
    · exact hlive other (List.mem_cons_of_mem _ hother)

lemma callOutcome_withEntry (vm : CallSiteVm V) (site : ℕ)
    (entry : Option OneArgCallSiteCacheEntry) (data : CallableFunction V) (args : List V) :
    (vm.withEntry site entry).callOutcome data args = vm.callOutcome data args := by
  unfold withEntry
  split
  next => rfl
  next frame frames hframes =>
    have hpush : ∀ pushed : PushedFrame V, vm.pushOutcome pushed =
        if vm.recursionLimit ≤ frames.length + 1 then .error "maximum recursion depth exceeded"
        else .ok pushed := fun pushed => by
      unfold pushOutcome
      rw [hframes, List.length_cons]
    unfold callOutcome finishOutcome
    simp only [hpush]
    rfl

/-- A function on the path without cells is hot. -/
lemma stillHot_of_noCellsHot {data : CallableFunction V} (h : vm.noCellsHot data = true) :
    vm.StillHot data ∧ (vm.binding data).plainPositionalCallArity = some 1 := by
  obtain ⟨harity, -, hcellvars, hclosure, hgenerator, -⟩ := of_decide_eq_true h
  have hplain := harity
  unfold FunctionObject.plainPositionalCallArity at hplain
  split_ifs at hplain with hdefaults
  simp only [Bool.and_eq_true, List.isEmpty_iff] at hdefaults
  exact ⟨⟨hplain, hcellvars, hclosure, hgenerator,
    by rw [show data.defaults = [] from hdefaults.1]; exact Nat.zero_le 1⟩, harity⟩

lemma entryOk_siteEntry {funcId : ℕ} (hknown : funcId < vm.nextFunction) :
    vm.EntryOk (vm.siteEntry funcId) := by
  unfold siteEntry
  dsimp only
  split_ifs with harity hhot
  · refine ⟨hknown, le_rfl, fun _ => ⟨rfl, rfl, rfl⟩, fun _ => (stillHot_of_noCellsHot hhot).1,
      fun h => ?_⟩
    cases h
  · refine ⟨hknown, le_rfl, fun _ => ⟨rfl, rfl, rfl⟩, fun h => ?_, fun _ _ => ⟨rfl, harity⟩⟩
    cases h
  · refine ⟨hknown, le_rfl, fun h => ?_, fun h => ?_, fun h => ?_⟩
    · rcases h with h | ⟨h, -⟩ <;> cases h
    · cases h
    · cases h

lemma siteEntry_funcId (vm : CallSiteVm V) (funcId : ℕ) :
    (vm.siteEntry funcId).funcId = funcId ∧
      (vm.siteEntry funcId).funcEpoch = (vm.functions funcId).callCacheEpoch := by
  unfold siteEntry
  dsimp only
  split_ifs <;> exact ⟨rfl, rfl⟩

lemma pushes_fillSite (h : vm.Coherent) (site : ℕ) {funcId : ℕ} (hknown : funcId < vm.nextFunction)
    (arg0 : V) (generatorId : ℕ) : Pushes (vm.callOutcome (vm.functions funcId) [arg0])
      (vm.fillSite site funcId arg0 generatorId) := by
  have hsame : ∀ entry, (vm.withEntry site entry).functions = vm.functions ∧
      (vm.withEntry site entry).codes = vm.codes ∧
      (vm.withEntry site entry).nextFunction = vm.nextFunction := fun entry => by
    unfold withEntry
    split <;> exact ⟨rfl, rfl, rfl⟩
  obtain ⟨hfunctions, hcodes, hnext⟩ := hsame (some (vm.siteEntry funcId))
  obtain ⟨hid, hepoch⟩ := siteEntry_funcId vm funcId
  have hcoherent := coherent_withEntry h site (entryOk_siteEntry hknown)
  have hentry := (entryOk_siteEntry hknown).congr hcodes hnext hfunctions
  rw [← callOutcome_withEntry vm site (some (vm.siteEntry funcId))]
  unfold fillSite
  dsimp only
  generalize vm.withEntry site (some (vm.siteEntry funcId)) = vm' at *
  rw [← hfunctions] at hepoch ⊢
  cases hpath : (vm.siteEntry funcId).hotPath with
  | simplePositionalNoCells =>
    have hhot := hentry.noCells hpath
    rw [hid] at hhot
    exact pushes_of_stillHot hcoherent hhot arg0
  | simplePositional =>
    have harity := (hentry.simple hpath (by rw [hid, hepoch])).2
    rw [hid] at harity
    exact pushes_pushSimplePositionalOneArg hcoherent harity arg0 generatorId
  | generic => exact pushes_pushFunctionCallFromObj hcoherent funcId [arg0] generatorId

/-- An entry that answers tells the call to do what the uncached call does. -/
lemma pushes_performAction (h : vm.Coherent) {entry : OneArgCallSiteCacheEntry}
    (hentry : vm.EntryOk entry) {action : CachedCallAction}
    (haction : vm.cachedAction entry = some action) (arg0 : V) (generatorId : ℕ) :
    Pushes (vm.callOutcome (vm.functions entry.funcId) [arg0])
      (vm.performAction entry.funcId arg0 generatorId action) := by
  unfold cachedAction at haction
  dsimp only at haction
  cases hpath : entry.hotPath with
  | simplePositionalNoCells =>
    obtain ⟨hcode, hmodule, howner⟩ := hentry.holds (.inl hpath)
    rw [hpath, hcode, hmodule, howner] at haction
    obtain rfl := Option.some.inj haction
    exact pushes_of_stillHot h (hentry.noCells hpath) arg0
  | simplePositional =>
    rw [hpath] at haction
    dsimp only at haction
    split_ifs at haction with hvalid
    have hepoch := (of_decide_eq_true hvalid).symm
    obtain ⟨hcode, hmodule, howner⟩ := hentry.holds (.inr ⟨hpath, hepoch⟩)
    obtain ⟨hclosure, harity⟩ := hentry.simple hpath hepoch
    rw [hcode, hmodule, howner, hclosure] at haction
    obtain rfl := Option.some.inj haction
    exact pushes_pushSimplePositionalOneArg h harity arg0 generatorId
  | generic =>
    rw [hpath] at haction
    dsimp only at haction
    split_ifs at haction
    obtain rfl := Option.some.inj haction
    exact pushes_pushFunctionCallFromObj h entry.funcId [arg0] generatorId

lemma cached_of_cachedEntry {site : ℕ} {entry : OneArgCallSiteCacheEntry}
    (h : vm.cachedEntry site = some entry) : vm.Cached entry := by
  unfold cachedEntry at h
  obtain ⟨frame, hframe, hentry⟩ := Option.bind_eq_some_iff.1 h
  refine ⟨frame, ?_, List.mem_of_getElem? (Option.join_eq_some_iff.1 hentry)⟩
  exact List.mem_append_left _ (List.mem_append_left _ (List.mem_of_mem_head? hframe))

/-- A call through the site gives what the uncached call gives. -/
lemma pushes_pushFunctionCallOneArg (h : vm.Coherent) (site : ℕ) {funcId : ℕ}
    (hknown : funcId < vm.nextFunction) (arg0 : V) (generatorId : ℕ) :
    Pushes (vm.callOutcome (vm.functions funcId) [arg0])
      (vm.pushFunctionCallOneArg site funcId arg0 generatorId) := by
  unfold pushFunctionCallOneArg
  split
  next action haction =>
    obtain ⟨entry, hfilter, hanswer⟩ := Option.bind_eq_some_iff.1 haction
    obtain ⟨hcached, hid⟩ := Option.filter_eq_some_iff.1 hfilter
    obtain rfl := of_decide_eq_true hid
    exact pushes_performAction h (h.entryOk (cached_of_cachedEntry hcached)) hanswer arg0
      generatorId
  next => exact pushes_fillSite h site hknown arg0 generatorId

/-! ## Returns -/

lemma coherent_recycleFrame (h : vm.Coherent) {frame : SiteFrame V} (hframe : vm.FrameOk frame) :
    (vm.recycleFrame frame).Coherent := by
  unfold recycleFrame
  split_ifs
  · exact h
  · refine h.withPools ?_ h.simpleFramePool h.simpleSlot0Pool
    exact MovingFrames.forall_recycled h.framePool
      ⟨hframe.functionGlobals, fun htrue => (Bool.false_ne_true htrue).elim, hframe.entries⟩

/-- A frame joins the slot-0 pool for its own key. -/
lemma coherent_slot0_cons (h : vm.Coherent) {frame : SiteFrame V} (hframe : vm.FrameOk frame)
    (howner : frame.ownerClass = none) (hclosure : frame.closure = []) :
    ({ vm.retargetSimpleSlot0Pool (frame.code, frame.moduleId) with
      simpleSlot0Pool := { frame with simpleOneArgNoCells := true } ::
        (vm.retargetSimpleSlot0Pool (frame.code, frame.moduleId)).simpleSlot0Pool } :
      CallSiteVm V).Coherent := by
  obtain ⟨hcoherent, hkey, _, _, _, hpools⟩ :=
    coherent_retargetSimpleSlot0Pool h (frame.code, frame.moduleId)
  generalize vm.retargetSimpleSlot0Pool (frame.code, frame.moduleId) = retargeted at *
  refine hcoherent.withPools hcoherent.framePool hcoherent.simpleFramePool ?_
  refine MovingFrames.forall_recycled hcoherent.simpleSlot0Pool ⟨?_, hkey, howner, hclosure⟩
  subst hpools
  exact ⟨hframe.functionGlobals, fun _ => hclosure, fun entry hentry =>
    (hframe.entries entry hentry).congr rfl rfl rfl⟩

lemma coherent_recycleSimpleFrameCleanSlot0 (h : vm.Coherent) {frame : SiteFrame V}
    (hframe : vm.FrameOk frame) (howner : frame.ownerClass = none) (hclosure : frame.closure = []) :
    (vm.recycleSimpleFrameCleanSlot0 frame).Coherent := by
  unfold recycleSimpleFrameCleanSlot0
  split_ifs
  · exact h
  · exact coherent_slot0_cons h hframe howner hclosure

lemma coherent_recycleSimpleFrame (h : vm.Coherent) {frame : SiteFrame V}
    (hframe : vm.FrameOk frame) : (vm.recycleSimpleFrame frame).Coherent := by
  have hclean : vm.FrameOk { frame with closure := [], simpleOneArgNoCells := true } :=
    ⟨hframe.functionGlobals, fun _ => rfl, hframe.entries⟩
  unfold recycleSimpleFrame
  dsimp only
  split_ifs with hfull hdirect hslot0
  · exact h
  · obtain ⟨hcoherent, -, _, _, _, hpools⟩ :=
      coherent_retargetSimpleSlot0Pool h (frame.code, frame.moduleId)
    generalize vm.retargetSimpleSlot0Pool (frame.code, frame.moduleId) = retargeted at *
    refine hcoherent.withPools hcoherent.framePool ?_ hcoherent.simpleSlot0Pool
    refine MovingFrames.forall_recycled hcoherent.simpleFramePool ?_
    subst hpools
    exact hclean.congr rfl rfl rfl
  · exact coherent_slot0_cons h hclean hdirect.2 rfl
  · refine h.withPools h.framePool ?_ h.simpleSlot0Pool
    exact MovingFrames.forall_recycled h.simpleFramePool hclean

lemma coherent_returnValue (h : vm.Coherent) (fast : Bool) : (vm.returnValue fast).Coherent := by
  unfold returnValue
  split
  next => exact h
  next frame frames hframes =>
    have hlive := hframes ▸ h.live
    have hpopped : ({ vm with frames := frames } : CallSiteVm V).Coherent :=
      h.withLive fun other hother => hlive other (MovingFrames.mem_live_of_popped hother)
    have hframe : ({ vm with frames := frames } : CallSiteVm V).FrameOk frame :=
      (hlive frame List.mem_cons_self).congr rfl rfl rfl
    dsimp only
    split_ifs with hsimple hfast hmodule
    · simp only [Bool.and_eq_true, Option.isNone_iff_eq_none] at hfast
      exact coherent_recycleSimpleFrameCleanSlot0 hpopped hframe hfast.2 (hframe.closure hsimple)
    · exact coherent_recycleSimpleFrame hpopped hframe
    · exact hpopped
    · exact coherent_recycleFrame hpopped hframe

lemma coherent_suspendGenerator (h : vm.Coherent) (generatorId : ℕ) :
    (vm.suspendGenerator generatorId).Coherent := by
  unfold suspendGenerator
  split
  next => exact h
  next frame frames hframes =>
    have hlive := hframes ▸ h.live
    exact h.withLive fun other hother => hlive other (MovingFrames.mem_live_of_suspended hother)

lemma coherent_resumeGenerator (h : vm.Coherent) (generatorId : ℕ) :
    (vm.resumeGenerator generatorId).Coherent := by
  unfold resumeGenerator
  split
  next => exact h
  next entry hentry =>
    exact h.withLive fun other hother =>
      h.live other (MovingFrames.mem_live_of_resumed hentry hother)

/-! ## Changes of functions -/

lemma Coherent.withFunctions (h : vm.Coherent) {functions : ℕ → CallableFunction V}
    {nextFunction : ℕ}
    (hentries : ∀ entry, vm.Cached entry → ({ vm with
      functions := functions, nextFunction := nextFunction } : CallSiteVm V).EntryOk entry) :
    ({ vm with functions := functions, nextFunction := nextFunction } : CallSiteVm V).Coherent := by
  have hframe : ∀ frame ∈ vm.allFrames, vm.FrameOk frame → ({ vm with
      functions := functions, nextFunction := nextFunction } : CallSiteVm V).FrameOk frame :=
    fun frame hmem hok => ⟨hok.functionGlobals, hok.closure,
      fun entry hentry => hentries entry ⟨frame, hmem, hentry⟩⟩
  refine ⟨fun frame hmem => hframe frame (List.mem_append_left _ hmem) (h.live frame hmem),
    fun frame hmem => hframe frame ?_ (h.framePool frame hmem),
    fun frame hmem => hframe frame ?_ (h.simpleFramePool frame hmem), fun frame hmem => ?_⟩
  · simp [allFrames, hmem]
  · simp [allFrames, hmem]
  · obtain ⟨hok, hkey, howner, hclosure⟩ := h.simpleSlot0Pool frame hmem
    exact ⟨hframe frame (by simp [allFrames, hmem]) hok, hkey, howner, hclosure⟩

/-- The entries of other functions do not see a change. -/
lemma EntryOk.withFunction_of_ne {entry : OneArgCallSiteCacheEntry} (h : vm.EntryOk entry)
    {funcId nextFunction : ℕ} (hne : entry.funcId ≠ funcId) (data : CallableFunction V)
    (hnext : vm.nextFunction ≤ nextFunction) :
    ({ vm.withFunction funcId data with nextFunction := nextFunction } : CallSiteVm V).EntryOk
      entry := by
  have hsame : (vm.withFunction funcId data).functions entry.funcId = vm.functions entry.funcId :=
    Function.update_of_ne hne _ _
  obtain ⟨hknown, hepoch, hholds, hnoCells, hsimple⟩ := h
  refine ⟨hknown.trans_le hnext, ?_, ?_, fun hpath => ?_, ?_⟩
  · exact hsame.symm ▸ hepoch
  · exact hsame.symm ▸ hholds
  · obtain ⟨harity, hcellvars, hclosure, hgenerator, hdefaults⟩ := hnoCells hpath
    exact hsame.symm ▸ ⟨harity, hcellvars, hclosure, hgenerator, hdefaults⟩
  · exact hsame.symm ▸ hsimple

lemma Coherent.withFunction (h : vm.Coherent) {funcId : ℕ} {data : CallableFunction V}
    (hkeep : ∀ entry, vm.Cached entry → entry.funcId = funcId →
      (vm.withFunction funcId data).EntryOk entry) :
    (vm.withFunction funcId data).Coherent := by
  refine h.withFunctions fun entry hcached => ?_
  by_cases hid : entry.funcId = funcId
  · exact hkeep entry hcached hid
  · exact (h.entryOk hcached).withFunction_of_ne hid data le_rfl

/-- A change that touches the epoch leaves an entry for the path without cells right when it keeps
what the entry holds. -/
lemma EntryOk.touched {entry : OneArgCallSiteCacheEntry} (h : vm.EntryOk entry)
    {data : CallableFunction V}
    (hepoch : data.callCacheEpoch = (vm.functions entry.funcId).callCacheEpoch + 1)
    (hmodule : data.moduleId = (vm.functions entry.funcId).moduleId)
    (howner : data.ownerClass = (vm.functions entry.funcId).ownerClass)
    (hclosure : data.closure = (vm.functions entry.funcId).closure)
    (hkeep : entry.hotPath = .simplePositionalNoCells →
      data.code = (vm.functions entry.funcId).code ∧ data.defaults.length ≤ 1) :
    (vm.withFunction entry.funcId data).EntryOk entry := by
  have hsame : (vm.withFunction entry.funcId data).functions entry.funcId = data :=
    Function.update_self _ _ _
  have hle := h.epoch_le
  refine ⟨h.known, ?_, fun hpath => ?_, fun hpath => ?_, fun hpath hold => ?_⟩
  · rw [hsame]
    omega
  · rw [hsame] at hpath ⊢
    rcases hpath with hpath | ⟨-, hold⟩
    · rw [(hkeep hpath).1, hmodule, howner]
      exact h.holds (.inl hpath)
    · omega
  · obtain ⟨hcode, hdefaults⟩ := hkeep hpath
    obtain ⟨harity, hcellvars, hclosure', hgenerator, -⟩ := h.noCells hpath
    rw [hsame]
    exact ⟨hcode ▸ harity, hcode ▸ hcellvars, hclosure.trans hclosure', hcode ▸ hgenerator,
      hdefaults⟩
  · rw [hsame] at hold
    omega

lemma coherent_setCode (h : vm.Coherent) {funcId code : ℕ}
    (hkeeps : vm.KeepsCallSites (.setCode funcId code)) : (vm.setCode funcId code).Coherent := by
  refine h.withFunction fun entry hcached hid => ?_
  subst hid
  have hentry := h.entryOk hcached
  exact hentry.touched (GlobalsVm.touchVersion_eq (hkeeps.epochs_lt _)) rfl rfl rfl fun hpath =>
    ⟨hkeeps.code _ _ rfl entry hcached rfl hpath, (hentry.noCells hpath).defaults⟩

lemma coherent_setDefaults (h : vm.Coherent) {funcId : ℕ} {defaults : List V}
    (hkeeps : vm.KeepsCallSites (.setDefaults funcId defaults)) :
    (vm.setDefaults funcId defaults).Coherent := by
  refine h.withFunction fun entry hcached hid => ?_
  subst hid
  exact (h.entryOk hcached).touched (GlobalsVm.touchVersion_eq (hkeeps.epochs_lt _)) rfl rfl rfl
    fun hpath => ⟨rfl, hkeeps.defaults _ _ rfl entry hcached rfl hpath⟩

lemma coherent_setKwdefaults (h : vm.Coherent) {funcId : ℕ} {kwonlyDefaults : List (String × V)}
    (hkeeps : vm.KeepsCallSites (.setKwdefaults funcId kwonlyDefaults)) :
    (vm.setKwdefaults funcId kwonlyDefaults).Coherent := by
  refine h.withFunction fun entry hcached hid => ?_
  subst hid
  have hentry := h.entryOk hcached
  exact hentry.touched (GlobalsVm.touchVersion_eq (hkeeps.epochs_lt _)) rfl rfl rfl
    fun hpath => ⟨rfl, (hentry.noCells hpath).defaults⟩

/-- An owner class comes without a new epoch. -/
lemma coherent_setOwnerClass (h : vm.Coherent) {funcId classId : ℕ}
    (hkeeps : vm.KeepsCallSites (.setOwnerClass funcId classId)) :
    (vm.setOwnerClass funcId classId).Coherent := by
  unfold setOwnerClass
  dsimp only
  split
  next hnone =>
    refine h.withFunction fun entry hcached hid => ?_
    subst hid
    have hentry := h.entryOk hcached
    have hsame : (vm.withFunction entry.funcId
        { vm.functions entry.funcId with ownerClass := some classId }).functions entry.funcId =
          { vm.functions entry.funcId with ownerClass := some classId } :=
      Function.update_self _ _ _
    have hunread := fun hpath => hkeeps.ownerClass _ _ rfl entry hcached rfl hpath hnone
    refine ⟨hentry.known, ?_, fun hpath => ?_, fun hpath => ?_, fun hpath hold => ?_⟩
    · rw [hsame]
      exact hentry.epoch_le
    · rw [hsame] at hpath
      exact (hunread hpath).elim
    · exact (hunread (.inl hpath)).elim
    · rw [hsame] at hold
      exact (hunread (.inr ⟨hpath, hold⟩)).elim
  next => exact h

lemma coherent_createFunction (h : vm.Coherent) (data : CallableFunction V) :
    (vm.createFunction data).Coherent := by
  refine h.withFunctions fun entry hcached => ?_
  have hentry := h.entryOk hcached
  exact hentry.withFunction_of_ne hentry.known.ne data (Nat.le_succ _)

lemma frameOk_clearFrame {frame : SiteFrame V} (h : vm.FrameOk frame) :
    vm.FrameOk (clearFrame frame) := by
  refine ⟨h.functionGlobals, h.closure, fun entry hentry => ?_⟩
  obtain ⟨_, -, hnone⟩ := List.mem_map.1 hentry
  cases hnone

lemma coherent_clearInlineCaches (h : vm.Coherent) : vm.clearInlineCaches.Coherent := by
  refine h.withLive fun frame hframe => ?_
  rcases List.mem_append.1 hframe with hframe | hframe
  · obtain ⟨frame, hmem, rfl⟩ := List.mem_map.1 hframe
    exact frameOk_clearFrame (h.live frame (List.mem_append_left _ hmem))
  · rw [List.map_map] at hframe
    obtain ⟨entry, hmem, rfl⟩ := List.mem_map.1 hframe
    exact frameOk_clearFrame (h.live _ (List.mem_append_right _ (List.mem_map_of_mem hmem)))

lemma coherent_storeCell (h : vm.Coherent) (cell : ℕ) (value : Option (Argument V)) :
    (vm.storeCell cell value).Coherent :=
  ⟨fun frame hframe => (h.live frame hframe).congr rfl rfl rfl,
    fun frame hframe => (h.framePool frame hframe).congr rfl rfl rfl,
    fun frame hframe => (h.simpleFramePool frame hframe).congr rfl rfl rfl,
    fun frame hframe => (h.simpleSlot0Pool frame hframe).congr rfl rfl rfl⟩

/-! ## Whole runs -/

lemma Starts.coherent (h : vm.Starts) : vm.Coherent := by
  obtain ⟨⟨code, moduleId, hframes⟩, hframePool, hsimple, hslot0, hgenerators⟩ := h
  refine ⟨fun frame hframe => ?_, by simp [hframePool], by simp [hsimple], by simp [hslot0]⟩
  rw [hframes, hgenerators] at hframe
  obtain rfl := List.mem_singleton.1 hframe
  have hnew := frameOk_newFrame vm code moduleId none
  exact ⟨rfl, fun _ => rfl, hnew.entries⟩

lemma Coherent.perform (h : vm.Coherent) {action : CallSiteAction V}
    (hknown : ∀ site funcId arg0 generatorId,
      action = .callOneArg site funcId arg0 generatorId → funcId < vm.nextFunction)
    (hkeeps : vm.KeepsCallSites action) : (vm.perform action).Coherent := by
  cases action with
  | callOneArg site funcId arg0 generatorId =>
    exact (pushes_pushFunctionCallOneArg h site (hknown _ _ _ _ rfl) arg0 generatorId).coherent
  | call funcId args generatorId =>
    exact (pushes_pushFunctionCallFromObj h funcId args generatorId).coherent
  | callNoCells funcId args =>
    obtain ⟨_, hpushes⟩ := pushes_pushNoCellsArgs h funcId args
    exact hpushes.coherent
  | returnValue fast => exact coherent_returnValue h fast
  | suspendGenerator generatorId => exact coherent_suspendGenerator h generatorId
  | resumeGenerator generatorId => exact coherent_resumeGenerator h generatorId
  | createFunction data => exact coherent_createFunction h data
  | setCode funcId code => exact coherent_setCode h hkeeps
  | setDefaults funcId defaults => exact coherent_setDefaults h hkeeps
  | setKwdefaults funcId kwonlyDefaults => exact coherent_setKwdefaults h hkeeps
  | setOwnerClass funcId classId => exact coherent_setOwnerClass h hkeeps
  | clearInlineCaches => exact coherent_clearInlineCaches h
  | storeCell cell value => exact coherent_storeCell h cell value

lemma Reaches.coherent (h : Reaches KeepsCallSites vm) : vm.Coherent := by
  induction h with
  | start h => exact h.coherent
  | step _ hknown hkeeps ih => exact ih.perform hknown hkeeps

/-- In a run that keeps what the entries without an epoch hold, a call through a site pushes the
frame, or raises the error, of the call without the cache. -/
theorem pushFunctionCallOneArg_eq (h : Reaches KeepsCallSites vm) (site : ℕ) {funcId : ℕ}
    (hknown : funcId < vm.nextFunction) (arg0 : V) (generatorId : ℕ) :
    (vm.pushFunctionCallOneArg site funcId arg0 generatorId).1.map SiteFrame.pushed =
      (vm.pushFunctionCallFromObj funcId [arg0] generatorId).1.map SiteFrame.pushed := by
  have hcached := pushes_pushFunctionCallOneArg h.coherent site hknown arg0 generatorId
  have huncached := pushes_pushFunctionCallFromObj h.coherent funcId [arg0] generatorId
  rw [hcached.outcome, huncached.outcome]

/-! ## A function that changes its code between two calls -/

/-- `def call(h): return h(0)` -/
def callerCode : CodeObject :=
  { CodeObject.new "call" with
    instructions := [⟨.loadFast, some 0⟩, ⟨.loadConst, some 1⟩, ⟨.callFunction1, none⟩,
      ⟨.returnValue, none⟩, ⟨.loadConst, some 0⟩, ⟨.returnValue, none⟩]
    names := ["h"]
    params := ["h"] }

/-- `def f(x): return x` -/
def identityCode : CodeObject :=
  { CodeObject.new "f" with
    instructions := [⟨.loadFast, some 0⟩, ⟨.returnValue, none⟩, ⟨.loadConst, some 0⟩,
      ⟨.returnValue, none⟩]
    names := ["x"]
    params := ["x"] }

/-- `def g(x): return (x, x)` -/
def pairCode : CodeObject :=
  { CodeObject.new "g" with
    instructions := [⟨.loadFast, some 0⟩, ⟨.loadFast, some 0⟩, ⟨.buildTuple, some 2⟩,
      ⟨.returnValue, none⟩, ⟨.loadConst, some 0⟩, ⟨.returnValue, none⟩]
    names := ["x"]
    params := ["x"] }

example :
    (compileFunctionDef {"h"} (.functionDef "call" [] false []
        [⟨"h", none, none⟩] none none [] none
        [.returnStmt (some (.call (.name "h") [.positional (.constant (.int 0))]))])).map
      (fun func => (func.instructions, func.names, func.params)) =
    some (callerCode.instructions, callerCode.names, callerCode.params) := by
  decide +kernel

/-- Module `0` is running, with `f` as function `0` and `call` as function `1`. -/
def callerVm : CallSiteVm ℕ :=
  let vm : CallSiteVm ℕ :=
    { codes := fun
        | 1 => identityCode
        | 2 => pairCode
        | 3 => callerCode
        | _ => CodeObject.new "<module>"
      functions := fun funcId =>
        ⟨if funcId = 0 then 1 else 3, 0, [], [], 1, [], none, none⟩
      nextFunction := 2
      classQualname := fun _ => ""
      cellValues := fun _ => none
      frames := []
      framePool := []
      simpleFramePool := []
      simpleSlot0Pool := []
      simpleSlot0PoolKey := none
      generatorStates := []
      recursionLimit := 1000 }
  { vm with frames := [{ vm.newFrame 0 0 none with isModule := true }] }

lemma starts_callerVm : callerVm.Starts :=
  ⟨⟨0, 0, rfl⟩, rfl, rfl, rfl, rfl⟩

/-- `call(f)`, `f.__defaults__ = (7,)`, and `call(f)` again, at the call of `f`. -/
def warmCallVm : CallSiteVm ℕ :=
  let vm := (callerVm.perform (.callOneArg 0 1 10 0)).perform (.callOneArg 2 0 0 0)
  let vm := (vm.perform (.returnValue true)).perform (.returnValue true)
  (vm.perform (.setDefaults 0 [7])).perform (.callOneArg 0 1 10 0)

lemma reaches_warmCallVm : Reaches KeepsCallSites warmCallVm := by
  unfold warmCallVm
  refine .step (.step (.step (.step (.step (.step (.start starts_callerVm) ?_ ?_) ?_ ?_)
    ?_ ?_) ?_ ?_) ?_ ?_) ?_ ?_
  case refine_2 | refine_4 | refine_6 | refine_8 | refine_10 | refine_12 =>
    refine ⟨fun funcId => ?_, fun _ _ h => ?_, fun _ _ h => ?_, fun _ _ h => ?_⟩
    · rcases funcId with _ | funcId
      · decide
      · exact (by decide : 1 < 2 ^ 64 - 1)
    · cases h
    · cases h <;> exact fun _ _ _ _ => le_rfl
    · cases h
  all_goals
    intro site funcId arg0 generatorId h
    cases h <;> decide

/-- The entry of the first call is there, with the epoch before the change. -/
theorem pushFunctionCallOneArg_eq_call :
    (warmCallVm.pushFunctionCallOneArg 2 0 0 0).1.map SiteFrame.pushed =
        (warmCallVm.pushFunctionCallFromObj 0 [0] 0).1.map SiteFrame.pushed ∧
      ((warmCallVm.pushFunctionCallOneArg 2 0 0 0).1.map fun frame => frame.pushed.code).toOption =
        some 1 :=
  ⟨pushFunctionCallOneArg_eq reaches_warmCallVm 2 (by decide) 0 0, by decide⟩

/-- `call(f)`, `f.__code__ = g.__code__`, and `call(f)` again. -/
def staleCallVm : CallSiteVm ℕ :=
  let vm := (callerVm.perform (.callOneArg 0 1 10 0)).perform (.callOneArg 2 0 0 0)
  let vm := (vm.perform (.returnValue true)).perform (.returnValue true)
  (vm.perform (.setCode 0 2)).perform (.callOneArg 0 1 10 0)

lemma reaches_staleCallVm : Reaches (fun _ _ => True) staleCallVm := by
  unfold staleCallVm
  refine .step (.step (.step (.step (.step (.step (.start starts_callerVm) ?_ trivial) ?_ trivial)
    ?_ trivial) ?_ trivial) ?_ trivial) ?_ trivial <;>
    intro site funcId arg0 generatorId h <;> cases h <;> decide

/-- The second call still pushes a frame for the old code. -/
theorem not_pushFunctionCallOneArg_eq_stale :
    Reaches (fun _ _ => True) staleCallVm ∧ 0 < staleCallVm.nextFunction ∧
      ((staleCallVm.pushFunctionCallOneArg 2 0 0 0).1.map fun frame => frame.pushed.code).toOption =
        some 1 ∧
      ((staleCallVm.pushFunctionCallFromObj 0 [0] 0).1.map
        fun frame => frame.pushed.code).toOption =
        some 2 :=
  ⟨reaches_staleCallVm, by decide, by decide, by decide⟩

end CallSiteVm

end Pyrs
