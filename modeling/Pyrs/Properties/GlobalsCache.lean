import Pyrs.Library.MovingFrames
import Pyrs.Model.Globals
import Pyrs.Properties.ArgumentBinding

/-!
# Coherence of the global caches

Every frame carries the version of its module's globals, and a cache entry holds under the versions
that it was made with.  The two agree over a run as long as no call takes its version from a caller
that runs under another one, and no counter wraps around.
-/

namespace Pyrs

variable {V : Type}

/-! ## Runs -/

inductive GlobalsAction (V : Type)
  | call (func : CalledFunction) (generatorId : ℕ)
  | callOneArg (func : CalledFunction) (generatorId : ℕ)
  | returnValue (fast : Bool)
  | suspendGenerator (generatorId : ℕ)
  | resumeGenerator (generatorId : ℕ)
  | storeGlobal (name : String) (value : V)
  | storeName (name : String) (value : V)
  | storeModuleAttr (moduleId : ℕ) (name : String) (value : V)
  | deleteModuleAttr (moduleId : ℕ) (name : String)
  | loadGlobal (site : ℕ)

namespace GlobalsVm

def perform (vm : GlobalsVm V) : GlobalsAction V → GlobalsVm V
  | .call func generatorId => vm.pushFunctionCallFromObj func generatorId
  | .callOneArg func generatorId => vm.pushFunctionCallOneArg func generatorId
  | .returnValue fast => vm.returnValue fast
  | .suspendGenerator generatorId => vm.suspendGenerator generatorId
  | .resumeGenerator generatorId => vm.resumeGenerator generatorId
  | .storeGlobal name value => vm.storeGlobal name value
  | .storeName name value => vm.storeName name value
  | .storeModuleAttr moduleId name value => vm.upsertModuleGlobal moduleId name value
  | .deleteModuleAttr moduleId name =>
    match vm.deleteModuleAttr moduleId name with
    | .error _ => vm
    | .ok vm => vm
  | .loadGlobal site => (vm.loadGlobal site).2

/-- The machine that starts to run a module. -/
def Starts (vm : GlobalsVm V) : Prop :=
  ∃ code moduleId, vm.frames = [vm.newFrame code moduleId true none] ∧ vm.framePool = [] ∧
    vm.simpleFramePool = [] ∧ vm.simpleSlot0Pool = [] ∧ vm.generatorStates = []

/-- The machines that allowed actions lead to. -/
inductive Reaches (Allowed : GlobalsVm V → GlobalsAction V → Prop) : GlobalsVm V → Prop
  | start {vm : GlobalsVm V} (h : vm.Starts) : Reaches Allowed vm
  | step {vm : GlobalsVm V} {action : GlobalsAction V} (h : Reaches Allowed vm)
      (hallowed : Allowed vm action) : Reaches Allowed (vm.perform action)

/-- The call takes the path that copies the version of the caller. -/
def CopiesVersion (vm : GlobalsVm V) (func : CalledFunction) : Prop :=
  vm.noCellsHot func = true ∧ (vm.codes func.code).singleArgDirectSlot = true

/-- No counter is at its last value, and a call that copies the version of its caller copies the
version of its module. -/
structure KeepsVersions (vm : GlobalsVm V) (action : GlobalsAction V) : Prop where
  globals_lt : ∀ moduleId, vm.globalsVersion moduleId < 2 ^ 64 - 1
  builtins_lt : vm.builtinsVersion < 2 ^ 64 - 1
  copied : ∀ func generatorId, action = .callOneArg func generatorId → vm.CopiesVersion func →
    ∀ caller ∈ vm.frames.head?, caller.functionGlobalsVersion = vm.globalsVersion func.moduleId

/-! ## What holds of frames and entries -/

/-- The frames that run or wait. -/
def liveFrames (vm : GlobalsVm V) : List (GlobalsFrame V) :=
  vm.frames ++ vm.generatorStates.map Prod.snd

def pooledFrames (vm : GlobalsVm V) : List (GlobalsFrame V) :=
  vm.framePool ++ vm.simpleFramePool ++ vm.simpleSlot0Pool

/-- An entry is not newer than its module, and holds the value of its name while the versions
match. -/
structure EntryOk (vm : GlobalsVm V) (name : Option String) (cached : LoadGlobalSiteCacheEntry V) :
    Prop where
  globals_le : cached.globalsVersion ≤ vm.globalsVersion cached.globalsModuleId
  builtins_le : cached.builtinsVersion ≤ vm.builtinsVersion
  value : cached.globalsVersion = vm.globalsVersion cached.globalsModuleId →
    cached.builtinsVersion = vm.builtinsVersion → ∃ name', name = some name' ∧
      ((vm.modules cached.globalsModuleId).globals name').or (vm.builtins name') = some cached.value

structure FrameOk (vm : GlobalsVm V) (frame : GlobalsFrame V) : Prop where
  functionGlobals : frame.functionGlobals = frame.moduleId
  entries : ∀ site cached, frame.loadGlobalInlineCache[site]? = some (some cached) →
    vm.EntryOk ((vm.codes frame.code).globalName site) cached

/-- The invariant of runs. -/
structure Coherent (vm : GlobalsVm V) : Prop where
  live : ∀ frame ∈ vm.liveFrames, vm.FrameOk frame
  pooled : ∀ frame ∈ vm.pooledFrames, vm.FrameOk frame
  version : ∀ frame ∈ vm.liveFrames,
    frame.functionGlobalsVersion = vm.globalsVersion frame.functionGlobals
  slot0 : ∀ frame ∈ vm.simpleSlot0Pool,
    vm.simpleSlot0PoolKey = some (frame.code, frame.moduleId)

/-! ## Versions grow -/

lemma touchVersion_eq {version : ℕ} (h : version < 2 ^ 64 - 1) :
    touchVersion version = version + 1 := by
  unfold touchVersion
  rw [Nat.mod_eq_of_lt (by omega)]
  simp

/-- Later tables: a version that is still the same stands for the same contents. -/
structure Newer (vm vm' : GlobalsVm V) : Prop where
  codes : vm'.codes = vm.codes
  globals_le : ∀ moduleId, vm.globalsVersion moduleId ≤ vm'.globalsVersion moduleId
  builtins_le : vm.builtinsVersion ≤ vm'.builtinsVersion
  globals_eq : ∀ moduleId, vm'.globalsVersion moduleId = vm.globalsVersion moduleId →
    (vm'.modules moduleId).globals = (vm.modules moduleId).globals
  builtins_eq : vm'.builtinsVersion = vm.builtinsVersion → vm'.builtins = vm.builtins

variable {vm vm' : GlobalsVm V}

lemma Newer.refl (vm : GlobalsVm V) : Newer vm vm :=
  ⟨rfl, fun _ => le_rfl, le_rfl, fun _ _ => rfl, fun _ => rfl⟩

lemma Newer.trans {vm'' : GlobalsVm V} (h : Newer vm vm') (h' : Newer vm' vm'') :
    Newer vm vm'' where
  codes := h'.codes.trans h.codes
  globals_le moduleId := (h.globals_le moduleId).trans (h'.globals_le moduleId)
  builtins_le := h.builtins_le.trans h'.builtins_le
  globals_eq moduleId heq := by
    have hle := h.globals_le moduleId
    have hle' := h'.globals_le moduleId
    rw [h'.globals_eq moduleId (by omega), h.globals_eq moduleId (by omega)]
  builtins_eq heq := by
    have hle := h.builtins_le
    have hle' := h'.builtins_le
    rw [h'.builtins_eq (by omega), h.builtins_eq (by omega)]

lemma FrameOk.newer {frame : GlobalsFrame V} (h : vm.FrameOk frame) (hnewer : Newer vm vm') :
    vm'.FrameOk frame := by
  refine ⟨h.functionGlobals, fun site cached hcached => ?_⟩
  obtain ⟨hglobals, hbuiltins, hvalue⟩ := h.entries site cached hcached
  have hglobals' := hnewer.globals_le cached.globalsModuleId
  have hbuiltins' := hnewer.builtins_le
  refine ⟨hglobals.trans hglobals', hbuiltins.trans hbuiltins', fun hsame hsame' => ?_⟩
  rw [hnewer.codes, hnewer.globals_eq _ (by omega), hnewer.builtins_eq (by omega)]
  exact hvalue (by omega) (by omega)

/-- A frame with the caches of another one, at later tables. -/
lemma FrameOk.withCaches {frame frame' : GlobalsFrame V} (h : vm.FrameOk frame)
    (hnewer : Newer vm vm') (hglobals : frame'.functionGlobals = frame'.moduleId)
    (hcode : frame'.code = frame.code)
    (hcache : frame'.loadGlobalInlineCache = frame.loadGlobalInlineCache) : vm'.FrameOk frame' := by
  refine ⟨hglobals, ?_⟩
  rw [hcode, hcache]
  exact (h.newer hnewer).entries

lemma globalsVersion_writeGlobal_self (vm : GlobalsVm V) (moduleId : ℕ) (name : String)
    (value : Option V) : (vm.writeGlobal moduleId name value).globalsVersion moduleId =
      touchVersion (vm.globalsVersion moduleId) := by
  simp [globalsVersion, writeGlobal]

lemma modules_writeGlobal_of_ne (vm : GlobalsVm V) {moduleId other : ℕ} (name : String)
    (value : Option V) (hne : other ≠ moduleId) :
    (vm.writeGlobal moduleId name value).modules other = vm.modules other := by
  simp [writeGlobal, hne]

lemma newer_writeGlobal {moduleId : ℕ} (hlt : vm.globalsVersion moduleId < 2 ^ 64 - 1)
    (name : String) (value : Option V) : Newer vm (vm.writeGlobal moduleId name value) := by
  have hself := globalsVersion_writeGlobal_self vm moduleId name value
  rw [touchVersion_eq hlt] at hself
  refine ⟨rfl, fun other => ?_, le_rfl, fun other heq => ?_, fun _ => rfl⟩
  · by_cases hother : other = moduleId
    · rw [hother, hself]
      omega
    · rw [globalsVersion, globalsVersion, modules_writeGlobal_of_ne vm name value hother]
  · by_cases hother : other = moduleId
    · rw [hother, hself] at heq
      omega
    · rw [modules_writeGlobal_of_ne vm name value hother]

lemma newer_writeBuiltin (hlt : vm.builtinsVersion < 2 ^ 64 - 1) (name : String)
    (value : Option V) : Newer vm (vm.writeBuiltin name value) := by
  have hself : (vm.writeBuiltin name value).builtinsVersion = vm.builtinsVersion + 1 :=
    touchVersion_eq hlt
  exact ⟨rfl, fun _ => le_rfl, by omega, fun _ _ => rfl, fun heq => by omega⟩

/-! ## Pools -/

/-- The machine with other pools. -/
def withPools (vm : GlobalsVm V) (framePool simpleFramePool simpleSlot0Pool : List (GlobalsFrame V))
    (key : Option (ℕ × ℕ)) : GlobalsVm V :=
  { vm with
    framePool := framePool
    simpleFramePool := simpleFramePool
    simpleSlot0Pool := simpleSlot0Pool
    simpleSlot0PoolKey := key }

lemma newer_withPools (vm : GlobalsVm V)
    (framePool simpleFramePool simpleSlot0Pool : List (GlobalsFrame V)) (key : Option (ℕ × ℕ)) :
    Newer vm (vm.withPools framePool simpleFramePool simpleSlot0Pool key) :=
  ⟨rfl, fun _ => le_rfl, le_rfl, fun _ _ => rfl, fun _ => rfl⟩

lemma Coherent.withPools (h : vm.Coherent)
    {framePool simpleFramePool simpleSlot0Pool : List (GlobalsFrame V)} {key : Option (ℕ × ℕ)}
    (hframes : ∀ frame ∈ framePool, vm.FrameOk frame)
    (hsimple : ∀ frame ∈ simpleFramePool, vm.FrameOk frame)
    (hslot0 : ∀ frame ∈ simpleSlot0Pool, vm.FrameOk frame ∧
      key = some (frame.code, frame.moduleId)) :
    (vm.withPools framePool simpleFramePool simpleSlot0Pool key).Coherent := by
  refine ⟨fun frame hframe => (h.live frame hframe).newer (newer_withPools ..),
    fun frame hframe => FrameOk.newer ?_ (newer_withPools ..), h.version,
    fun frame hframe => (hslot0 frame hframe).2⟩
  rcases List.mem_append.1 hframe with hframe | hframe
  · rcases List.mem_append.1 hframe with hframe | hframe
    · exact hframes frame hframe
    · exact hsimple frame hframe
  · exact (hslot0 frame hframe).1

lemma Coherent.framePool (h : vm.Coherent) : ∀ frame ∈ vm.framePool, vm.FrameOk frame :=
  fun frame hframe => h.pooled frame (by simp [pooledFrames, hframe])

lemma Coherent.simpleFramePool (h : vm.Coherent) :
    ∀ frame ∈ vm.simpleFramePool, vm.FrameOk frame :=
  fun frame hframe => h.pooled frame (by simp [pooledFrames, hframe])

lemma Coherent.simpleSlot0Pool (h : vm.Coherent) : ∀ frame ∈ vm.simpleSlot0Pool,
    vm.FrameOk frame ∧ vm.simpleSlot0PoolKey = some (frame.code, frame.moduleId) :=
  fun frame hframe => ⟨h.pooled frame (by simp [pooledFrames, hframe]), h.slot0 frame hframe⟩

lemma entries_emptyCache (vm : GlobalsVm V) (code site : ℕ)
    (cached : LoadGlobalSiteCacheEntry V) :
    (vm.emptyCache code)[site]? ≠ some (some cached) := by
  intro h
  rw [emptyCache, List.getElem?_replicate] at h
  split_ifs at h
  cases h

/-- A frame whose caches are kept for the same code object only. -/
lemma FrameOk.retarget {frame frame' : GlobalsFrame V} (h : vm.FrameOk frame)
    (hglobals : frame'.functionGlobals = frame'.moduleId)
    (hcache : frame'.loadGlobalInlineCache =
      if frame.code = frame'.code then frame.loadGlobalInlineCache else vm.emptyCache frame'.code) :
    vm.FrameOk frame' := by
  refine ⟨hglobals, fun site cached hcached => ?_⟩
  rw [hcache] at hcached
  split_ifs at hcached with hcode
  · exact hcode ▸ h.entries site cached hcached
  · exact absurd hcached (entries_emptyCache _ _ _ _)

lemma frameOk_of_emptyCache {frame : GlobalsFrame V}
    (hglobals : frame.functionGlobals = frame.moduleId)
    (hcache : frame.loadGlobalInlineCache = vm.emptyCache frame.code) : vm.FrameOk frame := by
  refine ⟨hglobals, fun site cached hcached => ?_⟩
  rw [hcache] at hcached
  exact absurd hcached (entries_emptyCache _ _ _ _)

/-- A frame for a module at a version, and the machine without it. -/
structure Acquires (vm : GlobalsVm V) (moduleId version : ℕ)
    (result : GlobalsFrame V × GlobalsVm V) : Prop where
  coherent : result.2.Coherent
  frameOk : result.2.FrameOk result.1
  functionGlobals : result.1.functionGlobals = moduleId
  version : result.1.functionGlobalsVersion = version
  pools : ∃ framePool simpleFramePool simpleSlot0Pool key,
    result.2 = vm.withPools framePool simpleFramePool simpleSlot0Pool key

lemma acquires_acquireFrame (h : vm.Coherent) (code moduleId : ℕ) (isModule : Bool)
    (ownerClass : Option ℕ) : Acquires vm moduleId (vm.globalsVersion moduleId)
      (vm.acquireFrame code moduleId isModule ownerClass) := by
  unfold acquireFrame
  split
  next frame pool hpool =>
    have hmem := hpool ▸ h.framePool
    refine ⟨h.withPools (fun frame hframe => hmem frame (List.mem_cons_of_mem _ hframe))
      h.simpleFramePool h.simpleSlot0Pool, ?_, rfl, rfl, _, _, _, _, rfl⟩
    exact ((hmem frame List.mem_cons_self).retarget rfl rfl).newer (newer_withPools ..)
  next => exact ⟨h, frameOk_of_emptyCache rfl rfl, rfl, rfl, _, _, _, _, rfl⟩

lemma prepareSimple_spec {frame : GlobalsFrame V} (h : vm.FrameOk frame) (code moduleId : ℕ)
    (ownerClass : Option ℕ) :
    vm.FrameOk (vm.prepareSimpleOneArgNoCells frame code moduleId ownerClass) ∧
      (vm.prepareSimpleOneArgNoCells frame code moduleId ownerClass).functionGlobals = moduleId ∧
      (vm.prepareSimpleOneArgNoCells frame code moduleId ownerClass).functionGlobalsVersion =
        vm.globalsVersion moduleId := by
  unfold prepareSimpleOneArgNoCells
  by_cases hsame : frame.code = code ∧ frame.moduleId = moduleId ∧ frame.ownerClass = none ∧
      ownerClass = none ∧ (vm.codes code).singleArgDirectSlot = true
  · rw [if_pos hsame]
    exact ⟨⟨h.functionGlobals, h.entries⟩, h.functionGlobals.trans hsame.2.1, rfl⟩
  · have hglobals : (if frame.moduleId = moduleId then frame.functionGlobals else moduleId) =
        moduleId := by
      split_ifs with hmodule
      · exact h.functionGlobals.trans hmodule
      · rfl
    rw [if_neg hsame]
    exact ⟨h.retarget hglobals rfl, hglobals, rfl⟩

lemma acquires_acquireSimpleFrameNoCells (h : vm.Coherent) (code moduleId : ℕ)
    (ownerClass : Option ℕ) : Acquires vm moduleId (vm.globalsVersion moduleId)
      (vm.acquireSimpleFrameNoCells code moduleId ownerClass) := by
  unfold acquireSimpleFrameNoCells
  split
  next frame pool hpool =>
    have hmem := hpool ▸ h.simpleFramePool
    obtain ⟨hframe, hglobals, hversion⟩ :=
      prepareSimple_spec (hmem frame List.mem_cons_self) code moduleId ownerClass
    exact ⟨h.withPools h.framePool (fun frame hframe => hmem frame (List.mem_cons_of_mem _ hframe))
      h.simpleSlot0Pool, hframe.newer (newer_withPools ..), hglobals, hversion, _, _, _, _, rfl⟩
  next => exact ⟨h, frameOk_of_emptyCache rfl rfl, rfl, rfl, _, _, _, _, rfl⟩

lemma coherent_retargetSimpleSlot0Pool (h : vm.Coherent) (key : ℕ × ℕ) :
    (vm.retargetSimpleSlot0Pool key).Coherent ∧
      (vm.retargetSimpleSlot0Pool key).simpleSlot0PoolKey = some key ∧
      ∃ simpleFramePool simpleSlot0Pool key', vm.retargetSimpleSlot0Pool key =
        vm.withPools vm.framePool simpleFramePool simpleSlot0Pool key' := by
  unfold retargetSimpleSlot0Pool
  split_ifs with hkey
  · exact ⟨h, hkey, _, _, _, rfl⟩
  · have hpool := MovingFrames.forall_retargeted h.simpleFramePool
      fun frame hframe => (h.simpleSlot0Pool frame hframe).1
    exact ⟨h.withPools h.framePool hpool (by simp), rfl, _, _, _, rfl⟩

lemma acquires_acquireSimpleFrameSlot0 (h : vm.Coherent) (code moduleId version : ℕ) :
    Acquires vm moduleId version (vm.acquireSimpleFrameSlot0 code moduleId version) := by
  obtain ⟨hcoherent, hkey, simpleFramePool, simpleSlot0Pool, key, hpools⟩ :=
    coherent_retargetSimpleSlot0Pool h (code, moduleId)
  unfold acquireSimpleFrameSlot0
  dsimp only
  generalize vm.retargetSimpleSlot0Pool (code, moduleId) = retargeted at *
  split
  next frame pool hpool =>
    have hmem := hpool ▸ hcoherent.simpleSlot0Pool
    obtain ⟨hframe, hframeKey⟩ := hmem frame List.mem_cons_self
    rw [hkey] at hframeKey
    obtain ⟨-, hmodule⟩ := Prod.mk.inj (Option.some.inj hframeKey)
    subst hpools
    exact ⟨hcoherent.withPools hcoherent.framePool hcoherent.simpleFramePool
      fun frame hframe => hmem frame (List.mem_cons_of_mem _ hframe),
      hframe.withCaches (newer_withPools ..) hframe.functionGlobals rfl rfl,
      hframe.functionGlobals.trans hmodule.symm, rfl, _, _, _, _, rfl⟩
  next =>
    split
    next frame pool hpool =>
      have hmem := hpool ▸ hcoherent.simpleFramePool
      obtain ⟨hframe, hglobals, -⟩ :=
        prepareSimple_spec (hmem frame List.mem_cons_self) code moduleId none
      subst hpools
      exact ⟨hcoherent.withPools hcoherent.framePool
        (fun frame hframe => hmem frame (List.mem_cons_of_mem _ hframe)) hcoherent.simpleSlot0Pool,
        hframe.withCaches (newer_withPools ..) hframe.functionGlobals rfl rfl, hglobals, rfl,
        _, _, _, _, rfl⟩
    next =>
      subst hpools
      exact ⟨hcoherent, frameOk_of_emptyCache rfl rfl, rfl, rfl, _, _, _, _, rfl⟩

lemma coherent_recycleFrame (h : vm.Coherent) {frame : GlobalsFrame V} (hframe : vm.FrameOk frame) :
    (vm.recycleFrame frame).Coherent := by
  unfold recycleFrame
  split_ifs
  · exact h
  · refine h.withPools ?_ h.simpleFramePool h.simpleSlot0Pool
    exact MovingFrames.forall_recycled h.framePool ⟨hframe.functionGlobals, hframe.entries⟩

lemma coherent_recycleSimpleFrameCleanSlot0 (h : vm.Coherent) {frame : GlobalsFrame V}
    (hframe : vm.FrameOk frame) : (vm.recycleSimpleFrameCleanSlot0 frame).Coherent := by
  unfold recycleSimpleFrameCleanSlot0
  split_ifs
  · exact h
  · obtain ⟨hcoherent, hkey, _, _, _, hpools⟩ :=
      coherent_retargetSimpleSlot0Pool h (frame.code, frame.moduleId)
    dsimp only
    generalize vm.retargetSimpleSlot0Pool (frame.code, frame.moduleId) = retargeted at *
    refine hcoherent.withPools hcoherent.framePool hcoherent.simpleFramePool ?_
    refine MovingFrames.forall_recycled hcoherent.simpleSlot0Pool ⟨?_, hkey⟩
    subst hpools
    exact hframe.withCaches (newer_withPools ..) hframe.functionGlobals rfl rfl

lemma coherent_recycleSimpleFrame (h : vm.Coherent) {frame : GlobalsFrame V}
    (hframe : vm.FrameOk frame) : (vm.recycleSimpleFrame frame).Coherent := by
  unfold recycleSimpleFrame
  dsimp only
  split_ifs
  · exact h
  · obtain ⟨hcoherent, -, _, _, _, hpools⟩ :=
      coherent_retargetSimpleSlot0Pool h (frame.code, frame.moduleId)
    generalize vm.retargetSimpleSlot0Pool (frame.code, frame.moduleId) = retargeted at *
    refine hcoherent.withPools hcoherent.framePool ?_ hcoherent.simpleSlot0Pool
    refine MovingFrames.forall_recycled hcoherent.simpleFramePool ?_
    subst hpools
    exact hframe.withCaches (newer_withPools ..) hframe.functionGlobals rfl rfl
  · obtain ⟨hcoherent, hkey, _, _, _, hpools⟩ :=
      coherent_retargetSimpleSlot0Pool h (frame.code, frame.moduleId)
    generalize vm.retargetSimpleSlot0Pool (frame.code, frame.moduleId) = retargeted at *
    refine hcoherent.withPools hcoherent.framePool hcoherent.simpleFramePool ?_
    refine MovingFrames.forall_recycled hcoherent.simpleSlot0Pool ⟨?_, hkey⟩
    subst hpools
    exact hframe.withCaches (newer_withPools ..) hframe.functionGlobals rfl rfl
  · refine h.withPools h.framePool ?_ h.simpleSlot0Pool
    exact MovingFrames.forall_recycled h.simpleFramePool ⟨hframe.functionGlobals, hframe.entries⟩

/-! ## Calls and returns -/

/-- The machine with other running and waiting frames. -/
lemma Coherent.withLive (h : vm.Coherent) {frames : List (GlobalsFrame V)}
    {generatorStates : List (ℕ × GlobalsFrame V)}
    (hlive : ∀ frame ∈ frames ++ generatorStates.map Prod.snd, vm.FrameOk frame ∧
      frame.functionGlobalsVersion = vm.globalsVersion frame.functionGlobals) :
    ({ vm with frames := frames, generatorStates := generatorStates } : GlobalsVm V).Coherent := by
  have hnewer : Newer vm { vm with frames := frames, generatorStates := generatorStates } :=
    ⟨rfl, fun _ => le_rfl, le_rfl, fun _ _ => rfl, fun _ => rfl⟩
  exact ⟨fun frame hframe => (hlive frame hframe).1.newer hnewer,
    fun frame hframe => (h.pooled frame hframe).newer hnewer,
    fun frame hframe => (hlive frame hframe).2, h.slot0⟩

lemma Coherent.of_mem_live (h : vm.Coherent) :
    ∀ frame ∈ vm.frames ++ vm.generatorStates.map Prod.snd,
    vm.FrameOk frame ∧ frame.functionGlobalsVersion = vm.globalsVersion frame.functionGlobals :=
  fun frame hframe => ⟨h.live frame hframe, h.version frame hframe⟩

lemma coherent_pushFrameChecked (h : vm.Coherent) {frame : GlobalsFrame V}
    (hframe : vm.FrameOk frame)
    (hversion : frame.functionGlobalsVersion = vm.globalsVersion frame.functionGlobals) :
    (vm.pushFrameChecked frame).Coherent := by
  unfold pushFrameChecked
  split_ifs
  · exact h
  · refine h.withLive fun other hother => ?_
    rcases List.mem_cons.1 hother with rfl | hother
    · exact ⟨hframe, hversion⟩
    · exact h.of_mem_live other hother

/-- A new frame at the version of its module joins the running ones. -/
lemma Acquires.coherent_push {moduleId version : ℕ} {result : GlobalsFrame V × GlobalsVm V}
    (h : Acquires vm moduleId version result) (hversion : version = vm.globalsVersion moduleId) :
    (result.2.pushFrameChecked result.1).Coherent := by
  refine coherent_pushFrameChecked h.coherent h.frameOk ?_
  obtain ⟨_, _, _, _, hpools⟩ := h.pools
  rw [h.version, h.functionGlobals, hpools, hversion]
  rfl

lemma coherent_pushFunctionCallFromObj (h : vm.Coherent) (func : CalledFunction)
    (generatorId : ℕ) : (vm.pushFunctionCallFromObj func generatorId).Coherent := by
  have hacquires := acquires_acquireFrame h func.code func.moduleId false func.ownerClass
  unfold pushFunctionCallFromObj
  dsimp only
  split_ifs
  · refine hacquires.coherent.withLive fun frame hframe => ?_
    rw [List.map_cons, List.mem_append, List.mem_cons, or_left_comm, ← List.mem_append] at hframe
    rcases hframe with rfl | hframe
    · obtain ⟨_, _, _, _, hpools⟩ := hacquires.pools
      refine ⟨hacquires.frameOk, ?_⟩
      rw [hacquires.version, hacquires.functionGlobals, hpools]
      rfl
    · exact hacquires.coherent.of_mem_live frame hframe
  · exact hacquires.coherent_push rfl

/-- A call that copies a version from its caller copies the version of its module. -/
lemma coherent_pushSimpleSlot0NoCells (h : vm.Coherent) (func : CalledFunction)
    (hcaller : ∀ caller ∈ vm.frames.head?,
      caller.functionGlobalsVersion = vm.globalsVersion func.moduleId) :
    (vm.pushSimpleSlot0NoCells func).Coherent := by
  have hversion : (vm.frames.head?.map (·.functionGlobalsVersion)).getD
      (vm.globalsVersion func.moduleId) = vm.globalsVersion func.moduleId := by
    cases hhead : vm.frames.head? with
    | none => rfl
    | some caller => exact hcaller caller hhead
  unfold pushSimpleSlot0NoCells
  rw [hversion]
  dsimp only
  split
  · exact (acquires_acquireSimpleFrameSlot0 h _ _ _).coherent_push rfl
  · obtain ⟨hcoherent, hframe, hglobals, hframeVersion, hpools⟩ :=
      acquires_acquireSimpleFrameNoCells h func.code func.moduleId func.ownerClass
    exact @Acquires.coherent_push _ vm func.moduleId (vm.globalsVersion func.moduleId) (_, _)
      ⟨hcoherent, hframe.withCaches (.refl _) hframe.functionGlobals rfl rfl, hglobals, rfl, hpools⟩
      rfl

lemma coherent_pushFunctionCallOneArg (h : vm.Coherent) (func : CalledFunction) (generatorId : ℕ)
    (hcopied : vm.CopiesVersion func → ∀ caller ∈ vm.frames.head?,
      caller.functionGlobalsVersion = vm.globalsVersion func.moduleId) :
    (vm.pushFunctionCallOneArg func generatorId).Coherent := by
  unfold pushFunctionCallOneArg
  split_ifs with hhot hslot
  · exact coherent_pushSimpleSlot0NoCells h func (hcopied ⟨hhot, hslot⟩)
  · exact (acquires_acquireSimpleFrameNoCells h _ _ _).coherent_push rfl
  · exact coherent_pushFunctionCallFromObj h func generatorId

lemma coherent_returnValue (h : vm.Coherent) (fast : Bool) : (vm.returnValue fast).Coherent := by
  unfold returnValue
  split
  · exact h
  next frame frames hframes =>
    have hlive := h.of_mem_live
    rw [hframes] at hlive
    have hpopped : ({ vm with frames := frames } : GlobalsVm V).Coherent :=
      h.withLive fun other hother => hlive other (MovingFrames.mem_live_of_popped hother)
    have hframe : ({ vm with frames := frames } : GlobalsVm V).FrameOk frame :=
      (hlive frame (by simp)).1.newer
        ⟨rfl, fun _ => le_rfl, le_rfl, fun _ _ => rfl, fun _ => rfl⟩
    dsimp only
    split_ifs
    · exact coherent_recycleSimpleFrameCleanSlot0 hpopped hframe
    · exact coherent_recycleSimpleFrame hpopped hframe
    · exact hpopped
    · exact coherent_recycleFrame hpopped hframe

lemma coherent_suspendGenerator (h : vm.Coherent) (generatorId : ℕ) :
    (vm.suspendGenerator generatorId).Coherent := by
  unfold suspendGenerator
  split
  · exact h
  next frame frames hframes =>
    have hlive := h.of_mem_live
    rw [hframes] at hlive
    exact h.withLive fun other hother => hlive other (MovingFrames.mem_live_of_suspended hother)

lemma coherent_resumeGenerator (h : vm.Coherent) (generatorId : ℕ) :
    (vm.resumeGenerator generatorId).Coherent := by
  unfold resumeGenerator
  split
  · exact h
  next entry hentry =>
    exact h.withLive fun other hother =>
      h.of_mem_live other (MovingFrames.mem_live_of_resumed hentry hother)

/-! ## Stores -/

/-- A frame that hears of a write keeps the entries of other modules. -/
lemma FrameOk.propagateFrame {frame : GlobalsFrame V} (h : vm.FrameOk frame)
    (moduleId version : ℕ) : vm.FrameOk (GlobalsVm.propagateFrame moduleId version frame) := by
  refine ⟨h.functionGlobals, fun site cached hcached => h.entries site cached ?_⟩
  change (frame.loadGlobalInlineCache.map _)[site]? = _ at hcached
  rw [List.getElem?_map] at hcached
  obtain ⟨slot, hslot, hfilter⟩ := Option.map_eq_some_iff.1 hcached
  rw [hslot, (Option.filter_eq_some_iff.1 hfilter).1]

/-- All frames know the version of a module after a write to it. -/
lemma coherent_propagate (h : vm.Coherent) (hnewer : Newer vm vm') {moduleId : ℕ}
    (hframes : vm'.frames = vm.frames) (hgenerators : vm'.generatorStates = vm.generatorStates)
    (hpooled : vm'.pooledFrames = vm.pooledFrames)
    (hslot0 : vm'.simpleSlot0Pool = vm.simpleSlot0Pool)
    (hkey : vm'.simpleSlot0PoolKey = vm.simpleSlot0PoolKey)
    (hothers : ∀ other ≠ moduleId, vm'.globalsVersion other = vm.globalsVersion other) :
    (vm'.propagateModuleGlobalsVersion moduleId (vm'.globalsVersion moduleId)).Coherent := by
  have hsame : Newer vm'
      (vm'.propagateModuleGlobalsVersion moduleId (vm'.globalsVersion moduleId)) :=
    ⟨rfl, fun _ => le_rfl, le_rfl, fun _ _ => rfl, fun _ => rfl⟩
  have hlive : (vm'.propagateModuleGlobalsVersion moduleId
      (vm'.globalsVersion moduleId)).liveFrames =
        vm.liveFrames.map (propagateFrame moduleId (vm'.globalsVersion moduleId)) := by
    simp only [liveFrames, propagateModuleGlobalsVersion, hframes, hgenerators, List.map_append,
      List.map_map]
    rfl
  refine ⟨fun frame hframe => ?_, fun frame hframe => ?_, fun frame hframe => ?_,
    fun frame hframe => ?_⟩
  · rw [hlive] at hframe
    obtain ⟨frame', hframe', rfl⟩ := List.mem_map.1 hframe
    exact (((h.live frame' hframe').newer hnewer).propagateFrame moduleId _).newer hsame
  · exact ((h.pooled frame (hpooled ▸ hframe)).newer hnewer).newer hsame
  · rw [hlive] at hframe
    obtain ⟨frame', hframe', rfl⟩ := List.mem_map.1 hframe
    change (if frame'.functionGlobals = moduleId then _ else _) =
      vm'.globalsVersion frame'.functionGlobals
    split_ifs with hmodule
    · rw [hmodule]
    · rw [hothers _ hmodule, h.version frame' hframe']
  · change vm'.simpleSlot0PoolKey = _
    rw [hkey]
    exact h.slot0 frame (hslot0 ▸ hframe)

lemma coherent_write (h : vm.Coherent) {moduleId : ℕ} (name : String) (value : Option V)
    (hlt : vm.globalsVersion moduleId < 2 ^ 64 - 1) :
    ((vm.writeGlobal moduleId name value).propagateModuleGlobalsVersion moduleId
      ((vm.writeGlobal moduleId name value).globalsVersion moduleId)).Coherent :=
  coherent_propagate h (newer_writeGlobal hlt name value) rfl rfl rfl rfl rfl
    fun other hother => by
      rw [globalsVersion, modules_writeGlobal_of_ne vm name value hother]
      rfl

lemma coherent_upsertModuleGlobal (h : vm.Coherent) (moduleId : ℕ) (name : String) (value : V)
    (hlt : vm.globalsVersion moduleId < 2 ^ 64 - 1) (hbuiltins : vm.builtinsVersion < 2 ^ 64 - 1) :
    (vm.upsertModuleGlobal moduleId name value).Coherent := by
  unfold upsertModuleGlobal
  dsimp only
  split_ifs
  · refine coherent_propagate h ((newer_writeGlobal hlt name (some value)).trans
      (@newer_writeBuiltin _ (vm.writeGlobal moduleId name (some value)) hbuiltins name
        (some value))) rfl rfl rfl rfl rfl fun other hother => ?_
    change ((vm.writeGlobal moduleId name (some value)).modules other).globalsVersion = _
    rw [modules_writeGlobal_of_ne vm name _ hother]
    rfl
  · exact coherent_write h name (some value) hlt

/-! ## Loads -/

/-- The value without caches: the globals of the running function, then the builtins. -/
def uncachedGlobal (vm : GlobalsVm V) (site : ℕ) : Option V :=
  vm.frames.head?.bind fun frame =>
    ((vm.codes frame.code).globalName site).bind fun name =>
      (vm.resolveLoadGlobalValue frame name).1

lemma coherent_writeBuiltin (h : vm.Coherent) (hlt : vm.builtinsVersion < 2 ^ 64 - 1)
    (name : String) (value : Option V) : (vm.writeBuiltin name value).Coherent :=
  have hnewer := newer_writeBuiltin hlt name value
  ⟨fun frame hframe => (h.live frame hframe).newer hnewer,
    fun frame hframe => (h.pooled frame hframe).newer hnewer, h.version, h.slot0⟩

lemma EntryOk.resolve {frame : GlobalsFrame V} {name : Option String}
    {cached : LoadGlobalSiteCacheEntry V} (h : vm.EntryOk name cached)
    (hmodule : cached.globalsModuleId = frame.functionGlobals)
    (hglobals : cached.globalsVersion = vm.globalsVersion cached.globalsModuleId)
    (hbuiltins : cached.builtinsVersion = vm.builtinsVersion) :
    name.bind (fun name => (vm.resolveLoadGlobalValue frame name).1) = some cached.value := by
  obtain ⟨name', rfl, hvalue⟩ := h.value hglobals hbuiltins
  rw [hmodule] at hvalue
  rw [Option.bind_some, resolveLoadGlobalValue]
  cases hglobal : (vm.modules frame.functionGlobals).globals name' with
  | some value =>
    rw [hglobal] at hvalue
    exact hvalue
  | none =>
    rw [hglobal, Option.none_or] at hvalue
    dsimp only
    rw [lookupBuiltinGlobal, hvalue]

/-- What a lookup finds is from then on a global of the module or a builtin. -/
lemma resolveLoadGlobalValue_spec (h : vm.Coherent) (hlt : vm.builtinsVersion < 2 ^ 64 - 1)
    (frame : GlobalsFrame V) (name : String) :
    (vm.resolveLoadGlobalValue frame name).2.Coherent ∧
      (vm.resolveLoadGlobalValue frame name).2.frames = vm.frames ∧
      (vm.resolveLoadGlobalValue frame name).2.codes = vm.codes ∧
      ∀ value ∈ (vm.resolveLoadGlobalValue frame name).1,
        (((vm.resolveLoadGlobalValue frame name).2.modules frame.functionGlobals).globals name).or
          ((vm.resolveLoadGlobalValue frame name).2.builtins name) = some value := by
  unfold resolveLoadGlobalValue
  cases hglobal : (vm.modules frame.functionGlobals).globals name with
  | some value => exact ⟨h, rfl, rfl, fun value' hvalue' => by simpa [hglobal] using hvalue'⟩
  | none =>
    dsimp only
    unfold lookupBuiltinGlobal
    cases hbuiltin : vm.builtins name with
    | some value =>
      exact ⟨h, rfl, rfl, fun value' hvalue' => by simpa [hglobal, hbuiltin] using hvalue'⟩
    | none =>
      dsimp only
      split
      next value hvalue =>
        exact ⟨coherent_writeBuiltin h hlt name _, rfl, rfl, fun value' hvalue' => by
          simpa [writeBuiltin, hglobal] using hvalue'⟩
      next =>
        refine ⟨h, rfl, rfl, fun value hvalue => ?_⟩
        cases hvalue

lemma coherent_setEntry (h : vm.Coherent) {frame : GlobalsFrame V} {frames : List (GlobalsFrame V)}
    (hframes : vm.frames = frame :: frames) {site : ℕ} {cached : LoadGlobalSiteCacheEntry V}
    (hcached : vm.EntryOk ((vm.codes frame.code).globalName site) cached) :
    ({ vm with
      frames := { frame with
        loadGlobalInlineCache := frame.loadGlobalInlineCache.set site (some cached) } :: frames } :
      GlobalsVm V).Coherent := by
  have hlive := h.of_mem_live
  rw [hframes] at hlive
  obtain ⟨hframe, hversion⟩ := hlive frame (by simp)
  refine h.withLive fun other hother => ?_
  rcases List.mem_cons.1 hother with rfl | hother
  · refine ⟨⟨hframe.functionGlobals, fun site' cached' hcached' => ?_⟩, hversion⟩
    rw [List.getElem?_set] at hcached'
    split_ifs at hcached' with hsite
    · obtain rfl := Option.some.inj (Option.some.inj hcached')
      exact hsite ▸ hcached
    · exact hframe.entries site' cached' hcached'
  · exact hlive other (List.mem_cons_of_mem _ hother)

lemma coherent_loadGlobal (h : vm.Coherent) (hlt : vm.builtinsVersion < 2 ^ 64 - 1) (site : ℕ) :
    (vm.loadGlobal site).2.Coherent := by
  unfold loadGlobal
  split
  · exact h
  next frame frames hframes =>
    split
    · exact h
    next name hname =>
      split
      · exact h
      · obtain ⟨hcoherent, hsame, hcodes, hvalue⟩ := resolveLoadGlobalValue_spec h hlt frame name
        generalize vm.resolveLoadGlobalValue frame name = result at *
        obtain ⟨found, vm'⟩ := result
        cases found with
        | none => exact hcoherent
        | some value =>
          dsimp only at hsame hcodes hvalue ⊢
          rw [hframes] at hsame
          have hversion := hcoherent.version frame (by simp [liveFrames, hsame])
          split_ifs
          · refine coherent_setEntry hcoherent hsame ⟨hversion.le, le_rfl, fun _ _ => ?_⟩
            exact ⟨name, by rw [hcodes, hname], hvalue value rfl⟩
          · rwa [← hsame]

lemma loadGlobal_eq_uncachedGlobal (h : vm.Coherent) (site : ℕ) :
    (vm.loadGlobal site).1 = vm.uncachedGlobal site := by
  unfold loadGlobal uncachedGlobal
  split
  next hframes => rw [hframes]; rfl
  next frame frames hframes =>
    rw [hframes, List.head?_cons, Option.bind_some]
    split
    next hname => rw [hname]; rfl
    next name hname =>
      split
      next cached hcached =>
        obtain ⟨hslot, hmatches⟩ := Option.filter_eq_some_iff.1 hcached
        obtain ⟨hmodule, hglobals, hbuiltins⟩ := of_decide_eq_true hmatches
        have hmem : frame ∈ vm.liveFrames := by simp [liveFrames, hframes]
        have hentry := (h.live frame hmem).entries site cached (Option.join_eq_some_iff.1 hslot)
        rw [hentry.resolve hmodule ?_ hbuiltins]
        rw [hglobals, h.version frame hmem, hmodule]
      next =>
        rw [hname, Option.bind_some]
        generalize vm.resolveLoadGlobalValue frame name = result
        obtain ⟨found, vm'⟩ := result
        cases found <;> rfl

/-! ## Runs -/

lemma Starts.coherent (h : vm.Starts) : vm.Coherent := by
  obtain ⟨code, moduleId, hframes, hpool, hsimple, hslot0, hgenerators⟩ := h
  have hlive : vm.liveFrames = [vm.newFrame code moduleId true none] := by
    simp [liveFrames, hframes, hgenerators]
  refine ⟨fun frame hframe => ?_, by simp [pooledFrames, hpool, hsimple, hslot0],
    fun frame hframe => ?_, by simp [hslot0]⟩
  · rw [hlive, List.mem_singleton] at hframe
    exact hframe ▸ frameOk_of_emptyCache rfl rfl
  · rw [hlive, List.mem_singleton] at hframe
    rw [hframe]
    rfl

/-- Every action keeps the frames and the entries in step with the modules. -/
lemma Coherent.perform (h : vm.Coherent) {action : GlobalsAction V}
    (hkeeps : vm.KeepsVersions action) : (vm.perform action).Coherent := by
  cases action with
  | call func generatorId => exact coherent_pushFunctionCallFromObj h func generatorId
  | callOneArg func generatorId =>
    exact coherent_pushFunctionCallOneArg h func generatorId (hkeeps.copied func generatorId rfl)
  | returnValue fast => exact coherent_returnValue h fast
  | suspendGenerator generatorId => exact coherent_suspendGenerator h generatorId
  | resumeGenerator generatorId => exact coherent_resumeGenerator h generatorId
  | storeGlobal name value =>
    change (vm.storeGlobal name value).Coherent
    unfold storeGlobal
    split
    · exact h
    · exact coherent_upsertModuleGlobal h _ name value (hkeeps.globals_lt _) hkeeps.builtins_lt
  | storeName name value =>
    change (vm.storeName name value).Coherent
    unfold storeName
    split
    · exact h
    · split_ifs
      · exact coherent_write h name (some value) (hkeeps.globals_lt _)
      · exact h
  | storeModuleAttr moduleId name value =>
    exact coherent_upsertModuleGlobal h moduleId name value (hkeeps.globals_lt _)
      hkeeps.builtins_lt
  | deleteModuleAttr moduleId name =>
    change (match vm.deleteModuleAttr moduleId name with
      | .error _ => vm
      | .ok vm => vm).Coherent
    unfold deleteModuleAttr
    cases (vm.modules moduleId).globals name with
    | none => exact h
    | some value => exact coherent_write h name none (hkeeps.globals_lt _)
  | loadGlobal site => exact coherent_loadGlobal h hkeeps.builtins_lt site

lemma Reaches.coherent (h : Reaches KeepsVersions vm) : vm.Coherent := by
  induction h with
  | start h => exact h.coherent
  | step _ hallowed ih => exact ih.perform hallowed

/-- In a run whose calls copy the version of their own module, every running or waiting frame has
the version of its globals, a matching entry holds the current value, and `LoadGlobal` yields the
value of an uncached lookup. -/
theorem loadGlobal_coherent (h : Reaches KeepsVersions vm) :
    (∀ frame ∈ vm.liveFrames,
        frame.functionGlobalsVersion = vm.globalsVersion frame.functionGlobals ∧
          ∀ site cached, frame.loadGlobalInlineCache[site]? = some (some cached) →
            cached.globalsModuleId = frame.functionGlobals →
            cached.globalsVersion = frame.functionGlobalsVersion →
            cached.builtinsVersion = vm.builtinsVersion →
            ((vm.codes frame.code).globalName site).bind
              (fun name => (vm.resolveLoadGlobalValue frame name).1) = some cached.value) ∧
      ∀ site, (vm.loadGlobal site).1 = vm.uncachedGlobal site := by
  have hcoherent := h.coherent
  refine ⟨fun frame hframe => ⟨hcoherent.version frame hframe, ?_⟩,
    loadGlobal_eq_uncachedGlobal hcoherent⟩
  intro site cached hcached hmodule hglobals hbuiltins
  refine ((hcoherent.live frame hframe).entries site cached hcached).resolve hmodule ?_ hbuiltins
  rw [hglobals, hcoherent.version frame hframe, hmodule]

/-! ## A reader in another module -/

/-- `def g(x): return (x, y)` -/
def readerCode : CodeObject :=
  { CodeObject.new "g" with
    instructions := [⟨.loadFast, some 0⟩, ⟨.loadGlobal, some 2⟩, ⟨.buildTuple, some 2⟩,
      ⟨.returnValue, none⟩, ⟨.loadConst, some 0⟩, ⟨.returnValue, none⟩]
    names := ["x", "y"]
    params := ["x"] }

example :
    (compileFunctionDef {"x"} (.functionDef "g" [] false []
        [⟨"x", none, none⟩] none none [] none
        [.returnStmt (some (.tuple [.name "x", .name "y"]))])).map
      (fun func => (func.instructions, func.names, func.params)) =
    some (readerCode.instructions, ["x", "y"], ["x"]) := by
  decide +kernel

/-- Module `0` is running; module `1` holds `g` and, written after it, `y = 1`. -/
def twoModulesVm (code moduleId : ℕ) : GlobalsVm ℕ :=
  let vm : GlobalsVm ℕ :=
    { codes := fun code => if code = 1 then readerCode else CodeObject.new "<module>"
      modules := fun moduleId =>
        if moduleId = 1 then ⟨"b", fun name => if name = "y" then some 1 else none, 3⟩
        else .new "main"
      builtinsModule := none
      builtins := fun _ => none
      builtinsVersion := 1
      frames := []
      framePool := []
      simpleFramePool := []
      simpleSlot0Pool := []
      simpleSlot0PoolKey := none
      generatorStates := []
      recursionLimit := 1000 }
  { vm with frames := [vm.newFrame code moduleId true none] }

lemma starts_twoModulesVm (code moduleId : ℕ) : (twoModulesVm code moduleId).Starts :=
  ⟨code, moduleId, rfl, rfl, rfl, rfl, rfl⟩

/-- `g(0)` in its own module, `y = 2`, and `g(0)` again in the frame that the first call left. -/
def readerVm : GlobalsVm ℕ :=
  let g : CalledFunction := ⟨1, 1, none, some 1, false⟩
  let vm := (twoModulesVm 0 1).perform (.callOneArg g 0)
  let vm := (vm.perform (.loadGlobal 1)).perform (.returnValue true)
  let vm := (vm.perform (.storeName "y" 2)).perform (.callOneArg g 0)
  vm.perform (.loadGlobal 1)

lemma reaches_readerVm : Reaches KeepsVersions readerVm := by
  unfold readerVm
  refine .step (.step (.step (.step (.step (.step (.start (starts_twoModulesVm 0 1)) ?_) ?_) ?_) ?_)
    ?_) ?_ <;>
    refine ⟨fun moduleId => ?_, by decide, fun func generatorId h => ?_⟩
  case refine_1.refine_1 | refine_2.refine_1 | refine_3.refine_1 | refine_4.refine_1 |
      refine_5.refine_1 | refine_6.refine_1 =>
    rcases moduleId with _ | _ | moduleId
    · decide
    · decide
    · exact (by decide : 1 < 2 ^ 64 - 1)
  case refine_1.refine_2 | refine_5.refine_2 =>
    cases h
    intro _ caller hcaller
    obtain rfl := Option.some.inj hcaller
    decide
  all_goals cases h

/-- A cached read, a store, a pooled frame, and the new value. -/
theorem loadGlobal_coherent_reader :
    (readerVm.loadGlobal 1).1 = readerVm.uncachedGlobal 1 ∧ readerVm.uncachedGlobal 1 = some 2 :=
  ⟨(loadGlobal_coherent reaches_readerVm).2 1, by decide⟩

/-- `g(0)` from another module, `b.y = 2`, and `g(0)` again. -/
def staleVm : GlobalsVm ℕ :=
  let g : CalledFunction := ⟨1, 1, none, some 1, false⟩
  let vm := (twoModulesVm 0 0).perform (.callOneArg g 0)
  let vm := (vm.perform (.loadGlobal 1)).perform (.returnValue true)
  (vm.perform (.storeModuleAttr 1 "y" 2)).perform (.callOneArg g 0)

lemma reaches_staleVm : Reaches (fun _ _ => True) staleVm := by
  unfold staleVm
  exact .step (.step (.step (.step (.step (.start (starts_twoModulesVm 0 0)) trivial) trivial)
    trivial) trivial) trivial

/-- The second call still reads the old value. -/
theorem not_loadGlobal_coherent_stale :
    Reaches (fun _ _ => True) staleVm ∧ (staleVm.loadGlobal 1).1 = some 1 ∧
      staleVm.uncachedGlobal 1 = some 2 :=
  ⟨reaches_staleVm, by decide, by decide⟩

end GlobalsVm

end Pyrs
