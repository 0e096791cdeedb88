import Pyrs.Model.FramePools

/-!
# Reused frames

A frame that is taken from a pool is, up to its site caches, a new frame under the id of the reused
one, as long as the frames that are recycled unchecked are settled.

`recycle_simple_frame_clean_slot0_unchecked` clears nothing: its assertions, which a release build
drops, say which fields have to be empty.  `Frame.Settled` is what they say.  The step that recycles
such a frame does not look at it, so a frame that returns from inside a `try` carries its blocks
into the pool; the invariant of the pools holds over every run whose unchecked steps meet the
condition.
-/

namespace Pyrs

namespace FramePool

variable {Value Obj Code Site : Type}

namespace Frame

/-- A frame without its site caches. -/
def withoutSites (frame : Frame Value Obj Code Site) : Frame Value Obj Code Site :=
  { frame with
    quickenedSites := []
    loadFastInlineCache := []
    loadAttrInlineCache := []
    oneArgInlineCache := []
    loadGlobalInlineCache := [] }

/-! ## Fast locals -/

lemma fillNone_eq (fastLocals : List (Option Value)) :
    fillNone fastLocals = List.replicate fastLocals.length none :=
  List.map_const' ..

lemma length_clearFirst (fastLocals : List (Option Value)) :
    (clearFirst fastLocals).length = fastLocals.length := by
  cases fastLocals <;> rfl

lemma head?_clearFirst (fastLocals : List (Option Value)) :
    (clearFirst fastLocals).head?.join = none := by
  cases fastLocals <;> rfl

lemma head?_fillNone (fastLocals : List (Option Value)) :
    (fillNone fastLocals).head?.join = none := by
  cases fastLocals <;> rfl

/-- One slot whose first is not set. -/
lemma eq_of_head? {fastLocals : List (Option Value)} (hlength : fastLocals.length = 1)
    (hhead : fastLocals.head?.join = none) : fastLocals = [none] := by
  obtain ⟨slot, rfl⟩ := List.length_eq_one_iff.1 hlength
  exact congrArg (fun slot => [slot]) hhead

lemma length_resetSites (codes : CodeTable Code) (frame : Frame Value Obj Code Site) :
    (frame.resetSites codes).fastLocals.length = codes.fastLocalCount frame.code := by
  rw [resetSites]
  dsimp only
  split
  · rw [List.length_append, List.length_replicate]
    omega
  · rw [List.length_take]
    omega

lemma head?_resetSites (codes : CodeTable Code) {frame : Frame Value Obj Code Site}
    (h : frame.fastLocals.head?.join = none) :
    (frame.resetSites codes).fastLocals.head?.join = none := by
  rw [resetSites]
  dsimp only
  split
  · cases hlocals : frame.fastLocals with
    | nil =>
      rw [List.nil_append]
      cases codes.fastLocalCount frame.code - ([] : List (Option Value)).length <;> rfl
    | cons slot slots =>
      rw [hlocals] at h
      exact h
  · cases hlocals : frame.fastLocals with
    | nil =>
      rw [List.take_nil]
      rfl
    | cons slot slots =>
      rw [hlocals] at h
      cases codes.fastLocalCount frame.code with
      | zero => rfl
      | succ n => exact h

/-! ## Pooled frames -/

/-- A frame has a slot for each fast local of its code, and a simple frame has the globals of its
module. -/
structure Fits (codes : CodeTable Code) (frame : Frame Value Obj Code Site) : Prop where
  fastLocals : frame.fastLocals.length = codes.fastLocalCount frame.code
  functionGlobals : frame.simpleOneArgNoCells = true → frame.functionGlobals = frame.module

/-- A frame of the pool of simple frames. -/
structure Simple (codes : CodeTable Code) (frame : Frame Value Obj Code Site) : Prop
    extends frame.Settled, Fits codes frame where
  mark : frame.simpleOneArgNoCells = true
  unset : frame.fastLocals.head?.join = none

/-- A settled frame, with its fields. -/
lemma Settled.eq {frame : Frame Value Obj Code Site} (h : frame.Settled) :
    { frame.simplyCleared with
      exceptStarMatchLasti := frame.exceptStarMatchLasti
      reraiseLastiOverride := frame.reraiseLastiOverride
      simpleOneArgNoCells := frame.simpleOneArgNoCells } = frame := by
  obtain ⟨⟩ := frame
  obtain ⟨⟩ := h
  simp_all only [simplyCleared]

section Reuse

variable [DecidableEq Code] (codes : CodeTable Code)

/-- A frame of the pool that is reset is a new one. -/
lemma resetForReuse_new {frame : Frame Value Obj Code Site} (hcleared : frame.cleared = frame)
    (hfits : frame.Fits codes) (version : UInt64) (code : Code) (module : Obj)
    (isModule returnModule : Bool) (cells : List Obj) (ownerClass : Option Obj) :
    (frame.resetForReuse codes version code module isModule returnModule cells
      ownerClass).withoutSites =
      (new codes frame.frameId version code module isModule returnModule cells
        ownerClass).withoutSites := by
  have hlocals : (frame.resetForReuse codes version code module isModule returnModule cells
      ownerClass).fastLocals = List.replicate (codes.fastLocalCount code) none := by
    rw [resetForReuse]
    dsimp only
    split
    · rename_i hcode
      rw [fillNone_eq, hfits.fastLocals, hcode]
    · rw [fillNone_eq, length_resetSites]
  have hfields : ∀ reset : Frame Value Obj Code Site,
      reset = frame.resetForReuse codes version code module isModule returnModule cells ownerClass →
        { reset.withoutSites with fastLocals := List.replicate (codes.fastLocalCount code) none } =
          (new codes frame.frameId version code module isModule returnModule cells
            ownerClass).withoutSites := by
    rintro _ rfl
    rw [← hcleared, resetForReuse]
    dsimp only
    split <;> rfl
  rw [← hfields _ rfl, ← hlocals]
  rfl

variable [DecidableEq Obj]

omit [DecidableEq Code] in
/-- The fields of a frame that is moved to another code and module. -/
lemma moveTo_eq {frame : Frame Value Obj Code Site}
    (hglobals : frame.functionGlobals = frame.module)
    (version : UInt64) (code : Code) (module : Obj) (ownerClass : Option Obj) :
    frame.moveTo version code module ownerClass =
      { frame with
        code := code
        ip := 0
        lastIp := 0
        exceptStarMatchLasti := none
        reraiseLastiOverride := none
        module := module
        functionGlobals := module
        functionGlobalsVersion := version
        ownerClass := ownerClass
        simpleOneArgNoCells := true } := by
  rw [moveTo]
  by_cases hmodule : frame.module = module
  · simp only [if_pos hmodule]
    split
    · rename_i howner
      simp only [hglobals, hmodule, howner]
    · simp only [hglobals, hmodule]
  · simp only [if_neg hmodule]
    split
    · rename_i howner
      simp only [howner]
    · rfl

omit [DecidableEq Code] [DecidableEq Obj] in
/-- A frame whose first local is not set, with the locals of a new frame. -/
lemma fillNone_unless_direct {moved : Frame Value Obj Code Site}
    (hlength : moved.fastLocals.length = codes.fastLocalCount moved.code)
    (hhead : moved.fastLocals.head?.join = none) :
    (if singleArgDirectSlot codes moved.code = true then moved
      else { moved with fastLocals := fillNone moved.fastLocals }) =
      { moved with fastLocals := List.replicate (codes.fastLocalCount moved.code) none } := by
  split
  · rename_i hslot
    rw [singleArgDirectSlot, Bool.and_eq_true, decide_eq_true_iff] at hslot
    rw [hslot.1] at hlength ⊢
    have hlocals := eq_of_head? hlength hhead
    rw [show List.replicate 1 none = moved.fastLocals from hlocals.symm]
  · rw [fillNone_eq, hlength]

/-- A simple frame that is prepared is a new one, with the mark of simple frames. -/
lemma prepareSimpleOneArgNoCellsRef_new {frame : Frame Value Obj Code Site}
    (hsimple : frame.Simple codes) (version : UInt64) (code : Code) (module : Obj)
    (ownerClass : Option Obj) :
    (frame.prepareSimpleOneArgNoCellsRef codes version code module ownerClass).withoutSites =
      { (new codes frame.frameId version code module false false [] ownerClass).withoutSites with
        simpleOneArgNoCells := true } := by
  have hglobals : frame.functionGlobals = frame.module := hsimple.functionGlobals hsimple.mark
  rw [prepareSimpleOneArgNoCellsRef]
  split
  · rename_i hsame
    obtain ⟨rfl, rfl, howner, hother, -, hlength, hslot⟩ := hsame
    have hlocals : frame.fastLocals = List.replicate (codes.fastLocalCount frame.code) none := by
      rw [eq_of_head? hlength hsimple.unset, ← hsimple.fastLocals, hlength]
      rfl
    rw [Option.isNone_iff_eq_none] at howner hother
    rw [← hsimple.toSettled.eq, withoutSites, withoutSites, new]
    simp only [simplyCleared, hglobals, hlocals, howner, hother]
  · dsimp only
    rw [moveTo_eq hglobals]
    by_cases hcode : frame.code = code
    · rw [if_pos hcode, fillNone_unless_direct codes]
      · rw [← hsimple.toSettled.eq]
        rfl
      · exact hsimple.fastLocals.trans (congrArg _ hcode)
      · exact hsimple.unset
    · rw [if_neg hcode, fillNone_unless_direct codes]
      · rw [← hsimple.toSettled.eq]
        rfl
      · exact length_resetSites _ _
      · exact head?_resetSites _ hsimple.unset

end Reuse

/-! ## Recycled frames -/

lemma length_fillNone (fastLocals : List (Option Value)) :
    (fillNone fastLocals).length = fastLocals.length :=
  List.length_map _

lemma cleared_cleared (frame : Frame Value Obj Code Site) :
    frame.cleared.cleared = frame.cleared := by
  have hfill : fillNone (fillNone frame.fastLocals) = fillNone frame.fastLocals := by
    rw [fillNone, fillNone, List.map_map]
    rfl
  rw [cleared, cleared, hfill]

lemma settled_of_isSettled {frame : Frame Value Obj Code Site} (h : frame.isSettled = true) :
    frame.Settled := by
  simp only [isSettled, Bool.and_eq_true, List.isEmpty_iff, Option.isNone_iff_eq_none,
    Bool.not_eq_true'] at h
  constructor <;> tauto

lemma settled_simplyCleared (frame : Frame Value Obj Code Site) : frame.simplyCleared.Settled := by
  constructor <;> rfl

variable {codes : CodeTable Code}

lemma fits_new (frameId : ℕ) (version : UInt64) (code : Code) (module : Obj)
    (isModule returnModule : Bool) (cells : List Obj) (ownerClass : Option Obj) :
    (new codes frameId version code module isModule returnModule cells ownerClass :
      Frame Value Obj Code Site).Fits codes where
  fastLocals := List.length_replicate
  functionGlobals := fun _ => rfl

lemma fits_cleared {frame : Frame Value Obj Code Site} (h : frame.Fits codes) :
    frame.cleared.Fits codes where
  fastLocals := (length_fillNone _).trans h.fastLocals
  functionGlobals := fun hmark => Bool.noConfusion hmark

lemma Fits.executes {before after : Frame Value Obj Code Site} (h : before.Fits codes)
    (hexecutes : Executes before after) : after.Fits codes where
  fastLocals := by rw [hexecutes.fastLocals, h.fastLocals, hexecutes.code]
  functionGlobals := fun hmark => by
    have hbefore : before.simpleOneArgNoCells = true := hexecutes.mark.symm.trans hmark
    rw [hexecutes.functionGlobals hbefore, h.functionGlobals hbefore, hexecutes.module]

/-- What a frame is but for its site caches decides whether it fits. -/
lemma Fits.congr {frame : Frame Value Obj Code Site} (other : Frame Value Obj Code Site)
    (h : frame.withoutSites = other.withoutSites) (hother : other.Fits codes) :
    frame.Fits codes := by
  have hfits : frame.withoutSites.Fits codes := h ▸ ⟨hother.fastLocals, hother.functionGlobals⟩
  exact ⟨hfits.fastLocals, hfits.functionGlobals⟩

/-- A settled frame whose first local is taken goes to a pool of simple frames. -/
lemma simple_clearFirst {frame : Frame Value Obj Code Site} (hsettled : frame.Settled)
    (hfits : frame.Fits codes) (hmark : frame.simpleOneArgNoCells = true) :
    ({ frame with
      fastLocals := clearFirst frame.fastLocals
      simpleOneArgNoCells := true } : Frame Value Obj Code Site).Simple codes where
  toSettled := by
    obtain ⟨⟩ := hsettled
    constructor <;> assumption
  fastLocals := (length_clearFirst _).trans hfits.fastLocals
  functionGlobals := fun _ => hfits.functionGlobals hmark
  mark := rfl
  unset := head?_clearFirst _

lemma simple_fillNone {frame : Frame Value Obj Code Site} (hsettled : frame.Settled)
    (hfits : frame.Fits codes) (hmark : frame.simpleOneArgNoCells = true) :
    ({ frame with fastLocals := fillNone frame.fastLocals } : Frame Value Obj Code Site).Simple
      codes where
  toSettled := by
    obtain ⟨⟩ := hsettled
    constructor <;> assumption
  fastLocals := (length_fillNone _).trans hfits.fastLocals
  functionGlobals := fun _ => hfits.functionGlobals hmark
  mark := hmark
  unset := head?_fillNone _

/-- A simple frame is one still after it is pointed at its first instruction. -/
lemma Simple.rewind {frame : Frame Value Obj Code Site} (h : frame.Simple codes)
    (exceptStarMatchLasti reraiseLastiOverride : Option ℕ) :
    ({ frame with
      ip := 0
      lastIp := 0
      exceptStarMatchLasti := exceptStarMatchLasti
      reraiseLastiOverride := reraiseLastiOverride } : Frame Value Obj Code Site).Simple
      codes where
  toSettled := by
    obtain ⟨⟩ := h.toSettled
    constructor <;> assumption
  fastLocals := h.fastLocals
  functionGlobals := h.functionGlobals
  mark := h.mark
  unset := h.unset

lemma fits_simplyCleared {frame : Frame Value Obj Code Site} (h : frame.Fits codes)
    (hmark : frame.simpleOneArgNoCells = true) : frame.simplyCleared.Fits codes where
  fastLocals := h.fastLocals
  functionGlobals := fun _ => h.functionGlobals hmark

end Frame

/-! ## The pools -/

/-- What the pools hold. -/
structure Vm.Pooled (codes : CodeTable Code) (vm : Vm Value Obj Code Site) : Prop where
  framePool : ∀ frame ∈ vm.framePool, frame.cleared = frame ∧ frame.Fits codes
  simpleFramePool : ∀ frame ∈ vm.simpleFramePool, frame.Simple codes
  simpleSlot0Pool : ∀ frame ∈ vm.simpleSlot0Pool, frame.Simple codes ∧ frame.ownerClass = none ∧
    vm.simpleSlot0PoolKey = some (frame.code, frame.module)

namespace Vm.Pooled

variable [DecidableEq Code] [DecidableEq Obj] {codes : CodeTable Code}
  {vm : Vm Value Obj Code Site}

omit [DecidableEq Code] [DecidableEq Obj] in
lemma recycleFrame (h : vm.Pooled codes) {frame : Frame Value Obj Code Site}
    (hfits : frame.Fits codes) : (vm.recycleFrame frame).Pooled codes := by
  rw [Vm.recycleFrame]
  split
  · exact h
  · refine ⟨fun other hother => ?_, h.simpleFramePool, h.simpleSlot0Pool⟩
    obtain rfl | hother := List.mem_cons.1 hother
    · exact ⟨frame.cleared_cleared, Frame.fits_cleared hfits⟩
    · exact h.framePool other hother

lemma retarget (h : vm.Pooled codes) (key : Code × Obj) :
    (vm.retargetSimpleSlot0Pool key).Pooled codes ∧
      (vm.retargetSimpleSlot0Pool key).simpleSlot0PoolKey = some key := by
  rw [retargetSimpleSlot0Pool]
  split
  · rename_i hkey
    exact ⟨h, hkey⟩
  · refine ⟨⟨h.framePool, fun frame hframe => ?_, fun frame hframe => ?_⟩, rfl⟩
    · obtain hframe | hframe := List.mem_append.1 hframe
      · exact (h.simpleSlot0Pool frame (List.mem_reverse.1 hframe)).1
      · exact h.simpleFramePool frame hframe
    · exact (List.not_mem_nil hframe).elim

omit [DecidableEq Code] [DecidableEq Obj] in
/-- A simple frame is pushed on the pool of its code and module. -/
lemma push_slot0 (h : vm.Pooled codes) {frame : Frame Value Obj Code Site}
    (hsimple : frame.Simple codes) (howner : frame.ownerClass = none)
    (hkey : vm.simpleSlot0PoolKey = some (frame.code, frame.module)) :
    ({ vm with simpleSlot0Pool := frame :: vm.simpleSlot0Pool } :
      Vm Value Obj Code Site).Pooled codes := by
  refine ⟨h.framePool, h.simpleFramePool, fun other hother => ?_⟩
  obtain rfl | hother := List.mem_cons.1 hother
  · exact ⟨hsimple, howner, hkey⟩
  · exact h.simpleSlot0Pool other hother

omit [DecidableEq Code] [DecidableEq Obj] in
lemma push_simple (h : vm.Pooled codes) {frame : Frame Value Obj Code Site}
    (hsimple : frame.Simple codes) :
    ({ vm with simpleFramePool := frame :: vm.simpleFramePool } :
      Vm Value Obj Code Site).Pooled codes := by
  refine ⟨h.framePool, fun other hother => ?_, h.simpleSlot0Pool⟩
  obtain rfl | hother := List.mem_cons.1 hother
  · exact hsimple
  · exact h.simpleFramePool other hother

lemma recycleUnchecked (h : vm.Pooled codes) {frame : Frame Value Obj Code Site}
    (hfits : frame.Fits codes) (hmark : frame.simpleOneArgNoCells = true)
    (howner : frame.ownerClass = none) (hsettled : frame.Settled) :
    (vm.recycleSimpleFrameCleanSlot0Unchecked frame).Pooled codes := by
  rw [recycleSimpleFrameCleanSlot0Unchecked]
  split
  · exact h
  · obtain ⟨hpooled, hkey⟩ := h.retarget (frame.code, frame.module)
    have hsimple := (Frame.simple_clearFirst hsettled hfits hmark).rewind
      frame.exceptStarMatchLasti frame.reraiseLastiOverride
    exact hpooled.push_slot0 hsimple howner hkey

/-- A settled frame is taken to the pool of its code and module, or returned. -/
lemma tryRecycle (h : vm.Pooled codes) {frame : Frame Value Obj Code Site}
    (hfits : frame.Fits codes) (hmark : frame.simpleOneArgNoCells = true)
    (hsettled : frame.Settled) :
    (vm.tryRecycleSimpleSlot0Frame codes frame).1.Pooled codes ∧
      ∀ other, (vm.tryRecycleSimpleSlot0Frame codes frame).2 = some other → other = frame := by
  rw [tryRecycleSimpleSlot0Frame]
  split
  · exact ⟨h, fun other hother => (Option.some.inj hother).symm⟩
  · rename_i htaken
    have howner : frame.ownerClass = none := by
      rw [Bool.or_eq_true, not_or, Bool.not_eq_true, Option.isSome_eq_false_iff,
        Option.isNone_iff_eq_none] at htaken
      exact htaken.1
    obtain ⟨hpooled, hkey⟩ := h.retarget (frame.code, frame.module)
    dsimp only
    split
    · exact ⟨hpooled, fun other hother => (Option.some.inj hother).symm⟩
    · have hsimple := (Frame.simple_clearFirst hsettled hfits hmark).rewind none none
      exact ⟨hpooled.push_slot0 hsimple howner hkey, fun other hother => by cases hother⟩

lemma recycleSimple (h : vm.Pooled codes) {frame : Frame Value Obj Code Site}
    (hfits : frame.Fits codes) (hmark : frame.simpleOneArgNoCells = true) :
    (vm.recycleSimpleFrame codes frame).Pooled codes := by
  have hcleared := Frame.fits_simplyCleared hfits hmark
  rw [recycleSimpleFrame]
  split
  · exact h
  split
  · rename_i hsettled
    have hsettled := Frame.settled_of_isSettled (Bool.and_eq_true _ _ ▸ hsettled).2
    obtain ⟨hpooled, hreturned⟩ := h.tryRecycle hfits hmark hsettled
    generalize vm.tryRecycleSimpleSlot0Frame codes frame = tried at hpooled hreturned
    obtain ⟨after, _ | other⟩ := tried
    · exact hpooled
    · obtain rfl := hreturned other rfl
      exact hpooled.push_simple (Frame.simple_clearFirst hsettled hfits hmark)
  · dsimp only
    split
    · obtain ⟨hpooled, hreturned⟩ :=
        h.tryRecycle hcleared rfl frame.settled_simplyCleared
      generalize vm.tryRecycleSimpleSlot0Frame codes frame.simplyCleared = tried
        at hpooled hreturned
      obtain ⟨after, _ | other⟩ := tried
      · exact hpooled
      · obtain rfl := hreturned other rfl
        exact hpooled.push_simple
          (Frame.simple_fillNone frame.settled_simplyCleared hcleared rfl)
    · exact h.push_simple (Frame.simple_fillNone frame.settled_simplyCleared hcleared rfl)

/-! ### Frames that are taken -/

omit [DecidableEq Obj] in
/-- A frame that is acquired is a new one, and the pools are kept. -/
lemma acquireFrame (h : vm.Pooled codes) (code : Code) (module : Obj)
    (isModule returnModule : Bool) (cells : List Obj) (ownerClass : Option Obj) :
    ∃ id, (vm.acquireFrame codes code module isModule returnModule cells
      ownerClass).1.withoutSites =
        (Frame.new codes id (vm.globalsVersion module) code module isModule returnModule cells
          ownerClass).withoutSites ∧
      (vm.acquireFrame codes code module isModule returnModule cells ownerClass).2.Pooled
        codes := by
  rw [Vm.acquireFrame]
  split
  · rename_i frame pool hpool
    obtain ⟨hcleared, hfits⟩ := h.framePool frame (hpool ▸ List.mem_cons_self)
    refine ⟨frame.frameId, Frame.resetForReuse_new codes hcleared hfits _ _ _ _ _ _ _, ?_⟩
    exact ⟨fun other hother => h.framePool other (hpool ▸ List.mem_cons_of_mem _ hother),
      h.simpleFramePool, h.simpleSlot0Pool⟩
  · exact ⟨vm.nextVmFrameId, rfl, ⟨h.framePool, h.simpleFramePool, h.simpleSlot0Pool⟩⟩

/-- A simple frame that is acquired is a new one with the mark of simple frames. -/
lemma acquireSimple (h : vm.Pooled codes) (code : Code) (module : Obj)
    (ownerClass : Option Obj) :
    ∃ id, (vm.acquireSimpleFrameNoCellsRef codes code module ownerClass).1.withoutSites =
        { (Frame.new codes id (vm.globalsVersion module) code module false false []
          ownerClass).withoutSites with simpleOneArgNoCells := true } ∧
      (vm.acquireSimpleFrameNoCellsRef codes code module ownerClass).2.Pooled codes := by
  rw [acquireSimpleFrameNoCellsRef]
  split
  · rename_i frame pool hpool
    have hsimple := h.simpleFramePool frame (hpool ▸ List.mem_cons_self)
    refine ⟨frame.frameId, Frame.prepareSimpleOneArgNoCellsRef_new codes hsimple _ _ _ _, ?_⟩
    exact ⟨h.framePool, fun other hother =>
      h.simpleFramePool other (hpool ▸ List.mem_cons_of_mem _ hother), h.simpleSlot0Pool⟩
  · exact ⟨vm.nextVmFrameId, rfl, ⟨h.framePool, h.simpleFramePool, h.simpleSlot0Pool⟩⟩

omit [DecidableEq Code] [DecidableEq Obj] in
/-- A frame of the pool of a code and module is a new one for them. -/
lemma slot0_new {frame : Frame Value Obj Code Site} (hsimple : frame.Simple codes)
    (howner : frame.ownerClass = none)
    (hcode : Frame.singleArgDirectSlot codes frame.code = true) (version : UInt64) :
    ({ frame with
      ip := 0
      lastIp := 0
      exceptStarMatchLasti := none
      reraiseLastiOverride := none
      functionGlobalsVersion := version
      simpleOneArgNoCells := true } : Frame Value Obj Code Site).withoutSites =
      { (Frame.new codes frame.frameId version frame.code frame.module false false []
        none).withoutSites with simpleOneArgNoCells := true } := by
  have hglobals : frame.functionGlobals = frame.module := hsimple.functionGlobals hsimple.mark
  have hlocals : frame.fastLocals = List.replicate (codes.fastLocalCount frame.code) none := by
    rw [Frame.singleArgDirectSlot, Bool.and_eq_true, decide_eq_true_iff] at hcode
    have hlength := hsimple.fastLocals
    rw [hcode.1] at hlength ⊢
    exact Frame.eq_of_head? hlength hsimple.unset
  rw [← hsimple.toSettled.eq, Frame.withoutSites, Frame.withoutSites, Frame.new]
  simp only [Frame.simplyCleared, hglobals, hlocals, howner]

/-- A frame that is acquired for its one argument is a new one, with the mark of simple frames and
the globals version that it is given. -/
lemma acquireSlot0 (h : vm.Pooled codes) (code : Code) (module : Obj) (globalsVersion : UInt64)
    (hcode : Frame.singleArgDirectSlot codes code = true) :
    ∃ id, (vm.acquireSimpleFrameSlot0NoCellsFastRef codes code module
        globalsVersion).1.withoutSites =
        { (Frame.new codes id globalsVersion code module false false [] none).withoutSites with
          simpleOneArgNoCells := true } ∧
      (vm.acquireSimpleFrameSlot0NoCellsFastRef codes code module globalsVersion).2.Pooled
        codes := by
  obtain ⟨hpooled, hkey⟩ := h.retarget (code, module)
  rw [acquireSimpleFrameSlot0NoCellsFastRef]
  dsimp only
  generalize vm.retargetSimpleSlot0Pool (code, module) = after at hpooled hkey
  split
  · rename_i frame pool hpool
    obtain ⟨hsimple, howner, hframe⟩ :=
      hpooled.simpleSlot0Pool frame (hpool ▸ List.mem_cons_self)
    obtain ⟨rfl, rfl⟩ := Prod.mk.inj (Option.some.inj (hkey.symm.trans hframe))
    refine ⟨frame.frameId, slot0_new hsimple howner hcode globalsVersion, ?_⟩
    exact ⟨hpooled.framePool, hpooled.simpleFramePool, fun other hother =>
      hpooled.simpleSlot0Pool other (hpool ▸ List.mem_cons_of_mem _ hother)⟩
  · split
    · rename_i frame pool hpool
      have hsimple := hpooled.simpleFramePool frame (hpool ▸ List.mem_cons_self)
      have hnew := Frame.prepareSimpleOneArgNoCellsRef_new codes hsimple
        (after.globalsVersion module) code module none
      refine ⟨frame.frameId, congrArg (fun prepared : Frame Value Obj Code Site =>
        { prepared with functionGlobalsVersion := globalsVersion }) hnew, ?_⟩
      exact ⟨hpooled.framePool, fun other hother =>
        hpooled.simpleFramePool other (hpool ▸ List.mem_cons_of_mem _ hother),
        hpooled.simpleSlot0Pool⟩
    · exact ⟨after.nextVmFrameId, rfl,
        ⟨hpooled.framePool, hpooled.simpleFramePool, hpooled.simpleSlot0Pool⟩⟩

end Vm.Pooled

/-! ## Runs -/

/-- The state before the first frame. -/
def State.initial (globalsVersion : Obj → UInt64) : State Value Obj Code Site where
  vm := ⟨[], [], [], none, 1, globalsVersion⟩
  frames := []

/-- What holds in every state of a run. -/
structure State.Valid (codes : CodeTable Code) (state : State Value Obj Code Site) : Prop where
  vm : state.vm.Pooled codes
  frames : ∀ frame ∈ state.frames, frame.Fits codes

section Runs

variable [DecidableEq Code] [DecidableEq Obj] {codes : CodeTable Code}

lemma State.Valid.step {before after : State Value Obj Code Site} (h : before.Valid codes)
    (hstep : Step codes Frame.Settled before after) : after.Valid codes := by
  obtain ⟨hvm, hframes⟩ := h
  have hcons : ∀ {vm : Vm Value Obj Code Site} {frames : List (Frame Value Obj Code Site)}
      {frame : Frame Value Obj Code Site}, vm.Pooled codes → frame.Fits codes →
      (∀ other ∈ frames, other.Fits codes) → State.Valid codes ⟨vm, frame :: frames⟩ :=
    fun hvm hframe hframes => ⟨hvm, fun other hother => (List.mem_cons.1 hother).elim
      (fun heq => heq ▸ hframe) (hframes other)⟩
  cases hstep with
  | acquire vm frames code module isModule returnModule cells ownerClass frame after hacquire =>
    obtain ⟨id, hnew, hpooled⟩ :=
      hvm.acquireFrame code module isModule returnModule cells ownerClass
    rw [hacquire] at hnew hpooled
    exact hcons hpooled (.congr _ hnew (Frame.fits_new ..)) hframes
  | acquireSimple vm frames code module ownerClass frame after hacquire =>
    obtain ⟨id, hnew, hpooled⟩ := hvm.acquireSimple code module ownerClass
    rw [hacquire] at hnew hpooled
    exact hcons hpooled (.congr { Frame.new codes id (vm.globalsVersion module) code module
      false false [] ownerClass with simpleOneArgNoCells := true } hnew
      ⟨List.length_replicate, fun _ => rfl⟩) hframes
  | acquireSlot0 vm frames code module globalsVersion frame after hcode hacquire =>
    obtain ⟨id, hnew, hpooled⟩ := hvm.acquireSlot0 code module globalsVersion hcode
    rw [hacquire] at hnew hpooled
    exact hcons hpooled (.congr { Frame.new codes id globalsVersion code module false
      false [] none with simpleOneArgNoCells := true } hnew
      ⟨List.length_replicate, fun _ => rfl⟩) hframes
  | new vm frames code module isModule returnModule cells ownerClass =>
    exact hcons ⟨hvm.framePool, hvm.simpleFramePool, hvm.simpleSlot0Pool⟩ (Frame.fits_new ..)
      hframes
  | execute vm front back frame executed hexecutes =>
    refine ⟨hvm, fun other hother => ?_⟩
    obtain hother | hother := List.mem_append.1 hother
    · exact hframes other (List.mem_append_left _ hother)
    · obtain rfl | hother := List.mem_cons.1 hother
      · exact (hframes frame (List.mem_append_right _ List.mem_cons_self)).executes hexecutes
      · exact hframes other (List.mem_append_right _ (List.mem_cons_of_mem _ hother))
  | recycle vm front back frame =>
    have hframe := hframes frame (List.mem_append_right _ List.mem_cons_self)
    refine ⟨?_, fun other hother => hframes other (List.mem_append.2
      ((List.mem_append.1 hother).imp_right (List.mem_cons_of_mem _)))⟩
    dsimp only
    split
    · rename_i hmark
      exact hvm.recycleSimple hframe hmark
    · exact hvm.recycleFrame hframe
  | recycleUnchecked vm front back frame hreturns hsettled =>
    have hframe := hframes frame (List.mem_append_right _ List.mem_cons_self)
    exact ⟨hvm.recycleUnchecked hframe hreturns.mark hreturns.ownerClass hsettled,
      fun other hother =>
      hframes other (List.mem_append.2
        ((List.mem_append.1 hother).imp_right (List.mem_cons_of_mem _)))⟩
  | drop vm front back frame =>
    exact ⟨hvm, fun other hother => hframes other (List.mem_append.2
      ((List.mem_append.1 hother).imp_right (List.mem_cons_of_mem _)))⟩
  | modules vm frames globalsVersion =>
    exact ⟨⟨hvm.framePool, hvm.simpleFramePool, hvm.simpleSlot0Pool⟩, hframes⟩

omit [DecidableEq Code] [DecidableEq Obj] in
lemma State.Valid.initial (globalsVersion : Obj → UInt64) :
    (State.initial globalsVersion : State Value Obj Code Site).Valid codes where
  vm := ⟨fun _ h => (List.not_mem_nil h).elim, fun _ h => (List.not_mem_nil h).elim,
    fun _ h => (List.not_mem_nil h).elim⟩
  frames := fun _ h => (List.not_mem_nil h).elim

/-- The states of the runs that recycle only allowed frames unchecked. -/
def Reachable (codes : CodeTable Code) (Allowed : Frame Value Obj Code Site → Prop)
    (state : State Value Obj Code Site) : Prop :=
  ∃ globalsVersion, Relation.ReflTransGen (Step codes Allowed) (State.initial globalsVersion) state

lemma Reachable.valid {state : State Value Obj Code Site}
    (h : Reachable codes Frame.Settled state) : state.Valid codes := by
  obtain ⟨globalsVersion, hrun⟩ := h
  induction hrun with
  | refl => exact .initial globalsVersion
  | tail _ hstep ih => exact ih.step hstep

/-- In every run that recycles only settled frames unchecked, a frame that is taken from a pool is a
new frame for its code and module but for its site caches, under the id of the reused frame; a
simple frame has the mark of simple frames, and one that is taken for its one argument the globals
version that it is given. -/
theorem reused_frame_new {state : State Value Obj Code Site}
    (h : Reachable codes Frame.Settled state) :
    (∀ (code : Code) (module : Obj) (isModule returnModule : Bool) (cells : List Obj)
      (ownerClass : Option Obj), ∃ id,
        (state.vm.acquireFrame codes code module isModule returnModule cells
          ownerClass).1.withoutSites =
          (Frame.new codes id (state.vm.globalsVersion module) code module isModule returnModule
            cells ownerClass).withoutSites) ∧
    (∀ (code : Code) (module : Obj) (ownerClass : Option Obj), ∃ id,
      (state.vm.acquireSimpleFrameNoCellsRef codes code module ownerClass).1.withoutSites =
        { (Frame.new codes id (state.vm.globalsVersion module) code module false false []
          ownerClass).withoutSites with simpleOneArgNoCells := true }) ∧
    ∀ (code : Code) (module : Obj) (globalsVersion : UInt64),
      Frame.singleArgDirectSlot codes code = true → ∃ id,
        (state.vm.acquireSimpleFrameSlot0NoCellsFastRef codes code module
          globalsVersion).1.withoutSites =
          { (Frame.new codes id globalsVersion code module false false [] none).withoutSites with
            simpleOneArgNoCells := true } := by
  have hpooled := h.valid.vm
  refine ⟨fun code module isModule returnModule cells ownerClass => ?_,
    fun code module ownerClass => ?_, fun code module globalsVersion hcode => ?_⟩
  · obtain ⟨id, hnew, -⟩ :=
      hpooled.acquireFrame code module isModule returnModule cells ownerClass
    exact ⟨id, hnew⟩
  · obtain ⟨id, hnew, -⟩ := hpooled.acquireSimple code module ownerClass
    exact ⟨id, hnew⟩
  · obtain ⟨id, hnew, -⟩ := hpooled.acquireSlot0 code module globalsVersion hcode
    exact ⟨id, hnew⟩

end Runs

/-- A code object of one argument. -/
def oneArgCodes : CodeTable Unit where
  fastLocalCount := fun _ => 1
  instructionLen := fun _ => 2
  plainPositionalArg0Slot := fun _ => some 0

/-- The machine before its first frame. -/
def firstVm : Vm ℕ ℕ Unit Unit := ⟨[], [], [], none, 1, fun _ => 0⟩

def firstFrame : Frame ℕ ℕ Unit Unit :=
  (firstVm.acquireSimpleFrameNoCellsRef oneArgCodes () 0 none).1

/-- The machine without the first frame. -/
def acquiredVm : Vm ℕ ℕ Unit Unit := (firstVm.acquireSimpleFrameNoCellsRef oneArgCodes () 0 none).2

lemma step_acquiredVm (Allowed : Frame ℕ ℕ Unit Unit → Prop) :
    Step oneArgCodes Allowed (State.initial fun _ => 0) ⟨acquiredVm, [firstFrame]⟩ :=
  .acquireSimple _ _ _ _ _ _ _ rfl

/-- A frame that raised and was left inside a block. -/
def raisedFrame : Frame ℕ ℕ Unit Unit :=
  { firstFrame with
    ip := 5
    stack := [7, 8]
    fastLocals := [some 9]
    blocks := [⟨3, 0⟩]
    activeException := some 4 }

/-- The first call raises; the frame of the second one returns fast and is recycled unchecked. -/
def recycledVm : Vm ℕ ℕ Unit Unit :=
  let vm := acquiredVm.recycleSimpleFrame oneArgCodes raisedFrame
  (vm.acquireSimpleFrameSlot0NoCellsFastRef oneArgCodes () 0 2).2
    |>.recycleSimpleFrameCleanSlot0Unchecked
      { (vm.acquireSimpleFrameSlot0NoCellsFastRef oneArgCodes () 0 2).1 with
        ip := 3
        fastLocals := [some 6] }

lemma reachable_recycledVm : Reachable oneArgCodes Frame.Settled ⟨recycledVm, []⟩ := by
  refine ⟨fun _ => 0, .tail (.tail (.tail (.tail (.tail (.tail .refl (step_acquiredVm _))
    (.execute _ [] [] _ raisedFrame ⟨rfl, rfl, rfl, rfl, rfl, rfl, fun _ => rfl⟩))
    (.recycle _ [] [] _)) (.acquireSlot0 _ _ () 0 2 _ _ rfl rfl))
    (.execute _ [] [] _ _ ⟨rfl, rfl, rfl, rfl, rfl, rfl, fun _ => rfl⟩))
    (.recycleUnchecked _ [] [] _ ⟨rfl, rfl, rfl, rfl, rfl, rfl⟩ ?_)⟩
  constructor <;> rfl

theorem reused_frame_new_raised :
    ∃ id, (recycledVm.acquireSimpleFrameSlot0NoCellsFastRef oneArgCodes () 0 3).1.withoutSites =
      { (Frame.new oneArgCodes id 3 () 0 false false [] none).withoutSites with
        simpleOneArgNoCells := true } :=
  (reused_frame_new reachable_recycledVm).2.2 () 0 3 rfl

/-- A frame at the return of `try: return x + x`, inside its block. -/
def returningFrame : Frame ℕ ℕ Unit Unit :=
  { firstFrame with
    ip := 6
    fastLocals := [some 9]
    blocks := [⟨7, 0⟩] }

/-- The frame that is recycled inside a block is taken with the block. -/
theorem reused_frame_blocks :
    ¬∀ state : State ℕ ℕ Unit Unit, Reachable oneArgCodes (fun _ => True) state →
      ∀ globalsVersion, ∃ id,
        (state.vm.acquireSimpleFrameSlot0NoCellsFastRef oneArgCodes () 0
          globalsVersion).1.withoutSites =
          { (Frame.new oneArgCodes id globalsVersion () 0 false false [] none).withoutSites with
            simpleOneArgNoCells := true } := by
  intro h
  have hexecute : Step oneArgCodes (fun _ => True) ⟨acquiredVm, [firstFrame]⟩
      ⟨acquiredVm, [returningFrame]⟩ :=
    .execute _ [] [] _ _ ⟨rfl, rfl, rfl, rfl, rfl, rfl, fun _ => rfl⟩
  have hrecycle : Step oneArgCodes (fun _ => True) ⟨acquiredVm, [returningFrame]⟩
      ⟨acquiredVm.recycleSimpleFrameCleanSlot0Unchecked returningFrame, []⟩ :=
    .recycleUnchecked _ [] [] _ ⟨rfl, rfl, rfl, rfl, rfl, rfl⟩ trivial
  obtain ⟨id, hnew⟩ :=
    h _ ⟨fun _ => 0, .tail (.tail (.tail .refl (step_acquiredVm _)) hexecute) hrecycle⟩ 3
  have hblocks : [⟨7, 0⟩] = ([] : List Block) := congrArg Frame.blocks hnew
  cases hblocks

end FramePool

end Pyrs
