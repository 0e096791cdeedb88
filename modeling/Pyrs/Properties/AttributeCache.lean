import Pyrs.Model.Attributes
import Pyrs.Properties.GlobalsCache

/-!
# Coherence of the attribute caches

An entry of a `LoadAttr` site is guarded by the versions of two classes, the one of the instance and
the one that holds the attribute.  It stays right over a run as long as no class between the two, or
with a `__getattribute__` of its own, changes under it.

What an access should give is read in the orders that Python gives the classes: an assignment to
`__bases__` leaves the stored order of the subclasses as it was, so `pythonOrders` follows the
assignments beside the run.  A store or a delete comes in two forms.  The statements touch the
version of the class, and the builtins `setattr` and `delattr` called directly do not.
-/

namespace Pyrs

variable {V : Type}

/-! ## Runs -/

inductive AttrAction (V : Type)
  | loadAttr (site instanceId : ℕ)
  | storeClassAttr (classId : ℕ) (name : String) (value : ClassAttr V)
  | deleteClassAttr (classId : ℕ) (name : String)
  /-- The order of the class, and the orders that its subclasses have in Python. -/
  | assignBases (classId : ℕ) (mro : List ℕ) (recomputed : ℕ → List ℕ)
  /-- The three again, from a function of the machine that does not touch the version. -/
  | builtinSetattr (classId : ℕ) (name : String) (value : ClassAttr V)
  | builtinDelattr (classId : ℕ) (name : String)
  | builtinSetBases (classId : ℕ) (mro : List ℕ) (recomputed : ℕ → List ℕ)
  | createClass (data : AttrClass V)
  /-- A new instance, an assignment to its `__class__`, or a change of its attributes. -/
  | storeInstance (instanceId : ℕ) (data : AttrInstance V)
  | invalidateTypeCache (classId : ℕ)
  | callFrame (code : ℕ)
  | returnFrame

namespace AttrVm

/-- The machine after a fallible action; an error changes nothing. -/
def orElse (vm : AttrVm V) : Except String (AttrVm V) → AttrVm V
  | .error _ => vm
  | .ok vm => vm

variable [DecidableEq V]

def perform (vm : AttrVm V) : AttrAction V → AttrVm V
  | .loadAttr site instanceId => (vm.loadAttr site instanceId).2
  | .storeClassAttr classId name value => vm.orElse (vm.storeClassAttr classId name value)
  | .deleteClassAttr classId name => vm.orElse (vm.deleteClassAttr classId name)
  | .assignBases classId mro _ => vm.orElse (vm.assignBases classId mro)
  | .builtinSetattr classId name value => vm.orElse (vm.builtinSetattr classId name value)
  | .builtinDelattr classId name => vm.orElse (vm.builtinDelattr classId name)
  | .builtinSetBases classId mro _ => vm.orElse (vm.builtinSetBases classId mro)
  | .createClass data => vm.createClass data
  | .storeInstance instanceId data => vm.withInstance instanceId data
  | .invalidateTypeCache classId => vm.invalidateTypeCache classId
  | .callFrame code => vm.callFrame code
  | .returnFrame => vm.returnFrame

/-- The classes that the action brings in exist. -/
def Known (vm : AttrVm V) : AttrAction V → Prop
  | .assignBases classId mro _ | .builtinSetBases classId mro _ =>
    classId < vm.nextClass ∧ ∀ entry ∈ mro, entry < vm.nextClass
  | .createClass data => ∀ entry ∈ data.mro, entry ≤ vm.nextClass
  | .storeInstance _ data => data.classId < vm.nextClass
  | _ => True

/-- Nothing is cached yet. -/
structure Starts (vm : AttrVm V) : Prop where
  frames : vm.frames = []
  framePool : vm.framePool = []
  instances : ∀ instanceId, (vm.instances instanceId).classId < vm.nextClass
  orders : ∀ classId < vm.nextClass, ∀ entry ∈ (vm.classes classId).mro, entry < vm.nextClass

/-- The orders of the machine. -/
def orders (vm : AttrVm V) : ℕ → List ℕ := fun classId => (vm.classes classId).mro

/-- The orders of Python after other bases: the subclasses have new orders, too. -/
def ordersAfterBases (vm : AttrVm V) (orders : ℕ → List ℕ) (classId : ℕ) (mro : List ℕ)
    (recomputed : ℕ → List ℕ) : ℕ → List ℕ :=
  if (vm.classes classId).userClass then fun other =>
    if other = classId then mro
    else if classId ∈ orders other then recomputed other
    else orders other
  else orders

/-- The order that each class has in Python. -/
def pythonOrders (vm : AttrVm V) (orders : ℕ → List ℕ) : AttrAction V → ℕ → List ℕ
  | .assignBases classId mro recomputed | .builtinSetBases classId mro recomputed =>
    vm.ordersAfterBases orders classId mro recomputed
  | .createClass data => Function.update orders vm.nextClass data.mro
  | _ => orders

/-- The machines that allowed actions lead to, with the orders of Python. -/
inductive Reaches (Allowed : AttrVm V → AttrAction V → Prop) : AttrVm V → (ℕ → List ℕ) → Prop
  | start {vm : AttrVm V} (h : vm.Starts) : Reaches Allowed vm vm.orders
  | step {vm : AttrVm V} {orders : ℕ → List ℕ} {action : AttrAction V}
      (h : Reaches Allowed vm orders)
      (hknown : vm.Known action) (hallowed : Allowed vm action) :
      Reaches Allowed (vm.perform action) (vm.pythonOrders orders action)

/-- An entry of a frame, at a site that loads a name. -/
def Cached (vm : AttrVm V) (name : String) (cached : LoadAttrSiteCacheEntry V) : Prop :=
  ∃ frame ∈ vm.frames ++ vm.framePool, ∃ site ways, frame.loadAttrInlineCache[site]? = some ways ∧
    (vm.codes frame.code).attrName site = some name ∧
    (ways.1 = some cached ∨ ways.2 = some cached)

/-- The class stands in the order that the entry was made for, but does not guard it. -/
def Unguarded (vm : AttrVm V) (classId : ℕ) (cached : LoadAttrSiteCacheEntry V) : Prop :=
  classId ≠ cached.classId ∧ classId ≠ cached.ownerClass ∧
    classId ∈ vm.classAttrWalk cached.classId

/-- Other bases leave the orders of the subclasses as they are. -/
def KeepsSubclasses (vm : AttrVm V) (classId : ℕ) (recomputed : ℕ → List ℕ) : Prop :=
  ∀ other ≠ classId, classId ∈ (vm.classes other).mro → recomputed other = (vm.classes other).mro

/-- No counter is at its last value, and other bases change the order of no subclass.  For no entry
that still matches, the action stores its attribute into an unguarded class in front of the owner,
or stores or deletes the `__getattribute__` of an unguarded class; where the version is not touched,
no class guards the entry. -/
structure KeepsLookups (vm : AttrVm V) (action : AttrAction V) : Prop where
  versions_lt : ∀ classId, vm.classAttrVersion classId < 2 ^ 64 - 1
  subclasses : ∀ classId mro recomputed, action = .assignBases classId mro recomputed ∨
    action = .builtinSetBases classId mro recomputed → vm.KeepsSubclasses classId recomputed
  store : ∀ classId name value, action = .storeClassAttr classId name value →
    ∀ cached, vm.Cached name cached → vm.EntryMatches cached.classId cached →
      classId ∈ (vm.classAttrWalk cached.classId).takeWhile (· ≠ cached.ownerClass) →
        ¬ vm.Unguarded classId cached
  getattribute : ∀ classId value, action = .storeClassAttr classId "__getattribute__" value ∨
      action = .deleteClassAttr classId "__getattribute__" →
    ∀ name cached, vm.Cached name cached → vm.EntryMatches cached.classId cached →
      ¬ vm.Unguarded classId cached
  untouchedStore : ∀ classId name value, action = .builtinSetattr classId name value →
    ∀ cached, vm.Cached name cached → vm.EntryMatches cached.classId cached →
      classId ≠ cached.ownerClass ∧
        classId ∉ (vm.classAttrWalk cached.classId).takeWhile (· ≠ cached.ownerClass)
  untouchedDelete : ∀ classId name, action = .builtinDelattr classId name →
    ∀ cached, vm.Cached name cached → vm.EntryMatches cached.classId cached →
      classId ≠ cached.ownerClass
  untouchedGetattribute : ∀ classId value,
      action = .builtinSetattr classId "__getattribute__" value ∨
        action = .builtinDelattr classId "__getattribute__" →
    ∀ name cached, vm.Cached name cached → vm.EntryMatches cached.classId cached →
      classId ∉ vm.classAttrWalk cached.classId
  untouchedBases : ∀ classId mro recomputed, action = .builtinSetBases classId mro recomputed →
    ∀ name cached, vm.Cached name cached → vm.EntryMatches cached.classId cached →
      classId ≠ cached.classId

/-! ## Lookup over a walk -/

section Lookup

omit [DecidableEq V]

variable {vm vm' : AttrVm V} {classId : ℕ} {name : String}

/-- The owner is the first class of the walk that has the attribute. -/
lemma lookupOwnerAndValue_eq_some {owner : ℕ} {attr : ClassAttr V} :
    vm.lookupOwnerAndValue classId name = some (owner, attr) ↔
      owner ∈ vm.classAttrWalk classId ∧ (vm.classes owner).attrs name = some attr ∧
        ∀ other ∈ (vm.classAttrWalk classId).takeWhile (· ≠ owner),
          (vm.classes other).attrs name = none := by
  unfold lookupOwnerAndValue
  induction vm.classAttrWalk classId with
  | nil => simp
  | cons first walk ih =>
    rw [List.findSome?_cons]
    cases hfirst : (vm.classes first).attrs name with
    | some attr' =>
      dsimp only [Option.map_some]
      constructor
      · rintro ⟨⟩
        exact ⟨List.mem_cons_self, hfirst, by simp⟩
      · rintro ⟨-, hattr, hbefore⟩
        by_cases howner : first = owner
        · subst howner
          rw [Option.some.inj (hfirst.symm.trans hattr)]
        · have hnone := hbefore first (by simp [howner])
          rw [hfirst] at hnone
          cases hnone
    | none =>
      dsimp only [Option.map_none]
      rw [ih, List.mem_cons]
      have hne : (vm.classes owner).attrs name = some attr → first ≠ owner := by
        rintro hattr rfl
        rw [hfirst] at hattr
        cases hattr
      constructor
      · rintro ⟨hmem, hattr, hbefore⟩
        refine ⟨.inr hmem, hattr, fun other hother => ?_⟩
        rw [List.takeWhile_cons_of_pos (by simpa using hne hattr)] at hother
        rcases List.mem_cons.1 hother with rfl | hother
        · exact hfirst
        · exact hbefore other hother
      · rintro ⟨hmem, hattr, hbefore⟩
        rw [List.takeWhile_cons_of_pos (by simpa using hne hattr)] at hbefore
        exact ⟨hmem.resolve_left fun heq => hne hattr heq.symm, hattr,
          fun other hother => hbefore other (List.mem_cons_of_mem _ hother)⟩

lemma classAttrWalk_subset : vm.classAttrWalk classId ⊆ (vm.classes classId).mro := by
  intro entry hentry
  rcases List.mem_append.1 hentry with hentry | hentry
  · exact (List.mem_filter.1 hentry).1
  · exact List.mem_of_find?_eq_some (by simpa using hentry)

/-- A walk reads the order of its class and the names of the entries. -/
lemma classAttrWalk_congr (hmro : (vm'.classes classId).mro = (vm.classes classId).mro)
    (hnames : ∀ entry ∈ (vm.classes classId).mro,
      (vm'.classes entry).name = (vm.classes entry).name) :
    vm'.classAttrWalk classId = vm.classAttrWalk classId := by
  unfold classAttrWalk
  rw [hmro]
  dsimp only
  congr 1
  · exact List.filter_congr fun entry hentry => by rw [hnames entry hentry]
  · congr 1
    generalize (vm.classes classId).mro = mro at hnames
    induction mro with
    | nil => rfl
    | cons first mro ih =>
      rw [List.find?_cons, List.find?_cons, hnames first List.mem_cons_self,
        ih fun entry hentry => hnames entry (List.mem_cons_of_mem _ hentry)]

/-- A lookup finds the same when the classes before the owner stay without the attribute. -/
lemma lookup_congr {owner : ℕ} {attr : ClassAttr V}
    (hlookup : vm.lookupOwnerAndValue classId name = some (owner, attr))
    (hwalk : vm'.classAttrWalk classId = vm.classAttrWalk classId)
    (howner : (vm'.classes owner).attrs name = (vm.classes owner).attrs name)
    (hbefore : ∀ other ∈ (vm.classAttrWalk classId).takeWhile (· ≠ owner),
      (vm.classes other).attrs name = none → (vm'.classes other).attrs name = none) :
    vm'.lookupOwnerAndValue classId name = some (owner, attr) := by
  obtain ⟨hmem, hattr, hnone⟩ := lookupOwnerAndValue_eq_some.1 hlookup
  refine lookupOwnerAndValue_eq_some.2 ⟨hwalk ▸ hmem, howner.trans hattr, fun other hother => ?_⟩
  rw [hwalk] at hother
  exact hbefore other hother (hnone other hother)

/-- A lookup finds the same when no class of the walk changes the attribute. -/
lemma lookupOwnerAndValue_congr (hwalk : vm'.classAttrWalk classId = vm.classAttrWalk classId)
    (hattrs : ∀ other ∈ vm.classAttrWalk classId,
      (vm'.classes other).attrs name = (vm.classes other).attrs name) :
    vm'.lookupOwnerAndValue classId name = vm.lookupOwnerAndValue classId name := by
  unfold lookupOwnerAndValue
  rw [hwalk]
  generalize vm.classAttrWalk classId = walk at hattrs
  induction walk with
  | nil => rfl
  | cons first walk ih =>
    rw [List.findSome?_cons, List.findSome?_cons, hattrs first List.mem_cons_self,
      ih fun other hother => hattrs other (List.mem_cons_of_mem _ hother)]

end Lookup

variable {vm vm' : AttrVm V} {classId : ℕ} {name : String}

/-! ## What an entry holds -/

/-- What the entry answers is what a load finds. -/
structure Answers (vm : AttrVm V) (name : String) (cached : LoadAttrSiteCacheEntry V)
    (attr : ClassAttr V) : Prop where
  lookup : vm.lookupOwnerAndValue cached.classId name = some (cached.ownerClass, attr)
  getattribute : vm.UsesDefaultGetattribute cached.classId
  plainName : name ≠ "__class__" ∧ name ≠ "__dict__" ∧ suppressesClassMetadata name = false
  notData : ∀ value hasGetter, attr ≠ .other value hasGetter true
  outcome : ∀ instanceId,
    (vm.loadClassAttr instanceId cached.classId name cached.ownerClass attr).1 =
    cachedOutcome cached instanceId

structure EntryOk (vm : AttrVm V) (name : String) (cached : LoadAttrSiteCacheEntry V) : Prop where
  class_le : cached.classVersion ≤ vm.classAttrVersion cached.classId
  owner_le : cached.ownerClassVersion ≤ vm.classAttrVersion cached.ownerClass
  exist : cached.classId < vm.nextClass
  answers : vm.EntryMatches cached.classId cached → ∃ attr, vm.Answers name cached attr

/-- The invariant of runs. -/
structure Coherent (vm : AttrVm V) : Prop where
  entries : ∀ name cached, vm.Cached name cached → vm.EntryOk name cached
  instances : ∀ instanceId, (vm.instances instanceId).classId < vm.nextClass
  orders : ∀ classId < vm.nextClass, ∀ entry ∈ (vm.classes classId).mro, entry < vm.nextClass

/-- An entry that answers right answers a load of an instance without the attribute. -/
lemma Answers.load {cached : LoadAttrSiteCacheEntry V} {attr : ClassAttr V} {instanceId : ℕ}
    (h : vm.Answers name cached attr) (hclass : (vm.instances instanceId).classId = cached.classId)
    (hshadow : (vm.instances instanceId).attrs name = none) :
    (vm.loadAttrInstanceWithSiteCache instanceId name).1 = cachedOutcome cached instanceId := by
  have hdefault : (vm.loadAttrInstanceDefault instanceId name).1 =
      cachedOutcome cached instanceId := by
    unfold loadAttrInstanceDefault
    dsimp only
    rw [if_neg h.plainName.1, if_neg h.plainName.2.1, h.plainName.2.2, hclass, h.lookup, hshadow]
    rw [if_neg Bool.false_ne_true]
    split
    next heq =>
      obtain ⟨-, rfl⟩ := Prod.mk.inj (Option.some.inj heq)
      exact absurd rfl (h.notData _ _)
    next => exact h.outcome instanceId
  unfold loadAttrInstanceWithSiteCache
  dsimp only
  rw [hclass, if_pos h.getattribute]
  split_ifs <;> exact hdefault

omit [DecidableEq V] in
lemma loadClassAttr_entry {instanceId owner : ℕ} {attr : ClassAttr V}
    {cached : LoadAttrSiteCacheEntry V}
    (h : (vm.loadClassAttr instanceId classId name owner attr).2 = some cached) :
    cached.classId = classId ∧ cached.ownerClass = owner ∧
      cached.classVersion = vm.classAttrVersion classId ∧
      cached.ownerClassVersion = vm.classAttrVersion owner ∧
      (∀ value hasGetter isData, attr ≠ .other value hasGetter isData) ∧
      ∀ instanceId', (vm.loadClassAttr instanceId' classId name owner attr).1 =
        cachedOutcome cached instanceId' := by
  cases attr with
  | other value hasGetter isData =>
    cases hasGetter <;> cases h
  | builtin builtin =>
    unfold loadClassAttr buildSiteCacheEntry at h ⊢
    dsimp only at h ⊢
    split_ifs at h with howner hdirect
    · cases h
    · obtain rfl := Option.some.inj h
      exact ⟨rfl, rfl, rfl, rfl, by simp, fun _ => by rw [if_neg howner]; rfl⟩
  | function _ | classMethod _ | staticMethod _ | plain _ =>
    obtain rfl := Option.some.inj h
    exact ⟨rfl, rfl, rfl, rfl, by simp, fun _ => rfl⟩

/-- An entry that a load makes answers right. -/
lemma exists_answers_of_load {cached : LoadAttrSiteCacheEntry V} {instanceId : ℕ}
    (h : (vm.loadAttrInstanceWithSiteCache instanceId name).2 = some cached) :
    cached.classId = (vm.instances instanceId).classId ∧
      cached.classVersion = vm.classAttrVersion cached.classId ∧
      cached.ownerClassVersion = vm.classAttrVersion cached.ownerClass ∧
      ∃ attr, vm.Answers name cached attr := by
  unfold loadAttrInstanceWithSiteCache at h
  dsimp only at h
  split_ifs at h with hdefault hallow
  · unfold loadAttrInstanceDefault at h
    dsimp only at h
    split_ifs at h with hclass hdict hsuppress
    · rw [hallow.2] at h
      cases h
    · rw [hallow.2] at h
      cases hlookup : vm.lookupOwnerAndValue (vm.instances instanceId).classId name with
      | none =>
        rw [hlookup] at h
        cases h
      | some found =>
        obtain ⟨owner, attr⟩ := found
        rw [hlookup] at h
        have hload : (vm.loadClassAttr instanceId (vm.instances instanceId).classId name owner
            attr).2 = some cached := by
          split at h
          · split_ifs at h
          · exact h
        obtain ⟨hclassId, howner, hversion, hownerVersion, hother, houtcome⟩ :=
          loadClassAttr_entry hload
        refine ⟨hclassId, hclassId ▸ hversion, howner ▸ hownerVersion, attr, ?_⟩
        exact ⟨by rw [hclassId, howner, hlookup], hclassId ▸ hdefault,
          ⟨hclass, hdict, by simpa using hsuppress⟩, fun value hasGetter => hother _ _ _,
          hclassId.symm ▸ howner.symm ▸ houtcome⟩

/-! ## Steps -/

/-- The versions of the classes of an entry are still the same. -/
def Untouched (vm vm' : AttrVm V) (cached : LoadAttrSiteCacheEntry V) : Prop :=
  vm'.classAttrVersion cached.classId = vm.classAttrVersion cached.classId ∧
    (cached.ownerClass = cached.classId ∨
      vm'.classAttrVersion cached.ownerClass = vm.classAttrVersion cached.ownerClass)

omit [DecidableEq V] in
/-- A step keeps an entry right when, as long as its classes are not touched, it keeps what the
entry stands for. -/
lemma EntryOk.step {cached : LoadAttrSiteCacheEntry V} (h : vm.EntryOk name cached)
    (hle : ∀ classId, vm.classAttrVersion classId ≤ vm'.classAttrVersion classId)
    (hnext : vm.nextClass ≤ vm'.nextClass)
    (hkeep : vm.EntryMatches cached.classId cached → Untouched vm vm' cached →
      ∀ attr, vm.Answers name cached attr → vm'.Answers name cached attr) :
    vm'.EntryOk name cached := by
  have hclass := hle cached.classId
  have howner := hle cached.ownerClass
  refine ⟨h.class_le.trans hclass, h.owner_le.trans howner, h.exist.trans_le hnext, ?_⟩
  rintro ⟨-, hversion, hownerVersion⟩
  have hclassLe := h.class_le
  have hownerLe := h.owner_le
  have huntouched : Untouched vm vm' cached := by
    refine ⟨by omega, hownerVersion.imp_right fun hownerVersion => by omega⟩
  have hmatches : vm.EntryMatches cached.classId cached :=
    ⟨rfl, by omega, hownerVersion.imp_right fun hownerVersion => by omega⟩
  obtain ⟨attr, hattr⟩ := h.answers hmatches
  exact ⟨attr, hkeep hmatches huntouched attr hattr⟩

omit [DecidableEq V] in
/-- The answer of an entry depends on the lookups of its name and of `__getattribute__`, and on the
kind of the owner. -/
lemma Answers.congr {cached : LoadAttrSiteCacheEntry V} {attr : ClassAttr V}
    (h : vm.Answers name cached attr)
    (hlookup : vm'.lookupOwnerAndValue cached.classId name = some (cached.ownerClass, attr))
    (hdefault : vm'.UsesDefaultGetattribute cached.classId)
    (huser : (vm'.classes cached.ownerClass).userClass = (vm.classes cached.ownerClass).userClass) :
    vm'.Answers name cached attr := by
  refine ⟨hlookup, hdefault, h.plainName, h.notData, fun instanceId => ?_⟩
  rw [← h.outcome instanceId]
  unfold loadClassAttr
  cases attr with
  | builtin builtin =>
    dsimp only
    rw [huser]
    split_ifs <;> rfl
  | other value hasGetter isData => cases hasGetter <;> rfl
  | function _ | classMethod _ | staticMethod _ | plain _ => rfl

omit [DecidableEq V] in
/-- The default `__getattribute__` stays when no class of the walk changes that attribute. -/
lemma UsesDefaultGetattribute.congr (h : vm.UsesDefaultGetattribute classId)
    (hobject : vm'.objectGetattribute = vm.objectGetattribute)
    (hwalk : vm'.classAttrWalk classId = vm.classAttrWalk classId)
    (hattrs : ∀ other ∈ vm.classAttrWalk classId, (vm'.classes other).attrs "__getattribute__" =
      (vm.classes other).attrs "__getattribute__") : vm'.UsesDefaultGetattribute classId := by
  unfold UsesDefaultGetattribute classAttrLookup
  rw [hobject, lookupOwnerAndValue_congr hwalk hattrs]
  exact h

omit [DecidableEq V] in
/-- Classes that do not change answer as before. -/
lemma Answers.of_classes {cached : LoadAttrSiteCacheEntry V} {attr : ClassAttr V}
    (h : vm.Answers name cached attr) (hobject : vm'.objectGetattribute = vm.objectGetattribute)
    (hclass : vm'.classes cached.classId = vm.classes cached.classId)
    (hclasses : ∀ other ∈ (vm.classes cached.classId).mro,
      vm'.classes other = vm.classes other) : vm'.Answers name cached attr := by
  have hwalk : vm'.classAttrWalk cached.classId = vm.classAttrWalk cached.classId :=
    classAttrWalk_congr (by rw [hclass]) fun other hother => by rw [hclasses other hother]
  have hattrs : ∀ attr', ∀ other ∈ vm.classAttrWalk cached.classId,
      (vm'.classes other).attrs attr' = (vm.classes other).attrs attr' :=
    fun attr' other hother => by rw [hclasses other (classAttrWalk_subset hother)]
  have howner := (lookupOwnerAndValue_eq_some.1 h.lookup).1
  refine h.congr ?_ (h.getattribute.congr hobject hwalk (hattrs _)) ?_
  · rw [lookupOwnerAndValue_congr hwalk (hattrs name), h.lookup]
  · rw [hclasses _ (classAttrWalk_subset howner)]

omit [DecidableEq V] in
lemma classAttrVersion_touch (touched : ℕ → Bool)
    (hlt : ∀ classId, vm.classAttrVersion classId < 2 ^ 64 - 1) (classId : ℕ) :
    (vm.touchClassAttrVersions touched).classAttrVersion classId =
      vm.classAttrVersion classId + if touched classId then 1 else 0 := by
  change (if touched classId then _ else _) = _
  split_ifs
  · exact GlobalsVm.touchVersion_eq (hlt classId)
  · rfl

omit [DecidableEq V] in
lemma classes_withClass_of_ne {data : AttrClass V} {other : ℕ} (hother : other ≠ classId) :
    (vm.withClass classId data).classes other = vm.classes other :=
  Function.update_of_ne hother _ _

omit [DecidableEq V] in
@[simp]
lemma classes_withClass_self {data : AttrClass V} :
    (vm.withClass classId data).classes classId = data :=
  Function.update_self _ _ _

omit [DecidableEq V] in
/-- Another value of one attribute of a class, which is not a new value of the entry's attribute in
front of its owner or in it. -/
lemma Answers.withAttr {cached : LoadAttrSiteCacheEntry V} {attr : ClassAttr V}
    (h : vm.Answers name cached attr) {stored : String} {value : Option (ClassAttr V)}
    (howner : stored = name → classId ≠ cached.ownerClass)
    (hstore : stored = name → value ≠ none →
      classId ∉ (vm.classAttrWalk cached.classId).takeWhile (· ≠ cached.ownerClass))
    (hgetattribute : stored = "__getattribute__" → classId ∉ vm.classAttrWalk cached.classId) :
    (vm.withClass classId { vm.classes classId with
      attrs := Function.update (vm.classes classId).attrs stored value }).Answers name cached
        attr := by
  set vm' := vm.withClass classId { vm.classes classId with
    attrs := Function.update (vm.classes classId).attrs stored value } with hvm'
  have hsame : ∀ other, (vm'.classes other).name = (vm.classes other).name ∧
      (vm'.classes other).mro = (vm.classes other).mro ∧
      (vm'.classes other).userClass = (vm.classes other).userClass := by
    intro other
    by_cases hother : other = classId
    · subst hother
      rw [hvm', classes_withClass_self]
      exact ⟨rfl, rfl, rfl⟩
    · rw [hvm', classes_withClass_of_ne hother]
      exact ⟨rfl, rfl, rfl⟩
  have hattrs : ∀ other attr', (attr' = stored → other ≠ classId) →
      (vm'.classes other).attrs attr' = (vm.classes other).attrs attr' := by
    intro other attr' hne
    by_cases hother : other = classId
    · subst hother
      rw [hvm', classes_withClass_self]
      exact Function.update_of_ne (fun heq => hne heq rfl) _ _
    · rw [hvm', classes_withClass_of_ne hother]
  have hwalk : vm'.classAttrWalk cached.classId = vm.classAttrWalk cached.classId :=
    classAttrWalk_congr (hsame _).2.1 fun entry _ => (hsame entry).1
  refine h.congr ?_ (h.getattribute.congr rfl hwalk fun other hother => ?_) (hsame _).2.2
  · refine lookup_congr h.lookup hwalk (hattrs _ _ fun hname => (howner hname.symm).symm)
      fun other hother hnone => ?_
    by_cases hchanged : other = classId ∧ stored = name
    · obtain ⟨rfl, hstored⟩ := hchanged
      by_cases hvalue : value = none
      · rw [hvm', classes_withClass_self, hstored, hvalue]
        exact Function.update_self _ _ _
      · exact absurd hother (hstore hstored hvalue)
    · rw [hattrs other name fun hname hclass => hchanged ⟨hclass, hname.symm⟩]
      exact hnone
  · exact hattrs other _ fun hname hclass => hgetattribute hname.symm (hclass ▸ hother)

omit [DecidableEq V] in
/-- Another order of a class that is not the entry's. -/
lemma Answers.withMro {cached : LoadAttrSiteCacheEntry V} {attr : ClassAttr V}
    (h : vm.Answers name cached attr) {mro : List ℕ} (hclass : classId ≠ cached.classId) :
    (vm.withClass classId { vm.classes classId with mro := mro }).Answers name cached attr := by
  set vm' := vm.withClass classId { vm.classes classId with mro := mro } with hvm'
  have hsame : ∀ other, (vm'.classes other).name = (vm.classes other).name ∧
      (vm'.classes other).attrs = (vm.classes other).attrs ∧
      (vm'.classes other).userClass = (vm.classes other).userClass := by
    intro other
    by_cases hother : other = classId
    · subst hother
      rw [hvm', classes_withClass_self]
      exact ⟨rfl, rfl, rfl⟩
    · rw [hvm', classes_withClass_of_ne hother]
      exact ⟨rfl, rfl, rfl⟩
  have hwalk : vm'.classAttrWalk cached.classId = vm.classAttrWalk cached.classId :=
    classAttrWalk_congr (by rw [hvm', classes_withClass_of_ne hclass.symm])
      fun entry _ => (hsame entry).1
  refine h.congr ?_ (h.getattribute.congr rfl hwalk fun other _ => ?_) (hsame _).2.2
  · exact (lookupOwnerAndValue_congr hwalk fun other _ => by rw [(hsame other).2.1]).trans h.lookup
  · rw [(hsame other).2.1]

omit [DecidableEq V] in
/-- A change of a class keeps the entries right when it keeps what each matching entry stands
for. -/
lemma Coherent.withClass (h : vm.Coherent) {data : AttrClass V}
    (horder : classId < vm.nextClass → ∀ entry ∈ data.mro, entry < vm.nextClass)
    (hkeep : ∀ name cached, vm.Cached name cached → vm.EntryMatches cached.classId cached →
      ∀ attr, vm.Answers name cached attr → (vm.withClass classId data).Answers name cached attr) :
    (vm.withClass classId data).Coherent := by
  refine ⟨fun name cached hcached => ?_, h.instances, fun other hother entry hentry => ?_⟩
  · exact (h.entries name cached hcached).step (fun _ => le_rfl) le_rfl
      fun hmatches _ attr hattr => hkeep name cached hcached hmatches attr hattr
  · by_cases hclass : other = classId
    · subst hclass
      rw [classes_withClass_self] at hentry
      exact horder hother entry hentry
    · rw [classes_withClass_of_ne hclass] at hentry
      exact h.orders other hother entry hentry

omit [DecidableEq V] in
/-- With a touched version the change may concern what the class guards. -/
lemma Coherent.touchedClass (h : vm.Coherent) {data : AttrClass V}
    (hlt : ∀ classId, vm.classAttrVersion classId < 2 ^ 64 - 1)
    (horder : classId < vm.nextClass → ∀ entry ∈ data.mro, entry < vm.nextClass)
    (hkeep : ∀ name cached, vm.Cached name cached → vm.EntryMatches cached.classId cached →
      classId ≠ cached.classId → classId ≠ cached.ownerClass → ∀ attr,
        vm.Answers name cached attr → (vm.withClass classId data).Answers name cached attr) :
    ((vm.withClass classId data).touchClassAttrVersion classId).Coherent := by
  have hversion : ∀ other, ((vm.withClass classId data).touchClassAttrVersion
      classId).classAttrVersion other = vm.classAttrVersion other +
        if other = classId then 1 else 0 := by
    intro other
    have htouch := @classAttrVersion_touch _ (vm.withClass classId data) (· = classId) hlt other
    simp only [decide_eq_true_eq] at htouch
    exact htouch
  refine ⟨fun name cached hcached => ?_, h.instances, fun other hother entry hentry => ?_⟩
  · refine (h.entries name cached hcached).step (fun other => ?_) le_rfl
      fun hmatches huntouched attr hattr => ?_
    · rw [hversion]
      omega
    · obtain ⟨hclass, howner⟩ := huntouched
      rw [hversion] at hclass howner
      have hne : cached.classId ≠ classId := fun heq => by
        rw [if_pos heq] at hclass
        omega
      have hneOwner : classId ≠ cached.ownerClass := by
        intro heq
        rcases howner with howner | howner
        · exact hne (howner ▸ heq.symm)
        · rw [if_pos heq.symm] at howner
          omega
      exact (hkeep name cached hcached hmatches hne.symm hneOwner attr hattr).of_classes rfl rfl
        fun _ _ => rfl
  · by_cases hclass : other = classId
    · subst hclass
      change entry ∈ ((vm.withClass other data).classes other).mro at hentry
      rw [classes_withClass_self] at hentry
      exact horder hother entry hentry
    · change entry ∈ ((vm.withClass classId data).classes other).mro at hentry
      rw [classes_withClass_of_ne hclass] at hentry
      exact h.orders other hother entry hentry

omit [DecidableEq V] in
lemma coherent_storeClassAttr (h : vm.Coherent) {value : ClassAttr V}
    (hkeeps : vm.KeepsLookups (.storeClassAttr classId name value)) :
    (vm.orElse (vm.storeClassAttr classId name value)).Coherent := by
  unfold AttrVm.storeClassAttr AttrVm.builtinSetattr
  dsimp only
  split_ifs
  · refine h.touchedClass hkeeps.versions_lt (h.orders classId)
      fun loaded cached hcached hmatches hclass howner attr hattr => ?_
    refine hattr.withAttr (fun _ => howner) (fun hname _ hbefore => ?_) fun hname hmem => ?_
    · subst hname
      have hwalk := (List.takeWhile_prefix _).subset hbefore
      exact hkeeps.store classId name value rfl cached hcached hmatches hbefore
        ⟨hclass, howner, hwalk⟩
    · subst hname
      exact hkeeps.getattribute classId value (.inl rfl) loaded cached hcached hmatches
        ⟨hclass, howner, hmem⟩
  · exact h

omit [DecidableEq V] in
lemma coherent_deleteClassAttr (h : vm.Coherent)
    (hkeeps : vm.KeepsLookups (.deleteClassAttr classId name)) :
    (vm.orElse (vm.deleteClassAttr classId name)).Coherent := by
  unfold AttrVm.deleteClassAttr AttrVm.builtinDelattr
  dsimp only
  split_ifs
  · split
    · exact h
    next value _ =>
      refine h.touchedClass hkeeps.versions_lt (h.orders classId)
        fun loaded cached hcached hmatches hclass howner attr hattr => ?_
      refine hattr.withAttr (fun _ => howner) (fun _ hvalue => absurd rfl hvalue)
        fun hname hmem => ?_
      subst hname
      exact hkeeps.getattribute classId value (.inr rfl) loaded cached hcached hmatches
        ⟨hclass, howner, hmem⟩
  · exact h

omit [DecidableEq V] in
lemma coherent_assignBases (h : vm.Coherent) {mro : List ℕ} {recomputed : ℕ → List ℕ}
    (hknown : vm.Known (.assignBases classId mro recomputed))
    (hlt : ∀ classId, vm.classAttrVersion classId < 2 ^ 64 - 1) :
    (vm.orElse (vm.assignBases classId mro)).Coherent := by
  unfold AttrVm.assignBases AttrVm.builtinSetBases
  dsimp only
  split_ifs
  · exact h.touchedClass hlt (fun _ => hknown.2)
      fun _ _ _ _ hclass _ _ hattr => hattr.withMro hclass
  · exact h

omit [DecidableEq V] in
lemma coherent_builtinSetattr (h : vm.Coherent) {value : ClassAttr V}
    (hkeeps : vm.KeepsLookups (.builtinSetattr classId name value)) :
    (vm.orElse (vm.builtinSetattr classId name value)).Coherent := by
  unfold AttrVm.builtinSetattr
  dsimp only
  split_ifs
  · refine h.withClass (h.orders classId) fun loaded cached hcached hmatches attr hattr => ?_
    refine hattr.withAttr (fun hname => ?_) (fun hname _ => ?_) fun hname => ?_
    · exact (hkeeps.untouchedStore classId name value rfl cached (hname ▸ hcached) hmatches).1
    · exact (hkeeps.untouchedStore classId name value rfl cached (hname ▸ hcached) hmatches).2
    · subst hname
      exact hkeeps.untouchedGetattribute classId value (.inl rfl) loaded cached hcached hmatches
  · exact h

omit [DecidableEq V] in
lemma coherent_builtinDelattr (h : vm.Coherent)
    (hkeeps : vm.KeepsLookups (.builtinDelattr classId name)) :
    (vm.orElse (vm.builtinDelattr classId name)).Coherent := by
  unfold AttrVm.builtinDelattr
  dsimp only
  split_ifs
  · split
    · exact h
    next value _ =>
      refine h.withClass (h.orders classId) fun loaded cached hcached hmatches attr hattr => ?_
      refine hattr.withAttr (fun hname => ?_) (fun _ hvalue => absurd rfl hvalue) fun hname => ?_
      · exact hkeeps.untouchedDelete classId name rfl cached (hname ▸ hcached) hmatches
      · subst hname
        exact hkeeps.untouchedGetattribute classId value (.inr rfl) loaded cached hcached hmatches
  · exact h

omit [DecidableEq V] in
lemma coherent_builtinSetBases (h : vm.Coherent) {mro : List ℕ} {recomputed : ℕ → List ℕ}
    (hknown : vm.Known (.builtinSetBases classId mro recomputed))
    (hkeeps : vm.KeepsLookups (.builtinSetBases classId mro recomputed)) :
    (vm.orElse (vm.builtinSetBases classId mro)).Coherent := by
  unfold AttrVm.builtinSetBases
  dsimp only
  split_ifs
  · exact h.withClass (fun _ => hknown.2) fun loaded cached hcached hmatches _ hattr =>
      hattr.withMro (hkeeps.untouchedBases classId mro recomputed rfl loaded cached
        hcached hmatches)
  · exact h

omit [DecidableEq V] in
lemma coherent_createClass (h : vm.Coherent) {data : AttrClass V}
    (hknown : vm.Known (.createClass data)) : (vm.createClass data).Coherent := by
  have hclasses : ∀ other < vm.nextClass, (vm.createClass data).classes other =
      vm.classes other := fun other hother => Function.update_of_ne hother.ne _ _
  refine ⟨fun name cached hcached => ?_, fun instanceId => (h.instances instanceId).trans
    (Nat.lt_succ_self _), fun classId hclass entry hentry => ?_⟩
  · have hentry := h.entries name cached hcached
    refine hentry.step (fun _ => le_rfl) (Nat.le_succ _) fun _ _ attr hattr => ?_
    exact hattr.of_classes rfl (hclasses _ hentry.exist)
      fun other hother => hclasses other (h.orders _ hentry.exist other hother)
  · rcases Nat.lt_succ_iff_lt_or_eq.1 hclass with hclass | rfl
    · rw [hclasses classId hclass] at hentry
      exact (h.orders classId hclass entry hentry).trans (Nat.lt_succ_self _)
    · have hdata : (vm.createClass data).classes vm.nextClass = data := Function.update_self _ _ _
      rw [hdata] at hentry
      exact Nat.lt_succ_of_le (hknown entry hentry)

omit [DecidableEq V] in
/-- A step that changes no class. -/
lemma Coherent.of_classes (h : vm.Coherent) (hclasses : vm'.classes = vm.classes)
    (hobject : vm'.objectGetattribute = vm.objectGetattribute)
    (hnext : vm'.nextClass = vm.nextClass)
    (hle : ∀ classId, vm.classAttrVersion classId ≤ vm'.classAttrVersion classId)
    (hinstances : ∀ instanceId, (vm'.instances instanceId).classId < vm.nextClass)
    (hentries : ∀ name cached, vm'.Cached name cached → vm.EntryOk name cached) :
    vm'.Coherent := by
  refine ⟨fun name cached hcached => ?_, hnext ▸ hinstances, ?_⟩
  · refine (hentries name cached hcached).step hle hnext.ge fun _ _ attr hattr => ?_
    exact hattr.of_classes hobject (by rw [hclasses]) fun other _ => by rw [hclasses]
  · rw [hnext, hclasses]
    exact h.orders

omit [DecidableEq V] in
lemma coherent_withInstance (h : vm.Coherent) {instanceId : ℕ} {data : AttrInstance V}
    (hknown : vm.Known (.storeInstance instanceId data)) :
    (vm.withInstance instanceId data).Coherent := by
  refine h.of_classes rfl rfl rfl (fun _ => le_rfl) (fun other => ?_) h.entries
  change (Function.update vm.instances instanceId data other).classId < _
  by_cases hother : other = instanceId
  · subst hother
    rw [Function.update_self]
    exact hknown
  · rw [Function.update_of_ne hother]
    exact h.instances other

omit [DecidableEq V] in
/-- A cleared frame has no entries. -/
lemma not_cached_clearFrame {frame : AttrFrame V} {site : ℕ} {ways : LoadAttrWays V}
    (h : (clearFrame frame).loadAttrInlineCache[site]? = some ways) : ways = (none, none) := by
  change (frame.loadAttrInlineCache.map fun _ => (none, none))[site]? = _ at h
  rw [List.getElem?_map] at h
  obtain ⟨_, -, rfl⟩ := Option.map_eq_some_iff.1 h
  rfl

omit [DecidableEq V] in
lemma coherent_invalidateTypeCache (h : vm.Coherent)
    (hlt : ∀ classId, vm.classAttrVersion classId < 2 ^ 64 - 1) :
    (vm.invalidateTypeCache classId).Coherent := by
  refine h.of_classes rfl rfl rfl (fun other => ?_) h.instances
    fun name cached ⟨frame, hframe, site, ways, hsite, hname, hways⟩ => ?_
  · refine (Nat.le_add_right _ _).trans_eq (classAttrVersion_touch (fun other =>
      other = classId || (decide (other < vm.nextClass) &&
        (vm.classes other).mro.contains classId)) hlt other).symm
  · rcases List.mem_append.1 hframe with hframe | hframe
    · obtain ⟨frame, -, rfl⟩ := List.mem_map.1 hframe
      obtain rfl := not_cached_clearFrame hsite
      rcases hways with hways | hways <;> cases hways
    · exact h.entries name cached
        ⟨frame, List.mem_append_right _ hframe, site, ways, hsite, hname, hways⟩

omit [DecidableEq V] in
/-- The empty caches of a new frame hold no entry. -/
lemma eq_none_of_emptyCache {size site : ℕ} {ways : LoadAttrWays V}
    (h : (List.replicate size ((none, none) : LoadAttrWays V))[site]? = some ways) :
    ways = (none, none) :=
  (List.mem_replicate.1 (List.mem_of_getElem? h)).2

omit [DecidableEq V] in
lemma coherent_callFrame (h : vm.Coherent) (code : ℕ) : (vm.callFrame code).Coherent := by
  unfold AttrVm.callFrame
  dsimp only
  split
  next hpool =>
    refine h.of_classes rfl rfl rfl (fun _ => le_rfl) h.instances
      fun name cached ⟨frame, hframe, site, ways, hsite, hname, hways⟩ => ?_
    rcases List.mem_cons.1 hframe with rfl | hframe
    · obtain rfl := eq_none_of_emptyCache hsite
      rcases hways with hways | hways <;> cases hways
    · exact h.entries name cached ⟨frame, hframe, site, ways, hsite, hname, hways⟩
  next pooled pool hpool =>
    refine h.of_classes rfl rfl rfl (fun _ => le_rfl) h.instances
      fun name cached ⟨frame, hframe, site, ways, hsite, hname, hways⟩ => ?_
    rcases List.mem_cons.1 hframe with rfl | hframe
    · dsimp only at hsite hname
      split_ifs at hsite with hcode
      · exact h.entries name cached ⟨pooled, by simp [hpool], site, ways, hsite,
          by rw [hcode]; exact hname, hways⟩
      · obtain rfl := eq_none_of_emptyCache hsite
        rcases hways with hways | hways <;> cases hways
    · refine h.entries name cached ⟨frame, ?_, site, ways, hsite, hname, hways⟩
      rw [hpool]
      exact (List.mem_append.1 hframe).elim (List.mem_append_left _)
        fun hframe => List.mem_append_right _ (List.mem_cons_of_mem _ hframe)

omit [DecidableEq V] in
lemma coherent_returnFrame (h : vm.Coherent) : vm.returnFrame.Coherent := by
  unfold AttrVm.returnFrame
  split
  · exact h
  next frame frames hframes =>
    refine h.of_classes rfl rfl rfl (fun _ => le_rfl) h.instances
      fun name cached ⟨other, hother, hcached⟩ => ?_
    refine h.entries name cached ⟨other, ?_, hcached⟩
    rw [hframes]
    dsimp only at hother
    simp only [List.mem_append, List.mem_cons] at hother ⊢
    tauto

/-! ## Loads -/

omit [DecidableEq V] in
/-- The ways of a site of the running frame hold entries that are right. -/
lemma coherent_withWays (h : vm.Coherent) {frame : AttrFrame V} {frames : List (AttrFrame V)}
    {site : ℕ} {ways : LoadAttrWays V} (hframes : vm.frames = frame :: frames)
    (hname : (vm.codes frame.code).attrName site = some name)
    (hways : ∀ cached, ways.1 = some cached ∨ ways.2 = some cached → vm.EntryOk name cached) :
    (vm.withWays site ways).Coherent := by
  unfold withWays
  rw [hframes]
  refine h.of_classes rfl rfl rfl (fun _ => le_rfl) h.instances
    fun loaded cached ⟨other, hother, site', ways', hsite, hloaded, hcached⟩ => ?_
  rcases List.mem_cons.1 hother with rfl | hother
  · by_cases hsame : site = site'
    · subst hsame
      have hset : ways' = ways := by
        obtain ⟨hlt, rfl⟩ := List.getElem?_eq_some_iff.1 hsite
        exact List.getElem_set_self _
      obtain rfl := Option.some.inj (hname.symm.trans hloaded)
      exact hways cached (hset ▸ hcached)
    · dsimp only at hsite
      rw [List.getElem?_set_ne hsame] at hsite
      exact h.entries loaded cached ⟨frame, by simp [hframes], site', ways', hsite, hloaded,
        hcached⟩
  · refine h.entries loaded cached ⟨other, ?_, site', ways', hsite, hloaded, hcached⟩
    rw [hframes]
    exact List.mem_cons_of_mem _ hother

omit [DecidableEq V] in
/-- A try passes or drops entries, and adds none. -/
lemma tryLoad_ways {ways : LoadAttrWays V} {instanceId : ℕ} {cached : LoadAttrSiteCacheEntry V}
    (h : (vm.tryLoadAttrInstanceSiteCache ways instanceId name).2.1 = some cached ∨
      (vm.tryLoadAttrInstanceSiteCache ways instanceId name).2.2 = some cached) :
    ways.1 = some cached ∨ ways.2 = some cached := by
  have hstale : ∀ classId (way : Option (LoadAttrSiteCacheEntry V)),
      vm.dropStale classId way = some cached → way = some cached :=
    fun classId way hway => (Option.filter_eq_some_iff.1 hway).1
  unfold tryLoadAttrInstanceSiteCache at h
  dsimp only at h
  split_ifs at h
  · exact h
  · split at h
    · exact h
    · split at h
      · exact h.imp_left (hstale _ _)
      · exact h.imp (hstale _ _) (hstale _ _)

omit [DecidableEq V] in
/-- What a site answers comes from an entry that matches. -/
lemma tryLoad_eq_some {ways ways' : LoadAttrWays V} {instanceId : ℕ} {outcome : AttrOutcome V}
    (h : vm.tryLoadAttrInstanceSiteCache ways instanceId name = (some outcome, ways')) :
    (vm.instances instanceId).attrs name = none ∧
      ∃ cached, (ways.1 = some cached ∨ ways.2 = some cached) ∧
        vm.EntryMatches (vm.instances instanceId).classId cached ∧
        outcome = cachedOutcome cached instanceId := by
  unfold tryLoadAttrInstanceSiteCache at h
  dsimp only at h
  split_ifs at h with hshadow
  · cases (Prod.mk.inj h).1
  · refine ⟨by simpa using hshadow, ?_⟩
    split at h
    next cached hfirst =>
      obtain ⟨hway, hmatches⟩ := Option.filter_eq_some_iff.1 hfirst
      exact ⟨cached, .inl hway, of_decide_eq_true hmatches,
        (Option.some.inj (Prod.mk.inj h).1).symm⟩
    next =>
      split at h
      next cached hsecond =>
        obtain ⟨hway, hmatches⟩ := Option.filter_eq_some_iff.1 hsecond
        exact ⟨cached, .inr hway, of_decide_eq_true hmatches,
          (Option.some.inj (Prod.mk.inj h).1).symm⟩
      next => cases (Prod.mk.inj h).1

omit [DecidableEq V] in
lemma insertEntry_ways {ways : LoadAttrWays V} {entry cached : LoadAttrSiteCacheEntry V}
    (h : (insertEntry ways entry).1 = some cached ∨ (insertEntry ways entry).2 = some cached) :
    cached = entry ∨ ways.1 = some cached ∨ ways.2 = some cached := by
  unfold insertEntry at h
  split at h
  · exact h.imp (fun h => (Option.some.inj h).symm) .inr
  · split_ifs at h
    · exact h.imp (fun h => (Option.some.inj h).symm) .inr
    · exact h.elim (fun h => .inr (.inl h)) fun h => .inl (Option.some.inj h).symm

/-- The machine with the orders of Python in its classes. -/
def withOrders (vm : AttrVm V) (orders : ℕ → List ℕ) : AttrVm V :=
  { vm with classes := fun classId => { vm.classes classId with mro := orders classId } }

omit [DecidableEq V] in
lemma withOrders_orders : vm.withOrders vm.orders = vm := rfl

/-- A load without the entries, over the orders of Python. -/
def freshLoad (vm : AttrVm V) (orders : ℕ → List ℕ) (site instanceId : ℕ) :
    Option (AttrOutcome V) :=
  vm.frames.head?.bind fun frame => ((vm.codes frame.code).attrName site).map fun name =>
    ((vm.withOrders orders).loadAttrInstanceWithSiteCache instanceId name).1

omit [DecidableEq V] in
/-- The ways of a site of the running frame are cached. -/
lemma cached_of_way {frame : AttrFrame V} {frames : List (AttrFrame V)} {site : ℕ}
    {cached : LoadAttrSiteCacheEntry V} (hframes : vm.frames = frame :: frames)
    (hname : (vm.codes frame.code).attrName site = some name)
    (h : ((frame.loadAttrInlineCache[site]?).getD (none, none)).1 = some cached ∨
      ((frame.loadAttrInlineCache[site]?).getD (none, none)).2 = some cached) :
    vm.Cached name cached := by
  cases hsite : frame.loadAttrInlineCache[site]? with
  | none => rw [hsite] at h; rcases h with h | h <;> cases h
  | some ways =>
    rw [hsite] at h
    exact ⟨frame, by simp [hframes], site, ways, hsite, hname, h⟩

/-- A load answers what a fresh load does, and keeps the entries right. -/
lemma loadAttr_spec (h : vm.Coherent) (site instanceId : ℕ) :
    (vm.loadAttr site instanceId).1 = vm.freshLoad vm.orders site instanceId ∧
      (vm.loadAttr site instanceId).2.Coherent := by
  unfold loadAttr freshLoad
  rw [withOrders_orders]
  split
  next hframes => exact ⟨by rw [hframes]; rfl, h⟩
  next frame frames hframes =>
    rw [hframes, List.head?_cons, Option.bind_some]
    split
    next hname => exact ⟨by rw [hname]; rfl, h⟩
    next name hname =>
      rw [hname, Option.map_some]
      have hways : ∀ cached,
          ((frame.loadAttrInlineCache[site]?).getD (none, none)).1 = some cached ∨
          ((frame.loadAttrInlineCache[site]?).getD (none, none)).2 = some cached →
          vm.EntryOk name cached :=
        fun cached hcached => h.entries name cached (cached_of_way hframes hname hcached)
      dsimp only
      split
      next outcome ways htry =>
        obtain ⟨hshadow, cached, hcached, hmatches, rfl⟩ := tryLoad_eq_some htry
        have hclass := hmatches.1
        obtain ⟨attr, hattr⟩ := (hways cached hcached).answers (hclass ▸ hmatches)
        refine ⟨by rw [hattr.load hclass hshadow], coherent_withWays h hframes hname
          fun other hother => hways other ?_⟩
        exact tryLoad_ways (by rw [htry]; exact hother)
      next ways htry =>
        have hleft : ∀ cached, ways.1 = some cached ∨ ways.2 = some cached →
            vm.EntryOk name cached := fun cached hcached => hways cached
          (tryLoad_ways (by rw [htry]; exact hcached))
        split
        next outcome entry hload =>
          refine ⟨by rw [hload], coherent_withWays h hframes hname fun cached hcached => ?_⟩
          rcases insertEntry_ways hcached with rfl | hcached
          · obtain ⟨hclass, hversion, howner, hanswers⟩ :=
              exists_answers_of_load (congrArg Prod.snd hload)
            exact ⟨hversion.le, howner.le, hclass ▸ h.instances instanceId, fun _ => hanswers⟩
          · exact hleft cached hcached
        next outcome hload =>
          refine ⟨by rw [hload], coherent_withWays h hframes hname fun cached hcached => ?_⟩
          rcases hcached with hcached | hcached <;> cases hcached

/-! ## Whole runs -/

omit [DecidableEq V] in
lemma Starts.coherent (h : vm.Starts) : vm.Coherent := by
  refine ⟨fun name cached ⟨frame, hframe, _⟩ => ?_, h.instances, h.orders⟩
  rw [h.frames, h.framePool] at hframe
  cases hframe

lemma Coherent.perform (h : vm.Coherent) {action : AttrAction V} (hknown : vm.Known action)
    (hkeeps : vm.KeepsLookups action) : (vm.perform action).Coherent := by
  cases action with
  | loadAttr site instanceId => exact (loadAttr_spec h site instanceId).2
  | storeClassAttr classId name value => exact coherent_storeClassAttr h hkeeps
  | deleteClassAttr classId name => exact coherent_deleteClassAttr h hkeeps
  | assignBases classId mro recomputed => exact coherent_assignBases h hknown hkeeps.versions_lt
  | builtinSetattr classId name value => exact coherent_builtinSetattr h hkeeps
  | builtinDelattr classId name => exact coherent_builtinDelattr h hkeeps
  | builtinSetBases classId mro recomputed => exact coherent_builtinSetBases h hknown hkeeps
  | createClass data => exact coherent_createClass h hknown
  | storeInstance instanceId data => exact coherent_withInstance h hknown
  | invalidateTypeCache classId => exact coherent_invalidateTypeCache h hkeeps.versions_lt
  | callFrame code => exact coherent_callFrame h code
  | returnFrame => exact coherent_returnFrame h

omit [DecidableEq V] in
/-- Another value of an attribute changes no order. -/
lemma orders_withClass_of_mro {data : AttrClass V} (hmro : data.mro = (vm.classes classId).mro) :
    (vm.withClass classId data).orders = vm.orders := by
  funext other
  by_cases hother : other = classId
  · subst hother
    exact (congrArg AttrClass.mro classes_withClass_self).trans hmro
  · exact congrArg AttrClass.mro (classes_withClass_of_ne hother)

omit [DecidableEq V] in
/-- Other bases change the orders as in Python, where the subclasses keep theirs. -/
lemma orders_withClass_bases {mro : List ℕ} {recomputed : ℕ → List ℕ}
    (hkeeps : vm.KeepsSubclasses classId recomputed)
    (huser : (vm.classes classId).userClass = true) :
    (vm.withClass classId { vm.classes classId with mro := mro }).orders =
      vm.ordersAfterBases vm.orders classId mro recomputed := by
  funext other
  rw [ordersAfterBases, if_pos huser]
  by_cases hother : other = classId
  · subst hother
    rw [if_pos rfl]
    exact congrArg AttrClass.mro classes_withClass_self
  · have hsame := congrArg AttrClass.mro
      (@classes_withClass_of_ne _ vm classId { vm.classes classId with mro := mro } _ hother)
    rw [if_neg hother]
    split_ifs with hmem
    · exact hsame.trans (hkeeps other hother hmem).symm
    · exact hsame

/-- The machine has the orders of Python. -/
lemma orders_perform {action : AttrAction V} (hkeeps : vm.KeepsLookups action) :
    (vm.perform action).orders = vm.pythonOrders vm.orders action := by
  cases action with
  | loadAttr site instanceId =>
    have hways : ∀ ways, (vm.withWays site ways).orders = vm.orders := by
      intro ways
      unfold withWays
      split <;> rfl
    change (vm.loadAttr site instanceId).2.orders = vm.orders
    unfold loadAttr
    split
    · rfl
    · split
      · rfl
      · dsimp only
        split
        · exact hways _
        · split
          · exact hways _
          · exact hways _
  | storeClassAttr classId name value =>
    change (vm.orElse (vm.storeClassAttr classId name value)).orders = vm.orders
    unfold AttrVm.storeClassAttr AttrVm.builtinSetattr
    dsimp only
    split_ifs
    · exact orders_withClass_of_mro rfl
    · rfl
  | deleteClassAttr classId name =>
    change (vm.orElse (vm.deleteClassAttr classId name)).orders = vm.orders
    unfold AttrVm.deleteClassAttr AttrVm.builtinDelattr
    dsimp only
    split_ifs
    · split
      · rfl
      · exact orders_withClass_of_mro rfl
    · rfl
  | assignBases classId mro recomputed =>
    have hsubclasses := hkeeps.subclasses classId mro recomputed (.inl rfl)
    change (vm.orElse (vm.assignBases classId mro)).orders =
      vm.ordersAfterBases vm.orders classId mro recomputed
    unfold AttrVm.assignBases AttrVm.builtinSetBases
    dsimp only
    split_ifs with huser
    · exact orders_withClass_bases hsubclasses huser
    · rw [ordersAfterBases, if_neg huser]
      rfl
  | builtinSetattr classId name value =>
    change (vm.orElse (vm.builtinSetattr classId name value)).orders = vm.orders
    unfold AttrVm.builtinSetattr
    dsimp only
    split_ifs
    · exact orders_withClass_of_mro rfl
    · rfl
  | builtinDelattr classId name =>
    change (vm.orElse (vm.builtinDelattr classId name)).orders = vm.orders
    unfold AttrVm.builtinDelattr
    dsimp only
    split_ifs
    · split
      · rfl
      · exact orders_withClass_of_mro rfl
    · rfl
  | builtinSetBases classId mro recomputed =>
    have hsubclasses := hkeeps.subclasses classId mro recomputed (.inr rfl)
    change (vm.orElse (vm.builtinSetBases classId mro)).orders =
      vm.ordersAfterBases vm.orders classId mro recomputed
    unfold AttrVm.builtinSetBases
    dsimp only
    split_ifs with huser
    · exact orders_withClass_bases hsubclasses huser
    · rw [ordersAfterBases, if_neg huser]
      rfl
  | createClass data =>
    funext classId
    change (Function.update vm.classes vm.nextClass data classId).mro =
      Function.update vm.orders vm.nextClass data.mro classId
    by_cases hclass : classId = vm.nextClass
    · rw [hclass, Function.update_self, Function.update_self]
    · rw [Function.update_of_ne hclass, Function.update_of_ne hclass]
      rfl
  | storeInstance instanceId data => rfl
  | invalidateTypeCache classId => rfl
  | callFrame code =>
    change (vm.callFrame code).orders = vm.orders
    unfold AttrVm.callFrame
    dsimp only
    split <;> rfl
  | returnFrame =>
    change vm.returnFrame.orders = vm.orders
    unfold AttrVm.returnFrame
    split <;> rfl

lemma Reaches.coherent {orders : ℕ → List ℕ} (h : Reaches KeepsLookups vm orders) :
    vm.Coherent ∧ orders = vm.orders := by
  induction h with
  | start h => exact ⟨h.coherent, rfl⟩
  | step _ hknown hkeeps ih =>
    obtain ⟨hcoherent, rfl⟩ := ih
    exact ⟨hcoherent.perform hknown hkeeps, (orders_perform hkeeps).symm⟩

/-- In a run that keeps the lookups of matching entries, every load gives what a load without the
cache gives over the orders of Python. -/
theorem loadAttr_eq_freshLoad {orders : ℕ → List ℕ} (h : Reaches KeepsLookups vm orders)
    (site instanceId : ℕ) :
    (vm.loadAttr site instanceId).1 = vm.freshLoad orders site instanceId := by
  obtain ⟨hcoherent, rfl⟩ := h.coherent
  exact (loadAttr_spec hcoherent site instanceId).1

/-! ## A class between the two -/

/-- `def get(c): return c.x` -/
def attrReaderCode : CodeObject :=
  { CodeObject.new "get" with
    instructions := [⟨.loadFast, some 0⟩, ⟨.loadAttr, some 2⟩, ⟨.returnValue, none⟩,
      ⟨.loadConst, some 0⟩, ⟨.returnValue, none⟩]
    names := ["c", "x"]
    params := ["c"] }

example :
    (compileFunctionDef {"c"} (.functionDef "get" [] false []
        [⟨"c", none, none⟩] none none [] none
        [.returnStmt (some (.attribute (.name "c") "x"))])).map
      (fun func => (func.instructions, func.names, func.params)) =
    some (attrReaderCode.instructions, attrReaderCode.names, attrReaderCode.params) := by
  decide +kernel

/-- `class A: x = 1`, `class B(A)` and `class C(B)`, with the instance `0` of `C`. -/
def chainClass : ℕ → AttrClass ℕ
  | 0 => ⟨"object", [0], fun name => if name = "__getattribute__" then some (.builtin 0) else none,
      false⟩
  | 1 => ⟨"A", [1, 0], fun name => if name = "x" then some (.plain 1) else none, true⟩
  | 2 => ⟨"B", [2, 1, 0], fun _ => none, true⟩
  | 3 => ⟨"C", [3, 2, 1, 0], fun _ => none, true⟩
  | _ => ⟨"", [], fun _ => none, true⟩

def chainVm : AttrVm ℕ where
  codes code := if code = 1 then attrReaderCode else CodeObject.new "<module>"
  objectGetattribute := 0
  classes := chainClass
  nextClass := 4
  classAttrVersions _ := 1
  instances _ := ⟨3, fun _ => none⟩
  frames := []
  framePool := []

lemma starts_chainVm : chainVm.Starts := by
  refine ⟨rfl, rfl, fun _ => (by decide : 3 < 4), fun classId hclass => ?_⟩
  change classId < 4 at hclass
  change ∀ entry ∈ (chainClass classId).mro, entry < 4
  rcases classId with _ | _ | _ | _ | classId
  case succ.succ.succ.succ => omega
  all_goals decide

/-- `get(c)`, up to its load, `A.y = 2`, and the load again. -/
theorem loadAttr_eq_freshLoad_twice :
    ((((chainVm.perform (.callFrame 1)).perform (.loadAttr 1 0)).perform
        (.storeClassAttr 1 "y" (.plain 2))).loadAttr 1 0).1 =
      (((chainVm.perform (.callFrame 1)).perform (.loadAttr 1 0)).perform
        (.storeClassAttr 1 "y" (.plain 2))).freshLoad chainVm.orders 1 0 := by
  have hversions : ∀ classId : ℕ, 1 < 2 ^ 64 - 1 := fun _ => by decide
  have hcall : Reaches KeepsLookups (chainVm.perform (.callFrame 1)) chainVm.orders :=
    .step (.start starts_chainVm) trivial
      ⟨hversions, by simp, by simp, by simp, by simp, by simp, by simp, by simp⟩
  have hload : Reaches KeepsLookups
      ((chainVm.perform (.callFrame 1)).perform (.loadAttr 1 0)) chainVm.orders :=
    .step hcall trivial
      ⟨hversions, by simp, by simp, by simp, by simp, by simp, by simp, by simp⟩
  have hstore : KeepsLookups ((chainVm.perform (.callFrame 1)).perform (.loadAttr 1 0))
      (.storeClassAttr 1 "y" (.plain 2)) := by
    refine ⟨hversions, by simp, fun classId name value h => ?_, by simp, by simp, by simp, by simp,
      by simp⟩
    -- The entry is of `x`, and the store of `y`.
    obtain ⟨rfl, rfl, rfl⟩ := AttrAction.storeClassAttr.inj h
    rintro cached ⟨frame, hframe, site, ways, hsite, hname, -⟩
    rw [show ((chainVm.perform (.callFrame 1)).perform (.loadAttr 1 0)).frames ++
      ((chainVm.perform (.callFrame 1)).perform (.loadAttr 1 0)).framePool = [_] from rfl,
      List.mem_singleton] at hframe
    subst hframe
    change attrReaderCode.attrName site = some "y" at hname
    unfold CodeObject.attrName at hname
    split at hname
    · have hmem := List.mem_of_getElem? hname
      simp [attrReaderCode] at hmem
    · cases hname
  have hknown : Known ((chainVm.perform (.callFrame 1)).perform (.loadAttr 1 0))
      (.storeClassAttr 1 "y" (.plain 2)) := trivial
  exact loadAttr_eq_freshLoad (.step hload hknown hstore) 1 0

/-- `get(c)`, `B.x = 2`, and `get(c)` again. -/
def staleAttrVm : AttrVm ℕ :=
  let vm := (chainVm.perform (.callFrame 0)).perform (.callFrame 1)
  let vm := (vm.perform (.loadAttr 1 0)).perform .returnFrame
  (vm.perform (.storeClassAttr 2 "x" (.plain 2))).perform (.callFrame 1)

lemma reaches_staleAttrVm : Reaches (fun _ _ => True) staleAttrVm chainVm.orders := by
  unfold staleAttrVm
  exact .step (.step (.step (.step (.step (.step (.start starts_chainVm) trivial trivial) trivial
    trivial) trivial trivial) trivial trivial) trivial trivial) trivial trivial

/-- The second call still finds the attribute of `A`. -/
theorem not_loadAttr_eq_freshLoad_stale :
    Reaches (fun _ _ => True) staleAttrVm chainVm.orders ∧
      (staleAttrVm.loadAttr 1 0).1 = some (.value 1) ∧
      staleAttrVm.freshLoad chainVm.orders 1 0 = some (.value 2) :=
  ⟨reaches_staleAttrVm, by decide, by decide⟩

end AttrVm

end Pyrs
