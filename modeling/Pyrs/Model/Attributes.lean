import Pyrs.Model.Globals

/-!
# Instance attributes and their site caches

`vm/vm_execution.rs`, `vm/vm_builtin_metadata.rs` and `vm/mod.rs`: the lookup of an attribute on an
ordinary instance with a method resolution order, the two-way cache of a `LoadAttr` site, and what
changes classes and instances.  Left out are the values that built-in base types, enumerations and
extension types give on their own, and the recycling of frames beyond one pool: all pools keep the
caches of a frame for the same code object only.
-/

namespace Pyrs

/-- The values of class attributes, as far as a load tells them apart. -/
inductive ClassAttr (V : Type)
  | function (function : V)
  | builtin (builtin : V)
  | classMethod (descriptor : V)
  | staticMethod (descriptor : V)
  /-- `is_load_attr_cacheable_plain_value`, without the builtins. -/
  | plain (value : V)
  /-- Any other object, with the descriptor hooks of its class. -/
  | other (value : V) (hasGetter isData : Bool)
  deriving DecidableEq

/-- What an entry remembers: a value, or where the lookup begins. -/
inductive LoadAttrSiteCacheKind (V : Type)
  | instanceValue (value : V)
  | instanceFunction (function : V)
  | instanceBuiltin (builtin : V)
  | instanceClassMethod (descriptor : V)
  | instanceStaticMethod (descriptor : V)
  deriving DecidableEq

/-- An entry of the inline cache of a `LoadAttr`. -/
structure LoadAttrSiteCacheEntry (V : Type) where
  classId : ℕ
  classVersion : ℕ
  ownerClass : ℕ
  ownerClassVersion : ℕ
  kind : LoadAttrSiteCacheKind V
  deriving DecidableEq

/-- What a load gives. -/
inductive AttrOutcome (V : Type)
  | value (value : V)
  | boundMethod (function : V) (instanceId : ℕ)
  | builtinBoundMethod (builtin : V) (instanceId : ℕ)
  | classBoundMethod (descriptor : V) (classId : ℕ)
  | unwrapped (descriptor : V)
  /-- The result of the descriptor's `__get__`. -/
  | descriptorGet (descriptor : V) (instanceId classId : ℕ)
  /-- The result of a `__getattribute__` that is not the one of `object`. -/
  | getattribute (instanceId : ℕ) (name : String)
  /-- The result of `__getattr__`, or an `AttributeError`. -/
  | fallback (instanceId : ℕ) (name : String)
  | classOf (classId : ℕ)
  | instanceDict (instanceId : ℕ)
  deriving DecidableEq

/-- A class object: its bases, its stored order and its attributes. -/
structure AttrClass (V : Type) where
  name : String
  mro : List ℕ
  attrs : String → Option (ClassAttr V)
  /-- `__pyrs_user_class__`; the flags of the other classes make them immutable. -/
  userClass : Bool

/-- An instance with its own attributes. -/
structure AttrInstance (V : Type) where
  classId : ℕ
  /-- The attributes, in `attrs` or in the instance dictionary. -/
  attrs : String → Option V

/-- The two ways of a site. -/
abbrev LoadAttrWays (V : Type) :=
  Option (LoadAttrSiteCacheEntry V) × Option (LoadAttrSiteCacheEntry V)

/-- A running frame with its site caches. -/
structure AttrFrame (V : Type) where
  code : ℕ
  loadAttrInlineCache : List (LoadAttrWays V)

/-- The classes, the instances and the frames that attribute access reads. -/
structure AttrVm (V : Type) where
  codes : ℕ → CodeObject
  /-- The `__getattribute__` of `object`. -/
  objectGetattribute : V
  classes : ℕ → AttrClass V
  /-- Classes get their ids in order. -/
  nextClass : ℕ
  classAttrVersions : ℕ → ℕ
  instances : ℕ → AttrInstance V
  frames : List (AttrFrame V)
  framePool : List (AttrFrame V)

/-- The name that the `LoadAttr` at an index loads. -/
def CodeObject.attrName (code : CodeObject) (site : ℕ) : Option String :=
  match code.instructions[site]? with
  | some ⟨.loadAttr, some raw⟩ => code.names[raw >>> 1]?
  | _ => none

variable {V : Type}

namespace AttrVm

variable (vm : AttrVm V)

/-! ## Lookup -/

/-- `class_attr_walk`: the order of the class, with the class named `object` last. -/
def classAttrWalk (classId : ℕ) : List ℕ :=
  let mro := (vm.classes classId).mro
  mro.filter (fun entry => (vm.classes entry).name ≠ "object") ++
    (mro.find? fun entry => (vm.classes entry).name = "object").toList

/-- `lookup_instance_class_attr_owner_and_value` -/
def lookupOwnerAndValue (classId : ℕ) (name : String) : Option (ℕ × ClassAttr V) :=
  (vm.classAttrWalk classId).findSome? fun owner =>
    ((vm.classes owner).attrs name).map fun attr => (owner, attr)

def classAttrLookup (classId : ℕ) (name : String) : Option (ClassAttr V) :=
  (vm.lookupOwnerAndValue classId name).map Prod.snd

/-- `class_uses_default_object_getattribute` -/
def UsesDefaultGetattribute (classId : ℕ) : Prop :=
  vm.classAttrLookup classId "__getattribute__" = some (.builtin vm.objectGetattribute)

instance [DecidableEq V] (classId : ℕ) : Decidable (vm.UsesDefaultGetattribute classId) :=
  inferInstanceAs (Decidable (_ = _))

def classAttrVersion (classId : ℕ) : ℕ :=
  vm.classAttrVersions classId

/-- `suppress_class_metadata` -/
def suppressesClassMetadata (name : String) : Bool :=
  name ∈ ["__name__", "__qualname__", "__base__", "__bases__", "__mro__", "__flags__"]

/-- `build_load_attr_instance_site_cache_entry` -/
def buildSiteCacheEntry (classId : ℕ) (name : String) (ownerClass : ℕ) (attr : ClassAttr V) :
    Option (LoadAttrSiteCacheEntry V) :=
  let kind : Option (LoadAttrSiteCacheKind V) :=
    match attr with
    | .function function => some (.instanceFunction function)
    | .builtin builtin =>
      if (vm.classes classId).userClass ∧ ((vm.classes classId).attrs name).isSome then none
      else some (.instanceBuiltin builtin)
    | .plain value => some (.instanceValue value)
    | .classMethod descriptor => some (.instanceClassMethod descriptor)
    | .staticMethod descriptor => some (.instanceStaticMethod descriptor)
    | .other .. => none
  kind.map fun kind => ⟨classId, vm.classAttrVersion classId, ownerClass,
    vm.classAttrVersion ownerClass, kind⟩

/-- The end of `load_attr_instance_default`, for an attribute that a class holds. -/
def loadClassAttr (instanceId classId : ℕ) (name : String) (owner : ℕ) (attr : ClassAttr V) :
    AttrOutcome V × Option (LoadAttrSiteCacheEntry V) :=
  let entry := vm.buildSiteCacheEntry classId name owner attr
  match attr with
  | .classMethod descriptor => (.classBoundMethod descriptor classId, entry)
  | .staticMethod descriptor => (.unwrapped descriptor, entry)
  | .function function => (.boundMethod function instanceId, entry)
  | .builtin builtin =>
    if (vm.classes owner).userClass then (.value builtin, none)
    else (.builtinBoundMethod builtin instanceId, entry)
  | .plain value => (.value value, entry)
  | .other value hasGetter _ =>
    if hasGetter then (.descriptorGet value instanceId classId, none) else (.value value, entry)

/-- `load_attr_instance_default` -/
def loadAttrInstanceDefault (instanceId : ℕ) (name : String) :
    AttrOutcome V × Option (LoadAttrSiteCacheEntry V) :=
  let data := vm.instances instanceId
  let classId := data.classId
  if name = "__class__" then (.classOf classId, none)
  else if name = "__dict__" then (.instanceDict instanceId, none)
  else
    let found :=
      if suppressesClassMetadata name then none else vm.lookupOwnerAndValue classId name
    match found with
    | some (_, .other value hasGetter true) =>
      if hasGetter then (.descriptorGet value instanceId classId, none) else (.value value, none)
    | _ =>
      match data.attrs name with
      | some value => (.value value, none)
      | none =>
        match found with
        | some (owner, attr) => vm.loadClassAttr instanceId classId name owner attr
        | none => (.fallback instanceId name, none)

/-- `load_attr_instance_with_site_cache` -/
def loadAttrInstanceWithSiteCache [DecidableEq V] (instanceId : ℕ) (name : String) :
    AttrOutcome V × Option (LoadAttrSiteCacheEntry V) :=
  let data := vm.instances instanceId
  if vm.UsesDefaultGetattribute data.classId then
    let (outcome, entry) := vm.loadAttrInstanceDefault instanceId name
    if vm.classAttrLookup data.classId "__getattr__" = none ∧ data.attrs name = none then
      (outcome, entry)
    else (outcome, none)
  else (.getattribute instanceId name, none)

/-! ## The site cache -/

/-- An entry may answer for a class: it is of this class, and the versions of the class and of the
owner are still the same. -/
def EntryMatches (classId : ℕ) (cached : LoadAttrSiteCacheEntry V) : Prop :=
  classId = cached.classId ∧ vm.classAttrVersion classId = cached.classVersion ∧
    (cached.ownerClass = classId ∨
      vm.classAttrVersion cached.ownerClass = cached.ownerClassVersion)

instance (classId : ℕ) (cached : LoadAttrSiteCacheEntry V) :
    Decidable (vm.EntryMatches classId cached) :=
  inferInstanceAs (Decidable (_ ∧ _))

/-- What a load gives by a cached entry. -/
def cachedOutcome (cached : LoadAttrSiteCacheEntry V) (instanceId : ℕ) :
    AttrOutcome V :=
  match cached.kind with
  | .instanceValue value => .value value
  | .instanceFunction function => .boundMethod function instanceId
  | .instanceBuiltin builtin => .builtinBoundMethod builtin instanceId
  | .instanceClassMethod descriptor => .classBoundMethod descriptor cached.classId
  | .instanceStaticMethod descriptor => .unwrapped descriptor

/-- An entry of the class whose versions are old is dropped. -/
def dropStale (classId : ℕ) (way : Option (LoadAttrSiteCacheEntry V)) :
    Option (LoadAttrSiteCacheEntry V) :=
  way.filter fun cached => classId ≠ cached.classId ∨ vm.EntryMatches classId cached

/-- `try_load_attr_instance_site_cache`: the outcome, and the ways without the stale entries that
were passed. -/
def tryLoadAttrInstanceSiteCache (ways : LoadAttrWays V) (instanceId : ℕ) (name : String) :
    Option (AttrOutcome V) × LoadAttrWays V :=
  let data := vm.instances instanceId
  if (data.attrs name).isSome then (none, ways)
  else
    match ways.1.filter fun cached => vm.EntryMatches data.classId cached with
    | some cached => (some (cachedOutcome cached instanceId), ways)
    | none =>
      let first := vm.dropStale data.classId ways.1
      match ways.2.filter fun cached => vm.EntryMatches data.classId cached with
      | some cached => (some (cachedOutcome cached instanceId), (first, ways.2))
      | none => (none, (first, vm.dropStale data.classId ways.2))

/-- Entries that replace each other. -/
def sameSlot (cached entry : LoadAttrSiteCacheEntry V) : Prop :=
  cached.classId = entry.classId ∧ cached.ownerClass = entry.ownerClass

instance (cached entry : LoadAttrSiteCacheEntry V) : Decidable (sameSlot cached entry) :=
  inferInstanceAs (Decidable (_ ∧ _))

/-- `insert_load_attr_instance_site_cache_entry` -/
def insertEntry (ways : LoadAttrWays V) (entry : LoadAttrSiteCacheEntry V) : LoadAttrWays V :=
  match ways.1 with
  | none => (some entry, ways.2)
  | some cached => if sameSlot cached entry then (some entry, ways.2) else (ways.1, some entry)

/-- The running frame with other ways at a site. -/
def withWays (site : ℕ) (ways : LoadAttrWays V) : AttrVm V :=
  match vm.frames with
  | [] => vm
  | frame :: frames =>
    { vm with
      frames := { frame with loadAttrInlineCache := frame.loadAttrInlineCache.set site ways } ::
        frames }

/-- `LoadAttr` of an instance. -/
def loadAttr [DecidableEq V] (site instanceId : ℕ) : Option (AttrOutcome V) × AttrVm V :=
  match vm.frames with
  | [] => (none, vm)
  | frame :: _ =>
    match (vm.codes frame.code).attrName site with
    | none => (none, vm)
    | some name =>
      let ways := (frame.loadAttrInlineCache[site]?).getD (none, none)
      match vm.tryLoadAttrInstanceSiteCache ways instanceId name with
      | (some outcome, ways) => (some outcome, vm.withWays site ways)
      | (none, ways) =>
        match vm.loadAttrInstanceWithSiteCache instanceId name with
        | (outcome, some entry) => (some outcome, vm.withWays site (insertEntry ways entry))
        | (outcome, none) => (some outcome, vm.withWays site (none, none))

/-! ## Changes -/

/-- `touch_class_attr_version` for every class in a set. -/
def touchClassAttrVersions (touched : ℕ → Bool) : AttrVm V :=
  { vm with
    classAttrVersions := fun classId =>
      if touched classId then touchVersion (vm.classAttrVersions classId)
      else vm.classAttrVersions classId }

/-- `touch_class_attr_version` of one class. -/
def touchClassAttrVersion (classId : ℕ) : AttrVm V :=
  vm.touchClassAttrVersions (· = classId)

/-- Another class object under an id. -/
def withClass (classId : ℕ) (data : AttrClass V) : AttrVm V :=
  { vm with classes := Function.update vm.classes classId data }

/-- `builtin_setattr` on a class. -/
def builtinSetattr (classId : ℕ) (name : String) (value : ClassAttr V) :
    Except String (AttrVm V) :=
  let data := vm.classes classId
  if data.userClass then
    .ok (vm.withClass classId { data with attrs := Function.update data.attrs name (some value) })
  else .error s!"cannot set attribute '{name}' of immutable type '{data.name}'"

/-- `builtin_delattr` on a class. -/
def builtinDelattr (classId : ℕ) (name : String) : Except String (AttrVm V) :=
  let data := vm.classes classId
  if data.userClass then
    match data.attrs name with
    | none => .error s!"class attribute '{name}' does not exist"
    | some _ =>
      .ok (vm.withClass classId { data with attrs := Function.update data.attrs name none })
  else .error s!"cannot set attribute '{name}' of immutable type '{data.name}'"

/-- `builtin_setattr` of `__bases__` on a class, with the order that it gives. -/
def builtinSetBases (classId : ℕ) (mro : List ℕ) : Except String (AttrVm V) :=
  let data := vm.classes classId
  if data.userClass then .ok (vm.withClass classId { data with mro := mro })
  else .error s!"cannot set attribute '__bases__' of immutable type '{data.name}'"

/-- `StoreAttr` on a class, and the function `setattr`. -/
def storeClassAttr (classId : ℕ) (name : String) (value : ClassAttr V) :
    Except String (AttrVm V) :=
  (vm.builtinSetattr classId name value).map fun vm => vm.touchClassAttrVersion classId

/-- `DeleteAttr` on a class, and the function `delattr`. -/
def deleteClassAttr (classId : ℕ) (name : String) : Except String (AttrVm V) :=
  (vm.builtinDelattr classId name).map fun vm => vm.touchClassAttrVersion classId

/-- `StoreAttr` of `__bases__` on a class. -/
def assignBases (classId : ℕ) (mro : List ℕ) : Except String (AttrVm V) :=
  (vm.builtinSetBases classId mro).map fun vm => vm.touchClassAttrVersion classId

/-- A class statement. -/
def createClass (data : AttrClass V) : AttrVm V :=
  { vm.withClass vm.nextClass data with nextClass := vm.nextClass + 1 }

/-- Another instance under an id. -/
def withInstance (instanceId : ℕ) (data : AttrInstance V) : AttrVm V :=
  { vm with instances := Function.update vm.instances instanceId data }

/-- The frame with empty site caches. -/
def clearFrame (frame : AttrFrame V) : AttrFrame V :=
  { frame with loadAttrInlineCache := frame.loadAttrInlineCache.map fun _ => (none, none) }

/-- `invalidate_type_cache_for_class_id`: the class and all classes with it in their order. -/
def invalidateTypeCache (classId : ℕ) : AttrVm V :=
  let vm := vm.touchClassAttrVersions fun other =>
    other = classId || (decide (other < vm.nextClass) && (vm.classes other).mro.contains classId)
  { vm with frames := vm.frames.map clearFrame }

/-- A call, in a frame of the pool when there is one. -/
def callFrame (code : ℕ) : AttrVm V :=
  let emptyCache := List.replicate (vm.codes code).instructions.length (none, none)
  match vm.framePool with
  | [] => { vm with frames := ⟨code, emptyCache⟩ :: vm.frames }
  | frame :: pool =>
    let cache := if frame.code = code then frame.loadAttrInlineCache else emptyCache
    { vm with frames := ⟨code, cache⟩ :: vm.frames, framePool := pool }

/-- The running frame returns. -/
def returnFrame : AttrVm V :=
  match vm.frames with
  | [] => vm
  | frame :: frames => { vm with frames := frames, framePool := frame :: vm.framePool }

end AttrVm

end Pyrs
