import Pyrs.Model.Sets

/-!
# The dict backend

A `DictBackend` keeps the entries in insertion order, beside each its hash and its slot, and a table
of slots that is probed by hash.  Entries without a hash have no slot (`NO_SLOT` is `none`).  An
operation that would panic (an index out of bounds) is `none`.

Positions are natural numbers: the mask of a probe absorbs the wrap of the addition before it,
because the length of the table divides `2 ^ 64`.
-/

namespace Pyrs

def perturbShift : ℕ := 5

def minTableSize : ℕ := 8

def loadNumerator : ℕ := 2

def loadDenominator : ℕ := 3

/-- The rounds until nothing of the hash is left. -/
def maxPerturbRounds : ℕ := 64 / perturbShift + 2

/-- A slot of the table. -/
inductive DictSlot
  | empty
  | dummy
  | occupied (hash : UInt64) (entry : ℕ)
deriving DecidableEq, Repr

/-- What a search in the table finds. -/
inductive SlotLookup
  | found (entry : ℕ)
  | vacant (slot : ℕ)
deriving DecidableEq, Repr

/-- The entries in their order, and the table of their hashes. -/
structure DictBackend (α β : Type) where
  entries : List (α × β)
  entryHashes : List (Option UInt64)
  entrySlots : List (Option ℕ)
  slots : List DictSlot
  used : ℕ
  filled : ℕ
deriving DecidableEq, Repr

/-- The loop of `next_power_of_two`. -/
def doubleUntil (value : ℕ) : ℕ → ℕ → ℕ
  | 0, power => power
  | fuel + 1, power => if value ≤ power then power else doubleUntil value fuel (2 * power)

/-- The least power of two that is no less; `value` doublings reach it. -/
def nextPowerOfTwo (value : ℕ) : ℕ := doubleUntil value value 1

/-- An assignment to an element of a vector. -/
def assign {γ : Type} (values : List γ) (index : ℕ) (value : γ) : Option (List γ) :=
  if index < values.length then some (values.set index value) else none

namespace DictBackend

variable {α β : Type} (keys : Keys α)

/-- No entries and no table. -/
def empty : DictBackend α β := ⟨[], [], [], [], 0, 0⟩

def clear (_ : DictBackend α β) : DictBackend α β := empty

def len (self : DictBackend α β) : ℕ := self.entries.length

/-! ## Probing -/

/-- The bits of a hash that give its slot. -/
def mask (self : DictBackend α β) : ℕ := self.slots.length - 1

/-- More rounds than a search takes. -/
def rounds (self : DictBackend α β) : ℕ := self.slots.length + maxPerturbRounds

/-- The next slot of a search. -/
def nextSlot (self : DictBackend α β) (slot perturb : ℕ) : ℕ := (slot * 5 + perturb + 1) &&& self.mask

/-- The rounds of `lookup_vacant_slot`. -/
def vacantFrom (self : DictBackend α β) : ℕ → ℕ → ℕ → Option ℕ → Option ℕ
  | 0, slot, _, firstDummy => some (firstDummy.getD slot)
  | rounds + 1, slot, perturb, firstDummy => do
    match ← self.slots[slot]? with
    | .empty => some (firstDummy.getD slot)
    | .dummy =>
      self.vacantFrom rounds (self.nextSlot slot perturb) (perturb >>> perturbShift)
        (firstDummy.or (some slot))
    | .occupied _ _ =>
      self.vacantFrom rounds (self.nextSlot slot perturb) (perturb >>> perturbShift) firstDummy

def lookupVacantSlot (self : DictBackend α β) (hash : UInt64) : Option ℕ :=
  self.vacantFrom self.rounds (hash.toNat &&& self.mask) hash.toNat none

/-- The rounds of `lookup_slot`. -/
def slotFrom (self : DictBackend α β) (key : α) (hash : UInt64) :
    ℕ → ℕ → ℕ → Option ℕ → Option SlotLookup
  | 0, slot, _, firstDummy => some (.vacant (firstDummy.getD slot))
  | rounds + 1, slot, perturb, firstDummy => do
    match ← self.slots[slot]? with
    | .empty => some (.vacant (firstDummy.getD slot))
    | .dummy =>
      self.slotFrom key hash rounds (self.nextSlot slot perturb) (perturb >>> perturbShift)
        (firstDummy.or (some slot))
    | .occupied slotHash entry =>
      if slotHash = hash then
        let (stored, _) ← self.entries[entry]?
        if keys.valueKeyEqual stored key then some (.found entry)
        else
          self.slotFrom key hash rounds (self.nextSlot slot perturb) (perturb >>> perturbShift)
            firstDummy
      else
        self.slotFrom key hash rounds (self.nextSlot slot perturb) (perturb >>> perturbShift)
          firstDummy

def lookupSlot (self : DictBackend α β) (key : α) (hash : UInt64) : Option SlotLookup :=
  self.slotFrom keys key hash self.rounds (hash.toNat &&& self.mask) hash.toNat none

/-- The rounds of `candidate_indices_for_hash`. -/
def candidatesFrom (self : DictBackend α β) (hash : UInt64) :
    ℕ → ℕ → ℕ → List ℕ → Option (List ℕ)
  | 0, _, _, candidates => some candidates
  | rounds + 1, slot, perturb, candidates => do
    match ← self.slots[slot]? with
    | .empty => some candidates
    | .dummy =>
      self.candidatesFrom hash rounds (self.nextSlot slot perturb) (perturb >>> perturbShift)
        candidates
    | .occupied slotHash entry =>
      self.candidatesFrom hash rounds (self.nextSlot slot perturb) (perturb >>> perturbShift)
        (if slotHash = hash then candidates ++ [entry] else candidates)

def candidateIndicesForHash (self : DictBackend α β) (hash : UInt64) : Option (List ℕ) :=
  if self.entries.isEmpty then some []
  else if self.slots.isEmpty then
    some ((self.entries.zipIdx.filter fun entry =>
      keys.valueLookupHash entry.1.1 = some hash).map Prod.snd)
  else self.candidatesFrom hash self.rounds (hash.toNat &&& self.mask) hash.toNat []

/-! ## Resizing -/

/-- One turn of the loop of `resize_slots`. -/
def placeEntry (self : DictBackend α β) (entry : ℕ) : Option (DictBackend α β) := do
  let (hash, self) ← (do
    match (self.entryHashes[entry]?).join with
    | some hash => some (some hash, self)
    | none =>
      let (key, _) ← self.entries[entry]?
      let hash := keys.valueLookupHash key
      let entryHashes ← assign self.entryHashes entry hash
      some (hash, { self with entryHashes }) : Option (Option UInt64 × DictBackend α β))
  match hash with
  | some hash => do
    let slot ← self.lookupVacantSlot hash
    let slots ← assign self.slots slot (.occupied hash entry)
    let entrySlots ← assign self.entrySlots entry (some slot)
    some { self with slots, entrySlots, filled := self.filled + 1 }
  | none => some self

/-- `resize_slots`: a new table for all entries with a hash. -/
def resizeSlots (self : DictBackend α β) (target : ℕ) : Option (DictBackend α β) :=
  let size := nextPowerOfTwo (max target minTableSize)
  (List.range self.entries.length).foldlM (placeEntry keys)
    { self with
      slots := List.replicate size .empty
      entrySlots := List.replicate self.entries.length none
      filled := 0
      used := self.entries.length }

def rebuildSlots (self : DictBackend α β) : Option (DictBackend α β) :=
  if self.entries.isEmpty then some self.clear
  else self.resizeSlots keys (max self.entries.length minTableSize)

def maybeResizeAfterRemove (self : DictBackend α β) : Option (DictBackend α β) :=
  if self.entries.isEmpty then some self.clear
  else if self.used < self.filled - self.used then
    self.resizeSlots keys (max self.slots.length minTableSize)
  else if self.slots.length ≤ minTableSize then some self
  else if self.used * 8 ≤ self.slots.length then self.resizeSlots keys (self.slots.length / 2)
  else some self

/-! ## Lookup -/

/-- The linear search for a key. -/
def positionOf (self : DictBackend α β) (key : α) : Option ℕ :=
  self.entries.findIdx? fun entry => keys.valueKeyEqual entry.1 key

def findIndexWithHash (self : DictBackend α β) (key : α) (hash : UInt64) : Option (Option ℕ) :=
  if !self.slots.isEmpty then do
    match ← self.lookupSlot keys key hash with
    | .found entry => some (some entry)
    | .vacant _ => some none
  else some (self.positionOf keys key)

def findIndex (self : DictBackend α β) (key : α) : Option (Option ℕ) :=
  match keys.valueLookupHash key with
  | some hash => self.findIndexWithHash keys key hash
  | none => some (self.positionOf keys key)

/-- The value of the entry at a position that a lookup found. -/
def valueAt (self : DictBackend α β) : Option ℕ → Option (Option β)
  | some index => (self.entries[index]?).map fun entry => some entry.2
  | none => some none

def find (self : DictBackend α β) (key : α) : Option (Option β) :=
  self.findIndex keys key >>= self.valueAt

def findWithHash (self : DictBackend α β) (key : α) (hash : UInt64) : Option (Option β) :=
  self.findIndexWithHash keys key hash >>= self.valueAt

def containsKey (self : DictBackend α β) (key : α) : Option Bool :=
  (self.findIndex keys key).map Option.isSome

def containsKeyWithHash (self : DictBackend α β) (key : α) (hash : UInt64) : Option Bool :=
  (self.findIndexWithHash keys key hash).map Option.isSome

/-! ## Stores -/

def setValueAt (self : DictBackend α β) (index : ℕ) (value : β) : Option (DictBackend α β) := do
  let (key, _) ← self.entries[index]?
  some { self with entries := self.entries.set index (key, value) }

/-- The entry that `insert_with_hash` appends, in a slot that is empty or a dummy. -/
def pushEntry (self : DictBackend α β) (key : α) (value : β) (hash : UInt64) (slot : ℕ) :
    Option (DictBackend α β) := do
  let entry := self.entries.length
  let old ← self.slots[slot]?
  let slots ← assign self.slots slot (.occupied hash entry)
  some
    { entries := self.entries ++ [(key, value)]
      entryHashes := self.entryHashes ++ [some hash]
      entrySlots := self.entrySlots ++ [some slot]
      slots
      used := self.used + 1
      filled := if old = .empty then self.filled + 1 else self.filled }

def insertWithHash (self : DictBackend α β) (key : α) (value : β) (hash : UInt64) :
    Option (DictBackend α β) := do
  let self ← if self.slots.isEmpty then self.resizeSlots keys minTableSize else some self
  match ← self.lookupSlot keys key hash with
  | .found entry => do
    let self ← self.setValueAt entry value
    let entryHashes ← assign self.entryHashes entry (some hash)
    some { self with entryHashes }
  | .vacant slot => do
    let usableSlots := self.slots.length * loadNumerator / loadDenominator
    if usableSlots < self.filled + 1 then do
      let self ← self.resizeSlots keys (self.slots.length * 2)
      let slot ← self.lookupVacantSlot hash
      self.pushEntry key value hash slot
    else self.pushEntry key value hash slot

/-- `insert`; a key without a hash is searched for among all entries. -/
def insert (self : DictBackend α β) (key : α) (value : β) : Option (DictBackend α β) :=
  match keys.valueLookupHash key with
  | none => do
    match ← self.findIndex keys key with
    | some index => self.setValueAt index value
    | none =>
      some
        { self with
          entries := self.entries ++ [(key, value)]
          entryHashes := self.entryHashes ++ [none]
          entrySlots := self.entrySlots ++ [none]
          used := self.entries.length + 1 }
  | some hash => self.insertWithHash keys key value hash

/-- `new`: the entries one after the other. -/
def new (initialEntries : List (α × β)) : Option (DictBackend α β) :=
  initialEntries.foldlM (fun self entry => self.insert keys entry.1 entry.2) empty

/-! ## Removals -/

def removeSlotForEntry (self : DictBackend α β) (expectedEntry slotIndex : ℕ) :
    DictBackend α β :=
  match self.slots[slotIndex]? with
  | some (.occupied _ entry) =>
    if entry = expectedEntry then { self with slots := self.slots.set slotIndex .dummy } else self
  | _ => self

/-- One turn of the loop of `adjust_slot_indices_after_remove`. -/
def adjustSlot (removedIndex : ℕ) (slots : List DictSlot) : Option ℕ → List DictSlot
  | none => slots
  | some slotIndex =>
    match slots[slotIndex]? with
    | some (.occupied hash entry) =>
      if removedIndex < entry then slots.set slotIndex (.occupied hash (entry - 1)) else slots
    | _ => slots

def adjustSlotIndicesAfterRemove (self : DictBackend α β) (removedIndex : ℕ) :
    DictBackend α β :=
  { self with slots := (self.entrySlots.drop removedIndex).foldl (adjustSlot removedIndex) self.slots }

/-- The vectors without an entry; where it had no slot, the slots stay as they are. -/
def eraseEntry (self : DictBackend α β) (index : ℕ) (removedSlot : Option ℕ) : DictBackend α β :=
  let self :=
    match removedSlot with
    | some slot => self.removeSlotForEntry index slot
    | none => self
  let self :=
    { self with
      entries := self.entries.eraseIdx index
      entryHashes := self.entryHashes.eraseIdx index
      entrySlots := self.entrySlots.eraseIdx index }
  let self := if removedSlot.isSome then self.adjustSlotIndicesAfterRemove index else self
  { self with used := self.entries.length }

def remove (self : DictBackend α β) (index : ℕ) : Option (DictBackend α β × (α × β)) := do
  let removedSlot ← self.entrySlots[index]?
  let removed ← self.entries[index]?
  let _ ← self.entryHashes[index]?
  let self ← (self.eraseEntry index removedSlot).maybeResizeAfterRemove keys
  some (self, removed)

/-- The removal of an entry that a lookup found. -/
def removeFound (self : DictBackend α β) : Option ℕ → Option (DictBackend α β × Option (α × β))
  | some index => do
    let (self, removed) ← self.remove keys index
    some (self, some removed)
  | none => some (self, none)

def removeKey (self : DictBackend α β) (key : α) : Option (DictBackend α β × Option (α × β)) :=
  self.findIndex keys key >>= self.removeFound keys

def removeKeyWithHash (self : DictBackend α β) (key : α) (hash : UInt64) :
    Option (DictBackend α β × Option (α × β)) :=
  self.findIndexWithHash keys key hash >>= self.removeFound keys

/-- The predicate is asked once for each entry, in order; it may keep count. -/
def retain (self : DictBackend α β) (keep : ℕ → α × β → Bool) : Option (DictBackend α β) :=
  let kept := ((self.entries.zip self.entryHashes).zipIdx.filter
    fun pair => keep pair.2 pair.1.1).map Prod.fst
  rebuildSlots keys
    { self with entries := kept.map Prod.fst, entryHashes := kept.map Prod.snd }

end DictBackend

end Pyrs
