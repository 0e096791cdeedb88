import Pyrs.Model.Dicts

/-!
# Dict objects

A `DictObject` is reached through two APIs.  The native one probes under the lookup hash of a key,
and looks through the entries where that fails; the runtime one probes under the hash that the
program computes, and looks through the entries only while `legacy_hash_fallback` stands.
-/

namespace Pyrs

/-- What the runtime API uses of the keys besides: `hash_value_runtime` (`none` where it raises),
`compare_eq_runtime`, and the equality of values. -/
structure RuntimeKeys (α : Type) extends Keys α where
  hashValueRuntime : α → Option UInt64
  compareEqRuntime : α → α → Bool
  eq : α → α → Bool

/-- A dict: its backend and the flags that the operations check. -/
structure DictObject (α β : Type) where
  backend : DictBackend α β
  readonly : Bool
  legacyHashFallback : Bool
deriving DecidableEq, Repr

/-- The result of a call: an error, the value that it found or removed, whether it found one, or
nothing. -/
inductive DictResult (β : Type)
  | error
  | value (found : Option β)
  | present (found : Bool)
  | stored
deriving DecidableEq, Repr

namespace DictObject

variable {α β : Type} (keys : RuntimeKeys α)

def new (entries : List (α × β)) : Option (DictObject α β) :=
  (DictBackend.new keys.toKeys entries).map fun backend =>
    { backend, readonly := false, legacyHashFallback := !entries.isEmpty }

/-- The entries in the order of their insertion. -/
def entries (self : DictObject α β) : List (α × β) := self.backend.entries

def len (self : DictObject α β) : ℕ := self.backend.len

def isEmpty (self : DictObject α β) : Bool := self.backend.entries.isEmpty

def find (self : DictObject α β) (key : α) : Option (Option β) :=
  self.backend.find keys.toKeys key

def findWithHash (self : DictObject α β) (key : α) (hash : UInt64) : Option (Option β) :=
  self.backend.findWithHash keys.toKeys key hash

def containsKeyWithHash (self : DictObject α β) (key : α) (hash : UInt64) : Option Bool :=
  self.backend.containsKeyWithHash keys.toKeys key hash

def candidateEntriesWithHash (self : DictObject α β) (hash : UInt64) :
    Option (List (ℕ × (α × β))) := do
  (← self.backend.candidateIndicesForHash keys.toKeys hash).mapM fun index =>
    self.backend.entries[index]?.map fun entry => (index, entry)

def insert (self : DictObject α β) (key : α) (value : β) : Option (DictObject α β) :=
  (self.backend.insert keys.toKeys key value).map fun backend =>
    { self with backend, legacyHashFallback := true }

def insertWithHash (self : DictObject α β) (key : α) (value : β) (hash : UInt64) :
    Option (DictObject α β) :=
  (self.backend.insertWithHash keys.toKeys key value hash).map fun backend => { self with backend }

def setValueAt (self : DictObject α β) (index : ℕ) (value : β) :
    Option (DictObject α β × Bool) :=
  if self.len ≤ index then some (self, false)
  else (self.backend.setValueAt index value).map fun backend => ({ self with backend }, true)

/-- An empty dict needs no fallback. -/
def resetFallback (self : DictObject α β) : DictObject α β :=
  if self.isEmpty then { self with legacyHashFallback := false } else self

def remove (self : DictObject α β) (index : ℕ) : Option (DictObject α β × (α × β)) :=
  (self.backend.remove keys.toKeys index).map fun result =>
    ({ self with backend := result.1 }.resetFallback, result.2)

def removeKeyWithHash (self : DictObject α β) (key : α) (hash : UInt64) :
    Option (DictObject α β × Option (α × β)) :=
  (self.backend.removeKeyWithHash keys.toKeys key hash).map fun result =>
    (if result.2.isSome then { self with backend := result.1 }.resetFallback
      else { self with backend := result.1 }, result.2)

/-- The equality of dicts: every entry of one is found, with an equal value, in the other. -/
def eqEntries (valueEq : β → β → Bool) (other : DictObject α β) : List (α × β) → Option Bool
  | [] => some true
  | (key, value) :: entries => do
    match ← other.find keys key with
    | some otherValue =>
      if valueEq otherValue value then eqEntries valueEq other entries else some false
    | none => some false

/-- `==` of two dicts. -/
def eq (valueEq : β → β → Bool) (self other : DictObject α β) : Option Bool :=
  if self.len ≠ other.len then some false else eqEntries keys valueEq other self.entries

/-! ## The native API -/

/-- The search of a key that has no hash. -/
def dictFindIndexLinear (self : DictObject α β) (key : α) : Option ℕ :=
  self.entries.findIdx? fun entry => keys.valueKeyEqual entry.1 key

def dictGetValue (self : DictObject α β) (key : α) : Option (Option β) := do
  let found ← (match keys.valueLookupHash key with
    | some hash => self.findWithHash keys key hash
    | none => some none : Option (Option β))
  match found with
  | some value => some (some value)
  | none =>
    some ((self.entries.find? fun entry => keys.valueKeyEqual entry.1 key).map Prod.snd)

def dictSetValue (self : DictObject α β) (key : α) (value : β) : Option (DictObject α β) :=
  self.insert keys key value

def dictRemoveValue (self : DictObject α β) (key : α) : Option (DictObject α β × Option β) := do
  let (self, removed) ← (match keys.valueLookupHash key with
    | some hash => self.removeKeyWithHash keys key hash
    | none => some (self, none) : Option (DictObject α β × Option (α × β)))
  match removed with
  | some (_, value) => some (self, some value)
  | none =>
    match self.dictFindIndexLinear keys key with
    | some index => do
      let (self, _, value) ← self.remove keys index
      some (self, some value)
    | none => some (self, none)

def dictContainsKeyChecked (self : DictObject α β) (key : α) : Option (DictResult β) :=
  match keys.valueLookupHash key with
  | none => some .error
  | some hash => do
    if ← self.containsKeyWithHash keys key hash then some (.present true)
    else some (.present (self.dictFindIndexLinear keys key).isSome)

/-! ## The runtime API -/

/-- The entry that `dict_lookup_entry_runtime` finds for a key with a hash. -/
def lookupRuntime (self : DictObject α β) (key : α) (hash : UInt64) :
    Option (Option (ℕ × (α × β))) := do
  let candidates ← self.candidateEntriesWithHash keys hash
  match candidates.find? fun candidate => keys.compareEqRuntime candidate.2.1 key with
  | some found => some (some found)
  | none =>
    if !self.legacyHashFallback then some none
    else
      let tested := candidates.map Prod.fst
      let untested := (self.entries.zipIdx.map Prod.swap).filter fun entry => entry.1 ∉ tested
      some (untested.find? fun entry => keys.compareEqRuntime entry.2.1 key)

def dictGetValueRuntime (self : DictObject α β) (key : α) : Option (DictResult β) :=
  match keys.hashValueRuntime key with
  | none => some .error
  | some hash =>
    (self.lookupRuntime keys key hash).map fun found => .value (found.map fun entry => entry.2.2)

def dictContainsKeyCheckedRuntime (self : DictObject α β) (key : α) : Option (DictResult β) :=
  match keys.hashValueRuntime key with
  | none => some .error
  | some hash => (self.lookupRuntime keys key hash).map fun found => .present found.isSome

def dictSetValueCheckedRuntime (self : DictObject α β) (key : α) (value : β) :
    Option (DictObject α β × DictResult β) :=
  match keys.hashValueRuntime key with
  | none => some (self, .error)
  | some hash =>
    if self.readonly then some (self, .error)
    else do
      let append := (self.insertWithHash keys key value hash).map fun after => (after, .stored)
      match ← self.lookupRuntime keys key hash with
      | none => append
      | some (index, matched, _) =>
        match self.entries[index]? with
        | some (stored, _) =>
          if keys.eq stored matched then do
            let (after, _) ← self.setValueAt index value
            some (after, .stored)
          else append
        | none => append

def dictRemoveValueRuntime (self : DictObject α β) (key : α) :
    Option (DictObject α β × DictResult β) :=
  match keys.hashValueRuntime key with
  | none => some (self, .error)
  | some hash => do
    match ← self.lookupRuntime keys key hash with
    | none => some (self, .value none)
    | some (index, matched, _) =>
      match self.entries[index]? with
      | none => some (self, .value none)
      | some (stored, _) =>
        if keys.eq stored matched then do
          let (after, _, value) ← self.remove keys index
          some (after, .value (some value))
        else some (self, .value none)

end DictObject

/-- The calls on one dict, through either API. -/
inductive DictCall (α β : Type)
  | getValue (key : α)
  | setValue (key : α) (value : β)
  | removeValue (key : α)
  | containsKeyChecked (key : α)
  | getValueRuntime (key : α)
  | containsKeyCheckedRuntime (key : α)
  | setValueCheckedRuntime (key : α) (value : β)
  | removeValueRuntime (key : α)

/-- The function of the API that a call names. -/
def DictCall.apply {α β : Type} (keys : RuntimeKeys α) (self : DictObject α β) :
    DictCall α β → Option (DictObject α β × DictResult β)
  | .getValue key => (self.dictGetValue keys key).map fun found => (self, .value found)
  | .setValue key value => (self.dictSetValue keys key value).map fun after => (after, .stored)
  | .removeValue key =>
    (self.dictRemoveValue keys key).map fun result => (result.1, .value result.2)
  | .containsKeyChecked key => (self.dictContainsKeyChecked keys key).map fun result => (self, result)
  | .getValueRuntime key => (self.dictGetValueRuntime keys key).map fun result => (self, result)
  | .containsKeyCheckedRuntime key =>
    (self.dictContainsKeyCheckedRuntime keys key).map fun result => (self, result)
  | .setValueCheckedRuntime key value => self.dictSetValueCheckedRuntime keys key value
  | .removeValueRuntime key => self.dictRemoveValueRuntime keys key

end Pyrs
