import Mathlib.Data.UInt

/-!
# Set objects

A `SetObject` keeps its values in a vector, and for each lookup hash a bucket of the positions of
the values with that hash.  Values without a lookup hash are in the vector only.  An operation that
would panic (an index out of bounds) is `none`.
-/

namespace Pyrs

/-- What the containers use of their keys: `value_key_equal` and `value_lookup_hash`. -/
structure Keys (α : Type) where
  valueKeyEqual : α → α → Bool
  valueLookupHash : α → Option UInt64

/-! ## Buckets -/

/-- The positions of the members with one hash. -/
inductive IndexBucket
  | one (index : ℕ)
  | many (indices : List ℕ)
deriving DecidableEq, Repr

namespace IndexBucket

def new (index : ℕ) : IndexBucket := .one index

def push (index : ℕ) : IndexBucket → IndexBucket
  | .one existing => .many [existing, index]
  | .many indices => .many (indices ++ [index])

/-- The first of the positions at which the predicate holds; the predicate may panic. -/
def findIn (predicate : ℕ → Option Bool) : List ℕ → Option (Option ℕ)
  | [] => some none
  | index :: indices => do
    if ← predicate index then some (some index) else findIn predicate indices

def findIndexWith (predicate : ℕ → Option Bool) : IndexBucket → Option (Option ℕ)
  | .one index => do
    if ← predicate index then some (some index) else some none
  | .many indices => findIn predicate indices

/-- `Vec::swap_remove`: the last element takes the place of the removed one. -/
def swapRemove {α : Type} (values : List α) (index : ℕ) : Option (α × List α) :=
  match values[index]?, values.getLast? with
  | some removed, some last => some (removed, (values.set index last).dropLast)
  | _, _ => none

def removeIndex (index : ℕ) : IndexBucket → IndexBucket
  | .one existing => if existing = index then .many [] else .one existing
  | .many indices =>
    match indices.findIdx? (· = index) with
    | some position =>
      match swapRemove indices position with
      | some (_, rest) => .many rest
      | none => .many indices
    | none => .many indices

def replaceIndex (oldIndex newIndex : ℕ) : IndexBucket → IndexBucket
  | .one index => if index = oldIndex then .one newIndex else .one index
  | .many indices =>
    match indices.findIdx? (· = oldIndex) with
    | some position => .many (indices.set position newIndex)
    | none => .many indices

def normalize : IndexBucket → IndexBucket
  | .many [index] => .one index
  | bucket => bucket

def isEmpty : IndexBucket → Bool
  | .many indices => indices.isEmpty
  | .one _ => false

end IndexBucket

/-! ## The set -/

/-- The members in their order, with an index by hashes. -/
structure SetObject (α : Type) where
  values : List α
  index : UInt64 → Option IndexBucket

namespace SetObject

variable {α : Type} (keys : Keys α)

/-- No members. -/
def empty : SetObject α := ⟨[], fun _ => none⟩

def clear (_ : SetObject α) : SetObject α := empty

/-- Another bucket under a hash. -/
def setBucket (self : SetObject α) (hash : UInt64) (bucket : Option IndexBucket) : SetObject α :=
  { self with index := Function.update self.index hash bucket }

/-- Whether the value at a position is equal to a value. -/
def equalAt (self : SetObject α) (value : α) (index : ℕ) : Option Bool := do
  let item ← self.values[index]?
  some (keys.valueKeyEqual item value)

def contains (self : SetObject α) (value : α) : Option Bool :=
  match keys.valueLookupHash value with
  | some hash =>
    match self.index hash with
    | some bucket => do
      let found ← bucket.findIndexWith (self.equalAt keys value)
      some found.isSome
    | none => some false
  | none => some (self.values.any fun item => keys.valueKeyEqual item value)

def findIndex (self : SetObject α) (value : α) : Option (Option ℕ) :=
  match (keys.valueLookupHash value).bind self.index with
  | some bucket => bucket.findIndexWith (self.equalAt keys value)
  | none => some (self.values.findIdx? fun item => keys.valueKeyEqual item value)

/-- One more position in the bucket of its hash, as `insert` and `rebuild_index` do it. -/
def indexValue (index : UInt64 → Option IndexBucket) (value : α) (position : ℕ) :
    UInt64 → Option IndexBucket :=
  match keys.valueLookupHash value with
  | some hash =>
    match index hash with
    | some bucket => Function.update index hash (some (bucket.push position))
    | none => Function.update index hash (some (.new position))
  | none => index

/-- `insert`, and whether the value is a new one. -/
def insert (self : SetObject α) (value : α) : Option (SetObject α × Bool) := do
  match ← self.findIndex keys value with
  | some _ => some (self, false)
  | none =>
    some (⟨self.values ++ [value], indexValue keys self.index value self.values.length⟩, true)

def new (values : List α) : Option (SetObject α) :=
  values.foldlM (fun self value => do
    let (self, _) ← self.insert keys value
    some self) empty

/-- A position is taken from the bucket of its hash. -/
def removeHashIndex (self : SetObject α) (hash : UInt64) (entryIndex : ℕ) : SetObject α :=
  match self.index hash with
  | some bucket =>
    let bucket := (bucket.removeIndex entryIndex).normalize
    if bucket.isEmpty then self.setBucket hash none else self.setBucket hash (some bucket)
  | none => self

/-- The bucket of the value that was moved into the hole. -/
def replaceMoved (self : SetObject α) (lastIndex index : ℕ) : SetObject α :=
  match self.values[index]?.bind keys.valueLookupHash with
  | some movedHash =>
    match self.index movedHash with
    | some bucket => self.setBucket movedHash (some (bucket.replaceIndex lastIndex index))
    | none => self
  | none => self

/-- `remove`: the last member takes the place of the removed one. -/
def remove (self : SetObject α) (index : ℕ) : Option (SetObject α × α) := do
  let lastIndex := self.values.length - 1
  let (removed, values) ← IndexBucket.swapRemove self.values index
  let self : SetObject α := { self with values }
  let self :=
    match keys.valueLookupHash removed with
    | some hash => self.removeHashIndex hash index
    | none => self
  let self := if index < self.values.length then self.replaceMoved keys lastIndex index else self
  some (self, removed)

/-- The buckets of the values, which start at a position. -/
def rebuildIndex (index : UInt64 → Option IndexBucket) (position : ℕ) :
    List α → UInt64 → Option IndexBucket
  | [] => index
  | value :: values => rebuildIndex (indexValue keys index value position) (position + 1) values

/-- The predicate is asked once for each value, in order; it may keep count. -/
def retain (self : SetObject α) (keep : ℕ → α → Bool) : SetObject α :=
  let values := (self.values.zipIdx.filter fun pair => keep pair.2 pair.1).map Prod.fst
  ⟨values, rebuildIndex keys (fun _ => none) 0 values⟩

def removeValue (self : SetObject α) (value : α) : Option (SetObject α × Bool) := do
  match ← self.findIndex keys value with
  | none => some (self, false)
  | some index => do
    let (self, _) ← self.remove keys index
    some (self, true)

end SetObject

/-! ## Operations -/

/-- The operations of a run. -/
inductive SetOp (α : Type)
  | insert (value : α)
  | removeValue (value : α)
  | remove (index : ℕ)
  | retain (keep : ℕ → α → Bool)
  | clear

/-- The set after an operation, and the operation's answer where it has one. -/
def SetOp.apply {α : Type} (keys : Keys α) (self : SetObject α) :
    SetOp α → Option (SetObject α × Option Bool)
  | .insert value => (self.insert keys value).map fun (self, changed) => (self, some changed)
  | .removeValue value =>
    (self.removeValue keys value).map fun (self, changed) => (self, some changed)
  | .remove index => (self.remove keys index).map fun (self, _) => (self, none)
  | .retain keep => some (self.retain keys keep, none)
  | .clear => some (self.clear, none)

end Pyrs
