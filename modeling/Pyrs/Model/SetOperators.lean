import Pyrs.Model.Sets

/-!
# Set operators

The operators of sets and frozensets.  They read the values of both operands as vectors, which they
search with the equality of values, and make a set object of the outcome.
-/

namespace Pyrs

/-- What the operators use of values, besides the keys: their equality, and whether they may be
keys. -/
structure SetValues (α : Type) extends Keys α where
  valueEq : α → α → Bool
  isHashable : α → Bool

/-- An unhashable member, or a panic. -/
inductive SetFault (α : Type)
  | unhashable (value : α)
  | panic

/-- A set or a frozenset. -/
inductive SetOperand (α : Type)
  | set (object : SetObject α)
  | frozenSet (object : SetObject α)

namespace SetOperand

variable {α : Type}

/-- The set object of an operand. -/
def object : SetOperand α → SetObject α
  | .set object | .frozenSet object => object

/-- The members in their order. -/
def asSetValues (operand : SetOperand α) : List α := operand.object.values

/-- An operand of the kind of another one, as `alloc_set` and `alloc_frozenset` make it. -/
def alloc (kind : SetOperand α) (object : SetObject α) : SetOperand α :=
  match kind with
  | .set _ => .set object
  | .frozenSet _ => .frozenSet object

end SetOperand

namespace SetOperators

variable {α : Type} (ops : SetValues α)

/-- A panic where the set object fails. -/
def orPanic {β : Type} : Option β → Except (SetFault α) β
  | some value => .ok value
  | none => .error .panic

def dedupHashableValues (values : List α) : Except (SetFault α) (List α) := do
  let deduped ← values.foldlM (fun deduped value => do
    if ops.isHashable value then
      let (deduped, _) ← orPanic (SetObject.insert ops.toKeys deduped value)
      return deduped
    else throw (.unhashable value)) SetObject.empty
  return deduped.values

/-- A new set of the kind of the left operand. -/
def allocLike (left : SetOperand α) (values : List α) : Except (SetFault α) (SetOperand α) := do
  return left.alloc (← orPanic (SetObject.new ops.toKeys values))

/-- The members without repetitions, as a set of the kind of the left operand. -/
def setOpResult (left : SetOperand α) (values : List α) : Except (SetFault α) (SetOperand α) := do
  allocLike ops left (← dedupHashableValues ops values)

/-- `Vec::contains`: an item of the vector is equal to the value. -/
def vecContains (values : List α) (value : α) : Bool :=
  values.any fun item => ops.valueEq item value

/-- `-`. -/
def subValues (left right : SetOperand α) : Except (SetFault α) (SetOperand α) :=
  setOpResult ops left
    (left.asSetValues.filter fun value => !vecContains ops right.asSetValues value)

/-- `&`. -/
def andValues (left right : SetOperand α) : Except (SetFault α) (SetOperand α) :=
  setOpResult ops left (left.asSetValues.filter fun value => vecContains ops right.asSetValues value)

/-- `^`. -/
def xorValues (left right : SetOperand α) : Except (SetFault α) (SetOperand α) :=
  setOpResult ops left
    ((left.asSetValues.filter fun value => !vecContains ops right.asSetValues value) ++
      right.asSetValues.filter fun value => !vecContains ops left.asSetValues value)

/-- The loop of `or_values`. -/
def mergeValues : List α → List α → List α
  | merged, [] => merged
  | merged, value :: values =>
    if vecContains ops merged value then mergeValues merged values
    else mergeValues (merged ++ [value]) values

/-- `|`. -/
def orValues (left right : SetOperand α) : Except (SetFault α) (SetOperand α) :=
  allocLike ops left (mergeValues ops left.asSetValues right.asSetValues)

/-! ## Comparisons -/

def setIsSubset (left right : List α) : Bool :=
  left.all fun needle => vecContains ops right needle

/-- `<`. -/
def compareLt (left right : SetOperand α) : Bool :=
  let isSubset := setIsSubset ops left.asSetValues right.asSetValues
  let isEqual := left.asSetValues.length == right.asSetValues.length && isSubset
  isSubset && !isEqual

/-- `<=`. -/
def compareLe (left right : SetOperand α) : Bool :=
  setIsSubset ops left.asSetValues right.asSetValues

/-- `>`. -/
def compareGt (left right : SetOperand α) : Bool :=
  let isSuperset := setIsSubset ops right.asSetValues left.asSetValues
  let isEqual := left.asSetValues.length == right.asSetValues.length && isSuperset
  isSuperset && !isEqual

/-- `>=`. -/
def compareGe (left right : SetOperand α) : Bool :=
  setIsSubset ops right.asSetValues left.asSetValues

/-- The equality of set objects. -/
def objectEq (self other : SetObject α) : Option Bool :=
  if self.values.length ≠ other.values.length then some false
  else self.values.allM fun value => other.contains ops.toKeys value

/-- `==`. -/
def valuesEq (left right : SetOperand α) : Option Bool := objectEq ops left.object right.object

end SetOperators

end Pyrs
