import Pyrs.Library.Binary64Arithmetic
import Pyrs.Model.MathRounding

/-!
# Weighted choices

The Mersenne twister of `vm/mod.rs` and `random.choices` of `vm/builtins_numeric_time.rs`.  Of the
iterables there are lists and strings; the conversion of a string to a float is left to a parameter.
The rounds of the rejection loop are counted.
-/

namespace Pyrs

/-! ## The generator -/

/-- The number of words. -/
def mtN : ℕ := 624

/-- The distance of the words that are mixed. -/
def mtM : ℕ := 397

/-- `MT_MATRIX_A`. -/
def mtMatrixA : UInt32 := 0x9908B0DF

/-- `MT_UPPER_MASK`. -/
def mtUpperMask : UInt32 := 0x80000000

/-- `MT_LOWER_MASK`. -/
def mtLowerMask : UInt32 := 0x7FFFFFFF

/-- The words and the position among them. -/
structure Mt19937 where
  mt : Vector UInt32 mtN
  index : ℕ

namespace Mt19937

/-- The word of the state at an index below `mtN`. -/
def word (mt : Vector UInt32 mtN) (idx : ℕ) : UInt32 := mt[idx]?.getD 0

/-- One word of `twist`. -/
def twistWord (mt : Vector UInt32 mtN) (idx : ℕ) : Vector UInt32 mtN :=
  let x := (word mt idx &&& mtUpperMask) ||| (word mt ((idx + 1) % mtN) &&& mtLowerMask)
  let shifted := x >>> 1
  let next := if x &&& 1 ≠ 0 then shifted ^^^ mtMatrixA else shifted
  mt.setIfInBounds idx (word mt ((idx + mtM) % mtN) ^^^ next)

def twist (random : Mt19937) : Mt19937 := ⟨(List.range mtN).foldl twistWord random.mt, 0⟩

/-- The shifts and masks of a word that is given out. -/
def temper (value : UInt32) : UInt32 :=
  let value := value ^^^ (value >>> 11)
  let value := value ^^^ ((value <<< 7) &&& 0x9D2C5680)
  let value := value ^^^ ((value <<< 15) &&& 0xEFC60000)
  value ^^^ (value >>> 18)

def nextU32 (random : Mt19937) : UInt32 × Mt19937 :=
  let random := if mtN ≤ random.index then random.twist else random
  (temper (word random.mt random.index), { random with index := random.index + 1 })

/-- The fifty-three bits of a random number.  No step overflows a `u64`. -/
def randomBits (random : Mt19937) : ℕ × Mt19937 :=
  let (top, random) := random.nextU32
  let (bottom, random) := random.nextU32
  ((top >>> 5).toNat <<< 26 ||| (bottom >>> 6).toNat, random)

/-- The divisor is `2 ^ 53`. -/
def randomF64 (random : Mt19937) : Binary64 × Mt19937 :=
  let (bits, random) := random.randomBits
  ((Binary64.ofNat false bits).divTwoPow 53, random)

end Mt19937

/-! ## Arguments -/

/-- The values of populations and weights. -/
inductive RandomValue
  | none
  | number (value : NumericOperand)
  | str (text : List Char)
  | list (items : List RandomValue)
  | randomInstance

/-- The exceptions of `choices`. -/
inductive ChoicesError
  | typeError (message : String)
  | valueError (message : String)
  | indexError (message : String)
  | overflowError (message : String)
  | new (message : String)
  | panicked
  deriving DecidableEq

/-- A result or an exception. -/
abbrev ChoicesResult := Except ChoicesError

/-- The methods of a generator object are called with the object. -/
def stripRandomSelfArg : List RandomValue → List RandomValue
  | .randomInstance :: args => args
  | args => args

/-- The items of a list, or the error. -/
def collectIterableValues : RandomValue → ChoicesResult (List RandomValue)
  | .list items => .ok items
  | .str text => .ok (text.map fun ch => .str [ch])
  | _ => .error (.typeError "expected iterable")

/-- `value_to_int` of the number of choices. -/
def choicesValueToInt : RandomValue → ChoicesResult Int64
  | .number (.int (.int value)) => .ok value
  | .number (.int (.bool value)) => .ok (if value then 1 else 0)
  | .number (.int (.bigInt value _)) =>
    match value.toI64 with
    | some value => .ok value
    | Option.none => .error (.overflowError "integer overflow")
  | _ => .error (.typeError "unsupported operand type")

/-- `value_to_f64` of a weight. -/
def choicesValueToF64 (parseF64 : List Char → Option Binary64) : RandomValue → ChoicesResult Binary64
  | .number value => .ok (valueToF64 value)
  | .str text =>
    match parseF64 text with
    | some value => .ok value
    | Option.none => .error (.new "expected numeric value")
  | _ => .error (.new "expected numeric value")

/-! ## Choices -/

/-- The running totals of the weights, and the last one. -/
def accumulateWeights (parseF64 : List Char → Option Binary64) :
    Binary64 → List RandomValue → ChoicesResult (List Binary64 × Binary64)
  | total, [] => .ok ([], total)
  | total, value :: raw => do
    let weight ← choicesValueToF64 parseF64 value
    if !weight.isFinite || weight.lt (Binary64.ofNat false 0) then
      .error (.valueError "weights must be non-negative finite numbers")
    else do
      let total := total.add weight
      let (cumulative, last) ← accumulateWeights parseF64 total raw
      .ok (total :: cumulative, last)

/-- The index of the first bound above the needle, or the last index. -/
def weightedIndex (cumulative : List Binary64) (needle : Binary64) : ℕ :=
  (cumulative.findIdx? fun bound => needle.lt bound).getD (cumulative.length - 1)

/-- A round of the loops over `k`: an index is drawn and the item there is pushed. -/
def pushChoices (population : List RandomValue) (draw : Mt19937 → ChoicesResult (ℕ × Mt19937)) :
    ℕ → Mt19937 → ChoicesResult (List RandomValue × Mt19937)
  | 0, random => .ok ([], random)
  | k + 1, random => do
    let (idx, random) ← draw random
    match population[idx]? with
    | Option.none => .error .panicked
    | some item =>
      let (out, random) ← pushChoices population draw k random
      .ok (item :: out, random)

/-- One draw: the first total above the random number. -/
def drawWeighted (cumulative : List Binary64) (total : Binary64) (random : Mt19937) :
    ChoicesResult (ℕ × Mt19937) :=
  let (number, random) := random.randomF64
  .ok (weightedIndex cumulative (number.mul total), random)

/-- The bound is positive, since a population without items was refused. -/
def randomRandbelow (upper : UInt64) : ℕ → Mt19937 → ChoicesResult (ℕ × Mt19937)
  | 0, _ => .error (.new "out of fuel")
  | fuel + 1, random =>
    let zone := 0xFFFFFFFFFFFFFFFF - 0xFFFFFFFFFFFFFFFF % upper
    let (high, random) := random.nextU32
    let (low, random) := random.nextU32
    let value := (high.toUInt64 <<< 32) ||| low.toUInt64
    if value < zone then .ok ((value % upper).toNat, random) else randomRandbelow upper fuel random

/-- The weights among the arguments, given by position or by keyword. -/
def choicesWeights (positional keyword : Option RandomValue) : ChoicesResult (Option RandomValue) :=
  match positional, keyword with
  | some _, some _ => .error (.typeError "choices() got multiple values for argument 'weights'")
  | some weights, Option.none => .ok (some weights)
  | Option.none, keyword => .ok keyword

/-- The choices behind the checks of the arguments. -/
def chooseFrom (parseF64 : List Char → Option Binary64) (fuel : ℕ) (population : List RandomValue)
    (weightSource : Option RandomValue) (k : ℕ) (random : Mt19937) :
    ChoicesResult (List RandomValue × Mt19937) :=
  match weightSource with
  | some weightSource => do
    let raw ← collectIterableValues weightSource
    if raw.length ≠ population.length then
      .error (.valueError "the number of weights does not match the population")
    else do
      let (cumulative, total) ← accumulateWeights parseF64 (Binary64.ofNat false 0) raw
      if total.le (Binary64.ofNat false 0) then
        .error (.valueError "total of weights must be greater than zero")
      else pushChoices population (drawWeighted cumulative total) k random
  | Option.none =>
    pushChoices population (randomRandbelow (UInt64.ofNat population.length) fuel) k random

/-- `builtin_random_choices`.  The keywords are distinct. -/
def builtinRandomChoices (parseF64 : List Char → Option Binary64) (fuel : ℕ)
    (args : List RandomValue) (kwargs : List (String × RandomValue)) (random : Mt19937) :
    ChoicesResult (List RandomValue × Mt19937) :=
  match stripRandomSelfArg args with
  | [] => .error (.typeError "choices() missing required argument 'population'")
  | populationSource :: args =>
    if args.length > 1 then
      .error (.typeError "choices() expected at most 2 positional arguments")
    else do
      let population ← collectIterableValues populationSource
      let weights ← choicesWeights args.head? (kwargs.lookup "weights")
      let cumWeights := kwargs.lookup "cum_weights"
      if weights.isSome && cumWeights.isSome then
        .error (.typeError "cannot specify both weights and cum_weights")
      else
        match (kwargs.map Prod.fst).find? fun name => name ∉ ["weights", "cum_weights", "k"] with
        | some keyword =>
          .error (.typeError ("choices() got an unexpected keyword argument '" ++ keyword ++ "'"))
        | Option.none => do
          let k ← choicesValueToInt ((kwargs.lookup "k").getD (.number (.int (.int 1))))
          if k < 0 then .error (.valueError "k must be a non-negative integer")
          else if population = [] then
            if k = 0 then .ok ([], random)
            else .error (.indexError "Cannot choose from an empty sequence")
          else chooseFrom parseF64 fuel population (weights.or cumWeights) k.toNatClampNeg random

end Pyrs
