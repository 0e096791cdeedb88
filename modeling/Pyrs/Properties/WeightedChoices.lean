import Pyrs.Library.Results
import Pyrs.Model.RandomChoices

/-!
# Weights and cumulative weights

A choice by weights never takes an item of weight zero: the running totals are exact, and the
product of a random number and the total stays below the total.  Cumulative weights are added up
once more, as if they were weights, so that the two forms agree where there is nothing to add up:
where every weight but the last one is zero, and where nothing is chosen.
-/

namespace Pyrs

open Binary64

/-! ## The two forms -/

def intWeight (n : ℕ) : RandomValue := .number (.int (.int (Int64.ofNat n)))

/-- The running totals from a number on. -/
def prefixSums : ℕ → List ℕ → List ℕ
  | _, [] => []
  | total, weight :: weights => (total + weight) :: prefixSums (total + weight) weights

section forms

variable (parseF64 : List Char → Option Binary64) (fuel : ℕ) (population : RandomValue)
variable (weights : List ℕ) (k : RandomValue) (random : Mt19937)

/-- A call with a population, `k` and a keyword for the weights. -/
def choicesBy (keyword : String) (weights : List ℕ) : ChoicesResult (List RandomValue × Mt19937) :=
  builtinRandomChoices parseF64 fuel [population]
    [(keyword, .list (weights.map intWeight)), ("k", k)] random

def choicesByWeights : ChoicesResult (List RandomValue × Mt19937) :=
  choicesBy parseF64 fuel population k random "weights" weights

def choicesByCumWeights : ChoicesResult (List RandomValue × Mt19937) :=
  choicesBy parseF64 fuel population k random "cum_weights" (prefixSums 0 weights)

/-- An item of the population whose weight is not zero. -/
def HasWeight (item : RandomValue) : Prop :=
  ∃ items, collectIterableValues population = .ok items ∧
    ∃ i weight : ℕ, items[i]? = some item ∧ weights[i]? = some weight ∧ weight ≠ 0

/-- The two forms have the same result, and choose items of nonzero weight. -/
structure FormsAgree : Prop where
  same : choicesByCumWeights parseF64 fuel population weights k random =
    choicesByWeights parseF64 fuel population weights k random
  weighted : ∀ out later,
    choicesByWeights parseF64 fuel population weights k random = .ok (out, later) ∨
      choicesByCumWeights parseF64 fuel population weights k random = .ok (out, later) →
    ∀ item ∈ out, HasWeight population weights item

/-- The call chooses something: the arguments pass the checks, and `k` is positive. -/
structure Draws : Prop where
  population : ∃ items, collectIterableValues population = .ok items ∧ items.length = weights.length
  count : ∃ number, choicesValueToInt k = .ok number ∧ 0 < number

end forms

/-! ## Bounds -/

section bounds

variable {parseF64 : List Char → Option Binary64} {total weight : ℕ} {weights : List ℕ}

lemma valueToF64_intWeight (h : weight < 2 ^ 53) :
    choicesValueToF64 parseF64 (intWeight weight) = .ok (ofNat false weight) := by
  have hint : (Int64.ofNat weight).toInt = weight := Int64.toInt_ofNat_of_lt (h.trans (by decide))
  rw [intWeight, choicesValueToF64, valueToF64, hint, ofInt, Int.natAbs_natCast,
    decide_eq_false (Int.not_lt.2 (Int.natCast_nonneg weight))]

lemma accumulateWeights_eq (h : total + weights.sum < 2 ^ 53) :
    accumulateWeights parseF64 (ofNat false total) (weights.map intWeight) =
      .ok ((prefixSums total weights).map (ofNat false), ofNat false (total + weights.sum)) := by
  induction weights generalizing total with
  | nil => rfl
  | cons weight weights ih =>
    rw [List.sum_cons, ← Nat.add_assoc] at h
    have hweight : weight < 2 ^ 53 := by omega
    rw [List.map_cons, accumulateWeights, valueToF64_intWeight hweight, Results.ok_bind,
      isFinite_ofNat (exact_of_lt hweight), lt_zero_of_sign (sign_ofNat false weight),
      if_neg (by decide), add_ofNat (by omega)]
    dsimp only
    rw [ih h, List.sum_cons, ← Nat.add_assoc]
    rfl

/-- The first running total above the needle belongs to a weight other than zero. -/
lemma findIdx_prefixSums {needle : Binary64} (hlow : needle.lt (ofNat false total) = false)
    {bound : ℕ} (hbound : total + weights.sum = bound)
    (hhigh : needle.lt (ofNat false bound) = true) :
    ∃ i weight : ℕ, ((prefixSums total weights).map (ofNat false)).findIdx?
        (fun bound => needle.lt bound) =
      some i ∧ weights[i]? = some weight ∧ weight ≠ 0 := by
  induction weights generalizing total with
  | nil =>
    rw [← hbound, List.sum_nil, Nat.add_zero, hlow] at hhigh
    cases hhigh
  | cons weight weights ih =>
    rw [prefixSums, List.map_cons, List.findIdx?_cons]
    cases hfirst : needle.lt (ofNat false (total + weight)) with
    | true =>
      refine ⟨0, weight, rfl, rfl, ?_⟩
      rintro rfl
      rw [Nat.add_zero, hlow] at hfirst
      cases hfirst
    | false =>
      rw [List.sum_cons, ← Nat.add_assoc] at hbound
      obtain ⟨i, weight', hindex, hweight, hne⟩ := ih hfirst hbound
      exact ⟨i + 1, weight', by rw [hindex]; rfl, hweight, hne⟩

lemma randomBits_lt (random : Mt19937) : random.randomBits.1 < 2 ^ 53 := by
  rw [Mt19937.randomBits]
  refine Nat.or_lt_two_pow ?_ ?_
  · have htop := random.nextU32.1.toNat_lt
    rw [Nat.shiftLeft_eq, UInt32.toNat_shiftRight, Nat.shiftRight_eq_div_pow]
    simp only [UInt32.reduceToNat, Nat.reduceMod]
    omega
  · have hbottom := random.nextU32.2.nextU32.1.toNat_lt
    rw [UInt32.toNat_shiftRight, Nat.shiftRight_eq_div_pow]
    simp only [UInt32.reduceToNat, Nat.reduceMod]
    omega

lemma weightedIndex_spec (hpos : 0 < weights.sum) (hlt : weights.sum < 2 ^ 53) (random : Mt19937) :
    ∃ i weight : ℕ, weightedIndex ((prefixSums 0 weights).map (ofNat false))
      (random.randomF64.1.mul (ofNat false weights.sum)) = i ∧ weights[i]? = some weight ∧
      weight ≠ 0 := by
  have hbits := randomBits_lt random
  obtain ⟨hfinite, hsign, hmagnitude⟩ := divTwoPow_spec hbits
  have hshare : ((ofNat false random.randomBits.1).divTwoPow 53).magnitude * 2 ^ 53 +
      2 ^ unitExponent ≤ 2 ^ 53 * 2 ^ unitExponent := by
    rw [hmagnitude, ← Nat.succ_mul]
    exact Nat.mul_le_mul_right _ hbits
  obtain ⟨hneedle, hhigh⟩ := mul_lt hfinite hsign hshare hpos hlt
  obtain ⟨i, weight, hindex, hweight, hne⟩ :=
    findIdx_prefixSums (lt_zero_of_sign hneedle) (Nat.zero_add weights.sum) hhigh
  refine ⟨i, weight, ?_, hweight, hne⟩
  rw [weightedIndex]
  exact congrArg (Option.getD · _) hindex

end bounds

/-! ## Choices -/

section choices

variable {parseF64 : List Char → Option Binary64} {fuel : ℕ} {population k : RandomValue}
variable {weights : List ℕ} {random later : Mt19937} {out : List RandomValue}

/-- Every item that is pushed has an index that was drawn. -/
lemma pushChoices_drawn {items : List RandomValue}
    {draw : Mt19937 → ChoicesResult (ℕ × Mt19937)} {Drawn : ℕ → Prop}
    (hdraw : ∀ random idx later, draw random = .ok (idx, later) → Drawn idx) {count : ℕ}
    (h : pushChoices items draw count random = .ok (out, later)) :
    ∀ item ∈ out, ∃ idx : ℕ, Drawn idx ∧ items[idx]? = some item := by
  induction count generalizing random out with
  | zero =>
    obtain ⟨rfl, -⟩ := Prod.mk.inj (Except.ok.inj h)
    nofun
  | succ count ih =>
    rw [pushChoices] at h
    obtain ⟨⟨idx, middle⟩, hidx, h⟩ := Results.bind_eq_ok.1 h
    dsimp only at h
    split at h
    · cases h
    case h_2 item hitem =>
    obtain ⟨⟨rest, last⟩, hrest, h⟩ := Results.bind_eq_ok.1 h
    obtain ⟨rfl, rfl⟩ := Prod.mk.inj (Except.ok.inj h)
    intro other hother
    rcases List.mem_cons.1 hother with rfl | hother
    · exact ⟨idx, hdraw _ _ _ hidx, hitem⟩
    · exact ih hrest other hother

lemma chooseFrom_weighted {items : List RandomValue} (hpos : 0 < weights.sum)
    (hlt : weights.sum < 2 ^ 53) {count : ℕ}
    (h : chooseFrom parseF64 fuel items (some (.list (weights.map intWeight))) count random =
      .ok (out, later)) :
    ∀ item ∈ out, ∃ i weight : ℕ, items[i]? = some item ∧ weights[i]? = some weight ∧
      weight ≠ 0 := by
  have htotals : accumulateWeights parseF64 (ofNat false 0) (weights.map intWeight) = _ :=
    accumulateWeights_eq (by rwa [Nat.zero_add])
  rw [Nat.zero_add] at htotals
  rw [chooseFrom] at h
  dsimp only [collectIterableValues] at h
  rw [Results.ok_bind] at h
  split_ifs at h with hlength
  rw [htotals, Results.ok_bind] at h
  dsimp only at h
  split_ifs at h with hzero
  intro item hitem
  have hdrawn (random : Mt19937) (idx : ℕ) (later : Mt19937)
      (hdraw : drawWeighted ((prefixSums 0 weights).map (ofNat false)) (ofNat false weights.sum)
        random = .ok (idx, later)) : ∃ weight, weights[idx]? = some weight ∧ weight ≠ 0 := by
    obtain ⟨rfl, -⟩ := Prod.mk.inj (Except.ok.inj hdraw)
    obtain ⟨i, weight, rfl, hweight, hne⟩ := weightedIndex_spec hpos hlt random
    exact ⟨weight, hweight, hne⟩
  obtain ⟨i, ⟨weight, hweight, hne⟩, hpopulation⟩ := pushChoices_drawn hdrawn h item hitem
  exact ⟨i, weight, hpopulation, hweight, hne⟩

lemma choicesBy_weighted {items : List RandomValue} (hpos : 0 < weights.sum)
    (hlt : weights.sum < 2 ^ 53) (hitems : collectIterableValues population = .ok items)
    (h : (choicesValueToInt k >>= fun number =>
      if number < 0 then .error (.valueError "k must be a non-negative integer")
      else if items = [] then
        if number = 0 then .ok ([], random)
        else .error (.indexError "Cannot choose from an empty sequence")
      else chooseFrom parseF64 fuel items (some (.list (weights.map intWeight)))
        number.toNatClampNeg random) = .ok (out, later)) :
    ∀ item ∈ out, HasWeight population weights item := by
  obtain ⟨number, -, h⟩ := Results.bind_eq_ok.1 h
  split_ifs at h
  · obtain ⟨rfl, -⟩ := Prod.mk.inj (Except.ok.inj h)
    nofun
  · exact fun item hitem => ⟨items, hitems, chooseFrom_weighted hpos hlt h item hitem⟩

/-- **A choice by weights has a weight.** -/
theorem choicesByWeights_weighted (hpos : 0 < weights.sum) (hlt : weights.sum < 2 ^ 53)
    (h : choicesByWeights parseF64 fuel population weights k random = .ok (out, later)) :
    ∀ item ∈ out, HasWeight population weights item := by
  cases population with
  | list items => exact choicesBy_weighted hpos hlt rfl h
  | str text => exact choicesBy_weighted hpos hlt rfl h
  | none => cases h
  | number value => cases h
  | randomInstance => cases h

/-- The keyword makes no difference. -/
lemma choicesBy_keyword :
    choicesBy parseF64 fuel population k random "cum_weights" weights =
      choicesBy parseF64 fuel population k random "weights" weights := by
  cases population <;> rfl

lemma prefixSums_of_zeros (h : ∀ weight ∈ weights.dropLast, weight = 0) :
    prefixSums 0 weights = weights := by
  induction weights with
  | nil => rfl
  | cons weight weights ih =>
    cases weights with
    | nil => rw [prefixSums, prefixSums, Nat.zero_add]
    | cons next weights =>
      rw [List.dropLast_cons_cons, List.forall_mem_cons] at h
      rw [prefixSums, Nat.zero_add, h.1, ih h.2]

/-! ## Calls that choose nothing -/

lemma length_prefixSums (total : ℕ) : (prefixSums total weights).length = weights.length := by
  induction weights generalizing total with
  | nil => rfl
  | cons weight weights ih => rw [prefixSums, List.length_cons, List.length_cons, ih]

lemma prefixSums_bounds {total weight : ℕ} (h : weight ∈ prefixSums total weights) :
    weight ≤ total + weights.sum := by
  induction weights generalizing total with
  | nil => cases h
  | cons first weights ih =>
    rw [List.sum_cons, ← Nat.add_assoc]
    rcases List.mem_cons.1 h with rfl | h
    · exact Nat.le_add_right _ _
    · exact ih h

lemma sum_le_sum_prefixSums (total : ℕ) : weights.sum ≤ (prefixSums total weights).sum := by
  induction weights generalizing total with
  | nil => exact le_rfl
  | cons weight weights ih =>
    rw [prefixSums, List.sum_cons, List.sum_cons]
    exact Nat.add_le_add (Nat.le_add_left _ _) (ih _)

/-- Adding up integers never fails, whether or not the totals are exact, and it gives a positive
total. -/
lemma accumulateWeights_isOk {total : Binary64} (htotal : total.Nonneg)
    (hlt : ∀ weight ∈ weights, weight < 2 ^ 53) :
    ∃ cumulative last, accumulateWeights parseF64 total (weights.map intWeight) =
      .ok (cumulative, last) ∧ last.Nonneg ∧
        (total.magnitude ≠ 0 ∨ weights.sum ≠ 0 → last.magnitude ≠ 0) := by
  induction weights generalizing total with
  | nil => exact ⟨[], total, rfl, htotal, fun h => h.resolve_right fun hne => hne rfl⟩
  | cons weight weights ih =>
    rw [List.forall_mem_cons] at hlt
    have hfinite := isFinite_ofNat (exact_of_lt hlt.1) false
    obtain ⟨hsum, hpos⟩ := htotal.add (nonneg_ofNat weight) hfinite
    obtain ⟨cumulative, last, hrest, hlast, hlastPos⟩ := ih hsum hlt.2
    refine ⟨total.add (ofNat false weight) :: cumulative, last, ?_, hlast, fun hne => ?_⟩
    · rw [List.map_cons, accumulateWeights, valueToF64_intWeight hlt.1, Results.ok_bind, hfinite,
        lt_zero_of_sign (sign_ofNat false weight), if_neg (by decide)]
      dsimp only
      rw [hrest]
      rfl
    · have hweight : weight ≠ 0 → (ofNat false weight).magnitude ≠ 0 := fun hweight => by
        have hexact := exact_of_lt hlt.1
        rw [(ofNat_exact hexact.1 hexact.2 false).2]
        exact Nat.mul_ne_zero hweight (Nat.two_pow_pos _).ne'
      rw [List.sum_cons] at hne
      refine hlastPos ?_
      by_cases hzero : total.magnitude = 0 ∧ weight = 0
      · exact .inr (by omega)
      · exact .inl (hpos (by
          rcases not_and_or.1 hzero with hne | hne
          · exact .inl hne
          · exact .inr (hweight hne)))

lemma chooseFrom_zero {items : List RandomValue} (hlt : ∀ weight ∈ weights, weight < 2 ^ 53)
    (hpos : weights.sum ≠ 0) (hlength : weights.length = items.length) :
    chooseFrom parseF64 fuel items (some (.list (weights.map intWeight))) 0 random =
      .ok ([], random) := by
  obtain ⟨cumulative, last, haccumulate, hlast, hlastPos⟩ :=
    @accumulateWeights_isOk parseF64 weights _ (nonneg_ofNat 0) hlt
  have htotal := hlast.le_zero_iff.2 (hlastPos (.inr hpos))
  rw [chooseFrom]
  dsimp only [collectIterableValues]
  rw [Results.ok_bind, List.length_map, if_neg (by simpa using hlength), haccumulate,
    Results.ok_bind]
  dsimp only
  rw [htotal, if_neg Bool.false_ne_true]
  rfl

/-- Without a choice the weights have no effect on the result. -/
lemma chooseFrom_of_not_draws {items : List RandomValue} (hpos : 0 < weights.sum)
    (hlt : weights.sum < 2 ^ 53) {count : ℕ} (h : weights.length = items.length → count = 0) :
    chooseFrom parseF64 fuel items (some (.list ((prefixSums 0 weights).map intWeight))) count
        random =
      chooseFrom parseF64 fuel items (some (.list (weights.map intWeight))) count random := by
  by_cases hlength : weights.length = items.length
  · have hsum : weights.sum ≤ (prefixSums 0 weights).sum := sum_le_sum_prefixSums 0
    rw [h hlength, chooseFrom_zero (fun weight hweight => ?_) (by omega)
        (by rw [length_prefixSums, hlength]),
      chooseFrom_zero (fun weight hweight => ?_) (by omega) hlength]
    · exact (List.single_le_sum (fun _ _ => Nat.zero_le _) weight hweight).trans_lt hlt
    · have hle := prefixSums_bounds hweight
      omega
  · rw [chooseFrom, chooseFrom]
    dsimp only [collectIterableValues]
    rw [Results.ok_bind, Results.ok_bind, List.length_map, List.length_map, length_prefixSums,
      if_pos hlength, if_pos hlength]

lemma choicesByCumWeights_of_not_draws (hpos : 0 < weights.sum) (hlt : weights.sum < 2 ^ 53)
    (h : ¬Draws population weights k) :
    choicesByCumWeights parseF64 fuel population weights k random =
      choicesByWeights parseF64 fuel population weights k random := by
  have hcall (items : List RandomValue) (hitems : collectIterableValues population = .ok items) :
      (choicesValueToInt k >>= fun number =>
        if number < 0 then .error (.valueError "k must be a non-negative integer")
        else if items = [] then
          if number = 0 then .ok ([], random)
          else .error (.indexError "Cannot choose from an empty sequence")
        else chooseFrom parseF64 fuel items (some (.list ((prefixSums 0 weights).map intWeight)))
          number.toNatClampNeg random) =
      (choicesValueToInt k >>= fun number =>
        if number < 0 then .error (.valueError "k must be a non-negative integer")
        else if items = [] then
          if number = 0 then .ok ([], random)
          else .error (.indexError "Cannot choose from an empty sequence")
        else chooseFrom parseF64 fuel items (some (.list (weights.map intWeight)))
          number.toNatClampNeg random) := by
    cases hk : choicesValueToInt k with
    | error error => rfl
    | ok number =>
      rw [Results.ok_bind, Results.ok_bind]
      split_ifs
      · rfl
      · rfl
      · rfl
      · refine chooseFrom_of_not_draws hpos hlt fun hlength => ?_
        have hnonpos : ¬0 < number := fun hnumber =>
          h ⟨⟨items, hitems, hlength.symm⟩, number, hk, hnumber⟩
        rw [Int64.lt_iff_toInt_lt, Int64.toInt_zero] at hnonpos
        exact Int.toNat_of_nonpos (by omega)
  cases population with
  | list items => exact hcall items rfl
  | str text => exact hcall _ rfl
  | none => rfl
  | number value => rfl
  | randomInstance => rfl

/-- The two forms agree if every weight but the last one is zero, or the call chooses nothing. -/
theorem choices_formsAgree (parseF64 : List Char → Option Binary64) (fuel : ℕ)
    (population k : RandomValue) (random : Mt19937) {weights : List ℕ} (hpos : 0 < weights.sum)
    (hlt : weights.sum < 2 ^ 53)
    (hzeros : Draws population weights k → ∀ weight ∈ weights.dropLast, weight = 0) :
    FormsAgree parseF64 fuel population weights k random := by
  have hsame : choicesByCumWeights parseF64 fuel population weights k random =
      choicesByWeights parseF64 fuel population weights k random := by
    by_cases hdraws : Draws population weights k
    · rw [choicesByCumWeights, prefixSums_of_zeros (hzeros hdraws), choicesBy_keyword,
        choicesByWeights]
    · exact choicesByCumWeights_of_not_draws hpos hlt hdraws
  refine ⟨hsame, fun out later h => ?_⟩
  rw [hsame, or_self] at h
  exact choicesByWeights_weighted hpos hlt h

theorem choices_formsAgree_lastWeight :
    FormsAgree (fun _ => none) 0 (.str ['a', 'b']) [0, 3] (.number (.int (.int 2)))
      ⟨Vector.replicate mtN 1, 0⟩ :=
  choices_formsAgree _ _ _ _ _ (by decide) (by decide) fun _ => by decide

/-- The strings among the items of a result. -/
def chosenTexts (result : ChoicesResult (List RandomValue × Mt19937)) :
    Option (List (Option (List Char))) :=
  result.toOption.map fun chosen => chosen.1.map fun item =>
    match item with
    | .str text => some text
    | _ => none

/-- With the weights `[1, 0]` the second item is never chosen.  With the cumulative weights `[1, 1]`
it is, as if the weights were equal. -/
theorem choicesByCumWeights_zeroWeight :
    chosenTexts (choicesByWeights (fun _ => none) 0 (.str ['a', 'b']) [1, 0]
      (.number (.int (.int 1))) ⟨Vector.replicate mtN 0x80000000, 0⟩) = some [some ['a']] ∧
    chosenTexts (choicesByCumWeights (fun _ => none) 0 (.str ['a', 'b']) [1, 0]
      (.number (.int (.int 1))) ⟨Vector.replicate mtN 0x80000000, 0⟩) = some [some ['b']] ∧
    ¬FormsAgree (fun _ => none) 0 (.str ['a', 'b']) [1, 0] (.number (.int (.int 1)))
      ⟨Vector.replicate mtN 0x80000000, 0⟩ := by
  have hweights : chosenTexts (choicesByWeights (fun _ => none) 0 (.str ['a', 'b']) [1, 0]
      (.number (.int (.int 1))) ⟨Vector.replicate mtN 0x80000000, 0⟩) = some [some ['a']] := by
    decide +kernel
  have hcumWeights : chosenTexts (choicesByCumWeights (fun _ => none) 0 (.str ['a', 'b']) [1, 0]
      (.number (.int (.int 1))) ⟨Vector.replicate mtN 0x80000000, 0⟩) = some [some ['b']] := by
    decide +kernel
  refine ⟨hweights, hcumWeights, fun h => ?_⟩
  rw [h.same, hweights] at hcumWeights
  revert hcumWeights
  decide

end choices

end Pyrs
