import Pyrs.Library.Results
import Pyrs.Model.PercentFormat

/-!
# Arguments of percent formats

Which value each conversion and each `*` of a template takes.  The two formatters and Python agree
on every operand but a dict, up to conversions `%` with a specification.  On a dict they part where
a conversion without a key comes behind one with a key, and where there is no conversion at all.

`regularRun` walks over the template with what is left of the arguments and says whether a run meets
one of these cases before its first error.  Behind the error nothing is asked of the template: the
two loops fail there alike, and what they would have done does not matter.
-/

namespace Pyrs.PercentFormat

/-! ## What Python takes -/

/-- The key behind an opening parenthesis, with as many parentheses opened as closed. -/
def pythonKey : ℕ → List Char → Option (List Char × List Char)
  | _, [] => none
  | depth, c :: chars =>
    if c = ')' then
      match depth with
      | 0 => some ([], chars)
      | depth + 1 => (pythonKey depth chars).map fun (key, rest) => (c :: key, rest)
    else (pythonKey (if c = '(' then depth + 1 else depth) chars).map fun (key, rest) =>
      (c :: key, rest)

/-- The arguments behind a key are the value that the mapping has for it. -/
def pythonArgs (mapping : Option (List (PercentValue × PercentValue))) (chars : List Char)
    (args : List PercentValue) : PercentResult (List Char × List PercentValue) :=
  match chars with
  | '(' :: chars =>
    match mapping with
    | none => .error (.typeError "format requires a mapping")
    | some _ =>
      match pythonKey 0 chars with
      | none => .error (.valueError "incomplete format key")
      | some (key, rest) => do return (rest, [← mappingLookup mapping (String.ofList key)])
  | chars => .ok (chars, args)

/-- A conversion of Python, from behind its `%`.  Only which value it takes is Python's own; the
value is formatted as ever.  A conversion `%` takes none. -/
def pythonConversion (texts : PercentTexts)
    (mapping : Option (List (PercentValue × PercentValue))) (chars : List Char)
    (args : List PercentValue) : PercentResult (Taken (List Char)) := do
  let (chars, args) ← pythonArgs mapping chars args
  let ⟨spec, chars, args⟩ ← takeSpec none chars args
  if spec.conversion = '%' then return ⟨['%'], chars, args⟩
  else do
    let (value, args) ← nextArg args
    let formatted ← formatPercentValue texts value spec.conversion spec.precision
      spec.flags.forceSign spec.flags.spaceSign spec.flags.alternate
    return ⟨applyPercentWidth formatted.toList spec.width spec.flags.leftAlign
      (spec.flags.zeroPad && !spec.flags.leftAlign) spec.conversion, chars, args⟩

/-- The loop of Python over the template.  A mapping may go unused. -/
def pythonLoop (texts : PercentTexts) (mapping : Option (List (PercentValue × PercentValue))) :
    ℕ → List Char → List PercentValue → PercentResult (List Char)
  | _, [], args =>
    if !args.isEmpty && mapping.isNone then
      .error (.typeError "not all arguments converted during string formatting")
    else .ok []
  | 0, _ :: _, _ => .error .panicked
  | rounds + 1, c :: chars, args =>
    if c ≠ '%' then do return c :: (← pythonLoop texts mapping rounds chars args)
    else
      match chars with
      | [] => .error (.valueError "incomplete format")
      | '%' :: chars => do return '%' :: (← pythonLoop texts mapping rounds chars args)
      | chars => do
        let ⟨out, chars, args⟩ ← pythonConversion texts mapping chars args
        return out ++ (← pythonLoop texts mapping rounds chars args)

def pythonPercentFormat (texts : PercentTexts) (format : String) (right : PercentValue) :
    PercentResult String := do
  let out ← pythonLoop texts (mappingOf right) format.toList.length format.toList
    (percentFormatPositionalArgs right)
  return String.ofList out

/-- The formatters return the same string or all fail, and so does Python. -/
structure FormattersAgree (texts : PercentTexts) (format : String)
    (right : PercentValue) : Prop where
  runtime : (stringPercentFormat texts format right).toOption =
    (stringPercentFormatRuntime texts format right).toOption
  python : (stringPercentFormatRuntime texts format right).toOption =
    (pythonPercentFormat texts format right).toOption

/-! ## The conversions of a template -/

/-- A width or a precision: whether it is a `*`, and what follows it. -/
def scanNumber : List Char → ℕ × List Char
  | '*' :: chars => (1, chars)
  | chars => (0, chars.dropWhile Char.isDigit)

def scanPrecision : List Char → ℕ × List Char
  | '.' :: chars => scanNumber chars
  | chars => (0, chars)

def scanSpec (chars : List Char) : Option (ℕ × Char × List Char) :=
  let (width, chars) := scanNumber (takeFlags {} chars).2
  let (precision, chars) := scanPrecision chars
  match chars.dropWhile fun c => c = 'h' || c = 'l' || c = 'L' with
  | [] => none
  | conversion :: rest => some (width + precision, conversion, rest)

def scanKey : List Char → Option (Option (List Char) × List Char)
  | '(' :: chars =>
    match chars.dropWhile (· != ')') with
    | [] => none
    | _ :: rest => some (some (chars.takeWhile (· != ')')), rest)
  | chars => some (none, chars)

/-- The specification that Python reads, with the arguments that are left for its value. -/
def pythonSpec (mapping : Option (List (PercentValue × PercentValue))) (chars : List Char)
    (args : List PercentValue) : PercentResult (Taken Spec) := do
  let (chars, args) ← pythonArgs mapping chars args
  takeSpec none chars args

/-- Behind a key the mapping is no argument any more. -/
def argsBehind (used : Bool) (args : List PercentValue) : List PercentValue :=
  if used then [] else args

/-- A conversion that is reached: the key of a mapping has no parenthesis inside, Python does not
come to a `%`, and without a key there is no argument to take if one before it had a key. -/
def regularConversion (mapping : Option (List (PercentValue × PercentValue))) (chars : List Char)
    (args : List PercentValue) (used : Bool) : Bool :=
  ((scanKey chars).all fun read => mapping.isNone || read.1.all fun key => '(' ∉ key) &&
    ((pythonSpec mapping chars (argsBehind used args)).toOption.all fun taken =>
      taken.value.conversion ≠ '%') &&
    (!used || (scanKey chars).all fun read => read.1.isSome ||
      (takeSpec none read.2 args).toOption.all fun taken => taken.args.isEmpty)

/-- The condition on a template and an operand.  It follows the first formatter, up to the first
conversion that fails; where the template ends, a dict has been taken or has had a key. -/
def regularRun (texts : PercentTexts) (mapping : Option (List (PercentValue × PercentValue))) :
    ℕ → List Char → List PercentValue → Bool → Bool
  | _, [], args, used => mapping.isNone || used || args.isEmpty
  | 0, _ :: _, _, _ => true
  | rounds + 1, c :: chars, args, used =>
    if c ≠ '%' then regularRun texts mapping rounds chars args used
    else
      match chars with
      | [] => true
      | '%' :: chars => regularRun texts mapping rounds chars args used
      | chars => regularConversion mapping chars args used &&
        (formatConversion texts false mapping chars args).toOption.all fun taken =>
          regularRun texts mapping rounds taken.chars taken.args (used || taken.value.1)

def RegularTemplate (texts : PercentTexts) (format : String) (right : PercentValue) : Prop :=
  regularRun texts (mappingOf right) format.toList.length format.toList
    (percentFormatPositionalArgs right) false = true

instance (texts : PercentTexts) (format : String) (right : PercentValue) :
    Decidable (RegularTemplate texts format right) := inferInstanceAs (Decidable (_ = true))

/-! ## Specifications -/

section specifications

variable {key : Option String} {chars : List Char} {args : List PercentValue}

lemma starArg_ok {number : Int64} {later : List PercentValue}
    (h : starArg key args = .ok (number, later)) : key = none ∧ ∃ value, args = value :: later := by
  cases key with
  | some key => cases h
  | none =>
    cases args with
    | nil => cases h
    | cons value args =>
      obtain ⟨⟨first, rest⟩, hnext, h⟩ := Results.bind_eq_ok.1 h
      obtain ⟨rfl, rfl⟩ := Prod.mk.inj (Except.ok.inj hnext)
      obtain ⟨read, -, h⟩ := Results.bind_eq_ok.1 h
      obtain ⟨-, rfl⟩ := Prod.mk.inj (Except.ok.inj h)
      exact ⟨rfl, _, rfl⟩

/-- What a part of a specification takes: so many arguments, and none behind a key. -/
structure Takes (key : Option String) (stars : ℕ) (args later : List PercentValue) : Prop where
  le : stars ≤ args.length
  later : later = args.drop stars
  key : key.isSome → stars = 0

lemma Takes.trans {stars stars' : ℕ} {middle later : List PercentValue}
    (h : Takes key stars args middle) (h' : Takes key stars' middle later) :
    Takes key (stars + stars') args later where
  le := by
    have := h'.le
    rw [h.later, List.length_drop] at this
    have := h.le
    omega
  later := by rw [h'.later, h.later, List.drop_drop]
  key hkey := by rw [h.key hkey, h'.key hkey]

lemma takeWidth_ok {taken : Taken (Option ℕ × Bool)} (h : takeWidth key chars args = .ok taken) :
    taken.chars = (scanNumber chars).2 ∧ Takes key (scanNumber chars).1 args taken.args := by
  rw [takeWidth.eq_def] at h
  split at h
  · obtain ⟨⟨width, later⟩, hstar, h⟩ := Results.bind_eq_ok.1 h
    obtain rfl := Except.ok.inj h
    obtain ⟨rfl, value, rfl⟩ := starArg_ok hstar
    exact ⟨rfl, ⟨by simp [scanNumber], rfl, nofun⟩⟩
  · next hstar =>
    have hparts : taken.chars = chars.dropWhile Char.isDigit ∧ taken.args = args := by
      dsimp only at h
      split_ifs at h
      · obtain rfl := Except.ok.inj h
        exact ⟨rfl, rfl⟩
      · obtain ⟨width, -, h⟩ := Results.bind_eq_ok.1 h
        obtain rfl := Except.ok.inj h
        exact ⟨rfl, rfl⟩
    rw [scanNumber.eq_2 _ hstar]
    exact ⟨hparts.1, ⟨Nat.zero_le _, hparts.2, fun _ => rfl⟩⟩

lemma takePrecision_ok {taken : Taken (Option ℕ)} (h : takePrecision key chars args = .ok taken) :
    taken.chars = (scanPrecision chars).2 ∧ Takes key (scanPrecision chars).1 args taken.args := by
  rw [takePrecision.eq_def] at h
  split at h
  · obtain ⟨⟨precision, later⟩, hstar, h⟩ := Results.bind_eq_ok.1 h
    obtain rfl := Except.ok.inj h
    obtain ⟨rfl, value, rfl⟩ := starArg_ok hstar
    exact ⟨rfl, ⟨by simp [scanPrecision, scanNumber], rfl, nofun⟩⟩
  · next digits hstar =>
    have hparts : taken.chars = digits.dropWhile Char.isDigit ∧ taken.args = args := by
      dsimp only at h
      split_ifs at h
      · obtain rfl := Except.ok.inj h
        exact ⟨rfl, rfl⟩
      · obtain ⟨precision, -, h⟩ := Results.bind_eq_ok.1 h
        obtain rfl := Except.ok.inj h
        exact ⟨rfl, rfl⟩
    rw [scanPrecision, scanNumber.eq_2 _ hstar]
    exact ⟨hparts.1, ⟨Nat.zero_le _, hparts.2, fun _ => rfl⟩⟩
  · next hstar hpoint =>
    obtain rfl := Except.ok.inj h
    rw [scanPrecision.eq_2 _ hpoint]
    exact ⟨rfl, ⟨Nat.zero_le _, rfl, fun _ => rfl⟩⟩

/-- What a specification takes is seen from its characters. -/
lemma takeSpec_ok {taken : Taken Spec} (h : takeSpec key chars args = .ok taken) :
    ∃ stars, scanSpec chars = some (stars, taken.value.conversion, taken.chars) ∧
      Takes key stars args taken.args := by
  rw [takeSpec] at h
  dsimp only at h
  obtain ⟨⟨⟨width, left⟩, behind, middle⟩, hwidth, h⟩ := Results.bind_eq_ok.1 h
  dsimp only at h
  obtain ⟨⟨precision, behind', later⟩, hprecision, h⟩ := Results.bind_eq_ok.1 h
  dsimp only at h
  obtain ⟨hchars, htakes⟩ := takeWidth_ok hwidth
  obtain ⟨hchars', htakes'⟩ := takePrecision_ok hprecision
  dsimp only at hchars htakes hchars' htakes'
  subst hchars hchars'
  split at h
  · cases h
  · next conversion rest hrest =>
    obtain rfl := Except.ok.inj h
    refine ⟨_, ?_, htakes.trans htakes'⟩
    simp only [scanSpec, hrest]

/-- Without a `*` the arguments are passed through. -/
lemma takeWidth_frame (h : (scanNumber chars).1 = 0) :
    takeWidth key chars args =
      (takeWidth none chars []).map fun taken => { taken with args := args } := by
  rw [takeWidth.eq_def, takeWidth.eq_def none]
  split
  · cases h
  · dsimp only
    split_ifs
    · rfl
    · cases parseUsize (chars.takeWhile Char.isDigit) "invalid width in format string" <;> rfl

lemma takePrecision_frame (h : (scanPrecision chars).1 = 0) (args : List PercentValue) :
    takePrecision key chars args =
      (takePrecision none chars []).map fun taken => { taken with args := args } := by
  rw [takePrecision.eq_def, takePrecision.eq_def none]
  split
  · cases h
  · next digits _ =>
    dsimp only
    split_ifs
    · rfl
    · cases parseUsize (digits.takeWhile Char.isDigit) "invalid precision in format string" <;> rfl
  · rfl

lemma takeSpec_frame {conversion : Char} {rest : List Char}
    (h : scanSpec chars = some (0, conversion, rest)) :
    takeSpec key chars args =
      (takeSpec none chars []).map fun taken => { taken with args := args } := by
  have hstars : (scanNumber (takeFlags {} chars).2).1 = 0 ∧
      (scanPrecision (scanNumber (takeFlags {} chars).2).2).1 = 0 := by
    rw [scanSpec] at h
    dsimp only at h
    split at h
    · cases h
    · have hsum := (Prod.mk.inj (Option.some.inj h)).1
      omega
  rw [takeSpec, takeSpec]
  dsimp only
  rw [takeWidth_frame hstars.1]
  cases hwidth : takeWidth none (takeFlags {} chars).2 [] with
  | error error => rfl
  | ok taken =>
    obtain ⟨⟨width, left⟩, behind, middle⟩ := taken
    have hbehind := (takeWidth_ok hwidth).1
    dsimp only at hbehind
    subst hbehind
    simp only [Except.map, Results.ok_bind]
    rw [takePrecision_frame hstars.2 args, takePrecision_frame hstars.2 middle]
    cases takePrecision none (scanNumber (takeFlags {} chars).2).2 [] with
    | error error => rfl
    | ok taken =>
      simp only [Except.map, Results.ok_bind]
      cases taken.chars.dropWhile fun c => c = 'h' || c = 'l' || c = 'L' <;> rfl

end specifications

/-! ## Conversions -/

section conversions

variable (texts : PercentTexts) (runtime : Bool)
variable (mapping : Option (List (PercentValue × PercentValue)))
variable {chars behind key : List Char} (args : List PercentValue)

lemma takeKey_scan (chars : List Char) :
    (takeKey chars).toOption =
      (scanKey chars).map fun read => (read.1.map String.ofList, read.2) := by
  rw [takeKey.eq_def]
  split
  · next chars =>
    rw [scanKey]
    cases chars.dropWhile (· != ')') <;> rfl
  · next hopen =>
    rw [scanKey.eq_2 _ hopen]
    rfl

lemma takeKey_of_scan {key : Option (List Char)} (h : scanKey chars = some (key, behind)) :
    takeKey chars = .ok (key.map String.ofList, behind) := by
  have htake := takeKey_scan chars
  rw [h] at htake
  cases hread : takeKey chars with
  | error error =>
    rw [hread] at htake
    cases htake
  | ok read =>
    rw [hread] at htake
    exact congrArg _ (Option.some.inj htake)

lemma pythonKey_of_scan {chars : List Char}
    (hrest : chars.dropWhile (· != ')') = ')' :: behind) (hkey : '(' ∉ chars.takeWhile (· != ')')) :
    pythonKey 0 chars = some (chars.takeWhile (· != ')'), behind) := by
  induction chars with
  | nil => cases hrest
  | cons c chars ih =>
    by_cases hc : c = ')'
    · subst hc
      have hdrop : ')' :: chars = ')' :: behind := hrest
      obtain rfl := (List.cons.inj hdrop).2
      rfl
    · have hne : (c != ')') = true := bne_iff_ne.2 hc
      rw [List.dropWhile_cons, if_pos hne] at hrest
      rw [List.takeWhile_cons, if_pos hne] at hkey ⊢
      have hopen : c ≠ '(' := fun h => hkey (h ▸ List.mem_cons_self)
      rw [pythonKey.eq_def]
      dsimp only
      rw [if_neg hc, if_neg hopen, ih hrest fun h => hkey (List.mem_cons_of_mem _ h)]
      rfl

lemma pythonKey_of_not_mem {chars : List Char} (h : ')' ∉ chars) (depth : ℕ) :
    pythonKey depth chars = none := by
  induction chars generalizing depth with
  | nil => rfl
  | cons c chars ih =>
    have hc : c ≠ ')' := fun hc => h (hc ▸ List.mem_cons_self)
    rw [pythonKey.eq_def]
    dsimp only
    rw [if_neg hc, ih fun hmem => h (List.mem_cons_of_mem _ hmem)]
    rfl

/-- The text of a conversion with a key, and what follows it. -/
def keyedOutput (key behind : List Char) : Option (List Char × List Char) :=
  match scanSpec behind with
  | some (0, _, _) => do
    let value ← (mappingLookup mapping (String.ofList key)).toOption
    let taken ← (takeSpec none behind []).toOption
    let formatted ← (formatPercentValue texts value taken.value.conversion taken.value.precision
      taken.value.flags.forceSign taken.value.flags.spaceSign
      taken.value.flags.alternate).toOption
    return (applyPercentWidth formatted.toList taken.value.width taken.value.flags.leftAlign
      (taken.value.flags.zeroPad && !taken.value.flags.leftAlign) taken.value.conversion,
      taken.chars)
  | _ => none

lemma takeSpec_keyed_none {key : String}
    (h : ∀ conversion rest, scanSpec behind ≠ some (0, conversion, rest)) :
    (takeSpec (some key) behind args).toOption = none := by
  cases htake : takeSpec (some key) behind args with
  | error error => rfl
  | ok taken =>
    obtain ⟨stars, hscan, htakes⟩ := takeSpec_ok htake
    rw [htakes.key rfl] at hscan
    exact absurd hscan (h _ _)

lemma formatConversion_keyed (hkey : scanKey chars = some (some key, behind)) :
    (formatConversion texts runtime mapping chars args).toOption =
      (keyedOutput texts mapping key behind).map fun read =>
        ⟨(true, read.1), read.2, if runtime then [] else args⟩ := by
  rw [formatConversion, takeKey_of_scan hkey, Results.ok_bind]
  simp only [Option.map_some]
  rw [Results.toOption_bind]
  rcases hscan : scanSpec behind with _ | ⟨_ | stars, conversion, rest⟩
  · rw [takeSpec_keyed_none _ (by simp [hscan]), keyedOutput, hscan]
    rfl
  · rw [takeSpec_frame hscan, keyedOutput, hscan]
    cases takeSpec none behind [] with
    | error error => cases mappingLookup mapping (String.ofList key) <;> rfl
    | ok taken =>
      cases hvalue : mappingLookup mapping (String.ofList key) with
      | error error =>
        simp only [Except.map, Except.toOption, conversionValue, hvalue, bind, Except.bind,
          Option.bind]
        rfl
      | ok value =>
        simp only [Except.map, Except.toOption, conversionValue, hvalue, bind, Except.bind,
          Option.bind, pure, Except.pure]
        cases formatPercentValue texts value taken.value.conversion taken.value.precision
          taken.value.flags.forceSign taken.value.flags.spaceSign taken.value.flags.alternate
            <;> rfl
  · rw [takeSpec_keyed_none _ (by simp [hscan]), keyedOutput, hscan]
    rfl

lemma scanKey_some (hkey : scanKey chars = some (some key, behind)) :
    ∃ inside, chars = '(' :: inside ∧ inside.dropWhile (· != ')') = ')' :: behind ∧
      key = inside.takeWhile (· != ')') := by
  rw [scanKey.eq_def] at hkey
  split at hkey
  · next inside =>
    split at hkey
    · cases hkey
    · next close rest hrest =>
      obtain ⟨hinside, rfl⟩ := Prod.mk.inj (Option.some.inj hkey)
      have hclose : close = ')' := by
        have := List.head?_dropWhile_not (· != ')') inside
        rw [hrest] at this
        simpa using this
      exact ⟨inside, rfl, by rw [hrest, hclose], (Option.some.inj hinside).symm⟩
  · cases hkey

lemma scanKey_none (hkey : scanKey chars = some (none, behind)) :
    behind = chars ∧ chars.head? ≠ some '(' := by
  rw [scanKey.eq_def] at hkey
  split at hkey
  · split at hkey
    · cases hkey
    · cases hkey
  · next hopen =>
    refine ⟨(Prod.mk.inj (Option.some.inj hkey)).2.symm, fun hhead => ?_⟩
    obtain ⟨rest, rfl⟩ := List.head?_eq_some_iff.1 hhead
    exact hopen rest rfl

/-- Behind a key Python has one argument, which no `*` may take. -/
lemma pythonConversion_keyed (hkey : scanKey chars = some (some key, behind))
    (hplain : mapping.isNone ∨ '(' ∉ key)
    (hconversion : ∀ taken, pythonSpec mapping chars args = .ok taken →
      taken.value.conversion ≠ '%') :
    (pythonConversion texts mapping chars args).toOption =
      (keyedOutput texts mapping key behind).map fun read => ⟨read.1, read.2, []⟩ := by
  obtain ⟨inside, rfl, hrest, rfl⟩ := scanKey_some hkey
  rw [pythonConversion, Results.toOption_bind]
  cases mapping with
  | none =>
    rw [keyedOutput]
    split <;> rfl
  | some entries =>
    have hplain : '(' ∉ inside.takeWhile (· != ')') := hplain.resolve_left (by simp)
    simp only [pythonSpec, pythonArgs, pythonKey_of_scan hrest hplain] at hconversion ⊢
    cases hvalue : mappingLookup (some entries) (String.ofList (inside.takeWhile (· != ')'))) with
    | error error =>
      rw [keyedOutput, hvalue]
      split <;> rfl
    | ok value =>
      have hne : ∀ taken, takeSpec none behind [value] = .ok taken →
          taken.value.conversion ≠ '%' := by
        intro taken htake
        refine hconversion taken ?_
        rw [hvalue]
        exact htake
      rw [Results.ok_bind]
      change Except.toOption (takeSpec none behind [value] >>= _) = _
      rcases hscan : scanSpec behind with _ | ⟨_ | stars, conversion, rest⟩
      · rw [keyedOutput, hscan]
        cases htake : takeSpec none behind [value] with
        | error error => rfl
        | ok taken =>
          obtain ⟨stars, hspec, -⟩ := takeSpec_ok htake
          rw [hscan] at hspec
          cases hspec
      · rw [takeSpec_frame hscan] at hne ⊢
        rw [keyedOutput, hscan]
        cases htake : takeSpec none behind [] with
        | error error =>
          rw [hvalue]
          rfl
        | ok taken =>
          rw [htake] at hne
          have hne : taken.value.conversion ≠ '%' := hne { taken with args := [value] } rfl
          simp only [Except.map, Except.toOption, hvalue, bind, Except.bind, Option.bind, pure,
            Except.pure, if_neg hne, nextArg]
          cases formatPercentValue texts value taken.value.conversion taken.value.precision
            taken.value.flags.forceSign taken.value.flags.spaceSign
            taken.value.flags.alternate <;> rfl
      · rw [keyedOutput, hscan]
        cases htake : takeSpec none behind [value] with
        | error error => rfl
        | ok taken =>
          obtain ⟨stars', hspec, htakes⟩ := takeSpec_ok htake
          rw [hscan] at hspec
          have hstars : stars + 1 = stars' := (Prod.mk.inj (Option.some.inj hspec)).1
          have hnil : taken.args = [] := by
            rw [htakes.later, ← hstars]
            simp
          simp only [Results.ok_bind, if_neg (hne taken htake), hnil, nextArg]
          rfl

/-- Without a key the formatters do the same, and Python as well. -/
lemma formatConversion_unkeyed (hkey : scanKey chars = some (none, behind)) :
    formatConversion texts false mapping chars args =
      formatConversion texts true mapping chars args := by
  rw [formatConversion, formatConversion, takeKey_of_scan hkey]
  rfl

lemma pythonConversion_unkeyed (hkey : scanKey chars = some (none, behind))
    (hconversion : ∀ taken, pythonSpec mapping chars args = .ok taken →
      taken.value.conversion ≠ '%') :
    (pythonConversion texts mapping chars args).toOption =
      (formatConversion texts runtime mapping chars args).toOption.map fun taken =>
        ⟨taken.value.2, taken.chars, taken.args⟩ := by
  obtain ⟨rfl, hopen⟩ := scanKey_none hkey
  have hargs : pythonArgs mapping behind args = .ok (behind, args) := by
    rw [pythonArgs.eq_def]
    split
    · exact absurd rfl hopen
    · rfl
  rw [pythonSpec, hargs, Results.ok_bind] at hconversion
  rw [pythonConversion, hargs, Results.ok_bind, formatConversion, takeKey_of_scan hkey,
    Results.ok_bind]
  dsimp only [Option.map_none]
  cases htake : takeSpec none behind args with
  | error error => rfl
  | ok taken =>
    simp only [Results.ok_bind, if_neg (hconversion taken htake), conversionValue]
    cases nextArg taken.args with
    | error error => rfl
    | ok next =>
      simp only [Results.ok_bind]
      cases formatPercentValue texts next.1 taken.value.conversion taken.value.precision
        taken.value.flags.forceSign taken.value.flags.spaceSign taken.value.flags.alternate <;> rfl

lemma formatConversion_unkeyed_value {args : List PercentValue} {taken : Taken (Bool × List Char)}
    (hkey : scanKey chars = some (none, behind))
    (h : formatConversion texts runtime mapping chars args = .ok taken) :
    taken.value.1 = false := by
  rw [formatConversion, takeKey_of_scan hkey, Results.ok_bind] at h
  obtain ⟨spec, -, h⟩ := Results.bind_eq_ok.1 h
  obtain ⟨value, -, h⟩ := Results.bind_eq_ok.1 h
  obtain ⟨formatted, -, h⟩ := Results.bind_eq_ok.1 h
  obtain rfl := Except.ok.inj h
  rfl

/-- A conversion with a key does not succeed without a mapping. -/
lemma isSome_of_keyed {args : List PercentValue} {taken : Taken (Bool × List Char)}
    (h : formatConversion texts runtime mapping chars args = .ok taken)
    (hkeyed : taken.value.1 = true) : mapping.isSome = true := by
  rw [formatConversion] at h
  obtain ⟨⟨key, behind⟩, -, h⟩ := Results.bind_eq_ok.1 h
  obtain ⟨spec, -, h⟩ := Results.bind_eq_ok.1 h
  obtain ⟨value, hvalue, h⟩ := Results.bind_eq_ok.1 h
  obtain ⟨formatted, -, h⟩ := Results.bind_eq_ok.1 h
  obtain rfl := Except.ok.inj h
  cases key with
  | none => cases hkeyed
  | some key =>
    cases mapping with
    | none => cases hvalue
    | some entries => rfl

/-- Without an argument for its value a conversion fails. -/
lemma formatConversion_of_no_arg {args : List PercentValue}
    (hkey : scanKey chars = some (none, behind))
    (hargs : ∀ taken, takeSpec none behind args = .ok taken → taken.args = []) :
    (formatConversion texts runtime mapping chars args).toOption = none := by
  rw [formatConversion, takeKey_of_scan hkey, Results.ok_bind]
  cases htake : takeSpec none behind args with
  | error error =>
    dsimp only [Option.map_none]
    rw [htake]
    rfl
  | ok taken =>
    dsimp only [Option.map_none]
    rw [htake, Results.ok_bind]
    simp only [conversionValue, hargs taken htake, nextArg]
    rfl

end conversions

/-! ## The loops -/

section loops

variable (texts : PercentTexts) (runtime : Bool)
variable {mapping : Option (List (PercentValue × PercentValue))}
variable {rounds : ℕ} {chars behind : List Char}

/-- What stands behind the `%` of a conversion. -/
structure Opens (chars : List Char) : Prop where
  ne_nil : chars ≠ []
  head : chars.head? ≠ some '%'

lemma template_cases (c : Char) (chars : List Char) :
    c ≠ '%' ∨ c = '%' ∧ (chars = [] ∨ (∃ rest, chars = '%' :: rest) ∨ Opens chars) := by
  by_cases hc : c = '%'
  · refine .inr ⟨hc, ?_⟩
    cases chars with
    | nil => exact .inl rfl
    | cons first rest =>
      by_cases hfirst : first = '%'
      · exact .inr (.inl ⟨rest, by rw [hfirst]⟩)
      · exact .inr (.inr ⟨nofun, fun h => hfirst (Option.some.inj h)⟩)
  · exact .inl hc

lemma formatLoop_field (h : Opens chars) (args : List PercentValue) (used : Bool) :
    formatLoop texts runtime mapping (rounds + 1) ('%' :: chars) args used = do
      let ⟨(keyed, out), chars, args⟩ ← formatConversion texts runtime mapping chars args
      return out ++ (← formatLoop texts runtime mapping rounds chars args (used || keyed)) := by
  rw [formatLoop.eq_def]
  dsimp only
  rw [if_neg fun h => h rfl]
  split
  · exact absurd rfl h.ne_nil
  · exact absurd rfl h.head
  · rfl

lemma pythonLoop_field (h : Opens chars) (args : List PercentValue) :
    pythonLoop texts mapping (rounds + 1) ('%' :: chars) args = do
      let ⟨out, chars, args⟩ ← pythonConversion texts mapping chars args
      return out ++ (← pythonLoop texts mapping rounds chars args) := by
  rw [pythonLoop.eq_def]
  dsimp only
  rw [if_neg fun h => h rfl]
  split
  · exact absurd rfl h.ne_nil
  · exact absurd rfl h.head
  · rfl

lemma regularRun_field (h : Opens chars) (args : List PercentValue) (used : Bool) :
    regularRun texts mapping (rounds + 1) ('%' :: chars) args used =
      (regularConversion mapping chars args used &&
        (formatConversion texts false mapping chars args).toOption.all fun taken =>
          regularRun texts mapping rounds taken.chars taken.args (used || taken.value.1)) := by
  rw [regularRun.eq_def]
  dsimp only
  rw [if_neg fun h => h rfl]
  split
  · exact absurd rfl h.ne_nil
  · exact absurd rfl h.head
  · rfl

lemma conversions_of_no_key (h : scanKey chars = none) (args : List PercentValue) :
    (formatConversion texts runtime mapping chars args).toOption = none ∧
      (pythonConversion texts mapping chars args).toOption = none := by
  have htake := takeKey_scan chars
  rw [h] at htake
  have hformat : (formatConversion texts runtime mapping chars args).toOption = none := by
    rw [formatConversion, Results.toOption_bind, htake]
    rfl
  refine ⟨hformat, ?_⟩
  rw [scanKey.eq_def] at h
  split at h
  · next inside =>
    split at h
    · next hrest =>
      have hclose : ')' ∉ inside := fun hmem => by
        have := List.dropWhile_eq_nil_iff.1 hrest ')' hmem
        simp at this
      have hargs : (pythonArgs mapping ('(' :: inside) args).toOption = none := by
        cases mapping with
        | none => rfl
        | some entries =>
          simp only [pythonArgs, pythonKey_of_not_mem hclose]
          rfl
      rw [pythonConversion, Results.toOption_bind, hargs]
      rfl
    · cases h
  · cases h

/-- What one conversion does in the three: the runtime formatter and Python have no argument left
behind a key, where the first formatter still has its own. -/
structure ConversionsAgree (mapping : Option (List (PercentValue × PercentValue)))
    (chars : List Char) (args : List PercentValue) (used : Bool) : Prop where
  runtime : (formatConversion texts true mapping chars (argsBehind used args)).toOption =
    (formatConversion texts false mapping chars args).toOption.map fun taken =>
      { taken with args := argsBehind (used || taken.value.1) taken.args }
  python : (pythonConversion texts mapping chars (argsBehind used args)).toOption =
    (formatConversion texts false mapping chars args).toOption.map fun taken =>
      ⟨taken.value.2, taken.chars, argsBehind (used || taken.value.1) taken.args⟩

lemma conversionsAgree_unkeyed {args : List PercentValue} {used : Bool}
    (hkey : scanKey chars = some (none, behind))
    (hconversion : ∀ taken, pythonSpec mapping chars (argsBehind used args) = .ok taken →
      taken.value.conversion ≠ '%')
    (hargs : used = true → ∀ taken, takeSpec none behind args = .ok taken → taken.args = []) :
    ConversionsAgree texts mapping chars args used := by
  have hpython := pythonConversion_unkeyed texts false mapping _ hkey hconversion
  cases used with
  | false =>
    simp only [argsBehind, Bool.false_eq_true, if_false] at hpython
    constructor
    · simp only [argsBehind, Bool.false_eq_true, if_false]
      rw [← formatConversion_unkeyed texts mapping args hkey]
      cases hconversion : formatConversion texts false mapping chars args with
      | error error => rfl
      | ok taken =>
        have hvalue := formatConversion_unkeyed_value texts false mapping hkey hconversion
        simp [Except.toOption, hvalue]
    · simp only [argsBehind, Bool.false_eq_true, if_false]
      rw [hpython]
      cases hconversion : formatConversion texts false mapping chars args with
      | error error => rfl
      | ok taken =>
        have hvalue := formatConversion_unkeyed_value texts false mapping hkey hconversion
        simp [Except.toOption, hvalue]
  | true =>
    -- Behind a key there is nothing to take, in any of the three.
    have hfails := formatConversion_of_no_arg texts false mapping hkey (hargs rfl)
    have hnil (runtime : Bool) :
        (formatConversion texts runtime mapping chars []).toOption = none := by
      refine formatConversion_of_no_arg texts runtime mapping hkey fun taken htake => ?_
      obtain ⟨stars, -, htakes⟩ := takeSpec_ok htake
      rw [htakes.later, List.drop_nil]
    simp only [argsBehind, if_true] at hpython
    constructor
    · simp only [argsBehind, if_true]
      rw [hfails, hnil true]
      rfl
    · simp only [argsBehind, if_true]
      rw [hfails, hpython, hnil false]
      rfl

lemma conversionsAgree_keyed {args : List PercentValue} {used : Bool} {key : List Char}
    (hkey : scanKey chars = some (some key, behind)) (hplain : mapping.isNone ∨ '(' ∉ key)
    (hconversion : ∀ taken, pythonSpec mapping chars (argsBehind used args) = .ok taken →
      taken.value.conversion ≠ '%') :
    ConversionsAgree texts mapping chars args used where
  runtime := by
    rw [formatConversion_keyed texts true mapping _ hkey,
      formatConversion_keyed texts false mapping _ hkey]
    cases keyedOutput texts mapping key behind <;> simp [argsBehind]
  python := by
    rw [pythonConversion_keyed texts mapping _ hkey hplain hconversion,
      formatConversion_keyed texts false mapping _ hkey]
    cases keyedOutput texts mapping key behind <;> simp [argsBehind]

/-- On a conversion under the condition the three agree. -/
lemma conversionsAgree {args : List PercentValue} {used : Bool}
    (hregular : regularConversion mapping chars args used = true) :
    ConversionsAgree texts mapping chars args used := by
  rw [regularConversion, Bool.and_eq_true, Bool.and_eq_true] at hregular
  obtain ⟨⟨hinside, hpercent⟩, hbehind⟩ := hregular
  have hconversion : ∀ taken, pythonSpec mapping chars (argsBehind used args) = .ok taken →
      taken.value.conversion ≠ '%' := by
    intro taken htaken
    rw [htaken] at hpercent
    simpa [Except.toOption] using hpercent
  rcases hkey : scanKey chars with _ | ⟨_ | key, behind⟩
  · constructor
    · rw [(conversions_of_no_key texts true hkey _).1, (conversions_of_no_key texts false hkey _).1]
      rfl
    · rw [(conversions_of_no_key texts true hkey _).2, (conversions_of_no_key texts false hkey _).1]
      rfl
  · refine conversionsAgree_unkeyed texts hkey hconversion fun hused taken htake => ?_
    rw [hused, hkey] at hbehind
    simpa [htake, Except.toOption] using hbehind
  · refine conversionsAgree_keyed texts hkey ?_ hconversion
    rw [hkey] at hinside
    simpa using hinside

/-- The three loops from a state of the first formatter. -/
structure LoopsAgree (mapping : Option (List (PercentValue × PercentValue))) (rounds : ℕ)
    (chars : List Char) (args : List PercentValue) (used : Bool) : Prop where
  runtime : (formatLoop texts true mapping rounds chars (argsBehind used args) used).toOption =
    (formatLoop texts false mapping rounds chars args used).toOption
  python : (pythonLoop texts mapping rounds chars (argsBehind used args)).toOption =
    (formatLoop texts false mapping rounds chars args used).toOption

lemma loopsAgree_end {args : List PercentValue} {used : Bool}
    (hused : used = true → mapping.isSome = true)
    (hregular : (mapping.isNone || used || args.isEmpty) = true) :
    LoopsAgree texts mapping rounds [] args used := by
  constructor
  · rw [formatLoop.eq_def, formatLoop.eq_def]
    cases mapping <;> cases used <;> simp_all [argsBehind]
  · rw [formatLoop.eq_def, pythonLoop.eq_def]
    cases mapping <;> cases used <;> simp_all [argsBehind]

/-- Along a run under the condition the first formatter, the runtime formatter and Python agree. -/
lemma loopsAgree {args : List PercentValue} {used : Bool}
    (hused : used = true → mapping.isSome = true)
    (hregular : regularRun texts mapping rounds chars args used = true) :
    LoopsAgree texts mapping rounds chars args used := by
  induction rounds generalizing chars args used with
  | zero =>
    cases chars with
    | nil => exact loopsAgree_end texts hused hregular
    | cons c chars => exact ⟨rfl, rfl⟩
  | succ rounds ih =>
    cases chars with
    | nil => exact loopsAgree_end texts hused hregular
    | cons c chars =>
      rcases template_cases c chars with hc | ⟨rfl, rfl | ⟨rest, rfl⟩ | hopens⟩
      · simp only [regularRun, if_pos hc] at hregular
        have hrest := ih hused hregular
        constructor
        · simp only [formatLoop, if_pos hc, Results.toOption_bind, hrest.runtime]
        · simp only [formatLoop, pythonLoop, if_pos hc, Results.toOption_bind, hrest.python]
      · exact ⟨rfl, rfl⟩
      · simp only [regularRun, ne_eq, not_true_eq_false, if_false] at hregular
        have hrest := ih hused hregular
        constructor
        · simp only [formatLoop, ne_eq, not_true_eq_false, if_false, Results.toOption_bind,
            hrest.runtime]
        · simp only [formatLoop, pythonLoop, ne_eq, not_true_eq_false, if_false,
            Results.toOption_bind, hrest.python]
      · rw [regularRun_field texts hopens, Bool.and_eq_true] at hregular
        obtain ⟨hconversion, hlater⟩ := hregular
        obtain ⟨hruntime, hpython⟩ := conversionsAgree texts hconversion
        -- Where the conversion succeeds, the rest of the template is under the condition.
        cases hformat : formatConversion texts false mapping chars args with
        | error error =>
          rw [hformat] at hruntime hpython
          constructor
          · rw [formatLoop_field texts true hopens, formatLoop_field texts false hopens, hformat,
              Results.toOption_bind, hruntime]
            rfl
          · rw [pythonLoop_field texts hopens, formatLoop_field texts false hopens, hformat,
              Results.toOption_bind, hpython]
            rfl
        | ok taken =>
          rw [hformat] at hruntime hpython hlater
          have hrest : LoopsAgree texts mapping rounds taken.chars taken.args
              (used || taken.value.1) := by
            refine ih (fun hbehind => ?_) (by simpa [Except.toOption] using hlater)
            cases used with
            | true => exact hused rfl
            | false => exact isSome_of_keyed texts false mapping hformat hbehind
          constructor
          · rw [formatLoop_field texts true hopens, formatLoop_field texts false hopens, hformat,
              Results.toOption_bind, hruntime, Results.ok_bind]
            exact Results.toOption_bind_congr hrest.runtime _
          · rw [pythonLoop_field texts hopens, formatLoop_field texts false hopens, hformat,
              Results.toOption_bind, hpython, Results.ok_bind]
            exact Results.toOption_bind_congr hrest.python _

end loops

/-! ## The formatters -/

lemma percentFormat_toOption (texts : PercentTexts) (runtime : Bool) (format : String)
    (right : PercentValue) :
    (percentFormat texts runtime format right).toOption =
      (formatLoop texts runtime (mappingOf right) format.toList.length format.toList
        (percentFormatPositionalArgs right) false).toOption.map String.ofList := by
  rw [percentFormat, Results.toOption_bind]
  cases formatLoop texts runtime (mappingOf right) format.toList.length format.toList
    (percentFormatPositionalArgs right) false <;> rfl

end Pyrs.PercentFormat
