import Pyrs.Model.Desugaring
import Pyrs.Properties.ArgumentBinding

/-!
# Hygiene of the lowered constructs

The calls that the parser makes of displays and literals name their functions, and the names are
looked up where the construct stands.  A construct has the value that Python gives it exactly when
the names still stand for the builtins, and its fields keep to what `parse_fstring_field` can
express.
-/

namespace Pyrs

/-! ## Values -/

/-- A value, as the operation that gives it: two results are the same when the same function was
called with the same arguments. -/
inductive Obj
  /-- What the `builtins` module defines under a name. -/
  | builtin (name : String)
  | object (id : ℕ)
  | constant (value : Constant)
  /-- The value of an expression of another form. -/
  | other (expr : Expr)
  | argument (kind : String) (value : Obj)
  | result (callee : Obj) (args : List Obj)
  | list (items : List Obj)
  | tuple (items : List Obj)
  | sum (left right : Obj)

/-- What the names stand for at a place of the program. -/
abbrev Env := String → Option Obj

namespace Env

def lookup (env : Env) (name : String) : Except String Obj :=
  match env name with
  | some value => .ok value
  | none => .error s!"name '{name}' is not defined"

mutual

def eval (env : Env) : Expr → Except String Obj
  | .name name => env.lookup name
  | .constant value => .ok (.constant value)
  | .binary left .add right => do
    let left ← eval env left
    let right ← eval env right
    pure (.sum left right)
  | .list elements => do pure (.list (← evalList env elements))
  | .tuple elements => do pure (.tuple (← evalList env elements))
  | .call func args => do
    let func ← eval env func
    let args ← evalArgs env args
    pure (.result func args)
  | expr => .ok (.other expr)

def evalList (env : Env) : List Expr → Except String (List Obj)
  | [] => .ok []
  | expr :: exprs => do
    let value ← eval env expr
    let values ← evalList env exprs
    pure (value :: values)

def evalArg (env : Env) : CallArg → Except String Obj
  | .positional value => eval env value
  | .keyword name value => do pure (.argument name (← eval env value))
  | .star value => do pure (.argument "*" (← eval env value))
  | .doubleStar value => do pure (.argument "**" (← eval env value))

def evalArgs (env : Env) : List CallArg → Except String (List Obj)
  | [] => .ok []
  | arg :: args => do
    let value ← evalArg env arg
    let values ← evalArgs env args
    pure (value :: values)

end

end Env

/-! ## What Python computes -/

/-- The values joined by `+`, from the left. -/
def Obj.sums (empty : Obj) : List Obj → Obj
  | [] => empty
  | first :: rest => rest.foldl .sum first

namespace Construct

variable (env : Env)

/-- The elements of a display with a star are collected one after the other. -/
def pythonChunk : SequenceElement Expr → Except String Obj
  | .expr item => do pure (.list [← env.eval item])
  | .star item => do pure (.result (.builtin "list") [← env.eval item])

def pythonList (elements : List (SequenceElement Expr)) : Except String Obj := do
  if hasStar elements then
    let chunks ← elements.mapM (pythonChunk env)
    pure (chunks.foldl .sum (.list []))
  else
    let values ← env.evalList (elements.map SequenceElement.value)
    pure (.list values)

def pythonTuple (elements : List (SequenceElement Expr)) : Except String Obj := do
  if hasStar elements then
    let list ← pythonList env elements
    pure (.result (.builtin "tuple") [list])
  else
    let values ← env.evalList (elements.map SequenceElement.value)
    pure (.tuple values)

/-- The replacement fields of a specifier are formatted too. -/
def pythonSpecPart : FormatSpecPart Expr → Except String Obj
  | .text part => .ok (.constant (.str part))
  | .field _ item => do
    let value ← env.eval item
    pure (.result (.builtin "format") [value, .constant (.str "")])

def pythonSpec (parts : List (FormatSpecPart Expr)) : Except String Obj := do
  if parts.any FormatSpecPart.isField then
    let values ← parts.mapM (pythonSpecPart env)
    pure (Obj.sums (.constant (.str "")) values)
  else pure (.constant (.str (specSource parts)))

/-- Without a conversion and a specifier, `=` shows the `repr`. -/
def pythonConversion (field : FStringField Expr) : Option Char :=
  if field.debug.isSome && field.conversion.isNone && field.formatSpec.isNone then some 'r'
  else field.conversion

def pythonFormatSpec : Option (List (FormatSpecPart Expr)) → Except String Obj
  | none => .ok (.constant (.str ""))
  | some parts => pythonSpec env parts

/-- The value of a field before it is formatted. -/
def convertedValue (value : Obj) : Option Char → Obj
  | none => value
  | some conversion => .result (.builtin (conversionName conversion)) [value]

/-- With `=`, the text of the field stands in front. -/
def shownValue (debug : Option (String × String)) (value : Obj) : Obj :=
  match debug with
  | none => value
  | some (written, _) => .sum (.constant (.str written)) value

def pythonField (field : FStringField Expr) : Except String Obj := do
  let value ← env.eval field.expr
  let spec ← pythonFormatSpec env field.formatSpec
  pure (shownValue field.debug
    (.result (.builtin "format") [convertedValue value (pythonConversion field), spec]))

def pythonPiece : FStringPiece Expr → Except String Obj
  | .text part => .ok (.constant (.str part))
  | .field part => pythonField env part

/-- The value that Python gives a construct. -/
def python : Construct Expr → Except String Obj
  | .set elements => do pure (.result (.builtin "set") [← pythonList env elements])
  | .list elements => pythonList env elements
  | .tuple elements => pythonTuple env elements
  | .bytes content =>
    .ok (.result (.builtin "bytes") [.constant (.str content), .constant (.str "latin-1")])
  | .imaginary bits =>
    .ok (.result (.builtin "complex") [.constant (.int 0), .constant (.float bits)])
  | .ellipsis => .ok (.builtin "Ellipsis")
  | .fstring pieces => do
    let values ← pieces.mapM (pythonPiece env)
    pure (Obj.sums (.constant (.str "")) values)

end Construct

/-! ## When the names are not rebound -/

/-- The text of the field is no expression as a whole, its specifier has no replacement field and no
whitespace at its end, and when it shows its text, it shows it without blanks and says how to show
the value. -/
structure FStringField.Simple {α : Type} (field : FStringField α) : Prop where
  whole : field.whole = none
  spec : ∀ parts ∈ field.formatSpec, ∀ part ∈ parts, part.isField = false
  trimmed : ∀ parts ∈ field.formatSpec,
    String.ofList (TextSplitting.trimEnd (specSource parts).toList) = specSource parts
  debug : ∀ written trimmed, field.debug = some (written, trimmed) →
    written = trimmed ++ "=" ∧ (field.conversion.isSome ∨ field.formatSpec.isSome)

/-- The names stand for the builtins that a construct needs. -/
def Construct.Hygienic {α : Type} (env : Env) (construct : Construct α) : Prop :=
  let Bound name := env name = some (.builtin name)
  match construct with
  | .set elements => Bound "set" ∧ (hasStar elements = true → Bound "list")
  | .list elements => hasStar elements = true → Bound "list"
  | .tuple elements => hasStar elements = true → Bound "list" ∧ Bound "tuple"
  | .bytes _ => Bound "bytes"
  | .imaginary _ => Bound "complex"
  | .ellipsis => Bound "Ellipsis"
  | .fstring pieces => ∀ field, .field field ∈ pieces →
    field.Simple ∧ Bound "format" ∧
      ∀ conversion ∈ field.conversion, Bound (conversionName conversion)

/-! ## Sums -/

section Sums

variable {env : Env}

/-- The expressions of a chain of additions are evaluated from the left. -/
lemma eval_foldl_add (first : Expr) (rest : List Expr) :
    env.eval (rest.foldl (fun expr piece => .binary expr .add piece) first) = (do
      let value ← env.eval first
      let values ← rest.mapM env.eval
      pure (values.foldl .sum value)) := by
  induction rest generalizing first with
  | nil =>
    rw [List.foldl_nil, List.mapM_nil]
    cases env.eval first <;> rfl
  | cons next rest ih =>
    rw [List.foldl_cons, ih, List.mapM_cons]
    change ((do
      let left ← env.eval first
      let right ← env.eval next
      pure (Obj.sum left right)) >>= _) = _
    cases env.eval first with
    | error message => rfl
    | ok left =>
      cases env.eval next with
      | error message => rfl
      | ok right => cases rest.mapM env.eval <;> rfl

lemma foldl_sum_inj {values values' : List Obj} {first first' : Obj}
    (hlength : values.length = values'.length)
    (h : values.foldl Obj.sum first = values'.foldl Obj.sum first') :
    first = first' ∧ values = values' := by
  induction values generalizing values' first first' with
  | nil =>
    obtain rfl := List.length_eq_zero_iff.1 hlength.symm
    exact ⟨h, rfl⟩
  | cons value values ih =>
    obtain ⟨value', values', rfl⟩ := List.exists_cons_of_length_eq_add_one hlength.symm
    have hrest : values.length = values'.length := by simpa using hlength
    rw [List.foldl_cons, List.foldl_cons] at h
    obtain ⟨hsum, rfl⟩ := ih hrest h
    obtain ⟨hfirst, hvalue⟩ := Obj.sum.inj hsum
    exact ⟨hfirst, by rw [hvalue]⟩

lemma foldl_sum_eq_sum (left right : Obj) (values : List Obj) :
    ∃ left' right', values.foldl Obj.sum (.sum left right) = .sum left' right' := by
  induction values generalizing left right with
  | nil => exact ⟨left, right, rfl⟩
  | cons value values ih => exact ih _ _

lemma sums_inj {empty : Obj} {values values' : List Obj}
    (hlength : values.length = values'.length)
    (h : Obj.sums empty values = Obj.sums empty values') : values = values' := by
  cases values with
  | nil => exact (List.length_eq_zero_iff.1 hlength.symm).symm
  | cons value values =>
    obtain ⟨value', values', rfl⟩ := List.exists_cons_of_length_eq_add_one hlength.symm
    obtain ⟨hfirst, hrest⟩ := foldl_sum_inj (by simpa using hlength) h
    rw [hfirst, hrest]

/-- Two functions with the same values on a list agree on its items. -/
lemma eq_of_mapM {α β : Type} {f g : α → Except String β} {items : List α} {values : List β}
    (hf : items.mapM f = .ok values) (hg : items.mapM g = .ok values) :
    ∀ item ∈ items, f item = g item := by
  induction items generalizing values with
  | nil => simp
  | cons item items ih =>
    obtain ⟨value, rest, hvalue, hrest, rfl⟩ := Results.mapM_cons_eq_ok.1 hf
    obtain ⟨value', rest', hvalue', hrest', heq⟩ := Results.mapM_cons_eq_ok.1 hg
    obtain ⟨rfl, rfl⟩ := List.cons.inj heq
    intro other hother
    rcases List.mem_cons.1 hother with rfl | hother
    · rw [hvalue, hvalue']
    · exact ih hrest hrest' other hother

lemma exists_mapM_ok {α β : Type} {f : α → Except String β} {items : List α}
    (h : ∀ item ∈ items, ∃ value, f item = .ok value) : ∃ values, items.mapM f = .ok values := by
  induction items with
  | nil => exact ⟨[], rfl⟩
  | cons item items ih =>
    obtain ⟨value, hvalue⟩ := h item List.mem_cons_self
    obtain ⟨rest, hrest⟩ := ih fun other hother => h other (List.mem_cons_of_mem _ hother)
    exact ⟨value :: rest, Results.mapM_cons_eq_ok.2 ⟨value, rest, hvalue, hrest, rfl⟩⟩

/-- Items whose values have the same combination have the same values. -/
lemma eq_of_combine {α : Type} {f g : α → Except String Obj} {items : List α}
    {combine : List Obj → Obj}
    (hinj : ∀ values values', values.length = values'.length →
      combine values = combine values' → values = values')
    (hg : ∀ item ∈ items, ∃ value, g item = .ok value)
    (h : (items.mapM f).map combine = (items.mapM g).map combine) :
    ∀ item ∈ items, f item = g item := by
  obtain ⟨values, hvalues⟩ := exists_mapM_ok hg
  rw [hvalues] at h
  cases hf : items.mapM f with
  | error message =>
    rw [hf] at h
    cases h
  | ok values' =>
    rw [hf] at h
    have hlength := (Results.length_of_mapM hf).trans (Results.length_of_mapM hvalues).symm
    obtain rfl := hinj _ _ hlength (Except.ok.inj h)
    exact eq_of_mapM hf hvalues

end Sums

/-! ## Displays with a star -/

section Displays

variable {env : Env}

/-- The value of a chunk of a lowered display. -/
def Env.chunk (env : Env) (element : SequenceElement Expr) : Except String Obj :=
  env.eval (match element with
    | .expr item => .list [item]
    | .star item => makeNamedCall "list" [.positional item])

lemma eval_lowerStarredList (elements : List (SequenceElement Expr)) :
    env.eval (lowerStarredList elements) =
      (elements.mapM env.chunk).map fun chunks => chunks.foldl .sum (.list []) := by
  have hfold : lowerStarredList elements = (elements.map fun element =>
      match element with
      | .expr item => Expr.list [item]
      | .star item => makeNamedCall "list" [.positional item]).foldl
        (fun expr piece => .binary expr .add piece) (.list []) := by
    rw [List.foldl_map]
    rfl
  have hmap : (elements.map fun element =>
      match element with
      | .expr item => Expr.list [item]
      | .star item => makeNamedCall "list" [.positional item]).mapM env.eval =
      elements.mapM env.chunk := by
    rw [List.mapM_map]
    rfl
  rw [hfold, eval_foldl_add, hmap]
  cases elements.mapM env.chunk <;> rfl

lemma chunk_star (item : Expr) :
    env.chunk (.star item) = (do
      let func ← env.lookup "list"
      let value ← env.eval item
      pure (.result func [value])) := by
  change (do
    let func ← env.lookup "list"
    let args ← (do
      let value ← env.eval item
      pure [value])
    pure (Obj.result func args)) = _
  cases env.lookup "list" with
  | error message => rfl
  | ok func => cases env.eval item <;> rfl

lemma chunk_expr (item : Expr) :
    env.chunk (.expr item) = Construct.pythonChunk env (.expr item) := by
  change (do
    let values ← (do
      let value ← env.eval item
      pure [value])
    pure (Obj.list values)) = (do
      let value ← env.eval item
      pure (Obj.list [value]))
  cases env.eval item <;> rfl

lemma lookup_eq_ok {name : String} {value : Obj} :
    env.lookup name = .ok value ↔ env name = some value := by
  unfold Env.lookup
  cases env name with
  | none => simp
  | some value' => simp

/-- With `list` bound, the chunks are those of Python. -/
lemma eval_lowerStarredList_of_bound {elements : List (SequenceElement Expr)}
    (hstar : hasStar elements = true) (hlist : env "list" = some (.builtin "list")) :
    env.eval (lowerStarredList elements) = Construct.pythonList env elements := by
  have hchunks : elements.mapM env.chunk = elements.mapM (Construct.pythonChunk env) := by
    refine Results.mapM_congr_of_mem fun element _ => ?_
    cases element with
    | expr item => exact chunk_expr item
    | star item =>
      rw [chunk_star, lookup_eq_ok.2 hlist]
      rfl
  unfold Construct.pythonList
  rw [eval_lowerStarredList, hchunks, if_pos hstar]
  cases elements.mapM (Construct.pythonChunk env) <;> rfl

lemma eval_call_one (name : String) (arg : Expr) :
    env.eval (.call (.name name) [.positional arg]) = (do
      let func ← env.lookup name
      let value ← env.eval arg
      pure (.result func [value])) := by
  change (do
    let func ← env.lookup name
    let args ← (do
      let value ← env.eval arg
      pure [value])
    pure (Obj.result func args)) = _
  cases env.lookup name with
  | error message => rfl
  | ok func => cases env.eval arg <;> rfl

lemma eval_call_two (name : String) (arg : Expr) (constant : Constant) :
    env.eval (.call (.name name) [.positional arg, .positional (.constant constant)]) = (do
      let func ← env.lookup name
      let value ← env.eval arg
      pure (.result func [value, .constant constant])) := by
  change (do
    let func ← env.lookup name
    let args ← (do
      let value ← env.eval arg
      pure [value, .constant constant])
    pure (Obj.result func args)) = _
  cases env.lookup name with
  | error message => rfl
  | ok func => cases env.eval arg <;> rfl

/-- A call that gives what the builtin gives looked the builtin up. -/
lemma bound_of_call {name : String} {outcome : Except String Obj} {value : Obj} {rest : List Obj}
    (h : (do
      let func ← env.lookup name
      let value ← outcome
      pure (Obj.result func (value :: rest))) = .ok (.result (.builtin name) (value :: rest))) :
    env name = some (.builtin name) ∧ outcome = .ok value := by
  obtain ⟨func, hfunc, h⟩ := Results.bind_eq_ok.1 h
  obtain ⟨value', hvalue, h⟩ := Results.bind_eq_ok.1 h
  obtain ⟨rfl, hargs⟩ := Obj.result.inj (Except.ok.inj h)
  obtain ⟨rfl, -⟩ := List.cons.inj hargs
  exact ⟨lookup_eq_ok.1 hfunc, hvalue⟩

section Plain

variable {α : Type}

@[simp]
lemma hasStar_map {β : Type} (f : α → β) (elements : List (SequenceElement α)) :
    hasStar (elements.map (SequenceElement.map f)) = hasStar elements := by
  induction elements with
  | nil => rfl
  | cons element elements ih =>
    have hcons : ∀ {γ : Type} (element : SequenceElement γ) (elements : List (SequenceElement γ)),
        hasStar (element :: elements) = (element.isStar || hasStar elements) := fun _ _ => rfl
    rw [List.map_cons, hcons, hcons, ih]
    cases element <;> rfl

/-- The construct with `None` for all subexpressions. -/
def noneExpr : α → Expr := fun _ => .constant .none

lemma exists_pythonList_ok (elements : List (SequenceElement α)) :
    ∃ value, Construct.pythonList env (elements.map (SequenceElement.map noneExpr)) =
      .ok value := by
  unfold Construct.pythonList
  split_ifs
  · have hchunks : ∃ chunks, (elements.map (SequenceElement.map noneExpr)).mapM
        (Construct.pythonChunk env) = .ok chunks := exists_mapM_ok fun element helement => by
      obtain ⟨element, -, rfl⟩ := List.mem_map.1 helement
      cases element <;> exact ⟨_, rfl⟩
    obtain ⟨chunks, hchunks⟩ := hchunks
    rw [hchunks]
    exact ⟨_, rfl⟩
  · have hvalues : ∀ exprs : List Expr, (∀ expr ∈ exprs, expr = .constant .none) →
        ∃ values, env.evalList exprs = .ok values := by
      intro exprs
      induction exprs with
      | nil => exact fun _ => ⟨[], rfl⟩
      | cons expr exprs ih =>
        intro h
        obtain ⟨values, hvalues⟩ := ih fun other hother => h other (List.mem_cons_of_mem _ hother)
        obtain rfl := h expr List.mem_cons_self
        refine ⟨.constant .none :: values, ?_⟩
        change (do
          let values ← env.evalList exprs
          pure (Obj.constant .none :: values)) = _
        rw [hvalues]
        rfl
    obtain ⟨values, hvalues⟩ := hvalues
      ((elements.map (SequenceElement.map noneExpr)).map SequenceElement.value) fun expr hexpr => by
        simp only [List.mem_map] at hexpr
        obtain ⟨_, ⟨element, -, rfl⟩, rfl⟩ := hexpr
        cases element <;> rfl
    rw [hvalues]
    exact ⟨_, rfl⟩

/-- A display with a star that has its value looked `list` up. -/
lemma list_bound {elements : List (SequenceElement α)} (hstar : hasStar elements = true)
    (h : env.eval (lowerStarredList (elements.map (SequenceElement.map noneExpr))) =
      Construct.pythonList env (elements.map (SequenceElement.map noneExpr))) :
    env "list" = some (.builtin "list") := by
  have hpython : Construct.pythonList env (elements.map (SequenceElement.map noneExpr)) =
      ((elements.map (SequenceElement.map noneExpr)).mapM (Construct.pythonChunk env)).map
        fun chunks => chunks.foldl .sum (.list []) := by
    unfold Construct.pythonList
    rw [if_pos (by rw [hasStar_map, hstar])]
    cases (elements.map (SequenceElement.map noneExpr)).mapM (Construct.pythonChunk env) <;> rfl
  rw [eval_lowerStarredList, hpython] at h
  have hchunks := eq_of_combine (fun _ _ hlength heq => (foldl_sum_inj hlength heq).2)
    (fun element helement => by
      obtain ⟨element, -, rfl⟩ := List.mem_map.1 helement
      cases element <;> exact ⟨_, rfl⟩) h
  obtain ⟨element, hmem, hisStar⟩ := List.any_eq_true.1 hstar
  have hchunk := hchunks _ (List.mem_map_of_mem hmem)
  cases element with
  | expr item => cases hisStar
  | star item =>
    have hcall : (do
        let func ← env.lookup "list"
        let value ← env.eval (.constant .none)
        pure (Obj.result func [value])) = .ok (.result (.builtin "list") [.constant .none]) :=
      (chunk_star _).symm.trans hchunk
    exact (bound_of_call hcall).1

/-! ## F-strings -/

lemma eval_wrapFstringValue (expr : Expr) (conversion : Option Char) :
    env.eval (wrapFstringValue expr conversion) =
      match conversion with
      | none => env.eval expr
      | some conversion => (do
        let func ← env.lookup (conversionName conversion)
        let value ← env.eval expr
        pure (.result func [value])) := by
  cases conversion with
  | none => rfl
  | some conversion => exact eval_call_one _ _

/-- Without the text of the field. -/
def fieldValue (env : Env) (field : FStringField Expr) : Except String Obj := do
  let func ← env.lookup "format"
  let value ← env.eval (wrapFstringValue field.expr field.conversion)
  pure (.result func [value, .constant (.str field.specText)])

lemma eval_lowerFstringField {field : FStringField Expr} (hwhole : field.whole = none) :
    env.eval (lowerFstringField field) =
      match field.debug with
      | none => fieldValue env field
      | some (_, trimmed) =>
        (fieldValue env field).map (.sum (.constant (.str (trimmed ++ "=")))) := by
  have hvalue : env.eval (wrapFstringFormat (wrapFstringValue field.expr field.conversion)
      field.specText) = fieldValue env field := eval_call_two _ _ _
  unfold lowerFstringField
  rw [hwhole]
  dsimp only
  cases field.debug with
  | none => exact hvalue
  | some debug =>
    dsimp only
    change (do
      let left ← Except.ok (Obj.constant (.str (debug.2 ++ "=")))
      let right ← env.eval (wrapFstringFormat _ _)
      pure (Obj.sum left right)) = _
    rw [hvalue]
    cases fieldValue env field <;> rfl

/-- A simple field has its value when the names are bound. -/
lemma eval_lowerFstringField_of_bound {field : FStringField Expr} (hsimple : field.Simple)
    (hformat : env "format" = some (.builtin "format"))
    (hconversion : ∀ conversion ∈ field.conversion,
      env (conversionName conversion) = some (.builtin (conversionName conversion))) :
    env.eval (lowerFstringField field) = Construct.pythonField env field := by
  have hpython : Construct.pythonConversion field = field.conversion := by
    unfold Construct.pythonConversion
    rw [if_neg]
    simp only [Bool.and_eq_true, Option.isSome_iff_exists, Option.isNone_iff_eq_none, Prod.exists]
    rintro ⟨⟨⟨written, trimmed, hdebug⟩, hnone⟩, hnoSpec⟩
    rcases (hsimple.debug written trimmed hdebug).2 with h | h
    · rw [hnone] at h
      cases h
    · rw [hnoSpec] at h
      cases h
  have hspec : Construct.pythonFormatSpec env field.formatSpec =
      .ok (.constant (.str field.specText)) := by
    unfold FStringField.specText
    cases hparts : field.formatSpec with
    | none => rfl
    | some parts =>
      have hany : parts.any FormatSpecPart.isField = false :=
        List.any_eq_false.2 fun part hpart => by simp [hsimple.spec parts hparts part hpart]
      change (if parts.any FormatSpecPart.isField = true then _ else _) = _
      rw [hany, Option.map_some, Option.getD_some, hsimple.trimmed parts hparts]
      rfl
  have hvalue : env.eval (wrapFstringValue field.expr field.conversion) =
      (env.eval field.expr).map fun value => Construct.convertedValue value field.conversion := by
    rw [eval_wrapFstringValue]
    cases hconv : field.conversion with
    | none => cases env.eval field.expr <;> rfl
    | some conversion =>
      dsimp only
      rw [lookup_eq_ok.2 (hconversion conversion hconv)]
      cases env.eval field.expr <;> rfl
  rw [eval_lowerFstringField hsimple.whole]
  unfold fieldValue Construct.pythonField
  rw [lookup_eq_ok.2 hformat, hvalue, hspec, hpython]
  cases hdebug : field.debug with
  | none => cases env.eval field.expr <;> rfl
  | some debug =>
    have htext := (hsimple.debug debug.1 debug.2 hdebug).1
    unfold Construct.shownValue
    dsimp only
    rw [htext]
    cases env.eval field.expr <;> rfl

/-- A specifier with a replacement field is not the text of the specifier. -/
lemma exists_pythonFormatSpec (formatSpec : Option (List (FormatSpecPart α))) :
    ∃ spec, Construct.pythonFormatSpec env
        (formatSpec.map (List.map (FormatSpecPart.map noneExpr))) = .ok spec ∧
      ∀ text, spec = .constant (.str text) → ∀ parts ∈ formatSpec,
        (∀ part ∈ parts, part.isField = false) ∧ text = specSource parts := by
  cases formatSpec with
  | none => exact ⟨_, rfl, fun _ _ _ h => by cases h⟩
  | some parts =>
    have hisField : ∀ part : FormatSpecPart α, (part.map noneExpr).isField = part.isField :=
      fun part => by cases part <;> rfl
    have hany : (parts.map (FormatSpecPart.map noneExpr)).any FormatSpecPart.isField =
        parts.any FormatSpecPart.isField := by
      rw [List.any_map]
      exact congrArg parts.any (funext hisField)
    change ∃ spec, (if (parts.map (FormatSpecPart.map noneExpr)).any FormatSpecPart.isField = true
      then _ else _) = _ ∧ _
    rw [hany]
    split_ifs with hfield
    · have hvalues : ∃ values, (parts.map (FormatSpecPart.map noneExpr)).mapM
          (Construct.pythonSpecPart env) = .ok values := exists_mapM_ok fun part hpart => by
        obtain ⟨part, -, rfl⟩ := List.mem_map.1 hpart
        cases part <;> exact ⟨_, rfl⟩
      obtain ⟨values, hvalues⟩ := hvalues
      refine ⟨Obj.sums (.constant (.str "")) values, by rw [hvalues]; rfl, ?_⟩
      intro text hconstant
      exfalso
      obtain ⟨part, hpart, hpartField⟩ := List.any_eq_true.1 hfield
      rcases parts with _ | ⟨first, _ | ⟨second, rest⟩⟩
      · cases hpart
      · obtain rfl := List.mem_singleton.1 hpart
        obtain ⟨value, _, hvalue, hnil, rfl⟩ := Results.mapM_cons_eq_ok.1 hvalues
        obtain rfl := Except.ok.inj hnil
        cases part with
        | text part => cases hpartField
        | field written item =>
          obtain rfl := Except.ok.inj hvalue
          cases hconstant
      · obtain ⟨value, _, -, hrest, rfl⟩ := Results.mapM_cons_eq_ok.1 hvalues
        obtain ⟨value', rest', -, -, rfl⟩ := Results.mapM_cons_eq_ok.1 hrest
        obtain ⟨left, right, hsum⟩ := foldl_sum_eq_sum value value' rest'
        cases hsum.symm.trans hconstant
    · refine ⟨_, rfl, fun text htext parts' hparts => ?_⟩
      obtain rfl := Option.some.inj hparts
      refine ⟨fun part hpart => ?_, ?_⟩
      · simpa using (List.any_eq_false.1 (Bool.eq_false_iff.2 hfield)) part hpart
      · rw [← Constant.str.inj (Obj.constant.inj htext), specSource_map]

lemma pythonConversion_map (field : FStringField α) :
    Construct.pythonConversion (field.map noneExpr) =
      if field.debug.isSome && field.conversion.isNone && field.formatSpec.isNone then some 'r'
      else field.conversion := by
  change (if field.debug.isSome && field.conversion.isNone &&
    (field.formatSpec.map (List.map (FormatSpecPart.map noneExpr))).isNone then some 'r'
    else field.conversion) = _
  rw [Option.isNone_map]

lemma specText_map {field : FStringField α} {parts : List (FormatSpecPart α)}
    (hparts : parts ∈ field.formatSpec) :
    (field.map noneExpr).specText =
      String.ofList (TextSplitting.trimEnd (specSource parts).toList) := by
  change ((field.formatSpec.map (List.map (FormatSpecPart.map noneExpr))).map fun parts =>
    String.ofList (TextSplitting.trimEnd (specSource parts).toList)).getD "" = _
  rw [Option.mem_def.1 hparts, Option.map_some, Option.map_some, Option.getD_some, specSource_map]

/-- What a field needs for its value, over plain subexpressions. -/
lemma of_fieldValue {field : FStringField α} {spec : Obj}
    (hspec : ∀ text, spec = .constant (.str text) → ∀ parts ∈ field.formatSpec,
      (∀ part ∈ parts, part.isField = false) ∧ text = specSource parts)
    (h : fieldValue env (field.map noneExpr) = .ok (.result (.builtin "format")
      [Construct.convertedValue (.constant .none)
        (Construct.pythonConversion (field.map noneExpr)), spec])) :
    (∀ parts ∈ field.formatSpec, (∀ part ∈ parts, part.isField = false) ∧
        String.ofList (TextSplitting.trimEnd (specSource parts).toList) = specSource parts) ∧
      (field.debug.isSome → field.conversion.isSome ∨ field.formatSpec.isSome) ∧
      env "format" = some (.builtin "format") ∧ ∀ conversion ∈ field.conversion,
        env (conversionName conversion) = some (.builtin (conversionName conversion)) := by
  obtain ⟨func, hfunc, h⟩ := Results.bind_eq_ok.1 h
  obtain ⟨value, hvalue, h⟩ := Results.bind_eq_ok.1 h
  obtain ⟨rfl, hargs⟩ := Obj.result.inj (Except.ok.inj h)
  obtain ⟨rfl, hrest⟩ := List.cons.inj hargs
  obtain ⟨hconstant, -⟩ := List.cons.inj hrest
  refine ⟨fun parts hparts => ?_, fun hdebug => ?_, lookup_eq_ok.1 hfunc,
    fun conversion hconversion => ?_⟩
  · obtain ⟨hfields, htext⟩ := hspec _ hconstant.symm parts hparts
    exact ⟨hfields, (specText_map hparts).symm.trans htext⟩
  · by_contra hneither
    rw [not_or, Bool.not_eq_true, Bool.not_eq_true, Option.isSome_eq_false_iff,
      Option.isSome_eq_false_iff] at hneither
    obtain ⟨hconversion, hformatSpec⟩ := hneither
    have hpython : Construct.pythonConversion (field.map noneExpr) = some 'r' := by
      rw [pythonConversion_map, hdebug, hconversion, hformatSpec]
      rfl
    rw [hpython, eval_wrapFstringValue] at hvalue
    change (match field.conversion with
      | none => _
      | some conversion => _) = _ at hvalue
    rw [Option.isNone_iff_eq_none.1 hconversion] at hvalue
    cases Except.ok.inj hvalue
  · have hpython : Construct.pythonConversion (field.map noneExpr) = some conversion := by
      rw [pythonConversion_map, Option.mem_def.1 hconversion, Option.isNone_some, Bool.and_false,
        Bool.false_and, if_neg Bool.false_ne_true]
    rw [hpython, eval_wrapFstringValue] at hvalue
    change (match field.conversion with
      | none => _
      | some conversion => _) = _ at hvalue
    have hsome : field.conversion = some conversion := hconversion
    rw [hsome] at hvalue
    exact (bound_of_call hvalue).1

/-- A field that has its value is simple, and looked the builtins up. -/
lemma simple_of_eq {field : FStringField α}
    (h : env.eval (lowerFstringField (field.map noneExpr)) =
      Construct.pythonField env (field.map noneExpr)) :
    field.Simple ∧ env "format" = some (.builtin "format") ∧ ∀ conversion ∈ field.conversion,
      env (conversionName conversion) = some (.builtin (conversionName conversion)) := by
  obtain ⟨spec, hspec, htext⟩ := exists_pythonFormatSpec field.formatSpec
  have hpython : Construct.pythonField env (field.map noneExpr) =
      .ok (Construct.shownValue field.debug (.result (.builtin "format")
        [Construct.convertedValue (.constant .none)
          (Construct.pythonConversion (field.map noneExpr)), spec])) := by
    unfold Construct.pythonField
    change (do
      let spec ← Construct.pythonFormatSpec env
        (field.formatSpec.map (List.map (FormatSpecPart.map noneExpr)))
      pure (Construct.shownValue field.debug (.result (.builtin "format")
        [Construct.convertedValue (.constant .none)
          (Construct.pythonConversion (field.map noneExpr)), spec]))) = _
    rw [hspec]
    rfl
  have hwhole : field.whole = none := by
    by_contra hsome
    obtain ⟨expr, hexpr⟩ := Option.ne_none_iff_exists'.1 hsome
    have hlower : lowerFstringField (field.map noneExpr) =
        wrapFstringFormat (.constant .none) "" := by
      unfold lowerFstringField
      rw [show (field.map noneExpr).whole = field.whole.map noneExpr from rfl, hexpr]
      rfl
    rw [hpython, hlower] at h
    unfold wrapFstringFormat at h
    rw [eval_call_two] at h
    obtain ⟨func, -, h⟩ := Results.bind_eq_ok.1 h
    obtain ⟨value, hvalue, h⟩ := Results.bind_eq_ok.1 h
    obtain rfl := Except.ok.inj hvalue
    -- One of the parts of the field shows in the value of Python.
    cases hdebug : field.debug with
    | some debug =>
      rw [hdebug] at h
      cases Except.ok.inj h
    | none =>
      rw [hdebug] at h
      obtain ⟨-, hargs⟩ := Obj.result.inj (Except.ok.inj h)
      obtain ⟨hconverted, hrest⟩ := List.cons.inj hargs
      obtain ⟨hempty, -⟩ := List.cons.inj hrest
      have hconversion : Construct.pythonConversion (field.map noneExpr) = field.conversion := by
        rw [pythonConversion_map, hdebug]
        rfl
      rw [hconversion] at hconverted
      cases hconv : field.conversion with
      | some conversion =>
        rw [hconv] at hconverted
        cases hconverted
      | none =>
        rcases field.whole_parts (by rw [hexpr]; rfl) with hparts | hparts | ⟨parts, hparts, hne⟩
        · rw [hdebug] at hparts
          cases hparts
        · rw [hconv] at hparts
          cases hparts
        · exact hne (htext "" hempty.symm parts hparts).2.symm
  have hwhole' : (field.map noneExpr).whole = none := by
    rw [show (field.map noneExpr).whole = field.whole.map noneExpr from rfl, hwhole]
    rfl
  rw [hpython, eval_lowerFstringField hwhole'] at h
  change (match field.debug with
    | none => fieldValue env (field.map noneExpr)
    | some (_, trimmed) => _) = _ at h
  cases hdebug : field.debug with
  | none =>
    rw [hdebug] at h
    obtain ⟨hparts, -, hbound⟩ := of_fieldValue htext h
    exact ⟨⟨hwhole, fun parts h => (hparts parts h).1, fun parts h => (hparts parts h).2,
      fun written trimmed hsome => by rw [hdebug] at hsome; cases hsome⟩, hbound⟩
  | some debug =>
    rw [hdebug] at h
    cases hvalue : fieldValue env (field.map noneExpr) with
    | error message =>
      rw [hvalue] at h
      cases h
    | ok value =>
      rw [hvalue] at h
      obtain ⟨hwritten, rfl⟩ := Obj.sum.inj (Except.ok.inj h)
      obtain ⟨hparts, hshown, hbound⟩ := of_fieldValue htext hvalue
      refine ⟨⟨hwhole, fun parts h => (hparts parts h).1, fun parts h => (hparts parts h).2,
        fun written trimmed hsome => ?_⟩, hbound⟩
      obtain rfl := Option.some.inj (hdebug.symm.trans hsome)
      exact ⟨(Constant.str.inj (Obj.constant.inj hwritten)).symm, hshown (by rw [hdebug]; rfl)⟩

lemma eval_lowerFstring (pieces : List (FStringPiece Expr)) :
    env.eval (lowerFstring pieces) =
      (pieces.mapM fun piece => env.eval (lowerFstringPiece piece)).map
        (Obj.sums (.constant (.str ""))) := by
  unfold lowerFstring
  cases pieces with
  | nil => rfl
  | cons first rest =>
    rw [List.map_cons, List.mapM_cons]
    dsimp only
    rw [eval_foldl_add, List.mapM_map]
    cases env.eval (lowerFstringPiece first) with
    | error message => rfl
    | ok value =>
      change (do
        let values ← rest.mapM fun piece => env.eval (lowerFstringPiece piece)
        pure (values.foldl Obj.sum value)) = ((do
        let values ← rest.mapM fun piece => env.eval (lowerFstringPiece piece)
        pure (value :: values)) : Except String (List Obj)).map _
      cases rest.mapM fun piece => env.eval (lowerFstringPiece piece) <;> rfl

lemma exists_pythonPiece_ok (piece : FStringPiece α) :
    ∃ value, Construct.pythonPiece env (piece.map noneExpr) = .ok value := by
  cases piece with
  | text part => exact ⟨_, rfl⟩
  | field part =>
    obtain ⟨spec, hspec, -⟩ : ∃ spec, Construct.pythonFormatSpec env
        (part.formatSpec.map (List.map (FormatSpecPart.map noneExpr))) = .ok spec ∧ _ :=
      exists_pythonFormatSpec part.formatSpec
    refine ⟨Construct.shownValue part.debug (.result (.builtin "format")
      [Construct.convertedValue (.constant .none)
        (Construct.pythonConversion (part.map noneExpr)), spec]), ?_⟩
    change (do
      let spec ← Construct.pythonFormatSpec env
        (part.formatSpec.map (List.map (FormatSpecPart.map noneExpr)))
      pure (Construct.shownValue part.debug (.result (.builtin "format")
        [Construct.convertedValue (.constant .none)
          (Construct.pythonConversion (part.map noneExpr)), spec]))) = _
    rw [hspec]
    rfl

/-! ## The constructs -/

lemma FStringField.simple_map {β : Type} (f : α → β) (field : FStringField α) :
    (field.map f).Simple ↔ field.Simple := by
  have hisField : ∀ part : FormatSpecPart α, (part.map f).isField = part.isField :=
    fun part => by cases part <;> rfl
  constructor
  · rintro ⟨hwhole, hspec, htrimmed, hdebug⟩
    refine ⟨Option.map_eq_none_iff.1 hwhole, fun parts hparts part hpart => ?_,
      fun parts hparts => ?_, fun written trimmed h => ?_⟩
    · have hmap := hspec (parts.map (FormatSpecPart.map f)) (Option.mem_map_of_mem _ hparts) _
        (List.mem_map_of_mem hpart)
      rwa [hisField] at hmap
    · have hmap := htrimmed (parts.map (FormatSpecPart.map f)) (Option.mem_map_of_mem _ hparts)
      rwa [specSource_map] at hmap
    · obtain ⟨htext, hshown⟩ := hdebug written trimmed h
      exact ⟨htext, hshown.imp_right fun h => Option.isSome_map.symm.trans h⟩
  · rintro ⟨hwhole, hspec, htrimmed, hdebug⟩
    refine ⟨Option.map_eq_none_iff.2 hwhole, fun parts hparts part hpart => ?_,
      fun parts hparts => ?_, fun written trimmed h => ?_⟩
    · obtain ⟨written', hwritten, rfl⟩ := Option.map_eq_some_iff.1 hparts
      obtain ⟨part, hmem, rfl⟩ := List.mem_map.1 hpart
      rw [hisField]
      exact hspec written' hwritten part hmem
    · obtain ⟨written', hwritten, rfl⟩ := Option.map_eq_some_iff.1 hparts
      rw [specSource_map]
      exact htrimmed written' hwritten
    · obtain ⟨htext, hshown⟩ := hdebug written trimmed h
      exact ⟨htext, hshown.imp_right fun h => Option.isSome_map.trans h⟩

lemma Construct.hygienic_map {β : Type} (f : α → β) (construct : Construct α) :
    (construct.map f).Hygienic env ↔ construct.Hygienic env := by
  cases construct with
  | set elements =>
    change (_ ∧ (hasStar (elements.map (SequenceElement.map f)) = true → _)) ↔
      (_ ∧ (hasStar elements = true → _))
    rw [hasStar_map]
  | list elements =>
    change (hasStar (elements.map (SequenceElement.map f)) = true → _) ↔
      (hasStar elements = true → _)
    rw [hasStar_map]
  | tuple elements =>
    change (hasStar (elements.map (SequenceElement.map f)) = true → _) ↔
      (hasStar elements = true → _)
    rw [hasStar_map]
  | bytes content => rfl
  | imaginary bits => rfl
  | ellipsis => rfl
  | fstring pieces =>
    unfold Construct.map Hygienic
    dsimp only
    constructor
    · intro h field hfield
      obtain ⟨hsimple, hbound⟩ := h (field.map f) (List.mem_map_of_mem hfield)
      exact ⟨(FStringField.simple_map f field).1 hsimple, hbound⟩
    · intro h field hfield
      obtain ⟨piece, hpiece, heq⟩ := List.mem_map.1 hfield
      cases piece with
      | text part => cases heq
      | field part =>
        obtain rfl := FStringPiece.field.inj heq
        obtain ⟨hsimple, hbound⟩ := h part hpiece
        exact ⟨(FStringField.simple_map f part).2 hsimple, hbound⟩

/-- With its names bound to the builtins, a lowered construct has the value of Python. -/
lemma Construct.eval_lower_of_hygienic {construct : Construct Expr}
    (h : construct.Hygienic env) : env.eval construct.lower = construct.python env := by
  cases construct with
  | set elements =>
    obtain ⟨hset, hlist⟩ := h
    have hvalue : ∀ iterable, env.eval (makeSetCall iterable) =
        (env.eval iterable).map fun value => .result (.builtin "set") [value] := fun iterable => by
      unfold makeSetCall
      rw [eval_call_one, lookup_eq_ok.2 hset]
      cases env.eval iterable <;> rfl
    unfold lower python
    dsimp only
    split_ifs with hstar
    · unfold lowerStarredSet
      rw [hvalue, eval_lowerStarredList_of_bound hstar (hlist hstar)]
      cases pythonList env elements <;> rfl
    · unfold pythonList
      rw [hvalue, if_neg hstar]
      change (do
        let values ← env.evalList (elements.map SequenceElement.value)
        pure (Obj.list values) : Except String Obj).map _ = _
      cases env.evalList (elements.map SequenceElement.value) <;> rfl
  | list elements =>
    unfold lower python
    dsimp only
    split_ifs with hstar
    · exact eval_lowerStarredList_of_bound hstar (h hstar)
    · unfold pythonList
      rw [if_neg hstar]
      rfl
  | tuple elements =>
    unfold lower python pythonTuple
    dsimp only
    split_ifs with hstar
    · obtain ⟨hlist, htuple⟩ := h hstar
      unfold lowerStarredTuple makeNamedCall
      rw [eval_call_one, lookup_eq_ok.2 htuple, eval_lowerStarredList_of_bound hstar hlist]
      rfl
    · rfl
  | bytes content =>
    unfold lower makeBytesLiteralExpr
    rw [eval_call_two, lookup_eq_ok.2 h]
    rfl
  | imaginary bits =>
    unfold lower makeImagLiteralExpr
    rw [eval_call_two, lookup_eq_ok.2 h]
    rfl
  | ellipsis => exact lookup_eq_ok.2 h
  | fstring pieces =>
    unfold lower python
    dsimp only
    rw [eval_lowerFstring]
    have hpieces : (pieces.mapM fun piece => env.eval (lowerFstringPiece piece)) =
        pieces.mapM (pythonPiece env) := by
      refine Results.mapM_congr_of_mem fun piece hpiece => ?_
      cases piece with
      | text part => rfl
      | field part =>
        obtain ⟨hsimple, hformat, hconversion⟩ := h part hpiece
        exact eval_lowerFstringField_of_bound hsimple hformat hconversion
    rw [hpieces]
    cases pieces.mapM (pythonPiece env) <;> rfl

/-- A construct that has its value over plain subexpressions looked the builtins up. -/
lemma Construct.hygienic_of_eval_lower {construct : Construct α}
    (h : env.eval (construct.map noneExpr).lower = (construct.map noneExpr).python env) :
    construct.Hygienic env := by
  cases construct with
  | set elements =>
    obtain ⟨value, hvalue⟩ : ∃ value, pythonList env
        (elements.map (SequenceElement.map noneExpr)) = .ok value := exists_pythonList_ok elements
    unfold Construct.map lower python at h
    dsimp only at h
    rw [hasStar_map, hvalue] at h
    split_ifs at h with hstar
    · unfold lowerStarredSet makeSetCall at h
      rw [eval_call_one] at h
      obtain ⟨hset, hlist⟩ := bound_of_call h
      exact ⟨hset, fun _ => list_bound hstar (hlist.trans hvalue.symm)⟩
    · unfold makeSetCall at h
      rw [eval_call_one] at h
      exact ⟨(bound_of_call h).1, fun htrue => absurd htrue hstar⟩
  | list elements =>
    intro hstar
    unfold Construct.map lower python at h
    dsimp only at h
    rw [hasStar_map, if_pos hstar] at h
    exact list_bound hstar h
  | tuple elements =>
    intro hstar
    obtain ⟨value, hvalue⟩ : ∃ value, pythonList env
        (elements.map (SequenceElement.map noneExpr)) = .ok value := exists_pythonList_ok elements
    unfold Construct.map lower python pythonTuple at h
    dsimp only at h
    rw [hasStar_map, if_pos hstar, if_pos hstar, hvalue] at h
    unfold lowerStarredTuple makeNamedCall at h
    rw [eval_call_one] at h
    obtain ⟨htuple, hlist⟩ := bound_of_call h
    exact ⟨list_bound hstar (hlist.trans hvalue.symm), htuple⟩
  | bytes content =>
    unfold Construct.map lower python makeBytesLiteralExpr at h
    dsimp only at h
    rw [eval_call_two] at h
    exact (bound_of_call h).1
  | imaginary bits =>
    unfold Construct.map lower python makeImagLiteralExpr at h
    dsimp only at h
    rw [eval_call_two] at h
    exact (bound_of_call h).1
  | ellipsis => exact lookup_eq_ok.1 h
  | fstring pieces =>
    intro field hfield
    have hpieces : ((pieces.map (FStringPiece.map noneExpr)).mapM fun piece =>
        env.eval (lowerFstringPiece piece)).map (Obj.sums (.constant (.str ""))) =
        ((pieces.map (FStringPiece.map noneExpr)).mapM (pythonPiece env)).map
          (Obj.sums (.constant (.str ""))) := by
      rw [← eval_lowerFstring]
      refine h.trans ?_
      unfold Construct.map python
      dsimp only
      cases (pieces.map (FStringPiece.map noneExpr)).mapM (pythonPiece env) <;> rfl
    have heq := eq_of_combine (fun _ _ => sums_inj) (fun piece hpiece => by
      obtain ⟨piece, -, rfl⟩ := List.mem_map.1 hpiece
      exact exists_pythonPiece_ok piece) hpieces
    exact simple_of_eq (heq _ (List.mem_map_of_mem hfield))

end Plain

end Displays

/-- In `def f(set): return {1}`, called with `len`. -/
def shadowedEnv : Env := fun name =>
  if name = "set" then some (.builtin "len") else some (.builtin name)

end Pyrs
