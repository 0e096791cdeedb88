import Pyrs.Library.BalancedBrackets
import Pyrs.Library.Results
import Pyrs.Model.TemplateLiterals

/-!
# Segments of templates

Where f-strings and template strings are cut.  The fields of an f-string end outside of strings,
comments and brackets, those of a template where the braces are balanced.  Both cut a literal in the
same way exactly if every field has balanced braces, also in its strings and comments, or if neither
finds a way to cut it.
-/

namespace Pyrs.TemplateLiterals

open Brackets

/-! ## Ends of fields -/

lemma fieldEndFrom_split {skip : ℕ} {scan : FieldScan} {chars text rest : List Char}
    (h : fieldEndFrom skip scan chars = some (text, rest)) : chars = text ++ '}' :: rest := by
  induction chars generalizing skip scan text rest with
  | nil => cases skip <;> cases h
  | cons ch chars ih =>
    have hmap {skip : ℕ} {scan : FieldScan} (h : (fieldEndFrom skip scan chars).map
        (fun read => (ch :: read.1, read.2)) = some (text, rest)) :
        ch :: chars = text ++ '}' :: rest := by
      obtain ⟨⟨inside, behind⟩, hread, h⟩ := Option.map_eq_some_iff.1 h
      obtain ⟨rfl, rfl⟩ := Prod.mk.inj h
      exact congrArg (ch :: ·) (ih hread)
    cases skip with
    | succ skip => exact hmap h
    | zero =>
      rw [fieldEndFrom] at h
      split_ifs at h with hend
      · obtain ⟨rfl, rfl⟩ := Prod.mk.inj (Option.some.inj h)
        have hbrace : ch = '}' := by
          rw [FieldScan.endsAt] at hend
          simp only [Bool.and_eq_true, beq_iff_eq] at hend
          exact hend.1.2
        rw [hbrace]
        rfl
      · exact hmap h

/-- A field of a template is what closes the brace in front of it. -/
lemma templateFieldEnd_eq_some {depth : ℕ} (hdepth : 0 < depth) {chars text rest : List Char} :
    templateFieldEnd depth chars = some (text, rest) ↔
      chars = text ++ '}' :: rest ∧ Brackets.Closes '{' '}' depth text := by
  induction chars generalizing depth text rest with
  | nil => simp [templateFieldEnd]
  | cons ch chars ih =>
    have hstep {later : ℕ} (hlater : 0 < later) (hnil : ¬ (ch = '}' ∧ depth = 1))
        (hcloses : ∀ inside,
          Brackets.Closes '{' '}' depth (ch :: inside) ↔ Brackets.Closes '{' '}' later inside) :
        (templateFieldEnd later chars).map (fun read => (ch :: read.1, read.2)) =
          some (text, rest) ↔ ch :: chars = text ++ '}' :: rest ∧
            Brackets.Closes '{' '}' depth text := by
      constructor
      · intro h
        obtain ⟨⟨inside, behind⟩, hread, h⟩ := Option.map_eq_some_iff.1 h
        obtain ⟨rfl, rfl⟩ := Prod.mk.inj h
        obtain ⟨rfl, hinside⟩ := (ih hlater).1 hread
        exact ⟨rfl, (hcloses inside).2 hinside⟩
      · rintro ⟨hsplit, htext⟩
        cases text with
        | nil => exact absurd ⟨(List.cons.inj hsplit).1, closes_nil.1 htext⟩ hnil
        | cons first inside =>
          obtain ⟨rfl, rfl⟩ := List.cons.inj hsplit
          rw [(ih hlater).2 ⟨rfl, (hcloses inside).1 htext⟩]
          rfl
    rw [templateFieldEnd]
    by_cases hopen : ch = '{'
    · subst hopen
      rw [if_pos rfl]
      exact hstep (Nat.succ_pos depth) (by simp) fun _ => closes_opening (by decide) hdepth
    · rw [if_neg hopen]
      by_cases hclose : ch = '}'
      · subst hclose
        rw [if_pos rfl]
        obtain ⟨depth, rfl⟩ := Nat.exists_eq_succ_of_ne_zero hdepth.ne'
        rw [Nat.succ_sub_one]
        rcases Nat.eq_zero_or_pos depth with rfl | hpos
        -- The brace in front of the field is closed.
        · rw [if_pos rfl]
          constructor
          · intro h
            obtain ⟨rfl, rfl⟩ := Prod.mk.inj (Option.some.inj h)
            exact ⟨rfl, closes_nil.2 rfl⟩
          · rintro ⟨hsplit, hcloses⟩
            cases text with
            | nil =>
              obtain ⟨-, rfl⟩ := List.cons.inj hsplit
              rfl
            | cons first inside =>
              obtain ⟨rfl, rfl⟩ := List.cons.inj hsplit
              exact absurd hcloses (not_closes_closing (by decide))
        · rw [if_neg hpos.ne']
          exact hstep hpos (fun h => hpos.ne' (Nat.succ.inj h.2)) fun _ =>
            closes_closing (by decide)
      · rw [if_neg hclose]
        exact hstep hdepth (fun h => hclose h.1) fun _ => closes_other hopen hclose

/-! ## Cut literals -/

/-- A literal of plain characters, doubled braces and fields. -/
inductive Segmented (IsField : List Char → List Char → Prop) : List Char → Prop
  | nil : Segmented IsField []
  | plain {ch : Char} {rest : List Char} (hopen : ch ≠ '{') (hclose : ch ≠ '}')
      (hrest : Segmented IsField rest) : Segmented IsField (ch :: rest)
  | doubled {brace : Char} {rest : List Char} (hbrace : brace = '{' ∨ brace = '}')
      (hrest : Segmented IsField rest) : Segmented IsField (brace :: brace :: rest)
  | field {text rest : List Char} (hopen : text.head? ≠ some '{') (htext : IsField text rest)
      (hrest : Segmented IsField rest) : Segmented IsField ('{' :: (text ++ '}' :: rest))

lemma Segmented.mono {IsField IsField' : List Char → List Char → Prop}
    (hfield : ∀ text rest, IsField text rest → IsField' text rest) {chars : List Char}
    (h : Segmented IsField chars) : Segmented IsField' chars := by
  induction h with
  | nil => exact .nil
  | plain hopen hclose _ ih => exact .plain hopen hclose ih
  | doubled hbrace _ ih => exact .doubled hbrace ih
  | field hopen htext _ ih => exact .field hopen (hfield _ _ htext) ih

/-- The fields of a literal, each behind the text in front of it, and the text behind the last. -/
def segments (fieldEnd : List Char → Option (List Char × List Char)) :
    ℕ → List Char → List Char → Option (List (List Char × List Char) × List Char)
  | _, literal, [] => some ([], literal)
  | 0, _, _ :: _ => none
  | rounds + 1, literal, ch :: chars =>
    if ch = '{' then
      match chars with
      | '{' :: chars => segments fieldEnd rounds (literal ++ ['{']) chars
      | chars => (fieldEnd chars).bind fun (text, rest) =>
        (segments fieldEnd rounds [] rest).map fun (fields, last) => ((literal, text) :: fields, last)
    else if ch = '}' then
      match chars with
      | '}' :: chars => segments fieldEnd rounds (literal ++ ['}']) chars
      | _ => none
    else segments fieldEnd rounds (literal ++ [ch]) chars

section segments

variable {fieldEnd fieldEnd' : List Char → Option (List Char × List Char)}
variable {rounds : ℕ} {literal literal' chars : List Char}

lemma segments_field (hopen : chars.head? ≠ some '{') :
    segments fieldEnd (rounds + 1) literal ('{' :: chars) =
      (fieldEnd chars).bind fun read =>
        (segments fieldEnd rounds [] read.2).map fun cut =>
          ((literal, read.1) :: cut.1, cut.2) := by
  rw [segments.eq_def]
  dsimp only
  rw [if_pos rfl]
  split
  · exact absurd rfl hopen
  · rfl

lemma segments_close (hclose : chars.head? ≠ some '}') :
    segments fieldEnd (rounds + 1) literal ('}' :: chars) = none := by
  rw [segments.eq_def]
  dsimp only
  rw [if_neg (by decide), if_pos rfl]
  split
  · exact absurd rfl hclose
  · rfl

/-- How a literal goes on. -/
lemma literal_cases (ch : Char) (chars : List Char) :
    ch ≠ '{' ∧ ch ≠ '}' ∨ (∃ rest, (ch = '{' ∨ ch = '}') ∧ chars = ch :: rest) ∨
      ch = '{' ∧ chars.head? ≠ some '{' ∨ ch = '}' ∧ chars.head? ≠ some '}' := by
  by_cases hopen : ch = '{'
  · subst hopen
    by_cases hhead : chars.head? = some '{'
    · obtain ⟨rest, rfl⟩ := List.head?_eq_some_iff.1 hhead
      exact .inr (.inl ⟨rest, .inl rfl, rfl⟩)
    · exact .inr (.inr (.inl ⟨rfl, hhead⟩))
  · by_cases hclose : ch = '}'
    · subst hclose
      by_cases hhead : chars.head? = some '}'
      · obtain ⟨rest, rfl⟩ := List.head?_eq_some_iff.1 hhead
        exact .inr (.inl ⟨rest, .inr rfl, rfl⟩)
      · exact .inr (.inr (.inr ⟨rfl, hhead⟩))
    · exact .inl ⟨hopen, hclose⟩

/-- What two scanners find in a literal that both cut into the same fields. -/
lemma segmented_of_segments
    (hsplit : ∀ chars text rest, fieldEnd chars = some (text, rest) → chars = text ++ '}' :: rest)
    (hsplit' : ∀ chars text rest, fieldEnd' chars = some (text, rest) → chars = text ++ '}' :: rest)
    {cut cut' : List (List Char × List Char) × List Char}
    (h : segments fieldEnd rounds literal chars = some cut)
    (h' : segments fieldEnd' rounds literal' chars = some cut')
    (hfields : cut.1.map Prod.snd = cut'.1.map Prod.snd) :
    Segmented (fun text rest => fieldEnd (text ++ '}' :: rest) = some (text, rest) ∧
      fieldEnd' (text ++ '}' :: rest) = some (text, rest)) chars := by
  induction rounds generalizing literal literal' chars cut cut' with
  | zero =>
    cases chars with
    | nil => exact .nil
    | cons ch chars => cases h
  | succ rounds ih =>
    cases chars with
    | nil => exact .nil
    | cons ch chars =>
      rcases literal_cases ch chars with ⟨hopen, hclose⟩ | ⟨rest, hbrace, rfl⟩ | ⟨rfl, hopen⟩ |
        ⟨rfl, hclose⟩
      · simp only [segments, if_neg hopen, if_neg hclose] at h h'
        exact .plain hopen hclose (ih h h' hfields)
      · refine .doubled hbrace ?_
        rcases hbrace with rfl | rfl
        · exact ih h h' hfields
        · exact ih h h' hfields
      · rw [segments_field hopen] at h h'
        obtain ⟨⟨text, rest⟩, hend, h⟩ := Option.bind_eq_some_iff.1 h
        obtain ⟨later, hlater, rfl⟩ := Option.map_eq_some_iff.1 h
        obtain ⟨⟨text', rest'⟩, hend', h'⟩ := Option.bind_eq_some_iff.1 h'
        obtain ⟨later', hlater', rfl⟩ := Option.map_eq_some_iff.1 h'
        obtain ⟨htext, hlaters⟩ := List.cons.inj hfields
        dsimp only at htext
        subst htext
        obtain rfl := hsplit _ _ _ hend
        have hrest : rest = rest' :=
          (List.cons.inj (List.append_cancel_left (hsplit' _ _ _ hend'))).2
        subst hrest
        refine .field (fun hhead => hopen ?_) ⟨hend, hend'⟩ (ih hlater hlater' hlaters)
        rw [List.head?_append, hhead]
        rfl
      · rw [segments_close hclose] at h
        cases h

/-- Two scanners that find the fields of a literal cut it in the same way. -/
lemma segments_of_segmented (h : Segmented (fun text rest =>
      fieldEnd (text ++ '}' :: rest) = some (text, rest) ∧
        fieldEnd' (text ++ '}' :: rest) = some (text, rest)) chars)
    (literal : List Char) (hrounds : chars.length ≤ rounds) :
    ∃ cut, segments fieldEnd rounds literal chars = some cut ∧
      segments fieldEnd' rounds literal chars = some cut := by
  induction h generalizing rounds literal with
  | nil => exact ⟨([], literal), by cases rounds <;> rfl, by cases rounds <;> rfl⟩
  | plain hopen hclose _ ih =>
    obtain ⟨rounds, rfl⟩ := Nat.exists_eq_add_of_lt (Nat.lt_of_lt_of_le (Nat.succ_pos _) hrounds)
    simp only [List.length_cons] at hrounds
    rw [Nat.zero_add]
    simp only [segments, if_neg hopen, if_neg hclose]
    exact ih _ (by omega)
  | doubled hbrace _ ih =>
    obtain ⟨rounds, rfl⟩ := Nat.exists_eq_add_of_lt (Nat.lt_of_lt_of_le (Nat.succ_pos _) hrounds)
    simp only [List.length_cons] at hrounds
    rw [Nat.zero_add]
    rcases hbrace with rfl | rfl
    · exact ih _ (by omega)
    · exact ih _ (by omega)
  | @field text rest hopen htext _ ih =>
    obtain ⟨rounds, rfl⟩ := Nat.exists_eq_add_of_lt (Nat.lt_of_lt_of_le (Nat.succ_pos _) hrounds)
    simp only [List.length_cons, List.length_append] at hrounds
    rw [Nat.zero_add]
    have hhead : (text ++ '}' :: rest).head? ≠ some '{' := by
      cases text with
      | nil => simp
      | cons first inside => exact hopen
    have hcuts : ∃ cut, segments fieldEnd rounds [] rest = some cut ∧
        segments fieldEnd' rounds [] rest = some cut := ih [] (by omega)
    obtain ⟨cut, hcut, hcut'⟩ := hcuts
    refine ⟨((literal, text) :: cut.1, cut.2), ?_, ?_⟩
    · rw [segments_field hhead, htext.1, Option.bind_some, hcut]
      rfl
    · rw [segments_field hhead, htext.2, Option.bind_some, hcut']
      rfl

/-- A scanner that finds the fields of a literal cuts it. -/
lemma segments_isSome_iff
    (hsplit : ∀ chars text rest, fieldEnd chars = some (text, rest) → chars = text ++ '}' :: rest)
    (literal : List Char) (hrounds : chars.length ≤ rounds) :
    (∃ cut, segments fieldEnd rounds literal chars = some cut) ↔
      Segmented (fun text rest => fieldEnd (text ++ '}' :: rest) = some (text, rest)) chars := by
  constructor
  · rintro ⟨cut, hcut⟩
    exact (segmented_of_segments hsplit hsplit hcut hcut rfl).mono fun _ _ h => h.1
  · intro h
    have hboth : ∃ cut, segments fieldEnd rounds literal chars = some cut ∧
        segments fieldEnd rounds literal chars = some cut :=
      segments_of_segmented (h.mono fun _ _ h => ⟨h, h⟩) literal hrounds
    exact hboth.imp fun _ h => h.1

end segments

/-! ## The two parsers -/

/-- The pieces of an f-string that is cut in this way. -/
def cutPieces (cut : List (List Char × List Char) × List Char) : List (Piece (List Char)) :=
  cut.1.flatMap (fun field => literalPiece field.1 ++ [.field field.2]) ++ literalPiece cut.2

lemma fstringLoop_eq_segments (rounds : ℕ) (literal chars : List Char) :
    (fstringLoop Except.ok rounds literal chars).toOption =
      (segments findFstringFieldEnd rounds literal chars).map cutPieces := by
  induction rounds generalizing literal chars with
  | zero => cases chars <;> rfl
  | succ rounds ih =>
    cases chars with
    | nil => rfl
    | cons ch chars =>
      rcases literal_cases ch chars with ⟨hopen, hclose⟩ | ⟨rest, hbrace, rfl⟩ | ⟨rfl, hopen⟩ |
        ⟨rfl, hclose⟩
      · simp only [fstringLoop, segments, if_neg hopen, if_neg hclose, ih]
      · rcases hbrace with rfl | rfl
        · exact ih _ _
        · exact ih _ _
      · rw [segments_field hopen, fstringLoop.eq_def]
        dsimp only
        rw [if_pos rfl]
        split
        · exact absurd rfl hopen
        · cases hend : findFstringFieldEnd chars with
          | none => rfl
          | some read =>
            change (fstringLoop Except.ok rounds [] read.2 >>= fun pieces =>
              Except.ok (literalPiece literal ++ .field read.1 :: pieces)).toOption = _
            rw [Results.toOption_bind, ih, Option.bind_some]
            cases segments findFstringFieldEnd rounds [] read.2 with
            | none => rfl
            | some cut => simp [cutPieces, Except.toOption]
      · rw [segments_close hclose, fstringLoop.eq_def]
        dsimp only
        rw [if_neg (by decide), if_pos rfl]
        split
        · exact absurd rfl hclose
        · rfl

/-- What is found of a template if the fields are not looked into. -/
def textInterpolation (text : List Char) : TemplateInterpolation (List Char) :=
  ⟨text, text, none, none⟩

def fieldText (text : List Char) :
    Except String (Option (List Char) × TemplateInterpolation (List Char)) :=
  .ok (none, textInterpolation text)

/-- The strings and the interpolations of a template that is cut in this way. -/
def cutParts (parts : TemplateLiteralParts (List Char))
    (cut : List (List Char × List Char) × List Char) : TemplateLiteralParts (List Char) where
  strings := parts.strings ++ cut.1.map Prod.fst ++ [cut.2]
  interpolations := (parts.interpolations ++
    cut.1.map fun field => textInterpolation field.2).map TemplateInterpolation.normalize

lemma templateLoop_eq_segments (rounds : ℕ) (parts : TemplateLiteralParts (List Char))
    (hparts : parts.strings.length = parts.interpolations.length) (literal chars : List Char) :
    (templateLoop fieldText rounds parts literal chars).toOption =
      (segments (templateFieldEnd 1) rounds literal chars).map (cutParts parts) := by
  have hend (rounds : ℕ) (parts : TemplateLiteralParts (List Char))
      (hparts : parts.strings.length = parts.interpolations.length) (literal : List Char) :
      (templateLoop fieldText rounds parts literal []).toOption =
        some (cutParts parts ([], literal)) := by
    have hlength : ¬ (parts.strings ++ [literal]).length ≠ parts.interpolations.length + 1 := by
      simp [hparts]
    rw [templateLoop, if_neg hlength]
    simp [cutParts, Except.toOption]
  induction rounds generalizing parts literal chars with
  | zero =>
    cases chars with
    | nil => exact hend 0 parts hparts literal
    | cons ch chars => rfl
  | succ rounds ih =>
    cases chars with
    | nil => exact hend _ parts hparts literal
    | cons ch chars =>
      rcases literal_cases ch chars with ⟨hopen, hclose⟩ | ⟨rest, hbrace, rfl⟩ | ⟨rfl, hopen⟩ |
        ⟨rfl, hclose⟩
      · simp only [templateLoop, segments, if_neg hopen, if_neg hclose, ih parts hparts]
      · rcases hbrace with rfl | rfl
        · exact ih parts hparts _ _
        · exact ih parts hparts _ _
      · rw [segments_field hopen, templateLoop.eq_def]
        dsimp only
        rw [if_pos rfl]
        split
        · exact absurd rfl hopen
        · cases hfield : templateFieldEnd 1 chars with
          | none => rfl
          | some read =>
            have hlater := ih ⟨parts.strings ++ [literal],
              parts.interpolations ++ [textInterpolation read.1]⟩ (by simp [hparts]) [] read.2
            refine hlater.trans ?_
            rw [Option.bind_some, Option.map_map]
            congr 1
            funext cut
            simp [cutParts]
      · rw [segments_close hclose, templateLoop.eq_def]
        dsimp only
        rw [if_neg (by decide), if_pos rfl]
        split
        · exact absurd rfl hclose
        · rfl

/-- The strings and the interpolations of a template in turn, without the empty strings. -/
def interleave {α : Type} : List (List Char) → List (TemplateInterpolation α) → List (Piece α)
  | [], _ => []
  | first :: _, [] => literalPiece first
  | first :: strings, interpolation :: interpolations =>
    literalPiece first ++ .field interpolation.value :: interleave strings interpolations

def TemplateLiteralParts.pieces {α : Type} (parts : TemplateLiteralParts α) : List (Piece α) :=
  interleave parts.strings parts.interpolations

lemma cutParts_pieces (cut : List (List Char × List Char) × List Char) :
    (cutParts {} cut).pieces = cutPieces cut := by
  obtain ⟨fields, last⟩ := cut
  rw [TemplateLiteralParts.pieces, cutParts, cutPieces]
  induction fields with
  | nil => rfl
  | cons field fields ih =>
    simp only [List.nil_append, List.map_cons, List.cons_append, interleave, List.flatMap_cons,
      List.append_assoc] at ih ⊢
    rw [ih]
    rfl

/-- The two parsers find the same text and the same fields, or none finds any. -/
abbrev SegmentationsAgree (content : List Char) : Prop :=
  (parseTemplateLiteralParts fieldText content).toOption.map TemplateLiteralParts.pieces =
    (parseFstringLiteral Except.ok content).toOption

/-- As an f-string and as a template the literal has the same fields, or it is neither. -/
def BracedAlike (content : List Char) : Prop :=
  let EndsField (text rest : List Char) := findFstringFieldEnd (text ++ '}' :: rest) = some (text, rest)
  let IsBalanced (text _ : List Char) := Brackets.Balanced '{' '}' text
  Segmented (fun text rest => EndsField text rest ∧ IsBalanced text rest) content ∨
    ¬ Segmented EndsField content ∧ ¬ Segmented IsBalanced content

/-- The texts of the fields. -/
def fieldTexts (pieces : List (Piece (List Char))) : List (List Char) :=
  pieces.filterMap fun piece =>
    match piece with
    | .literal _ => none
    | .field text => some text

lemma fieldTexts_cutPieces (cut : List (List Char × List Char) × List Char) :
    fieldTexts (cutPieces cut) = cut.1.map Prod.snd := by
  have hliteral (literal : List Char) : fieldTexts (literalPiece literal) = [] := by
    rw [literalPiece]
    split <;> rfl
  obtain ⟨fields, last⟩ := cut
  induction fields with
  | nil => exact hliteral last
  | cons field fields ih =>
    simp only [fieldTexts, cutPieces, List.flatMap_cons, List.filterMap_append] at hliteral ih ⊢
    rw [hliteral, List.nil_append]
    exact congrArg (field.2 :: ·) ih

lemma templateFieldEnd_iff {text rest : List Char} :
    templateFieldEnd 1 (text ++ '}' :: rest) = some (text, rest) ↔
      Brackets.Balanced '{' '}' text := by
  rw [templateFieldEnd_eq_some Nat.one_pos, balanced_iff_closes]
  exact and_iff_right rfl

lemma segmentationsAgree_iff (content : List Char) :
    SegmentationsAgree content ↔ BracedAlike content := by
  have hfstring := fstringLoop_eq_segments content.length [] content
  have htemplate := templateLoop_eq_segments content.length {} rfl [] content
  have hpieces : TemplateLiteralParts.pieces ∘ cutParts {} = cutPieces := funext cutParts_pieces
  have hsplit (chars text rest : List Char) (h : findFstringFieldEnd chars = some (text, rest)) :
      chars = text ++ '}' :: rest := fieldEndFrom_split h
  have hsplit' (chars text rest : List Char) (h : templateFieldEnd 1 chars = some (text, rest)) :
      chars = text ++ '}' :: rest := ((templateFieldEnd_eq_some Nat.one_pos).1 h).1
  rw [SegmentationsAgree, parseTemplateLiteralParts, parseFstringLiteral, hfstring, htemplate,
    Option.map_map, hpieces]
  have hcuts := segments_isSome_iff hsplit [] (le_refl content.length)
  have hcuts' := segments_isSome_iff hsplit' [] (le_refl content.length)
  simp only [templateFieldEnd_iff] at hcuts'
  rw [BracedAlike]
  cases hf : segments findFstringFieldEnd content.length [] content with
  | none =>
    have hnone : ¬ Segmented _ content := fun h => by
      obtain ⟨cut, hcut⟩ := hcuts.2 h
      rw [hf] at hcut
      cases hcut
    cases ht : segments (templateFieldEnd 1) content.length [] content with
    | none =>
      refine iff_of_true rfl (.inr ⟨hnone, fun h => ?_⟩)
      obtain ⟨cut, hcut⟩ := hcuts'.2 h
      rw [ht] at hcut
      cases hcut
    | some cut =>
      refine iff_of_false nofun ?_
      rintro (h | ⟨-, h⟩)
      · exact hnone (h.mono fun _ _ h => h.1)
      · exact h (hcuts'.1 ⟨cut, ht⟩)
  | some cut =>
    have hsome := hcuts.1 ⟨cut, hf⟩
    cases ht : segments (templateFieldEnd 1) content.length [] content with
    | none =>
      refine iff_of_false nofun ?_
      rintro (h | ⟨h, -⟩)
      · obtain ⟨cut, hcut⟩ := hcuts'.2 (h.mono fun _ _ h => h.2)
        rw [ht] at hcut
        cases hcut
      · exact h hsome
    | some cut' =>
      constructor
      · intro h
        have hfields : cut.1.map Prod.snd = cut'.1.map Prod.snd := by
          rw [← fieldTexts_cutPieces, ← fieldTexts_cutPieces]
          exact congrArg fieldTexts (Option.some.inj h).symm
        exact .inl ((segmented_of_segments hsplit hsplit' hf ht hfields).mono fun _ _ h =>
          ⟨h.1, templateFieldEnd_iff.1 h.2⟩)
      · rintro (h | ⟨h, -⟩)
        · obtain ⟨both, hboth, hboth'⟩ := segments_of_segmented
            (h.mono fun _ _ h => ⟨h.1, templateFieldEnd_iff.2 h.2⟩) [] (le_refl content.length)
          rw [← hf, ← ht, hboth, hboth']
        · exact absurd hsome h

/-! ## Adjacent templates -/

/-- There is one string more than there are interpolations. -/
def TemplateLiteralParts.Alternates {α : Type} (parts : TemplateLiteralParts α) : Prop :=
  parts.strings.length = parts.interpolations.length + 1

section sequences

variable {α : Type}
variable {parseField : List Char → Except String (Option (List Char) × TemplateInterpolation α)}

lemma templateLoop_alternates {rounds : ℕ} {parts : TemplateLiteralParts α}
    {literal chars : List Char} {found : TemplateLiteralParts α}
    (h : templateLoop parseField rounds parts literal chars = .ok found) : found.Alternates := by
  have hend {rounds : ℕ} {parts : TemplateLiteralParts α} {literal : List Char}
      (h : templateLoop parseField rounds parts literal [] = .ok found) : found.Alternates := by
    rw [templateLoop] at h
    split_ifs at h with hlength
    obtain rfl := Except.ok.inj h
    rw [TemplateLiteralParts.Alternates, List.length_map]
    exact not_not.1 hlength
  induction rounds generalizing parts literal chars with
  | zero =>
    cases chars with
    | nil => exact hend h
    | cons ch chars => cases h
  | succ rounds ih =>
    cases chars with
    | nil => exact hend h
    | cons ch chars =>
      rcases literal_cases ch chars with ⟨hopen, hclose⟩ | ⟨rest, hbrace, rfl⟩ | ⟨rfl, hopen⟩ |
        ⟨rfl, hclose⟩
      · simp only [templateLoop, if_neg hopen, if_neg hclose] at h
        exact ih h
      · rcases hbrace with rfl | rfl
        · exact ih h
        · exact ih h
      · rw [templateLoop.eq_def] at h
        dsimp only at h
        rw [if_pos rfl] at h
        split at h
        · exact absurd rfl hopen
        · split at h
          · cases h
          · next text rest _ =>
            cases hfield : parseField text with
            | error error =>
              rw [hfield] at h
              cases h
            | ok read =>
              rw [hfield] at h
              exact ih h
      · rw [templateLoop.eq_def] at h
        dsimp only at h
        rw [if_neg (by decide), if_pos rfl] at h
        split at h
        · exact absurd rfl hclose
        · cases h

lemma pushLast_length (text : List Char) (strings : List (List Char)) :
    (pushLast text strings).length = strings.length := by
  induction strings with
  | nil => rfl
  | cons first strings ih =>
    cases strings with
    | nil => rfl
    | cons second strings => exact congrArg (· + 1) ih

lemma mergeTemplate_alternates {merged piece : TemplateLiteralParts α}
    (hmerged : merged.strings = [] ∨ merged.Alternates) (hpiece : piece.Alternates) :
    (mergeTemplate merged piece).Alternates := by
  rw [mergeTemplate]
  split_ifs with hempty
  · exact hpiece
  · have hmerged' : merged.Alternates := hmerged.resolve_left fun h => hempty (by rw [h]; rfl)
    rw [TemplateLiteralParts.Alternates] at hmerged' hpiece
    split
    · next hnil =>
      rw [hnil] at hpiece
      cases hpiece
    · next first strings hstrings =>
      rw [hstrings, List.length_cons] at hpiece
      simp only [TemplateLiteralParts.Alternates, List.length_append, pushLast_length]
      omega

lemma mergeTemplates_alternates {pieces : List (TemplateLiteralParts α)} (hne : pieces ≠ [])
    (hpieces : ∀ piece ∈ pieces, piece.Alternates) : (mergeTemplates pieces).Alternates := by
  have hrun (merged : TemplateLiteralParts α) (hmerged : merged.Alternates)
      (pieces : List (TemplateLiteralParts α)) (hpieces : ∀ piece ∈ pieces, piece.Alternates) :
      (pieces.foldl mergeTemplate merged).Alternates := by
    induction pieces generalizing merged with
    | nil => exact hmerged
    | cons piece pieces ih =>
      exact ih _ (mergeTemplate_alternates (.inr hmerged) (hpieces piece List.mem_cons_self))
        fun piece hpiece => hpieces piece (List.mem_cons_of_mem _ hpiece)
  cases pieces with
  | nil => exact absurd rfl hne
  | cons piece pieces =>
    exact hrun _ (mergeTemplate_alternates (.inl rfl) (hpieces piece List.mem_cons_self)) pieces
      fun piece hpiece => hpieces piece (List.mem_cons_of_mem _ hpiece)

lemma parseTemplateSequence_alternates {contents : List (List Char)} (hne : contents ≠ [])
    {parts : TemplateLiteralParts α}
    (h : parseTemplateSequence parseField contents = .ok parts) : parts.Alternates := by
  obtain ⟨pieces, hpieces, h⟩ := Results.bind_eq_ok.1 h
  obtain rfl := Except.ok.inj h
  refine mergeTemplates_alternates (fun h => hne ?_) fun piece hpiece => ?_
  · have hlength := Results.length_of_mapM hpieces
    rw [h] at hlength
    exact List.eq_nil_of_length_eq_zero hlength.symm
  · obtain ⟨content, -, hcontent⟩ := Results.exists_of_mem_mapM hpieces hpiece
    exact templateLoop_alternates hcontent

end sequences

/-- Each literal is cut as an f-string is, and the templates in a row alternate. -/
structure TemplatesAgree (contents : List (List Char)) : Prop where
  segments : ∀ content ∈ contents, SegmentationsAgree content
  alternates : ∀ {α : Type}
    (parseField : List Char → Except String (Option (List Char) × TemplateInterpolation α))
    (parts : TemplateLiteralParts α), contents ≠ [] →
      parseTemplateSequence parseField contents = .ok parts → parts.Alternates

/-- Templates are cut as f-strings are exactly if the braces of their fields are balanced, those in
strings and comments counted, or if there are no such fields in either way. -/
theorem templates_agree_iff (contents : List (List Char)) :
    TemplatesAgree contents ↔ ∀ content ∈ contents, BracedAlike content := by
  constructor
  · intro h content hcontent
    exact (segmentationsAgree_iff content).1 (h.segments content hcontent)
  · intro h
    exact ⟨fun content hcontent => (segmentationsAgree_iff content).2 (h content hcontent),
      fun _ _ hne hparts => parseTemplateSequence_alternates hne hparts⟩

/-- In a field that is a string with a closing brace. -/
theorem templates_quotedBrace : ¬ TemplatesAgree ["\x7b'\x7d'\x7d".toList] :=
  fun h => absurd (h.segments _ List.mem_cons_self) (by decide)

end Pyrs.TemplateLiterals
