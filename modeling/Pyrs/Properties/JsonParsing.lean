import Pyrs.Properties.JsonCompleteness

/-!
# The JSON parser and its grammar

The parser ends on every source, with a node or with an error at a position of the source, and it
accepts the texts of the grammar.
-/

namespace Pyrs

open JsonGrammar

namespace JsonParser

variable {source : List UInt8} {pos next : ℕ} {α β : Type}

/-- A result that is not of the rounds running out, and whose error is inside the source. -/
def Ends (source : List UInt8) (result : Except JsonFault α) : Prop :=
  ∀ fault, result = .error fault → ∃ error, fault = .error error ∧ error.pos ≤ source.length

lemma ends_ok (value : α) : Ends source (.ok value) := by
  intro fault h
  cases h

lemma ends_jsonError {message : String} (h : pos ≤ source.length) :
    Ends source (jsonError message pos : Except JsonFault α) := by
  intro fault hfault
  cases hfault
  exact ⟨_, rfl, h⟩

lemma Ends.bind {x : Except JsonFault α} {f : α → Except JsonFault β} (h : Ends source x)
    (hf : ∀ a, x = .ok a → Ends source (f a)) : Ends source (x >>= f) := by
  intro fault hfault
  cases x with
  | error error =>
    cases hfault
    exact h _ rfl
  | ok a => exact hf a rfl fault hfault

lemma lt_of_peek {byte : UInt8} (h : peek source pos = some byte) : pos < source.length :=
  (List.getElem?_eq_some_iff.1 h).1

/-! ## Strings -/

lemma parseHexDigits_ends {count value : ℕ} (h : pos ≤ source.length) :
    Ends source (parseHexDigits source count value pos) := by
  induction count generalizing value pos with
  | zero => exact ends_ok _
  | succ count ih =>
    rw [parseHexDigits]
    split
    · exact ends_jsonError h
    · next byte hpeek =>
      split
      · exact ih (lt_of_peek hpeek)
      · exact ends_jsonError (lt_of_peek hpeek)

lemma validChar_ends {ch : Option Char} (h : pos ≤ source.length) :
    Ends source (validChar ch pos) := by
  cases ch with
  | none => exact ends_jsonError h
  | some ch => exact ends_ok _

lemma parseUnicodeEscape_ends (h : pos ≤ source.length) :
    Ends source (parseUnicodeEscape source pos) := by
  rw [parseUnicodeEscape]
  refine (parseHexDigits_ends h).bind ?_
  rintro ⟨code, behind⟩ hcode
  have hbehind := (parseHexDigits_sound hcode).2.next_le h
  dsimp only
  split
  · split
    · next hpeek =>
      refine (parseHexDigits_ends (lt_of_peek hpeek.2)).bind ?_
      rintro ⟨low, last⟩ hlow
      have hlast := (parseHexDigits_sound hlow).2.next_le (lt_of_peek hpeek.2)
      dsimp only
      split
      · exact validChar_ends hlast
      · exact validChar_ends hbehind
    · exact validChar_ends hbehind
  · split
    · exact validChar_ends hbehind
    · exact validChar_ends hbehind

lemma parseEscape_ends (h : pos ≤ source.length) : Ends source (parseEscape source pos) := by
  rw [parseEscape]
  split
  · exact ends_jsonError h
  · next letter hpeek =>
    split
    · exact ends_ok _
    · split
      · exact parseUnicodeEscape_ends (lt_of_peek hpeek)
      · exact ends_jsonError (lt_of_peek hpeek)

lemma parseContinuation_ends {count : ℕ} (h : pos ≤ source.length) :
    Ends source (parseContinuation source count pos) := by
  induction count generalizing pos with
  | zero => exact ends_ok _
  | succ count ih =>
    rw [parseContinuation]
    split
    · exact ends_jsonError h
    · next byte hpeek =>
      split
      · exact (ih (lt_of_peek hpeek)).bind fun _ _ => ends_ok _
      · exact ends_jsonError (lt_of_peek hpeek)

lemma pushUtf8Char_ends {first : UInt8} (h : pos ≤ source.length) :
    Ends source (pushUtf8Char source first pos) := by
  rw [pushUtf8Char]
  split
  · exact ends_jsonError h
  · refine (parseContinuation_ends h).bind ?_
    rintro ⟨bytes, last⟩ hbytes
    dsimp only
    split
    · exact ends_ok _
    · exact ends_jsonError ((parseContinuation_sound hbytes).2.2.next_le h)

/-- Each round of the loop takes a byte. -/
lemma parseStringFrom_ends {start fuel : ℕ} {out : String} (hstart : start ≤ source.length)
    (h : pos ≤ source.length) (hfuel : source.length - pos < fuel) :
    Ends source (parseStringFrom source start fuel out pos) := by
  induction fuel generalizing out pos with
  | zero => exact absurd hfuel (Nat.not_lt_zero _)
  | succ fuel ih =>
    rw [parseStringFrom]
    split
    · exact ends_jsonError hstart
    · next byte hpeek =>
      have hlt := lt_of_peek hpeek
      split
      · exact ends_ok _
      split
      · refine (parseEscape_ends hlt).bind ?_
        rintro ⟨ch, last⟩ hch
        have hmoves := (parseEscape_sound hch).2
        have hle := hmoves.le
        exact ih (hmoves.next_le hlt) (by omega)
      split
      · exact ends_jsonError h
      split
      · exact ih hlt (by omega)
      · refine (pushUtf8Char_ends hlt).bind ?_
        rintro ⟨ch, last⟩ hch
        have hmoves := (pushUtf8Char_sound hch).2.2
        have hle := hmoves.le
        exact ih (hmoves.next_le hlt) (by omega)

lemma expect_ends {byte : UInt8} {message : String} (h : pos ≤ source.length) :
    Ends source (expect source byte message pos) := by
  rw [expect]
  split
  · exact ends_ok _
  · exact ends_jsonError h

lemma parseString_ends (h : pos ≤ source.length) : Ends source (parseString source pos) := by
  rw [parseString]
  refine (expect_ends h).bind ?_
  rintro behind hbehind
  obtain ⟨hpeek, rfl⟩ := expect_eq_ok hbehind
  exact parseStringFrom_ends h (lt_of_peek hpeek) (by omega)

/-! ## Numbers -/

lemma parseDigits_ends (h : pos ≤ source.length) : Ends source (parseDigits source pos) := by
  rw [parseDigits]
  split
  · exact ends_ok _
  · exact ends_jsonError h

lemma parseIntPart_ends (h : pos ≤ source.length) : Ends source (parseIntPart source pos) := by
  rw [parseIntPart]
  split
  · next hpeek =>
    split
    · exact ends_jsonError (lt_of_peek hpeek)
    · exact ends_ok _
  · split
    · exact ends_ok _
    · exact ends_jsonError h

lemma parseFraction_ends (pos : ℕ) : Ends source (parseFraction source pos) := by
  rw [parseFraction]
  split
  · next hpeek => exact parseDigits_ends (lt_of_peek hpeek)
  · exact ends_ok _

lemma parseExponent_ends (pos : ℕ) : Ends source (parseExponent source pos) := by
  rw [parseExponent]
  split
  · next hletter =>
    have hlt : pos < source.length := by
      rcases hletter with hpeek | hpeek
      · exact lt_of_peek hpeek
      · exact lt_of_peek hpeek
    refine parseDigits_ends ?_
    split
    · next hsign =>
      rcases hsign with hpeek | hpeek
      · exact lt_of_peek hpeek
      · exact lt_of_peek hpeek
    · exact hlt
  · exact ends_ok _

section

variable {parseF64 : List UInt8 → Option Binary64} {floatValue : List UInt8 → Binary64} {limit : ℤ}

lemma numberNode_ends {text : List UInt8} (h : pos ≤ source.length) :
    Ends source (numberNode parseF64 limit text pos) := by
  rw [numberNode]
  split
  · split
    · exact ends_ok _
    · exact ends_jsonError h
  · dsimp only
    generalize (if text.head? = some (ascii '-') then text.tail else text) = digits
    generalize (if text.head? = some (ascii '-') then -(digitsValue digits : ℤ)
      else digitsValue digits) = value
    split
    · exact ends_ok _
    · split
      · exact ends_ok _
      · exact ends_jsonError h

lemma parseNumber_ends (h : pos ≤ source.length) :
    Ends source (parseNumber source parseF64 limit pos) := by
  rw [parseNumber]
  obtain ⟨minus, -, htakes⟩ := @parseMinus_sound source pos
  have hminus := htakes.moves.next_le h
  refine (parseIntPart_ends hminus).bind fun first hfirst => ?_
  obtain ⟨_, -, htakesInt⟩ := parseIntPart_sound hfirst
  refine (parseFraction_ends first).bind fun second hsecond => ?_
  obtain ⟨_, -, htakesFraction⟩ := parseFraction_sound hsecond
  refine (parseExponent_ends second).bind fun third hthird => ?_
  obtain ⟨_, -, htakesExponent⟩ := parseExponent_sound hthird
  exact numberNode_ends (htakesExponent.moves.next_le (htakesFraction.moves.next_le
    (htakesInt.moves.next_le hminus)))

/-! ## Arrays and objects -/

variable {value : ℕ → Except JsonFault (JsonNode × ℕ)}

/-- A parser of values that ends, inside the source. -/
structure EndsValues (source : List UInt8) (value : ℕ → Except JsonFault (JsonNode × ℕ)) : Prop where
  ends : ∀ pos, pos ≤ source.length → Ends source (value pos)
  moves : ∀ {pos next node}, value pos = .ok (node, next) → Moves source pos next

/-- A round ends where the item and the rest behind a comma do. -/
lemma separatedRound_ends {α : Type} {close : UInt8} {illegal missing : String}
    {item : ℕ → Except JsonFault (α × ℕ)}
    {loop : Option ℕ → List α → ℕ → Except JsonFault (List α × ℕ)} {trailing : Option ℕ}
    {values : List α} (hitem : Ends source (item pos))
    (hmoves : ∀ {value next}, item pos = .ok (value, next) → Moves source pos next)
    (htrailing : ∀ comma, trailing = some comma → comma ≤ source.length)
    (h : pos ≤ source.length)
    (hloop : ∀ comma values next, comma ≤ source.length → next ≤ source.length → pos < next →
      Ends source (loop (some comma) values next)) :
    Ends source (separatedRound source close illegal missing item loop trailing values pos) := by
  rw [separatedRound]
  split
  · next comma hcomma =>
    split at hcomma
    · exact ends_jsonError (htrailing comma hcomma)
    · cases hcomma
  · refine hitem.bind ?_
    rintro ⟨value, behind⟩ hvalue
    have hmoves := (hmoves hvalue).trans (@moves_skipWs source behind)
    have hle := hmoves.le
    dsimp only
    split
    · exact ends_jsonError (hmoves.next_le h)
    · next byte hpeek =>
      have hlt := lt_of_peek hpeek
      have hnext := @moves_skipWs source (skipWs source behind + 1)
      have hnextLe := hnext.le
      split
      · split
        · exact ends_jsonError (hnext.next_le hlt)
        · exact hloop _ _ _ hlt.le (hnext.next_le hlt) (by omega)
      · split
        · exact ends_ok _
        · exact ends_jsonError hlt.le

lemma parseElements_ends (hvalue : EndsValues source value) {fuel : ℕ} {trailing : Option ℕ}
    {values : List JsonNode} (htrailing : ∀ comma, trailing = some comma → comma ≤ source.length)
    (h : pos ≤ source.length) (hfuel : source.length - pos < fuel) :
    Ends source (parseElements source value fuel trailing values pos) := by
  induction fuel generalizing trailing values pos with
  | zero => exact absurd hfuel (Nat.not_lt_zero _)
  | succ fuel ih =>
    rw [parseElements_succ]
    refine separatedRound_ends (hvalue.ends pos h) hvalue.moves htrailing h ?_
    intro comma values next hcomma hnext hlt
    refine ih ?_ hnext (by omega)
    rintro _ ⟨⟩
    exact hcomma

lemma parseMember_ends (hvalue : EndsValues source value) (h : pos ≤ source.length) :
    Ends source (parseMember source value pos) := by
  rw [parseMember]
  split
  · exact ends_jsonError h
  · refine (parseString_ends h).bind ?_
    rintro ⟨key, behind⟩ hkey
    obtain ⟨-, -, -, -, hmoves⟩ := parseString_sound hkey
    have hcolon := (hmoves.trans (@moves_skipWs source behind)).next_le h
    refine (expect_ends hcolon).bind ?_
    rintro next hnext
    obtain ⟨hpeek, rfl⟩ := expect_eq_ok hnext
    have hfirst := (@moves_skipWs source (skipWs source behind + 1)).next_le (lt_of_peek hpeek)
    dsimp only
    split
    · exact ends_jsonError hfirst
    · exact (hvalue.ends _ hfirst).bind fun _ _ => ends_ok _

lemma parseMember_moves (hvalue : EndsValues source value) {member : String × JsonNode}
    (h : parseMember source value pos = .ok (member, next)) : Moves source pos next := by
  rw [parseMember] at h
  split at h
  · cases h
  · obtain ⟨⟨key, behind⟩, hkey, h⟩ := Results.bind_eq_ok.1 h
    obtain ⟨-, -, -, -, hmoves⟩ := parseString_sound hkey
    obtain ⟨colon, hcolon, h⟩ := Results.bind_eq_ok.1 h
    obtain ⟨hpeek, rfl⟩ := expect_eq_ok hcolon
    dsimp only at h
    split at h
    · cases h
    · obtain ⟨⟨node, last⟩, hnode, h⟩ := Results.bind_eq_ok.1 h
      cases h
      exact hmoves.trans (moves_skipWs.trans ((Moves.succ hpeek).trans
        (moves_skipWs.trans (hvalue.moves hnode))))

lemma parseMembers_ends (hvalue : EndsValues source value) {fuel : ℕ} {trailing : Option ℕ}
    {values : List (String × JsonNode)}
    (htrailing : ∀ comma, trailing = some comma → comma ≤ source.length)
    (h : pos ≤ source.length) (hfuel : source.length - pos < fuel) :
    Ends source (parseMembers source value fuel trailing values pos) := by
  induction fuel generalizing trailing values pos with
  | zero => exact absurd hfuel (Nat.not_lt_zero _)
  | succ fuel ih =>
    rw [parseMembers_succ]
    refine separatedRound_ends (parseMember_ends hvalue h) (parseMember_moves hvalue) htrailing h ?_
    intro comma values next hcomma hnext hlt
    refine ih ?_ hnext (by omega)
    rintro _ ⟨⟩
    exact hcomma

lemma parseArray_ends (hvalue : EndsValues source value) (h : pos ≤ source.length) :
    Ends source (parseArray source value pos) := by
  rw [parseArray]
  refine (expect_ends h).bind ?_
  rintro behind hbehind
  obtain ⟨hpeek, rfl⟩ := expect_eq_ok hbehind
  dsimp only
  split
  · exact ends_ok _
  · refine Ends.bind (parseElements_ends hvalue ?_ (moves_skipWs.next_le (lt_of_peek hpeek))
      (by omega)) fun _ _ => ends_ok _
    intro comma hcomma
    cases hcomma

lemma parseObject_ends (hvalue : EndsValues source value) (h : pos ≤ source.length) :
    Ends source (parseObject source value pos) := by
  rw [parseObject]
  refine (expect_ends h).bind ?_
  rintro behind hbehind
  obtain ⟨hpeek, rfl⟩ := expect_eq_ok hbehind
  dsimp only
  split
  · exact ends_ok _
  · refine Ends.bind (parseMembers_ends hvalue ?_ (moves_skipWs.next_le (lt_of_peek hpeek))
      (by omega)) fun _ _ => ends_ok _
    intro comma hcomma
    cases hcomma

/-! ## Values -/

lemma parseLiteral_ends {text : List UInt8} {node : JsonNode} (h : pos ≤ source.length) :
    Ends source (parseLiteral source text node pos) := by
  rw [parseLiteral]
  split
  · exact ends_ok _
  · exact ends_jsonError h

/-- The parser ends at every level. -/
lemma parseValue_ends (hparse : ParsesFloats floatValue parseF64) (levels : ℕ) :
    EndsValues source (parseValue source parseF64 limit levels) := by
  refine ⟨?_, fun h => ?_⟩
  · induction levels with
    | zero => exact fun _ h => ends_jsonError h
    | succ levels ih =>
      have hvalues : EndsValues source (parseValue source parseF64 limit levels) := by
        refine ⟨ih, fun h => ?_⟩
        obtain ⟨_, -, -, hmoves⟩ := parseValue_sound hparse levels h
        exact hmoves
      intro pos h
      have hskip := (@moves_skipWs source _).next_le h
      exact parseValue_succ rfl (fun _ => ends_ok _) (ends_jsonError hskip)
        (fun _ => parseLiteral_ends hskip) ((parseString_ends hskip).bind fun _ _ => ends_ok _)
        (parseArray_ends hvalues hskip) (parseObject_ends hvalues hskip) (parseNumber_ends hskip)
  · obtain ⟨_, -, -, hmoves⟩ := parseValue_sound hparse levels h
    exact hmoves

/-! ## Nesting -/

lemma ws_length {text rest : List UInt8} (h : Ws text rest) : rest.length ≤ text.length := by
  obtain ⟨spaces, -, rfl⟩ := h
  rw [List.length_append]
  exact Nat.le_add_left _ _

lemma stringText_length {text rest : List UInt8} {chars : List Char}
    (h : StringText text chars rest) : rest.length < text.length := by
  induction h with
  | quote => exact Nat.lt_succ_self _
  | char hch _ ih => exact ih.trans (charText_length hch)

lemma numberText_nesting {text : List UInt8} {node : JsonNode}
    (h : NumberText floatValue limit text node) : node.nesting = 0 := by
  cases h with
  | integer =>
    rw [integerNode]
    split <;> rfl
  | float => rfl

section Nesting

variable {count : ℕ} (hvalues : ∀ {text rest : List UInt8} {node : JsonNode}, text.length ≤ count →
  ValueText floatValue limit text node rest → node.nesting + rest.length < text.length)

include hvalues in
lemma elementsText_nesting {nodes : List JsonNode} {text rest : List UInt8}
    (hcount : text.length ≤ count) (h : ElementsText floatValue limit text nodes rest) :
    nestingOfValues nodes + rest.length < text.length := by
  induction nodes generalizing text with
  | nil => cases h
  | cons node nodes ih =>
    cases h with
    | last hws hvalue hend =>
      have hnode := hvalues ((ws_length hws).trans hcount) hvalue
      have hfirst := ws_length hws
      have hbehind := ws_length hend
      rw [List.length_cons] at hbehind
      simp only [nestingOfValues, Nat.max_zero]
      omega
    | more hws hvalue hcomma h =>
      have hnode := hvalues ((ws_length hws).trans hcount) hvalue
      have hfirst := ws_length hws
      have hbehind := ws_length hcomma
      rw [List.length_cons] at hbehind
      have hnodes := ih (by omega) h
      simp only [nestingOfValues]
      omega

include hvalues in
lemma memberText_nesting {member : String × JsonNode} {text rest : List UInt8}
    (hcount : text.length ≤ count) (h : MemberText floatValue limit text member rest) :
    member.2.nesting + rest.length < text.length := by
  cases h with
  | member hws hkey hcolon hspace hvalue =>
    have hquote := ws_length hws
    have hstring := stringText_length hkey
    have hbehind := ws_length hcolon
    have hfirst := ws_length hspace
    rw [List.length_cons] at hquote hbehind
    have hnode := hvalues (by omega) hvalue
    dsimp only
    omega

include hvalues in
lemma membersText_nesting {members : List (String × JsonNode)} {text rest : List UInt8}
    (hcount : text.length ≤ count) (h : MembersText floatValue limit text members rest) :
    nestingOfMembers members + rest.length < text.length := by
  induction members generalizing text with
  | nil => cases h
  | cons member members ih =>
    cases h with
    | last htext hend =>
      have hnode := memberText_nesting hvalues hcount htext
      have hbehind := ws_length hend
      rw [List.length_cons] at hbehind
      simp only [nestingOfMembers, Nat.max_zero]
      omega
    | more htext hcomma h =>
      have hnode := memberText_nesting hvalues hcount htext
      have hbehind := ws_length hcomma
      rw [List.length_cons] at hbehind
      have hothers := ih (by omega) h
      simp only [nestingOfMembers]
      omega

end Nesting

/-- Each level of the nesting takes a byte. -/
lemma nesting_lt_length (count : ℕ) :
    ∀ {text rest : List UInt8} {node : JsonNode}, text.length ≤ count →
      ValueText floatValue limit text node rest → node.nesting + rest.length < text.length := by
  induction count with
  | zero =>
    intro text rest node hcount h
    obtain ⟨byte, others, rfl, -⟩ := valueText_starts h
    exact absurd hcount (Nat.not_succ_le_zero _)
  | succ count ih =>
    intro text rest node hcount h
    have hempty : ∀ {text rest : List UInt8} {byte : UInt8}, Ws text (byte :: rest) →
        rest.length < text.length := by
      intro text rest byte hws
      have hlength := ws_length hws
      rwa [List.length_cons] at hlength
    cases h with
    | @literal text rest node h =>
      have hliteral : 0 < text.length ∧ node.nesting = 0 := by
        simp only [literals, List.mem_cons, Prod.mk.injEq, List.not_mem_nil, or_false] at h
        rcases h with ⟨rfl, rfl⟩ | ⟨rfl, rfl⟩ | ⟨rfl, rfl⟩ | ⟨rfl, rfl⟩ | ⟨rfl, rfl⟩ | ⟨rfl, rfl⟩
        iterate 6 exact ⟨by decide, rfl⟩
      rw [List.length_append]
      omega
    | string h =>
      have hstring := stringText_length h
      simp only [JsonNode.nesting, List.length_cons]
      omega
    | number h =>
      have hzero := numberText_nesting h
      obtain ⟨byte, others, rfl, -⟩ := numberText_starts h
      rw [List.length_append, List.length_cons]
      omega
    | emptyArray h =>
      have hlength := hempty h
      simp only [JsonNode.nesting, nestingOfValues, List.length_cons]
      omega
    | array h =>
      have hlength := elementsText_nesting ih (Nat.le_of_succ_le_succ hcount) h
      simp only [JsonNode.nesting, List.length_cons]
      omega
    | emptyObject h =>
      have hlength := hempty h
      simp only [JsonNode.nesting, nestingOfMembers, List.length_cons]
      omega
    | object h =>
      have hlength := membersText_nesting ih (Nat.le_of_succ_le_succ hcount) h
      simp only [JsonNode.nesting, List.length_cons]
      omega

lemma textOf_nesting {node : JsonNode} (h : TextOf floatValue limit source node) :
    node.nesting < source.length := by
  obtain ⟨first, behind, hws, hvalue, -⟩ := h
  have hlength := ws_length hws
  have hnesting := nesting_lt_length first.length le_rfl hvalue
  omega

/-! ## The limit of digits -/

lemma digitsValue_foldl (digits : List UInt8) (value : ℕ) :
    value * 10 ^ digits.length ≤
      digits.foldl (fun value digit => value * 10 + (digit.toNat - 48)) value := by
  induction digits generalizing value with
  | nil => simp
  | cons digit digits ih =>
    calc value * 10 ^ (digits.length + 1) = value * 10 * 10 ^ digits.length := by ring
      _ ≤ (value * 10 + (digit.toNat - 48)) * 10 ^ digits.length :=
        Nat.mul_le_mul_right _ (Nat.le_add_right _ _)
      _ ≤ _ := ih _

/-- An integer outside 64 bits with more digits than the limit is refused. -/
lemma parse_beyondLimit {minus digits : List UInt8} {depthLimit : ℕ}
    (hminus : minus = [] ∨ minus = [ascii '-']) (hdigits : IntText digits)
    (hlimit : ¬WithinLimit limit minus digits) :
    parse (minus ++ digits) parseF64 limit depthLimit =
      jsonError (limitMessage limit digits) (minus ++ digits).length := by
  have hskip : skipWs (minus ++ digits) 0 = 0 := by
    have hvalue : ValueText (fun _ => nan) 0 (minus ++ digits ++ []) _ [] :=
      .number (.integer hminus hdigits (.inr rfl))
    obtain ⟨byte, others, htext, hws, -⟩ := valueText_starts hvalue
    rw [List.append_nil] at htext
    rw [htext, skipWs, List.drop_zero, List.takeWhile_cons_of_neg (by rw [hws]; simp)]
    rfl
  obtain ⟨levels, hlevels⟩ : ∃ levels, max depthLimit 1 = levels + 1 :=
    ⟨max depthLimit 1 - 1, by omega⟩
  have hdrop : (minus ++ digits).drop 0 = minus ++ digits ++ [] ++ [] ++ [] := by simp
  have hstarts := @startsNumber_parts minus digits [] hminus hdigits
  rw [List.append_nil] at hstarts
  have hparts := @parseNumber_parts _ 0 parseF64 limit minus digits [] [] [] hminus hdigits
    (.inl rfl) (.inl rfl) (headNot_nil _) hdrop
  have hfirst : (minus ++ digits).drop (skipWs (minus ++ digits) 0) = minus ++ digits ++ [] := by
    rw [hskip, List.append_nil]
    rfl
  simp only [List.append_nil] at hparts
  have hnone : parseI64 (integerValue minus digits) = none :=
    Option.not_isSome_iff_eq_none.1 fun hsome => hlimit (.inl hsome)
  rw [parse, hlevels, hskip, parseValue_number hstarts hfirst, hskip,
    hparts, numberNode_integer hminus hdigits.1, hnone]
  dsimp only
  rw [if_neg fun h => hlimit (.inr h), Nat.zero_add]
  rfl

/-- The parser accepts the texts of the grammar whose nesting is below the limit, with the nodes
that they denote.  At every level and position it ends, and its position stays in the source. -/
theorem parse_eq_ok_iff (hparse : ParsesFloats floatValue parseF64) {depthLimit : ℕ}
    (hnesting : ∀ node, TextOf floatValue limit source node → node.nesting < depthLimit) :
    (∀ node, parse source parseF64 limit depthLimit = .ok node ↔
        TextOf floatValue limit source node) ∧
      ∀ levels pos, pos ≤ source.length →
        (∃ node next, parseValue source parseF64 limit levels pos = .ok (node, next) ∧
            pos ≤ next ∧ next ≤ source.length) ∨
          ∃ message errorPos, parseValue source parseF64 limit levels pos =
            .error (.error ⟨message, errorPos⟩) ∧ errorPos ≤ source.length := by
  refine ⟨fun node => ⟨parse_sound hparse, fun h => parse_complete hparse h (hnesting node h)⟩, ?_⟩
  intro levels pos hpos
  have hvalues := @parseValue_ends source parseF64 floatValue limit hparse levels
  cases hvalue : parseValue source parseF64 limit levels pos with
  | ok result =>
    have hmoves := hvalues.moves hvalue
    exact .inl ⟨result.1, result.2, rfl, hmoves.le, hmoves.next_le hpos⟩
  | error fault =>
    obtain ⟨error, rfl, hle⟩ := hvalues.ends pos hpos fault hvalue
    exact .inr ⟨error.message, error.pos, rfl, hle⟩

end

/-- One and a half, in an array. -/
theorem parse_eq_ok_iff_oneAndHalf :
    (∀ node, parse (asciiBytes "[1.5]") (fun _ => some ⟨0x3FF8000000000000⟩)
          defaultIntMaxStrDigits 6 = .ok node ↔
        TextOf (fun _ => ⟨0x3FF8000000000000⟩) defaultIntMaxStrDigits (asciiBytes "[1.5]") node) ∧
      ∀ levels pos, pos ≤ (asciiBytes "[1.5]").length →
        (∃ node next, parseValue (asciiBytes "[1.5]") (fun _ => some ⟨0x3FF8000000000000⟩)
              defaultIntMaxStrDigits levels pos = .ok (node, next) ∧
            pos ≤ next ∧ next ≤ (asciiBytes "[1.5]").length) ∨
          ∃ message errorPos, parseValue (asciiBytes "[1.5]") (fun _ => some ⟨0x3FF8000000000000⟩)
              defaultIntMaxStrDigits levels pos = .error (.error ⟨message, errorPos⟩) ∧
            errorPos ≤ (asciiBytes "[1.5]").length :=
  parse_eq_ok_iff (fun _ _ => rfl) fun _ h => (textOf_nesting h).trans (by decide)

lemma ones_intText (count : ℕ) : IntText (List.replicate (count + 1) (ascii '1')) := by
  have hhead : some (ascii '1') ≠ some (ascii '0') := by decide
  refine ⟨⟨by simp, ?_⟩, .inr hhead⟩
  intro byte hbyte
  rw [List.eq_of_mem_replicate hbyte]
  decide

lemma ones_beyondLimit {limit : ℤ} {count : ℕ} (hlimit : 0 < limit) (hcount : limit ≤ count)
    (hlarge : 19 ≤ count) : ¬WithinLimit limit [] (List.replicate (count + 1) (ascii '1')) := by
  rintro (hsome | hvalid)
  · have hle : 1 * 10 ^ count ≤ digitsValue (List.replicate (count + 1) (ascii '1')) := by
      have hfoldl := digitsValue_foldl (List.replicate count (ascii '1')) 1
      rw [List.length_replicate] at hfoldl
      exact hfoldl
    have hpow : (10 : ℕ) ^ 19 ≤ 10 ^ count := Nat.pow_le_pow_right (by norm_num) hlarge
    have hbig : (2 : ℕ) ^ 63 < 10 ^ 19 := by decide
    have hvalue : ¬(-2 ^ 63 ≤ integerValue [] (List.replicate (count + 1) (ascii '1')) ∧
        integerValue [] (List.replicate (count + 1) (ascii '1')) < 2 ^ 63) := by
      rw [integerValue, if_pos rfl]
      rintro ⟨-, hlt⟩
      have hlt : digitsValue (List.replicate (count + 1) (ascii '1')) < 2 ^ 63 := by
        exact_mod_cast hlt
      omega
    rw [parseI64, if_neg hvalue] at hsome
    cases hsome
  · rw [jsonValidateIntDigitsLimit, Bool.not_eq_true', decide_eq_false_iff_not,
      List.length_replicate] at hvalid
    exact hvalid ⟨hlimit, by push_cast; omega⟩

/-- A text of 4301 ones is an integer of the grammar without a limit, and is refused. -/
theorem parse_refuses_integers :
    ¬∀ (parseF64 : List UInt8 → Option Binary64) (floatValue : List UInt8 → Binary64),
      ParsesFloats floatValue parseF64 → ∀ (source : List UInt8) (depthLimit : ℕ),
        (∀ node, TextOf floatValue 0 source node → node.nesting < depthLimit) →
          ∀ node, parse source parseF64 defaultIntMaxStrDigits depthLimit = .ok node ↔
            TextOf floatValue 0 source node := by
  intro h
  have hdigits := ones_intText 4300
  have htext : TextOf (fun _ => nan) 0 (List.replicate 4301 (ascii '1'))
      (integerNode (integerValue [] (List.replicate 4301 (ascii '1')))) := by
    have hnumber : ValueText (fun _ => nan) 0 _ _ [] :=
      .number (.integer (.inl rfl) hdigits (.inr rfl))
    rw [List.append_nil] at hnumber
    exact ⟨_, _, ws_refl _, hnumber, ws_refl _⟩
  have haccepts := (h (fun _ => some nan) (fun _ => nan) (fun _ _ => rfl)
    (List.replicate 4301 (ascii '1')) 4302 (fun node hnode => by
      have hnesting := textOf_nesting hnode
      rw [List.length_replicate] at hnesting
      omega) _).2 htext
  have hbeyond : ¬WithinLimit defaultIntMaxStrDigits [] (List.replicate 4301 (ascii '1')) :=
    ones_beyondLimit (by decide) (by decide) (by decide)
  have hrefuses := @parse_beyondLimit (fun _ => some nan) _ _ _ 4302 (.inl rfl) hdigits hbeyond
  rw [List.nil_append, haccepts] at hrefuses
  cases hrefuses

end JsonParser

end Pyrs
