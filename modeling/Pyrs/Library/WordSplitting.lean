import Mathlib.Data.List.Basic
import Mathlib.Data.List.TakeWhile

/-!
# Splitting at runs of separators

The words of a list are its maximal runs of elements that are no separators.  A list is split from
one end into so many words, and what is left behind them stays in one piece.
-/

namespace WordSplitting

variable {α : Type} {p q : α → Bool}

/-- So many words from the left, and the rest from the first word behind them on. -/
def splitLeft (p : α → Bool) : ℕ → List α → List (List α)
  | 0, text => match text.dropWhile p with
    | [] => []
    | first :: rest => [first :: rest]
  | n + 1, text => match text.dropWhile p with
    | [] => []
    | first :: rest =>
      (first :: rest).takeWhile (!p ·) :: splitLeft p n ((first :: rest).dropWhile (!p ·))

/-- So many words from the right. -/
def splitRight (p : α → Bool) (n : ℕ) (text : List α) : List (List α) :=
  ((splitLeft p n text.reverse).map List.reverse).reverse

/-! ## The first word -/

/-- The text begins with a gap and a word. -/
structure Cut (p : α → Bool) (text gap word rest : List α) : Prop where
  text_eq : text = gap ++ (word ++ rest)
  gap_separates : ∀ c ∈ gap, p c = true
  word_ne_nil : word ≠ []
  word_plain : ∀ c ∈ word, p c = false
  rest_separates : ∀ c ∈ rest.head?, p c = true

lemma head?_dropWhile_plain (text : List α) :
    ∀ c ∈ (text.dropWhile (!p ·)).head?, p c = true := by
  intro c hc
  have := List.head?_dropWhile_not (!p ·) text
  rw [Option.mem_def.1 hc] at this
  simpa using this

theorem all_or_cut (p : α → Bool) (text : List α) :
    (∀ c ∈ text, p c = true) ∨ ∃ gap word rest, Cut p text gap word rest := by
  cases hdrop : text.dropWhile p with
  | nil => exact .inl (List.dropWhile_eq_nil_iff.1 hdrop)
  | cons first rest =>
    have hfirst : p first = false := by
      have := List.head_dropWhile_not p (l := text) (by simp [hdrop])
      simpa [hdrop] using this
    refine .inr ⟨text.takeWhile p, (first :: rest).takeWhile (!p ·),
      (first :: rest).dropWhile (!p ·), ?_, ?_, ?_, ?_, ?_⟩
    · rw [List.takeWhile_append_dropWhile, ← hdrop, List.takeWhile_append_dropWhile]
    · exact fun c hc => List.mem_takeWhile_imp hc
    · simp [hfirst]
    · exact fun c hc => by simpa using List.mem_takeWhile_imp hc
    · exact head?_dropWhile_plain (first :: rest)

lemma dropWhile_gap {gap text : List α} (h : ∀ c ∈ gap, p c = true) :
    (gap ++ text).dropWhile p = text.dropWhile p := by
  induction gap with
  | nil => rfl
  | cons c gap ih =>
    rw [List.cons_append, List.dropWhile_cons_of_pos (h c List.mem_cons_self)]
    exact ih fun d hd => h d (List.mem_cons_of_mem _ hd)

/-- What begins with no separator is not shortened. -/
lemma dropWhile_plain {text : List α} (h : ∀ c ∈ text.head?, p c = false) :
    text.dropWhile p = text := by
  cases text with
  | nil => rfl
  | cons c text => exact List.dropWhile_cons_of_neg (by simp [h c rfl])

lemma takeWhile_word {word rest : List α} (hword : ∀ c ∈ word, p c = false)
    (hrest : ∀ c ∈ rest.head?, p c = true) : (word ++ rest).takeWhile (!p ·) = word := by
  induction word with
  | nil =>
    cases rest with
    | nil => rfl
    | cons c rest => simp [hrest c rfl]
  | cons c word ih =>
    rw [List.cons_append, List.takeWhile_cons_of_pos (by simp [hword c List.mem_cons_self])]
    exact congrArg _ (ih fun d hd => hword d (List.mem_cons_of_mem _ hd))

lemma dropWhile_word {word rest : List α} (hword : ∀ c ∈ word, p c = false)
    (hrest : ∀ c ∈ rest.head?, p c = true) : (word ++ rest).dropWhile (!p ·) = rest := by
  have h := List.takeWhile_append_dropWhile (p := (!p ·)) (l := word ++ rest)
  rw [takeWhile_word hword hrest] at h
  exact List.append_cancel_left h

/-! ## Splitting and the first word -/

theorem splitLeft_gap {gap text : List α} (n : ℕ) (h : ∀ c ∈ gap, p c = true) :
    splitLeft p n (gap ++ text) = splitLeft p n text := by
  cases n <;> simp only [splitLeft, dropWhile_gap h]

theorem splitLeft_of_all {text : List α} (n : ℕ) (h : ∀ c ∈ text, p c = true) :
    splitLeft p n text = [] := by
  rw [← List.append_nil text, splitLeft_gap n h]
  cases n <;> rfl

namespace Cut

variable {text gap word rest : List α}

lemma drop_gap (h : Cut p text gap word rest) : text.dropWhile p = word ++ rest := by
  rw [h.text_eq, dropWhile_gap h.gap_separates, dropWhile_plain]
  intro c hc
  obtain ⟨d, word', hword⟩ := List.exists_cons_of_ne_nil h.word_ne_nil
  rw [hword] at hc
  obtain rfl := Option.some.inj hc
  exact h.word_plain d (by simp [hword])

theorem splitLeft_zero (h : Cut p text gap word rest) :
    splitLeft p 0 text = [word ++ rest] := by
  obtain ⟨d, word', hword⟩ := List.exists_cons_of_ne_nil h.word_ne_nil
  simp only [splitLeft, h.drop_gap, hword, List.cons_append]

theorem splitLeft_succ (h : Cut p text gap word rest) (n : ℕ) :
    splitLeft p (n + 1) text = word :: splitLeft p n rest := by
  have htake := takeWhile_word h.word_plain h.rest_separates
  have hdrop := dropWhile_word h.word_plain h.rest_separates
  obtain ⟨d, word', hword⟩ := List.exists_cons_of_ne_nil h.word_ne_nil
  rw [hword, List.cons_append] at htake hdrop
  simp only [splitLeft, h.drop_gap, hword, List.cons_append, htake, hdrop]

end Cut

/-- The first part begins with the first element that is no separator. -/
lemma exists_splitLeft_eq_cons {gap : List α} {c : α} (n : ℕ) (rest : List α)
    (hgap : ∀ c ∈ gap, p c = true) (hc : p c = false) :
    ∃ word parts, splitLeft p n (gap ++ c :: rest) = (c :: word) :: parts := by
  rw [splitLeft_gap n hgap]
  cases n with
  | zero => exact ⟨rest, [], by simp [splitLeft, hc]⟩
  | succ n =>
    refine ⟨rest.takeWhile (!p ·), splitLeft p n (rest.dropWhile (!p ·)), ?_⟩
    simp [splitLeft, hc]

/-! ## What a splitting keeps -/

/-- The parts stand in the text in order, none is empty, and between them are separators only. -/
inductive Separated (p : α → Bool) : List α → List (List α) → Prop
  | gap {gap : List α} (hgap : ∀ c ∈ gap, p c = true) : Separated p gap []
  | part {gap part rest : List α} {parts : List (List α)} (hgap : ∀ c ∈ gap, p c = true)
      (hpart : part ≠ []) (hrest : Separated p rest parts) :
      Separated p (gap ++ (part ++ rest)) (part :: parts)

theorem separated_splitLeft (n : ℕ) (text : List α) : Separated p text (splitLeft p n text) := by
  induction n generalizing text with
  | zero =>
    rcases all_or_cut p text with hall | ⟨gap, word, rest, hcut⟩
    · rw [splitLeft_of_all 0 hall]
      exact .gap hall
    · have hpart : word ++ rest ≠ [] := by simp [hcut.word_ne_nil]
      have hnone : Separated p [] [] := .gap (by simp)
      have h := hnone.part hcut.gap_separates hpart
      rw [List.append_nil] at h
      rwa [hcut.splitLeft_zero, hcut.text_eq]
  | succ n ih =>
    rcases all_or_cut p text with hall | ⟨gap, word, rest, hcut⟩
    · rw [splitLeft_of_all (n + 1) hall]
      exact .gap hall
    · rw [hcut.splitLeft_succ, hcut.text_eq]
      exact .part hcut.gap_separates hcut.word_ne_nil (ih rest)

namespace Separated

variable {text : List α} {parts : List (List α)}

lemma append_gap {gap : List α} (h : Separated p text parts) (hgap : ∀ c ∈ gap, p c = true) :
    Separated p (text ++ gap) parts := by
  induction h with
  | gap hfirst =>
    exact .gap fun c hc => (List.mem_append.1 hc).elim (hfirst c) (hgap c)
  | part hfirst hpart _ ih =>
    rw [List.append_assoc, List.append_assoc]
    exact .part hfirst hpart ih

lemma append_part {part : List α} (h : Separated p text parts) (hpart : part ≠ []) :
    Separated p (text ++ part) (parts ++ [part]) := by
  induction h with
  | gap hfirst =>
    have hnone : Separated p [] [] := .gap (by simp)
    simpa using hnone.part hfirst hpart
  | part hfirst hne _ ih =>
    rw [List.append_assoc, List.append_assoc]
    exact .part hfirst hne ih

theorem reverse (h : Separated p text parts) :
    Separated p text.reverse (parts.map List.reverse).reverse := by
  induction h with
  | gap hgap => exact .gap fun c hc => hgap c (List.mem_reverse.1 hc)
  | part hgap hpart _ ih =>
    rw [List.reverse_append, List.reverse_append, List.map_cons, List.reverse_cons]
    refine append_gap ?_ fun c hc => hgap c (List.mem_reverse.1 hc)
    exact append_part ih (by simpa using hpart)

end Separated

theorem separated_splitRight (n : ℕ) (text : List α) :
    Separated p text (splitRight p n text) := by
  have h := (separated_splitLeft (p := p) n text.reverse).reverse
  rwa [List.reverse_reverse] at h

theorem length_splitLeft_le (n : ℕ) (text : List α) : (splitLeft p n text).length ≤ n + 1 := by
  induction n generalizing text with
  | zero =>
    rcases all_or_cut p text with hall | ⟨gap, word, rest, hcut⟩
    · rw [splitLeft_of_all 0 hall]
      exact Nat.zero_le _
    · rw [hcut.splitLeft_zero]
      exact Nat.le_refl _
  | succ n ih =>
    rcases all_or_cut p text with hall | ⟨gap, word, rest, hcut⟩
    · rw [splitLeft_of_all (n + 1) hall]
      exact Nat.zero_le _
    · rw [hcut.splitLeft_succ]
      exact Nat.succ_le_succ (ih rest)

theorem length_splitRight_le (n : ℕ) (text : List α) : (splitRight p n text).length ≤ n + 1 := by
  rw [splitRight, List.length_reverse, List.length_map]
  exact length_splitLeft_le n _

/-! ## All words -/

/-- The words of a text. -/
def words (p : α → Bool) (text : List α) : List (List α) := splitLeft p text.length text

lemma Cut.length_rest_lt {text gap word rest : List α} (h : Cut p text gap word rest) :
    rest.length < text.length := by
  have := List.length_pos_of_ne_nil h.word_ne_nil
  rw [h.text_eq, List.length_append, List.length_append]
  omega

/-- More splits than there are characters find all words. -/
theorem splitLeft_of_length_le {n : ℕ} {text : List α} (h : text.length ≤ n) :
    splitLeft p n text = words p text := by
  have key : ∀ (m n : ℕ) (text : List α), text.length ≤ m → text.length ≤ n →
      splitLeft p m text = splitLeft p n text := by
    intro m
    induction m with
    | zero =>
      intro n text hm _
      rw [List.length_eq_zero_iff.1 (Nat.le_zero.1 hm), splitLeft_of_all 0 (by simp),
        splitLeft_of_all n (by simp)]
    | succ m ih =>
      intro n text hm hn
      rcases all_or_cut p text with hall | ⟨gap, word, rest, hcut⟩
      · rw [splitLeft_of_all _ hall, splitLeft_of_all _ hall]
      · have := hcut.length_rest_lt
        obtain ⟨n, rfl⟩ : ∃ k, n = k + 1 := ⟨n - 1, by omega⟩
        rw [hcut.splitLeft_succ, hcut.splitLeft_succ, ih n rest (by omega) (by omega)]
  exact key n text.length text h (Nat.le_refl _)

theorem words_of_all {text : List α} (h : ∀ c ∈ text, p c = true) : words p text = [] :=
  splitLeft_of_all _ h

theorem words_gap (gap : List α) {text : List α} (h : ∀ c ∈ gap, p c = true) :
    words p (gap ++ text) = words p text := by
  rw [words, splitLeft_gap _ h, splitLeft_of_length_le (by simp)]

theorem Cut.words_eq {text gap word rest : List α} (h : Cut p text gap word rest) :
    words p text = word :: words p rest := by
  have hlt := h.length_rest_lt
  rw [← splitLeft_of_length_le (Nat.le_succ _), h.splitLeft_succ, splitLeft_of_length_le hlt.le]

/-- A word behind a text that ends with a separator is a further word. -/
theorem words_append {front word gap : List α} (hfront : ∀ c ∈ front.getLast?, p c = true)
    (hne : word ≠ []) (hword : ∀ c ∈ word, p c = false) (hgap : ∀ c ∈ gap, p c = true) :
    words p (front ++ (word ++ gap)) = words p front ++ [word] := by
  induction hlength : front.length using Nat.strong_induction_on generalizing front with
  | _ n ih =>
    rcases all_or_cut p front with hall | ⟨first, part, rest, hcut⟩
    · have hlast : Cut p (front ++ (word ++ gap)) front word gap :=
        ⟨rfl, hall, hne, hword, fun c hc => hgap c (List.mem_of_mem_head? hc)⟩
      rw [hlast.words_eq, words_of_all hgap, words_of_all hall]
      rfl
    · have hrest : rest ≠ [] := by
        rintro rfl
        have hlast : part.getLast hcut.word_ne_nil ∈ front.getLast? := by
          simp [congrArg List.getLast? hcut.text_eq, List.getLast?_append,
            List.getLast?_eq_some_getLast hcut.word_ne_nil]
        have hplain := hcut.word_plain _ (List.getLast_mem hcut.word_ne_nil)
        rw [hfront _ hlast] at hplain
        cases hplain
      have hnext : Cut p (front ++ (word ++ gap)) first part (rest ++ (word ++ gap)) := by
        refine ⟨?_, hcut.gap_separates, hcut.word_ne_nil, hcut.word_plain, ?_⟩
        · rw [hcut.text_eq, List.append_assoc, List.append_assoc]
        · intro c hc
          rw [List.head?_append_of_ne_nil _ hrest] at hc
          exact hcut.rest_separates c hc
      have hlast : ∀ c ∈ rest.getLast?, p c = true := by
        intro c hc
        refine hfront c ?_
        rw [hcut.text_eq, ← List.append_assoc, List.getLast?_append, Option.mem_def.1 hc]
        rfl
      have hshort := hcut.length_rest_lt
      rw [hnext.words_eq, hcut.words_eq, ih rest.length (by omega) hlast rfl, List.cons_append]

/-- The words of the text that is read backwards. -/
theorem words_reverse (text : List α) :
    words p text.reverse = ((words p text).map List.reverse).reverse := by
  induction hlength : text.length using Nat.strong_induction_on generalizing text with
  | _ n ih =>
    rcases all_or_cut p text.reverse with hall | ⟨gap, word, rest, hcut⟩
    · rw [words_of_all hall, words_of_all fun c hc => hall c (List.mem_reverse.2 hc)]
      rfl
    · have htext := congrArg List.reverse hcut.text_eq
      rw [List.reverse_reverse, List.reverse_append, List.reverse_append,
        List.append_assoc] at htext
      have hfront : ∀ c ∈ rest.reverse.getLast?, p c = true := by
        rw [List.getLast?_reverse]
        exact hcut.rest_separates
      have hshort := hcut.length_rest_lt
      rw [List.length_reverse] at hshort
      have hrest := ih rest.reverse.length (by rw [List.length_reverse]; omega) rest.reverse rfl
      rw [List.reverse_reverse] at hrest
      rw [hcut.words_eq, hrest, htext, words_append hfront (by simpa using hcut.word_ne_nil)
        (fun c hc => hcut.word_plain c (List.mem_reverse.1 hc))
        fun c hc => hcut.gap_separates c (List.mem_reverse.1 hc)]
      simp

theorem splitRight_of_length_le {n : ℕ} {text : List α} (h : text.length ≤ n) :
    splitRight p n text = words p text := by
  rw [splitRight, splitLeft_of_length_le (by rwa [List.length_reverse]), words_reverse]
  simp

/-! ## More separators -/

/-- How many words begin, after a separator or inside a word. -/
def wordCount (p : α → Bool) : Bool → List α → ℕ
  | _, [] => 0
  | inside, c :: rest =>
    (if !inside && !p c then 1 else 0) + wordCount p (!p c) rest

/-- Each element of a kind stands behind the first element of a later word. -/
def Behind (p : α → Bool) (n : ℕ) (kind : α → Prop) (text : List α) : Prop :=
  ∀ before c after, text = before ++ c :: after → kind c → n < wordCount p false before

/-- `Behind`, when so many words have begun before. -/
private def BehindFrom (p : α → Bool) (inside : Bool) (seen n : ℕ) (kind : α → Prop)
    (text : List α) : Prop :=
  ∀ before c after, text = before ++ c :: after → kind c → n < seen + wordCount p inside before

variable {kind : α → Prop} {inside : Bool} {seen n : ℕ}

private lemma behindFrom_cons {c : α} {text : List α} :
    BehindFrom p inside seen n kind (c :: text) ↔
      (kind c → n < seen) ∧
        BehindFrom p (!p c) (seen + if !inside && !p c then 1 else 0) n kind text := by
  constructor
  · intro h
    refine ⟨h [] c text rfl, fun before d after htext hkind => ?_⟩
    rw [Nat.add_assoc]
    exact h (c :: before) d after (congrArg _ htext) hkind
  · rintro ⟨hfirst, hlater⟩ (_ | ⟨e, before⟩) d after htext hkind
    · obtain ⟨rfl, -⟩ := List.cons.inj htext
      exact hfirst hkind
    · obtain ⟨rfl, hrest⟩ := List.cons.inj htext
      rw [wordCount, ← Nat.add_assoc]
      exact hlater before d after hrest hkind

private lemma behindFrom_nil : BehindFrom p inside seen n kind [] :=
  fun _ _ _ h => absurd h.symm (by simp)

private lemma behindFrom_gap {gap text : List α} (hgap : ∀ c ∈ gap, p c = true)
    (hkind : ∀ c ∈ gap, ¬ kind c) :
    BehindFrom p false seen n kind (gap ++ text) ↔ BehindFrom p false seen n kind text := by
  induction gap with
  | nil => rfl
  | cons c gap ih =>
    rw [List.cons_append, behindFrom_cons,
      and_iff_right fun h => absurd h (hkind c List.mem_cons_self), hgap c List.mem_cons_self]
    exact ih (fun d hd => hgap d (List.mem_cons_of_mem _ hd)) fun d hd =>
      hkind d (List.mem_cons_of_mem _ hd)

/-- Before a separator it does not matter whether a word has begun. -/
private lemma behindFrom_rest {text : List α} (h : ∀ c ∈ text.head?, p c = true) :
    BehindFrom p true seen n kind text ↔ BehindFrom p false seen n kind text := by
  cases text with
  | nil => exact iff_of_true behindFrom_nil behindFrom_nil
  | cons c text => simp only [behindFrom_cons, h c rfl, Bool.not_true, Bool.and_false]

private lemma behindFrom_insideWord {word text : List α} (hword : ∀ c ∈ word, p c = false)
    (hkind : ∀ c ∈ word, ¬ kind c) :
    BehindFrom p true seen n kind (word ++ text) ↔ BehindFrom p true seen n kind text := by
  induction word with
  | nil => rfl
  | cons c word ih =>
    rw [List.cons_append, behindFrom_cons,
      and_iff_right fun h => absurd h (hkind c List.mem_cons_self), hword c List.mem_cons_self]
    exact ih (fun d hd => hword d (List.mem_cons_of_mem _ hd)) fun d hd =>
      hkind d (List.mem_cons_of_mem _ hd)

private lemma Cut.behindFrom {text gap word rest : List α} (h : Cut p text gap word rest)
    (hgap : ∀ c ∈ gap, ¬ kind c) (hword : ∀ c ∈ word, ¬ kind c) :
    BehindFrom p false seen n kind text ↔ BehindFrom p false (seen + 1) n kind rest := by
  obtain ⟨d, word', rfl⟩ := List.exists_cons_of_ne_nil h.word_ne_nil
  have hplain := List.forall_mem_cons.1 h.word_plain
  have hkind := List.forall_mem_cons.1 hword
  rw [h.text_eq, behindFrom_gap h.gap_separates hgap, List.cons_append, behindFrom_cons,
    and_iff_right fun hd => absurd hd hkind.1, hplain.1, Bool.not_false,
    Bool.true_and, if_pos rfl, behindFrom_insideWord hplain.2 hkind.2,
    behindFrom_rest h.rest_separates]

private lemma behind_iff {text : List α} :
    Behind p n kind text ↔ BehindFrom p false 0 n kind text := by
  simp only [Behind, BehindFrom, Nat.zero_add]

private lemma behindFrom_succ {text : List α} :
    BehindFrom p false (seen + 1) (n + 1) kind text ↔ BehindFrom p false seen n kind text := by
  refine forall_congr' fun before => forall_congr' fun c => forall_congr' fun after =>
    imp_congr_right fun _ => imp_congr_right fun _ => ?_
  omega

lemma wordCount_of_all {text : List α} (hall : ∀ c ∈ text, p c = true) :
    wordCount p false text = 0 := by
  induction text with
  | nil => rfl
  | cons c text ih =>
    rw [wordCount, hall c List.mem_cons_self]
    simpa using ih fun d hd => hall d (List.mem_cons_of_mem _ hd)

/-- A text of separators has no word that something could stand behind. -/
theorem behind_of_all {text : List α} (hall : ∀ c ∈ text, p c = true) :
    Behind p n kind text ↔ ∀ c ∈ text, ¬ kind c := by
  constructor
  · intro h c hc hkind
    obtain ⟨before, after, rfl⟩ := List.append_of_mem hc
    have hcount := h before c after rfl hkind
    rw [wordCount_of_all fun d hd => hall d (List.mem_append_left _ hd)] at hcount
    exact Nat.not_lt_zero n hcount
  · rintro h before c after rfl hkind
    exact absurd hkind (h c (by simp))

lemma splitLeft_eq_nil_iff (n : ℕ) (text : List α) :
    splitLeft p n text = [] ↔ ∀ c ∈ text, p c = true := by
  refine ⟨fun h => ?_, splitLeft_of_all n⟩
  rcases all_or_cut p text with hall | ⟨gap, word, rest, hcut⟩
  · exact hall
  · cases n with
    | zero => cases hcut.splitLeft_zero.symm.trans h
    | succ n => cases (hcut.splitLeft_succ n).symm.trans h

/-- In front of the first word both kinds of separators are dropped only if they agree there. -/
private lemma not_agree_of_gap {text gap word rest : List α} (hcut : Cut q text gap word rest)
    (hgap : ¬ ∀ c ∈ gap, p c = true) (hpq : ∀ c, p c = true → q c = true) (n : ℕ) :
    splitLeft p n text ≠ splitLeft q n text ∧
      ¬ Behind q n (fun c => q c = true ∧ p c = false) text := by
  obtain ⟨first, word', rfl⟩ := List.exists_cons_of_ne_nil hcut.word_ne_nil
  rcases all_or_cut p gap with hall | ⟨before, late, after, hlate⟩
  · exact absurd hall hgap
  obtain ⟨c, late', rfl⟩ := List.exists_cons_of_ne_nil hlate.word_ne_nil
  have hc := (List.forall_mem_cons.1 hlate.word_plain).1
  have hqc : q c = true := hcut.gap_separates c (by simp [hlate.text_eq])
  have htext : text = before ++ c :: (late' ++ after ++ (first :: word' ++ rest)) := by
    simp [hcut.text_eq, hlate.text_eq]
  constructor
  · intro heq
    obtain ⟨_, _, hp⟩ := exists_splitLeft_eq_cons n
      (late' ++ after ++ (first :: word' ++ rest)) hlate.gap_separates hc
    obtain ⟨_, _, hq⟩ := exists_splitLeft_eq_cons n (word' ++ rest) hcut.gap_separates
      (List.forall_mem_cons.1 hcut.word_plain).1
    rw [← htext] at hp
    rw [← List.cons_append, ← hcut.text_eq, ← heq, hp] at hq
    obtain ⟨hword, -⟩ := List.cons.inj hq
    obtain ⟨rfl, -⟩ := List.cons.inj hword
    rw [(List.forall_mem_cons.1 hcut.word_plain).1] at hqc
    cases hqc
  · intro h
    have hcount := h before c _ htext ⟨hqc, hc⟩
    rw [wordCount_of_all fun d hd => hpq d (hlate.gap_separates d hd)] at hcount
    exact Nat.not_lt_zero n hcount

/-- Of more separators there are fewer elements that are none. -/
private lemma plain_of_plain (hpq : ∀ c, p c = true → q c = true) {c : α} (h : q c = false) :
    p c = false :=
  Bool.eq_false_iff.2 fun hp => by
    rw [hpq c hp] at h
    cases h

private lemma splitLeft_eq_iff_of_all {text : List α} (hall : ∀ c ∈ text, q c = true) :
    splitLeft p n text = splitLeft q n text ↔
      Behind q n (fun c => q c = true ∧ p c = false) text := by
  rw [splitLeft_of_all n hall, splitLeft_eq_nil_iff, behind_of_all hall]
  exact forall₂_congr fun c hc => by simp [hall c hc]

/-- Where both drop the gap, what is new can only stand behind the word. -/
private lemma Cut.behind_rest {text gap word rest : List α} (hcut : Cut q text gap word rest)
    (hgap : ∀ c ∈ gap, p c = true) :
    Behind q n (fun c => q c = true ∧ p c = false) text ↔
      BehindFrom q false (0 + 1) n (fun c => q c = true ∧ p c = false) rest := by
  rw [behind_iff]
  exact hcut.behindFrom (fun c hc h => by simp [hgap c hc] at h)
    fun c hc h => by simp [hcut.word_plain c hc] at h

/-- A word that ends at a separator that is none for `p` goes on there. -/
private lemma Cut.splitLeft_ne {text gap word rest : List α} {s : α}
    (hcut : Cut q text gap word (s :: rest)) (hpq : ∀ c, p c = true → q c = true)
    (hgap : ∀ c ∈ gap, p c = true) (hs : p s = false) :
    splitLeft p (n + 1) text ≠ splitLeft q (n + 1) text := by
  intro heq
  have hcut' : Cut p text gap (word ++ s :: rest.takeWhile (!p ·)) (rest.dropWhile (!p ·)) := by
    refine ⟨?_, hgap, by simp, ?_, head?_dropWhile_plain rest⟩
    · rw [List.append_assoc, List.cons_append, List.takeWhile_append_dropWhile, hcut.text_eq]
    · intro c hc
      rcases List.mem_append.1 hc with hc | hc
      · exact plain_of_plain hpq (hcut.word_plain c hc)
      rcases List.mem_cons.1 hc with rfl | hc
      · exact hs
      · simpa using List.mem_takeWhile_imp hc
  rw [hcut.splitLeft_succ, hcut'.splitLeft_succ] at heq
  have hlength := congrArg List.length (List.cons.inj heq).1
  rw [List.length_append, List.length_cons] at hlength
  omega

/-- With more separators the text is split in the same way exactly when those that are new stand
behind the last split. -/
theorem splitLeft_eq_iff (hpq : ∀ c, p c = true → q c = true) (n : ℕ) (text : List α) :
    splitLeft p n text = splitLeft q n text ↔
      Behind q n (fun c => q c = true ∧ p c = false) text := by
  induction n generalizing text with
  | zero =>
    rcases all_or_cut q text with hall | ⟨gap, word, rest, hcut⟩
    · exact splitLeft_eq_iff_of_all hall
    by_cases hgap : ∀ c ∈ gap, p c = true
    swap
    · obtain ⟨hne, hbehind⟩ := not_agree_of_gap hcut hgap hpq 0
      exact iff_of_false hne hbehind
    refine iff_of_true ?_ ?_
    · obtain ⟨first, word', rfl⟩ := List.exists_cons_of_ne_nil hcut.word_ne_nil
      have hfirst : ∀ c ∈ (first :: word' ++ rest).head?, p c = false := by
        rintro c ⟨⟩
        exact plain_of_plain hpq (List.forall_mem_cons.1 hcut.word_plain).1
      rw [hcut.splitLeft_zero, hcut.text_eq, splitLeft_gap 0 hgap, splitLeft,
        dropWhile_plain hfirst]
      rfl
    · rw [hcut.behind_rest hgap]
      intro before c after _ _
      omega
  | succ n ih =>
    rcases all_or_cut q text with hall | ⟨gap, word, rest, hcut⟩
    · exact splitLeft_eq_iff_of_all hall
    by_cases hgap : ∀ c ∈ gap, p c = true
    swap
    · obtain ⟨hne, hbehind⟩ := not_agree_of_gap hcut hgap hpq (n + 1)
      exact iff_of_false hne hbehind
    rw [hcut.behind_rest hgap]
    by_cases hrest : ∀ c ∈ rest.head?, p c = true
    · have hcut' : Cut p text gap word rest :=
        ⟨hcut.text_eq, hgap, hcut.word_ne_nil,
          fun c hc => plain_of_plain hpq (hcut.word_plain c hc), hrest⟩
      rw [hcut.splitLeft_succ, hcut'.splitLeft_succ, behindFrom_succ, ← behind_iff, ← ih,
        List.cons_inj_right]
    · cases rest with
      | nil => exact absurd (fun c hc => by cases hc) hrest
      | cons s rest =>
        have hs : p s = false := Bool.eq_false_iff.2 fun h => hrest (by rintro c ⟨⟩; exact h)
        refine iff_of_false (hcut.splitLeft_ne hpq hgap hs) fun h => ?_
        have hlt := h [] s rest rfl ⟨hcut.rest_separates s rfl, hs⟩
        rw [wordCount] at hlt
        omega

/-- From the right the same holds of the text that is read backwards. -/
theorem splitRight_eq_iff (hpq : ∀ c, p c = true → q c = true) (n : ℕ) (text : List α) :
    splitRight p n text = splitRight q n text ↔
      Behind q n (fun c => q c = true ∧ p c = false) text.reverse := by
  rw [← splitLeft_eq_iff hpq, splitRight, splitRight, List.reverse_inj]
  exact List.map_inj_right fun _ _ => List.reverse_inj.1

end WordSplitting
