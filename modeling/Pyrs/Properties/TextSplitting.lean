import Mathlib.Data.Char
import Pyrs.Library.WordSplitting
import Pyrs.Model.TextSplitting

/-!
# Splitting text at whitespace and into lines

The functions split at whitespace as `str.split` and `str.rsplit` do, but for four characters that
are whitespace in Python only.
-/

namespace Pyrs

namespace TextSplitting

open WordSplitting

/-! ## From the left -/

lemma firstRunLoop_some {start idx : ℕ} {run rest : List Char}
    (hrun : ∀ c ∈ run, isWhitespace c = true) (hrest : ∀ c ∈ rest.head?, isWhitespace c = false) :
    firstRunLoop (some start) idx (run ++ rest) = some (start, idx + run.length) := by
  induction run generalizing idx with
  | nil =>
    cases rest with
    | nil => rfl
    | cons c rest =>
      rw [List.nil_append, firstRunLoop, hrest c rfl]
      rfl
  | cons c run ih =>
    rw [List.cons_append, firstRunLoop, if_pos (hrun c List.mem_cons_self), Option.getD_some,
      ih fun d hd => hrun d (List.mem_cons_of_mem _ hd), List.length_cons]
    congr 2
    omega

lemma firstRunLoop_word {idx : ℕ} {word rest : List Char}
    (hword : ∀ c ∈ word, isWhitespace c = false) :
    firstRunLoop none idx (word ++ rest) = firstRunLoop none (idx + word.length) rest := by
  induction word generalizing idx with
  | nil => rfl
  | cons c word ih =>
    rw [List.cons_append, firstRunLoop, hword c List.mem_cons_self, if_neg Bool.false_ne_true,
      ih fun d hd => hword d (List.mem_cons_of_mem _ hd), List.length_cons]
    congr 1
    omega

lemma firstWhitespaceRun_word {word : List Char} (hword : ∀ c ∈ word, isWhitespace c = false) :
    firstWhitespaceRun word = none := by
  rw [firstWhitespaceRun, ← List.append_nil word, firstRunLoop_word hword]
  rfl

/-- The first run stands between the first word and what is no whitespace. -/
lemma firstWhitespaceRun_eq {word run rest : List Char}
    (hword : ∀ c ∈ word, isWhitespace c = false) (hne : run ≠ [])
    (hrun : ∀ c ∈ run, isWhitespace c = true) (hrest : ∀ c ∈ rest.head?, isWhitespace c = false) :
    firstWhitespaceRun (word ++ (run ++ rest)) = some (word.length, word.length + run.length) := by
  obtain ⟨c, run, rfl⟩ := List.exists_cons_of_ne_nil hne
  rw [firstWhitespaceRun, firstRunLoop_word hword, List.cons_append, firstRunLoop,
    if_pos (hrun c List.mem_cons_self), Option.getD_none,
    firstRunLoop_some (fun d hd => hrun d (List.mem_cons_of_mem _ hd)) hrest, List.length_cons]
  congr 2 <;> omega

/-- What the loop leaves and has collected, as the list that is returned. -/
private def collected (result : List Char × List (List Char)) : List (List Char) :=
  if result.1.isEmpty then result.2 else result.2 ++ [result.1]

lemma head?_trimStart (text : List Char) :
    ∀ c ∈ (trimStart text).head?, isWhitespace c = false := by
  intro c hc
  have := List.head?_dropWhile_not isWhitespace text
  rw [← trimStart, Option.mem_def.1 hc] at this
  simpa using this

/-- What follows a word is a run of whitespace and what stands behind it. -/
lemma exists_run {rest : List Char} (hrest : ∀ c ∈ rest.head?, isWhitespace c = true) :
    ∃ run tail, rest = run ++ tail ∧ (rest ≠ [] → run ≠ []) ∧
      (∀ c ∈ run, isWhitespace c = true) ∧ ∀ c ∈ tail.head?, isWhitespace c = false := by
  refine ⟨rest.takeWhile isWhitespace, trimStart rest, List.takeWhile_append_dropWhile.symm, ?_,
    fun c hc => List.mem_takeWhile_imp hc, head?_trimStart rest⟩
  intro hne
  obtain ⟨c, rest, rfl⟩ := List.exists_cons_of_ne_nil hne
  simp [hrest c rfl]

/-- A remainder that has a word and begins with it. -/
lemma cut_of_head {remainder : List Char} (hne : remainder ≠ [])
    (hhead : ∀ c ∈ remainder.head?, isWhitespace c = false) :
    ∃ word rest, Cut isWhitespace remainder [] word rest := by
  rcases all_or_cut isWhitespace remainder with hall | ⟨gap, word, rest, hcut⟩
  · obtain ⟨c, remainder, rfl⟩ := List.exists_cons_of_ne_nil hne
    have := hhead c rfl
    rw [hall c List.mem_cons_self] at this
    cases this
  · cases gap with
    | nil => exact ⟨word, rest, hcut⟩
    | cons c gap =>
      have hfirst : c ∈ remainder.head? := by rw [hcut.text_eq]; rfl
      have := hcut.gap_separates c List.mem_cons_self
      rw [hhead c hfirst] at this
      cases this

/-- The loop splits one word off with each round. -/
lemma splitLoop_eq (n : ℕ) {remainder : List Char} (parts : List (List Char))
    (hne : remainder ≠ []) (hhead : ∀ c ∈ remainder.head?, isWhitespace c = false) :
    collected (splitLoop n remainder parts) = parts ++ splitLeft isWhitespace n remainder := by
  induction n generalizing remainder parts with
  | zero =>
    obtain ⟨word, rest, hcut⟩ := cut_of_head hne hhead
    rw [hcut.splitLeft_zero, splitLoop, collected, if_neg (by simpa using hne)]
    exact congrArg (fun rest => parts ++ [rest]) hcut.text_eq
  | succ n ih =>
    obtain ⟨word, rest, hcut⟩ := cut_of_head hne hhead
    have htext : remainder = word ++ rest := hcut.text_eq
    obtain ⟨run, tail, rfl, hrun, hspace, htail⟩ := exists_run hcut.rest_separates
    rw [hcut.splitLeft_succ, splitLoop, splitLeft_gap n hspace, htext]
    by_cases hend : run ++ tail = []
    · obtain ⟨rfl, rfl⟩ := List.append_eq_nil_iff.1 hend
      rw [hend, List.append_nil, firstWhitespaceRun_word hcut.word_plain]
      dsimp only
      rw [collected, if_neg (by simpa using hcut.word_ne_nil), splitLeft_of_all n (by simp)]
    · have hdrop : (word ++ (run ++ tail)).drop (word.length + run.length) = tail := by
        rw [← List.drop_drop, List.drop_left, List.drop_left]
      rw [firstWhitespaceRun_eq hcut.word_plain (hrun hend) hspace htail]
      dsimp only
      rw [hdrop, List.take_left, trimStart, dropWhile_plain htail]
      by_cases hempty : tail = []
      · rw [hempty, splitLeft_of_all n (by simp)]
        rfl
      · rw [if_neg (by simpa using hempty), ih _ hempty htail, List.append_assoc,
          List.singleton_append]

/-! ## From the right -/

lemma foldl_next_plain {word : List Char} (hword : ∀ c ∈ word, isWhitespace c = false)
    (state : RunState) (hstart : state.runStart = none) :
    word.foldl RunState.next state = { state with idx := state.idx + word.length } := by
  induction word generalizing state with
  | nil => rfl
  | cons c word ih =>
    rw [List.foldl_cons, RunState.next, hword c List.mem_cons_self, if_neg Bool.false_ne_true,
      hstart]
    dsimp only
    rw [ih (fun d hd => hword d (List.mem_cons_of_mem _ hd)) _ rfl, List.length_cons]
    simp only [RunState.mk.injEq, and_self, and_true]
    omega

lemma foldl_next_space {run : List Char} (hrun : ∀ c ∈ run, isWhitespace c = true)
    (state : RunState) (hne : run ≠ []) :
    run.foldl RunState.next state = { state with
      idx := state.idx + run.length, runStart := some (state.runStart.getD state.idx) } := by
  induction run generalizing state with
  | nil => exact absurd rfl hne
  | cons c run ih =>
    rw [List.foldl_cons, RunState.next, if_pos (hrun c List.mem_cons_self)]
    cases hrest : run with
    | nil => rfl
    | cons d rest =>
      rw [← hrest, ih (fun d hd => hrun d (List.mem_cons_of_mem _ hd)) _ (by simp [hrest]),
        List.length_cons]
      simp only [RunState.mk.injEq, Option.getD_some, and_self, and_true]
      omega

/-- Behind a character that is no whitespace no run has begun. -/
lemma foldl_next_runStart {tail : List Char} (htail : ∀ c ∈ tail.getLast?, isWhitespace c = false)
    (last : Option (ℕ × ℕ)) :
    ∃ last', tail.foldl RunState.next ⟨0, none, last⟩ = ⟨tail.length, none, last'⟩ := by
  have hidx : ∀ (xs : List Char) state,
      (xs.foldl RunState.next state).idx = state.idx + xs.length := by
    intro xs
    induction xs with
    | nil => exact fun _ => rfl
    | cons c xs ih =>
      intro state
      have hnext : (state.next c).idx = state.idx + 1 := by
        unfold RunState.next
        split
        · rfl
        · split <;> rfl
      rw [List.foldl_cons, ih, hnext, List.length_cons]
      omega
  cases hlast : tail.getLast? with
  | none =>
    rw [List.getLast?_eq_none_iff.1 hlast]
    exact ⟨last, rfl⟩
  | some c =>
    obtain ⟨xs, rfl⟩ := List.getLast?_eq_some_iff.1 hlast
    have hc := htail c hlast
    have hxs := hidx xs ⟨0, none, last⟩
    rw [List.foldl_append, List.foldl_cons, List.foldl_nil, RunState.next, hc,
      if_neg Bool.false_ne_true, List.length_append]
    split <;> exact ⟨_, by rw [hxs, Nat.zero_add]; rfl⟩

lemma lastWhitespaceRun_word {word : List Char} (hword : ∀ c ∈ word, isWhitespace c = false) :
    lastWhitespaceRun word = none := by
  rw [lastWhitespaceRun, foldl_next_plain hword _ rfl]

/-- The last run stands between what ends with no whitespace and the last word. -/
lemma lastWhitespaceRun_eq {tail run word : List Char}
    (htail : ∀ c ∈ tail.getLast?, isWhitespace c = false) (hne : run ≠ [])
    (hrun : ∀ c ∈ run, isWhitespace c = true) (hwordNe : word ≠ [])
    (hword : ∀ c ∈ word, isWhitespace c = false) :
    lastWhitespaceRun (tail ++ (run ++ word)) = some (tail.length, tail.length + run.length) := by
  obtain ⟨c, word, rfl⟩ := List.exists_cons_of_ne_nil hwordNe
  obtain ⟨last, hlast⟩ := foldl_next_runStart htail none
  have hplain := List.forall_mem_cons.1 hword
  rw [lastWhitespaceRun, List.foldl_append, hlast, List.foldl_append,
    foldl_next_space hrun _ hne, List.foldl_cons, RunState.next, hplain.1,
    if_neg Bool.false_ne_true]
  dsimp only [Option.getD_none]
  rw [foldl_next_plain hplain.2 _ rfl]

/-- The loop splits one word off from the right with each round. -/
lemma rsplitLoop_eq (n : ℕ) {remainder : List Char} (parts : List (List Char))
    (hne : remainder ≠ []) (hlast : ∀ c ∈ remainder.getLast?, isWhitespace c = false) :
    collected (rsplitLoop n remainder parts) =
      parts ++ (splitLeft isWhitespace n remainder.reverse).map List.reverse := by
  have hhead : ∀ c ∈ remainder.reverse.head?, isWhitespace c = false := by
    rwa [List.head?_reverse]
  induction n generalizing remainder parts with
  | zero =>
    obtain ⟨word, rest, hcut⟩ := cut_of_head (by simpa using hne) hhead
    rw [hcut.splitLeft_zero, rsplitLoop, collected, if_neg (by simpa using hne)]
    have htext := congrArg List.reverse hcut.text_eq
    rw [List.reverse_reverse, List.nil_append] at htext
    exact congrArg (fun rest => parts ++ [rest]) htext
  | succ n ih =>
    obtain ⟨word, rest, hcut⟩ := cut_of_head (by simpa using hne) hhead
    obtain ⟨run, tail, rfl, hrun, hspace, htail⟩ := exists_run hcut.rest_separates
    have htext := congrArg List.reverse hcut.text_eq
    rw [List.reverse_reverse, List.nil_append, List.reverse_append, List.reverse_append,
      List.append_assoc] at htext
    have hword : ∀ c ∈ word.reverse, isWhitespace c = false :=
      fun c hc => hcut.word_plain c (List.mem_reverse.1 hc)
    rw [hcut.splitLeft_succ, rsplitLoop, splitLeft_gap n hspace, htext, List.map_cons]
    by_cases hend : run ++ tail = []
    · obtain ⟨rfl, rfl⟩ := List.append_eq_nil_iff.1 hend
      rw [List.reverse_nil, List.nil_append, List.nil_append, lastWhitespaceRun_word hword]
      dsimp only
      rw [collected, if_neg (by simpa using hcut.word_ne_nil), splitLeft_of_all n (by simp)]
      rfl
    · have hdrop : (tail.reverse ++ (run.reverse ++ word.reverse)).drop
          (tail.reverse.length + run.reverse.length) = word.reverse := by
        rw [← List.drop_drop, List.drop_left, List.drop_left]
      have htail' : ∀ c ∈ tail.reverse.getLast?, isWhitespace c = false := by
        rwa [List.getLast?_reverse]
      have htrim : trimEnd tail.reverse = tail.reverse := by
        rw [trimEnd, List.rdropWhile, List.reverse_reverse, dropWhile_plain htail]
      rw [lastWhitespaceRun_eq htail' (by simpa using hrun hend)
        (fun c hc => hspace c (List.mem_reverse.1 hc)) (by simpa using hcut.word_ne_nil) hword]
      dsimp only
      rw [hdrop, List.take_left, htrim]
      by_cases hempty : tail = []
      · rw [hempty, splitLeft_of_all n (by simp)]
        rfl
      · rw [if_neg (by simpa using hempty), ih _ (by simpa using hempty) htail'
          (by rwa [List.reverse_reverse]), List.append_assoc, List.reverse_reverse]
        rfl

/-! ## All words -/

lemma splitCharsLoop_eq (part text : List Char)
    (hpart : ∀ c ∈ part, isWhitespace c = false) :
    (splitCharsLoop part text).filter (!·.isEmpty) = words isWhitespace (part ++ text) := by
  have hcut : ∀ rest : List Char, part ≠ [] → (∀ c ∈ rest.head?, isWhitespace c = true) →
      words isWhitespace (part ++ rest) = part :: words isWhitespace rest := by
    intro rest hne hrest
    have hcut : Cut isWhitespace (part ++ rest) [] part rest := ⟨rfl, by simp, hne, hpart, hrest⟩
    exact hcut.words_eq
  induction text generalizing part with
  | nil =>
    rw [splitCharsLoop]
    by_cases hne : part = []
    · rw [hne]
      rfl
    · rw [hcut [] hne (by simp), List.filter_cons_of_pos (by simpa using hne)]
      rfl
  | cons c text ih =>
    rw [splitCharsLoop]
    by_cases hc : isWhitespace c = true
    · have hlater : words isWhitespace (c :: text) = words isWhitespace text :=
        words_gap [c] (by simpa using hc)
      have htext := ih [] (by simp) (by simp)
      rw [List.nil_append] at htext
      rw [if_pos hc]
      by_cases hne : part = []
      · rw [hne, List.filter_cons_of_neg (by simp), htext, List.nil_append, hlater]
      · rw [List.filter_cons_of_pos (by simpa using hne), htext,
          hcut (c :: text) hne (by simpa using hc), hlater]
    · have hplain : ∀ d ∈ part ++ [c], isWhitespace d = false := by
        intro d hd
        rcases List.mem_append.1 hd with hd | hd
        · exact hpart d hd
        · rw [List.mem_singleton.1 hd]
          exact Bool.eq_false_iff.2 hc
      rw [if_neg hc, ih (part ++ [c]) hplain, List.append_assoc]
      · rfl
      · intro rest hne hrest
        have hcut : Cut isWhitespace (part ++ [c] ++ rest) [] (part ++ [c]) rest :=
          ⟨rfl, by simp, hne, hplain, hrest⟩
        exact hcut.words_eq

lemma splitWhitespace_eq (text : List Char) : splitWhitespace text = words isWhitespace text :=
  splitCharsLoop_eq [] text (by simp)

/-- How many splits a `maxsplit` allows: a negative one as many as there are characters. -/
def budget (text : List Char) (maxsplit : ℤ) : ℕ :=
  if maxsplit < 0 then text.length else maxsplit.toNat

/-- What has been trimmed splits in the same way. -/
lemma splitLeft_trimStart (n : ℕ) (text : List Char) :
    splitLeft isWhitespace n (trimStart text) = splitLeft isWhitespace n text := by
  conv_rhs => rw [← List.takeWhile_append_dropWhile (p := isWhitespace) (l := text)]
  exact (splitLeft_gap n fun c hc => List.mem_takeWhile_imp hc).symm

lemma splitLeft_zero_of_head {text : List Char} (hhead : ∀ c ∈ text.head?, isWhitespace c = false) :
    splitLeft isWhitespace 0 text = if text.isEmpty then [] else [text] := by
  rw [splitLeft, dropWhile_plain hhead]
  cases text <;> rfl

theorem pySplitWhitespace_eq (text : List Char) (maxsplit : ℤ) :
    pySplitWhitespace text maxsplit = splitLeft isWhitespace (budget text maxsplit) text := by
  unfold pySplitWhitespace budget
  by_cases hneg : maxsplit < 0
  · rw [if_pos hneg, if_pos hneg, splitWhitespace_eq]
    rfl
  rw [if_neg hneg, if_neg hneg, ← splitLeft_trimStart]
  by_cases hzero : maxsplit = 0
  · rw [if_pos hzero, hzero]
    exact (splitLeft_zero_of_head (head?_trimStart text)).symm
  rw [if_neg hzero]
  by_cases hempty : trimStart text = []
  · rw [hempty, splitLeft_of_all _ (by simp)]
    rfl
  · dsimp only
    rw [if_neg (by simpa using hempty)]
    exact splitLoop_eq maxsplit.toNat [] hempty (head?_trimStart text)

theorem pyRsplitWhitespace_eq (text : List Char) (maxsplit : ℤ) :
    pyRsplitWhitespace text maxsplit = splitRight isWhitespace (budget text maxsplit) text := by
  have hreverse : (trimEnd text).reverse = trimStart text.reverse := by
    rw [trimEnd, List.rdropWhile, List.reverse_reverse, trimStart]
  have hlast : ∀ c ∈ (trimEnd text).getLast?, isWhitespace c = false := by
    rw [← List.head?_reverse, hreverse]
    exact head?_trimStart _
  unfold pyRsplitWhitespace budget
  by_cases hneg : maxsplit < 0
  · rw [if_pos hneg, if_pos hneg, splitWhitespace_eq, splitRight_of_length_le (Nat.le_refl _)]
  rw [if_neg hneg, if_neg hneg, splitRight, ← splitLeft_trimStart, ← hreverse]
  by_cases hzero : maxsplit = 0
  · rw [if_pos hzero, hzero, Int.toNat_zero,
      splitLeft_zero_of_head (by rwa [List.head?_reverse])]
    by_cases hempty : trimEnd text = []
    · rw [hempty]
      rfl
    · rw [if_neg (by simpa using hempty), if_neg (by simpa using hempty)]
      simp
  rw [if_neg hzero]
  by_cases hempty : trimEnd text = []
  · rw [hempty, List.reverse_nil, splitLeft_of_all _ (by simp)]
    rfl
  · dsimp only
    rw [if_neg (by simpa using hempty)]
    exact congrArg List.reverse (rsplitLoop_eq maxsplit.toNat [] hempty hlast)

/-! ## Lines -/

/-- A carriage return, a line feed or both, or another line break. -/
def IsLineEnd (chars : List Char) : Prop :=
  chars = ['\r', '\n'] ∨ ∃ c, chars = [c] ∧ (c == '\r' || isPySplitlineBreak c) = true

/-- The lines of a text with their ends, of which the last may have none. -/
structure Lines (text : List Char) (lines : List (List Char × List Char)) : Prop where
  text_eq : (lines.map fun line => line.1 ++ line.2).flatten = text
  line_plain : ∀ line ∈ lines, ∀ c ∈ line.1, (c == '\r' || isPySplitlineBreak c) = false
  line_end : ∀ line ∈ lines.dropLast, IsLineEnd line.2
  last_end : ∀ line ∈ lines.getLast?, IsLineEnd line.2 ∨ line.2 = [] ∧ line.1 ≠ []

lemma Lines.cons {line rest : List Char} {ending : List Char} {lines : List (List Char × List Char)}
    (hline : ∀ c ∈ line, (c == '\r' || isPySplitlineBreak c) = false) (hend : IsLineEnd ending)
    (h : Lines rest lines) : Lines (line ++ (ending ++ rest)) ((line, ending) :: lines) where
  text_eq := by
    rw [List.map_cons, List.flatten_cons, h.text_eq, List.append_assoc]
  line_plain := List.forall_mem_cons.2 ⟨hline, h.line_plain⟩
  line_end := by
    cases lines with
    | nil => simp
    | cons next lines =>
      rw [List.dropLast_cons_of_ne_nil (by simp)]
      exact List.forall_mem_cons.2 ⟨hend, h.line_end⟩
  last_end := by
    cases lines with
    | nil =>
      rintro _ ⟨⟩
      exact .inl hend
    | cons next lines =>
      rw [List.getLast?_cons_cons]
      exact h.last_end

lemma slice_middle (before part after : List Char) :
    ((before ++ (part ++ after)).take (before.length + part.length)).drop before.length = part := by
  rw [List.take_append, List.take_of_length_le (by omega), Nat.add_sub_cancel_left,
    List.take_left, List.drop_left]

/-- A line end is cut off with the line or dropped, and the next line begins behind it. -/
lemma splitlines_step {before line ending rest : List Char}
    (hline : ∀ c ∈ line, (c == '\r' || isPySplitlineBreak c) = false) (hend : IsLineEnd ending)
    (ih : ∃ lines, Lines rest lines ∧
      splitlinesLoop (before ++ (line ++ (ending ++ rest))) true
        (before.length + line.length + ending.length)
        (before.length + line.length + ending.length) rest =
          lines.map (fun line => line.1 ++ line.2) ∧
      splitlinesLoop (before ++ (line ++ (ending ++ rest))) false
        (before.length + line.length + ending.length)
        (before.length + line.length + ending.length) rest = lines.map (·.1)) :
    ∃ lines, Lines (line ++ (ending ++ rest)) lines ∧
      ((before ++ (line ++ (ending ++ rest))).take
          (before.length + line.length + ending.length)).drop before.length ::
        splitlinesLoop (before ++ (line ++ (ending ++ rest))) true
          (before.length + line.length + ending.length)
          (before.length + line.length + ending.length) rest =
          lines.map (fun line => line.1 ++ line.2) ∧
      ((before ++ (line ++ (ending ++ rest))).take (before.length + line.length)).drop
          before.length ::
        splitlinesLoop (before ++ (line ++ (ending ++ rest))) false
          (before.length + line.length + ending.length)
          (before.length + line.length + ending.length) rest = lines.map (·.1) := by
  obtain ⟨lines, hlines, hkeep, hdrop⟩ := ih
  refine ⟨(line, ending) :: lines, hlines.cons hline hend, ?_, ?_⟩
  · have hslice := slice_middle before (line ++ ending) rest
    rw [List.length_append, ← Nat.add_assoc, List.append_assoc] at hslice
    rw [hkeep, hslice]
    rfl
  · rw [hdrop, slice_middle]
    rfl

/-- In a line that has begun the loop goes on with the lines of what follows. -/
lemma splitlinesLoop_eq (before line rest : List Char)
    (hline : ∀ c ∈ line, (c == '\r' || isPySplitlineBreak c) = false) :
    ∃ lines, Lines (line ++ rest) lines ∧
      splitlinesLoop (before ++ (line ++ rest)) true before.length (before.length + line.length)
        rest = lines.map (fun line => line.1 ++ line.2) ∧
      splitlinesLoop (before ++ (line ++ rest)) false before.length (before.length + line.length)
        rest = lines.map (·.1) := by
  induction hlength : rest.length using Nat.strong_induction_on generalizing before line rest with
  | _ n ih =>
    -- Behind a line end the loop is that of the rest, with an empty line.
    have hnext : ∀ ending after, rest = ending ++ after → ending ≠ [] →
        ∃ lines, Lines after lines ∧
          splitlinesLoop (before ++ (line ++ (ending ++ after))) true
            (before.length + line.length + ending.length)
            (before.length + line.length + ending.length) after =
              lines.map (fun line => line.1 ++ line.2) ∧
          splitlinesLoop (before ++ (line ++ (ending ++ after))) false
            (before.length + line.length + ending.length)
            (before.length + line.length + ending.length) after = lines.map (·.1) := by
      intro ending after hrest hne
      have hshort : after.length < n := by
        have := List.length_pos_of_ne_nil hne
        rw [← hlength, hrest, List.length_append]
        omega
      have := ih after.length hshort (before ++ (line ++ ending)) [] after (by simp) rfl
      simpa [Nat.add_assoc] using this
    cases rest with
    | nil =>
      by_cases hempty : line = []
      · refine ⟨[], ⟨by simp [hempty], by simp, by simp, by simp⟩, ?_, ?_⟩ <;>
          simp [splitlinesLoop, hempty]
      · have hpos := List.length_pos_of_ne_nil hempty
        have hlines : Lines (line ++ []) [(line, [])] :=
          ⟨by simp, by simpa using hline, by simp, by simp [hempty]⟩
        refine ⟨[(line, [])], hlines, ?_, ?_⟩ <;> simp [splitlinesLoop, hpos]
    | cons ch after =>
      by_cases hpair : ∃ after', ch = '\r' ∧ after = '\n' :: after'
      · obtain ⟨after', rfl, rfl⟩ := hpair
        rw [splitlinesLoop, splitlinesLoop]
        exact splitlines_step hline (.inl rfl) (hnext ['\r', '\n'] after' rfl (by simp))
      · have hother : ∀ after', ch = '\r' → after = '\n' :: after' → False :=
          fun after' hch hafter => hpair ⟨after', hch, hafter⟩
        rw [splitlinesLoop.eq_3 _ _ _ _ _ _ hother, splitlinesLoop.eq_3 _ _ _ _ _ _ hother]
        by_cases hbreak : (ch == '\r' || isPySplitlineBreak ch) = true
        · rw [if_pos hbreak, if_pos hbreak]
          exact splitlines_step hline (.inr ⟨ch, rfl, hbreak⟩) (hnext [ch] after rfl (by simp))
        · rw [if_neg hbreak, if_neg hbreak]
          have hmore : ∀ c ∈ line ++ [ch], (c == '\r' || isPySplitlineBreak c) = false := by
            intro c hc
            rcases List.mem_append.1 hc with hc | hc
            · exact hline c hc
            · rw [List.mem_singleton.1 hc]
              exact Bool.eq_false_iff.2 hbreak
          have := ih after.length (by rw [← hlength]; simp) before (line ++ [ch]) after hmore rfl
          simpa [Nat.add_assoc] using this

/-- The lines without their ends are those with them. -/
theorem pySplitlines_eq (text : List Char) : ∃ lines, Lines text lines ∧
    pySplitlines text true = lines.map (fun line => line.1 ++ line.2) ∧
    pySplitlines text false = lines.map (·.1) :=
  splitlinesLoop_eq [] [] text (by simp)

/-! ## Whitespace of Python -/

/-- `str.isspace` of one character. -/
def isSpace (ch : Char) : Bool := isWhitespace ch || (0x1C ≤ ch.toNat && ch.toNat ≤ 0x1F)

/-- Splitting as `str.split`, `str.rsplit` and `str.splitlines` do. -/
structure SplitsAsPython (text : List Char) (maxsplit : ℤ) : Prop where
  split_eq : pySplitWhitespace text maxsplit = splitLeft isSpace (budget text maxsplit) text
  rsplit_eq : pyRsplitWhitespace text maxsplit = splitRight isSpace (budget text maxsplit) text
  split_separated : Separated isSpace text (pySplitWhitespace text maxsplit)
  rsplit_separated : Separated isSpace text (pyRsplitWhitespace text maxsplit)
  split_length : 0 ≤ maxsplit → (pySplitWhitespace text maxsplit).length ≤ maxsplit + 1
  rsplit_length : 0 ≤ maxsplit → (pyRsplitWhitespace text maxsplit).length ≤ maxsplit + 1
  lines : ∃ lines, Lines text lines ∧
    pySplitlines text true = lines.map (fun line => line.1 ++ line.2) ∧
    pySplitlines text false = lines.map (·.1)

/-- One of the separators U+001C to U+001F. -/
def IsSeparator (ch : Char) : Prop := 0x1C ≤ ch.toNat ∧ ch.toNat ≤ 0x1F

lemma isSeparator_iff (ch : Char) :
    isSpace ch = true ∧ isWhitespace ch = false ↔ IsSeparator ch := by
  unfold isSpace IsSeparator
  constructor
  · rintro ⟨hspace, hwhite⟩
    rw [hwhite, Bool.false_or, Bool.and_eq_true, decide_eq_true_iff, decide_eq_true_iff] at hspace
    exact hspace
  · rintro ⟨hlow, hhigh⟩
    refine ⟨by simp [hlow, hhigh], ?_⟩
    simp only [isWhitespace, Bool.or_eq_false_iff, Bool.and_eq_false_iff, decide_eq_false_iff_not,
      beq_eq_false_iff_ne]
    omega

lemma length_le_of_budget {text : List Char} {maxsplit : ℤ} {n : ℕ}
    (h : n ≤ budget text maxsplit + 1) (hnonneg : 0 ≤ maxsplit) : (n : ℤ) ≤ maxsplit + 1 := by
  rw [budget, if_neg (Int.not_lt.2 hnonneg)] at h
  omega

/-- The functions split as Python does exactly when each separator stands behind the beginning of
the word with which the rest that is not split begins. -/
theorem splitting_iff (text : List Char) (maxsplit : ℤ) :
    SplitsAsPython text maxsplit ↔
      Behind isSpace (budget text maxsplit) IsSeparator text ∧
        Behind isSpace (budget text maxsplit) IsSeparator text.reverse := by
  have hsub : ∀ c, isWhitespace c = true → isSpace c = true := fun c hc => by simp [isSpace, hc]
  have hleft := splitLeft_eq_iff hsub (budget text maxsplit) text
  have hright := splitRight_eq_iff hsub (budget text maxsplit) text
  simp only [isSeparator_iff] at hleft hright
  rw [← pySplitWhitespace_eq] at hleft
  rw [← pyRsplitWhitespace_eq] at hright
  constructor
  · exact fun h => ⟨hleft.1 h.split_eq, hright.1 h.rsplit_eq⟩
  · rintro ⟨hbehind, hbehindRight⟩
    have hsplit := hleft.2 hbehind
    have hrsplit := hright.2 hbehindRight
    refine ⟨hsplit, hrsplit, ?_, ?_, ?_, ?_, pySplitlines_eq text⟩
    · rw [hsplit]
      exact separated_splitLeft _ text
    · rw [hrsplit]
      exact separated_splitRight _ text
    · rw [hsplit]
      exact length_le_of_budget (length_splitLeft_le _ text)
    · rw [hrsplit]
      exact length_le_of_budget (length_splitRight_le _ text)

theorem not_splitsAsPython_fileSeparator : ¬ SplitsAsPython ['a', '\x1c', 'b'] (-1) :=
  fun h => absurd h.split_eq (by decide)

end TextSplitting

end Pyrs
