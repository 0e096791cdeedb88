import Pyrs.Library.Chain
import Pyrs.Library.Results
import Pyrs.Model.Patterns
import Mathlib.Data.List.Range

/-!
# `findall`, `finditer` and `split` walk one sequence of matches

The loops search the slice of the subject that a cursor leaves, in bytes, and step over a unit
behind an empty match.  In units the matches they find are a chain: each is the first match of the
slice behind the one before.  The chain ends, for its cursor never goes back, and the three
operations render it, each in its own way.
-/

namespace Pyrs

/-! ## Offsets -/

section Offsets

variable {α : Type} [SubjectUnit α]

attribute [local simp] byteOffset takeBytes dropBytes

@[simp] lemma byteOffset_zero (text : List α) : byteOffset text 0 = 0 := by
  cases text <;> rfl

lemma byteOffset_add (text : List α) {start : ℕ} (hstart : start ≤ text.length) (index : ℕ) :
    byteOffset text (start + index) =
      byteOffset text start + byteOffset (text.drop start) index := by
  induction text generalizing start with
  | nil =>
    obtain rfl : start = 0 := Nat.le_zero.1 hstart
    simp
  | cons unit text ih =>
    cases start with
    | zero => simp
    | succ start =>
      have hrest := ih (Nat.le_of_succ_le_succ hstart)
      rw [Nat.succ_add_eq_add_succ, Nat.add_succ]
      simp only [byteOffset, List.drop_succ_cons, hrest]
      omega

lemma byteOffset_take (text : List α) {stop index : ℕ} (hindex : index ≤ stop)
    (hstop : stop ≤ text.length) : byteOffset (text.take stop) index = byteOffset text index := by
  induction text generalizing stop index with
  | nil =>
    obtain rfl : stop = 0 := Nat.le_zero.1 hstop
    rfl
  | cons unit text ih =>
    cases stop with
    | zero =>
      obtain rfl : index = 0 := Nat.le_zero.1 hindex
      simp
    | succ stop =>
      cases index with
      | zero => simp
      | succ index =>
        have hrest := ih (Nat.le_of_succ_le_succ hindex) (Nat.le_of_succ_le_succ hstop)
        simp [hrest]

lemma byteOffset_lt (text : List α) {low high : ℕ} (h : low < high) :
    byteOffset text low < byteOffset text high := by
  induction text generalizing low high with
  | nil => exact h
  | cons unit text ih =>
    have hwidth := width_pos unit
    cases high with
    | zero => exact absurd h (Nat.not_lt_zero _)
    | succ high =>
      cases low with
      | zero =>
        simp only [byteOffset]
        omega
      | succ low =>
        have hrest := ih (Nat.lt_of_succ_lt_succ h)
        simp only [byteOffset]
        omega

lemma byteOffset_le (text : List α) {low high : ℕ} (h : low ≤ high) :
    byteOffset text low ≤ byteOffset text high := by
  obtain hlt | rfl := Nat.lt_or_eq_of_le h
  · exact (byteOffset_lt text hlt).le
  · exact le_rfl

lemma byteOffset_inj (text : List α) {low high : ℕ} :
    byteOffset text low = byteOffset text high ↔ low = high := by
  refine ⟨fun h => ?_, fun h => h ▸ rfl⟩
  obtain hlt | heq | hlt := Nat.lt_trichotomy low high
  · exact absurd h (byteOffset_lt text hlt).ne
  · exact heq
  · exact absurd h (byteOffset_lt text hlt).ne'

lemma takeBytes_cons_add (unit : α) (text : List α) (offset : ℕ) :
    takeBytes (unit :: text) (width unit + offset) =
      (takeBytes text offset).map (unit :: ·) := by
  have hwidth := width_pos unit
  obtain ⟨total, htotal⟩ : ∃ total, width unit + offset = total + 1 :=
    ⟨width unit + offset - 1, by omega⟩
  rw [htotal, takeBytes, if_pos (by omega), show total + 1 - width unit = offset by omega]

lemma takeBytes_byteOffset (text : List α) {index : ℕ} (h : index ≤ text.length) :
    takeBytes text (byteOffset text index) = some (text.take index) := by
  induction text generalizing index with
  | nil =>
    obtain rfl : index = 0 := Nat.le_zero.1 h
    rfl
  | cons unit text ih =>
    cases index with
    | zero => rfl
    | succ index =>
      rw [byteOffset, takeBytes_cons_add, ih (Nat.le_of_succ_le_succ h)]
      rfl

lemma dropBytes_cons_add (unit : α) (text : List α) (offset : ℕ) :
    dropBytes (unit :: text) (width unit + offset) = dropBytes text offset := by
  have hwidth := width_pos unit
  obtain ⟨total, htotal⟩ : ∃ total, width unit + offset = total + 1 :=
    ⟨width unit + offset - 1, by omega⟩
  rw [htotal, dropBytes, if_pos (by omega), show total + 1 - width unit = offset by omega]

lemma dropBytes_byteOffset (text : List α) {index : ℕ} (h : index ≤ text.length) :
    dropBytes text (byteOffset text index) = some (text.drop index) := by
  induction text generalizing index with
  | nil =>
    obtain rfl : index = 0 := Nat.le_zero.1 h
    rfl
  | cons unit text ih =>
    cases index with
    | zero => simp [dropBytes]
    | succ index =>
      rw [byteOffset, dropBytes_cons_add, ih (Nat.le_of_succ_le_succ h)]
      rfl

lemma sliceBytes_byteOffset (text : List α) {start stop : ℕ} (hle : start ≤ stop)
    (hstop : stop ≤ text.length) :
    sliceBytes text (byteOffset text start) (byteOffset text stop) =
      .ok ((text.take stop).drop start) := by
  have hdrop : dropBytes (text.take stop) (byteOffset text start) =
      some ((text.take stop).drop start) := by
    rw [← byteOffset_take text hle hstop]
    exact dropBytes_byteOffset _ (by rw [List.length_take]; omega)
  rw [sliceBytes, takeBytes_byteOffset text hstop, Option.bind_some, hdrop]

/-- Inside a character there is no boundary. -/
lemma takeBytes_eq_none (text : List α) {index offset : ℕ} (hindex : index < text.length)
    (hlow : byteOffset text index < offset) (hhigh : offset < byteOffset text (index + 1)) :
    takeBytes text offset = none := by
  induction text generalizing index offset with
  | nil => exact absurd hindex (Nat.not_lt_zero _)
  | cons unit text ih =>
    cases index with
    | zero =>
      simp only [byteOffset, byteOffset_zero, Nat.add_zero] at hlow hhigh
      obtain ⟨total, rfl⟩ : ∃ total, offset = total + 1 := ⟨offset - 1, by omega⟩
      rw [takeBytes, if_neg (by omega)]
    | succ index =>
      have hlow' : width unit + byteOffset text index < offset := hlow
      have hhigh' : offset < width unit + byteOffset text (index + 1) := hhigh
      obtain ⟨rest, rfl⟩ : ∃ rest, offset = width unit + rest := ⟨offset - width unit, by omega⟩
      have hnone := ih (Nat.lt_of_succ_lt_succ hindex) (show _ < rest by omega) (by omega)
      rw [takeBytes_cons_add, hnone]
      rfl

lemma isCharBoundary_byteOffset (text : List α) {index : ℕ} (h : index ≤ text.length) :
    isCharBoundary text (byteOffset text index) = true := by
  rw [isCharBoundary, takeBytes_byteOffset text h]
  rfl

/-- From inside a character the loop goes on to its end. -/
lemma skipToBoundary_eq (text : List α) {stop index : ℕ} (hstop : stop ≤ text.length)
    (hindex : index < stop) {steps next : ℕ} (hlow : byteOffset text index < next)
    (hhigh : next ≤ byteOffset text (index + 1))
    (hsteps : byteOffset text (index + 1) - next ≤ steps) :
    skipToBoundary text (byteOffset text stop) steps next = byteOffset text (index + 1) := by
  induction steps generalizing next with
  | zero =>
    rw [skipToBoundary]
    omega
  | succ steps ih =>
    rw [skipToBoundary]
    obtain hlt | rfl := Nat.lt_or_eq_of_le hhigh
    · have hinside : isCharBoundary text next = false := by
        rw [isCharBoundary, takeBytes_eq_none text (by omega) hlow hlt]
        rfl
      have hwithin : next < byteOffset text stop :=
        lt_of_lt_of_le hlt (byteOffset_le text hindex)
      rw [if_pos ⟨hwithin, hinside⟩]
      exact ih (by omega) (by omega) (by omega)
    · rw [if_neg]
      rintro ⟨_, hinside⟩
      rw [isCharBoundary_byteOffset text (by omega)] at hinside
      exact absurd hinside (by decide)

lemma nextCursor_byteOffset (text : List α) {stop start finish : ℕ} (hstop : stop ≤ text.length)
    (hfinish : finish ≤ stop) :
    nextCursor text (byteOffset text stop) (byteOffset text start) (byteOffset text finish) =
      if finish = start then
        if stop ≤ finish then none else some (byteOffset text (finish + 1))
      else some (byteOffset text finish) := by
  rw [nextCursor]
  by_cases heq : finish = start
  · rw [if_pos heq, if_pos (heq ▸ rfl)]
    obtain hlt | rfl := Nat.lt_or_eq_of_le hfinish
    · have hlast : byteOffset text (finish + 1) ≤ byteOffset text stop :=
        byteOffset_le text (Nat.succ_le_of_lt hlt)
      have hskip : skipToBoundary text (byteOffset text stop) (byteOffset text stop)
          (byteOffset text finish + 1) = byteOffset text (finish + 1) :=
        skipToBoundary_eq text hstop hlt (by omega) (byteOffset_lt text (Nat.lt_succ_self _))
          (by omega)
      rw [if_neg (Nat.not_le.2 hlt), if_neg (Nat.not_le.2 (byteOffset_lt text hlt)), hskip]
    · rw [if_pos le_rfl, if_pos le_rfl]
  · rw [if_neg heq, if_neg (fun h => heq ((byteOffset_inj text).1 h))]

lemma byteOffset_of_width_one (text : List α) (h : text.all (width · == 1) = true) (index : ℕ) :
    byteOffset text index = index := by
  induction text generalizing index with
  | nil => rfl
  | cons unit text ih =>
    rw [List.all_cons, Bool.and_eq_true, beq_iff_eq] at h
    cases index with
    | zero => rfl
    | succ index =>
      rw [byteOffset, h.1, ih h.2]
      omega

lemma byteToChar_byteOffset (text : List α) {index : ℕ} (h : index ≤ text.length) :
    byteToChar text (byteOffset text index) = .ok index := by
  rw [byteToChar]
  by_cases hwidth : text.all (width · == 1) = true
  · rw [if_pos hwidth, byteOffset_of_width_one text hwidth]
  · rw [if_neg hwidth, takeBytes_byteOffset text h]
    dsimp only
    rw [List.length_take, Nat.min_eq_left h]

end Offsets

/-! ## The loop -/

lemma ReMatchDetail.map_map (f g : ℕ → ℕ) (detail : ReMatchDetail) :
    (detail.map g).map f = detail.map (f ∘ g) := by
  have hall : (detail.captures.map (Option.map (Prod.map g g))).map (Option.map (Prod.map f f)) =
      detail.captures.map (Option.map (Prod.map (f ∘ g) (f ∘ g))) := by
    rw [List.map_map]
    refine List.map_congr_left fun capture _ => ?_
    obtain _ | _ := capture <;> rfl
  simp only [ReMatchDetail.map, hall, Function.comp_apply]

lemma ReMatchDetail.map_congr {f g : ℕ → ℕ} {detail : ReMatchDetail}
    (hstart : f detail.start = g detail.start) (hfinish : f detail.finish = g detail.finish)
    (hcaptures : ∀ start stop, some (start, stop) ∈ detail.captures →
      f start = g start ∧ f stop = g stop) : detail.map f = detail.map g := by
  have hall : detail.captures.map (Option.map (Prod.map f f)) =
      detail.captures.map (Option.map (Prod.map g g)) := by
    refine List.map_congr_left fun capture hcapture => ?_
    obtain _ | ⟨start, stop⟩ := capture
    · rfl
    · obtain ⟨hs, he⟩ := hcaptures start stop hcapture
      simp [hs, he]
  simp only [ReMatchDetail.map, hstart, hfinish, hall]

/-- The positions of a match in a subject that ends at `stop`. -/
structure ReMatchDetail.Within (stop : ℕ) (item : ReMatchDetail) : Prop where
  start_le : item.start ≤ item.finish
  finish_le : item.finish ≤ stop
  captures : ∀ low high, some (low, high) ∈ item.captures → low ≤ high ∧ high ≤ stop

/-- The first `budget` matches. -/
def budgeted {γ : Type} (budget : Option ℕ) (items : List γ) : List γ :=
  match budget with
  | none => items
  | some count => items.take count

lemma budgeted_cons {γ : Type} {budget : Option ℕ} (h : budget ≠ some 0) (item : γ)
    (items : List γ) :
    budgeted budget (item :: items) = item :: budgeted (budget.map (· - 1)) items := by
  obtain _ | _ | count := budget
  · rfl
  · exact absurd rfl h
  · rfl

@[simp] lemma budgeted_nil {γ : Type} (budget : Option ℕ) : budgeted budget ([] : List γ) = [] := by
  obtain _ | count := budget
  · rfl
  · exact List.take_nil

/-- What the matches add to the output, each with the end of the match before it. -/
def outputs {β : Type} (values : ℕ → ReMatchDetail → List β) : ℕ → List ReMatchDetail → List β
  | _, [] => []
  | segmentStart, item :: items => values segmentStart item ++ outputs values item.finish items

def lastFinish : ℕ → List ReMatchDetail → ℕ
  | segmentStart, [] => segmentStart
  | _, item :: items => lastFinish item.finish items

section Loop

variable {α β : Type} [SubjectUnit α]

/-- `search` finds in bytes what `find` finds in units. -/
def Renders (search find : List α → Option ReMatchDetail) : Prop :=
  ∀ text, search text = (find text).map (·.map (byteOffset text))

variable (find : List α → Option ReMatchDetail) (text : List α) (stop : ℕ)

/-- The match in the slice that a cursor leaves of the subject, at its position in the subject. -/
def sliceSearch (cursor : ℕ) : Option ReMatchDetail :=
  (find ((text.take stop).drop cursor)).map (·.map (cursor + ·))

/-- The match the loop finds after a match. -/
def sliceNext (item : ReMatchDetail) : Option ReMatchDetail :=
  if item.finish = item.start then
    if stop ≤ item.finish then none else sliceSearch find text stop (item.finish + 1)
  else sliceSearch find text stop item.finish

variable {find text stop}

/-- A position of the slice, from its start in bytes. -/
lemma byteOffset_slice {cursor index : ℕ} (h : cursor + index ≤ stop) (hstop : stop ≤ text.length) :
    byteOffset text cursor + byteOffset ((text.take stop).drop cursor) index =
      byteOffset text (cursor + index) := by
  have hlen : (text.take stop).length = stop := by
    rw [List.length_take, Nat.min_eq_left hstop]
  have hadd := byteOffset_add (text.take stop) (show cursor ≤ _ by omega) index
  rw [byteOffset_take text h hstop, byteOffset_take text (by omega) hstop] at hadd
  exact hadd.symm

lemma repeatSearch_eq {search : List α → Option ReMatchDetail} (hrenders : Renders search find)
    (hstop : stop ≤ text.length) {checked : Bool}
    {emit : ℕ → ℕ → ReMatchDetail → Except String (List β)}
    {values : ℕ → ReMatchDetail → List β} {p : ReMatchDetail → Prop}
    (hemit : ∀ segment cursor (detail : ReMatchDetail), segment ≤ cursor →
      (detail.map (cursor + ·)).Within stop → p (detail.map (cursor + ·)) →
      emit (byteOffset text segment) (byteOffset text cursor)
        (detail.map (byteOffset ((text.take stop).drop cursor))) =
          .ok (values segment (detail.map (cursor + ·))))
    {rounds : ℕ} {budget : Option ℕ} {segment cursor : ℕ} {items : List ReMatchDetail}
    (hchain : Chain (sliceNext find text stop) (sliceSearch find text stop cursor) items)
    (hwithin : ∀ item ∈ items, item.Within stop) (hitems : ∀ item ∈ items, p item)
    (hsegment : segment ≤ cursor) (hcursor : cursor ≤ stop)
    (hrounds : byteOffset text stop < rounds + byteOffset text cursor) :
    repeatSearch text (byteOffset text stop) search checked emit rounds budget
        (byteOffset text segment) (byteOffset text cursor) =
      .ok (outputs values segment (budgeted budget items),
        byteOffset text (lastFinish segment (budgeted budget items))) := by
  induction rounds generalizing budget segment cursor items with
  | zero =>
    have hle := byteOffset_le text hcursor
    omega
  | succ rounds ih =>
    have hle := byteOffset_le text hcursor
    rw [repeatSearch]
    by_cases hbudget : budget = some 0
    · rw [if_pos (.inr hbudget), hbudget]
      rfl
    rw [if_neg (by
      rintro (hlt | h)
      · omega
      · exact hbudget h), sliceBytes_byteOffset text hcursor hstop]
    simp only [bind, Except.bind]
    rw [hrenders]
    cases hfind : find ((text.take stop).drop cursor) with
    | none =>
      rw [sliceSearch, hfind] at hchain
      cases hchain
      rw [budgeted_nil]
      rfl
    | some detail =>
      rw [sliceSearch, hfind] at hchain
      obtain _ | rest := hchain
      rename_i tail
      set item := detail.map (cursor + ·) with hitem
      have hin : item.Within stop := hwithin item List.mem_cons_self
      have hin_start := hin.start_le
      have hin_finish := hin.finish_le
      have hstart : item.start = cursor + detail.start := rfl
      have hfinish : item.finish = cursor + detail.finish := rfl
      have hemitted := hemit segment cursor detail hsegment hin
        (hitems item List.mem_cons_self)
      have hoffStart : byteOffset text cursor +
          byteOffset ((text.take stop).drop cursor) detail.start = byteOffset text item.start :=
        byteOffset_slice (by omega) hstop
      have hoffFinish : byteOffset text cursor +
          byteOffset ((text.take stop).drop cursor) detail.finish = byteOffset text item.finish :=
        byteOffset_slice (by omega) hstop
      have hstartLe : byteOffset text item.start ≤ byteOffset text stop :=
        byteOffset_le text (by omega)
      have hfinishLe : byteOffset text item.finish ≤ byteOffset text stop :=
        byteOffset_le text hin_finish
      simp only [Option.map_some, ReMatchDetail.map] at hemitted ⊢
      rw [hoffStart, hoffFinish, if_neg (by omega), hemitted]
      dsimp only
      rw [nextCursor_byteOffset text hstop hin_finish, budgeted_cons hbudget]
      have hrest : ∀ item' ∈ tail, item'.Within stop :=
        fun item' hitem' => hwithin item' (List.mem_cons_of_mem _ hitem')
      have hrestItems : ∀ item' ∈ tail, p item' :=
        fun item' hitem' => hitems item' (List.mem_cons_of_mem _ hitem')
      by_cases hempty : item.finish = item.start
      · rw [if_pos hempty]
        by_cases hlast : stop ≤ item.finish
        · rw [sliceNext, if_pos hempty, if_pos hlast] at rest
          cases rest
          rw [if_pos hlast, budgeted_nil]
          simp only [outputs, lastFinish, List.append_nil]
          rfl
        · rw [sliceNext, if_pos hempty, if_neg hlast] at rest
          have hnext := byteOffset_lt text (show cursor < item.finish + 1 by omega)
          have hloop :=
            @ih (budget.map (· - 1)) item.finish (item.finish + 1) tail rest hrest hrestItems
            (Nat.le_succ _)
            (by omega) (by omega)
          rw [if_neg hlast]
          dsimp only
          rw [hloop]
          rfl
      · rw [sliceNext, if_neg hempty] at rest
        have hnext := byteOffset_lt text (show cursor < item.finish by omega)
        have hloop := @ih (budget.map (· - 1)) item.finish item.finish tail rest hrest hrestItems
          le_rfl hin_finish (by omega)
        rw [if_neg hempty]
        dsimp only
        rw [hloop]
        rfl

end Loop

/-! ## The values of a match -/

section Values

variable {α : Type} [SubjectUnit α] (text : List α)

def textOf (start stop : ℕ) : List α := (text.take stop).drop start

def groupText : Option (ℕ × ℕ) → GroupValue α
  | none => .none
  | some (start, stop) => .text (textOf text start stop)

def findallValue (item : ReMatchDetail) : FindallItem α :=
  match item.captures with
  | [] => .value (.text (textOf text item.start item.finish))
  | [capture] => .value (groupText text capture)
  | captures => .tuple (captures.map (groupText text))

def matchValue (pos endpos : ℕ) (item : ReMatchDetail) : ReMatchValue α where
  start := item.start
  finish := item.finish
  groups := item.captures.map (groupText text)
  spans := item.captures
  pos := pos
  endpos := endpos

def splitValues (segmentStart : ℕ) (item : ReMatchDetail) : List (GroupValue α) :=
  .text (textOf text segmentStart item.start) :: item.captures.map (groupText text)

variable {text} {stop cursor : ℕ}

lemma groupValue_eq (hstop : stop ≤ text.length) {capture : Option (ℕ × ℕ)}
    (hcapture : ∀ low high, capture = some (low, high) →
      cursor + low ≤ cursor + high ∧ cursor + high ≤ stop) :
    groupValue text (byteOffset text cursor)
        (capture.map (Prod.map (byteOffset ((text.take stop).drop cursor))
          (byteOffset ((text.take stop).drop cursor)))) =
      .ok (groupText text (capture.map (Prod.map (cursor + ·) (cursor + ·)))) := by
  obtain _ | ⟨low, high⟩ := capture
  · rfl
  obtain ⟨hle, hhigh⟩ := hcapture low high rfl
  have hlowOff := @byteOffset_slice _ _ text stop _ _ (show cursor + low ≤ stop by omega) hstop
  have hhighOff := @byteOffset_slice _ _ text stop _ _ hhigh hstop
  have hslice := sliceBytes_byteOffset text hle (show cursor + high ≤ text.length by omega)
  simp only [Option.map_some, Prod.map_apply, groupValue]
  rw [hlowOff, hhighOff, hslice]
  rfl

lemma ReMatchDetail.Within.capture {detail : ReMatchDetail}
    (h : (detail.map (cursor + ·)).Within stop) {low high : ℕ}
    (hmem : some (low, high) ∈ detail.captures) :
    cursor + low ≤ cursor + high ∧ cursor + high ≤ stop :=
  h.captures _ _ (List.mem_map.2 ⟨_, hmem, rfl⟩)

lemma groupValues_eq (hstop : stop ≤ text.length) {detail : ReMatchDetail}
    (h : (detail.map (cursor + ·)).Within stop) :
    (detail.map (byteOffset ((text.take stop).drop cursor))).captures.mapM
        (groupValue text (byteOffset text cursor)) =
      .ok ((detail.map (cursor + ·)).captures.map (groupText text)) := by
  have hall : detail.captures.mapM (fun capture => groupValue text (byteOffset text cursor)
      (capture.map (Prod.map (byteOffset ((text.take stop).drop cursor))
        (byteOffset ((text.take stop).drop cursor))))) =
      .ok (detail.captures.map fun capture =>
        groupText text (capture.map (Prod.map (cursor + ·) (cursor + ·)))) :=
    Results.mapM_eq_pure fun capture hcapture =>
      groupValue_eq hstop fun low high heq => h.capture (heq ▸ hcapture)
  simp only [ReMatchDetail.map, List.mapM_map, List.map_map]
  exact hall

lemma findallItem_eq (hstop : stop ≤ text.length) {detail : ReMatchDetail}
    (h : (detail.map (cursor + ·)).Within stop) :
    findallItem text (byteOffset text cursor)
        (detail.map (byteOffset ((text.take stop).drop cursor))) =
      .ok (findallValue text (detail.map (cursor + ·))) := by
  have hgroups := groupValues_eq hstop h
  have hstart := h.start_le
  have hfinish := h.finish_le
  obtain ⟨start, finish, captures⟩ := detail
  have hstartOff : byteOffset text cursor +
      byteOffset ((text.take stop).drop cursor) start = byteOffset text (cursor + start) :=
    byteOffset_slice (hstart.trans hfinish) hstop
  have hfinishOff : byteOffset text cursor +
      byteOffset ((text.take stop).drop cursor) finish = byteOffset text (cursor + finish) :=
    byteOffset_slice hfinish hstop
  have hslice := sliceBytes_byteOffset text hstart (hfinish.trans hstop)
  obtain _ | ⟨capture, _ | ⟨other, captures⟩⟩ := captures
  · simp only [findallItem, ReMatchDetail.map, List.map_nil] at hslice ⊢
    rw [hstartOff, hfinishOff, hslice]
    rfl
  · have hone : groupValue text (byteOffset text cursor)
        (capture.map (Prod.map (byteOffset ((text.take stop).drop cursor))
          (byteOffset ((text.take stop).drop cursor)))) =
        .ok (groupText text (capture.map (Prod.map (cursor + ·) (cursor + ·)))) :=
      groupValue_eq hstop fun low high heq => h.capture (heq ▸ List.mem_cons_self)
    simp only [findallItem, ReMatchDetail.map, List.map_cons, List.map_nil]
    rw [hone]
    rfl
  · simp only [findallItem, ReMatchDetail.map, List.map_cons] at hgroups ⊢
    rw [hgroups]
    rfl

/-- Shifting a match of the slice to the subject, in bytes. -/
lemma shift_byteOffset (hstop : stop ≤ text.length) {detail : ReMatchDetail}
    (h : (detail.map (cursor + ·)).Within stop) :
    (detail.map (byteOffset ((text.take stop).drop cursor))).map (byteOffset text cursor + ·) =
      (detail.map (cursor + ·)).map (byteOffset text) := by
  have hstart := h.start_le
  have hfinish := h.finish_le
  rw [ReMatchDetail.map_map, ReMatchDetail.map_map]
  refine ReMatchDetail.map_congr (byteOffset_slice (hstart.trans hfinish) hstop)
    (byteOffset_slice hfinish hstop) fun low high hmem => ?_
  obtain ⟨hle, hhigh⟩ := h.capture hmem
  exact ⟨byteOffset_slice (hle.trans hhigh) hstop, byteOffset_slice hhigh hstop⟩

lemma allocReMatchValue_eq (hstop : stop ≤ text.length) {item : ReMatchDetail}
    (h : item.Within stop) {expectedGroups : ℕ} (hexpected : expectedGroups ≤ item.captures.length)
    (pos endpos : ℕ) :
    allocReMatchValue text (item.map (byteOffset text)) expectedGroups pos endpos =
      .ok (matchValue text pos endpos item) := by
  have hstart : byteToChar text (byteOffset text item.start) = .ok item.start :=
    byteToChar_byteOffset text ((h.start_le.trans h.finish_le).trans hstop)
  have hfinish : byteToChar text (byteOffset text item.finish) = .ok item.finish :=
    byteToChar_byteOffset text (h.finish_le.trans hstop)
  have hgroups : item.captures.mapM (fun capture =>
      groupValue text 0 (capture.map (Prod.map (byteOffset text) (byteOffset text)))) =
      .ok (item.captures.map (groupText text)) := by
    refine Results.mapM_eq_pure fun capture hcapture => ?_
    obtain _ | ⟨low, high⟩ := capture
    · rfl
    obtain ⟨hle, hhigh⟩ := h.captures low high hcapture
    have hslice := sliceBytes_byteOffset text hle (hhigh.trans hstop)
    simp only [Option.map_some, Prod.map_apply, groupValue, Nat.zero_add, hslice]
    rfl
  have hspans : item.captures.mapM (fun capture =>
      charSpan text (capture.map (Prod.map (byteOffset text) (byteOffset text)))) =
      .ok (item.captures.map id) := by
    refine Results.mapM_eq_pure fun capture hcapture => ?_
    obtain _ | ⟨low, high⟩ := capture
    · rfl
    obtain ⟨hle, hhigh⟩ := h.captures low high hcapture
    have hlow := byteToChar_byteOffset text ((hle.trans hhigh).trans hstop)
    have hhigh := byteToChar_byteOffset text (hhigh.trans hstop)
    simp only [Option.map_some, Prod.map_apply, charSpan, hlow, hhigh]
    rfl
  have hpad : expectedGroups - (item.captures.map
      (Option.map (Prod.map (byteOffset text) (byteOffset text)))).length = 0 := by
    rw [List.length_map]
    omega
  simp only [allocReMatchValue, ReMatchDetail.map, hpad, List.replicate_zero, List.append_nil,
    List.mapM_map, Function.comp_def, hstart, hfinish]
  rw [hgroups, hspans, List.map_id]
  rfl

end Values

/-! ## The operations -/

section Operations

variable {α : Type} [SubjectUnit α] {text : List α} {stop : ℕ}
  {search find : List α → Option ReMatchDetail} {items : List ReMatchDetail}

lemma outputs_singleton {β : Type} (value : ReMatchDetail → β) (segmentStart : ℕ)
    (items : List ReMatchDetail) :
    outputs (fun _ item => [value item]) segmentStart items = items.map value := by
  induction items generalizing segmentStart with
  | nil => rfl
  | cons item items ih => rw [outputs, ih, List.map_cons, List.singleton_append]

lemma findallFrom_eq (hrenders : Renders search find) (hstop : stop ≤ text.length) {start : ℕ}
    (hstart : start ≤ stop)
    (hchain : Chain (sliceNext find text stop) (sliceSearch find text stop start) items)
    (hwithin : ∀ item ∈ items, item.Within stop) :
    findallFrom text (byteOffset text stop) search (byteOffset text start) =
      .ok (items.map (findallValue text)) := by
  have hloop : repeatSearch text (byteOffset text stop) search true
      (fun _ cursor detail => (findallItem text cursor detail).bind fun item => .ok [item])
      (byteOffset text stop + 1) none (byteOffset text 0) (byteOffset text start) =
      .ok (outputs (fun _ item => [findallValue text item]) 0 (budgeted none items),
        byteOffset text (lastFinish 0 (budgeted none items))) := by
    apply repeatSearch_eq (p := fun _ => True) hrenders hstop _ hchain hwithin
      (fun _ _ => trivial) (Nat.zero_le _) hstart (by omega)
    intro _ cursor detail _ hitem _
    rw [findallItem_eq hstop hitem]
    rfl
  rw [byteOffset_zero, outputs_singleton] at hloop
  unfold findallFrom
  simp only [bind]
  rw [hloop]
  rfl

lemma finditerFrom_eq (hrenders : Renders search find) (hstop : stop ≤ text.length) {start : ℕ}
    (hstart : start ≤ stop)
    (hchain : Chain (sliceNext find text stop) (sliceSearch find text stop start) items)
    (hwithin : ∀ item ∈ items, item.Within stop) {expectedGroups : ℕ}
    (hexpected : ∀ item ∈ items, expectedGroups ≤ item.captures.length) (pos endpos : ℕ) :
    finditerFrom text (byteOffset text stop) search (byteOffset text start) expectedGroups
        pos endpos =
      .ok (items.map (matchValue text pos endpos)) := by
  have hloop : repeatSearch text (byteOffset text stop) search false
      (fun _ cursor detail =>
        (allocReMatchValue text (detail.map (cursor + ·)) expectedGroups pos endpos).bind
          fun item => .ok [item])
      (byteOffset text stop + 1) none (byteOffset text 0) (byteOffset text start) =
      .ok (outputs (fun _ item => [matchValue text pos endpos item]) 0 (budgeted none items),
        byteOffset text (lastFinish 0 (budgeted none items))) := by
    apply repeatSearch_eq hrenders hstop _ hchain hwithin hexpected (Nat.zero_le _) hstart
      (by omega)
    intro _ cursor detail _ hitem hgroups
    rw [shift_byteOffset hstop hitem, allocReMatchValue_eq hstop hitem hgroups]
    rfl
  rw [byteOffset_zero, outputs_singleton] at hloop
  unfold finditerFrom
  simp only [bind]
  rw [hloop]
  rfl

/-- The parts of a subject, up to a number of matches. -/
def splitParts (text : List α) (budget : Option ℕ) (items : List ReMatchDetail) :
    List (GroupValue α) :=
  outputs (splitValues text) 0 (budgeted budget items) ++
    [.text (text.drop (lastFinish 0 (budgeted budget items)))]

/-- The limit `split` counts down: a `maxsplit` that is not positive is no limit there. -/
def splitBudget (maxsplit : Int) : Option ℕ :=
  if maxsplit.toNat = 0 then none else some maxsplit.toNat

lemma lastFinish_le {segmentStart : ℕ} (hwithin : ∀ item ∈ items, item.Within stop)
    (hsegment : segmentStart ≤ stop) : lastFinish segmentStart items ≤ stop := by
  induction items generalizing segmentStart with
  | nil => exact hsegment
  | cons item items ih =>
    exact ih (fun other hother => hwithin other (List.mem_cons_of_mem _ hother))
      (hwithin item List.mem_cons_self).finish_le

lemma mem_of_mem_budgeted {γ : Type} {budget : Option ℕ} {items : List γ} {item : γ}
    (h : item ∈ budgeted budget items) : item ∈ items := by
  obtain _ | count := budget
  · exact h
  · exact List.mem_of_mem_take h

lemma splitFrom_eq (hrenders : Renders search find)
    (hchain : Chain (sliceNext find text text.length) (sliceSearch find text text.length 0) items)
    (hwithin : ∀ item ∈ items, item.Within text.length) (maxsplit : Int) :
    splitFrom text search maxsplit = .ok (splitParts text (splitBudget maxsplit) items) := by
  have hloop : repeatSearch text (byteOffset text text.length) search true
      (fun segmentStart cursor detail =>
        (sliceBytes text segmentStart (cursor + detail.start)).bind fun part =>
          (detail.captures.mapM (groupValue text cursor)).bind fun groups =>
            .ok (.text part :: groups))
      (byteOffset text text.length + 1) (splitBudget maxsplit) (byteOffset text 0)
      (byteOffset text 0) =
      .ok (outputs (splitValues text) 0 (budgeted (splitBudget maxsplit) items),
        byteOffset text (lastFinish 0 (budgeted (splitBudget maxsplit) items))) := by
    apply repeatSearch_eq (p := fun _ => True) hrenders le_rfl _ hchain hwithin
      (fun _ _ => trivial) le_rfl (Nat.zero_le _) (by omega)
    intro segment cursor detail hsegment hitem _
    have hstart : cursor + detail.start ≤ cursor + detail.finish := hitem.start_le
    have hfinish : cursor + detail.finish ≤ text.length := hitem.finish_le
    have hoff : byteOffset text cursor +
        byteOffset ((text.take text.length).drop cursor) detail.start =
          byteOffset text (cursor + detail.start) :=
      byteOffset_slice (hstart.trans hfinish) le_rfl
    have hslice := sliceBytes_byteOffset text (show segment ≤ cursor + detail.start by omega)
      (hstart.trans hfinish)
    have hgroups := groupValues_eq le_rfl hitem
    rw [hgroups]
    simp only [ReMatchDetail.map]
    rw [hoff, hslice]
    rfl
  have hlast : lastFinish 0 (budgeted (splitBudget maxsplit) items) ≤ text.length :=
    lastFinish_le (fun item hitem => hwithin item (mem_of_mem_budgeted hitem)) (Nat.zero_le _)
  have htail := sliceBytes_byteOffset text hlast le_rfl
  rw [List.take_length] at htail
  rw [byteOffset_zero] at hloop
  unfold splitFrom
  simp only [bind, byteLen]
  rw [show (if maxsplit.toNat = 0 then none else some maxsplit.toNat) = splitBudget maxsplit from
    rfl, hloop]
  simp only [Except.bind, htail]
  rfl

end Operations

/-! ## The first match of a program -/

section Search

variable {α : Type} (program : SreProgram α) (subject : List α)

/-- The match at a position: the first path. -/
def SreProgram.matchAt (start : ℕ) : Option ReMatchDetail :=
  (program.paths subject start).head?.map fun path =>
    { start := start
      finish := path.finish
      captures := (List.range program.groups).map (path.capture subject.length) }

/-- The first match of a subject. -/
def SreProgram.search : Option ReMatchDetail :=
  (List.range (subject.length + 1)).findSome? (program.matchAt subject)

variable {program subject}

lemma capture_bounds {path : SrePath} {len group low high : ℕ}
    (h : path.capture len group = some (low, high)) : low ≤ high ∧ high ≤ len := by
  unfold SrePath.capture at h
  split at h
  next start stop _ _ =>
    by_cases hle : start ≤ stop ∧ stop ≤ len
    · rw [if_pos hle] at h
      cases h
      exact hle
    · rw [if_neg hle] at h
      cases h
  next => cases h

lemma search_eq_some {item : ReMatchDetail} (h : program.search subject = some item) :
    item.Within subject.length ∧ item.captures.length = program.groups := by
  obtain ⟨start, hstart, hitem⟩ := List.exists_of_findSome?_eq_some h
  have hhigh := List.mem_range.1 hstart
  obtain ⟨path, hpath, rfl⟩ := Option.map_eq_some_iff.1 hitem
  obtain ⟨hle, hlen⟩ :=
    program.bounds subject start (by omega) path (List.mem_of_mem_head? hpath)
  refine ⟨⟨hle, hlen, fun low high hmem => ?_⟩, ?_⟩
  · obtain ⟨group, _, hgroup⟩ := List.mem_map.1 hmem
    exact capture_bounds hgroup
  · rw [List.length_map, List.length_range]

end Search

/-! ## The walk over the slices -/

section Walk

variable {α : Type}

/-- The compiled search, in units. -/
lemma renders_compiledSearch [SubjectUnit α] (program : SreProgram α) :
    Renders (fun text => compiledRegexMatchDetailsWithText program text .search)
      program.search := by
  intro text
  have htry : ∀ start, program.tryStart text .search start =
      (program.matchAt text start).map (·.map (byteOffset text)) := by
    intro start
    rw [SreProgram.tryStart, SreProgram.matchAt]
    cases (program.paths text start).head? with
    | none => rfl
    | some path =>
      have hmode : ¬(ReMode.search = .fullMatch ∧ path.finish ≠ text.length) :=
        fun h => absurd h.1 (by decide)
      simp only [if_neg hmode, Option.map_some, ReMatchDetail.map, List.map_map,
        Function.comp_def]
  have hmap : ∀ list : List ℕ, list.findSome? (program.tryStart text .search) =
      (list.findSome? (program.matchAt text)).map (·.map (byteOffset text)) := by
    intro list
    induction list with
    | nil => rfl
    | cons start list ih =>
      rw [List.findSome?_cons, List.findSome?_cons, htry, ih]
      cases program.matchAt text start <;> rfl
  exact hmap _

variable {find : List α → Option ReMatchDetail} {text : List α} {stop : ℕ}
  {program : SreProgram α}

lemma sliceSearch_start {cursor : ℕ} {item : ReMatchDetail}
    (h : sliceSearch find text stop cursor = some item) : cursor ≤ item.start := by
  obtain ⟨detail, _, rfl⟩ := Option.map_eq_some_iff.1 h
  exact Nat.le_add_right _ _

/-- The search for the next match starts behind a match, and behind an empty one after a step. -/
lemma sliceNext_eq_some {item next : ReMatchDetail}
    (h : sliceNext find text stop item = some next) :
    ∃ cursor, sliceSearch find text stop cursor = some next ∧ item.finish ≤ cursor ∧
      (item.finish = item.start → item.finish < cursor) ∧ cursor ≤ max stop item.finish := by
  rw [sliceNext] at h
  split at h
  · next hempty =>
    split at h
    · cases h
    · next hlast => exact ⟨_, h, Nat.le_succ _, fun _ => Nat.lt_succ_self _, by omega⟩
  · next hfull => exact ⟨_, h, le_rfl, fun hempty => absurd hempty hfull, Nat.le_max_right _ _⟩

/-- The loops end, over a search that stays in its slice. -/
lemma exists_sliceChain (hstop : stop ≤ text.length)
    (hfind : ∀ part detail, find part = some detail →
      detail.Within part.length ∧ detail.captures.length = program.groups) {start : ℕ}
    (hstart : start ≤ stop) :
    ∃ items, Chain (sliceNext find text stop) (sliceSearch find text stop start) items ∧
      ∀ item ∈ items, item.Within stop ∧ item.captures.length = program.groups := by
  have hslice : ∀ cursor item, sliceSearch find text stop cursor = some item →
      item.Within (max stop cursor) ∧ item.captures.length = program.groups := by
    intro cursor item h
    obtain ⟨detail, hdetail, rfl⟩ := Option.map_eq_some_iff.1 h
    obtain ⟨hwithin, hgroups⟩ := hfind _ _ hdetail
    have hlen : ((text.take stop).drop cursor).length = stop - cursor := by
      rw [List.length_drop, List.length_take, Nat.min_eq_left hstop]
    rw [hlen] at hwithin
    have hle := hwithin.start_le
    have hfinish := hwithin.finish_le
    refine ⟨⟨Nat.add_le_add_left hle cursor, show cursor + detail.finish ≤ _ by omega,
      fun low high hmem => ?_⟩, by simpa [ReMatchDetail.map] using hgroups⟩
    obtain ⟨_ | ⟨low', high'⟩, hmem', heq⟩ := List.mem_map.1 hmem
    · cases heq
    · cases heq
      obtain ⟨hlow, hhigh⟩ := hwithin.captures _ _ hmem'
      exact ⟨Nat.add_le_add_left hlow cursor, show cursor + high' ≤ _ by omega⟩
  obtain ⟨items, hitems⟩ := @Chain.exists_of_measure _ (sliceNext find text stop)
    (fun item => 2 * (stop + 1 - item.finish) + if item.finish = item.start then 0 else 1)
    (fun item next hnext => by
      obtain ⟨cursor, hsearch, hcursor, hstep, hlast⟩ := sliceNext_eq_some hnext
      have hlow := sliceSearch_start hsearch
      have hle := (hslice _ _ hsearch).1.start_le
      have hfinish := (hslice _ _ hsearch).1.finish_le
      by_cases hempty : item.finish = item.start
      · have hstep := hstep hempty
        rw [if_pos hempty]
        split <;> omega
      · rw [if_neg hempty]
        split <;> omega)
    (sliceSearch find text stop start)
  refine ⟨items, hitems, Chain.forall_mem hitems (fun item hitem => ?_)
    fun item next hitem hnext => ?_⟩
  · have hitem := hslice _ _ hitem
    rwa [Nat.max_eq_left hstart] at hitem
  · obtain ⟨cursor, hsearch, -, -, hlast⟩ := sliceNext_eq_some hnext
    have hfinish := hitem.1.finish_le
    have hnext := hslice _ _ hsearch
    rwa [Nat.max_eq_left (by omega)] at hnext

end Walk

/-! ## The operations on a text -/

lemma clampIndex_le (len : ℕ) (raw : Int) : clampIndex len raw ≤ len := by
  unfold clampIndex
  split <;> omega

/-- A window of a subject. -/
structure Window (len : ℕ) where
  start : ℕ
  stop : ℕ
  start_le : start ≤ stop
  stop_le : stop ≤ len

/-- The window an operation searches; a negative index counts from the end. -/
def codeWindow (len : ℕ) (pos endpos : Option Int) : Window len where
  start := clampIndex len (pos.getD 0)
  stop := max (clampIndex len (endpos.getD len)) (clampIndex len (pos.getD 0))
  start_le := Nat.le_max_right _ _
  stop_le := Nat.max_le.2 ⟨clampIndex_le _ _, clampIndex_le _ _⟩

lemma normalizeStringWindow_eq (text : List Char) (pos endpos : Option Int) :
    normalizeStringWindow text (pos.getD 0) (endpos.getD text.length) =
      .ok (byteOffset text (codeWindow text.length pos endpos).start,
        byteOffset text (codeWindow text.length pos endpos).stop,
        (codeWindow text.length pos endpos).start, (codeWindow text.length pos endpos).stop) := by
  have hstart := (codeWindow text.length pos endpos).start_le
  have hstop := (codeWindow text.length pos endpos).stop_le
  have hindex : ∀ index, index ≤ text.length →
      utf8CharIndexToByte text index = some (byteOffset text index) :=
    fun index hindex => if_neg (Nat.not_lt.2 hindex)
  have hlow := hindex _ (hstart.trans hstop)
  have hhigh := hindex _ hstop
  simp only [codeWindow] at hlow hhigh ⊢
  simp only [normalizeStringWindow, hlow, hhigh]

section Text

variable {runtime : ReRuntime} {patternText : List Char} {program : SreProgram Char}
  {expectedGroups : ℕ} {text : List Char} {pos endpos : Option Int}

lemma builtinRePatternFinditer_text {items : List ReMatchDetail}
    (hchain : Chain (sliceNext program.search text (codeWindow text.length pos endpos).stop)
      (sliceSearch program.search text (codeWindow text.length pos endpos).stop
        (codeWindow text.length pos endpos).start) items)
    (hitems : ∀ item ∈ items, item.Within (codeWindow text.length pos endpos).stop ∧
      item.captures.length = program.groups) (hexpected : expectedGroups ≤ program.groups) :
    builtinRePatternFinditer runtime (.str patternText program) expectedGroups (.text text)
        pos endpos =
      .ok (.text (items.map (matchValue text (codeWindow text.length pos endpos).start
        (codeWindow text.length pos endpos).stop))) := by
  have hloop := finditerFrom_eq (renders_compiledSearch program)
    (codeWindow text.length pos endpos).stop_le (codeWindow text.length pos endpos).start_le hchain
    (fun item hitem => (hitems item hitem).1)
    (fun item hitem => (hitems item hitem).2 ▸ hexpected)
    (codeWindow text.length pos endpos).start (codeWindow text.length pos endpos).stop
  simp only [builtinRePatternFinditer, normalizeStringWindow_eq, bind, Except.bind, hloop]

lemma builtinRePatternFindall_text {items : List ReMatchDetail}
    (hcsv : runtime.csvSnifferPatternFindall patternText text = none)
    (hchain : Chain (sliceNext program.search text (codeWindow text.length pos endpos).stop)
      (sliceSearch program.search text (codeWindow text.length pos endpos).stop
        (codeWindow text.length pos endpos).start) items)
    (hitems : ∀ item ∈ items, item.Within (codeWindow text.length pos endpos).stop) :
    builtinRePatternFindall runtime (.str patternText program) (.text text) pos endpos =
      .ok (.text (items.map (findallValue text))) := by
  have hloop := findallFrom_eq (renders_compiledSearch program)
    (codeWindow text.length pos endpos).stop_le (codeWindow text.length pos endpos).start_le hchain
    hitems
  simp only [builtinRePatternFindall, hcsv, normalizeStringWindow_eq, bind, Except.bind, hloop]

lemma exists_walk_text (program : SreProgram Char) (window : Window text.length) :
    ∃ items, Chain (sliceNext program.search text window.stop)
      (sliceSearch program.search text window.stop window.start) items ∧
      ∀ item ∈ items, item.Within window.stop ∧ item.captures.length = program.groups :=
  exists_sliceChain window.stop_le (fun _ _ => search_eq_some) window.start_le

end Text

end Pyrs
