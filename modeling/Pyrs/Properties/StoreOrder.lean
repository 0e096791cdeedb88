import Mathlib.Tactic.Ring
import Pyrs.Model.TargetExecution

/-!
# The order of the stores of an assignment

The code of an assignment is the assembly of a list of steps.  Where the targets spread over several
stores it makes them from the last to the first, while the language asks for the first one first; so
the two agree exactly for targets with at most one store.

The value of an assignment stands in a temporary between its targets.  In a function that is a fast
local.  At module level the temporary is loaded through the inline cache of `LoadName`, so the code
is right only where no load finds an entry of an earlier run; the runs here take the entries that
the loads will find as a part of the state.
-/

namespace Pyrs

/-! ## Programs -/

mutual

/-- The steps of `compile_store_target_from_stack`. -/
def storeProgram : AssignTarget → List TargetOp
  | .name name => [.storeVariable name]
  | .starred item => storeProgram item
  | .tuple items | .list items => .unpack items :: storePrograms items
  | .attribute value name =>
    [.fresh "assign", .storeTemp 0, .evaluate value, .loadTemp 0, .storeAttr name, .deleteTemp 0,
      .release]
  | .subscript value index =>
    [.fresh "assign", .storeTemp 0, .evaluate value, .evaluate index, .loadTemp 0, .storeSubscript,
      .deleteTemp 0, .release]

/-- The items of a target from the last to the first. -/
def storePrograms : List AssignTarget → List TargetOp
  | [] => []
  | item :: items => storePrograms items ++ storeProgram item

end

/-- The steps of the targets of a chained assignment. -/
def chainProgram : List AssignTarget → List TargetOp
  | [] => []
  | [target] => storeProgram target
  | target :: targets => .dupTop :: (storeProgram target ++ chainProgram targets)

/-- The steps of `compile_assign_targets`. -/
def assignProgram (targets : List AssignTarget) (value : Expr) : List TargetOp :=
  if targets.isEmpty then [] else .evaluate value :: chainProgram targets

/-! ## The code is the assembly of its program -/

section Assembly

variable (routines : Routines) (temps : List String)

@[simp] lemma assemble_nil : assemble routines temps [] = pure temps := rfl

@[simp] lemma assemble_cons (op : TargetOp) (ops : List TargetOp) :
    assemble routines temps (op :: ops) =
      op.assemble routines temps >>= fun temps => assemble routines temps ops := rfl

lemma assemble_append (ops ops' : List TargetOp) :
    assemble routines temps (ops ++ ops') =
      assemble routines temps ops >>= fun temps => assemble routines temps ops' :=
  List.foldlM_append

mutual

lemma assemble_storeProgram (target : AssignTarget) :
    assemble routines temps (storeProgram target) =
      compileStoreTargetFromStack routines target >>= fun _ => pure temps :=
  match target with
  | .name name => by simp [storeProgram, compileStoreTargetFromStack, TargetOp.assemble]
  | .starred item => by
    simpa only [storeProgram, compileStoreTargetFromStack] using assemble_storeProgram item
  | .tuple items => by
    simp [storeProgram, compileStoreTargetFromStack, TargetOp.assemble,
      assemble_storePrograms items]
  | .list items => by
    simp [storeProgram, compileStoreTargetFromStack, TargetOp.assemble,
      assemble_storePrograms items]
  | .attribute value name => by
    simp [storeProgram, compileStoreTargetFromStack, TargetOp.assemble]
  | .subscript value index => by
    simp [storeProgram, compileStoreTargetFromStack, TargetOp.assemble]

lemma assemble_storePrograms (items : List AssignTarget) :
    assemble routines temps (storePrograms items) =
      compileStoreTargetsReversed routines items >>= fun _ => pure temps :=
  match items with
  | [] => by simp [storePrograms, compileStoreTargetsReversed]
  | item :: items => by
    simp [storePrograms, compileStoreTargetsReversed, assemble_append, assemble_storePrograms items,
      assemble_storeProgram item]

end

lemma assemble_chainProgram (targets : List AssignTarget) :
    assemble routines temps (chainProgram targets) =
      compileStoreTargets routines targets >>= fun _ => pure temps := by
  induction targets using chainProgram.induct with
  | case1 => simp [chainProgram, compileStoreTargets]
  | case2 target => simp [chainProgram, compileStoreTargets, assemble_storeProgram]
  | case3 target targets hne ih =>
    rw [chainProgram.eq_3 _ _ hne, compileStoreTargets.eq_3 _ _ _ hne]
    simp [TargetOp.assemble, assemble_append, assemble_storeProgram, ih]

/-- What `compile_assign_targets` emits is the assembly of its program. -/
lemma assemble_assignProgram (targets : List AssignTarget) (value : Expr) :
    assemble routines temps (assignProgram targets value) =
      compileAssignTargets routines targets value >>= fun _ => pure temps := by
  unfold assignProgram compileAssignTargets
  split
  · simp
  · simp [TargetOp.assemble, assemble_chainProgram]

end Assembly

/-! ## The order of the language -/

/-- What unpacking a value assigns to the items of a target. -/
def assignedItems (items : List AssignTarget) (value : Origin) : List Origin :=
  match items.findIdx? (·.isStarred) with
  | some starIdx => unpackExItems starIdx (items.length - starIdx - 1) value
  | none => unpackSequenceItems items.length value

/-- A single store with the value it receives. -/
inductive Store
  | variable (name : String) (value : Origin)
  | attribute (object : Expr) (name : String) (value : Origin)
  | element (container index : Expr) (value : Origin)

def Store.value : Store → Origin
  | .variable _ value | .attribute _ _ value | .element _ _ value => value

/-- The parts of a target are evaluated right before its store. -/
def Store.events : Store → List AssignEvent
  | .variable name value => [.storeVariable name value]
  | .attribute object name value => [.evaluate object, .storeAttribute (.result object) name value]
  | .element container index value =>
    [.evaluate container, .evaluate index, .storeElement (.result container) (.result index) value]

mutual

/-- The stores of a target from left to right. -/
def stores (value : Origin) : AssignTarget → List Store
  | .name name => [.variable name value]
  | .starred item => stores value item
  | .tuple items | .list items => itemStores (assignedItems items value) items
  | .attribute object name => [.attribute object name value]
  | .subscript container index => [.element container index value]

def itemStores (values : List Origin) : List AssignTarget → List Store
  | [] => []
  | item :: items =>
    match values with
    | value :: values => stores value item ++ itemStores values items
    | [] => []

end

mutual

/-- How many stores a target makes. -/
def AssignTarget.storeCount : AssignTarget → ℕ
  | .name _ | .attribute _ _ | .subscript _ _ => 1
  | .starred item => item.storeCount
  | .tuple items | .list items => storeCounts items

def storeCounts : List AssignTarget → ℕ
  | [] => 0
  | item :: items => item.storeCount + storeCounts items

end

/-- An assignment as the language has it: the value, then every store from left to right. -/
def assignTrace (targets : List AssignTarget) (value : Expr) : List AssignEvent :=
  .evaluate value :: (targets.flatMap (stores (.result value))).flatMap Store.events

/-! ## What unpacking pushes -/

@[simp] lemma length_unpackSequenceItems (count : ℕ) (value : Origin) :
    (unpackSequenceItems count value).length = count := by
  simp [unpackSequenceItems]

@[simp] lemma length_unpackExItems (before after : ℕ) (value : Origin) :
    (unpackExItems before after value).length = before + after + 1 := by
  simp [unpackExItems]
  omega

/-- How many values the unpacking of a list of targets pushes. -/
def unpackCount (items : List AssignTarget) : ℕ :=
  match items.findIdx? (·.isStarred) with
  | some starIdx =>
    let packed := packUnpackCounts starIdx (items.length - starIdx - 1)
    packed % 2 ^ 16 + packed >>> 16 + 1
  | none => items.length

lemma length_unpackedItems (items : List AssignTarget) (value : Origin) :
    (unpackedItems items value).length = unpackCount items := by
  unfold unpackedItems unpackCount
  cases items.findIdx? (·.isStarred) <;> simp

@[simp] lemma length_assignedItems (items : List AssignTarget) (value : Origin) :
    (assignedItems items value).length = items.length := by
  unfold assignedItems
  cases hstar : items.findIdx? (·.isStarred) with
  | none => exact length_unpackSequenceItems ..
  | some starIdx =>
    obtain ⟨hlt, -⟩ := List.findIdx?_eq_some_iff_getElem.1 hstar
    rw [length_unpackExItems]
    omega

/-- Where the counts fit in their halves of the argument, they are read back as they were. -/
lemma unpackCounts_eq {before after : ℕ} (hbefore : before < 2 ^ 16) (hafter : after < 2 ^ 16) :
    packUnpackCounts before after % 2 ^ 16 = before ∧
      packUnpackCounts before after >>> 16 = after := by
  rw [packUnpackCounts, ← Nat.shiftLeft_add_eq_or_of_lt hbefore, Nat.shiftLeft_eq,
    Nat.shiftRight_eq_div_pow]
  omega

/-- A list of targets with a star has less than 65536 targets on each side of it. -/
def targetsFit (items : List AssignTarget) : Bool :=
  match items.findIdx? (·.isStarred) with
  | some starIdx => starIdx < 2 ^ 16 && items.length - starIdx - 1 < 2 ^ 16
  | none => true

mutual

/-- All lists of targets inside a target fit. -/
def AssignTarget.fits : AssignTarget → Bool
  | .name _ | .attribute _ _ | .subscript _ _ => true
  | .starred item => item.fits
  | .tuple items | .list items => targetsFit items && allFit items

def allFit : List AssignTarget → Bool
  | [] => true
  | item :: items => item.fits && allFit items

end

lemma unpackedItems_eq_assignedItems {items : List AssignTarget} (hfits : targetsFit items = true)
    (value : Origin) : unpackedItems items value = assignedItems items value := by
  unfold unpackedItems assignedItems
  cases hstar : items.findIdx? (·.isStarred) with
  | none => rfl
  | some starIdx =>
    simp only [targetsFit, hstar, Bool.and_eq_true, decide_eq_true_eq] at hfits
    obtain ⟨hbefore, hafter⟩ := unpackCounts_eq hfits.1 hfits.2
    dsimp only
    rw [hbefore, hafter]

lemma or_le_add (a b : ℕ) : a ||| b ≤ a + b := by
  induction a using Nat.strong_induction_on generalizing b with
  | _ a ih =>
    rcases Nat.eq_zero_or_pos a with rfl | hpos
    · simp
    · have hhalf : (a ||| b) / 2 = a / 2 ||| b / 2 := Nat.or_div_two
      have hbit : (a ||| b) % 2 ≤ a % 2 + b % 2 := by
        rw [show (2 : ℕ) = 2 ^ 1 from rfl, Nat.or_mod_two_pow]
        rcases Nat.mod_two_eq_zero_or_one a with ha | ha <;>
          rcases Nat.mod_two_eq_zero_or_one b with hb | hb <;> simp [ha, hb]
      have hle := ih (a / 2) (by omega) (b / 2)
      omega

/-- A count that does not fit is read back smaller. -/
lemma unpackEx_pushes_le (before after : ℕ) :
    packUnpackCounts before after % 2 ^ 16 + packUnpackCounts before after >>> 16 ≤
        before + after ∧
      (packUnpackCounts before after % 2 ^ 16 + packUnpackCounts before after >>> 16 =
          before + after → before < 2 ^ 16 ∧ after < 2 ^ 16) := by
  have hlow : packUnpackCounts before after % 2 ^ 16 = before % 2 ^ 16 := by
    rw [packUnpackCounts, Nat.mod_mod_of_dvd _ (by decide), Nat.or_mod_two_pow, Nat.shiftLeft_eq,
      Nat.mul_mod_left, Nat.zero_or]
  have hhigh : packUnpackCounts before after >>> 16 = (after ||| before / 2 ^ 16) % 2 ^ 16 := by
    rw [packUnpackCounts, Nat.shiftRight_eq_div_pow, show (2 : ℕ) ^ 32 = 2 ^ 16 * 2 ^ 16 from rfl,
      Nat.mod_mul_right_div_self, ← Nat.shiftRight_eq_div_pow, Nat.shiftRight_or_distrib,
      Nat.shiftLeft_shiftRight, Nat.shiftRight_eq_div_pow]
  have hor := or_le_add after (before / 2 ^ 16)
  have hmod := Nat.mod_le (after ||| before / 2 ^ 16) (2 ^ 16)
  rw [hlow, hhigh]
  refine ⟨by omega, fun hsame => ?_⟩
  have hbefore : before < 2 ^ 16 := by omega
  rw [Nat.div_eq_of_lt hbefore, Nat.or_zero] at hsame
  omega

lemma unpackCount_le (items : List AssignTarget) : unpackCount items ≤ items.length := by
  unfold unpackCount
  cases hstar : items.findIdx? (·.isStarred) with
  | none => exact le_rfl
  | some starIdx =>
    obtain ⟨hlt, -⟩ := List.findIdx?_eq_some_iff_getElem.1 hstar
    have hpushes := (unpackEx_pushes_le starIdx (items.length - starIdx - 1)).1
    dsimp only
    omega

/-- Unpacking pushes one value for each item exactly where the counts fit. -/
lemma unpackCount_eq_iff (items : List AssignTarget) :
    unpackCount items = items.length ↔ targetsFit items = true := by
  unfold unpackCount targetsFit
  cases hstar : items.findIdx? (·.isStarred) with
  | none => simp
  | some starIdx =>
    obtain ⟨hlt, -⟩ := List.findIdx?_eq_some_iff_getElem.1 hstar
    simp only [Bool.and_eq_true, decide_eq_true_eq]
    constructor
    · intro hcount
      exact (unpackEx_pushes_le starIdx (items.length - starIdx - 1)).2 (by omega)
    · rintro ⟨hbefore, hafter⟩
      have hcounts := unpackCounts_eq hbefore hafter
      omega

/-! ## The height of the stack -/

/-- How much a step raises the stack. -/
def TargetOp.height : TargetOp → ℤ
  | .fresh _ | .release | .deleteTemp _ | .loadAttr _ => 0
  | .evaluate _ | .loadTemp _ | .loadVariable _ | .dupTop => 1
  | .storeTemp _ | .storeVariable _ | .subscript | .augment _ => -1
  | .storeAttr _ => -2
  | .storeSubscript => -3
  | .unpack items => unpackCount items - 1

def height (ops : List TargetOp) : ℤ :=
  (ops.map TargetOp.height).sum

@[simp] lemma height_nil : height [] = 0 := rfl

@[simp] lemma height_cons (op : TargetOp) (ops : List TargetOp) :
    height (op :: ops) = op.height + height ops := by
  simp [height]

@[simp] lemma height_append (ops ops' : List TargetOp) :
    height (ops ++ ops') = height ops + height ops' := by
  simp [height]

lemma TargetOp.length_of_execute {op : TargetOp} {state state' : TargetState}
    (h : op.execute state = some state') :
    (state'.stack.length : ℤ) = state.stack.length + op.height := by
  obtain ⟨stack, temps, trace, entries⟩ := state
  cases op with
  | fresh kind | release | evaluate expr | loadVariable name =>
    obtain rfl := Option.some.inj h
    simp [TargetState.push, TargetState.log, TargetOp.height]
  | loadTemp place | deleteTemp place =>
    simp only [TargetOp.execute, Option.bind_eq_bind, Option.bind_eq_some_iff] at h
    obtain ⟨value, -, h⟩ := h
    obtain rfl := Option.some.inj h
    simp [TargetState.push, TargetOp.height]
  | storeTemp place | storeVariable name | loadAttr name | dupTop =>
    cases stack with
    | nil => cases h
    | cons value stack =>
      obtain rfl := Option.some.inj h
      simp [TargetState.push, TargetState.log, TargetOp.height]
  | unpack items =>
    cases stack with
    | nil => cases h
    | cons value stack =>
      obtain rfl := Option.some.inj h
      simp [TargetOp.height, length_unpackedItems]
      omega
  | storeAttr name | subscript | augment op =>
    match stack with
    | [] | [_] => cases h
    | right :: left :: stack =>
      obtain rfl := Option.some.inj h
      simp only [TargetState.push, TargetState.log, TargetOp.height, List.length_cons]
      omega
  | storeSubscript =>
    match stack with
    | [] | [_] | [_, _] => cases h
    | value :: index :: container :: stack =>
      obtain rfl := Option.some.inj h
      simp [TargetState.log, TargetOp.height]
      omega

@[simp] lemma execute_nil (state : TargetState) : execute [] state = some state := rfl

@[simp] lemma execute_cons (op : TargetOp) (ops : List TargetOp) (state : TargetState) :
    execute (op :: ops) state = (op.execute state).bind (execute ops) := rfl

lemma execute_append (ops ops' : List TargetOp) (state : TargetState) :
    execute (ops ++ ops') state = (execute ops state).bind (execute ops') :=
  List.foldlM_append

lemma length_of_execute {ops : List TargetOp} {state state' : TargetState}
    (h : execute ops state = some state') :
    (state'.stack.length : ℤ) = state.stack.length + height ops := by
  induction ops generalizing state with
  | nil =>
    obtain rfl := Option.some.inj h
    simp
  | cons op ops ih =>
    rw [execute_cons, Option.bind_eq_some_iff] at h
    obtain ⟨middle, hop, hops⟩ := h
    rw [ih hops, TargetOp.length_of_execute hop, height_cons]
    ring

/-- Unpacking and its stores take at least the unpacked value, if the stores take every item. -/
lemma height_unpack (items : List AssignTarget)
    (h : height (storePrograms items) ≤ -items.length ∧
      (height (storePrograms items) = -items.length ↔ allFit items = true)) :
    height (.unpack items :: storePrograms items) ≤ -1 ∧
      (height (.unpack items :: storePrograms items) = -1 ↔
        (targetsFit items && allFit items) = true) := by
  obtain ⟨hle, hiff⟩ := h
  have hcount := unpackCount_le items
  simp only [height_cons, TargetOp.height, Bool.and_eq_true, ← unpackCount_eq_iff, ← hiff]
  omega

mutual

/-- A store takes at least the value it stores, and more than that where counts do not fit. -/
lemma height_storeProgram (target : AssignTarget) :
    height (storeProgram target) ≤ -1 ∧
      (height (storeProgram target) = -1 ↔ target.fits = true) :=
  match target with
  | .name name => by simp [storeProgram, TargetOp.height, AssignTarget.fits]
  | .starred item => by
    simpa only [storeProgram, AssignTarget.fits] using height_storeProgram item
  | .tuple items | .list items => height_unpack items (height_storePrograms items)
  | .attribute value name => by simp [storeProgram, TargetOp.height, AssignTarget.fits]
  | .subscript value index => by simp [storeProgram, TargetOp.height, AssignTarget.fits]

lemma height_storePrograms (items : List AssignTarget) :
    height (storePrograms items) ≤ -items.length ∧
      (height (storePrograms items) = -items.length ↔ allFit items = true) :=
  match items with
  | [] => by simp [storePrograms, allFit]
  | item :: items => by
    obtain ⟨hle, hiff⟩ := height_storePrograms items
    obtain ⟨hle', hiff'⟩ := height_storeProgram item
    simp only [storePrograms, height_append, allFit, Bool.and_eq_true, ← hiff, ← hiff',
      List.length_cons]
    omega

end

lemma height_chainProgram (target : AssignTarget) (targets : List AssignTarget) :
    height (chainProgram (target :: targets)) ≤ -1 ∧
      (height (chainProgram (target :: targets)) = -1 ↔
        ∀ target' ∈ target :: targets, target'.fits = true) := by
  induction targets generalizing target with
  | nil => simpa [chainProgram] using height_storeProgram target
  | cons target' targets ih =>
    obtain ⟨hle, hiff⟩ := height_storeProgram target
    obtain ⟨hle', hiff'⟩ := ih target'
    rw [chainProgram.eq_3 _ _ (by simp), List.forall_mem_cons, ← hiff, ← hiff']
    simp only [height_cons, height_append, TargetOp.height]
    omega

/-! ## What the code stores -/

/-- No load of a temporary finds an entry: the code of a function, or of a module at its first run
or behind a store of a global. -/
abbrev noEntries : ℕ → Option Origin := fun _ => none

/-- Unpacking leaves the values of the items in front, the first one on top. -/
lemma execute_unpack {items : List AssignTarget} (hfits : targetsFit items = true)
    (value : Origin) (stack : List Origin) (temps : List (Option Origin))
    (trace : List AssignEvent) :
    execute (.unpack items :: storePrograms items) ⟨value :: stack, temps, trace, noEntries⟩ =
      execute (storePrograms items)
        ⟨(assignedItems items value).reverse ++ stack, temps, trace, noEntries⟩ := by
  rw [execute_cons, ← unpackedItems_eq_assignedItems hfits]
  rfl

mutual

/-- The code of a fitting target makes the stores of the language, the last one first. -/
lemma execute_storeProgram (target : AssignTarget) (hfits : target.fits = true) (value : Origin)
    (stack : List Origin) (temps : List (Option Origin)) (trace : List AssignEvent) :
    execute (storeProgram target) ⟨value :: stack, temps, trace, noEntries⟩ =
      some ⟨stack, temps, trace ++ (stores value target).reverse.flatMap Store.events, noEntries⟩ :=
  match target with
  | .name name => rfl
  | .starred item => execute_storeProgram item hfits value stack temps trace
  | .tuple items | .list items => by
    obtain ⟨hitems, hall⟩ := Bool.and_eq_true_iff.1 hfits
    rw [storeProgram, execute_unpack hitems, stores]
    exact execute_storePrograms items hall _ (length_assignedItems _ _) stack temps trace
  | .attribute object name => by
    simp [storeProgram, TargetOp.execute, TargetState.push, TargetState.log, stores, Store.events]
  | .subscript container index => by
    simp [storeProgram, TargetOp.execute, TargetState.push, TargetState.log, stores, Store.events]

lemma execute_storePrograms (items : List AssignTarget) (hfits : allFit items = true)
    (values : List Origin) (hlength : values.length = items.length) (stack : List Origin)
    (temps : List (Option Origin)) (trace : List AssignEvent) :
    execute (storePrograms items) ⟨values.reverse ++ stack, temps, trace, noEntries⟩ =
      some ⟨stack, temps, trace ++ (itemStores values items).reverse.flatMap Store.events,
        noEntries⟩ :=
  match items, values with
  | [], [] => by simp [storePrograms, itemStores]
  | item :: items, value :: values => by
    simp only [allFit, Bool.and_eq_true] at hfits
    rw [storePrograms, execute_append, List.reverse_cons, List.append_assoc, List.singleton_append,
      execute_storePrograms items hfits.2 values (Nat.succ.inj hlength)
        (value :: stack) temps trace,
      Option.bind_some, execute_storeProgram item hfits.1, itemStores, List.reverse_append,
      List.flatMap_append, List.append_assoc]

end

lemma execute_chainProgram (target : AssignTarget) (targets : List AssignTarget)
    (hfits : ∀ target' ∈ target :: targets, target'.fits = true) (value : Origin)
    (stack : List Origin) (temps : List (Option Origin)) (trace : List AssignEvent) :
    execute (chainProgram (target :: targets)) ⟨value :: stack, temps, trace, noEntries⟩ =
      some ⟨stack, temps, trace ++ (target :: targets).flatMap fun target' =>
        (stores value target').reverse.flatMap Store.events, noEntries⟩ := by
  induction targets generalizing target trace with
  | nil =>
    rw [chainProgram, execute_storeProgram target (hfits target (by simp))]
    simp
  | cons target' targets ih =>
    obtain ⟨htarget, hrest⟩ := List.forall_mem_cons.1 hfits
    rw [chainProgram.eq_3 _ _ (by simp), execute_cons, TargetOp.execute, Option.bind_some,
      execute_append, execute_storeProgram target htarget, Option.bind_some, ih target' hrest]
    simp only [List.flatMap_cons, List.append_assoc]

/-! ## Different stores receive different values -/

/-- How a value was reached by unpacking. -/
def Origin.path : Origin → List Part
  | .part last value => last :: value.path
  | _ => []

lemma Origin.path_part (last : Part) (value : Origin) :
    (Origin.part last value).path = last :: value.path := rfl

lemma mem_unpackSequenceItems {count : ℕ} {value item : Origin}
    (h : item ∈ unpackSequenceItems count value) : ∃ index, item = .part (.item index) value := by
  obtain ⟨index, -, rfl⟩ := List.mem_map.1 h
  exact ⟨index, rfl⟩

lemma nodup_unpackSequenceItems (count : ℕ) (value : Origin) :
    (unpackSequenceItems count value).Nodup :=
  List.nodup_range.map fun index index' h => by simpa using h

lemma nodup_unpackExItems (before after : ℕ) (value : Origin) :
    (unpackExItems before after value).Nodup := by
  have hlast : ((List.range after).map fun index =>
      Origin.part (.fromEnd (after - index)) value).Nodup := by
    refine List.nodup_range.map_on fun index hindex index' hindex' h => ?_
    have hlt := List.mem_range.1 hindex
    have hlt' := List.mem_range.1 hindex'
    have hsame : after - index = after - index' := by simpa using h
    omega
  refine List.nodup_append.2 ⟨nodup_unpackSequenceItems _ _, List.nodup_cons.2 ⟨?_, hlast⟩, ?_⟩
  · simp
  · intro item hitem item' hitem' heq
    obtain ⟨index, rfl⟩ := mem_unpackSequenceItems hitem
    subst heq
    simp at hitem'

lemma nodup_assignedItems (items : List AssignTarget) (value : Origin) :
    (assignedItems items value).Nodup := by
  unfold assignedItems
  cases items.findIdx? (·.isStarred) with
  | none => exact nodup_unpackSequenceItems _ _
  | some starIdx => exact nodup_unpackExItems _ _ _

lemma mem_assignedItems {items : List AssignTarget} {value item : Origin}
    (h : item ∈ assignedItems items value) : ∃ part, item = .part part value := by
  unfold assignedItems at h
  cases hstar : items.findIdx? (·.isStarred) with
  | none =>
    rw [hstar] at h
    obtain ⟨index, rfl⟩ := mem_unpackSequenceItems h
    exact ⟨_, rfl⟩
  | some starIdx =>
    rw [hstar] at h
    rcases List.mem_append.1 h with h | h
    · obtain ⟨index, rfl⟩ := mem_unpackSequenceItems h
      exact ⟨_, rfl⟩
    · rcases List.mem_cons.1 h with rfl | h
      · exact ⟨_, rfl⟩
      · obtain ⟨index, -, rfl⟩ := List.mem_map.1 h
        exact ⟨_, rfl⟩

/-- No value is reached through both of two values. -/
def Origin.Apart (value value' : Origin) : Prop :=
  ∀ path, value.path <:+ path → ¬ value'.path <:+ path

lemma pairwise_apart_assignedItems (items : List AssignTarget) (value : Origin) :
    (assignedItems items value).Pairwise Origin.Apart := by
  refine (nodup_assignedItems items value).imp_of_mem fun hitem hitem' hne path hpath hpath' => ?_
  obtain ⟨part, rfl⟩ := mem_assignedItems hitem
  obtain ⟨part', rfl⟩ := mem_assignedItems hitem'
  have hsuffix := List.suffix_of_suffix_length_le hpath hpath' (by simp [Origin.path])
  have heq : part :: value.path = part' :: value.path :=
    hsuffix.eq_of_length (by simp [Origin.path])
  exact hne (by rw [(List.cons.inj heq).1])

mutual

lemma path_suffix_of_mem_stores {value : Origin} {store : Store} (target : AssignTarget)
    (h : store ∈ stores value target) : value.path <:+ store.value.path :=
  match target with
  | .name name | .attribute object name | .subscript container index => by
    obtain rfl := List.mem_singleton.1 h
    exact List.suffix_rfl
  | .starred item => path_suffix_of_mem_stores item h
  | .tuple items | .list items => by
    obtain ⟨item, hitem, hsuffix⟩ := path_suffix_of_mem_itemStores items h
    obtain ⟨part, rfl⟩ := mem_assignedItems hitem
    rw [Origin.path_part] at hsuffix
    exact (List.suffix_cons part value.path).trans hsuffix

lemma path_suffix_of_mem_itemStores {values : List Origin} {store : Store}
    (items : List AssignTarget) (h : store ∈ itemStores values items) :
    ∃ value ∈ values, value.path <:+ store.value.path :=
  match items, values with
  | [], _ => absurd h List.not_mem_nil
  | _ :: _, [] => absurd h List.not_mem_nil
  | item :: items, value :: values => by
    rcases List.mem_append.1 h with h | h
    · exact ⟨value, List.mem_cons_self, path_suffix_of_mem_stores item h⟩
    · obtain ⟨value', hmem, hsuffix⟩ := path_suffix_of_mem_itemStores items h
      exact ⟨value', List.mem_cons_of_mem _ hmem, hsuffix⟩

end

mutual

lemma pairwise_stores (value : Origin) (target : AssignTarget) :
    (stores value target).Pairwise fun store store' => store.value ≠ store'.value :=
  match target with
  | .name _ | .attribute _ _ | .subscript _ _ => List.pairwise_singleton _ _
  | .starred item => pairwise_stores value item
  | .tuple items | .list items =>
    pairwise_itemStores items (pairwise_apart_assignedItems items value)

lemma pairwise_itemStores {values : List Origin} (items : List AssignTarget)
    (hvalues : values.Pairwise Origin.Apart) :
    (itemStores values items).Pairwise fun store store' => store.value ≠ store'.value :=
  match items, values with
  | [], _ => List.Pairwise.nil
  | _ :: _, [] => List.Pairwise.nil
  | item :: items, value :: values => by
    obtain ⟨hvalue, hvalues⟩ := List.pairwise_cons.1 hvalues
    refine List.pairwise_append.2
      ⟨pairwise_stores value item, pairwise_itemStores items hvalues, ?_⟩
    intro store hstore store' hstore' heq
    obtain ⟨value', hmem, hsuffix'⟩ := path_suffix_of_mem_itemStores items hstore'
    have hsuffix := path_suffix_of_mem_stores item hstore
    exact hvalue value' hmem _ hsuffix (heq ▸ hsuffix')

end

/-! ## The reverse of the order -/

/-- The value of a store among the events. -/
def AssignEvent.stored : AssignEvent → Option Origin
  | .storeVariable _ value | .storeAttribute _ _ value | .storeElement _ _ value => some value
  | _ => none

lemma stored_events (stores : List Store) :
    (stores.flatMap Store.events).filterMap AssignEvent.stored = stores.map Store.value := by
  induction stores with
  | nil => rfl
  | cons store stores ih =>
    rw [List.flatMap_cons, List.filterMap_append, ih]
    cases store <;> rfl

lemma length_le_one_of_reverse_eq {α : Type} {items : List α} (hnodup : items.Nodup)
    (h : items.reverse = items) : items.length ≤ 1 := by
  match items with
  | [] | [_] => simp
  | item :: item' :: items =>
    have hlast : (item :: item' :: items).getLast? = some item := by
      rw [← List.head?_reverse, h, List.head?_cons]
    rw [List.getLast?_cons_cons] at hlast
    exact absurd (List.mem_of_getLast? hlast) (List.nodup_cons.1 hnodup).1

/-- Stores made from the last to the first are those of the language exactly where there is at most
one. -/
lemma reverse_events_eq_iff {stores : List Store}
    (hvalues : stores.Pairwise fun store store' => store.value ≠ store'.value) :
    stores.reverse.flatMap Store.events = stores.flatMap Store.events ↔ stores.length ≤ 1 := by
  constructor
  · intro h
    have hstored := congrArg (List.filterMap AssignEvent.stored) h
    rw [stored_events, stored_events, List.map_reverse] at hstored
    have hnodup : (stores.map Store.value).Nodup := List.pairwise_map.2 hvalues
    simpa using length_le_one_of_reverse_eq hnodup hstored
  · intro h
    match stores, h with
    | [], _ | [_], _ => rfl

mutual

lemma length_stores (value : Origin) (target : AssignTarget) :
    (stores value target).length = target.storeCount :=
  match target with
  | .name _ | .attribute _ _ | .subscript _ _ => rfl
  | .starred item => length_stores value item
  | .tuple items | .list items => length_itemStores items (length_assignedItems items value)

lemma length_itemStores {values : List Origin} (items : List AssignTarget)
    (hlength : values.length = items.length) :
    (itemStores values items).length = storeCounts items :=
  match items, values with
  | [], _ => rfl
  | item :: items, value :: values => by
    rw [itemStores, List.length_append, length_stores, storeCounts,
      length_itemStores items (Nat.succ.inj hlength)]

end

/-- The stores of a chain of targets are those of the language exactly where every target makes at
most one. -/
lemma chain_events_eq_iff (value : Origin) (targets : List AssignTarget) :
    (targets.flatMap fun target => (stores value target).reverse.flatMap Store.events) =
        (targets.flatMap (stores value)).flatMap Store.events ↔
      ∀ target ∈ targets, target.storeCount ≤ 1 := by
  induction targets with
  | nil => simp
  | cons target targets ih =>
    have hlength : ((stores value target).reverse.flatMap Store.events).length =
        ((stores value target).flatMap Store.events).length := by
      simp [List.length_flatMap, List.map_reverse, List.sum_reverse]
    rw [List.flatMap_cons, List.flatMap_cons, List.flatMap_append, List.forall_mem_cons, ← ih,
      ← length_stores value target, ← reverse_events_eq_iff (pairwise_stores value target)]
    exact ⟨fun h => List.append_inj h hlength, fun ⟨h, h'⟩ => by rw [h, h']⟩

/-! ## Assignments -/

/-- Where a run starts. -/
def TargetState.initial (entries : ℕ → Option Origin) : TargetState := ⟨[], [], [], entries⟩

lemma execute_assignProgram_iff (target : AssignTarget) (targets : List AssignTarget)
    (value : Expr) :
    execute (assignProgram (target :: targets) value) (.initial noEntries) =
        some ⟨[], [], assignTrace (target :: targets) value, noEntries⟩ ↔
      ∀ target' ∈ target :: targets, target'.fits = true ∧ target'.storeCount ≤ 1 := by
  have hprogram : assignProgram (target :: targets) value =
      .evaluate value :: chainProgram (target :: targets) := rfl
  have hrun (hfits : ∀ target' ∈ target :: targets, target'.fits = true) :
      execute (assignProgram (target :: targets) value) (.initial noEntries) =
        some ⟨[], [], .evaluate value :: (target :: targets).flatMap fun target' =>
          (stores (.result value) target').reverse.flatMap Store.events, noEntries⟩ := by
    rw [hprogram, execute_cons]
    exact execute_chainProgram target targets hfits (.result value) [] [] [.evaluate value]
  constructor
  · intro h
    have hheight : height (chainProgram (target :: targets)) = -1 := by
      have hlength := length_of_execute h
      rw [hprogram, height_cons] at hlength
      simp [TargetState.initial, TargetOp.height] at hlength
      omega
    have hfits := (height_chainProgram target targets).2.1 hheight
    rw [hrun hfits] at h
    simp only [assignTrace, Option.some.injEq, TargetState.mk.injEq, List.cons.injEq,
      true_and, and_true] at h
    intro target' hmem
    exact ⟨hfits target' hmem, (chain_events_eq_iff _ _).1 h target' hmem⟩
  · intro h
    rw [hrun fun target' hmem => (h target' hmem).1, assignTrace,
      (chain_events_eq_iff (.result value) (target :: targets)).2 fun target' hmem =>
        (h target' hmem).2]

/-- An assignment compiles to the assembly of its program, and that makes the stores of the language
in their order, each with the value unpacking gives it, exactly where no target makes more than one
store, if no load of a temporary finds the entry of an earlier run. -/
theorem storesInOrder_iff_storeCount_le_one (routines : Routines) (target : AssignTarget)
    (targets : List AssignTarget) (value : Expr) {entries : ℕ → Option Origin}
    (hentries : ∀ load, entries load = none) :
    (compileAssignTargets routines (target :: targets) value =
        assemble routines [] (assignProgram (target :: targets) value) >>= fun _ => pure ()) ∧
      (execute (assignProgram (target :: targets) value) (.initial entries) =
          some ⟨[], [], assignTrace (target :: targets) value, entries⟩ ↔
        ∀ target' ∈ target :: targets, target'.fits = true ∧ target'.storeCount ≤ 1) := by
  obtain rfl : entries = noEntries := funext hentries
  refine ⟨?_, execute_assignProgram_iff target targets value⟩
  rw [assemble_assignProgram]
  simp

/-- `(x.a,) = y[0] = v` -/
theorem storesInOrder_attributeThenElement :
    execute (assignProgram [.tuple [.attribute (.name "x") "a"],
        .subscript (.name "y") (.constant (.int 0))] (.name "v")) (.initial noEntries) =
      some ⟨[], [], assignTrace [.tuple [.attribute (.name "x") "a"],
        .subscript (.name "y") (.constant (.int 0))] (.name "v"), noEntries⟩ := by
  refine (storesInOrder_iff_storeCount_le_one ⟨fun _ => pure (), fun _ => pure (), 0⟩ _ _ _
    fun _ => rfl).2.2 ?_
  decide

/-- The second run of `x.a = v` at module level stores the value of the first one. -/
lemma execute_staleEntry :
    execute (assignProgram [.attribute (.name "x") "a"] (.name "v"))
        (.initial fun load => if load = 0 then some (.variable "old") else none) =
      some ⟨[], [], [.evaluate (.name "v"), .evaluate (.name "x"),
        .storeAttribute (.result (.name "x")) "a" (.variable "old")], fun _ => none⟩ := by
  simp [assignProgram, chainProgram, storeProgram, TargetOp.execute, TargetState.push,
    TargetState.log, TargetState.initial]

/-- `a, a = v` leaves the first item of `v` in `a`, not the second. -/
theorem storeOrder_repeatedName :
    execute (assignProgram [.tuple [.name "a", .name "a"]] (.name "v")) (.initial noEntries) =
        some ⟨[], [], [.evaluate (.name "v"),
          .storeVariable "a" (.part (.item 1) (.result (.name "v"))),
          .storeVariable "a" (.part (.item 0) (.result (.name "v")))], noEntries⟩ ∧
      assignTrace [.tuple [.name "a", .name "a"]] (.name "v") =
        [.evaluate (.name "v"),
          .storeVariable "a" (.part (.item 0) (.result (.name "v"))),
          .storeVariable "a" (.part (.item 1) (.result (.name "v")))] :=
  ⟨rfl, rfl⟩

end Pyrs
