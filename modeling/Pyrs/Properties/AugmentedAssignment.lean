import Pyrs.Model.AugmentedOperators
import Pyrs.Properties.StoreOrder

/-!
# Augmented assignments

The code of an augmented assignment evaluates the parts of its target once, reads the target before
the right-hand side and stores into what it read from.  The operator it applies is the one of the
language except where the value read has an in-place form of it, of which the code only knows
`__iadd__`.
-/

namespace Pyrs

/-! ## The order of the language -/

/-- A target an augmented assignment may have. -/
inductive AugTarget
  | name (name : String)
  | attribute (object : Expr) (name : String)
  | subscript (container index : Expr)

def AugTarget.toAssignTarget : AugTarget → AssignTarget
  | .name ident => .name ident
  | .attribute object attr => .attribute object attr
  | .subscript container index => .subscript container index

/-- An augmented assignment as the language has it. -/
def augTrace (op : AugOp) (value : Expr) : AugTarget → List AssignEvent
  | .name name =>
    [.loadVariable name, .evaluate value, .combine op (.variable name) (.result value),
      .storeVariable name (.combined op (.variable name) (.result value))]
  | .attribute object name =>
    let left := .attribute (.result object) name
    [.evaluate object, .loadAttribute (.result object) name, .evaluate value,
      .combine op left (.result value),
      .storeAttribute (.result object) name (.combined op left (.result value))]
  | .subscript container index =>
    let left := .element (.result container) (.result index)
    [.evaluate container, .evaluate index, .loadElement (.result container) (.result index),
      .evaluate value, .combine op left (.result value),
      .storeElement (.result container) (.result index) (.combined op left (.result value))]

/-! ## The operator of the language -/

/-- The method that updates an instance in place. -/
def inplaceMethod : AugOp → String
  | .add => "__iadd__"
  | .sub => "__isub__"
  | .mul => "__imul__"
  | .matMul => "__imatmul__"
  | .div => "__itruediv__"
  | .mod => "__imod__"
  | .floorDiv => "__ifloordiv__"
  | .pow => "__ipow__"
  | .lShift => "__ilshift__"
  | .rShift => "__irshift__"
  | .bitAnd => "__iand__"
  | .bitXor => "__ixor__"
  | .bitOr => "__ior__"

/-- The operators that update a container in place. -/
def Container.updates : Container → AugOp → Bool
  | .list, op | .byteArray, op => op ∈ [.add, .mul]
  | .set, op => op ∈ [.sub, .bitAnd, .bitXor, .bitOr]
  | .dict, op => op ∈ [.bitOr]

def Container.inPlace (op : AugOp) (container : Container) : List AugStep :=
  if container.updates op then [.update op] else [.plain op]

/-- What the language does with the left operand of an augmented assignment. -/
def inPlaceEffect (op : AugOp) : AugOperand → List AugStep
  | .container container => container.inPlace op
  | .instance backing methods =>
    match methods (inplaceMethod op), backing with
    | some .value, _ => [.call (inplaceMethod op)]
    | some .notImplemented, _ => [.call (inplaceMethod op), .plain op]
    | none, some container => container.inPlace op
    | none, none => [.plain op]
  | .other => [.plain op]

/-- Whether a value defines the method of an operator. -/
def AugOperand.definesMethod (left : AugOperand) (op : AugOp) : Bool :=
  match left with
  | .instance _ methods => (methods (inplaceMethod op)).isSome
  | .container _ | .other => false

/-- Whether a value is a container, or extends one, that the operator updates. -/
def AugOperand.isUpdatedBy (left : AugOperand) (op : AugOp) : Bool :=
  match left with
  | .container kind => kind.updates op
  | .instance (some kind) _ => kind.updates op
  | .instance none _ | .other => false

/-! ## The code -/

/-- The steps of `compile_aug_assign`. -/
def augProgram (op : AugOp) (value : Expr) : AugTarget → List TargetOp
  | .name name => [.loadVariable name, .evaluate value, .augment op, .storeVariable name]
  | .subscript container index =>
    [.fresh "assign_obj", .fresh "assign_idx", .fresh "assign_val", .evaluate container,
      .storeTemp 2, .evaluate index, .storeTemp 1, .loadTemp 2, .loadTemp 1, .subscript,
      .evaluate value, .augment op, .storeTemp 0, .loadTemp 2, .loadTemp 1, .loadTemp 0,
      .storeSubscript, .release, .release, .release]
  | .attribute object name =>
    [.fresh "assign_obj", .fresh "assign_val", .evaluate object, .storeTemp 1, .loadTemp 1,
      .loadAttr name, .evaluate value, .augment op, .storeTemp 0, .loadTemp 1, .loadTemp 0,
      .storeAttr name, .release, .release]

/-- What `compile_aug_assign` emits is the assembly of its program. -/
lemma assemble_augProgram (routines : Routines) (temps : List String) (target : AugTarget)
    (op : AugOp) (value : Expr) :
    assemble routines temps (augProgram op value target) =
      compileAugAssign routines target.toAssignTarget op value >>= fun _ => pure temps := by
  -- with definitional proofs the kernel would run both monadic programs to compare them
  cases target <;>
    simp -implicitDefEqProofs only [augProgram, AugTarget.toAssignTarget, compileAugAssign,
      assemble_cons, assemble_nil, TargetOp.assemble, bind_assoc, pure_bind, List.getD_cons_zero,
      List.getD_cons_succ, List.tail_cons]

/-- The values of the temporaries at their loads. -/
def AugTarget.loaded (op : AugOp) (value : Expr) : AugTarget → List Origin
  | .name _ => []
  | .attribute object attr =>
    [.result object, .result object,
      .combined op (.attribute (.result object) attr) (.result value)]
  | .subscript container index =>
    [.result container, .result index, .result container, .result index,
      .combined op (.element (.result container) (.result index)) (.result value)]

/-- The entries that loads find are not stale. -/
def EntriesAgree (entries : ℕ → Option Origin) : List Origin → Prop
  | [] => True
  | value :: values =>
    (entries 0).getD value = value ∧ EntriesAgree (fun load => entries (load + 1)) values

/-- The code evaluates, reads and stores in the order of the language, unless a load finds a stale
entry. -/
lemma execute_augProgram (target : AugTarget) (op : AugOp) (value : Expr) (stack : List Origin)
    (temps : List (Option Origin)) (trace : List AssignEvent) (entries : ℕ → Option Origin) :
    (∃ after, execute (augProgram op value target) ⟨stack, temps, trace, entries⟩ =
      some ⟨stack, temps, trace ++ augTrace op value target, after⟩) ↔
      EntriesAgree entries (target.loaded op value) := by
  cases target with
  | name name =>
    simp -implicitDefEqProofs [augProgram, augTrace, TargetOp.execute, TargetState.push,
      TargetState.log, AugTarget.loaded, EntriesAgree]
  | «attribute» object name =>
    simp -implicitDefEqProofs [augProgram, augTrace, TargetOp.execute, TargetState.push,
      TargetState.log, AugTarget.loaded, EntriesAgree]
    intro hobject _
    rw [hobject]
  | subscript container index =>
    simp -implicitDefEqProofs [augProgram, augTrace, TargetOp.execute, TargetState.push,
      TargetState.log, AugTarget.loaded, EntriesAgree]
    rw [and_assoc]
    exact and_congr_right fun hcontainer => and_congr_right fun hindex => by
      rw [hcontainer, hindex]

/-! ## The operator of the code -/

/-- Every operator but `+=` computes a new result. -/
lemma binaryEffect_augOpcode {op : AugOp} (hadd : op ≠ .add) (left : AugOperand) :
    binaryEffect (augOpcode op) left = [.plain op] := by
  cases op with
  | add => exact absurd rfl hadd
  | _ => rfl

lemma Container.inPlace_eq_plain_iff (op : AugOp) (container : Container) :
    container.inPlace op = [.plain op] ↔ container.updates op = false := by
  unfold Container.inPlace
  cases container.updates op <;> simp

/-- The language computes a new result exactly for values that have no in-place form. -/
lemma inPlaceEffect_eq_plain_iff (op : AugOp) (left : AugOperand) :
    inPlaceEffect op left = [.plain op] ↔
      left.definesMethod op = false ∧ left.isUpdatedBy op = false := by
  cases left with
  | container container =>
    simp [inPlaceEffect, AugOperand.definesMethod, AugOperand.isUpdatedBy,
      Container.inPlace_eq_plain_iff]
  | other => simp [inPlaceEffect, AugOperand.definesMethod, AugOperand.isUpdatedBy]
  | «instance» backing methods =>
    cases hmethod : methods (inplaceMethod op) with
    | some answer => cases answer <;> simp [inPlaceEffect, AugOperand.definesMethod, hmethod]
    | none =>
      cases backing <;>
        simp [inPlaceEffect, AugOperand.definesMethod, AugOperand.isUpdatedBy, hmethod,
          Container.inPlace_eq_plain_iff]

/-- The addition of the code is that of the language for values that define `__iadd__`. -/
lemma binaryInplaceAddRuntime_of_definesMethod {left : AugOperand}
    (h : left.definesMethod .add = true) :
    binaryInplaceAddRuntime left = inPlaceEffect .add left := by
  cases left with
  | container container => cases h
  | other => cases h
  | «instance» backing methods =>
    simp only [AugOperand.definesMethod, inplaceMethod] at h
    cases hmethod : methods "__iadd__" with
    | none => simp [hmethod] at h
    | some answer =>
      cases answer <;>
        simp [binaryInplaceAddRuntime, AugOperand.callSpecial, inPlaceEffect, inplaceMethod,
          hmethod]

lemma binaryInplaceAddRuntime_of_not_definesMethod {left : AugOperand}
    (h : left.definesMethod .add = false) : binaryInplaceAddRuntime left = [.plain .add] := by
  cases left with
  | container container => rfl
  | other => rfl
  | «instance» backing methods =>
    have hnone : methods "__iadd__" = none := by
      simpa [AugOperand.definesMethod, inplaceMethod] using h
    simp [binaryInplaceAddRuntime, AugOperand.callSpecial, hnone]

lemma binaryEffect_eq_inPlaceEffect_iff (op : AugOp) (left : AugOperand) :
    binaryEffect (augOpcode op) left = inPlaceEffect op left ↔
      (left.definesMethod op = false ∧ left.isUpdatedBy op = false) ∨
        (op = .add ∧ left.definesMethod op = true) := by
  rw [← inPlaceEffect_eq_plain_iff]
  by_cases hadd : op = .add
  · subst hadd
    change binaryInplaceAddRuntime left = _ ↔ _
    cases hmethod : left.definesMethod .add with
    | true => simp [binaryInplaceAddRuntime_of_definesMethod hmethod]
    | false =>
      rw [binaryInplaceAddRuntime_of_not_definesMethod hmethod, eq_comm]
      simp
  · rw [binaryEffect_augOpcode hadd, eq_comm]
    simp [hadd]

/-- An augmented assignment compiles to the assembly of its program; that evaluates, reads and
stores in the order of the language, and applies the operator of the language, exactly where no load
of a temporary finds a stale entry, and the value read has no in-place form of the operator, or the
operator is `+=` and the value defines `__iadd__`. -/
theorem augAssign_correct_iff (routines : Routines) (target : AugTarget) (op : AugOp) (value : Expr)
    (left : AugOperand) (entries : ℕ → Option Origin) :
    (compileAugAssign routines target.toAssignTarget op value =
        assemble routines [] (augProgram op value target) >>= fun _ => pure ()) ∧
      ((∃ after, execute (augProgram op value target) (.initial entries) =
            some ⟨[], [], augTrace op value target, after⟩) ∧
          binaryEffect (augOpcode op) left = inPlaceEffect op left ↔
        EntriesAgree entries (target.loaded op value) ∧
          ((left.definesMethod op = false ∧ left.isUpdatedBy op = false) ∨
            (op = .add ∧ left.definesMethod op = true))) := by
  constructor
  · rw [assemble_augProgram, bind_assoc]
    simp only [pure_bind, bind_pure_unit]
  · rw [← binaryEffect_eq_inPlaceEffect_iff]
    exact and_congr_left' (execute_augProgram target op value [] [] [] entries)

/-- `xs += ys` does not update the list `xs`. -/
theorem augAssign_listAdd :
    binaryEffect (augOpcode .add) (.container .list) = [.plain .add] ∧
      inPlaceEffect .add (.container .list) = [.update .add] := by
  decide

end Pyrs
