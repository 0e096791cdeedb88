import Mathlib.Data.List.Basic

/-!
# Runs of structured code

Straight-line machine code with jumps, as a tree: a jump names a label, and a label is bound by the
part of the code that it marks the end (`block`) or the start (`loop`) of.

What structured code without loops does to a state: a run goes on behind the code, or it leaves it
by a jump to a label that the code does not bind, and a block turns the jumps to its label into
going on.
-/

namespace StructuredCode

/-- Code over instructions `I` whose jumps go to labels `L`. -/
inductive SCode (I L : Type*)
  | nil
  | op (instr : I)
  | br (label : L) (instr : I)
  | seq (first second : SCode I L)
  | block (label : L) (body : SCode I L)
  | loop (label : L) (body : SCode I L)

namespace SCode

variable {I L σ : Type*}

/-- Straight-line code. -/
def ofList (instrs : List I) : SCode I L :=
  instrs.foldr (fun instr code => seq (op instr) code) nil

@[simp] lemma ofList_nil : (ofList [] : SCode I L) = nil := rfl

@[simp] lemma ofList_cons (instr : I) (instrs : List I) :
    (ofList (instr :: instrs) : SCode I L) = seq (op instr) (ofList instrs) := rfl

variable [DecidableEq L]

/-- The state after the code and the label that it is left by.  `exec` is the effect of an
instruction and `branch` that of a jump, with whether it is taken; neither has to succeed. -/
def run (exec : I → σ → Option σ) (branch : I → σ → Option (Bool × σ)) :
    SCode I L → σ → Option (Option L × σ)
  | nil, state => some (none, state)
  | op instr, state => (exec instr state).map (none, ·)
  | br label instr, state =>
    (branch instr state).map fun (taken, state) => (if taken then some label else none, state)
  | seq first second, state =>
    match run exec branch first state with
    | some (none, state) => run exec branch second state
    | other => other
  | block label body, state =>
    (run exec branch body state).map fun (exit, state) =>
      (if exit = some label then none else exit, state)
  | loop _ _, _ => none

section

-- The equations of runs, which nearly every lemma below asks for, are made here once.
attribute [local simp] run

end

variable {exec : I → σ → Option σ} {branch : I → σ → Option (Bool × σ)} {first second : SCode I L}
  {label : L} {state state' : σ} {exit : Option L}

/-- Straight-line code folds the effects of its instructions. -/
lemma run_ofList (instrs : List I) :
    run exec branch (ofList instrs : SCode I L) state =
      (instrs.foldlM (fun state instr => exec instr state) state).map (none, ·) := by
  induction instrs generalizing state with
  | nil => rfl
  | cons instr instrs ih =>
    rw [ofList_cons, run, run, List.foldlM_cons]
    cases exec instr state with
    | none => rfl
    | some state' => exact ih

lemma run_seq (h : run exec branch first state = some (none, state')) :
    run exec branch (seq first second) state = run exec branch second state' := by
  rw [run, h]

/-- What leaves the first part leaves the whole. -/
lemma run_seq_exit (h : run exec branch first state = some (some label, state')) :
    run exec branch (seq first second) state = some (some label, state') := by
  rw [run, h]

lemma run_block (h : run exec branch first state = some (none, state')) :
    run exec branch (block label first) state = some (none, state') := by
  rw [run, h]
  rfl

/-- A jump to the label of a block goes on behind it. -/
lemma run_block_exit (h : run exec branch first state = some (some label, state')) :
    run exec branch (block label first) state = some (none, state') := by
  rw [run, h]
  simp

lemma run_block_other {label' : L} (h : run exec branch first state = some (some label', state'))
    (hne : label' ≠ label) :
    run exec branch (block label first) state = some (some label', state') := by
  rw [run, h]
  simp [hne]

end SCode

end StructuredCode
