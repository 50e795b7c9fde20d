import Stencil.Program.Basic
import Stencil.Proofs.Table

/-!
# Programs without positions

`Program.unmarked` deletes the positions of a program, in its bodies and in the bodies that stand in
them. Branches, arms and bodies keep their order and their number.

* `unmarkedBody_eq`: on a body it is a filter and a map, so it goes through `++` and `reverse`.
-/

namespace Stencil

/-! ## Instructions -/

/-- The instruction is a position. -/
def Instruction.isPosition : Instruction → Bool
  | .position _ => true
  | _ => false

mutual

/-- The instruction without the positions in its bodies. -/
def Instruction.unmarked : Instruction → Instruction
  | .choose branches otherwise => .choose (unmarkedBranches branches) (unmarkedOtherwise otherwise)
  | .switch subject arms => .switch subject (unmarkedArms arms)
  | .loop binding iterable offset limit body =>
    .loop binding iterable offset limit (unmarkedBody body)
  | i => i
termination_by structural i => i

/-- The body without positions, at any depth. -/
def unmarkedBody : List Instruction → List Instruction
  | [] => []
  | i :: is => if i.isPosition then unmarkedBody is else i.unmarked :: unmarkedBody is
termination_by structural is => is

def unmarkedBranches : List Branch → List Branch
  | [] => []
  | .mk condition negated body :: bs =>
    .mk condition negated (unmarkedBody body) :: unmarkedBranches bs
termination_by structural bs => bs

def unmarkedOtherwise : Option (List Instruction) → Option (List Instruction)
  | none => none
  | some body => some (unmarkedBody body)
termination_by structural body => body

def unmarkedArms : List Arm → List Arm
  | [] => []
  | .mk label body :: arms => .mk label (unmarkedBody body) :: unmarkedArms arms
termination_by structural arms => arms

end

/-- The program without positions. -/
def Program.unmarked (program : Program) : Program :=
  { program with
    body := unmarkedBody program.body
    mixins := program.mixins.map fun mixin => { mixin with body := unmarkedBody mixin.body }
    blocks := program.blocks.map unmarkedBody }

section

variable {i : Instruction} {is : List Instruction}

theorem unmarkedBody_eq (is : List Instruction) :
    unmarkedBody is = (is.filter (!·.isPosition)).map Instruction.unmarked := by
  induction is with
  | nil => rfl
  | cons i is ih =>
    rw [unmarkedBody, ih]
    cases h : i.isPosition <;> simp [h]

@[simp]
theorem unmarkedBody_reverse : unmarkedBody is.reverse = (unmarkedBody is).reverse := by
  simp [unmarkedBody_eq, List.filter_reverse]

theorem unmarkedBody_cons (h : i.isPosition = false) :
    unmarkedBody (i :: is) = i.unmarked :: unmarkedBody is := by
  simp [unmarkedBody, h]

@[simp]
theorem unmarkedBody_position (pos : Pos) : unmarkedBody (.position pos :: is) = unmarkedBody is := rfl

theorem unmarkedBranches_eq (branches : List Branch) : unmarkedBranches branches =
    branches.map fun | .mk condition negated body => .mk condition negated (unmarkedBody body) := by
  induction branches with
  | nil => rfl
  | cons b bs ih =>
    obtain ⟨condition, negated, body⟩ := b
    rw [unmarkedBranches, ih]
    rfl

theorem unmarkedArms_eq (arms : List Arm) :
    unmarkedArms arms = arms.map fun | .mk label body => .mk label (unmarkedBody body) := by
  induction arms with
  | nil => rfl
  | cons arm arms ih =>
    obtain ⟨label, body⟩ := arm
    rw [unmarkedArms, ih]
    rfl

end

end Stencil
