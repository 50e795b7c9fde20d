import Mathlib.Algebra.Ring.Nat
import Stencil.Program.Basic

/-!
# Counting calls of blocks

`Program.callCount` counts how often a program calls a block, at any depth of its bodies.

* `bodyCallCount_eq`: in a body it is a sum over the instructions, so it goes through `++` and
  `reverse`.
-/

namespace Stencil

mutual

/-- How often an instruction calls a block, at any depth. -/
def Instruction.callCount (name : String) : Instruction → Nat
  | .callBlock called => if called = name then 1 else 0
  | .choose branches otherwise => branchCallCount name branches + otherwiseCallCount name otherwise
  | .switch _ arms => armCallCount name arms
  | .loop _ _ _ _ body => bodyCallCount name body
  | _ => 0
termination_by structural i => i

/-- How often a body calls a block. -/
def bodyCallCount (name : String) : List Instruction → Nat
  | [] => 0
  | i :: is => i.callCount name + bodyCallCount name is
termination_by structural body => body

def branchCallCount (name : String) : List Branch → Nat
  | [] => 0
  | .mk _ _ body :: bs => bodyCallCount name body + branchCallCount name bs
termination_by structural bs => bs

def otherwiseCallCount (name : String) : Option (List Instruction) → Nat
  | none => 0
  | some body => bodyCallCount name body
termination_by structural body => body

def armCallCount (name : String) : List Arm → Nat
  | [] => 0
  | .mk _ body :: arms => bodyCallCount name body + armCallCount name arms
termination_by structural arms => arms

end

/-- How often the mixins and blocks of a program call a block. -/
def Program.calledCallCount (name : String) (program : Program) : Nat :=
  (program.mixins.entries.map fun e => bodyCallCount name e.2.body).sum +
    (program.blocks.entries.map fun e => bodyCallCount name e.2).sum

/-- How often a program calls a block: in its main body, its mixins and its blocks. -/
def Program.callCount (name : String) (program : Program) : Nat :=
  bodyCallCount name program.body + program.calledCallCount name

section

variable (name : String)

/-- What is counted in a body is a sum over its instructions. -/
theorem bodyCallCount_eq (body : List Instruction) :
    bodyCallCount name body = (body.map (·.callCount name)).sum := by
  induction body with
  | nil => rfl
  | cons i is ih => rw [bodyCallCount, ih, List.map_cons, List.sum_cons]

theorem branchCallCount_eq (branches : List Branch) : branchCallCount name branches =
    (branches.map fun | .mk _ _ body => bodyCallCount name body).sum := by
  induction branches with
  | nil => rfl
  | cons b bs ih =>
    obtain ⟨condition, negated, body⟩ := b
    rw [branchCallCount, ih, List.map_cons, List.sum_cons]

theorem armCallCount_eq (arms : List Arm) : armCallCount name arms =
    (arms.map fun | .mk _ body => bodyCallCount name body).sum := by
  induction arms with
  | nil => rfl
  | cons a as ih =>
    obtain ⟨label, body⟩ := a
    rw [armCallCount, ih, List.map_cons, List.sum_cons]

theorem bodyCallCount_append (body more : List Instruction) :
    bodyCallCount name (body ++ more) = bodyCallCount name body + bodyCallCount name more := by
  rw [bodyCallCount_eq, bodyCallCount_eq, bodyCallCount_eq, List.map_append, List.sum_append]

theorem bodyCallCount_reverse (body : List Instruction) :
    bodyCallCount name body.reverse = bodyCallCount name body := by
  rw [bodyCallCount_eq, bodyCallCount_eq, List.map_reverse, List.sum_reverse]

theorem branchCallCount_reverse (branches : List Branch) :
    branchCallCount name branches.reverse = branchCallCount name branches := by
  rw [branchCallCount_eq, branchCallCount_eq, List.map_reverse, List.sum_reverse]

theorem armCallCount_reverse (arms : List Arm) :
    armCallCount name arms.reverse = armCallCount name arms := by
  rw [armCallCount_eq, armCallCount_eq, List.map_reverse, List.sum_reverse]

end

end Stencil
