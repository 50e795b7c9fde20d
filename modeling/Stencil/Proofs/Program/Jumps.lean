import Stencil.Proofs.Generation.Blocks
import Stencil.Render.State

/-!
# Jumps

A loop takes up all jumps in its body, a case those that leave it by `break`. `Escapes` tells which
jumps of a body are left.

* `additive_escapes`: a jump that leaves a body leaves one of its instructions.
* `Lies.caught`: if no jump leaves a body, each of them stands within a loop or a case that takes
  it up.
-/

namespace Stencil

/-! ## Which jumps are taken up -/

namespace Instruction

/-- How a body ends that comes to the instruction, if it jumps. -/
def jump? : Instruction → Option Flow
  | .break => some .break
  | .continue => some .continue
  | _ => none

/-- Whether a jump in a body of the instruction ends there. -/
def catches (flow : Flow) : Instruction → Bool
  | loop .. => true
  | switch .. => flow == .break
  | _ => false

theorem jump?_of_isBlock {x : Instruction} (h : x.isBlock = true) : x.jump? = none := by
  cases x <;> first | rfl | cases h

end Instruction

/-- A jump stands in a body, and no instruction around it takes it up. -/
inductive Escapes (flow : Flow) : List Instruction → Prop where
  | here {body : List Instruction} {x : Instruction} (mem : x ∈ body) (jumps : x.jump? = some flow) :
      Escapes flow body
  | inside {body inner : List Instruction} {y : Instruction} (mem : y ∈ body)
      (passes : y.catches flow = false) (within : inner ∈ y.bodies) (escapes : Escapes flow inner) :
      Escapes flow body

/-- The instruction stands in a body, within some other instructions, innermost first. -/
inductive Lies (x : Instruction) : List Instruction → List Instruction → Prop where
  | here {body : List Instruction} (mem : x ∈ body) : Lies x [] body
  | inside {body inner around : List Instruction} {y : Instruction} (mem : y ∈ body)
      (within : inner ∈ y.bodies) (lies : Lies x around inner) : Lies x (around ++ [y]) body

/-- If no jump leaves a body, each one is taken up. -/
theorem Lies.caught {flow : Flow} {x : Instruction} {around body : List Instruction}
    (h : Lies x around body) (hjump : x.jump? = some flow) (hnone : ¬ Escapes flow body) :
    ∃ y ∈ around, y.catches flow = true := by
  induction h with
  | here mem => exact absurd (.here mem hjump) hnone
  | @inside body inner around y mem within _ ih =>
    by_cases hcatches : y.catches flow = true
    · exact ⟨y, by simp, hcatches⟩
    · have hinner : ¬ Escapes flow inner := by
        intro hescapes
        exact hnone (.inside mem (Bool.eq_false_iff.2 hcatches) within hescapes)
      obtain ⟨z, hz, hcatches⟩ := ih hinner
      exact ⟨z, List.mem_append_left _ hz, hcatches⟩

/-! ## Properties that a body has with one of its instructions -/

/-- A body satisfies `P` if and only if one of its instructions does alone. -/
structure Additive (P : List Instruction → Prop) : Prop where
  nil : ¬ P []
  mono {body more : List Instruction} (h : P body) (hsub : ∀ y ∈ body, y ∈ more) : P more
  append {body more : List Instruction} (h : P (body ++ more)) : P body ∨ P more

namespace Additive

variable {P : List Instruction → Prop} {body found : List Instruction} {i : Instruction}

theorem reverse (hP : Additive P) : P body.reverse ↔ P body := by
  constructor
  · intro h
    apply hP.mono h
    simp
  · intro h
    apply hP.mono h
    simp

theorem first (hP : Additive P) (h : P [i]) : P (i :: body) :=
  hP.mono h fun _ hy => List.mem_singleton.1 hy ▸ List.mem_cons_self

theorem rest (hP : Additive P) (h : P body) : P (i :: body) :=
  hP.mono h fun _ => List.mem_cons_of_mem i

theorem markIn (hP : Additive P) {pos : Pos} (h : P (Draft.markIn pos found)) :
    P [.position pos] ∨ P found :=
  hP.append (hP.mono h (Draft.mem_markIn pos found))

end Additive

theorem additive_occurs (x : Instruction) : Additive (Occurs x) where
  nil h := by
    cases h with
    | here mem | inside mem => cases mem
  mono := Occurs.mono
  append := Occurs.append

theorem additive_escapes (flow : Flow) : Additive (Escapes flow) where
  nil h := by
    cases h with
    | here mem | inside mem => cases mem
  mono h hsub := by
    cases h with
    | here mem jumps => exact .here (hsub _ mem) jumps
    | inside mem passes within escapes => exact .inside (hsub _ mem) passes within escapes
  append h := by
    cases h with
    | here mem jumps => exact (List.mem_append.1 mem).imp (.here · jumps) (.here · jumps)
    | inside mem passes within escapes =>
      exact (List.mem_append.1 mem).imp (.inside · passes within escapes)
        (.inside · passes within escapes)

namespace Escapes

variable {flow : Flow} {body : List Instruction} {i : Instruction}

/-- From a block, a jump leaves one of its bodies. -/
theorem of_block (hblock : i.isBlock = true) (h : Escapes flow [i]) :
    i.catches flow = false ∧ ∃ inner ∈ i.bodies, Escapes flow inner := by
  cases h with
  | here mem jumps =>
    rw [List.mem_singleton.1 mem, Instruction.jump?_of_isBlock hblock] at jumps
    cases jumps
  | inside mem passes within escapes =>
    obtain rfl := List.mem_singleton.1 mem
    exact ⟨passes, _, within, escapes⟩

/-- Instructions that are no blocks jump themselves. -/
theorem of_leaves (hplain : ∀ y ∈ body, y.isBlock = false) (h : Escapes flow body) :
    ∃ x ∈ body, x.jump? = some flow := by
  cases h with
  | here mem jumps => exact ⟨_, mem, jumps⟩
  | inside mem _ within =>
    rw [Instruction.bodies_eq_nil (hplain _ mem)] at within
    cases within

/-- The jump stands in the body. -/
theorem occurs (h : Escapes flow body) : ∃ x, Occurs x body ∧ x.jump? = some flow := by
  induction h with
  | here mem jumps => exact ⟨_, .here mem, jumps⟩
  | inside mem _ within _ ih =>
    obtain ⟨x, hx, hjump⟩ := ih
    exact ⟨x, .inside mem within hx, hjump⟩

end Escapes

/-- Instructions that are no blocks have no others in them. -/
theorem Occurs.of_leaves {x : Instruction} {body : List Instruction}
    (hplain : ∀ y ∈ body, y.isBlock = false) (h : Occurs x body) : x ∈ body := by
  cases h with
  | here mem => exact mem
  | inside mem within =>
    rw [Instruction.bodies_eq_nil (hplain _ mem)] at within
    cases within

end Stencil
