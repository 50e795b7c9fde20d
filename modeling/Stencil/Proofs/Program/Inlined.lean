import Stencil.Proofs.Generation.Filters

/-!
# Bodies with the bodies of blocks in them

`inlinedBody` puts instructions in the place of calls of blocks, at any depth; `fold` gives the
instructions for the blocks that are replaced.

* `inlinedBody_append`: it goes through `++`.
* `inlinedBody_of_fresh`: where no block that is replaced is called, nothing changes.
-/

namespace Stencil

/-! ## Calls -/

/-- Only blocks with names that satisfy `Q` are called in the body, however deep. -/
def CallsOnly (Q : String → Prop) (body : List Instruction) : Prop :=
  ∀ name, Occurs (.callBlock name) body → Q name

namespace CallsOnly

variable {Q : String → Prop} {i : Instruction} {is body : List Instruction}

theorem inner (h : CallsOnly Q [i]) (hmem : body ∈ i.bodies) : CallsOnly Q body :=
  fun name hocc => h name (.inside List.mem_cons_self hmem hocc)

theorem first (h : CallsOnly Q (i :: is)) : CallsOnly Q [i] :=
  fun name hocc => h name (hocc.mono fun _ hy => List.mem_singleton.1 hy ▸ List.mem_cons_self)

theorem rest (h : CallsOnly Q (i :: is)) : CallsOnly Q is :=
  fun name hocc => h name (hocc.mono fun _ hy => List.mem_cons_of_mem i hy)

end CallsOnly

/-! ## Calls replaced -/

section

variable (fold : String → Option (List Instruction))

mutual

/-- What stands for an instruction when calls are replaced. -/
def Instruction.inlined : Instruction → List Instruction
  | .callBlock name => (fold name).getD [.callBlock name]
  | .choose branches otherwise => [.choose (inlinedBranches branches) (inlinedOtherwise otherwise)]
  | .switch subject arms => [.switch subject (inlinedArms arms)]
  | .loop binding iterable offset limit body =>
    [.loop binding iterable offset limit (inlinedBody body)]
  | i => [i]
termination_by structural i => i

/-- The body with calls replaced. -/
def inlinedBody : List Instruction → List Instruction
  | [] => []
  | i :: is => i.inlined ++ inlinedBody is
termination_by structural is => is

def inlinedBranches : List Branch → List Branch
  | [] => []
  | .mk condition negated body :: bs =>
    .mk condition negated (inlinedBody body) :: inlinedBranches bs
termination_by structural bs => bs

def inlinedOtherwise : Option (List Instruction) → Option (List Instruction)
  | none => none
  | some body => some (inlinedBody body)
termination_by structural body => body

def inlinedArms : List Arm → List Arm
  | [] => []
  | .mk label body :: arms => .mk label (inlinedBody body) :: inlinedArms arms
termination_by structural arms => arms

end

def Branch.inlined : Branch → Branch
  | mk condition negated body => mk condition negated (inlinedBody fold body)

def Arm.inlined : Arm → Arm
  | mk label body => mk label (inlinedBody fold body)

theorem inlinedBranches_eq (branches : List Branch) :
    inlinedBranches fold branches = branches.map (Branch.inlined fold) := by
  induction branches with
  | nil => rfl
  | cons b bs ih =>
    obtain ⟨condition, negated, body⟩ := b
    rw [inlinedBranches, ih]
    rfl

theorem inlinedArms_eq (arms : List Arm) : inlinedArms fold arms = arms.map (Arm.inlined fold) := by
  induction arms with
  | nil => rfl
  | cons a as ih =>
    obtain ⟨label, body⟩ := a
    rw [inlinedArms, ih]
    rfl

theorem inlinedBody_eq (body : List Instruction) :
    inlinedBody fold body = body.flatMap (Instruction.inlined fold) := by
  induction body with
  | nil => rfl
  | cons i is ih => rw [inlinedBody, ih, List.flatMap_cons]

theorem inlinedBody_append (body more : List Instruction) :
    inlinedBody fold (body ++ more) = inlinedBody fold body ++ inlinedBody fold more := by
  simp [inlinedBody_eq]

/-- Instructions that are kept latest first, with calls replaced. -/
def inlinedFound (found : List Instruction) : List Instruction :=
  (inlinedBody fold found.reverse).reverse

theorem inlinedFound_cons (i : Instruction) (found : List Instruction) :
    inlinedFound fold (i :: found) = (i.inlined fold).reverse ++ inlinedFound fold found := by
  simp [inlinedFound, inlinedBody_append, inlinedBody]

theorem reverse_inlinedFound (found : List Instruction) :
    (inlinedFound fold found).reverse = inlinedBody fold found.reverse :=
  List.reverse_reverse _

/-! ## Where nothing is replaced -/

/-- No block that is replaced is called in the body, however deep. -/
abbrev Fresh (body : List Instruction) : Prop := CallsOnly (fold · = none) body

variable {fold}

/-- An instruction without bodies that calls no block stands for itself. -/
theorem Instruction.inlined_leaf {i : Instruction} (hleaf : i.isBlock = false)
    (hcall : ∀ key, i ≠ .callBlock key) : i.inlined fold = [i] := by
  cases i with
  | choose | switch | loop => cases hleaf
  | callBlock key => exact absurd rfl (hcall key)
  | _ => rfl

mutual

theorem Instruction.inlined_of_fresh : ∀ i : Instruction, Fresh fold [i] → i.inlined fold = [i]
  | .callBlock name, h => by
    rw [Instruction.inlined, h name (.here List.mem_cons_self)]
    rfl
  | .choose branches otherwise, h => by
    have hbranches := inlinedBranches_of_fresh branches fun inner hmem =>
      h.inner (List.mem_append_left _ hmem)
    have hotherwise := inlinedOtherwise_of_fresh otherwise fun inner hmem =>
      h.inner (List.mem_append_right _ hmem)
    rw [Instruction.inlined, hbranches, hotherwise]
  | .switch subject arms, h => by
    have harms := inlinedArms_of_fresh arms fun inner hmem => h.inner hmem
    rw [Instruction.inlined, harms]
  | .loop binding iterable offset limit body, h => by
    have hbody := inlinedBody_of_fresh body (h.inner List.mem_cons_self)
    rw [Instruction.inlined, hbody]
  | .position _, _ | .text _, _ | .emit _, _ | .assign .., _ | .capture .., _ | .break, _
  | .continue, _ | .callMixin .., _ | .script _, _ => rfl
termination_by structural i => i

/-- A body stays as it is if no block that is replaced is called in it. -/
theorem inlinedBody_of_fresh : ∀ body : List Instruction, Fresh fold body →
    inlinedBody fold body = body
  | [], _ => rfl
  | i :: is, h => by
    rw [inlinedBody, i.inlined_of_fresh h.first, inlinedBody_of_fresh is h.rest]
    rfl
termination_by structural body => body

theorem inlinedBranches_of_fresh : ∀ branches : List Branch,
    (∀ inner ∈ branches.map (fun | .mk _ _ body => body), Fresh fold inner) →
      inlinedBranches fold branches = branches
  | [], _ => rfl
  | .mk condition negated body :: bs, h => by
    have hbody := inlinedBody_of_fresh body (h _ List.mem_cons_self)
    have hrest := inlinedBranches_of_fresh bs fun inner hmem => h inner (List.mem_cons_of_mem _ hmem)
    rw [inlinedBranches, hbody, hrest]
termination_by structural branches => branches

theorem inlinedOtherwise_of_fresh : ∀ otherwise : Option (List Instruction),
    (∀ inner ∈ otherwise.toList, Fresh fold inner) → inlinedOtherwise fold otherwise = otherwise
  | none, _ => rfl
  | some body, h => by rw [inlinedOtherwise, inlinedBody_of_fresh body (h _ List.mem_cons_self)]
termination_by structural otherwise => otherwise

theorem inlinedArms_of_fresh : ∀ arms : List Arm,
    (∀ inner ∈ arms.map (fun | .mk _ body => body), Fresh fold inner) →
      inlinedArms fold arms = arms
  | [], _ => rfl
  | .mk label body :: as, h => by
    have hbody := inlinedBody_of_fresh body (h _ List.mem_cons_self)
    have hrest := inlinedArms_of_fresh as fun inner hmem => h inner (List.mem_cons_of_mem _ hmem)
    rw [inlinedArms, hbody, hrest]
termination_by structural arms => arms

end

end

/-- No call is replaced. -/
def noFold : String → Option (List Instruction) := fun _ => none

theorem inlinedBody_noFold (body : List Instruction) : inlinedBody noFold body = body :=
  inlinedBody_of_fresh body fun _ _ => rfl

/-- Some instructions stand for the calls of one block. -/
def foldOne (name : String) (body : List Instruction) : String → Option (List Instruction) :=
  fun called => if called = name then some body else none

/-! ## What stands in a body with calls replaced -/

section

variable {fold : String → Option (List Instruction)} {x y : Instruction}
  {body inner : List Instruction}

theorem mem_inlinedBody (hx : x ∈ body) (hy : y ∈ x.inlined fold) : y ∈ inlinedBody fold body := by
  rw [inlinedBody_eq]
  exact List.mem_flatMap.2 ⟨x, hx, hy⟩

/-- The bodies in an instruction are replaced one by one. -/
theorem Instruction.bodies_inlined (fold : String → Option (List Instruction)) (h : inner ∈ x.bodies) :
    ∃ y, x.inlined fold = [y] ∧ inlinedBody fold inner ∈ y.bodies := by
  cases x with
  | choose branches otherwise =>
    refine ⟨_, rfl, ?_⟩
    simp only [bodies, inlinedBranches_eq, List.map_map, List.mem_append, List.mem_map,
      Option.mem_toList] at h ⊢
    rcases h with ⟨⟨p, negated, body⟩, hb, rfl⟩ | h
    · exact .inl ⟨_, hb, rfl⟩
    · rw [h]
      exact .inr rfl
  | switch subject arms =>
    refine ⟨_, rfl, ?_⟩
    simp only [bodies, inlinedArms_eq, List.map_map, List.mem_map] at h ⊢
    obtain ⟨⟨label, body⟩, harm, rfl⟩ := h
    exact ⟨_, harm, rfl⟩
  | loop =>
    obtain rfl := List.mem_singleton.1 h
    exact ⟨_, rfl, List.mem_cons_self⟩
  | _ => exact absurd h List.not_mem_nil

namespace Occurs

/-- What stands for an instruction, stands in the body with calls replaced. -/
theorem inlined (h : Occurs x body) : ∀ y ∈ x.inlined fold, Occurs y (inlinedBody fold body) := by
  intro y hy
  induction h with
  | here mem => exact .here (mem_inlinedBody mem hy)
  | inside mem within _ ih =>
    obtain ⟨z, hz, hinner⟩ := Instruction.bodies_inlined fold within
    exact .inside (mem_inlinedBody mem (hz ▸ List.mem_cons_self)) hinner ih

end Occurs

end

/-- Blocks stand for themselves, with calls replaced in their bodies. -/
theorem Instruction.inlined_block (fold : String → Option (List Instruction)) {x : Instruction}
    (h : x.isBlock = true) :
    ∃ y, x.inlined fold = [y] ∧ y.isBlock = true ∧ y.pipelines = x.pipelines := by
  cases x with
  | choose branches otherwise =>
    refine ⟨_, rfl, rfl, ?_⟩
    rw [pipelines, inlinedBranches_eq, List.map_map]
    exact List.map_congr_left fun branch _ => by cases branch; rfl
  | switch subject arms =>
    refine ⟨_, rfl, rfl, congrArg (subject :: ·) ?_⟩
    rw [inlinedArms_eq, List.flatMap_map]
    exact List.flatMap_congr fun arm _ => by cases arm; rfl
  | loop => exact ⟨_, rfl, rfl, rfl⟩
  | _ => cases h

/-! ## Programs -/

/-- The first program is the second one with some instructions in the place of calls of a block. The
block has these instructions for its body. -/
structure Program.Folds (name : String) (added : List Instruction) (program program' : Program) :
    Prop where
  body : program.body = inlinedBody (foldOne name added) program'.body
  mixins : ∀ key, Option.Rel (fun m m' => m.params = m'.params ∧
    m.body = inlinedBody (foldOne name added) m'.body) (program.mixins.get? key)
    (program'.mixins.get? key)
  blocks : ∀ key, key ≠ name → Option.Rel (fun body body' =>
    body = inlinedBody (foldOne name added) body') (program.blocks.get? key)
    (program'.blocks.get? key)
  named : (program'.blocks.get? name).getD [] = added

/-- The instruction stores nothing, jumps nowhere and calls no block. -/
def Instruction.isQuiet : Instruction → Bool
  | assign .. | capture .. | script _ | «break» | «continue» | callBlock _ => false
  | _ => true

/-- All instructions in a body are quiet, however deep. -/
def Calm (body : List Instruction) : Prop := ∀ x, Occurs x body → x.isQuiet = true

end Stencil
