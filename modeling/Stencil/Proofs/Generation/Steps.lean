import Stencil.Proofs.Generation.Filters

/-!
# The scopes of a program

While tokens are compiled a scope is kept, but it is not kept in the program. It can be computed from
the program, though: `Program.steps` lists what a program may do, each with the scope at its place.

* `OpenKind.steps_complete`: a block does what its tokens have put into it.
* `Made.steps`: everything that a program may do comes from a token, which was generated in the scope
  computed for it.
-/

namespace Stencil

/-- What a program does at a place: it runs an instruction that is no block, or it evaluates a
pipeline in the head of a block. -/
inductive Step where
  | run (i : Instruction)
  | head (p : Pipeline)

/-! ## Steps of bodies -/

mutual

/-- The steps of an instruction, with their scopes. -/
def instructionSteps (σ : Scope) : Instruction → List (Step × Scope)
  | .choose branches otherwise => branchSteps σ σ branches ++ otherwiseSteps σ otherwise
  | .switch subject arms => (.head subject, σ) :: armSteps σ.create arms
  | .loop binding iterable _ _ body =>
    (Checker.pipelinesOf iterable).map (fun p => (.head p, σ)) ++
      bodySteps (σ.create.addAll binding.names) body
  | .position pos => [(.run (.position pos), σ)]
  | .text text => [(.run (.text text), σ)]
  | .emit p => [(.run (.emit p), σ)]
  | .assign name op p declares => [(.run (.assign name op p declares), σ)]
  | .capture name text declares => [(.run (.capture name text declares), σ)]
  | .break => [(.run .break, σ)]
  | .continue => [(.run .continue, σ)]
  | .callMixin name args => [(.run (.callMixin name args), σ)]
  | .callBlock name => [(.run (.callBlock name), σ)]
  | .script source => [(.run (.script source), σ)]
termination_by structural i => i

/-- The steps of a body. -/
def bodySteps (σ : Scope) : List Instruction → List (Step × Scope)
  | [] => []
  | i :: is => instructionSteps σ i ++ bodySteps (σ.behind [i]) is
termination_by structural body => body

/-- The steps of some branches. The condition of the first one is compiled in the scope `τ`, those
that follow where the branch before ends. -/
def branchSteps (σ τ : Scope) : List Branch → List (Step × Scope)
  | [] => []
  | .mk condition _ body :: bs =>
    (.head condition, τ) :: (bodySteps σ.create body ++ branchSteps σ (σ.create.behind body) bs)
termination_by structural bs => bs

/-- The steps of a last resort. -/
def otherwiseSteps (σ : Scope) : Option (List Instruction) → List (Step × Scope)
  | none => []
  | some body => bodySteps σ.create body
termination_by structural body => body

/-- The steps of some arms, which share a frame. -/
def armSteps (σ : Scope) : List Arm → List (Step × Scope)
  | [] => []
  | .mk label body :: arms =>
    (Checker.labelPipelines label).map (fun p => (.head p, σ)) ++
      (bodySteps σ body ++ armSteps (σ.behind body) arms)
termination_by structural arms => arms

end

/-- The body of an arm. -/
def Arm.body : Arm → List Instruction
  | mk _ body => body

/-- The names that some arms bind. -/
def armBinds (arms : List Arm) : List String :=
  arms.flatMap fun | .mk _ body => body.flatMap Instruction.binds

theorem armBinds_eq (arms : List Arm) :
    armBinds arms = (arms.flatMap Arm.body).flatMap Instruction.binds := by
  rw [List.flatMap_assoc]
  exact congrArg (arms.flatMap ·) (funext fun | .mk _ _ => rfl)

/-- The scope in which the condition behind some branches is compiled. -/
def conditionScope (σ : Scope) : Option Branch → Scope
  | none => σ
  | some (.mk _ _ body) => σ.create.behind body

/-- The scope behind the main body, in which the bodies of mixins and blocks are compiled. -/
def Program.scope (program : Program) : Scope := Scope.behind {} program.body

/-- The steps of the bodies that are called. -/
def Program.calledSteps (program : Program) : List (Step × Scope) :=
  (program.mixins.entries.flatMap fun e =>
    bodySteps (program.scope.create.addAll e.2.params) e.2.body) ++
    program.blocks.entries.flatMap fun e => bodySteps program.scope.create e.2

/-- The steps of a program. -/
def Program.steps (program : Program) : List (Step × Scope) :=
  bodySteps {} program.body ++ program.calledSteps

section

variable {σ τ : Scope}

theorem instructionSteps_leaf {i : Instruction} (h : i.isBlock = false) :
    instructionSteps σ i = [(.run i, σ)] := by
  cases i <;> first | rfl | cases h

theorem bodySteps_append (body more : List Instruction) :
    bodySteps σ (body ++ more) = bodySteps σ body ++ bodySteps (σ.behind body) more := by
  induction body generalizing σ with
  | nil => rfl
  | cons i is ih =>
    have hbehind : σ.behind (i :: is) = (σ.behind [i]).behind is := Scope.behind_append σ [i] is
    rw [List.cons_append, bodySteps, bodySteps, ih, List.append_assoc, hbehind]

theorem bodySteps_singleton (i : Instruction) : bodySteps σ [i] = instructionSteps σ i := by
  simp [bodySteps]

theorem branchSteps_append (bs more : List Branch) :
    branchSteps σ τ (bs ++ more) = branchSteps σ τ bs ++
      branchSteps σ (bs.getLast?.elim τ fun b => conditionScope σ (some b)) more := by
  induction bs generalizing τ with
  | nil => rfl
  | cons b bs ih =>
    obtain ⟨condition, negated, body⟩ := b
    rw [List.cons_append, branchSteps, branchSteps, ih, List.cons_append, List.append_assoc]
    cases bs with
    | nil => rfl
    | cons => rw [List.getLast?_cons_cons]; rfl

theorem armSteps_append (arms more : List Arm) :
    armSteps σ (arms ++ more) = armSteps σ arms ++ armSteps (σ.addAll (armBinds arms)) more := by
  induction arms generalizing σ with
  | nil => rfl
  | cons arm arms ih =>
    obtain ⟨label, body⟩ := arm
    have hbinds : σ.addAll (armBinds (.mk label body :: arms)) =
        (σ.behind body).addAll (armBinds arms) := Scope.addAll_append ..
    rw [List.cons_append, armSteps, armSteps, ih, hbinds]
    simp only [List.append_assoc]

end

/-! ## Steps of open blocks -/

/-- The steps of an open block whose tokens have been compiled, but for those of the branch or the arm
that is being filled. -/
def OpenKind.steps (σ : Scope) : OpenKind → List (Step × Scope)
  | root => []
  | condition _ branches current =>
    branchSteps σ σ branches.reverse ++
      current.toList.map fun c => (.head c.1, conditionScope σ branches.head?)
  | case subject arms current =>
    (.head subject, σ) :: (armSteps σ.create arms.reverse ++
      (current.toList.flatMap Checker.labelPipelines).map fun p =>
        (.head p, σ.create.addAll (armBinds arms.reverse)))
  | loop _ iterable _ _ => (Checker.pipelinesOf iterable).map fun p => (.head p, σ)

section

variable {σ : Scope}

/-- The last branch is the first one of those that are kept. -/
theorem branchSteps_snoc (condition : Pipeline) (negated : Bool) (body : List Instruction)
    (branches : List Branch) :
    branchSteps σ σ (.mk condition negated body :: branches).reverse =
      branchSteps σ σ branches.reverse ++
        (.head condition, conditionScope σ branches.head?) :: bodySteps σ.create body := by
  have hlast : (branches.head?.elim σ fun b => conditionScope σ (some b)) =
      conditionScope σ branches.head? := by
    cases branches <;> rfl
  rw [List.reverse_cons, branchSteps_append, List.getLast?_reverse, hlast]
  simp [branchSteps]

theorem armSteps_snoc (label : ArmLabel) (body : List Instruction) (arms : List Arm) :
    armSteps σ (.mk label body :: arms).reverse = armSteps σ arms.reverse ++
      ((Checker.labelPipelines label).map (fun p => (.head p, σ.addAll (armBinds arms.reverse))) ++
        bodySteps (σ.addAll (armBinds arms.reverse)) body) := by
  rw [List.reverse_cons, armSteps_append]
  simp [armSteps]

/-- A block that is complete does what was compiled. -/
theorem OpenKind.steps_complete {kind : OpenKind} {content : List Instruction} {x : Instruction}
    (h : kind.complete? content = some x) :
    instructionSteps σ x = kind.steps σ ++ bodySteps (kind.scope σ) content.reverse := by
  cases kind with
  | root => cases h
  | condition kind branches current =>
    cases current with
    | none =>
      cases h
      simp [instructionSteps, otherwiseSteps, steps, scope]
    | some current =>
      cases h
      rw [instructionSteps, branchSteps_snoc]
      simp [otherwiseSteps, steps, scope]
  | case subject arms current =>
    cases current with
    | none => cases h
    | some label =>
      cases h
      rw [instructionSteps, armSteps_snoc]
      simp only [steps, Option.toList_some, List.flatMap_singleton, List.cons_append,
        List.append_assoc]
      rfl
  | loop binding iterable offset limit =>
    cases h
    rfl

end

/-! ## Where steps come from -/

section

variable (env : DraftEnv) (L : String → Prop)

/-- What the token at an index makes a program do, when it is generated in a scope. -/
inductive Yields (σ : Scope) (k : Nat) : Step → Prop where
  | position {token : Token} (here : env.token? k = some token) :
      Yields σ k (.run (.position token.pos))
  | leaf {added : List Instruction} {i : Instruction} {j : Nat} (leaf : Leaf env L σ k added j)
      (mem : i ∈ added) : Yields σ k (.run i)
  | opens {kind : OpenKind} {p : Pipeline} (opens : Opens env L σ k kind) (mem : p ∈ kind.pipelines) :
      Yields σ k (.head p)
  | elseIf {tag : Tag} {p : Pipeline} (here : env.token? k = some (.tag tag))
      (name : tag.name = "elseif" ∨ tag.name = "elsif") (makes : Makes L σ tag.head tag.filters p) :
      Yields σ k (.head p)
  | label {label : ArmLabel} {p : Pipeline} (labels : Labels env L σ k label)
      (mem : p ∈ Checker.labelPipelines label) : Yields σ k (.head p)

/-- The step comes from a token that was generated in the scope. -/
def ComesFrom (A : Nat → Scope → Prop) (x : Step × Scope) : Prop :=
  ∃ k, A k x.2 ∧ Yields env L x.2 k x.1

end

section

variable {env : DraftEnv} {L : String → Prop} {A : Nat → Scope → Prop} {σ : Scope}

theorem Leaf.length_le {k j : Nat} {added : List Instruction} (h : Leaf env L σ k added j) :
    added.length ≤ 1 := by
  cases h with
  | text | raw => split <;> simp
  | block _ _ _ adds => rcases adds with rfl | rfl <;> simp
  | _ => simp

theorem Leaf.steps {k j : Nat} {added : List Instruction} {x : Step × Scope}
    (h : Leaf env L σ k added j) (hx : x ∈ bodySteps σ added) : ∃ i ∈ added, x = (.run i, σ) := by
  have hplain := h.not_block
  have hlength := h.length_le
  match added with
  | [] => exact absurd hx List.not_mem_nil
  | [i] =>
    rw [bodySteps_singleton, instructionSteps_leaf (hplain i List.mem_cons_self)] at hx
    exact ⟨i, List.mem_cons_self, List.mem_singleton.1 hx⟩

theorem Opens.steps {k : Nat} {kind : OpenKind} {x : Step × Scope} (h : Opens env L σ k kind)
    (hx : x ∈ kind.steps σ) : ∃ p ∈ kind.pipelines, x = (.head p, σ) := by
  cases h with
  | condition => exact ⟨_, List.mem_cons_self, List.mem_singleton.1 hx⟩
  | case => exact ⟨_, List.mem_cons_self, List.mem_singleton.1 hx⟩
  | loop =>
    obtain ⟨p, hp, rfl⟩ := List.mem_map.1 hx
    exact ⟨p, hp, rfl⟩

/-- A block that turns has the steps of the branch or the arm that is completed, and those of the
token. -/
theorem Turns.steps {k : Nat} {kind next : OpenKind} {found : List Instruction} {x : Step × Scope}
    (h : Turns env L ((kind.scope σ).behind found.reverse) k found kind next)
    (hx : x ∈ next.steps σ) :
    x ∈ kind.steps σ ∨ x ∈ bodySteps (kind.scope σ) found.reverse ∨
      (x.2 = (kind.scope σ).behind found.reverse ∧ Yields env L x.2 k x.1) := by
  cases h with
  | @elseIf tag branches p q negated here name makes =>
    rw [OpenKind.steps, branchSteps_snoc] at hx
    simp only [OpenKind.steps, Option.toList_some, List.map_cons, List.map_nil, List.mem_append,
      List.mem_cons, List.not_mem_nil, or_false] at hx ⊢
    rcases hx with (hold | hcondition | hbody) | rfl
    · exact .inl (.inl hold)
    · exact .inl (.inr hcondition)
    · exact .inr (.inl hbody)
    · exact .inr (.inr ⟨rfl, .elseIf here name makes⟩)
  | otherwise here name =>
    rw [OpenKind.steps, branchSteps_snoc] at hx
    simp only [OpenKind.steps, Option.toList_none, Option.toList_some, List.map_cons, List.map_nil,
      List.append_nil, List.mem_append, List.mem_cons, List.not_mem_nil, or_false] at hx ⊢
    rcases hx with hold | hcondition | hbody
    · exact .inl (.inl hold)
    · exact .inl (.inr hcondition)
    · exact .inr (.inl hbody)
  | @firstArm subject arms label blank labels =>
    rw [Scope.behind, binds_of_isBlankBody blank] at labels ⊢
    simp only [OpenKind.steps, Option.toList_none, Option.toList_some, List.flatMap_singleton,
      List.flatMap_nil, List.map_nil, List.append_nil, List.mem_append, List.mem_cons, List.mem_map]
      at hx ⊢
    rcases hx with rfl | hold | ⟨p, hp, rfl⟩
    · exact .inl (.inl rfl)
    · exact .inl (.inr hold)
    · exact .inr (.inr ⟨rfl, .label labels hp⟩)
  | @arm subject arms label next labels =>
    have hscope : σ.create.addAll (armBinds (Arm.mk label found.reverse :: arms).reverse) =
        ((OpenKind.case subject arms (some label)).scope σ).behind found.reverse := by
      rw [List.reverse_cons, armBinds, List.flatMap_append, Scope.addAll_append]
      simp only [List.flatMap_singleton]
      rfl
    rw [OpenKind.steps, armSteps_snoc, hscope] at hx
    simp only [OpenKind.steps, Option.toList_some, List.flatMap_singleton, List.mem_append,
      List.mem_cons, List.mem_map] at hx ⊢
    rcases hx with rfl | (hold | hlabel | hbody) | ⟨p, hp, rfl⟩
    · exact .inl (.inl rfl)
    · exact .inl (.inr (.inl hold))
    · exact .inl (.inr (.inr hlabel))
    · exact .inr (.inl hbody)
    · exact .inr (.inr ⟨rfl, .label labels hp⟩)

/-- A position takes the place of one that stands right before it. -/
theorem mem_bodySteps_markIn {pos : Pos} {found : List Instruction} {x : Step × Scope}
    (hx : x ∈ bodySteps σ (Draft.markIn pos found).reverse) :
    x ∈ bodySteps σ found.reverse ∨ x = (.run (.position pos), σ.behind found.reverse) := by
  unfold Draft.markIn at hx
  split at hx
  · next old rest =>
    have hbehind : σ.behind (.position old :: rest).reverse = σ.behind rest.reverse := by
      rw [List.reverse_cons, Scope.behind_append, Scope.behind_singleton rfl]
    rw [hbehind]
    simp only [List.reverse_cons, bodySteps_append, bodySteps_singleton, instructionSteps,
      List.mem_append, List.mem_singleton] at hx ⊢
    exact hx.imp_left .inl
  · simpa [bodySteps_append, bodySteps_singleton, instructionSteps] using hx

/-- All steps of a block come from the tokens that have filled it. -/
theorem Filled.steps {start i : Nat} {kind : OpenKind} {found : List Instruction}
    {x : Step × Scope} (h : Filled env L A σ start kind found i)
    (hx : x ∈ kind.steps σ ∨ x ∈ bodySteps (kind.scope σ) found.reverse) : ComesFrom env L A x := by
  induction h with
  | root => rcases hx with hx | hx <;> exact absurd hx List.not_mem_nil
  | opened opens held =>
    rcases hx with hx | hx
    · obtain ⟨p, hp, rfl⟩ := opens.steps hx
      exact ⟨_, held, .opens opens hp⟩
    · exact absurd hx List.not_mem_nil
  | mark _ here held ih =>
    rcases hx with hx | hx
    · exact ih (.inl hx)
    · rcases mem_bodySteps_markIn hx with hx | rfl
      · exact ih (.inr hx)
      · exact ⟨_, held, .position here⟩
  | leaf _ leaf held ih =>
    rcases hx with hx | hx
    · exact ih (.inl hx)
    · rw [List.reverse_append, List.reverse_reverse, bodySteps_append, List.mem_append] at hx
      rcases hx with hx | hx
      · exact ih (.inr hx)
      · obtain ⟨i, hi, rfl⟩ := leaf.steps hx
        exact ⟨_, held, .leaf leaf hi⟩
  | nested _ _ _ _ _ complete ih ihbody =>
    rcases hx with hx | hx
    · exact ih (.inl hx)
    · rw [List.reverse_cons, bodySteps_append, bodySteps_singleton, List.mem_append,
        OpenKind.steps_complete complete, List.mem_append] at hx
      rcases hx with hx | hx
      · exact ih (.inr hx)
      · exact ihbody hx
  | turn _ turns held ih =>
    rcases hx with hx | hx
    · rcases turns.steps hx with hx | hx | ⟨hscope, yields⟩
      · exact ih (.inl hx)
      · exact ih (.inr hx)
      · exact ⟨_, hscope ▸ held, yields⟩
    · exact absurd hx List.not_mem_nil

/-- Everything that a program may do comes from a token that was generated in the scope computed for
it. -/
theorem Made.steps {program : Program} (h : Made env L A program) {x : Step × Scope}
    (hx : x ∈ program.steps) : ComesFrom env L A x := by
  simp only [Program.steps, Program.calledSteps, List.mem_append, List.mem_flatMap] at hx
  rcases hx with hx | ⟨e, he, hx⟩ | ⟨e, he, hx⟩
  · obtain ⟨found, hbody, filled⟩ := h.body
    rw [hbody] at hx
    exact filled.steps (.inr hx)
  · obtain ⟨body, _, hparams, found, hbody, filled⟩ := h.calls.mixins e he
    rw [hbody, hparams] at hx
    exact filled.steps (.inr hx)
  · obtain ⟨body, ⟨k, _, _, defers, _⟩, found, hbody, filled⟩ := h.calls.blocks e he
    rw [defers.params.resolve_left (by decide)] at filled
    rw [hbody] at hx
    exact filled.steps (.inr hx)

end

end Stencil
