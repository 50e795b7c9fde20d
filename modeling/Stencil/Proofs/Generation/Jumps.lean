import Stencil.Proofs.Generation.Redefined
import Stencil.Proofs.Render.Jumps
import Stencil.Proofs.Render.Paired
import Stencil.Template

/-!
# Jumps of generated programs

A tag that jumps is refused unless some open block takes up the jump. The bodies of mixins and blocks
are generated above the outermost block of the main body, which takes up nothing, so that a jump never
leaves the body it stands in.

* `InOrder` is what holds of an open block with others around it; `AllInOrder.change` keeps it up.
* `Generator.generateRange_inOrder`: so do the tokens of a body.
* `Generator.generate_wellFormed`: no jump leaves a body of a program, and its branches and arms are
  complete.
* `generate_jumps`: how bodies of programs are formed, and that all of them end at their end.
-/

namespace Stencil

/-! ## Branches and arms -/

/-- The labels of the arms of a case: the first one has values, and none has an empty list of them. -/
structure LabelsFormed (labels : List ArmLabel) : Prop where
  first : ∃ ps rest, labels = .values ps :: rest
  values : ∀ ps, .values ps ∈ labels → ps ≠ []

theorem LabelsFormed.single {ps : List Pipeline} (h : ps ≠ []) : LabelsFormed [.values ps] where
  first := ⟨ps, [], rfl⟩
  values qs hqs := by
    obtain rfl : qs = ps := by simpa using hqs
    exact h

theorem LabelsFormed.snoc {labels : List ArmLabel} {label : ArmLabel} (h : LabelsFormed labels)
    (hlabel : ∀ ps, label = .values ps → ps ≠ []) : LabelsFormed (labels ++ [label]) where
  first := by
    obtain ⟨ps, rest, rfl⟩ := h.first
    exact ⟨ps, rest ++ [label], rfl⟩
  values ps hps := by
    rcases List.mem_append.1 hps with hps | hps
    · exact h.values ps hps
    · exact hlabel ps (List.mem_singleton.1 hps).symm

/-- A condition has a branch, and a case has an arm with values first. -/
def Instruction.Formed : Instruction → Prop
  | choose branches _ => branches ≠ []
  | switch _ arms => LabelsFormed (arms.map Arm.label)
  | _ => True

/-- What makes the instruction of an open block formed. -/
def OpenKind.Formed : OpenKind → Prop
  | condition _ branches current => current = none → branches ≠ []
  | case _ arms none => arms = []
  | case _ arms (some label) => LabelsFormed (label :: arms.map Arm.label).reverse
  | _ => True

theorem Instruction.formed_of_plain {x : Instruction} (h : x.isBlock = false) : x.Formed := by
  cases x with
  | choose | switch => cases h
  | _ => trivial

theorem OpenKind.isBlock_complete {kind : OpenKind} {content : List Instruction} {x : Instruction}
    (h : kind.complete? content = some x) : x.isBlock = true := by
  unfold complete? at h
  split at h <;> cases h <;> rfl

theorem OpenKind.formed_complete {kind : OpenKind} {content : List Instruction} {x : Instruction}
    (h : kind.complete? content = some x) (hkind : kind.Formed) : x.Formed := by
  cases kind with
  | root => cases h
  | condition kind branches current =>
    cases current with
    | none =>
      cases h
      simpa [Instruction.Formed] using hkind rfl
    | some current =>
      cases h
      simp [Instruction.Formed]
  | case subject arms current =>
    cases current with
    | none => cases h
    | some label =>
      cases h
      have hlabels : LabelsFormed ((Arm.mk label content.reverse :: arms).map Arm.label).reverse :=
        hkind
      rwa [← List.map_reverse] at hlabels
  | loop => cases h; trivial

/-- The body is formed, and no jump leaves it. -/
structure WellFormed (body : List Instruction) : Prop where
  stays : ∀ flow, ¬ Escapes flow body
  formed : ∀ x, Occurs x body → x.Formed

/-! ## Which jumps open blocks take up -/

namespace OpenKind

/-- Whether a jump in a body of an open block ends there. -/
def catches (flow : Flow) : OpenKind → Bool
  | loop .. => true
  | case .. => flow == .break
  | _ => false

theorem catches_break (kind : OpenKind) : kind.catches .break = Handler.isBreakable kind := by
  cases kind <;> rfl

theorem catches_continue (kind : OpenKind) : kind.catches .continue = Handler.isLoop kind := by
  cases kind <;> rfl

theorem catches_complete {kind : OpenKind} {content : List Instruction} {x : Instruction}
    (h : kind.complete? content = some x) (flow : Flow) : x.catches flow = kind.catches flow := by
  unfold complete? at h
  split at h <;> cases h <;> rfl

end OpenKind

theorem Turns.catches {env : DraftEnv} {L : String → Prop} {σ : Scope} {i : Nat}
    {found : List Instruction} {kind next : OpenKind} (h : Turns env L σ i found kind next)
    (flow : Flow) : next.catches flow = kind.catches flow := by
  cases h <;> rfl

/-- Some open block takes up the jump. -/
def Catches (flow : Flow) (stack : List OpenBlock) : Prop := ∃ b ∈ stack, b.kind.catches flow = true

theorem Draft.catches_of_inside {d : Draft} {flow : Flow} {p : OpenKind → Bool}
    (hp : ∀ kind : OpenKind, kind.catches flow = p kind) (h : d.inside p = true) :
    Catches flow d.stack := by
  rw [Draft.inside, Bool.or_eq_true, List.any_eq_true] at h
  rcases h with ⟨b, hb, hcatches⟩ | hroot
  · exact ⟨b, List.mem_append_left _ hb, (hp _).trans hcatches⟩
  · exact ⟨d.root, List.mem_append_right _ List.mem_cons_self, (hp _).trans hroot⟩

/-! ## Open blocks -/

/-- The instructions that an open block has so far satisfy `P`, or those of a body that is
complete. -/
def OpenBlock.Meets (P : List Instruction → Prop) (b : OpenBlock) : Prop :=
  P b.found ∨ ∃ inner ∈ b.kind.bodies, P inner

/-- The instructions of a block with some blocks around it: its jumps are taken up there, and what is
complete is formed. -/
structure InOrder (b : OpenBlock) (outer : List OpenBlock) : Prop where
  caught : ∀ flow, b.Meets (Escapes flow) → Catches flow (b :: outer)
  kind : b.kind.Formed
  formed : ∀ x, b.Meets (Occurs x) → x.Formed

/-- All blocks of a stack are in order. -/
inductive AllInOrder : List OpenBlock → Prop where
  | nil : AllInOrder []
  | cons {b : OpenBlock} {outer : List OpenBlock} (block : InOrder b outer)
      (rest : AllInOrder outer) : AllInOrder (b :: outer)

/-- What the token at an index needs of the blocks that are open. -/
structure Permits (env : DraftEnv) (i : Nat) (stack : List OpenBlock) : Prop where
  jumps : ∀ tag, env.token? i = some (.tag tag) → ∀ flow,
    (tag.name = "break" ∧ flow = .break ∨ tag.name = "continue" ∧ flow = .continue) →
    Catches flow stack
  default : ∀ tag, env.token? i = some (.tag tag) → tag.name = "default" →
    ∀ subject arms found outer, stack ≠ ⟨.case subject arms none, found⟩ :: outer

section

variable {env : DraftEnv} {L : String → Prop} {σ σ' : Scope} {i j : Nat}
  {found added content : List Instruction} {kind next around : OpenKind}
  {stack stack' outer : List OpenBlock} {x : Instruction} {P : List Instruction → Prop}

namespace OpenBlock

theorem Meets.markIn (hP : Additive P) {pos : Pos} (hposition : ¬ P [.position pos])
    (h : (⟨kind, Draft.markIn pos found⟩ : OpenBlock).Meets P) :
    (⟨kind, found⟩ : OpenBlock).Meets P :=
  h.imp_left fun h => (hP.markIn h).resolve_left hposition

theorem Meets.append (hP : Additive P) (h : (⟨kind, added.reverse ++ found⟩ : OpenBlock).Meets P) :
    P added ∨ (⟨kind, found⟩ : OpenBlock).Meets P := by
  rcases h with h | h
  · exact (hP.append h).imp hP.reverse.1 .inl
  · exact .inr (.inr h)

theorem not_has_opened (hP : Additive P) (hkind : kind.bodies = []) :
    ¬ (⟨kind, []⟩ : OpenBlock).Meets P := by
  rintro (h | ⟨inner, hinner, _⟩)
  · exact hP.nil h
  · rw [hkind] at hinner
    cases hinner

theorem Meets.turned (hP : Additive P) (hturns : Turns env L σ i found kind next)
    (h : (⟨next, []⟩ : OpenBlock).Meets P) : (⟨kind, found⟩ : OpenBlock).Meets P := by
  rcases h with h | ⟨inner, hinner, h⟩
  · exact absurd h hP.nil
  · rcases hturns.mem_bodies hinner with hinner | rfl
    · exact .inr ⟨inner, hinner, h⟩
    · exact .inl (hP.reverse.1 h)

/-- What a body of a complete block satisfies was satisfied in the open one. -/
theorem has_of_complete (hP : Additive P) (hcomplete : kind.complete? content = some x)
    (h : ∃ inner ∈ x.bodies, P inner) : (⟨kind, content⟩ : OpenBlock).Meets P := by
  obtain ⟨inner, hinner, h⟩ := h
  rcases (OpenKind.mem_bodies hcomplete).1 hinner with hinner | rfl
  · exact .inr ⟨inner, hinner, h⟩
  · exact .inl (hP.reverse.1 h)

end OpenBlock

/-! ## What tags do -/

/-- An instruction of a token jumps only if the tag does. -/
theorem Leaf.jump (h : Leaf env L σ i added j) {flow : Flow} (hx : x ∈ added)
    (hjump : x.jump? = some flow) : ∃ tag, env.token? i = some (.tag tag) ∧
      (tag.name = "break" ∧ flow = .break ∨ tag.name = "continue" ∧ flow = .continue) := by
  cases h with
  | text | raw =>
    split at hx
    · cases hx
    · rw [List.mem_singleton.1 hx] at hjump
      cases hjump
  | block _ _ _ adds =>
    rcases adds with rfl | rfl
    · cases hx
    · rw [List.mem_singleton.1 hx] at hjump
      cases hjump
  | comment | mixin | trim => cases hx
  | object | assign | capture | script | callMixin =>
    rw [List.mem_singleton.1 hx] at hjump
    cases hjump
  | «break» here name =>
    rw [List.mem_singleton.1 hx] at hjump
    cases hjump
    exact ⟨_, here, .inl ⟨name, rfl⟩⟩
  | «continue» here name =>
    rw [List.mem_singleton.1 hx] at hjump
    cases hjump
    exact ⟨_, here, .inr ⟨name, rfl⟩⟩

theorem Opens.formed (h : Opens env L σ i kind) : kind.Formed ∧ kind.bodies = [] := by
  cases h with
  | condition => exact ⟨nofun, rfl⟩
  | case => exact ⟨rfl, rfl⟩
  | loop => exact ⟨trivial, rfl⟩

theorem Labels.values_ne_nil {label : ArmLabel} (h : Labels env L σ i label) (ps : List Pipeline)
    (hlabel : label = .values ps) : ps ≠ [] := by
  cases h with
  | values _ _ _ some =>
    obtain rfl := ArmLabel.values.inj hlabel
    simpa using some
  | default => cases hlabel

/-- The first arm has values, since a default is not permitted before. -/
theorem Turns.formed (h : Turns env L σ i found kind next) (hkind : kind.Formed)
    (hpermits : Permits env i (⟨kind, found⟩ :: outer)) : next.Formed := by
  cases h with
  | elseIf => exact nofun
  | otherwise => exact fun _ => List.cons_ne_nil _ _
  | @firstArm subject arms label blank labels =>
    obtain rfl : arms = [] := hkind
    cases labels with
    | values _ _ _ some => exact .single (by simpa using some)
    | default here name => exact absurd rfl (hpermits.default _ here name subject [] found outer)
  | @arm subject arms label next labels =>
    have hlabels : LabelsFormed (label :: arms.map Arm.label).reverse := hkind
    show LabelsFormed (next :: label :: arms.map Arm.label).reverse
    rw [List.reverse_cons]
    exact hlabels.snoc labels.values_ne_nil

/-! ## Changes keep blocks in order -/

/-- Blocks that take up the same jumps may take each other's place. -/
theorem Catches.replace {b b' : OpenBlock} {flow : Flow} (h : Catches flow (b :: outer))
    (hkind : b'.kind.catches flow = b.kind.catches flow) : Catches flow (b' :: outer) := by
  obtain ⟨c, hc, hcatches⟩ := h
  rcases List.mem_cons.1 hc with rfl | hc
  · exact ⟨b', List.mem_cons_self, hkind.trans hcatches⟩
  · exact ⟨c, List.mem_cons_of_mem _ hc, hcatches⟩

namespace AllInOrder

theorem mark {pos : Pos} (h : AllInOrder (⟨kind, found⟩ :: outer)) :
    AllInOrder (⟨kind, Draft.markIn pos found⟩ :: outer) := by
  have hplain : ∀ y ∈ [Instruction.position pos], y.isBlock = false := by
    simp [Instruction.isBlock]
  cases h with
  | cons block rest =>
    refine .cons ⟨fun flow hflow => ?_, block.kind, fun x hx => ?_⟩ rest
    · have hposition : ¬ Escapes flow [.position pos] := by
        intro hescapes
        obtain ⟨y, hy, hjump⟩ := hescapes.of_leaves hplain
        rw [List.mem_singleton.1 hy] at hjump
        cases hjump
      exact (block.caught flow (hflow.markIn (additive_escapes flow) hposition)).replace rfl
    · by_cases hposition : Occurs x [.position pos]
      · exact Instruction.formed_of_plain (hplain x (hposition.of_leaves hplain))
      · exact block.formed x (hx.markIn (additive_occurs x) hposition)

theorem leaf (h : AllInOrder (⟨kind, found⟩ :: outer)) (hleaf : Leaf env L σ i added j)
    (hpermits : Permits env i (⟨kind, found⟩ :: outer)) :
    AllInOrder (⟨kind, added.reverse ++ found⟩ :: outer) := by
  cases h with
  | cons block rest =>
    refine .cons ⟨fun flow hflow => ?_, block.kind, fun x hx => ?_⟩ rest
    · rcases hflow.append (additive_escapes flow) with hadded | hflow
      · obtain ⟨y, hy, hjump⟩ := hadded.of_leaves hleaf.not_block
        obtain ⟨tag, here, hname⟩ := hleaf.jump hy hjump
        exact (hpermits.jumps tag here flow hname).replace rfl
      · exact (block.caught flow hflow).replace rfl
    · rcases hx.append (additive_occurs x) with hadded | hx
      · exact Instruction.formed_of_plain (hleaf.not_block x (hadded.of_leaves hleaf.not_block))
      · exact block.formed x hx

/-- Nothing is in disorder in a block that begins. -/
theorem opened (h : AllInOrder stack) (hkind : kind.Formed) (hbodies : kind.bodies = []) :
    AllInOrder (⟨kind, []⟩ :: stack) := by
  refine .cons ⟨fun flow hflow => ?_, hkind, fun x hx => ?_⟩ h
  · exact absurd hflow (OpenBlock.not_has_opened (additive_escapes flow) hbodies)
  · exact absurd hx (OpenBlock.not_has_opened (additive_occurs x) hbodies)

theorem opens (h : AllInOrder stack) (hopens : Opens env L σ i kind) :
    AllInOrder (⟨kind, []⟩ :: stack) :=
  h.opened hopens.formed.1 hopens.formed.2

theorem turns (h : AllInOrder (⟨kind, found⟩ :: outer)) (hturns : Turns env L σ i found kind next)
    (hpermits : Permits env i (⟨kind, found⟩ :: outer)) : AllInOrder (⟨next, []⟩ :: outer) := by
  cases h with
  | cons block rest =>
    refine .cons ⟨fun flow hflow => ?_, hturns.formed block.kind hpermits, fun x hx => ?_⟩ rest
    · have hcaught := block.caught flow (hflow.turned (additive_escapes flow) hturns)
      exact hcaught.replace (hturns.catches flow)
    · exact block.formed x (hx.turned (additive_occurs x) hturns)

/-- A jump in a block that closes is taken up by the block itself, or around it. -/
theorem closes (h : AllInOrder (⟨kind, content⟩ :: ⟨around, found⟩ :: outer))
    (hcomplete : kind.complete? content = some x) :
    AllInOrder (⟨around, x :: found⟩ :: outer) := by
  cases h with
  | cons inner rest =>
    cases rest with
    | cons block rest =>
      have hblock := OpenKind.isBlock_complete hcomplete
      refine .cons ⟨fun flow hflow => ?_, block.kind, fun y hy => ?_⟩ rest
      · have hflow : (⟨around, [x].reverse ++ found⟩ : OpenBlock).Meets (Escapes flow) := hflow
        rcases hflow.append (additive_escapes flow) with hadded | hflow
        · obtain ⟨hpasses, hbodies⟩ := hadded.of_block hblock
          have hinner := OpenBlock.has_of_complete (additive_escapes flow) hcomplete hbodies
          obtain ⟨b, hb, hcatches⟩ := inner.caught flow hinner
          rcases List.mem_cons.1 hb with rfl | hb
          · rw [OpenKind.catches_complete hcomplete] at hpasses
            rw [hpasses] at hcatches
            cases hcatches
          · have hcaught : Catches flow (⟨around, found⟩ :: outer) := ⟨b, hb, hcatches⟩
            exact hcaught.replace rfl
        · exact (block.caught flow hflow).replace rfl
      · have hy : (⟨around, [x].reverse ++ found⟩ : OpenBlock).Meets (Occurs y) := hy
        rcases hy.append (additive_occurs y) with hadded | hy
        · cases hadded with
          | here mem =>
            rw [List.mem_singleton.1 mem]
            exact OpenKind.formed_complete hcomplete inner.kind
          | inside mem within occurs =>
            rw [List.mem_singleton.1 mem] at within
            exact inner.formed y
              (OpenBlock.has_of_complete (additive_occurs y) hcomplete ⟨_, within, occurs⟩)
        · exact block.formed y hy

/-- A change of the stack keeps its blocks in order. -/
theorem change (h : AllInOrder stack) (hchange : Change env L σ i stack stack' σ' j)
    (hpermits : Permits env i stack) : AllInOrder stack' := by
  cases hchange with
  | leaf leaf => exact h.leaf leaf hpermits
  | opens _ _ opens => exact h.opens opens
  | turns turns => exact h.turns turns hpermits
  | closes _ _ complete => exact h.closes complete

/-- The outermost block of a body is well formed where the body ends. -/
theorem root (h : AllInOrder (⟨.root, found⟩ :: outer))
    (houter : ∀ b ∈ outer, b.kind = .root) : WellFormed found.reverse := by
  cases h with
  | cons block rest =>
    constructor
    · intro flow hescapes
      obtain ⟨b, hb, hcatches⟩ :=
        block.caught flow (.inl ((additive_escapes flow).reverse.1 hescapes))
      have hroot : b.kind = .root := by
        rcases List.mem_cons.1 hb with rfl | hb
        · rfl
        · exact houter b hb
      rw [hroot] at hcatches
      cases hcatches
    · intro x hx
      exact block.formed x (.inl hx.of_reverse)

end AllInOrder

end

/-! ## Tokens -/

namespace Handler

variable {env : DraftEnv} {tag : Tag} {d d' : Draft}

/-- A tag that jumps is refused where nothing takes up the jump. -/
theorem inside_of_breakOut (h : breakOut env tag d = .ok d') : d.inside isBreakable = true := by
  by_contra hinside
  rw [Bool.not_eq_true] at hinside
  simp [breakOut, hinside, misuse, refuse, bind, Except.bind] at h

theorem inside_of_goOn (h : goOn env tag d = .ok d') : d.inside isLoop = true := by
  by_contra hinside
  rw [Bool.not_eq_true] at hinside
  simp [goOn, hinside, misuse, refuse, bind, Except.bind] at h

/-- A default is refused where no arm has been started. -/
theorem started_of_armDefault (h : armDefault env tag d = .ok d') (subject : Pipeline)
    (arms : List Arm) (found : List Instruction) (outer : List OpenBlock) :
    d.stack ≠ ⟨.case subject arms none, found⟩ :: outer := by
  intro hstack
  have hfails : ∃ e, nextArm env tag .default d = .error e := by
    unfold nextArm
    cases hinner : d.inner with
    | nil => exact ⟨_, rfl⟩
    | cons b rest =>
      rw [Draft.stack, hinner, List.cons_append] at hstack
      obtain ⟨rfl, _⟩ := List.cons.inj hstack
      by_cases hblank : isBlankBody found = true
      · simp [hblank, misplaced]
      · simp [hblank, misplaced]
  obtain ⟨e, he⟩ := hfails
  simp [armDefault, he, bind, Except.bind] at h

end Handler

namespace Generator

variable {g : Generator} {d d' : Draft}

/-- A token that is handled is permitted by the blocks that are open. -/
theorem permits_of_step (hg : g.IsBuiltin) {token : Token} (here : g.env.token? d.idx = some token)
    (hstep : g.step token d = .ok d') :
    Permits g.env d.idx ({ d with trimNext := false }.mark g.env token.pos).stack := by
  have handled (tag : Tag) (htag : g.env.token? d.idx = some (.tag tag)) {name : String}
      (hname : tag.name = name) (handler : TagHandler)
      (hhandler : TagRegistry.builtin.get? name = some handler) :
      handler g.env tag ({ d with trimNext := false }.mark g.env token.pos) = .ok d' := by
    obtain rfl := Option.some.inj (here.symm.trans htag)
    unfold step handle at hstep
    dsimp only at hstep
    rw [hg.registry, hname, hhandler] at hstep
    exact hstep
  constructor
  · rintro tag htag flow (⟨hname, rfl⟩ | ⟨hname, rfl⟩)
    · have hbreak := handled tag htag hname Handler.breakOut rfl
      exact Draft.catches_of_inside OpenKind.catches_break (Handler.inside_of_breakOut hbreak)
    · have hgoOn := handled tag htag hname Handler.goOn rfl
      exact Draft.catches_of_inside OpenKind.catches_continue (Handler.inside_of_goOn hgoOn)
  · intro tag htag hname
    exact Handler.started_of_armDefault (handled tag htag hname Handler.armDefault rfl)

variable {A : Nat → Scope → Prop} {d₀ : Draft} {τ : Scope} {start stop : Nat}
  {below : List OpenBlock}

/-- A token keeps the open blocks in order. -/
theorem step_inOrder {token : Token} (hg : g.IsBuiltin) (hends : Ends g.env start below stop)
    (h : Going g.env d₀ A τ start below d) (hlt : d.idx < stop)
    (here : g.env.token? d.idx = some token) (held : A d.idx d.scope)
    (hstep : g.step token d = .ok d') (horder : AllInOrder d.stack) : AllInOrder d'.stack := by
  have hmark : AllInOrder ({ d with trimNext := false }.mark g.env token.pos).stack := by
    unfold Draft.mark
    split
    · rw [Draft.stack_setTop]
      rw [Draft.stack_eq] at horder
      exact horder.mark
    · exact horder
  have hchange := ((step_effect hg hends h hlt here held).get hstep).change
  rw [Draft.idx_mark] at hchange
  have hpermits := permits_of_step hg here hstep
  exact hmark.change hchange hpermits

/-- So do the tokens of a body. -/
theorem generateRange_inOrder (hg : g.IsBuiltin) (hτ : 0 < τ.depth)
    (hends : Ends g.env start below stop) (h : Going g.env d₀ (fun _ _ => True) τ start below d)
    (hrange : g.generateRange stop d = .ok d') (horder : AllInOrder d.stack) :
    AllInOrder d'.stack := by
  fun_induction generateRange g stop d with
  | case1 | case5 =>
    obtain rfl := Except.ok.inj hrange
    exact horder
  | case2 | case4 => cases hrange
  | case3 d hlt token here next hstep hnext ih =>
    have hgoing := (step_settles hg hτ hends h hlt here trivial).get hstep
    exact ih hgoing hrange (step_inOrder hg hends h hlt here trivial hstep horder)

/-! ## Bodies -/

/-- A body begins in order, since only the main body is open around it. -/
theorem Begins.inOrder {before : List Nat} (hg : g.IsBuiltin) (h : g.Begins before start stop d) :
    AllInOrder d.stack ∧ ∀ b ∈ d.stack, b.kind = .root := by
  cases h with
  | main => exact ⟨AllInOrder.nil.opened trivial rfl, fun b hb => by rw [List.mem_singleton.1 hb]⟩
  | @deferred main d program rounds body first done =>
    obtain ⟨found, hbetween⟩ := (generateMain_outside hg).get first
    have hresting := ((generateDeferred_outside hg hbetween rounds).get done).resting
    have hdepth : 0 < ({} : Scope).depth := Nat.succ_pos 0
    have hmain := generateRange_inOrder hg hdepth .main (Going.begins g.env _) (generateMain_ok first)
      (AllInOrder.nil.opened trivial rfl)
    have hstack : (d.begin body).stack = ⟨.root, []⟩ :: main.stack := by
      rw [hbetween.resting.stack, ← hresting.stack]
      rfl
    rw [hstack]
    refine ⟨hmain.opened trivial rfl, fun b hb => ?_⟩
    rw [hbetween.resting.stack] at hb
    rcases List.mem_cons.1 hb with rfl | hb
    · rfl
    · rw [List.mem_singleton.1 hb]

/-- All bodies of a program are well formed. -/
theorem generate_wellFormed (hg : g.IsBuiltin) {made : Generated} (h : g.generate = .ok made) :
    ∀ body ∈ Checker.bodiesOf made.program, WellFormed body := by
  refine generate_forall hg h ?_
  intro before start stop d d' found rest hbegins hrange hstack hstack'
  obtain ⟨τ, below, hτ, hends, _, _, hgoing⟩ := hbegins.going hg
  obtain ⟨horder, hroots⟩ := hbegins.inOrder hg
  have hend := generateRange_inOrder hg hτ hends hgoing hrange horder
  rw [hstack'] at hend
  exact hend.root fun b hb => hroots b (hstack ▸ List.mem_cons_of_mem _ hb)

end Generator

/-! ## Programs -/

/-- In all bodies of a program, every `break` stands within a loop or a case of the same body, and every
`continue` within a loop; conditions have branches, and cases have arms, of which the first one has
values, and no list of values is empty. So every body that is run ends at its end unless it fails,
whatever it is run with, and no jump ends a part of another body. -/
theorem generate_jumps (tokens : List Token) (files : Files) (positions : Bool) (made : Generated)
    (hmade : generate tokens files .builtin positions = .ok made) :
    ∀ body ∈ Checker.bodiesOf made.program,
      (∀ around, Lies .break around body → ∃ y ∈ around, y.catches .break = true) ∧
      (∀ around, Lies .continue around body → ∃ y ∈ around, y.catches .continue = true) ∧
      (∀ branches otherwise, Occurs (.choose branches otherwise) body → branches ≠ []) ∧
      (∀ subject arms, Occurs (.switch subject arms) body → LabelsFormed (arms.map Arm.label)) ∧
      ∀ (env : RenderEnv) (call : List Instruction → RenderM Flow) (s t : RenderState) (flow : Flow),
        env.runBody call body s = .ok flow t → flow = .normal := by
  obtain ⟨sites, hsites, _⟩ := (generate_settles tokens files positions).get hmade
  rw [generate_eq hsites] at hmade
  intro body hbody
  have hformed := Generator.generate_wellFormed ⟨rfl, rfl⟩ hmade body hbody
  refine ⟨fun around hlies => ?_, fun around hlies => ?_, fun branches otherwise hocc => ?_,
    fun subject arms hocc => ?_, fun env call s t flow hrun => ?_⟩
  · exact hlies.caught rfl (hformed.stays .break)
  · exact hlies.caught rfl (hformed.stays .continue)
  · exact hformed.formed _ hocc
  · exact hformed.formed _ hocc
  · refine endsIn_body (P := (· = .normal)) rfl body (fun flow hescapes => ?_) s flow t hrun
    exact absurd hescapes (hformed.stays flow)

/-- A block in a loop, with a `break` in a case of its own. -/
def caseInBlock : List Token :=
  [tagAt 0 "for" "x in xs" "{% for x in xs %}", tagAt 17 "block" "b" "{% block b %}",
    tagAt 30 "case" "x" "{% case x %}", tagAt 42 "when" "1" "{% when 1 %}",
    tagAt 54 "break" "" "{% break %}", tagAt 65 "endcase" "" "{% endcase %}",
    .raw "." ⟨stringFile, 78⟩, tagAt 79 "endblock" "" "{% endblock %}",
    tagAt 93 "endfor" "" "{% endfor %}"]

theorem generate_jumps_caseInBlock :
    ∃ made body, generate caseInBlock {} .builtin false = .ok made ∧
      made.program.blocks.get? "b" = some body ∧ body.any Instruction.isBlock = true ∧
      (∀ around, Lies .break around body → ∃ y ∈ around, y.catches .break = true) ∧
      ∀ (s t : RenderState) (flow : Flow),
        RenderEnv.runCalled ⟨made.program, {}, default⟩ 1 body s = .ok flow t → flow = .normal := by
  have hcomputed : (generate caseInBlock {} .builtin false).toOption.map (fun made =>
      (made.program.blocks.get? "b").map (·.any Instruction.isBlock)) = some (some true) := by
    decide +kernel
  obtain ⟨made, hmade, hfound⟩ := ok_of_toOption_map hcomputed
  obtain ⟨body, hbody, hblock⟩ := Option.map_eq_some_iff.1 hfound
  obtain ⟨_, _, hblocks⟩ :=
    Checker.forall_mem_bodiesOf.1 (generate_jumps caseInBlock {} false made hmade)
  obtain ⟨hbreak, _, _, _, hruns⟩ := hblocks ("b", body) (Table.mem_of_get? hbody)
  exact ⟨made, body, hmade, hbody, hblock, hbreak, fun s t flow hrun => hruns _ _ s t flow hrun⟩

end Stencil
