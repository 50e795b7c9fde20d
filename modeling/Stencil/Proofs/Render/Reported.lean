import Stencil.Proofs.Generation.Points
import Stencil.Proofs.Render.Failing
import Stencil.Proofs.Render.Template

/-!
# Which token a failure points at

When a run comes to a step, the position of its state is the one that stands right before the
instruction of the step: bodies of any kind begin with a position of their own, and what is
evaluated for an instruction is evaluated before anything else is run. So a failure points at the
token that the step comes from, or, for a condition of `elseif` and for the values of `when`, at the
tag that opens their block.

* `GoesOn.stands`: wherever a run goes on, the state is at the position before the code.
* `renderWith_reported`: where a rendering that fails points.
-/

namespace Stencil

/-! ## Points on the way -/

/-- The step evaluates something. -/
def Step.Evaluates : Step → Prop
  | run i => ∀ q, instructionPoints q i = [(.run i, q)]
  | head _ => True

theorem Step.Fails.evaluates {env : RenderEnv} {s : RenderState} {e : Error} {step : Step}
    (h : step.Fails env s e) : step.Evaluates := by
  cases h with
  | head | entries | bound => trivial
  | emit | assign | combine | argument | script => exact fun q => rfl

/-- The points of some code with a position right before it. -/
def Code.points (q : Option Pos) : Code → List Point
  | body is => bodyPoints q is
  | branches _ bs otherwise => branchPoints q bs ++ otherwisePoints otherwise
  | arms _ rest => rest.flatMap fun arm => bodyPoints none arm.body
  | iterations _ _ _ _ is _ _ => bodyPoints none is

section

variable {q : Option Pos} {arms : List Arm}

theorem mem_armPoints_body {x : Point} (hx : x ∈ arms.flatMap fun arm => bodyPoints none arm.body) :
    x ∈ armPoints q arms := by
  induction arms with
  | nil => exact hx
  | cons arm arms ih =>
    obtain ⟨label, body⟩ := arm
    rw [List.flatMap_cons, List.mem_append] at hx
    rw [armPoints, List.mem_append, List.mem_append]
    exact .inr (hx.imp_right ih)

theorem mem_armPoints_label {p : Pipeline}
    (hp : p ∈ arms.flatMap fun | .mk label _ => Checker.labelPipelines label) :
    (.head p, q) ∈ armPoints q arms := by
  induction arms with
  | nil => exact absurd hp List.not_mem_nil
  | cons arm arms ih =>
    obtain ⟨label, body⟩ := arm
    rw [List.flatMap_cons, List.mem_append] at hp
    rw [armPoints, List.mem_append, List.mem_append]
    exact hp.imp (List.mem_map_of_mem ·) fun hp => .inr (ih hp)

/-- A step that is made at some code stands behind the position before the code. -/
theorem Code.mem_points {code : Code} {step : Step} (h : step ∈ code.made) (he : step.Evaluates) :
    (step, q) ∈ code.points q := by
  have hleaf {i : Instruction} (hi : step ∈ [Step.run i]) : (step, q) ∈ instructionPoints q i := by
    obtain rfl := List.mem_singleton.1 hi
    rw [he q]
    exact List.mem_cons_self
  cases code with
  | body is =>
    cases is with
    | nil => exact absurd h List.not_mem_nil
    | cons i is =>
      refine List.mem_append_left _ ?_
      cases i with
      | choose => exact absurd h List.not_mem_nil
      | switch subject arms =>
        rcases List.mem_cons.1 h with rfl | h
        · exact List.mem_cons_self
        · obtain ⟨p, hp, rfl⟩ := List.mem_map.1 h
          exact List.mem_cons_of_mem _ (mem_armPoints_label hp)
      | loop =>
        obtain ⟨p, hp, rfl⟩ := List.mem_map.1 h
        exact List.mem_append_left _ (List.mem_map.2 ⟨p, hp, rfl⟩)
      | _ => exact hleaf h
  | branches before bs otherwise =>
    cases bs with
    | nil => exact absurd h List.not_mem_nil
    | cons b bs =>
      obtain ⟨condition, negated, body⟩ := b
      obtain rfl := List.mem_singleton.1 h
      exact List.mem_append_left _ List.mem_cons_self
  | arms | iterations => exact absurd h List.not_mem_nil

end

theorem mem_bodiesOf_mixin {program : Program} {name : String} {mixin : Mixin}
    (h : program.mixins.get? name = some mixin) : mixin.body ∈ Checker.bodiesOf program :=
  List.mem_append_left _ (List.mem_cons_of_mem _ (List.mem_map_of_mem
    (List.mem_map.2 ⟨_, Table.mem_of_get? h, rfl⟩)))

theorem mem_bodiesOf_block {program : Program} {name : String} {body : List Instruction}
    (h : program.blocks.get? name = some body) : body ∈ Checker.bodiesOf program :=
  List.mem_append_right _ (List.mem_map.2 ⟨_, Table.mem_of_get? h, rfl⟩)

/-- An instruction that notes a position leaves the state there. -/
theorem position_notes {env : RenderEnv} {call : List Instruction → RenderM Flow} {i : Instruction}
    {flow : Flow} {s t : RenderState} (h : env.runInstruction call i s = .ok flow t) :
    ∀ pos ∈ i.notes?, t.position = some pos := by
  intro pos hpos
  cases i with
  | position noted =>
    cases h
    exact congrArg some (Option.some.inj hpos)
  | _ => cases hpos

/-- The code of a juncture is a part of some body of the program, and the state is at the position
before the code, if there is one. -/
structure Juncture.Stands (program : Program) (j : Juncture) : Prop where
  points : ∃ body ∈ Checker.bodiesOf program,
    ∀ x ∈ j.code.points j.noted, x ∈ bodyPoints none body
  position : ∀ pos ∈ j.noted, j.state.position = some pos

/-- So it is wherever a run goes on. -/
theorem GoesOn.stands {env : RenderEnv} {j j' : Juncture} (h : GoesOn env j j')
    (hstands : j.Stands env.program) : j'.Stands env.program := by
  obtain ⟨⟨body, hbody, hpoints⟩, hposition⟩ := hstands
  have hpart {n : Nat} {code : Code} {q : Option Pos} {s : RenderState}
      (hsub : ∀ x ∈ code.points q, x ∈ j.code.points j.noted)
      (hq : ∀ pos ∈ q, s.position = some pos) : (Juncture.mk n code q s).Stands env.program :=
    ⟨⟨body, hbody, fun x hx => hpoints x (hsub x hx)⟩, hq⟩
  cases h with
  | behind runs => exact hpart (fun x hx => List.mem_append_right _ hx) (position_notes runs)
  | choose => exact hpart (fun x hx => List.mem_append_left _ hx) hposition
  | switch =>
    exact hpart (fun x hx => List.mem_append_left _
      (List.mem_cons_of_mem _ (mem_armPoints_body hx))) nofun
  | loop => exact hpart (fun x hx => List.mem_append_left _ (List.mem_append_right _ hx)) nofun
  | mixin found => exact ⟨⟨_, mem_bodiesOf_mixin found, fun _ hx => hx⟩, nofun⟩
  | block found => exact ⟨⟨_, mem_bodiesOf_block found, fun _ hx => hx⟩, nofun⟩
  | taken =>
    exact hpart (fun x hx => List.mem_append_left _
      (List.mem_cons_of_mem _ (List.mem_append_left _ hx))) nofun
  | refused runs =>
    obtain rfl := steady_eval _ _ _ _ runs
    refine hpart (fun x hx => ?_) hposition
    rcases List.mem_append.1 hx with hx | hx
    · exact List.mem_append_left _ (List.mem_cons_of_mem _ (List.mem_append_right _ hx))
    · exact List.mem_append_right _ hx
  | otherwise => exact hpart (fun x hx => List.mem_append_right _ hx) nofun
  | skip => exact hpart (fun x hx => List.mem_append_right _ hx) nofun
  | arm => exact hpart (fun x hx => List.mem_append_left _ hx) nofun
  | nextArm => exact hpart (fun x hx => List.mem_append_right _ hx) nofun
  | iteration | nextIteration | outOfBounds => exact hpart (fun x hx => hx) nofun

/-- So it is in a whole run. -/
theorem stands_of_run {env : RenderEnv} {globals : Table Value} {j : Juncture}
    (h : Relation.ReflTransGen (GoesOn env) (env.start globals) j) :
    j.Stands env.program := by
  induction h with
  | refl => exact ⟨⟨_, List.mem_cons_self, fun _ hx => hx⟩, nofun⟩
  | tail _ hgoes ih => exact hgoes.stands ih

/-! ## The theorem -/

/-- The steps of a body that is written stand at the positions where those of its tokens are
reported. -/
theorem WrittenIn.share {env : DraftEnv} {tokens : List Nat} {shares : List Share}
    {body : List Instruction} (h : WrittenIn env tokens shares body) {step : Step} {q : Option Pos}
    (hmem : (step, q) ∈ bodyPoints none body) :
    ∃ share ∈ shares, step ∈ share.steps ∧ q = some share.pos := by
  rw [h.points] at hmem
  obtain ⟨share, hshare, hpoint⟩ := List.mem_flatMap.1 hmem
  obtain ⟨step', hstep, heq⟩ := List.mem_map.1 hpoint
  obtain ⟨rfl, rfl⟩ := Prod.mk.inj heq
  exact ⟨share, hshare, hstep, rfl⟩

/-- A failure in an evaluation is that of a step to which the rendering leads. The step is part of
the share that a token has in a body of the program, and the failure points at the position before
the step, where the steps of the token are reported. -/
theorem renderWith_reported (tokens : List Token) (files : Files) (made : Generated)
    (hmade : generate tokens files .builtin true = .ok made) (t : Template)
    (bundled : Option (List String)) (ht : t.program = { made.program with bundled })
    (bindings : Value) (toolbox : Toolbox) (e : Error)
    (herror : t.renderWith bindings toolbox = .error e) (hcause : e.cause.isEvaluation = true) :
    ∃ sites globals j step body shares share,
      blockSites TagRegistry.builtin.kinds tokens = .ok sites ∧
      Template.globalsOf bindings = .ok globals ∧
      Relation.ReflTransGen (GoesOn ⟨t.program, t.files, toolbox⟩)
        (RenderEnv.start ⟨t.program, t.files, toolbox⟩ globals) j ∧
      step ∈ j.code.made ∧ step.Fails ⟨t.program, t.files, toolbox⟩ j.state e ∧
      body ∈ Checker.bodiesOf t.program ∧
      (∀ x ∈ j.code.points j.noted, x ∈ bodyPoints none body) ∧
      (builtinGenerator tokens files true sites).Writes shares body ∧
      share ∈ shares ∧ share.Sound (builtinEnv tokens files true sites) ∧ step ∈ share.steps ∧
      j.noted = some share.pos ∧ e = .near e.cause t.files (some share.pos) := by
  obtain ⟨sites, hsites, _⟩ := (generate_settles tokens files true).get hmade
  rw [generate_eq hsites] at hmade
  have hwritten := Generator.generate_writes ⟨rfl, rfl⟩ rfl hmade
  have hbodies : Checker.bodiesOf t.program = Checker.bodiesOf made.program := by
    rw [ht]
    rfl
  rcases Template.error_of_renderWith herror with ⟨kind, _, hkind⟩ | ⟨globals, s, hglobals, hrun⟩
  · rw [hkind] at hcause
    cases hcause
  · obtain ⟨j, step, hgoes, hstep, hfails⟩ := run_traced globals e s hrun hcause
    obtain ⟨⟨body, hbody, hpoints⟩, hposition⟩ := stands_of_run hgoes
    obtain ⟨shares, hwrites⟩ := hwritten body (hbodies ▸ hbody)
    have ⟨_, _, _, _, _, hshares⟩ := hwrites
    obtain ⟨share, hshare, hmem, hnoted⟩ :=
      hshares.share (hpoints _ (Code.mem_points hstep hfails.evaluates))
    refine ⟨sites, globals, j, step, body, shares, share, hsites, hglobals, hgoes, hstep, hfails,
      hbody, hpoints, hwrites, hshare, hshares.sound share hshare, hmem, hnoted, ?_⟩
    rw [← hposition share.pos hnoted]
    exact hfails.near

/-- The template of a program, with the built-in filters. -/
def Generated.templateOf (made : Generated) (files : Files) : Template :=
  ⟨made.program, files, default, false⟩

/-- How a template fails to render that is made of some tokens. -/
def failureOf (tokens : List Token) (files : Files) (bindings : Value) : Option Error :=
  match generate tokens files .builtin true with
  | .ok made =>
    match (made.templateOf files).render bindings with
    | .error e => some e
    | .ok _ => none
  | .error _ => none

theorem failureOf_eq_some {tokens : List Token} {files : Files} {bindings : Value} {e : Error}
    (h : failureOf tokens files bindings = some e) :
    ∃ made, generate tokens files .builtin true = .ok made ∧
      (made.templateOf files).render bindings = .error e := by
  unfold failureOf at h
  split at h
  · next made hmade =>
    split at h
    · next e' he =>
      cases h
      exact ⟨made, hmade, he⟩
    · cases h
  · cases h

/-- A mixin that is called before it is defined, and reads a variable on the second line. -/
def calledFirst : List Token :=
  [tagAt 0 "+m" "" "\x7b% +m %\x7d", .raw "\n" ⟨stringFile, 8⟩,
    tagAt 9 "mixin" "m" "\x7b% mixin m %\x7d",
    .object "x" [] "\x7b\x7b x \x7d\x7d" ⟨stringFile, 22⟩,
    tagAt 29 "endmixin" "" "\x7b% endmixin %\x7d"]

/-- The text of some tokens as a template without files. -/
def sourceFile (tokens : List Token) : Files := .ofList [(stringFile, sourceOf tokens)]

theorem renderWith_reported_calledFirst :
    let files := sourceFile calledFirst
    ∃ (made : Generated) (e : Error) (share : Share),
      generate calledFirst files .builtin true = .ok made ∧
      (made.templateOf files).render .undefined = .error e ∧
      e.cause = .undefinedVariable "x" ∧ e = .near e.cause files (some share.pos) ∧
      e = .near e.cause files (some ⟨stringFile, 22⟩) := by
  intro files
  have hfailure : failureOf calledFirst files .undefined =
      some (.near (.undefinedVariable "x") files (some ⟨stringFile, 22⟩)) := by decide +kernel
  obtain ⟨made, hmade, herror⟩ := failureOf_eq_some hfailure
  obtain ⟨_, _, _, _, _, _, share, _, _, _, _, _, _, _, _, _, _, _, _, hpoints⟩ :=
    renderWith_reported calledFirst files made hmade (made.templateOf files) made.program.bundled
      rfl .undefined default _ herror rfl
  exact ⟨made, _, share, hmade, herror, rfl, hpoints, rfl⟩

/-- The condition of the second branch, on the second line, reads a variable. -/
def elseIfBelow : List Token :=
  [tagAt 0 "if" "a" "\x7b% if a %\x7d", .raw "\n" ⟨stringFile, 10⟩,
    tagAt 11 "elseif" "missing" "\x7b% elseif missing %\x7d", .raw "x" ⟨stringFile, 31⟩,
    tagAt 32 "endif" "" "\x7b% endif %\x7d"]

/-- A condition that fails on the second line is reported on the first one, where its block
opens. -/
theorem elseIf_reported_above :
    let files := sourceFile elseIfBelow
    ∃ made e, generate elseIfBelow files .builtin true = .ok made ∧
      (made.templateOf files).render (.map [(.str "a", .bool false)]) = .error e ∧
      e.cause = .undefinedVariable "missing" ∧
      elseIfBelow[2]? = some (tagAt 11 "elseif" "missing" "\x7b% elseif missing %\x7d") ∧
      e ≠ .near e.cause files (some ⟨stringFile, 11⟩) ∧
      e = .near e.cause files (some ⟨stringFile, 0⟩) := by
  intro files
  have hfailure : failureOf elseIfBelow files (.map [(.str "a", .bool false)]) =
      some (.near (.undefinedVariable "missing") files (some ⟨stringFile, 0⟩)) := by decide +kernel
  obtain ⟨made, hmade, herror⟩ := failureOf_eq_some hfailure
  exact ⟨made, _, hmade, herror, rfl, rfl, by decide +kernel, rfl⟩

end Stencil
