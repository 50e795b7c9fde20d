import Stencil.Proofs.Generation.Steps
import Stencil.Render.Run

/-!
# What renderings keep to

A rendering fails for want of a variable, of a filter or of a mixin only at a step that names what is
missing. A contract says for which of these the rendering may fail, and what is known of the globals
all the while.

* `Step.Meets`: what a step names is there, or may be missing.
* `obeys_body`: a body obeys the contract if all its steps meet it.
* `obeys_run`: so does a program.
-/

namespace Stencil

/-- Something is not there that has a name. -/
def Cause.isMissing : Cause → Bool
  | undefinedVariable _ | unknownFilter _ | unknownMixin _ => true
  | _ => false

/-- What is known of the globals during a rendering, and for which causes it may fail: for all those
that do not name what is missing, at least. -/
structure Contract where
  globals : Table Value → Prop
  failure : Cause → Prop
  insert : ∀ {t : Table Value}, globals t → ∀ name v, globals (t.insert name v)
  other : ∀ {cause : Cause}, cause.isMissing = false → failure cause

/-- The pipelines that a step evaluates. -/
def Step.pipelines : Step → List Pipeline
  | run i => i.pipelines
  | head p => [p]

/-- The variable and the filters of a pipeline are there, or may be missing. -/
structure Pipeline.Meets (env : RenderEnv) (c : Contract) (p : Pipeline) : Prop where
  needed : ∀ name, p.needed = some name → ∀ s : RenderState, c.globals s.globals →
    (s.lookup name).isNone = true → c.failure (.undefinedVariable name)
  filters : ∀ call ∈ p.filters, env.toolbox.filters.get? call.name = none →
    c.failure (.unknownFilter call.name)

/-- So are those of the pipelines of a step, and the mixin that it calls. -/
structure Step.Meets (env : RenderEnv) (c : Contract) (e : Step) : Prop where
  pipelines : ∀ p ∈ e.pipelines, p.Meets env c
  mixin : ∀ name args, e = .run (.callMixin name args) →
    env.program.mixins.get? name = none → c.failure (.unknownMixin name)

/-! ## Outcomes -/

/-- What is known of the globals is still known, or the failure is one that may happen. -/
def Contract.Ends {α : Type} (c : Contract) : EStateM.Result Error RenderState α → Prop
  | .ok _ s => c.globals s.globals
  | .error e _ => c.failure e.cause

def Obeys {α : Type} (c : Contract) (x : RenderM α) : Prop :=
  ∀ s, c.globals s.globals → c.Ends (x s)

section

variable {α β γ : Type} {c : Contract} {x : RenderM α}

theorem Contract.store {s : RenderState} (h : c.globals s.globals) (name : String) (v : Value)
    (declares : Bool) : c.globals (s.store name v declares).globals := by
  have hdeclare : c.globals (s.declare name v).globals := by
    unfold RenderState.declare
    split
    · exact c.insert h name v
    · exact h
  unfold RenderState.store RenderState.assign
  split
  · exact hdeclare
  · split
    · exact h
    · split
      · exact c.insert h name v
      · exact hdeclare

namespace Obeys

theorem pure (a : α) : Obeys c (pure a) := fun _ h => h

theorem bind {k : α → RenderM β} (hx : Obeys c x) (hk : ∀ a, Obeys c (k a)) : Obeys c (x >>= k) := by
  intro s hs
  show c.Ends (EStateM.bind x k s)
  unfold EStateM.bind
  have hends := hx s hs
  cases hr : x s with
  | ok a t =>
    rw [hr] at hends
    exact hk a t hends
  | error e t =>
    rw [hr] at hends
    exact hends

theorem get {k : RenderState → RenderM β} (h : ∀ s, c.globals s.globals → Obeys c (k s)) :
    Obeys c (MonadState.get >>= k) := fun s hs => h s hs s hs

theorem modify {f : RenderState → RenderState}
    (h : ∀ s, c.globals s.globals → c.globals (f s).globals) : Obeys c (modify f) :=
  fun s hs => h s hs

theorem fail {env : RenderEnv} {cause : Cause} (h : c.failure cause) :
    Obeys c (env.fail cause : RenderM α) := fun _ _ => h

/-- Only the frames differ inside. -/
theorem within (frame : Table Value) (h : Obeys c x) : Obeys c (RenderM.within frame x) := by
  intro s hs
  have hends := h { s with frames := frame :: s.frames } hs
  unfold RenderM.within
  cases hr : x { s with frames := frame :: s.frames } with
  | ok a t =>
    rw [hr] at hends
    exact hends
  | error e t =>
    rw [hr] at hends
    exact hends

theorem called (h : Obeys c x) : Obeys c (RenderM.called x) := by
  intro s hs
  have hends := h { s with depth := s.depth + 1 } hs
  unfold RenderM.called
  cases hr : x { s with depth := s.depth + 1 } with
  | ok a t =>
    rw [hr] at hends
    exact hends
  | error e t =>
    rw [hr] at hends
    exact hends

theorem mapM {f : γ → RenderM α} {as : List γ} (h : ∀ a ∈ as, Obeys c (f a)) :
    Obeys c (as.mapM f) := by
  induction as with
  | nil => exact pure []
  | cons a as ih =>
    rw [List.mapM_cons]
    refine (h a List.mem_cons_self).bind fun b => ?_
    exact (ih fun d hd => h d (List.mem_cons_of_mem _ hd)).bind fun bs => pure _

theorem foldlM {f : α → γ → RenderM α} {as : List γ} (h : ∀ b, ∀ a ∈ as, Obeys c (f b a)) (b : α) :
    Obeys c (as.foldlM f b) := by
  induction as generalizing b with
  | nil => exact pure b
  | cons a as ih =>
    rw [List.foldlM_cons]
    exact (h b a List.mem_cons_self).bind (ih fun b d hd => h b d (List.mem_cons_of_mem _ hd))

theorem forIn {f : γ → β → RenderM (ForInStep β)} (h : ∀ a b, Obeys c (f a b)) (as : List γ)
    (b : β) : Obeys c (forIn as b f) := by
  induction as generalizing b with
  | nil => exact pure b
  | cons a as ih =>
    rw [List.forIn_cons]
    refine (h a b).bind fun step => ?_
    cases step with
    | done b => exact pure b
    | yield b => exact ih b

end Obeys

end

/-! ## Values -/

section

variable {c : Contract} {env : RenderEnv}

theorem obeys_evaluate (expression : String) : Obeys c (env.evaluate expression) := by
  unfold RenderEnv.evaluate
  refine .get fun s _ => ?_
  split
  · exact .pure _
  · exact .fail (c.other rfl)

theorem obeys_applyFilter (v : Value) {call : FilterCall}
    (hcall : env.toolbox.filters.get? call.name = none → c.failure (.unknownFilter call.name)) :
    Obeys c (env.applyFilter v call) := by
  unfold RenderEnv.applyFilter
  split
  · next hnone => exact .fail (hcall hnone)
  · refine (Obeys.mapM fun x _ => obeys_evaluate x).bind fun args => ?_
    split
    · exact .pure _
    · exact .fail (c.other rfl)

theorem obeys_eval {p : Pipeline} (hp : p.Meets env c) : Obeys c (env.eval p) := by
  unfold RenderEnv.eval
  refine .get fun s hs => ?_
  split
  · next name hmissing =>
    obtain ⟨hneeded, hnone⟩ := Option.filter_eq_some_iff.1 hmissing
    exact .fail (hp.needed name hneeded s hs hnone)
  · refine (obeys_evaluate p.base).bind fun v => ?_
    exact .foldlM (fun v call hcall => obeys_applyFilter v (hp.filters call hcall)) v

theorem obeys_combine (op : AssignOp) (current v : Value) : Obeys c (env.combine op current v) := by
  unfold RenderEnv.combine
  split
  · exact .pure _
  · split
    · exact .pure _
    · split
      · exact .pure _
      · exact .fail (c.other rfl)
      · exact .fail (c.other rfl)

theorem obeys_runScript (source : String) : Obeys c (env.runScript source) := by
  unfold RenderEnv.runScript
  split
  · exact .fail (c.other rfl)
  · next statements _ =>
    refine (Obeys.forIn (fun statement _ => ?_) statements PUnit.unit).bind fun _ => .pure _
    refine (obeys_evaluate statement.value).bind fun v => ?_
    exact (Obeys.modify fun s hs => c.store hs _ v _).bind fun _ => .pure _

theorem obeys_bound {p : Pipeline} (hp : p.Meets env c) : Obeys c (env.bound p) := by
  unfold RenderEnv.bound
  refine (obeys_eval hp).bind fun v => ?_
  split
  · exact .pure _
  · exact .fail (c.other rfl)

theorem obeys_entriesOf {iterable : Iterable}
    (hps : ∀ p ∈ Checker.pipelinesOf iterable, p.Meets env c) : Obeys c (env.entriesOf iterable) := by
  cases iterable with
  | pipeline p =>
    refine (obeys_eval (hps p List.mem_cons_self)).bind fun v => ?_
    unfold RenderEnv.entries
    split <;> first | exact .pure _ | exact .fail (c.other rfl)
  | range start stop =>
    refine (obeys_bound (hps start List.mem_cons_self)).bind fun _ => ?_
    refine (obeys_bound (hps stop ?_)).bind fun _ => .pure _
    exact List.mem_cons_of_mem _ List.mem_cons_self

theorem obeys_anyEqual (subject : Value) {ps : List Pipeline} (hps : ∀ p ∈ ps, p.Meets env c) :
    Obeys c (env.anyEqual subject ps) := by
  induction ps with
  | nil => exact .pure _
  | cons p ps ih =>
    unfold RenderEnv.anyEqual
    refine (obeys_eval (hps p List.mem_cons_self)).bind fun v => ?_
    split
    · exact .pure _
    · exact ih fun q hq => hps q (List.mem_cons_of_mem _ hq)

theorem obeys_firstArm (subject : Value) {arms : List Arm} {σ : Scope}
    (h : ∀ e ∈ armSteps σ arms, e.1.Meets env c) : Obeys c (env.firstArm subject arms) := by
  have hmatching (index : Nat) : Obeys c (env.matchingArm subject index arms) := by
    induction arms generalizing index σ with
    | nil => exact .pure _
    | cons arm arms ih =>
      obtain ⟨label, body⟩ := arm
      rw [armSteps, List.forall_mem_append, List.forall_mem_append] at h
      have hrest := ih h.2.2
      cases label with
      | default => exact hrest (index + 1)
      | values ps =>
        have hps : ∀ p ∈ ps, p.Meets env c := by
          intro p hp
          exact (h.1 (.head p, σ) (List.mem_map_of_mem hp)).pipelines p List.mem_cons_self
        refine (obeys_anyEqual subject hps).bind fun equal => ?_
        split
        · exact .pure _
        · exact hrest (index + 1)
  unfold RenderEnv.firstArm
  refine (hmatching 0).bind fun found => ?_
  split <;> exact .pure _

theorem obeys_iterate {runs : Nat → Bool} {step : Value × Value → RenderM Flow}
    (hstep : ∀ entry, Obeys c (step entry)) (index : Nat) (entries : List (Value × Value)) :
    Obeys c (RenderEnv.iterate runs step index entries) := by
  induction entries generalizing index with
  | nil => exact .pure _
  | cons entry rest ih =>
    rw [RenderEnv.iterate]
    split
    · refine (hstep entry).bind fun flow => ?_
      cases flow with
      | normal => exact ih (index + 1)
      | «break» => exact .pure _
      | «continue» => exact ih (index + 1)
    · exact ih (index + 1)

/-! ## Bodies -/

/-- The bodies of mixins and blocks obey the contract. -/
structure CallsObey (c : Contract) (env : RenderEnv) (call : List Instruction → RenderM Flow) :
    Prop where
  mixin : ∀ name mixin, env.program.mixins.get? name = some mixin → Obeys c (call mixin.body)
  block : ∀ name body, env.program.blocks.get? name = some body → Obeys c (call body)

variable {call : List Instruction → RenderM Flow}

theorem obeys_callMixin (hcall : CallsObey c env call) {name : String} {args : List Pipeline}
    (h : (Step.run (.callMixin name args)).Meets env c) : Obeys c (env.callMixin call name args) := by
  cases hmixin : env.program.mixins.get? name with
  | none =>
    rw [RenderEnv.callMixin_of_none hmixin]
    exact .fail (h.mixin name args rfl hmixin)
  | some mixin =>
    rw [RenderEnv.callMixin_of_some hmixin]
    have hargs : Obeys c (args.mapM env.eval) := .mapM fun p hp => obeys_eval (h.pipelines p hp)
    have hbody := hcall.mixin name mixin hmixin
    refine .get fun s _ => ?_
    split
    · exact .fail (c.other rfl)
    · exact hargs.bind fun values => (Obeys.called (.within _ hbody)).bind fun _ => .pure _

theorem obeys_callBlock (hcall : CallsObey c env call) (name : String) :
    Obeys c (env.callBlock call name) := by
  unfold RenderEnv.callBlock
  cases hblock : env.program.blocks.get? name with
  | none => exact .pure _
  | some body => exact (Obeys.within {} (hcall.block name body hblock)).bind fun _ => .pure _

mutual

theorem obeys_instruction (hcall : CallsObey c env call) :
    ∀ (i : Instruction) (σ : Scope), (∀ e ∈ instructionSteps σ i, e.1.Meets env c) →
    Obeys c (env.runInstruction call i)
  | .position pos, _, _ =>
    (Obeys.modify (f := fun s => { s with position := some pos }) fun s hs => hs).bind
      fun _ => .pure _
  | .text text, _, _ => (Obeys.modify (f := (·.write text)) fun s hs => hs).bind fun _ => .pure _
  | .emit p, σ, h =>
    have hp := (h (.run (.emit p), σ) List.mem_cons_self).pipelines p List.mem_cons_self
    (obeys_eval hp).bind fun v =>
      (Obeys.modify (f := (·.write v.render)) fun s hs => hs).bind fun _ => .pure _
  | .assign name op p declares, σ, h => by
    have hstep := h (.run (.assign name op p declares), σ) List.mem_cons_self
    refine (obeys_eval (hstep.pipelines p List.mem_cons_self)).bind fun v => .get fun s _ => ?_
    refine (obeys_combine op _ v).bind fun v => ?_
    exact (Obeys.modify fun s hs => c.store hs name v declares).bind fun _ => .pure _
  | .capture name text declares, _, _ =>
    (Obeys.modify fun s hs => c.store hs name (.str text) declares).bind fun _ => .pure _
  | .choose branches otherwise, σ, h => by
    rw [instructionSteps, List.forall_mem_append] at h
    exact obeys_branches hcall branches σ σ _ h.1 (obeys_otherwise hcall otherwise σ h.2)
  | .switch subject arms, σ, h => by
    rw [instructionSteps, List.forall_mem_cons] at h
    refine (obeys_eval (h.1.pipelines subject List.mem_cons_self)).bind fun v => ?_
    refine (obeys_firstArm v h.2).bind fun found => ?_
    cases found with
    | none => exact .pure _
    | some index => exact (Obeys.within {} (obeys_arms hcall index arms _ h.2)).bind fun _ => .pure _
  | .loop binding iterable offset limit body, σ, h => by
    rw [instructionSteps, List.forall_mem_append] at h
    have hheads : ∀ p ∈ Checker.pipelinesOf iterable, p.Meets env c := by
      intro p hp
      exact (h.1 (.head p, σ) (List.mem_map_of_mem hp)).pipelines p List.mem_cons_self
    refine (obeys_entriesOf hheads).bind fun (entries, isMap) => ?_
    exact (obeys_iterate (fun _ => .within _ (obeys_body hcall body _ h.2)) 0 entries).bind
      fun _ => .pure _
  | .break, _, _ => .pure _
  | .continue, _, _ => .pure _
  | .callMixin name args, σ, h =>
    (obeys_callMixin hcall (h (.run (.callMixin name args), σ) List.mem_cons_self)).bind
      fun _ => .pure _
  | .callBlock name, _, _ => (obeys_callBlock hcall name).bind fun _ => .pure _
  | .script source, _, _ => (obeys_runScript source).bind fun _ => .pure _
termination_by structural i => i

/-- A body obeys the contract if all its steps meet it. -/
theorem obeys_body (hcall : CallsObey c env call) : ∀ (body : List Instruction) (σ : Scope),
    (∀ e ∈ bodySteps σ body, e.1.Meets env c) → Obeys c (env.runBody call body)
  | [], _, _ => .pure _
  | i :: is, σ, h => by
    rw [bodySteps, List.forall_mem_append] at h
    refine (obeys_instruction hcall i σ h.1).bind fun flow => ?_
    cases flow with
    | normal => exact obeys_body hcall is _ h.2
    | «break» => exact .pure _
    | «continue» => exact .pure _
termination_by structural body => body

theorem obeys_branches (hcall : CallsObey c env call) :
    ∀ (branches : List Branch) (σ τ : Scope) (otherwise : RenderM Flow),
    (∀ e ∈ branchSteps σ τ branches, e.1.Meets env c) → Obeys c otherwise →
    Obeys c (env.runBranches call branches otherwise)
  | [], _, _, _, _, hotherwise => hotherwise
  | .mk condition negated body :: bs, σ, τ, otherwise, h, hotherwise => by
    rw [branchSteps, List.forall_mem_cons, List.forall_mem_append] at h
    refine (obeys_eval (h.1.pipelines condition List.mem_cons_self)).bind fun v => ?_
    split
    · exact .within {} (obeys_body hcall body _ h.2.1)
    · exact obeys_branches hcall bs σ _ otherwise h.2.2 hotherwise
termination_by structural branches => branches

theorem obeys_otherwise (hcall : CallsObey c env call) :
    ∀ (otherwise : Option (List Instruction)) (σ : Scope),
    (∀ e ∈ otherwiseSteps σ otherwise, e.1.Meets env c) →
    Obeys c (env.runOtherwise call otherwise)
  | none, _, _ => .pure _
  | some body, _, h => .within {} (obeys_body hcall body _ h)
termination_by structural otherwise => otherwise

theorem obeys_arms (hcall : CallsObey c env call) :
    ∀ (skip : Nat) (arms : List Arm) (σ : Scope),
    (∀ e ∈ armSteps σ arms, e.1.Meets env c) → Obeys c (env.runArms call skip arms)
  | skip, [], _, _ => by cases skip <;> exact .pure _
  | skip + 1, .mk _ _ :: arms, σ, h => by
    rw [armSteps, List.forall_mem_append, List.forall_mem_append] at h
    exact obeys_arms hcall skip arms _ h.2.2
  | 0, .mk _ body :: arms, σ, h => by
    rw [armSteps, List.forall_mem_append, List.forall_mem_append] at h
    refine (obeys_body hcall body σ h.2.1).bind fun flow => ?_
    cases flow with
    | normal => exact obeys_arms hcall 0 arms _ h.2.2
    | «break» => exact .pure _
    | «continue» => exact .pure _
termination_by structural _ arms => arms

end

/-- A program obeys the contract if all its steps meet it. -/
theorem obeys_run (h : ∀ e ∈ env.program.steps, e.1.Meets env c) : Obeys c env.run := by
  rw [Program.steps, List.forall_mem_append, Program.calledSteps, List.forall_mem_append] at h
  obtain ⟨hmain, hmixins, hblocks⟩ := h
  have hcalled (calls : Nat) : CallsObey c env (env.runCalled calls) := by
    induction calls with
    | zero =>
      have hends : Obeys c (env.fail .endlessBlocks : RenderM Flow) := .fail (c.other rfl)
      exact ⟨fun _ _ _ => hends, fun _ _ _ => hends⟩
    | succ calls ih =>
      refine ⟨fun name mixin hmixin => ?_, fun name body hblock => ?_⟩
      · refine obeys_body ih mixin.body (env.program.scope.create.addAll mixin.params) ?_
        exact fun e he => hmixins e (List.mem_flatMap.2 ⟨_, Table.mem_of_get? hmixin, he⟩)
      · refine obeys_body ih body env.program.scope.create ?_
        exact fun e he => hblocks e (List.mem_flatMap.2 ⟨_, Table.mem_of_get? hblock, he⟩)
  exact obeys_body (hcalled _) env.program.body _ hmain

end

end Stencil
