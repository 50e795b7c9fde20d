import Stencil.Proofs.Render.Paired

/-!
# Two renderings that do the same

`Same P n x y` says that two steps do the same when `n` calls of mixins are open: they give the same
result, as many calls are open behind them, and if they fail the cause satisfies `P`.

* `same_eval`: a pipeline has one value with two toolboxes that agree on its filters.
* `same_body`: a body does the same in two renderings of a program, if its pipelines have the same
  values and the bodies that it calls do the same (`Corresponds`).
-/

namespace Stencil

/-! ## Steps -/

/-- How a step ends that begins when `n` calls of mixins are open. -/
def Closing {α : Type} (P : Cause → Prop) (n : Nat) : EStateM.Result Error RenderState α → Prop
  | .ok _ s => s.depth = n
  | .error e _ => P e.cause

/-- The steps do the same when `n` calls of mixins are open. -/
def Same {α : Type} (P : Cause → Prop) (n : Nat) (x y : RenderM α) : Prop :=
  ∀ s, s.depth = n → x s = y s ∧ Closing P n (x s)

namespace Same

variable {α β γ : Type} {P : Cause → Prop} {n : Nat} {x y : RenderM α} {k l : α → RenderM β}

theorem pure (a : α) : Same P n (pure a) (pure a) := fun _ h => ⟨rfl, h⟩

theorem bind (hx : Same P n x y) (hk : ∀ a, Same P n (k a) (l a)) :
    Same P n (x >>= k) (y >>= l) := by
  intro s hs
  show EStateM.bind x k s = EStateM.bind y l s ∧ Closing P n (EStateM.bind x k s)
  unfold EStateM.bind
  obtain ⟨heq, hclosing⟩ := hx s hs
  rw [← heq]
  cases hr : x s with
  | ok a t =>
    rw [hr] at hclosing
    exact hk a t hclosing
  | error e t =>
    rw [hr] at hclosing
    exact ⟨rfl, hclosing⟩

theorem get {k l : RenderState → RenderM β} (h : ∀ s, s.depth = n → Same P n (k s) (l s)) :
    Same P n (MonadState.get >>= k) (MonadState.get >>= l) := fun s hs => h s hs s hs

theorem modify {f : RenderState → RenderState} (h : ∀ s, (f s).depth = s.depth) :
    Same P n (modify f) (modify f) := fun s hs => ⟨rfl, (h s).trans hs⟩

theorem fail {env env' : RenderEnv} {cause : Cause} (hfiles : env'.files = env.files)
    (h : P cause) : Same P n (env.fail cause : RenderM α) (env'.fail cause) := by
  intro s _
  unfold RenderEnv.fail
  rw [hfiles]
  exact ⟨rfl, h⟩

theorem within (frame : Table Value) (h : Same P n x y) :
    Same P n (RenderM.within frame x) (RenderM.within frame y) := by
  intro s hs
  unfold RenderM.within
  obtain ⟨heq, hclosing⟩ := h { s with frames := frame :: s.frames } hs
  rw [← heq]
  refine ⟨rfl, ?_⟩
  cases hr : x { s with frames := frame :: s.frames } with
  | ok a t =>
    rw [hr] at hclosing
    exact hclosing
  | error e t =>
    rw [hr] at hclosing
    exact hclosing

/-- One more call of a mixin is open while its body runs. -/
theorem called (h : Same P (n + 1) x y) : Same P n (RenderM.called x) (RenderM.called y) := by
  intro s hs
  unfold RenderM.called
  obtain ⟨heq, hclosing⟩ := h { s with depth := s.depth + 1 } (by rw [← hs])
  rw [← heq]
  refine ⟨rfl, ?_⟩
  cases hr : x { s with depth := s.depth + 1 } with
  | ok a t =>
    rw [hr] at hclosing
    show t.depth - 1 = n
    rw [show t.depth = n + 1 from hclosing]
    rfl
  | error e t =>
    rw [hr] at hclosing
    exact hclosing

theorem mapM {f g : γ → RenderM α} (h : ∀ c, Same P n (f c) (g c)) (cs : List γ) :
    Same P n (cs.mapM f) (cs.mapM g) := by
  induction cs with
  | nil => exact pure []
  | cons c cs ih =>
    rw [List.mapM_cons, List.mapM_cons]
    exact (h c).bind fun a => ih.bind fun as => pure _

theorem foldlM {f g : α → γ → RenderM α} {cs : List γ} (h : ∀ a, ∀ c ∈ cs, Same P n (f a c) (g a c))
    (a : α) : Same P n (cs.foldlM f a) (cs.foldlM g a) := by
  induction cs generalizing a with
  | nil => exact pure a
  | cons c cs ih =>
    rw [List.foldlM_cons, List.foldlM_cons]
    exact (h a c List.mem_cons_self).bind
      (ih fun a c hc => h a c (List.mem_cons_of_mem _ hc))

theorem forIn {f g : γ → β → RenderM (ForInStep β)} (h : ∀ c b, Same P n (f c b) (g c b))
    (cs : List γ) (b : β) : Same P n (forIn cs b f) (forIn cs b g) := by
  induction cs generalizing b with
  | nil => exact pure b
  | cons c cs ih =>
    rw [List.forIn_cons, List.forIn_cons]
    refine (h c b).bind fun step => ?_
    cases step with
    | done b => exact pure b
    | yield b => exact ih b

end Same

/-! ## Values -/

theorem RenderState.depth_store (s : RenderState) (name : String) (v : Value) (declares : Bool) :
    (s.store name v declares).depth = s.depth := by
  have hdeclare : (s.declare name v).depth = s.depth := by
    unfold declare
    split <;> rfl
  unfold store assign
  split
  · exact hdeclare
  · split
    · rfl
    · split
      · rfl
      · exact hdeclare

/-- Two renderings of the same mixins and blocks, with one evaluator. -/
structure Similar (env env' : RenderEnv) : Prop where
  files : env'.files = env.files
  evaluator : env'.toolbox.evaluator = env.toolbox.evaluator
  mixins : env'.program.mixins = env.program.mixins
  blocks : env'.program.blocks = env.program.blocks

section

variable {P : Cause → Prop} {n : Nat} {env env' : RenderEnv}

theorem same_evaluate (hP : ∀ c, c ≠ .endlessBlocks → P c) (h : Similar env env')
    (expression : String) : Same P n (env.evaluate expression) (env'.evaluate expression) := by
  unfold RenderEnv.evaluate
  refine .get fun s _ => ?_
  rw [h.evaluator]
  split
  · exact .pure _
  · exact .fail h.files (hP _ nofun)

theorem same_applyFilter (hP : ∀ c, c ≠ .endlessBlocks → P c) (h : Similar env env') (v : Value)
    {call : FilterCall}
    (hcall : env'.toolbox.filters.get? call.name = env.toolbox.filters.get? call.name) :
    Same P n (env.applyFilter v call) (env'.applyFilter v call) := by
  unfold RenderEnv.applyFilter
  rw [hcall]
  split
  · exact .fail h.files (hP _ nofun)
  · refine .bind (.mapM (same_evaluate hP h) call.args) fun args => ?_
    split
    · exact .pure _
    · exact .fail h.files (hP _ nofun)

/-- A pipeline has the same value in both renderings. -/
theorem same_eval (hP : ∀ c, c ≠ .endlessBlocks → P c) (h : Similar env env') {p : Pipeline}
    (hp : SameFilters env env' p) : Same P n (env.eval p) (env'.eval p) := by
  unfold RenderEnv.eval
  refine .get fun s _ => ?_
  split
  · exact .fail h.files (hP _ nofun)
  · exact .bind (same_evaluate hP h p.base) fun v =>
      .foldlM (fun v call hcall => same_applyFilter hP h v (hp call hcall)) v

theorem same_evals (hP : ∀ c, c ≠ .endlessBlocks → P c) (h : Similar env env') {ps : List Pipeline}
    (hps : ∀ p ∈ ps, SameFilters env env' p) : Same P n (ps.mapM env.eval) (ps.mapM env'.eval) := by
  induction ps with
  | nil => exact .pure []
  | cons p ps ih =>
    rw [List.mapM_cons, List.mapM_cons]
    exact (same_eval hP h (hps p List.mem_cons_self)).bind fun v =>
      (ih fun q hq => hps q (List.mem_cons_of_mem _ hq)).bind fun vs => .pure _

theorem same_combine (hP : ∀ c, c ≠ .endlessBlocks → P c) (h : Similar env env') (op : AssignOp)
    (current v : Value) : Same P n (env.combine op current v) (env'.combine op current v) := by
  unfold RenderEnv.combine
  split
  · exact .pure _
  · split
    · exact .pure _
    · split
      · exact .pure _
      · exact .fail h.files (hP _ nofun)
      · exact .fail h.files (hP _ nofun)

theorem same_runScript (hP : ∀ c, c ≠ .endlessBlocks → P c) (h : Similar env env')
    (source : String) : Same P n (env.runScript source) (env'.runScript source) := by
  unfold RenderEnv.runScript
  split
  · exact .fail h.files (hP _ nofun)
  · next statements _ =>
    refine .bind (.forIn (fun statement _ => ?_) statements PUnit.unit) fun _ => .pure _
    exact (same_evaluate hP h statement.value).bind fun v =>
      (Same.modify fun s => s.depth_store _ v _).bind fun _ => .pure _

theorem same_bound (hP : ∀ c, c ≠ .endlessBlocks → P c) (h : Similar env env') {p : Pipeline}
    (hp : SameFilters env env' p) : Same P n (env.bound p) (env'.bound p) := by
  unfold RenderEnv.bound
  refine (same_eval hP h hp).bind fun v => ?_
  split
  · exact .pure _
  · exact .fail h.files (hP _ nofun)

theorem same_entriesOf (hP : ∀ c, c ≠ .endlessBlocks → P c) (h : Similar env env')
    {iterable : Iterable} (hps : ∀ p ∈ Checker.pipelinesOf iterable, SameFilters env env' p) :
    Same P n (env.entriesOf iterable) (env'.entriesOf iterable) := by
  cases iterable with
  | pipeline p =>
    refine (same_eval hP h (hps p List.mem_cons_self)).bind fun v => ?_
    unfold RenderEnv.entries
    split <;> first | exact .pure _ | exact .fail h.files (hP _ nofun)
  | range start stop =>
    exact (same_bound hP h (hps start List.mem_cons_self)).bind fun _ =>
      (same_bound hP h (hps stop (List.mem_cons_of_mem _ List.mem_cons_self))).bind fun _ =>
        .pure _

theorem same_anyEqual (hP : ∀ c, c ≠ .endlessBlocks → P c) (h : Similar env env') (subject : Value)
    {ps : List Pipeline} (hps : ∀ p ∈ ps, SameFilters env env' p) :
    Same P n (env.anyEqual subject ps) (env'.anyEqual subject ps) := by
  induction ps with
  | nil => exact .pure _
  | cons p ps ih =>
    unfold RenderEnv.anyEqual
    refine (same_eval hP h (hps p List.mem_cons_self)).bind fun v => ?_
    split
    · exact .pure _
    · exact ih fun q hq => hps q (List.mem_cons_of_mem _ hq)

theorem same_firstArm (hP : ∀ c, c ≠ .endlessBlocks → P c) (h : Similar env env') (subject : Value)
    {arms : List Arm}
    (hps : ∀ arm ∈ arms, ∀ p ∈ Checker.labelPipelines arm.label, SameFilters env env' p) :
    Same P n (env.firstArm subject arms) (env'.firstArm subject arms) := by
  have hmatching (index : Nat) :
      Same P n (env.matchingArm subject index arms) (env'.matchingArm subject index arms) := by
    induction arms generalizing index with
    | nil => exact .pure _
    | cons arm arms ih =>
      have hrest := ih fun other hother => hps other (List.mem_cons_of_mem _ hother)
      obtain ⟨label, body⟩ := arm
      cases label with
      | default => exact hrest (index + 1)
      | values ps =>
        refine (same_anyEqual hP h subject (hps _ List.mem_cons_self)).bind fun equal => ?_
        split
        · exact .pure _
        · exact hrest (index + 1)
  unfold RenderEnv.firstArm
  refine (hmatching 0).bind fun found => ?_
  split <;> exact .pure _

theorem same_iterate {runs : Nat → Bool} {step step' : Value × Value → RenderM Flow}
    (hstep : ∀ entry, Same P n (step entry) (step' entry)) (index : Nat)
    (entries : List (Value × Value)) :
    Same P n (RenderEnv.iterate runs step index entries)
      (RenderEnv.iterate runs step' index entries) := by
  induction entries generalizing index with
  | nil => exact .pure _
  | cons entry rest ih =>
    rw [RenderEnv.iterate, RenderEnv.iterate]
    split
    · refine (hstep entry).bind fun flow => ?_
      cases flow with
      | normal => exact ih (index + 1)
      | «break» => exact .pure _
      | «continue» => exact ih (index + 1)
    · exact ih (index + 1)

end

/-! ## Bodies -/

/-- An instruction has the same filters in both renderings, and the body that it calls does the
same. -/
structure Corresponds (P : Cause → Prop) (n : Nat) (env env' : RenderEnv)
    (call call' : List Instruction → RenderM Flow) (x : Instruction) : Prop where
  filters : ∀ p ∈ x.pipelines, SameFilters env env' p
  mixin : ∀ name args mixin, x = .callMixin name args →
    env.program.mixins.get? name = some mixin → n < maxMixinDepth →
    Same P (n + 1) (call mixin.body) (call' mixin.body)
  block : ∀ name body, x = .callBlock name → env.program.blocks.get? name = some body →
    Same P n (call body) (call' body)

section

variable {P : Cause → Prop} {n : Nat} {env env' : RenderEnv}
  {call call' : List Instruction → RenderM Flow}

theorem same_callMixin (hP : ∀ c, c ≠ .endlessBlocks → P c) (h : Similar env env') {name : String}
    {args : List Pipeline} (hsame : Corresponds P n env env' call call' (.callMixin name args)) :
    Same P n (env.callMixin call name args) (env'.callMixin call' name args) := by
  cases hmixin : env.program.mixins.get? name with
  | none =>
    rw [RenderEnv.callMixin_of_none hmixin, RenderEnv.callMixin_of_none (h.mixins ▸ hmixin)]
    exact .fail h.files (hP _ nofun)
  | some mixin =>
    rw [RenderEnv.callMixin_of_some hmixin, RenderEnv.callMixin_of_some (h.mixins ▸ hmixin)]
    refine .get fun s hs => ?_
    split
    · exact .fail h.files (hP (.recursionLimit maxMixinDepth) nofun)
    · next hdepth =>
      have hbody := hsame.mixin name args mixin rfl hmixin (by omega)
      exact (same_evals hP h hsame.filters).bind fun values =>
        (Same.called (.within _ hbody)).bind fun _ => .pure _

theorem same_callBlock (h : Similar env env') {name : String}
    (hsame : Corresponds P n env env' call call' (.callBlock name)) :
    Same P n (env.callBlock call name) (env'.callBlock call' name) := by
  unfold RenderEnv.callBlock
  rw [h.blocks]
  cases hblock : env.program.blocks.get? name with
  | none => exact .pure _
  | some body => exact (Same.within {} (hsame.block name body rfl hblock)).bind fun _ => .pure _

mutual

theorem same_instruction (hP : ∀ c, c ≠ .endlessBlocks → P c) (h : Similar env env') :
    ∀ i : Instruction, (∀ x, Occurs x [i] → Corresponds P n env env' call call' x) →
    Same P n (env.runInstruction call i) (env'.runInstruction call' i)
  | .position pos, _ =>
    (Same.modify (f := fun s => { s with position := some pos }) fun _ => rfl).bind fun _ => .pure _
  | .text text, _ => (Same.modify (f := (·.write text)) fun _ => rfl).bind fun _ => .pure _
  | .emit p, hsame =>
    (same_eval hP h ((hsame _ (.here List.mem_cons_self)).filters p List.mem_cons_self)).bind
      fun v => (Same.modify (f := (·.write v.render)) fun _ => rfl).bind fun _ => .pure _
  | .assign name op p declares, hsame =>
    (same_eval hP h ((hsame _ (.here List.mem_cons_self)).filters p List.mem_cons_self)).bind
      fun v => .get fun s _ => (same_combine hP h op _ v).bind fun v =>
        (Same.modify fun s => s.depth_store name v declares).bind fun _ => .pure _
  | .capture name text declares, _ =>
    (Same.modify fun s => s.depth_store name (.str text) declares).bind fun _ => .pure _
  | .choose branches otherwise, hsame => by
    have hinner (inner : List Instruction)
        (hmem : inner ∈ (Instruction.choose branches otherwise).bodies) (x : Instruction)
        (hx : Occurs x inner) : Corresponds P n env env' call call' x :=
      hsame x (.inside List.mem_cons_self hmem hx)
    refine same_branches hP h branches _ _ (hsame _ (.here List.mem_cons_self)).filters
      (fun inner hmem => hinner inner (List.mem_append_left _ hmem)) ?_
    exact same_otherwise hP h otherwise fun inner hmem =>
      hinner inner (List.mem_append_right _ (hmem ▸ List.mem_cons_self))
  | .switch subject arms, hsame => by
    have hfilters := (hsame _ (.here List.mem_cons_self)).filters
    refine (same_eval hP h (hfilters subject List.mem_cons_self)).bind fun v => ?_
    refine (same_firstArm hP h v fun arm harm p hp => hfilters p ?_).bind fun found => ?_
    · exact List.mem_cons_of_mem _ (List.mem_flatMap.2 ⟨arm, harm, by cases arm; exact hp⟩)
    · cases found with
      | none => exact .pure _
      | some index =>
        refine (Same.within {} (same_arms hP h index arms fun inner hmem x hx => ?_)).bind
          fun _ => .pure _
        exact hsame x (.inside List.mem_cons_self hmem hx)
  | .loop binding iterable offset limit body, hsame =>
    (same_entriesOf hP h (hsame _ (.here List.mem_cons_self)).filters).bind
      fun (entries, isMap) =>
        (same_iterate (fun _ => .within _ (same_body hP h body fun x hx =>
          hsame x (.inside List.mem_cons_self List.mem_cons_self hx))) 0 entries).bind
            fun _ => .pure _
  | .break, _ => .pure _
  | .continue, _ => .pure _
  | .callMixin name args, hsame =>
    (same_callMixin hP h (hsame _ (.here List.mem_cons_self))).bind fun _ => .pure _
  | .callBlock name, hsame =>
    (same_callBlock h (hsame _ (.here List.mem_cons_self))).bind fun _ => .pure _
  | .script source, _ => (same_runScript hP h source).bind fun _ => .pure _
termination_by structural i => i

/-- A body does the same in both renderings if all its instructions do. -/
theorem same_body (hP : ∀ c, c ≠ .endlessBlocks → P c) (h : Similar env env') :
    ∀ body : List Instruction, (∀ x, Occurs x body → Corresponds P n env env' call call' x) →
    Same P n (env.runBody call body) (env'.runBody call' body)
  | [], _ => .pure _
  | i :: is, hsame => by
    have hfirst : ∀ x, Occurs x [i] → Corresponds P n env env' call call' x := fun x hx =>
      hsame x (hx.mono fun y hy => List.mem_singleton.1 hy ▸ List.mem_cons_self)
    refine (same_instruction hP h i hfirst).bind fun flow => ?_
    cases flow with
    | normal =>
      exact same_body hP h is fun x hx => hsame x (hx.mono fun y hy => List.mem_cons_of_mem _ hy)
    | «break» => exact .pure _
    | «continue» => exact .pure _
termination_by structural body => body

theorem same_branches (hP : ∀ c, c ≠ .endlessBlocks → P c) (h : Similar env env') :
    ∀ (branches : List Branch) (x y : RenderM Flow),
    (∀ p ∈ branches.map (fun | .mk p _ _ => p), SameFilters env env' p) →
    (∀ inner ∈ branches.map (fun | .mk _ _ body => body), ∀ x, Occurs x inner →
      Corresponds P n env env' call call' x) → Same P n x y →
    Same P n (env.runBranches call branches x) (env'.runBranches call' branches y)
  | [], _, _, _, _, hxy => hxy
  | .mk condition negated body :: bs, x, y, hps, hsame, hxy => by
    refine (same_eval hP h (hps condition List.mem_cons_self)).bind fun v => ?_
    split
    · exact .within {} (same_body hP h body (hsame body List.mem_cons_self))
    · exact same_branches hP h bs x y (fun p hp => hps p (List.mem_cons_of_mem _ hp))
        (fun inner hmem => hsame inner (List.mem_cons_of_mem _ hmem)) hxy
termination_by structural branches => branches

theorem same_otherwise (hP : ∀ c, c ≠ .endlessBlocks → P c) (h : Similar env env') :
    ∀ otherwise : Option (List Instruction),
    (∀ inner, otherwise = some inner → ∀ x, Occurs x inner → Corresponds P n env env' call call' x) →
    Same P n (env.runOtherwise call otherwise) (env'.runOtherwise call' otherwise)
  | none, _ => .pure _
  | some body, hsame => .within {} (same_body hP h body (hsame body rfl))
termination_by structural otherwise => otherwise

theorem same_arms (hP : ∀ c, c ≠ .endlessBlocks → P c) (h : Similar env env') :
    ∀ (skip : Nat) (arms : List Arm),
    (∀ inner ∈ arms.map (fun | .mk _ body => body), ∀ x, Occurs x inner →
      Corresponds P n env env' call call' x) →
    Same P n (env.runArms call skip arms) (env'.runArms call' skip arms)
  | skip, [], _ => by cases skip <;> exact .pure _
  | skip + 1, .mk _ _ :: arms, hsame =>
    same_arms hP h skip arms fun inner hmem => hsame inner (List.mem_cons_of_mem _ hmem)
  | 0, .mk _ body :: arms, hsame => by
    refine (same_body hP h body (hsame body List.mem_cons_self)).bind fun flow => ?_
    cases flow with
    | normal =>
      exact same_arms hP h 0 arms fun inner hmem => hsame inner (List.mem_cons_of_mem _ hmem)
    | «break» => exact .pure _
    | «continue» => exact .pure _
termination_by structural _ arms => arms

end

end

end Stencil
