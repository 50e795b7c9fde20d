import Stencil.Proofs.Generation.Unmarked
import Stencil.Proofs.Render.Template

/-!
# Rendering without positions

A position only tells where an error is. `Unplaced` compares two steps: from a state without a
position the second one gives what the first one gives from the same state with one, less positions
and excerpts.

* `unplaced_body`, `unplaced_run`: a program and the program without positions are such steps.
* `Checker.verdict_body`: they are checked alike, too.
* `generate_erases_positions`: so positions are there for excerpts and for nothing else.
-/

namespace Stencil

/-! ## Steps -/

/-- The error without an excerpt. -/
def Error.bare (e : Error) : Error := ⟨e.cause, none⟩

/-- The state without a position. -/
def RenderState.unplaced (s : RenderState) : RenderState := { s with position := none }

/-- The result without positions and excerpts. -/
def unplacedResult {α : Type} :
    EStateM.Result Error RenderState α → EStateM.Result Error RenderState α
  | .ok a s => .ok a s.unplaced
  | .error e s => .error e.bare s.unplaced

/-- Storing does not depend on the position. -/
theorem unplaced_store (s : RenderState) (name : String) (v : Value) (declares : Bool) :
    s.unplaced.store name v declares = (s.store name v declares).unplaced := by
  have hdeclare : s.unplaced.declare name v = (s.declare name v).unplaced := by
    obtain ⟨globals, frames⟩ := s
    cases frames <;> rfl
  have hassign : s.unplaced.assign name v = (s.assign name v).unplaced := by
    unfold RenderState.assign
    rw [hdeclare, show s.unplaced.frames = s.frames from rfl,
      show s.unplaced.globals = s.globals from rfl]
    split
    · rfl
    · split <;> rfl
  unfold RenderState.store
  split
  · exact hdeclare
  · exact hassign

/-- Without a position, the second step does what the first does. -/
def Unplaced {α : Type} (x y : RenderM α) : Prop := ∀ s, y s.unplaced = unplacedResult (x s)

namespace Unplaced

variable {α β γ : Type} {x y : RenderM α} {k l : α → RenderM β}

theorem pure (a : α) : Unplaced (pure a) (pure a) := fun _ => rfl

theorem bind (hx : Unplaced x y) (hk : ∀ a, Unplaced (k a) (l a)) :
    Unplaced (x >>= k) (y >>= l) := by
  intro s
  show EStateM.bind y l s.unplaced = unplacedResult (EStateM.bind x k s)
  unfold EStateM.bind
  rw [hx s]
  cases x s with
  | ok a t => exact hk a t
  | error e t => rfl

/-- What is made of the state must not depend on its position. -/
theorem get {k l : RenderState → RenderM β} (h : ∀ s, Unplaced (k s) (l s.unplaced)) :
    Unplaced (MonadState.get >>= k) (MonadState.get >>= l) := fun s => h s s

theorem modify {f : RenderState → RenderState} (h : ∀ s, f s.unplaced = (f s).unplaced) :
    Unplaced (modify f) (modify f) := fun s => congrArg (EStateM.Result.ok PUnit.unit) (h s)

theorem within (frame : Table Value) (h : Unplaced x y) :
    Unplaced (RenderM.within frame x) (RenderM.within frame y) := by
  intro s
  unfold RenderM.within
  rw [show ({ s.unplaced with frames := frame :: s.unplaced.frames } : RenderState) =
    RenderState.unplaced { s with frames := frame :: s.frames } from rfl, h]
  cases x { s with frames := frame :: s.frames } <;> rfl

theorem called (h : Unplaced x y) : Unplaced (RenderM.called x) (RenderM.called y) := by
  intro s
  unfold RenderM.called
  rw [show ({ s.unplaced with depth := s.unplaced.depth + 1 } : RenderState) =
    RenderState.unplaced { s with depth := s.depth + 1 } from rfl, h]
  cases x { s with depth := s.depth + 1 } <;> rfl

theorem mapM {f g : γ → RenderM α} (h : ∀ c, Unplaced (f c) (g c)) (cs : List γ) :
    Unplaced (cs.mapM f) (cs.mapM g) := by
  induction cs with
  | nil => exact pure []
  | cons c cs ih =>
    rw [List.mapM_cons, List.mapM_cons]
    exact (h c).bind fun a => ih.bind fun as => pure _

theorem foldlM {f g : α → γ → RenderM α} (h : ∀ a c, Unplaced (f a c) (g a c)) (a : α)
    (cs : List γ) : Unplaced (cs.foldlM f a) (cs.foldlM g a) := by
  induction cs generalizing a with
  | nil => exact pure a
  | cons c cs ih =>
    rw [List.foldlM_cons, List.foldlM_cons]
    exact (h a c).bind ih

theorem forIn {f g : γ → β → RenderM (ForInStep β)} (h : ∀ c b, Unplaced (f c b) (g c b))
    (cs : List γ) (b : β) : Unplaced (forIn cs b f) (forIn cs b g) := by
  induction cs generalizing b with
  | nil => exact pure b
  | cons c cs ih =>
    rw [List.forIn_cons, List.forIn_cons]
    refine (h c b).bind fun step => ?_
    cases step with
    | done b => exact pure b
    | yield b => exact ih b

end Unplaced

/-! ## Evaluating -/

/-- The same rendering of the program without positions. -/
def RenderEnv.unmarked (env : RenderEnv) : RenderEnv := { env with program := env.program.unmarked }

section

variable (env : RenderEnv)

theorem unplaced_fail {α : Type} (cause : Cause) :
    Unplaced (env.fail cause : RenderM α) (env.unmarked.fail cause) := fun _ => rfl

theorem unplaced_evaluate (expression : String) :
    Unplaced (env.evaluate expression) (env.unmarked.evaluate expression) := by
  unfold RenderEnv.evaluate
  refine .get fun s => ?_
  rw [show env.unmarked.toolbox = env.toolbox from rfl,
    show s.unplaced.lookup = s.lookup from rfl]
  cases env.toolbox.evaluator.evaluate expression s.lookup with
  | ok v => exact .pure v
  | error reason => exact unplaced_fail env _

theorem unplaced_applyFilter (v : Value) (call : FilterCall) :
    Unplaced (env.applyFilter v call) (env.unmarked.applyFilter v call) := by
  unfold RenderEnv.applyFilter
  rw [show env.unmarked.toolbox = env.toolbox from rfl]
  cases env.toolbox.filters.get? call.name with
  | none => exact unplaced_fail env _
  | some filter =>
    refine .bind (.mapM (unplaced_evaluate env) call.args) fun args => ?_
    split
    · exact .pure _
    · exact unplaced_fail env _

theorem unplaced_eval (p : Pipeline) : Unplaced (env.eval p) (env.unmarked.eval p) := by
  unfold RenderEnv.eval
  refine .get fun s => ?_
  rw [show s.unplaced.lookup = s.lookup from rfl]
  cases p.needed.filter fun name => (s.lookup name).isNone with
  | some name => exact unplaced_fail env _
  | none =>
    exact .bind (unplaced_evaluate env p.base) fun v =>
      .foldlM (unplaced_applyFilter env) v p.filters

theorem unplaced_combine (op : AssignOp) (current v : Value) :
    Unplaced (env.combine op current v) (env.unmarked.combine op current v) := by
  unfold RenderEnv.combine
  split
  · exact .pure _
  · split
    · exact .pure _
    · split
      · exact .pure _
      · exact unplaced_fail env _
      · exact unplaced_fail env _

theorem unplaced_bound (p : Pipeline) : Unplaced (env.bound p) (env.unmarked.bound p) := by
  unfold RenderEnv.bound
  refine (unplaced_eval env p).bind fun v => ?_
  split
  · exact .pure _
  · exact unplaced_fail env _

theorem unplaced_entriesOf (iterable : Iterable) :
    Unplaced (env.entriesOf iterable) (env.unmarked.entriesOf iterable) := by
  cases iterable with
  | pipeline p =>
    refine (unplaced_eval env p).bind fun v => ?_
    unfold RenderEnv.entries
    split <;> first | exact .pure _ | exact unplaced_fail env _
  | range start stop =>
    exact (unplaced_bound env start).bind fun _ => (unplaced_bound env stop).bind fun _ => .pure _

theorem unplaced_anyEqual (subject : Value) (ps : List Pipeline) :
    Unplaced (env.anyEqual subject ps) (env.unmarked.anyEqual subject ps) := by
  induction ps with
  | nil => exact .pure _
  | cons p ps ih =>
    unfold RenderEnv.anyEqual
    refine (unplaced_eval env p).bind fun v => ?_
    split
    · exact .pure _
    · exact ih

theorem unplaced_firstArm (subject : Value) (arms : List Arm) :
    Unplaced (env.firstArm subject arms) (env.unmarked.firstArm subject (unmarkedArms arms)) := by
  have hmatching (index : Nat) : Unplaced (env.matchingArm subject index arms)
      (env.unmarked.matchingArm subject index (unmarkedArms arms)) := by
    induction arms generalizing index with
    | nil => exact .pure _
    | cons arm arms ih =>
      obtain ⟨label, body⟩ := arm
      cases label with
      | default => exact ih (index + 1)
      | values ps =>
        refine (unplaced_anyEqual env subject ps).bind fun equal => ?_
        split
        · exact .pure _
        · exact ih (index + 1)
  have hdefault : (unmarkedArms arms).findIdx? RenderEnv.isDefault =
      arms.findIdx? RenderEnv.isDefault := by
    rw [unmarkedArms_map, List.findIdx?_map]
    congr 1
    funext arm
    obtain ⟨label, body⟩ := arm
    cases label <;> rfl
  unfold RenderEnv.firstArm
  refine (hmatching 0).bind fun found => ?_
  cases found with
  | some index => exact .pure _
  | none => rw [hdefault]; exact .pure _

theorem unplaced_runScript (source : String) :
    Unplaced (env.runScript source) (env.unmarked.runScript source) := by
  unfold RenderEnv.runScript
  cases readScript source with
  | error fault => exact unplaced_fail env _
  | ok statements =>
    refine .bind (.forIn (fun statement _ => ?_) statements PUnit.unit) fun _ => .pure _
    exact (unplaced_evaluate env statement.value).bind fun v =>
      (Unplaced.modify fun s => unplaced_store s _ v _).bind fun _ => .pure _

theorem unplaced_iterate {runs : Nat → Bool} {step step' : Value × Value → RenderM Flow}
    (hstep : ∀ entry, Unplaced (step entry) (step' entry)) (index : Nat)
    (entries : List (Value × Value)) :
    Unplaced (RenderEnv.iterate runs step index entries)
      (RenderEnv.iterate runs step' index entries) := by
  induction entries generalizing index with
  | nil => exact .pure _
  | cons entry rest ih =>
    rw [RenderEnv.iterate, RenderEnv.iterate]
    split
    · refine (hstep entry).bind fun flow => ?_
      cases flow with
      | normal => exact ih (index + 1)
      | «break» => exact .pure _
      | «continue» => exact ih (index + 1)
    · exact ih (index + 1)

end

/-! ## Bodies -/

section

variable {env : RenderEnv} {call call' : List Instruction → RenderM Flow}

theorem unplaced_callMixin (hcall : ∀ body, Unplaced (call body) (call' (unmarkedBody body)))
    (name : String) (args : List Pipeline) :
    Unplaced (env.callMixin call name args) (env.unmarked.callMixin call' name args) := by
  have hmap : env.unmarked.program.mixins.get? name = _ :=
    Table.get?_map _ env.program.mixins name
  cases hmixin : env.program.mixins.get? name with
  | none =>
    rw [hmixin] at hmap
    rw [RenderEnv.callMixin_of_none hmixin, RenderEnv.callMixin_of_none hmap]
    exact unplaced_fail env _
  | some mixin =>
    rw [hmixin] at hmap
    rw [RenderEnv.callMixin_of_some hmixin, RenderEnv.callMixin_of_some hmap]
    refine .get fun s => ?_
    rw [show s.unplaced.depth = s.depth from rfl]
    split
    · exact unplaced_fail env _
    · exact (Unplaced.mapM (unplaced_eval env) args).bind fun values =>
        (Unplaced.called (.within _ (hcall mixin.body))).bind fun _ => .pure _

theorem unplaced_callBlock (hcall : ∀ body, Unplaced (call body) (call' (unmarkedBody body)))
    (name : String) : Unplaced (env.callBlock call name) (env.unmarked.callBlock call' name) := by
  unfold RenderEnv.callBlock
  rw [show env.unmarked.program.blocks.get? name = _ from Table.get?_map _ env.program.blocks name]
  cases env.program.blocks.get? name with
  | none => exact .pure _
  | some body => exact (Unplaced.within {} (hcall body)).bind fun _ => .pure _

mutual

/-- An instruction other than a position does the same without positions in its bodies. -/
theorem unplaced_instruction (hcall : ∀ body, Unplaced (call body) (call' (unmarkedBody body))) :
    ∀ i : Instruction, i.isPosition = false →
    Unplaced (env.runInstruction call i) (env.unmarked.runInstruction call' i.unmarked)
  | .position _, h => by cases h
  | .text text, _ => (Unplaced.modify (f := (·.write text)) fun _ => rfl).bind fun _ => .pure _
  | .emit p, _ => (unplaced_eval env p).bind fun v =>
      (Unplaced.modify (f := (·.write v.render)) fun _ => rfl).bind fun _ => .pure _
  | .assign name op p declares, _ =>
    (unplaced_eval env p).bind fun v => .get fun s => (unplaced_combine env op _ v).bind fun v =>
      (Unplaced.modify fun s => unplaced_store s name v declares).bind fun _ => .pure _
  | .capture name text declares, _ =>
    (Unplaced.modify fun s => unplaced_store s name _ declares).bind fun _ => .pure _
  | .choose branches otherwise, _ =>
    unplaced_branches hcall branches _ _ (unplaced_otherwise hcall otherwise)
  | .switch subject arms, _ => by
    refine (unplaced_eval env subject).bind fun v => (unplaced_firstArm env v arms).bind fun found => ?_
    cases found with
    | none => exact .pure _
    | some index => exact (Unplaced.within {} (unplaced_arms hcall index arms)).bind fun _ => .pure _
  | .loop binding iterable offset limit body, _ =>
    (unplaced_entriesOf env iterable).bind fun (entries, isMap) =>
      (unplaced_iterate (fun _ => .within _ (unplaced_body hcall body)) 0 entries).bind fun _ => .pure _
  | .break, _ => .pure _
  | .continue, _ => .pure _
  | .callMixin name args, _ => (unplaced_callMixin hcall name args).bind fun _ => .pure _
  | .callBlock name, _ => (unplaced_callBlock hcall name).bind fun _ => .pure _
  | .script source, _ => (unplaced_runScript env source).bind fun _ => .pure _
termination_by structural i => i

theorem unplaced_body (hcall : ∀ body, Unplaced (call body) (call' (unmarkedBody body))) :
    ∀ body : List Instruction,
    Unplaced (env.runBody call body) (env.unmarked.runBody call' (unmarkedBody body))
  | [] => .pure _
  | i :: is => by
    rw [unmarkedBody]
    cases hi : i.isPosition with
    | true =>
      -- A position is run, and does nothing that is left when positions are forgotten.
      cases i with
      | position pos => exact fun s => unplaced_body hcall is { s with position := some pos }
      | _ => cases hi
    | false =>
      refine (unplaced_instruction hcall i hi).bind fun flow => ?_
      cases flow with
      | normal => exact unplaced_body hcall is
      | «break» => exact .pure _
      | «continue» => exact .pure _
termination_by structural body => body

theorem unplaced_branches (hcall : ∀ body, Unplaced (call body) (call' (unmarkedBody body))) :
    ∀ (branches : List Branch) (x y : RenderM Flow), Unplaced x y →
    Unplaced (env.runBranches call branches x)
      (env.unmarked.runBranches call' (unmarkedBranches branches) y)
  | [], _, _, h => h
  | .mk condition negated body :: bs, x, y, h => by
    refine (unplaced_eval env condition).bind fun v => ?_
    split
    · exact .within {} (unplaced_body hcall body)
    · exact unplaced_branches hcall bs x y h
termination_by structural branches => branches

theorem unplaced_otherwise (hcall : ∀ body, Unplaced (call body) (call' (unmarkedBody body))) :
    ∀ otherwise : Option (List Instruction),
    Unplaced (env.runOtherwise call otherwise)
      (env.unmarked.runOtherwise call' (unmarkedOtherwise otherwise))
  | none => .pure _
  | some body => .within {} (unplaced_body hcall body)
termination_by structural otherwise => otherwise

theorem unplaced_arms (hcall : ∀ body, Unplaced (call body) (call' (unmarkedBody body))) :
    ∀ (skip : Nat) (arms : List Arm),
    Unplaced (env.runArms call skip arms) (env.unmarked.runArms call' skip (unmarkedArms arms))
  | skip, [] => by cases skip <;> exact .pure _
  | skip + 1, .mk _ _ :: arms => unplaced_arms hcall skip arms
  | 0, .mk _ body :: arms => by
    refine (unplaced_body hcall body).bind fun flow => ?_
    cases flow with
    | normal => exact unplaced_arms hcall 0 arms
    | «break» => exact .pure _
    | «continue» => exact .pure _
termination_by structural _ arms => arms

end

theorem unplaced_called (calls : Nat) (body : List Instruction) :
    Unplaced (env.runCalled calls body) (env.unmarked.runCalled calls (unmarkedBody body)) := by
  induction calls generalizing body with
  | zero => exact unplaced_fail env _
  | succ calls ih => exact unplaced_body ih body

/-- A program runs alike without positions. -/
theorem unplaced_run (env : RenderEnv) : Unplaced env.run env.unmarked.run := by
  have hbound : env.unmarked.callBound = env.callBound := by
    show (_ + 1) * ((Table.map _ env.program.blocks).size + 1) + 1 = _
    rw [Table.size_map]
    rfl
  unfold RenderEnv.run
  rw [hbound]
  exact unplaced_called _ _

end

/-! ## Checking -/

/-- What a check finds, less where it finds it. -/
def verdict {α : Type} (x : Except Error α) : Except Cause Unit :=
  (x.mapError Error.cause).map fun _ => ()

section

variable {α β γ δ : Type}

theorem verdict_bind {x : Except Error α} {y : Except Error β} {k : α → Except Error γ}
    {l : β → Except Error δ} (hx : verdict x = verdict y) (hk : ∀ a b, verdict (k a) = verdict (l b)) :
    verdict (x >>= k) = verdict (y >>= l) := by
  cases x with
  | ok a =>
    cases y with
    | ok b => exact hk a b
    | error e => cases hx
  | error e =>
    cases y with
    | ok b => cases hx
    | error e' =>
      have he : e.cause = e'.cause := Except.error.inj hx
      exact congrArg Except.error he

end

namespace Checker

variable (c : Checker)

theorem verdict_expressions (p q : Option Pos) (expressions : List String) :
    verdict (c.checkExpressions p expressions) = verdict (c.checkExpressions q expressions) := by
  unfold checkExpressions
  induction expressions with
  | nil => rfl
  | cons e es ih =>
    refine verdict_bind ?_ fun _ _ => ih
    unfold checkExpression
    split <;> rfl

theorem verdict_pipelines (p q : Option Pos) (ps : List Pipeline) :
    verdict (c.checkPipelines p ps) = verdict (c.checkPipelines q ps) :=
  verdict_expressions c p q _

theorem verdict_script (p q : Option Pos) (text : String) :
    verdict (c.checkScript p text) = verdict (c.checkScript q text) := by
  unfold checkScript
  split
  · rfl
  · exact verdict_expressions c p q _

mutual

theorem verdict_instruction : ∀ (i : Instruction) (p q : Option Pos),
    verdict (c.checkInstruction i.unmarked p) = verdict (c.checkInstruction i q)
  | .position _, _, _ => rfl
  | .text _, _, _ => rfl
  | .capture .., _, _ => rfl
  | .break, _, _ => rfl
  | .continue, _, _ => rfl
  | .callBlock _, _, _ => rfl
  | .emit pipeline, p, q => verdict_bind (verdict_pipelines c p q [pipeline]) fun _ _ => rfl
  | .assign _ _ pipeline _, p, q => verdict_bind (verdict_pipelines c p q [pipeline]) fun _ _ => rfl
  | .callMixin _ args, p, q => verdict_bind (verdict_pipelines c p q args) fun _ _ => rfl
  | .script text, p, q => verdict_bind (verdict_script c p q text) fun _ _ => rfl
  | .choose branches otherwise, p, q =>
    verdict_bind (verdict_branches branches p q) (verdict_otherwise otherwise)
  | .switch subject arms, p, q =>
    verdict_bind (verdict_pipelines c p q [subject]) fun _ _ => verdict_arms arms p q
  | .loop _ iterable _ _ body, p, q =>
    verdict_bind (verdict_pipelines c p q (pipelinesOf iterable)) fun _ _ => verdict_body body p q
termination_by structural i => i

/-- A body is accepted, or refused for one cause, with positions and without. -/
theorem verdict_body : ∀ (body : List Instruction) (p q : Option Pos),
    verdict (c.checkBody (unmarkedBody body) p) = verdict (c.checkBody body q)
  | [], _, _ => rfl
  | i :: is, p, q => by
    rw [unmarkedBody]
    cases hi : i.isPosition with
    | true =>
      cases i with
      | position pos => exact verdict_body is p (some pos)
      | _ => cases hi
    | false => exact verdict_bind (verdict_instruction i p q) (verdict_body is)
termination_by structural body => body

theorem verdict_branches : ∀ (branches : List Branch) (p q : Option Pos),
    verdict (c.checkBranches (unmarkedBranches branches) p) = verdict (c.checkBranches branches q)
  | [], _, _ => rfl
  | .mk condition _ body :: bs, p, q =>
    verdict_bind (verdict_pipelines c p q [condition]) fun _ _ =>
      verdict_bind (verdict_body body p q) (verdict_branches bs)
termination_by structural branches => branches

theorem verdict_otherwise : ∀ (otherwise : Option (List Instruction)) (p q : Option Pos),
    verdict (c.checkOtherwise (unmarkedOtherwise otherwise) p) =
      verdict (c.checkOtherwise otherwise q)
  | none, _, _ => rfl
  | some body, p, q => verdict_body body p q
termination_by structural otherwise => otherwise

theorem verdict_arms : ∀ (arms : List Arm) (p q : Option Pos),
    verdict (c.checkArms (unmarkedArms arms) p) = verdict (c.checkArms arms q)
  | [], _, _ => rfl
  | .mk label body :: arms, p, q =>
    verdict_bind (verdict_pipelines c p q (labelPipelines label)) fun _ _ =>
      verdict_bind (verdict_body body p q) (verdict_arms arms)
termination_by structural arms => arms

end

theorem bodiesOf_unmarked (program : Program) :
    bodiesOf program.unmarked = (bodiesOf program).map unmarkedBody := by
  simp [bodiesOf, Program.unmarked, Table.values_map, Function.comp_def]

theorem verdict_bodies (bodies : List (List Instruction)) :
    verdict (c.checkBodies (bodies.map unmarkedBody)) = verdict (c.checkBodies bodies) := by
  have hfold (p q : Option Pos) :
      verdict ((bodies.map unmarkedBody).foldlM (fun position body => c.checkBody body position) p) =
        verdict (bodies.foldlM (fun position body => c.checkBody body position) q) := by
    induction bodies generalizing p q with
    | nil => rfl
    | cons body bodies ih =>
      rw [List.map_cons, List.foldlM_cons, List.foldlM_cons]
      exact verdict_bind (verdict_body c body p q) ih
  exact verdict_bind (hfold none none) fun _ _ => rfl

end Checker

/-! ## Templates -/

namespace Template

theorem written_unplaced (r : EStateM.Result Error RenderState Flow) :
    (written (unplacedResult r)).mapError Error.cause = (written r).mapError Error.cause := by
  cases r <;> rfl

/-- Rendering a template without positions differs in excerpts only. -/
theorem renderWith_unmarked (t : Template) (bindings : Value) (toolbox : Toolbox) :
    (({ t with program := t.program.unmarked } : Template).renderWith bindings toolbox).mapError
        Error.cause = (t.renderWith bindings toolbox).mapError Error.cause := by
  rw [renderWith_eq, renderWith_eq]
  cases globalsOf bindings with
  | error e => rw [Except.bind, Except.bind]
  | ok globals =>
    have hrun : RenderEnv.run ⟨t.program.unmarked, t.files, toolbox⟩ { globals } =
        unplacedResult (RenderEnv.run ⟨t.program, t.files, toolbox⟩ { globals }) :=
      unplaced_run ⟨t.program, t.files, toolbox⟩ { globals }
    rw [Except.bind, Except.bind, hrun, written_unplaced]

/-- A program is accepted with positions and without. -/
theorem produce_unmarked_iff (program : Program) (files : Files) (chosen : Option Toolbox) :
    (∃ t, produce program.unmarked files chosen = .ok t) ↔
      ∃ t, produce program files chosen = .ok t := by
  have hchecked := Checker.verdict_bodies ⟨(chosen.getD default).evaluator, files⟩
    (Checker.bodiesOf program)
  rw [← Checker.bodiesOf_unmarked] at hchecked
  rw [produce_eq, produce_eq]
  generalize Checker.checkBodies _ (Checker.bodiesOf program.unmarked) = x at hchecked ⊢
  generalize Checker.checkBodies _ (Checker.bodiesOf program) = y at hchecked ⊢
  cases x <;> cases y
  case error.ok | ok.error => cases hchecked
  all_goals simp [Except.map]

/-- A program without positions is refused or rendered as it is with them. -/
theorem produce_unmarked (program : Program) (files : Files) (chosen : Option Toolbox)
    (bindings : Value) (toolbox : Toolbox) :
    (do
      let t ← produce program.unmarked files chosen
      t.renderWith bindings toolbox).mapError Error.cause =
    (do
      let t ← produce program files chosen
      t.renderWith bindings toolbox).mapError Error.cause := by
  have hchecked := Checker.verdict_bodies ⟨(chosen.getD default).evaluator, files⟩
    (Checker.bodiesOf program)
  rw [← Checker.bodiesOf_unmarked] at hchecked
  rw [produce_eq, produce_eq]
  generalize Checker.checkBodies _ (Checker.bodiesOf program.unmarked) = x at hchecked ⊢
  generalize Checker.checkBodies _ (Checker.bodiesOf program) = y at hchecked ⊢
  cases x <;> cases y
  case error.error => exact congrArg Except.error (Except.error.inj hchecked)
  case ok.ok =>
    exact renderWith_unmarked ⟨program, files, chosen.getD default, chosen.isSome⟩ bindings toolbox
  all_goals cases hchecked

end Template

/-- Positions are kept for excerpts. Without them a program is made of the same tokens, less the
positions, or it fails alike; and it is refused for the same cause, renders the same text, or fails
for the same cause, whatever the bindings and the toolbox. -/
theorem generate_erases_positions (tokens : List Token) (files : Files) :
    generate tokens files .builtin false =
        (generate tokens files .builtin true).map Generated.unmarked ∧
      ∀ (made : Generated) (chosen : Option Toolbox) (bindings : Value) (toolbox : Toolbox),
        (do
          let t ← Template.produce made.unmarked.program files chosen
          t.renderWith bindings toolbox).mapError Error.cause =
        (do
          let t ← Template.produce made.program files chosen
          t.renderWith bindings toolbox).mapError Error.cause :=
  ⟨unmarked_generate tokens files, fun made chosen bindings toolbox =>
    Template.produce_unmarked made.program files chosen bindings toolbox⟩

end Stencil
