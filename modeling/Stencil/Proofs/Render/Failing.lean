import Mathlib.Logic.Relation
import Stencil.Proofs.Generation.Points
import Stencil.Proofs.Render.Visits

/-!
# Where a run fails

A run fails in an evaluation only if it leads to a step that fails, and it fails as the step does:
at the position of the state there. `GoesOn` follows a run through the code of a program. A juncture
also tells which position stands right before the code that is left, whatever the position of the
state is.

* `Step.Fails.near`: the failure of a step is reported at the position of the state.
* `traced_body`: a body that fails in an evaluation leads to a step that fails.
* `run_traced`: so does a program.
-/

namespace Stencil

/-- An expression could not be evaluated, or its value could not be used. -/
def Cause.isEvaluation : Cause → Bool
  | undefinedVariable _ | notIterable _ | unknownFilter _ | filterFailed .. | evaluation .. => true
  | _ => false

/-- A step fails in a state: one of its expressions is not evaluated, or the value cannot be used.
The bodies that it calls are no part of it. -/
inductive Step.Fails (env : RenderEnv) (s : RenderState) (e : Error) : Step → Prop where
  | emit {p : Pipeline} {t : RenderState} (fails : env.eval p s = .error e t) :
      Fails env s e (.run (.emit p))
  | assign {name : String} {op : AssignOp} {p : Pipeline} {declares : Bool} {t : RenderState}
      (fails : env.eval p s = .error e t) : Fails env s e (.run (.assign name op p declares))
  | combine {name : String} {op : AssignOp} {p : Pipeline} {declares : Bool} {v : Value}
      {t : RenderState} (runs : env.eval p s = .ok v s)
      (fails : env.combine op ((s.lookup name).getD .undefined) v s = .error e t) :
      Fails env s e (.run (.assign name op p declares))
  | argument {name : String} {args : List Pipeline} {p : Pipeline} {t : RenderState}
      (mem : p ∈ args) (fails : env.eval p s = .error e t) :
      Fails env s e (.run (.callMixin name args))
  | script {source : String} {t : RenderState} (fails : env.runScript source s = .error e t) :
      Fails env s e (.run (.script source))
  | head {p : Pipeline} {t : RenderState} (fails : env.eval p s = .error e t) :
      Fails env s e (.head p)
  | entries {p : Pipeline} {v : Value} {t : RenderState} (runs : env.eval p s = .ok v s)
      (fails : env.entries p v s = .error e t) : Fails env s e (.head p)
  | bound {p : Pipeline} {t : RenderState} (fails : env.bound p s = .error e t) :
      Fails env s e (.head p)

/-! ## Failures are reported where they happen -/

theorem error_of_bindM {α β : Type} {x : RenderM α} {f : α → RenderM β} {s t : RenderState}
    {e : Error} (h : (x >>= f) s = .error e t) :
    x s = .error e t ∨ ∃ a u, x s = .ok a u ∧ f a u = .error e t := by
  have hbind : EStateM.bind x f s = .error e t := h
  unfold EStateM.bind at hbind
  split at hbind
  · next a u hx => exact .inr ⟨a, u, hx, hbind⟩
  · next e' u hx =>
    cases hbind
    exact .inl hx

/-- What is done leaves the position as it is, and fails at the position. -/
structure InPlace {α : Type} (env : RenderEnv) (x : RenderM α) : Prop where
  keeps : ∀ s a t, x s = .ok a t → t.position = s.position
  fails : ∀ s e t, x s = .error e t → e = .near e.cause env.files s.position

section

variable {α β γ : Type} {env : RenderEnv}

namespace InPlace

theorem pure (a : α) : InPlace env (pure a : RenderM α) where
  keeps s _ t ht := by cases ht; rfl
  fails s e t ht := by cases ht

theorem fail (cause : Cause) : InPlace env (env.fail cause : RenderM α) where
  keeps s _ t ht := by cases ht
  fails s e t ht := by cases ht; rfl

theorem bind {x : RenderM α} {f : α → RenderM β} (hx : InPlace env x)
    (hf : ∀ a, InPlace env (f a)) : InPlace env (x >>= f) where
  keeps s b t ht := by
    obtain ⟨a, u, hu, hrest⟩ := ok_of_bindM ht
    exact ((hf a).keeps u b t hrest).trans (hx.keeps s a u hu)
  fails s e t ht := by
    rcases error_of_bindM ht with hfails | ⟨a, u, hu, hrest⟩
    · exact hx.fails s e t hfails
    · rw [← hx.keeps s a u hu]
      exact (hf a).fails u e t hrest

theorem get {f : RenderState → RenderM β} (hf : ∀ s, InPlace env (f s)) :
    InPlace env (MonadState.get >>= f) where
  keeps s b t ht := (hf s).keeps s b t ht
  fails s e t ht := (hf s).fails s e t ht

theorem modify {f : RenderState → RenderState} (hf : ∀ s, (f s).position = s.position) :
    InPlace env (modify f) where
  keeps s _ t ht := by cases ht; exact hf s
  fails s e t ht := by cases ht

theorem mapM {f : γ → RenderM α} (hf : ∀ c, InPlace env (f c)) (cs : List γ) :
    InPlace env (cs.mapM f) := by
  induction cs with
  | nil => exact pure []
  | cons c cs ih =>
    rw [List.mapM_cons]
    exact (hf c).bind fun a => ih.bind fun as => pure _

theorem foldlM {f : α → γ → RenderM α} (hf : ∀ a c, InPlace env (f a c)) (a : α) (cs : List γ) :
    InPlace env (cs.foldlM f a) := by
  induction cs generalizing a with
  | nil => exact pure a
  | cons c cs ih =>
    rw [List.foldlM_cons]
    exact (hf a c).bind ih

theorem forIn {f : γ → β → RenderM (ForInStep β)} (hf : ∀ c b, InPlace env (f c b)) (cs : List γ)
    (b : β) : InPlace env (forIn cs b f) := by
  induction cs generalizing b with
  | nil => exact pure b
  | cons c cs ih =>
    rw [List.forIn_cons]
    refine (hf c b).bind fun step => ?_
    cases step with
    | done b => exact pure b
    | yield b => exact ih b

end InPlace

theorem inPlace_evaluate (expression : String) : InPlace env (env.evaluate expression) := by
  unfold RenderEnv.evaluate
  refine .get fun s => ?_
  split
  · exact .pure _
  · exact .fail _

theorem inPlace_applyFilter (v : Value) (call : FilterCall) :
    InPlace env (env.applyFilter v call) := by
  unfold RenderEnv.applyFilter
  split
  · exact .fail _
  · refine (InPlace.mapM inPlace_evaluate _).bind fun args => ?_
    split
    · exact .pure _
    · exact .fail _

theorem inPlace_eval (p : Pipeline) : InPlace env (env.eval p) := by
  unfold RenderEnv.eval
  refine .get fun s => ?_
  split
  · exact .fail _
  · exact (inPlace_evaluate _).bind fun v => .foldlM inPlace_applyFilter v _

theorem inPlace_combine (op : AssignOp) (current v : Value) :
    InPlace env (env.combine op current v) := by
  unfold RenderEnv.combine
  split
  · exact .pure _
  · split
    · exact .pure _
    · split
      · exact .pure _
      · exact .fail _
      · exact .fail _

theorem inPlace_entries (p : Pipeline) (v : Value) : InPlace env (env.entries p v) := by
  unfold RenderEnv.entries
  split <;> first | exact .pure _ | exact .fail _

theorem inPlace_bound (p : Pipeline) : InPlace env (env.bound p) := by
  unfold RenderEnv.bound
  refine (inPlace_eval p).bind fun v => ?_
  split
  · exact .pure _
  · exact .fail _

theorem position_store (s : RenderState) (name : String) (v : Value) (declares : Bool) :
    (s.store name v declares).position = s.position := by
  have hdeclare : (s.declare name v).position = s.position := by
    unfold RenderState.declare
    split <;> rfl
  unfold RenderState.store RenderState.assign
  split
  · exact hdeclare
  · split
    · rfl
    · split
      · rfl
      · exact hdeclare

theorem inPlace_runScript (source : String) : InPlace env (env.runScript source) := by
  unfold RenderEnv.runScript
  split
  · exact .fail _
  · next statements _ =>
    refine (InPlace.forIn (fun statement _ => ?_) statements PUnit.unit).bind fun _ => .pure _
    refine (inPlace_evaluate statement.value).bind fun v => ?_
    exact (InPlace.modify fun s => position_store s _ v _).bind fun _ => .pure _

/-- The failure of a step is reported at the position of the state. -/
theorem Step.Fails.near {step : Step} {s : RenderState} {e : Error} (h : step.Fails env s e) :
    e = .near e.cause env.files s.position := by
  cases h with
  | emit fails | assign fails | argument _ fails | head fails =>
    exact (inPlace_eval _).fails _ _ _ fails
  | combine _ fails => exact (inPlace_combine ..).fails _ _ _ fails
  | script fails => exact (inPlace_runScript _).fails _ _ _ fails
  | entries _ fails => exact (inPlace_entries ..).fails _ _ _ fails
  | bound fails => exact (inPlace_bound _).fails _ _ _ fails

end

/-! ## Junctures -/

/-- Where a run stands: how many calls it may still open, the code that is left, the position that
stands right before the code, and the state. -/
structure Juncture where
  room : Nat
  code : Code
  noted : Option Pos
  state : RenderState

/-- The start of a run. -/
def RenderEnv.start (env : RenderEnv) (globals : Table Value) : Juncture :=
  ⟨env.callBound - 1, .body env.program.body, none, { globals }⟩

/-- The steps that belong to an instruction itself, but for the conditions of branches, which are
evaluated when the branches are tried. -/
def Instruction.made : Instruction → List Step
  | choose .. => []
  | switch subject arms => .head subject ::
    (arms.flatMap fun | .mk label _ => Checker.labelPipelines label).map .head
  | loop _ iterable _ _ _ => (Checker.pipelinesOf iterable).map .head
  | i => [.run i]

/-- The steps that a run makes at some code, before it goes on. -/
def Code.made : Code → List Step
  | body (i :: _) => i.made
  | branches _ (.mk condition _ _ :: _) _ => [.head condition]
  | _ => []

/-- A run goes on from a juncture to another one. No position stands before a body that is entered;
the branches that are left stand where the refused ones did. -/
inductive GoesOn (env : RenderEnv) : Juncture → Juncture → Prop where
  | behind {n : Nat} {i : Instruction} {is : List Instruction} {q : Option Pos}
      {s t : RenderState} (runs : env.runInstruction (env.runCalled n) i s = .ok .normal t) :
      GoesOn env ⟨n, .body (i :: is), q, s⟩ ⟨n, .body is, i.notes?, t⟩
  | choose {n : Nat} {bs : List Branch} {otherwise : Option (List Instruction)}
      {is : List Instruction} {q : Option Pos} {s : RenderState} :
      GoesOn env ⟨n, .body (.choose bs otherwise :: is), q, s⟩
        ⟨n, .branches none bs otherwise, q, s⟩
  | switch {n : Nat} {p : Pipeline} {arms : List Arm} {is : List Instruction} {q : Option Pos}
      {s t u : RenderState} {v : Value} {index : Nat} (subject : env.eval p s = .ok v t)
      (first : env.firstArm v arms t = .ok (some index) u) :
      GoesOn env ⟨n, .body (.switch p arms :: is), q, s⟩
        ⟨n, .arms index arms, none, { u with frames := {} :: u.frames }⟩
  | loop {n : Nat} {binding : LoopBinding} {iterable : Iterable} {offset limit : Option Int}
      {body is : List Instruction} {q : Option Pos} {s t : RenderState}
      {entries : List (Value × Value)} {isMap : Bool}
      (runs : env.entriesOf iterable s = .ok (entries, isMap) t) :
      GoesOn env ⟨n, .body (.loop binding iterable offset limit body :: is), q, s⟩
        ⟨n, .iterations binding isMap offset limit body 0 entries, none, t⟩
  | mixin {n : Nat} {name : String} {args : List Pipeline} {is : List Instruction} {q : Option Pos}
      {s t : RenderState} {mixin : Mixin} {values : List Value}
      (found : env.program.mixins.get? name = some mixin)
      (runs : args.mapM env.eval s = .ok values t) :
      GoesOn env ⟨n + 1, .body (.callMixin name args :: is), q, s⟩
        ⟨n, .body mixin.body, none, { t with
          depth := t.depth + 1
          frames := .ofList (mixin.params.mapIdx fun i : Nat => fun param =>
            (param, values.getD i .undefined)) :: t.frames }⟩
  | block {n : Nat} {name : String} {body is : List Instruction} {q : Option Pos} {s : RenderState}
      (found : env.program.blocks.get? name = some body) :
      GoesOn env ⟨n + 1, .body (.callBlock name :: is), q, s⟩
        ⟨n, .body body, none, { s with frames := {} :: s.frames }⟩
  | taken {n : Nat} {before : Option Branch} {p : Pipeline} {negated : Bool}
      {body : List Instruction} {bs : List Branch} {otherwise : Option (List Instruction)}
      {q : Option Pos} {s t : RenderState} {v : Value} (runs : env.eval p s = .ok v t)
      (taken : (v.isTrue != negated) = true) :
      GoesOn env ⟨n, .branches before (.mk p negated body :: bs) otherwise, q, s⟩
        ⟨n, .body body, none, { t with frames := {} :: t.frames }⟩
  | refused {n : Nat} {before : Option Branch} {p : Pipeline} {negated : Bool}
      {body : List Instruction} {bs : List Branch} {otherwise : Option (List Instruction)}
      {q : Option Pos} {s t : RenderState} {v : Value} (runs : env.eval p s = .ok v t)
      (refused : (v.isTrue != negated) = false) :
      GoesOn env ⟨n, .branches before (.mk p negated body :: bs) otherwise, q, s⟩
        ⟨n, .branches (some (.mk p negated body)) bs otherwise, q, t⟩
  | otherwise {n : Nat} {before : Option Branch} {body : List Instruction} {q : Option Pos}
      {s : RenderState} :
      GoesOn env ⟨n, .branches before [] (some body), q, s⟩
        ⟨n, .body body, none, { s with frames := {} :: s.frames }⟩
  | skip {n skip : Nat} {arm : Arm} {arms : List Arm} {q : Option Pos} {s : RenderState} :
      GoesOn env ⟨n, .arms (skip + 1) (arm :: arms), q, s⟩ ⟨n, .arms skip arms, none, s⟩
  | arm {n : Nat} {arm : Arm} {arms : List Arm} {q : Option Pos} {s : RenderState} :
      GoesOn env ⟨n, .arms 0 (arm :: arms), q, s⟩ ⟨n, .body arm.body, none, s⟩
  | nextArm {n : Nat} {arm : Arm} {arms : List Arm} {q : Option Pos} {s t : RenderState}
      (runs : env.runBody (env.runCalled n) arm.body s = .ok .normal t) :
      GoesOn env ⟨n, .arms 0 (arm :: arms), q, s⟩ ⟨n, .arms 0 arms, none, t⟩
  | iteration {n : Nat} {binding : LoopBinding} {isMap : Bool} {offset limit : Option Int}
      {body : List Instruction} {index : Nat} {entry : Value × Value} {rest : List (Value × Value)}
      {q : Option Pos} {s : RenderState} (runs : RenderEnv.inBounds offset limit index = true) :
      GoesOn env ⟨n, .iterations binding isMap offset limit body index (entry :: rest), q, s⟩
        ⟨n, .body body, none,
          { s with frames := RenderEnv.frameOf binding entry.1 entry.2 isMap :: s.frames }⟩
  | nextIteration {n : Nat} {binding : LoopBinding} {isMap : Bool} {offset limit : Option Int}
      {body : List Instruction} {index : Nat} {entry : Value × Value} {rest : List (Value × Value)}
      {q : Option Pos} {s t : RenderState} {flow : Flow}
      (runs : RenderM.within (RenderEnv.frameOf binding entry.1 entry.2 isMap)
        (env.runBody (env.runCalled n) body) s = .ok flow t) (goes : flow ≠ .break) :
      GoesOn env ⟨n, .iterations binding isMap offset limit body index (entry :: rest), q, s⟩
        ⟨n, .iterations binding isMap offset limit body (index + 1) rest, none, t⟩
  | outOfBounds {n : Nat} {binding : LoopBinding} {isMap : Bool} {offset limit : Option Int}
      {body : List Instruction} {index : Nat} {entry : Value × Value} {rest : List (Value × Value)}
      {q : Option Pos} {s : RenderState} (out : RenderEnv.inBounds offset limit index = false) :
      GoesOn env ⟨n, .iterations binding isMap offset limit body index (entry :: rest), q, s⟩
        ⟨n, .iterations binding isMap offset limit body (index + 1) rest, none, s⟩

/-! ## What a failing run comes to -/

/-- If the outcome is a failure in an evaluation, a run leads from a juncture to a step that fails
with it. -/
def Traced {α : Type} (env : RenderEnv) (j : Juncture)
    (outcome : EStateM.Result Error RenderState α) : Prop :=
  ∀ e t, outcome = .error e t → e.cause.isEvaluation = true →
    ∃ j' step, Relation.ReflTransGen (GoesOn env) j j' ∧ step ∈ j'.code.made ∧
      step.Fails env j'.state e

section

variable {α β : Type} {env : RenderEnv} {j j' : Juncture} {s : RenderState}

namespace Traced

theorem ok {a : α} : Traced env j (.ok a s) := by
  intro e t h
  cases h

/-- A step that is made may fail. -/
theorem step {x : RenderM α} {step : Step} (hmem : step ∈ j.code.made)
    (h : ∀ e t, x s = .error e t → step.Fails env j.state e) : Traced env j (x s) :=
  fun e t hfails _ => ⟨j, step, .refl, hmem, h e t hfails⟩

theorem fail {cause : Cause} (h : cause.isEvaluation = false) :
    Traced env j ((env.fail cause : RenderM α) s) := by
  intro e t hfails hcause
  cases hfails
  exact absurd hcause (by rw [Error.near, h]; decide)

theorem bind {x : RenderM α} {f : α → RenderM β} (hx : Traced env j (x s))
    (hf : ∀ a u, x s = .ok a u → Traced env j (f a u)) :
    Traced env j ((x >>= f) s) := by
  intro e t hfails hcause
  rcases error_of_bindM hfails with hfails | ⟨a, u, hu, hrest⟩
  · exact hx e t hfails hcause
  · exact hf a u hu e t hrest hcause

/-- A run may go on first. -/
theorem later {outcome : EStateM.Result Error RenderState α} (h : Traced env j' outcome)
    (hgoes : GoesOn env j j') : Traced env j outcome := by
  intro e t hfails hcause
  obtain ⟨last, step, hrun, hstep⟩ := h e t hfails hcause
  exact ⟨last, step, .head hgoes hrun, hstep⟩

theorem within {frame : Table Value} {x : RenderM α}
    (h : Traced env j (x { s with frames := frame :: s.frames })) :
    Traced env j (RenderM.within frame x s) := by
  intro e t hfails hcause
  unfold RenderM.within at hfails
  split at hfails
  · cases hfails
  · next e' u hx =>
    cases hfails
    exact h e u hx hcause

theorem called {x : RenderM α} (h : Traced env j (x { s with depth := s.depth + 1 })) :
    Traced env j (RenderM.called x s) := by
  intro e t hfails hcause
  unfold RenderM.called at hfails
  split at hfails
  · cases hfails
  · next e' u hx =>
    cases hfails
    exact h e u hx hcause

end Traced

end

/-! ## Heads -/

section

variable {α γ : Type} {env : RenderEnv} {s t : RenderState} {e : Error}

theorem error_of_mapM {f : γ → RenderM α} (hsteady : ∀ c, Steady (f c)) {cs : List γ}
    (h : cs.mapM f s = .error e t) : ∃ c ∈ cs, ∃ u, f c s = .error e u := by
  induction cs with
  | nil => cases h
  | cons c cs ih =>
    rw [List.mapM_cons] at h
    rcases error_of_bindM h with hfirst | ⟨a, u, hu, hrest⟩
    · exact ⟨c, List.mem_cons_self, t, hfirst⟩
    · obtain rfl := hsteady c s a u hu
      rcases error_of_bindM hrest with hothers | ⟨as, u', _, hpure⟩
      · obtain ⟨c', hc', hfails⟩ := ih hothers
        exact ⟨c', List.mem_cons_of_mem c hc', hfails⟩
      · cases hpure

/-- A loop has nothing to run over because of a step in its head. -/
theorem error_of_entriesOf {iterable : Iterable} (h : env.entriesOf iterable s = .error e t) :
    ∃ p ∈ Checker.pipelinesOf iterable, (Step.head p).Fails env s e := by
  cases iterable with
  | pipeline p =>
    refine ⟨p, List.mem_cons_self, ?_⟩
    rcases error_of_bindM h with hfails | ⟨v, u, hu, hrest⟩
    · exact .head hfails
    · obtain rfl := steady_eval p s v u hu
      exact .entries hu hrest
  | range start stop =>
    rcases error_of_bindM h with hfails | ⟨first, u, hu, hrest⟩
    · exact ⟨start, List.mem_cons_self, .bound hfails⟩
    · obtain rfl := steady_bound start s first u hu
      rcases error_of_bindM hrest with hfails | ⟨last, u', _, hpure⟩
      · exact ⟨stop, List.mem_cons_of_mem _ List.mem_cons_self, .bound hfails⟩
      · cases hpure

theorem error_of_anyEqual {subject : Value} {ps : List Pipeline}
    (h : env.anyEqual subject ps s = .error e t) : ∃ p ∈ ps, ∃ u, env.eval p s = .error e u := by
  induction ps with
  | nil => cases h
  | cons p ps ih =>
    rw [RenderEnv.anyEqual] at h
    rcases error_of_bindM h with hfirst | ⟨v, u, hu, hrest⟩
    · exact ⟨p, List.mem_cons_self, t, hfirst⟩
    · obtain rfl := steady_eval p s v u hu
      split at hrest
      · cases hrest
      · obtain ⟨q, hq, hfails⟩ := ih hrest
        exact ⟨q, List.mem_cons_of_mem p hq, hfails⟩

theorem error_of_matchingArm {subject : Value} {index : Nat} {arms : List Arm}
    (h : env.matchingArm subject index arms s = .error e t) :
    ∃ label body, .mk label body ∈ arms ∧
      ∃ p ∈ Checker.labelPipelines label, ∃ u, env.eval p s = .error e u := by
  induction arms generalizing index with
  | nil => cases h
  | cons arm arms ih =>
    have hrest {index : Nat} (h : env.matchingArm subject index arms s = .error e t) :
        ∃ label body, .mk label body ∈ arm :: arms ∧
          ∃ p ∈ Checker.labelPipelines label, ∃ u, env.eval p s = .error e u := by
      obtain ⟨label, body, hmem, hp⟩ := ih h
      exact ⟨label, body, List.mem_cons_of_mem _ hmem, hp⟩
    obtain ⟨label, body⟩ := arm
    cases label with
    | default => exact hrest h
    | values ps =>
      rw [RenderEnv.matchingArm] at h
      rcases error_of_bindM h with hfails | ⟨equal, u, hu, hmore⟩
      · exact ⟨.values ps, body, List.mem_cons_self, error_of_anyEqual hfails⟩
      · obtain rfl := steady_anyEqual subject ps s equal u hu
        split at hmore
        · cases hmore
        · exact hrest hmore

/-- The arm to begin with is not found because of a value of some arm. -/
theorem error_of_firstArm {subject : Value} {arms : List Arm}
    (h : env.firstArm subject arms s = .error e t) :
    ∃ label body, .mk label body ∈ arms ∧
      ∃ p ∈ Checker.labelPipelines label, ∃ u, env.eval p s = .error e u := by
  unfold RenderEnv.firstArm at h
  rcases error_of_bindM h with hfails | ⟨found, u, _, hpure⟩
  · exact error_of_matchingArm hfails
  · cases found <;> cases hpure

end

/-! ## Bodies -/

section

variable {env : RenderEnv} {n : Nat}

/-- A body that is called leads to a step that fails, if the call leads to the body. -/
def CallsTraced (env : RenderEnv) (n : Nat) : Prop :=
  ∀ (body : List Instruction) (s : RenderState) (j : Juncture),
    (∀ k, n = k + 1 → GoesOn env j ⟨k, .body body, none, s⟩) →
    Traced env j (env.runCalled n body s)

theorem traced_iterate {binding : LoopBinding} {isMap : Bool} {offset limit : Option Int}
    {body : List Instruction}
    (hbody : ∀ s, Traced env ⟨n, .body body, none, s⟩ (env.runBody (env.runCalled n) body s))
    (index : Nat) (entries : List (Value × Value)) (q : Option Pos) (s : RenderState) :
    Traced env ⟨n, .iterations binding isMap offset limit body index entries, q, s⟩
      (RenderEnv.iterate (RenderEnv.inBounds offset limit) (fun entry => RenderM.within
        (RenderEnv.frameOf binding entry.1 entry.2 isMap) (env.runBody (env.runCalled n) body))
        index entries s) := by
  induction entries generalizing index q s with
  | nil => exact .ok
  | cons entry rest ih =>
    rw [RenderEnv.iterate]
    split
    · next hruns =>
      refine .bind (.within ((hbody _).later (.iteration hruns))) fun flow t ht => ?_
      have hrest (hflow : flow ≠ .break) := (ih (index + 1) none t).later
        (GoesOn.nextIteration (q := q) ht hflow)
      cases flow with
      | normal => exact hrest (by simp)
      | «break» => exact .ok
      | «continue» => exact hrest (by simp)
    · next hout => exact (ih (index + 1) none s).later (.outOfBounds (Bool.not_eq_true _ ▸ hout))

theorem traced_callMixin (hcalls : CallsTraced env n) (name : String) (args : List Pipeline)
    (is : List Instruction) (q : Option Pos) (s : RenderState) :
    Traced env ⟨n, .body (.callMixin name args :: is), q, s⟩
      (env.runInstruction (env.runCalled n) (.callMixin name args) s) := by
  refine .bind ?_ fun _ _ _ => .ok
  cases hmixin : env.program.mixins.get? name with
  | none =>
    rw [RenderEnv.callMixin_of_none hmixin]
    exact .fail rfl
  | some mixin =>
    rw [RenderEnv.callMixin_of_some hmixin]
    have hargs : Traced env ⟨n, .body (.callMixin name args :: is), q, s⟩
        (args.mapM env.eval s) := by
      refine .step List.mem_cons_self fun e t hfails => ?_
      obtain ⟨p, hp, u, hu⟩ := error_of_mapM steady_eval hfails
      exact .argument hp hu
    refine .bind .ok fun _ s' hs => ?_
    cases hs
    split
    · exact .fail rfl
    · refine .bind hargs fun values t hvalues => .bind (.called (.within ?_)) fun _ _ _ => .ok
      exact hcalls mixin.body _ _ fun k hk => hk ▸ .mixin hmixin hvalues

theorem traced_callBlock (hcalls : CallsTraced env n) (name : String) (is : List Instruction)
    (q : Option Pos) (s : RenderState) : Traced env ⟨n, .body (.callBlock name :: is), q, s⟩
      (env.runInstruction (env.runCalled n) (.callBlock name) s) := by
  refine .bind ?_ fun _ _ _ => .ok
  unfold RenderEnv.callBlock
  cases hblock : env.program.blocks.get? name with
  | none => exact .ok
  | some body =>
    refine .bind (.within ?_) fun _ _ _ => .ok
    exact hcalls body _ _ fun k hk => hk ▸ .block hblock

mutual

theorem traced_instruction (hcalls : CallsTraced env n) :
    ∀ (i : Instruction) (is : List Instruction) (q : Option Pos) (s : RenderState),
    Traced env ⟨n, .body (i :: is), q, s⟩ (env.runInstruction (env.runCalled n) i s)
  | .position _, _, _, _ => .ok
  | .text _, _, _, _ => .ok
  | .emit _, _, _, _ =>
    .bind (.step List.mem_cons_self fun _ _ hfails => .emit hfails) fun _ _ _ => .ok
  | .assign name op p declares, is, q, s => by
    refine .bind (.step List.mem_cons_self fun _ _ hfails => .assign hfails) fun v t ht => ?_
    obtain rfl := steady_eval p _ _ _ ht
    refine .bind .ok fun s' t hs => ?_
    cases hs
    exact .bind (.step List.mem_cons_self fun _ _ hfails => .combine ht hfails) fun _ _ _ => .ok
  | .capture _ _ _, _, _, _ => .ok
  | .choose branches otherwise, is, q, s =>
    (traced_branches hcalls branches none otherwise q s
      fun before s => traced_otherwise hcalls otherwise before q s).later .choose
  | .switch subject arms, is, q, s => by
    refine .bind (.step List.mem_cons_self fun _ _ hfails => .head hfails) fun v t ht => ?_
    obtain rfl := steady_eval subject _ _ _ ht
    refine .bind (fun e u hfails _ => ?_) fun found u hfirst => ?_
    · obtain ⟨label, body, harm, p, hp, u, hu⟩ := error_of_firstArm hfails
      exact ⟨_, _, .refl, List.mem_cons_of_mem _
        (List.mem_map_of_mem (List.mem_flatMap.2 ⟨_, harm, hp⟩)), .head hu⟩
    · cases found with
      | none => exact .ok
      | some index =>
        refine .bind (.within ?_) fun _ _ _ => .ok
        exact (traced_arms hcalls index arms none _).later (.switch ht hfirst)
  | .loop binding iterable offset limit body, is, q, s => by
    refine .bind (fun e t hfails _ => ?_) fun (entries, isMap) t ht => ?_
    · obtain ⟨p, hp, hstep⟩ := error_of_entriesOf hfails
      exact ⟨_, _, .refl, List.mem_map_of_mem hp, hstep⟩
    · refine .bind ?_ fun _ _ _ => .ok
      exact (traced_iterate (traced_body hcalls body none) 0 entries none t).later (.loop ht)
  | .break, _, _, _ => .ok
  | .continue, _, _, _ => .ok
  | .callMixin name args, is, q, s => traced_callMixin hcalls name args is q s
  | .callBlock name, is, q, s => traced_callBlock hcalls name is q s
  | .script _, _, _, _ =>
    .bind (.step List.mem_cons_self fun _ _ hfails => .script hfails) fun _ _ _ => .ok
termination_by structural i => i

/-- A body that fails in an evaluation leads to a step that fails. -/
theorem traced_body (hcalls : CallsTraced env n) :
    ∀ (body : List Instruction) (q : Option Pos) (s : RenderState),
    Traced env ⟨n, .body body, q, s⟩ (env.runBody (env.runCalled n) body s)
  | [], _, _ => .ok
  | i :: is, q, s => by
    refine .bind (traced_instruction hcalls i is q s) fun flow t ht => ?_
    cases flow with
    | normal => exact (traced_body hcalls is i.notes? t).later (.behind ht)
    | «break» => exact .ok
    | «continue» => exact .ok
termination_by structural body => body

theorem traced_branches (hcalls : CallsTraced env n) :
    ∀ (bs : List Branch) (before : Option Branch) (otherwise : Option (List Instruction))
    (q : Option Pos) (s : RenderState),
    (∀ before s, Traced env ⟨n, .branches before [] otherwise, q, s⟩
      (env.runOtherwise (env.runCalled n) otherwise s)) →
    Traced env ⟨n, .branches before bs otherwise, q, s⟩
      (env.runBranches (env.runCalled n) bs (env.runOtherwise (env.runCalled n) otherwise) s)
  | [], before, _, _, s, hotherwise => hotherwise before s
  | .mk p negated body :: bs, before, otherwise, q, s, hotherwise => by
    refine .bind (.step List.mem_cons_self fun _ _ hfails => .head hfails) fun v t ht => ?_
    split
    · next htaken =>
      exact .within ((traced_body hcalls body none _).later (.taken ht htaken))
    · next hrefused =>
      exact (traced_branches hcalls bs (some (.mk p negated body)) otherwise q t hotherwise).later
        (.refused ht (Bool.not_eq_true _ ▸ hrefused))
termination_by structural bs => bs

theorem traced_otherwise (hcalls : CallsTraced env n) :
    ∀ (otherwise : Option (List Instruction)) (before : Option Branch) (q : Option Pos)
    (s : RenderState), Traced env ⟨n, .branches before [] otherwise, q, s⟩
      (env.runOtherwise (env.runCalled n) otherwise s)
  | none, _, _, _ => .ok
  | some body, _, _, _ => .within ((traced_body hcalls body none _).later .otherwise)
termination_by structural otherwise => otherwise

theorem traced_arms (hcalls : CallsTraced env n) :
    ∀ (skip : Nat) (arms : List Arm) (q : Option Pos) (s : RenderState),
    Traced env ⟨n, .arms skip arms, q, s⟩ (env.runArms (env.runCalled n) skip arms s)
  | skip, [], _, _ => by cases skip <;> exact .ok
  | skip + 1, arm :: arms, q, s => (traced_arms hcalls skip arms none s).later .skip
  | 0, .mk label body :: arms, q, s => by
    refine .bind ((traced_body hcalls body none s).later .arm) fun flow t ht => ?_
    cases flow with
    | normal => exact (traced_arms hcalls 0 arms none t).later (.nextArm ht)
    | «break» => exact .ok
    | «continue» => exact .ok
termination_by structural _ arms => arms

end

theorem callsTraced (n : Nat) : CallsTraced env n := by
  induction n with
  | zero => exact fun body s j _ => .fail rfl
  | succ n ih =>
    intro body s j hgoes
    exact (traced_body ih body none s).later (hgoes n rfl)

/-- A program that fails in an evaluation leads to a step that fails. -/
theorem run_traced (globals : Table Value) : Traced env (env.start globals) (env.run { globals }) :=
  traced_body (callsTraced _) env.program.body none { globals }

end

end Stencil
