import Stencil.Proofs.Generation.Steps
import Stencil.Proofs.Render.Bound

/-!
# What a run comes to

`Visits` follows a run of a program: it tells which instructions, and which pipelines in the heads of
blocks, the run comes to, and in which states. It may tell of more than happens, never of less: an
evaluation that fails ends a run, and what would come behind it is told of where that costs nothing.

At every moment there are two scopes. `held` is what the compiler holds at the token that is run;
`bound` has, frame by frame, the names of the tags that the run itself has passed. They go apart where
a run does not go the way of the tokens: it passes over the arms of a case, and it runs the bodies of
mixins and blocks before it comes to the end of the main body. The names of the tags that it has passed
over are the skipped ones.

* `Visits.sound`: at every moment the bound names are found, and a held name is bound or skipped.
* `Visits.steps`: the held names are those of the scope that `Program.steps` has for the step.
-/

namespace Stencil

/-! ## Moments -/

/-- A moment of a run. -/
structure Moment where
  /-- The names that the compiler holds. -/
  held : Scope
  /-- The names that the run has bound. -/
  bound : Scope
  /-- The names of tags that the run has passed over. -/
  skipped : List String
  state : RenderState

/-- What is left to run. -/
inductive Code where
  | body (is : List Instruction)
  /-- The branches that are left, and the one before them. -/
  | branches (before : Option Branch) (bs : List Branch)
      (otherwise : Option (List Instruction))
  /-- The arms behind some that are passed over. -/
  | arms (skip : Nat) (arms : List Arm)
  /-- The iterations of a loop from an index on. -/
  | iterations (binding : LoopBinding) (isMap : Bool) (offset limit : Option Int)
      (body : List Instruction) (index : Nat) (entries : List (Value × Value))

namespace Moment

/-- The same names in another state. -/
def moved (m : Moment) (s : RenderState) : Moment := { m with state := s }

/-- The moment behind some instructions. -/
def behind (m : Moment) (body : List Instruction) (s : RenderState) : Moment :=
  ⟨m.held.behind body, m.bound.behind body, m.skipped, s⟩

/-- The moment in a new frame that has some names. -/
def opened (m : Moment) (names : List String) (frame : Table Value) (s : RenderState) : Moment :=
  ⟨m.held.create.addAll names, m.bound.create.addAll names, m.skipped,
    { s with frames := frame :: s.frames }⟩

/-- The compiler goes through some instructions, and the run does not. -/
def passed (m : Moment) (body : List Instruction) : Moment :=
  { m with held := m.held.behind body, skipped := m.skipped ++ body.flatMap Instruction.binds }

/-- The compiler goes through some instructions in a frame of their own, and the run does not. -/
def aside (m : Moment) (body : List Instruction) : Moment :=
  { m with held := m.held.create }.passed body

/-- The moment when the condition of a branch is evaluated. It was compiled behind the branch before
it. -/
def condition (m : Moment) : Option Branch → Moment
  | none => m
  | some (.mk _ _ body) => m.aside body

/-- The moment in the body of a mixin or a block. The compiler makes it behind the main body. -/
def called (m : Moment) (program : Program) (names : List String) (frame : Table Value)
    (s : RenderState) : Moment :=
  ⟨program.scope.create.addAll names, m.bound.create.addAll names,
    program.body.flatMap Instruction.binds, { s with frames := frame :: s.frames }⟩

/-- The start of a run. -/
def start (globals : Table Value) : Moment := ⟨{}, {}, [], { globals }⟩

end Moment

/-! ## Visits -/

/-- A run of some code, in which so many calls may be open at once, comes from a moment to an event at
another moment. -/
inductive Visits (env : RenderEnv) : Nat → Code → Moment → Step → Moment → Prop where
  | here {n : Nat} {i : Instruction} {is : List Instruction} {m : Moment} (leaf : i.isBlock = false) :
      Visits env n (.body (i :: is)) m (.run i) m
  | behind {n : Nat} {i : Instruction} {is : List Instruction} {m m' : Moment} {e : Step}
      {s : RenderState} (runs : env.runInstruction (env.runCalled n) i m.state = .ok .normal s)
      (visits : Visits env n (.body is) (m.behind [i] s) e m') :
      Visits env n (.body (i :: is)) m e m'
  | choose {n : Nat} {bs : List Branch} {otherwise : Option (List Instruction)}
      {is : List Instruction} {m m' : Moment} {e : Step}
      (visits : Visits env n (.branches none bs otherwise) m e m') :
      Visits env n (.body (.choose bs otherwise :: is)) m e m'
  | subject {n : Nat} {p : Pipeline} {arms : List Arm} {is : List Instruction} {m : Moment} :
      Visits env n (.body (.switch p arms :: is)) m (.head p) m
  | label {n : Nat} {p q : Pipeline} {before after : List Arm} {label : ArmLabel}
      {body is : List Instruction} {m : Moment} {v : Value} {s : RenderState}
      (subject : env.eval p m.state = .ok v s) (mem : q ∈ Checker.labelPipelines label) :
      Visits env n (.body (.switch p (before ++ .mk label body :: after) :: is)) m (.head q)
        ((m.moved s).aside (before.flatMap Arm.body))
  | switch {n : Nat} {p : Pipeline} {arms : List Arm} {is : List Instruction} {m m' : Moment}
      {e : Step} {v : Value} {s s' : RenderState} {index : Nat}
      (subject : env.eval p m.state = .ok v s) (first : env.firstArm v arms s = .ok (some index) s')
      (visits : Visits env n (.arms index arms) (m.opened [] {} s') e m') :
      Visits env n (.body (.switch p arms :: is)) m e m'
  | iterable {n : Nat} {binding : LoopBinding} {iterable : Iterable} {offset limit : Option Int}
      {body is : List Instruction} {p : Pipeline} {m : Moment}
      (mem : p ∈ Checker.pipelinesOf iterable) :
      Visits env n (.body (.loop binding iterable offset limit body :: is)) m (.head p) m
  | loop {n : Nat} {binding : LoopBinding} {iterable : Iterable} {offset limit : Option Int}
      {body is : List Instruction} {m m' : Moment} {e : Step} {entries : List (Value × Value)}
      {isMap : Bool} {s : RenderState}
      (runs : env.entriesOf iterable m.state = .ok (entries, isMap) s)
      (visits : Visits env n (.iterations binding isMap offset limit body 0 entries) (m.moved s) e m') :
      Visits env n (.body (.loop binding iterable offset limit body :: is)) m e m'
  | mixin {n : Nat} {name : String} {args : List Pipeline} {is : List Instruction} {m m' : Moment}
      {e : Step} {mixin : Mixin} {values : List Value} {s : RenderState}
      (found : env.program.mixins.get? name = some mixin)
      (runs : args.mapM env.eval m.state = .ok values s)
      (visits : Visits env n (.body mixin.body)
        (m.called env.program mixin.params
          (.ofList (mixin.params.mapIdx fun i : Nat => fun param => (param, values.getD i .undefined)))
          { s with depth := s.depth + 1 }) e m') :
      Visits env (n + 1) (.body (.callMixin name args :: is)) m e m'
  | block {n : Nat} {name : String} {body is : List Instruction} {m m' : Moment} {e : Step}
      (found : env.program.blocks.get? name = some body)
      (visits : Visits env n (.body body) (m.called env.program [] {} m.state) e m') :
      Visits env (n + 1) (.body (.callBlock name :: is)) m e m'
  | condition {n : Nat} {before : Option Branch} {p : Pipeline} {negated : Bool}
      {body : List Instruction} {bs : List Branch} {otherwise : Option (List Instruction)} {m : Moment} :
      Visits env n (.branches before (.mk p negated body :: bs) otherwise) m (.head p)
        (m.condition before)
  | taken {n : Nat} {before : Option Branch} {p : Pipeline} {negated : Bool}
      {body : List Instruction} {bs : List Branch} {otherwise : Option (List Instruction)}
      {m m' : Moment} {e : Step} {v : Value} {s : RenderState}
      (runs : env.eval p m.state = .ok v s) (taken : (v.isTrue != negated) = true)
      (visits : Visits env n (.body body) (m.opened [] {} s) e m') :
      Visits env n (.branches before (.mk p negated body :: bs) otherwise) m e m'
  | refused {n : Nat} {before : Option Branch} {p : Pipeline} {negated : Bool}
      {body : List Instruction} {bs : List Branch} {otherwise : Option (List Instruction)}
      {m m' : Moment} {e : Step} {v : Value} {s : RenderState}
      (runs : env.eval p m.state = .ok v s) (refused : (v.isTrue != negated) = false)
      (visits : Visits env n (.branches (some (.mk p negated body)) bs otherwise) (m.moved s) e m') :
      Visits env n (.branches before (.mk p negated body :: bs) otherwise) m e m'
  | otherwise {n : Nat} {before : Option Branch} {body : List Instruction}
      {m m' : Moment} {e : Step} (visits : Visits env n (.body body) (m.opened [] {} m.state) e m') :
      Visits env n (.branches before [] (some body)) m e m'
  | skip {n skip : Nat} {arm : Arm} {arms : List Arm} {m m' : Moment} {e : Step}
      (visits : Visits env n (.arms skip arms) (m.passed arm.body) e m') :
      Visits env n (.arms (skip + 1) (arm :: arms)) m e m'
  | arm {n : Nat} {arm : Arm} {arms : List Arm} {m m' : Moment} {e : Step}
      (visits : Visits env n (.body arm.body) m e m') : Visits env n (.arms 0 (arm :: arms)) m e m'
  | nextArm {n : Nat} {arm : Arm} {arms : List Arm} {m m' : Moment} {e : Step} {s : RenderState}
      (runs : env.runBody (env.runCalled n) arm.body m.state = .ok .normal s)
      (visits : Visits env n (.arms 0 arms) (m.behind arm.body s) e m') :
      Visits env n (.arms 0 (arm :: arms)) m e m'
  | iteration {n : Nat} {binding : LoopBinding} {isMap : Bool} {offset limit : Option Int}
      {body : List Instruction} {index : Nat} {entry : Value × Value} {rest : List (Value × Value)}
      {m m' : Moment} {e : Step} (runs : RenderEnv.inBounds offset limit index = true)
      (visits : Visits env n (.body body)
        (m.opened binding.names (RenderEnv.frameOf binding entry.1 entry.2 isMap) m.state) e m') :
      Visits env n (.iterations binding isMap offset limit body index (entry :: rest)) m e m'
  | nextIteration {n : Nat} {binding : LoopBinding} {isMap : Bool} {offset limit : Option Int}
      {body : List Instruction} {index : Nat} {entry : Value × Value} {rest : List (Value × Value)}
      {m m' : Moment} {e : Step} {flow : Flow} {s : RenderState}
      (runs : RenderM.within (RenderEnv.frameOf binding entry.1 entry.2 isMap)
        (env.runBody (env.runCalled n) body) m.state = .ok flow s) (goes : flow ≠ .break)
      (visits : Visits env n (.iterations binding isMap offset limit body (index + 1) rest)
        (m.moved s) e m') :
      Visits env n (.iterations binding isMap offset limit body index (entry :: rest)) m e m'
  | outOfBounds {n : Nat} {binding : LoopBinding} {isMap : Bool} {offset limit : Option Int}
      {body : List Instruction} {index : Nat} {entry : Value × Value} {rest : List (Value × Value)}
      {m m' : Moment} {e : Step} (out : RenderEnv.inBounds offset limit index = false)
      (visits : Visits env n (.iterations binding isMap offset limit body (index + 1) rest) m e m') :
      Visits env n (.iterations binding isMap offset limit body index (entry :: rest)) m e m'

/-! ## Bound and held names -/

/-- The bound names are found, and a held name is bound or skipped. -/
structure Moment.Sound (m : Moment) : Prop where
  bound : Bound m.bound m.state
  depth : 0 < m.held.depth
  held : ∀ name, m.held.has name = true → m.bound.has name = true ∨ name ∈ m.skipped

namespace Moment.Sound

variable {m : Moment} {s : RenderState}

/-- Both scopes may get the same names. -/
theorem addAll (h : m.Sound) (names : List String) (name : String)
    (hname : (m.held.addAll names).has name = true) :
    (m.bound.addAll names).has name = true ∨ name ∈ m.skipped := by
  rw [Scope.has_addAll h.depth] at hname
  rw [Scope.has_addAll h.bound.depth_pos]
  rcases hname with hnew | hold
  · exact .inl (.inl hnew)
  · exact (h.held name hold).imp_left .inr

theorem moved (h : m.Sound) (hs : s = m.state) : (m.moved s).Sound :=
  ⟨hs ▸ h.bound, h.depth, h.held⟩

theorem behind {body : List Instruction} (h : m.Sound) (hs : Bound (m.bound.behind body) s) :
    (m.behind body s).Sound where
  bound := hs
  depth := by
    show 0 < (m.held.behind body).depth
    rw [Scope.depth_behind]
    exact h.depth
  held := h.addAll _

theorem opened {names : List String} {frame : Table Value} (h : m.Sound) (hs : s = m.state)
    (hnames : ∀ name ∈ names, frame.contains name = true) : (m.opened names frame s).Sound where
  bound := hs ▸ h.bound.opened hnames
  depth := by
    exact Scope.depth_opened_pos m.held names
  held name hname := by
    rw [Moment.opened, Scope.has_opened] at hname
    rw [Moment.opened, Scope.has_opened]
    rcases hname with hnew | hold
    · exact .inl (.inl hnew)
    · exact (h.held name hold).imp_left .inr

/-- A branch, an arm or a block has no names to begin with. -/
theorem opened_empty (h : m.Sound) (hs : s = m.state) : (m.opened [] {} s).Sound :=
  h.opened hs fun _ hname => absurd hname List.not_mem_nil

theorem passed (h : m.Sound) (body : List Instruction) : (m.passed body).Sound where
  bound := h.bound
  depth := by
    show 0 < (m.held.behind body).depth
    rw [Scope.depth_behind]
    exact h.depth
  held name hname := by
    rw [Moment.passed, Scope.behind, Scope.has_addAll h.depth] at hname
    rw [Moment.passed, List.mem_append]
    rcases hname with hnew | hold
    · exact .inr (.inr hnew)
    · exact (h.held name hold).imp_right .inl

theorem aside (h : m.Sound) (body : List Instruction) : (m.aside body).Sound := by
  have hcreate : { m with held := m.held.create }.Sound := by
    refine ⟨h.bound, by rw [Scope.depth_create]; exact Nat.succ_pos _, fun name hname => ?_⟩
    rw [Scope.has_create] at hname
    exact h.held name hname
  exact hcreate.passed body

theorem condition (h : m.Sound) (before : Option Branch) : (m.condition before).Sound := by
  match before with
  | none => exact h
  | some (.mk _ _ body) => exact h.aside body

/-- In the body of a mixin or a block, the names of the main body are held. -/
theorem called {program : Program} {names : List String} {frame : Table Value}
    (hs : Bound m.bound s) (hnames : ∀ name ∈ names, frame.contains name = true) :
    (m.called program names frame s).Sound where
  bound := hs.opened hnames
  depth := by
    exact Scope.depth_opened_pos program.scope names
  held name hname := by
    have hmain : 0 < ({} : Scope).depth := Nat.succ_pos 0
    rw [Moment.called, Scope.has_opened, Program.scope, Scope.behind, Scope.has_addAll hmain]
      at hname
    rw [Moment.called, Scope.has_opened]
    rcases hname with hparam | hprogram | hnone
    · exact .inl (.inl hparam)
    · exact .inr hprogram
    · cases hnone

theorem start (globals : Table Value) : (Moment.start globals).Sound where
  bound := .of_held (.globals fun _ hname => absurd hname NameSet.not_mem_empty)
  depth := Nat.succ_pos 0
  held _ hname := by cases hname

end Moment.Sound

/-- At every moment of a run the bound names are found, and a held name is bound or skipped. -/
theorem Visits.sound {env : RenderEnv} {n : Nat} {code : Code} {m m' : Moment} {e : Step}
    (h : Visits env n code m e m') (hm : m.Sound) : m'.Sound := by
  induction h with
  | here => exact hm
  | @behind n i is m m' e s runs visits ih =>
    have hleaves := keeps_instruction (keeps_called n) m.bound i m.state hm.bound _ _ runs
    exact ih (hm.behind (hleaves.2 rfl))
  | choose visits ih => exact ih hm
  | subject => exact hm
  | label subject => exact (hm.moved (steady_eval _ _ _ _ subject)).aside _
  | switch subject first visits ih =>
    have hsubject := steady_eval _ _ _ _ subject
    have hfirst := steady_firstArm _ _ _ _ _ first
    exact ih (hm.opened_empty (hfirst.trans hsubject))
  | iterable => exact hm
  | loop runs visits ih => exact ih (hm.moved (steady_entriesOf _ _ _ _ runs))
  | @mixin n name args is m m' e mixin values s found runs visits ih =>
    obtain rfl := steady_evals args _ _ _ runs
    exact ih (.called (.of_held hm.bound.held) (contains_params mixin.params values))
  | block found visits ih =>
    exact ih (.called hm.bound fun _ hname => absurd hname List.not_mem_nil)
  | condition => exact hm.condition _
  | taken runs _ visits ih => exact ih (hm.opened_empty (steady_eval _ _ _ _ runs))
  | refused runs _ visits ih => exact ih (hm.moved (steady_eval _ _ _ _ runs))
  | otherwise visits ih => exact ih (hm.opened_empty rfl)
  | skip visits ih => exact ih (hm.passed _)
  | arm visits ih => exact ih hm
  | @nextArm n arm arms m m' e s runs visits ih =>
    have hleaves := keeps_body (keeps_called n) m.bound arm.body m.state hm.bound _ _ runs
    exact ih (hm.behind (hleaves.2 rfl))
  | iteration runs visits ih => exact ih (hm.opened rfl (contains_frameOf _ _ _ _))
  | @nextIteration n binding isMap offset limit body index entry rest m m' e flow s runs goes visits
      ih =>
    have hbody : Keeps (Bound (m.bound.create.addAll binding.names))
        (fun _ => Bound (m.bound.create.addAll binding.names))
        (env.runBody (env.runCalled n) body) :=
      (keeps_body (keeps_called n) _ body).mono fun _ _ h => h.1
    have hwithin := Bound.within (contains_frameOf binding entry.1 entry.2 isMap) hbody
    exact ih ⟨hwithin m.state hm.bound flow s runs, hm.depth, hm.held⟩
  | outOfBounds out visits ih => exact ih hm

/-! ## Where visited steps come from -/

/-- The steps of some code, with the scopes computed for them. -/
def Code.steps (σ : Scope) : Code → List (Step × Scope)
  | body is => bodySteps σ is
  | branches before bs otherwise =>
    branchSteps σ (conditionScope σ before) bs ++ otherwiseSteps σ otherwise
  | arms _ rest => armSteps σ rest
  | iterations binding _ _ _ is _ _ => bodySteps (σ.create.addAll binding.names) is

/-- The scope that is held when a step is visited is the one computed for it. -/
theorem Visits.steps {env : RenderEnv} {n : Nat} {code : Code} {m m' : Moment} {e : Step}
    (h : Visits env n code m e m') :
    (e, m'.held) ∈ code.steps m.held ∨ (e, m'.held) ∈ env.program.calledSteps := by
  induction h with
  | @here n i is m leaf =>
    left
    rw [Code.steps, bodySteps, instructionSteps_leaf leaf]
    exact List.mem_cons_self
  | behind _ _ ih => exact ih.imp_left fun h => List.mem_append_right _ h
  | choose _ ih => exact ih.imp_left fun h => List.mem_append_left _ h
  | subject => exact .inl (List.mem_append_left _ List.mem_cons_self)
  | @label n p q before after label body is m v s subject mem =>
    left
    refine List.mem_append_left _ (List.mem_cons_of_mem _ ?_)
    rw [armSteps_append, armBinds_eq]
    exact List.mem_append_right _ (List.mem_append_left _ (List.mem_map.2 ⟨q, mem, rfl⟩))
  | switch _ _ _ ih =>
    exact ih.imp_left fun h => List.mem_append_left _ (List.mem_cons_of_mem _ h)
  | iterable mem =>
    exact .inl (List.mem_append_left _ (List.mem_append_left _ (List.mem_map.2 ⟨_, mem, rfl⟩)))
  | loop _ _ ih =>
    exact ih.imp_left fun h => List.mem_append_left _ (List.mem_append_right _ h)
  | mixin found _ _ ih =>
    refine .inr (ih.elim (fun h => ?_) id)
    exact List.mem_append_left _ (List.mem_flatMap.2 ⟨_, Table.mem_of_get? found, h⟩)
  | block found _ ih =>
    refine .inr (ih.elim (fun h => ?_) id)
    exact List.mem_append_right _ (List.mem_flatMap.2 ⟨_, Table.mem_of_get? found, h⟩)
  | @condition n before p negated body bs otherwise m =>
    left
    refine List.mem_append_left _ (List.mem_cons.2 (.inl ?_))
    rcases before with _ | ⟨_, _, _⟩ <;> rfl
  | taken _ _ _ ih =>
    exact ih.imp_left fun h =>
      List.mem_append_left _ (List.mem_cons_of_mem _ (List.mem_append_left _ h))
  | refused _ _ _ ih =>
    refine ih.imp_left fun h => ?_
    rcases List.mem_append.1 h with h | h
    · exact List.mem_append_left _ (List.mem_cons_of_mem _ (List.mem_append_right _ h))
    · exact List.mem_append_right _ h
  | otherwise _ ih => exact ih.imp_left fun h => List.mem_append_right _ h
  | @skip n skip arm arms m m' e visits ih =>
    obtain ⟨label, body⟩ := arm
    exact ih.imp_left fun h => List.mem_append_right _ (List.mem_append_right _ h)
  | @arm n arm arms m m' e visits ih =>
    obtain ⟨label, body⟩ := arm
    exact ih.imp_left fun h => List.mem_append_right _ (List.mem_append_left _ h)
  | @nextArm n arm arms m m' e s runs visits ih =>
    obtain ⟨label, body⟩ := arm
    exact ih.imp_left fun h => List.mem_append_right _ (List.mem_append_right _ h)
  | iteration _ _ ih => exact ih
  | nextIteration _ _ _ ih => exact ih
  | outOfBounds _ _ ih => exact ih

end Stencil
