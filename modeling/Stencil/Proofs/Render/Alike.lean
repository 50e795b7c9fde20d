import Stencil.Proofs.Render.Visits

/-!
# A run is what it visits

`Visits` misses nothing that a run does: two renderings of a program that do every visited step alike
do the same.

* `alike_body`: a body does the same if all steps that are visited from it are done alike.
* `run_eq_of_alike`: so does a program.
-/

namespace Stencil

/-- Two renderings do a step alike in a state, whatever the bodies do that are called. -/
def DoneAlike (env env' : RenderEnv) (s : RenderState) : Step → Prop
  | .run i => ∀ call, env'.runInstruction call i s = env.runInstruction call i s
  | .head p => env'.eval p s = env.eval p s

/-! ## Steps -/

section

variable {α β : Type} {s : RenderState}

theorem bindM_congr {x x' : RenderM α} {f f' : α → RenderM β} (hx : x' s = x s)
    (hf : ∀ a t, x s = .ok a t → f' a t = f a t) : (x' >>= f') s = (x >>= f) s := by
  show EStateM.bind x' f' s = EStateM.bind x f s
  unfold EStateM.bind
  rw [hx]
  cases hr : x s with
  | ok a t => exact hf a t hr
  | error e t => rfl

theorem within_congr {frame : Table Value} {x x' : RenderM α}
    (h : x' { s with frames := frame :: s.frames } = x { s with frames := frame :: s.frames }) :
    RenderM.within frame x' s = RenderM.within frame x s := by
  unfold RenderM.within
  rw [h]

theorem called_congr {x x' : RenderM α}
    (h : x' { s with depth := s.depth + 1 } = x { s with depth := s.depth + 1 }) :
    RenderM.called x' s = RenderM.called x s := by
  unfold RenderM.called
  rw [h]

end

section

variable {env env' : RenderEnv} {s : RenderState}

theorem fail_congr {α : Type} (hfiles : env'.files = env.files) (cause : Cause) :
    (env'.fail cause : RenderM α) = env.fail cause := by
  unfold RenderEnv.fail
  rw [hfiles]

theorem bound_alike (hfiles : env'.files = env.files) {p : Pipeline}
    (hp : env'.eval p s = env.eval p s) : env'.bound p s = env.bound p s := by
  unfold RenderEnv.bound
  refine bindM_congr hp fun v t _ => ?_
  cases v.integer with
  | ok n => rfl
  | error fault =>
    dsimp only
    rw [fail_congr hfiles]

theorem entriesOf_alike (hfiles : env'.files = env.files) {iterable : Iterable}
    (h : ∀ p ∈ Checker.pipelinesOf iterable, env'.eval p s = env.eval p s) :
    env'.entriesOf iterable s = env.entriesOf iterable s := by
  cases iterable with
  | pipeline p =>
    refine bindM_congr (h p List.mem_cons_self) fun v t _ => ?_
    unfold RenderEnv.entries
    split <;> first | rfl | rw [fail_congr hfiles]
  | range start stop =>
    refine bindM_congr (bound_alike hfiles (h start List.mem_cons_self)) fun first t ht => ?_
    obtain rfl := steady_bound start _ _ _ ht
    have hstop := h stop (List.mem_cons_of_mem _ List.mem_cons_self)
    exact bindM_congr (bound_alike hfiles hstop) fun _ _ _ => rfl

theorem anyEqual_alike (subject : Value) {ps : List Pipeline}
    (h : ∀ p ∈ ps, env'.eval p s = env.eval p s) :
    env'.anyEqual subject ps s = env.anyEqual subject ps s := by
  induction ps with
  | nil => rfl
  | cons p ps ih =>
    unfold RenderEnv.anyEqual
    refine bindM_congr (h p List.mem_cons_self) fun v t ht => ?_
    obtain rfl := steady_eval p _ _ _ ht
    split
    · rfl
    · exact ih fun q hq => h q (List.mem_cons_of_mem _ hq)

theorem firstArm_alike (subject : Value) {arms : List Arm}
    (h : ∀ label body, .mk label body ∈ arms → ∀ p ∈ Checker.labelPipelines label,
      env'.eval p s = env.eval p s) :
    env'.firstArm subject arms s = env.firstArm subject arms s := by
  have hmatching (index : Nat) :
      env'.matchingArm subject index arms s = env.matchingArm subject index arms s := by
    induction arms generalizing index with
    | nil => rfl
    | cons arm arms ih =>
      have hrest := ih fun label body hmem => h label body (List.mem_cons_of_mem _ hmem)
      obtain ⟨label, body⟩ := arm
      cases label with
      | default => exact hrest (index + 1)
      | values ps =>
        unfold RenderEnv.matchingArm
        have hlabel := h (.values ps) body List.mem_cons_self
        refine bindM_congr (anyEqual_alike subject hlabel) fun equal t ht => ?_
        obtain rfl := steady_anyEqual subject ps _ _ _ ht
        split
        · rfl
        · exact hrest (index + 1)
  unfold RenderEnv.firstArm
  refine bindM_congr (hmatching 0) fun found t _ => ?_
  cases found <;> rfl

end

/-! ## Bodies -/

section

variable {env env' : RenderEnv} {n : Nat}

/-- All steps that are visited from some code at a moment are done alike. -/
def VisitsAlike (env env' : RenderEnv) (n : Nat) (code : Code) (m : Moment) : Prop :=
  ∀ e m', Visits env n code m e m' → DoneAlike env env' m'.state e

/-- Bodies that are called at a moment do the same. -/
def CallsAlike (env env' : RenderEnv) (n : Nat) : Prop :=
  ∀ body m, (∀ k, n = k + 1 → VisitsAlike env env' k (.body body) m) →
    env'.runCalled n body m.state = env.runCalled n body m.state

theorem iterate_alike {binding : LoopBinding} {isMap : Bool} {offset limit : Option Int}
    {body : List Instruction}
    (hbody : ∀ m, VisitsAlike env env' n (.body body) m →
      env'.runBody (env'.runCalled n) body m.state = env.runBody (env.runCalled n) body m.state)
    (index : Nat) (entries : List (Value × Value)) (m : Moment)
    (h : VisitsAlike env env' n (.iterations binding isMap offset limit body index entries) m) :
    RenderEnv.iterate (RenderEnv.inBounds offset limit) (fun entry => RenderM.within
        (RenderEnv.frameOf binding entry.1 entry.2 isMap) (env'.runBody (env'.runCalled n) body))
        index entries m.state =
      RenderEnv.iterate (RenderEnv.inBounds offset limit) (fun entry => RenderM.within
        (RenderEnv.frameOf binding entry.1 entry.2 isMap) (env.runBody (env.runCalled n) body))
        index entries m.state := by
  induction entries generalizing index m with
  | nil => rfl
  | cons entry rest ih =>
    rw [RenderEnv.iterate, RenderEnv.iterate]
    split
    · next hruns =>
      have hfirst := hbody (m.opened binding.names
        (RenderEnv.frameOf binding entry.1 entry.2 isMap) m.state)
        fun e m' hvisits => h e m' (.iteration hruns hvisits)
      refine bindM_congr (within_congr hfirst) fun flow t ht => ?_
      have hrest (hflow : flow ≠ .break) := ih (index + 1) (m.moved t)
        fun e m' hvisits => h e m' (.nextIteration ht hflow hvisits)
      cases flow with
      | normal => exact hrest (by simp)
      | «break» => rfl
      | «continue» => exact hrest (by simp)
    · next hout =>
      exact ih (index + 1) m fun e m' hvisits =>
        h e m' (.outOfBounds (Bool.not_eq_true _ ▸ hout) hvisits)

theorem callMixin_alike (hcalls : CallsAlike env env' n) {name : String} {args : List Pipeline}
    {is : List Instruction} {m : Moment}
    (h : VisitsAlike env env' n (.body (.callMixin name args :: is)) m) :
    env'.runInstruction (env'.runCalled n) (.callMixin name args) m.state =
      env.runInstruction (env.runCalled n) (.callMixin name args) m.state := by
  rw [h _ _ (.here rfl) (env'.runCalled n)]
  refine bindM_congr ?_ fun _ _ _ => rfl
  cases hmixin : env.program.mixins.get? name with
  | none => rw [RenderEnv.callMixin_of_none hmixin, RenderEnv.callMixin_of_none hmixin]
  | some mixin =>
    rw [RenderEnv.callMixin_of_some hmixin, RenderEnv.callMixin_of_some hmixin]
    refine bindM_congr rfl fun _ s hs => ?_
    cases hs
    split
    · rfl
    · refine bindM_congr rfl fun values s hvalues => ?_
      refine bindM_congr (called_congr (within_congr ?_)) fun _ _ _ => rfl
      exact hcalls mixin.body
        (m.called env.program mixin.params (.ofList _) { s with depth := s.depth + 1 })
        fun k hk e m' hvisits => h e m' (hk ▸ .mixin hmixin hvalues hvisits)

theorem callBlock_alike (hcalls : CallsAlike env env' n) {name : String} {is : List Instruction}
    {m : Moment} (h : VisitsAlike env env' n (.body (.callBlock name :: is)) m) :
    env'.runInstruction (env'.runCalled n) (.callBlock name) m.state =
      env.runInstruction (env.runCalled n) (.callBlock name) m.state := by
  rw [h _ _ (.here rfl) (env'.runCalled n)]
  refine bindM_congr ?_ fun _ _ _ => rfl
  unfold RenderEnv.callBlock
  cases hblock : env.program.blocks.get? name with
  | none => rfl
  | some body =>
    refine bindM_congr (within_congr ?_) fun _ _ _ => rfl
    exact hcalls body (m.called env.program [] {} m.state)
      fun k hk e m' hvisits => h e m' (hk ▸ .block hblock hvisits)

mutual

theorem alike_instruction (hfiles : env'.files = env.files) (hcalls : CallsAlike env env' n) :
    ∀ (i : Instruction) (is : List Instruction) (m : Moment),
    VisitsAlike env env' n (.body (i :: is)) m →
    env'.runInstruction (env'.runCalled n) i m.state = env.runInstruction (env.runCalled n) i m.state
  | .position _, _, m, h => h _ m (.here rfl) _
  | .text _, _, m, h => h _ m (.here rfl) _
  | .emit _, _, m, h => h _ m (.here rfl) _
  | .assign _ _ _ _, _, m, h => h _ m (.here rfl) _
  | .capture _ _ _, _, m, h => h _ m (.here rfl) _
  | .choose branches otherwise, is, m, h =>
    alike_branches hfiles hcalls branches none otherwise m
      (fun m before h => alike_otherwise hfiles hcalls otherwise before m h)
      fun e m' hvisits => h e m' (.choose hvisits)
  | .switch subject arms, is, m, h => by
    refine bindM_congr (h _ _ .subject) fun v s hs => ?_
    have hlabels : ∀ label body, .mk label body ∈ arms → ∀ p ∈ Checker.labelPipelines label,
        env'.eval p s = env.eval p s := by
      intro label body hmem p hp
      obtain ⟨before, after, rfl⟩ := List.append_of_mem hmem
      exact h _ _ (.label hs hp)
    refine bindM_congr (firstArm_alike v hlabels) fun found t hfirst => ?_
    cases found with
    | none => rfl
    | some index =>
      refine bindM_congr (within_congr ?_) fun _ _ _ => rfl
      exact alike_arms hfiles hcalls index arms (m.opened [] {} t)
        fun e m' hvisits => h e m' (.switch hs hfirst hvisits)
  | .loop binding iterable offset limit body, is, m, h => by
    have hheads : ∀ p ∈ Checker.pipelinesOf iterable, env'.eval p m.state = env.eval p m.state :=
      fun p hp => h _ m (.iterable hp)
    refine bindM_congr (entriesOf_alike hfiles hheads) fun (entries, isMap) s hs => ?_
    refine bindM_congr ?_ fun _ _ _ => rfl
    exact iterate_alike (alike_body hfiles hcalls body) 0 entries (m.moved s)
      fun e m' hvisits => h e m' (.loop hs hvisits)
  | .break, _, m, h => h _ m (.here rfl) _
  | .continue, _, m, h => h _ m (.here rfl) _
  | .callMixin _ _, _, _, h => callMixin_alike hcalls h
  | .callBlock _, _, _, h => callBlock_alike hcalls h
  | .script _, _, m, h => h _ m (.here rfl) _
termination_by structural i => i

/-- A body does the same if all steps that are visited from it are done alike. -/
theorem alike_body (hfiles : env'.files = env.files) (hcalls : CallsAlike env env' n) :
    ∀ (body : List Instruction) (m : Moment), VisitsAlike env env' n (.body body) m →
    env'.runBody (env'.runCalled n) body m.state = env.runBody (env.runCalled n) body m.state
  | [], _, _ => rfl
  | i :: is, m, h => by
    refine bindM_congr (alike_instruction hfiles hcalls i is m h) fun flow s hs => ?_
    cases flow with
    | normal =>
      exact alike_body hfiles hcalls is (m.behind [i] s)
        fun e m' hvisits => h e m' (.behind hs hvisits)
    | «break» => rfl
    | «continue» => rfl
termination_by structural body => body

theorem alike_branches (hfiles : env'.files = env.files) (hcalls : CallsAlike env env' n) :
    ∀ (bs : List Branch) (before : Option Branch) (otherwise : Option (List Instruction))
    (m : Moment),
    (∀ m before, VisitsAlike env env' n (.branches before [] otherwise) m →
      env'.runOtherwise (env'.runCalled n) otherwise m.state =
        env.runOtherwise (env.runCalled n) otherwise m.state) →
    VisitsAlike env env' n (.branches before bs otherwise) m →
    env'.runBranches (env'.runCalled n) bs (env'.runOtherwise (env'.runCalled n) otherwise) m.state =
      env.runBranches (env.runCalled n) bs (env.runOtherwise (env.runCalled n) otherwise) m.state
  | [], before, _, m, hotherwise, h => hotherwise m before h
  | .mk p negated body :: bs, before, otherwise, m, hotherwise, h => by
    have hstate : (m.condition before).state = m.state := by
      match before with
      | none => rfl
      | some (.mk _ _ _) => rfl
    have hcondition : env'.eval p m.state = env.eval p m.state := hstate ▸ h _ _ .condition
    refine bindM_congr hcondition fun v s hs => ?_
    split
    · next htaken =>
      exact within_congr (alike_body hfiles hcalls body (m.opened [] {} s)
        fun e m' hvisits => h e m' (.taken hs htaken hvisits))
    · next hrefused =>
      exact alike_branches hfiles hcalls bs (some (.mk p negated body)) otherwise (m.moved s)
        hotherwise fun e m' hvisits => h e m' (.refused hs (Bool.not_eq_true _ ▸ hrefused) hvisits)
termination_by structural bs => bs

theorem alike_otherwise (hfiles : env'.files = env.files) (hcalls : CallsAlike env env' n) :
    ∀ (otherwise : Option (List Instruction)) (before : Option Branch) (m : Moment),
    VisitsAlike env env' n (.branches before [] otherwise) m →
    env'.runOtherwise (env'.runCalled n) otherwise m.state =
      env.runOtherwise (env.runCalled n) otherwise m.state
  | none, _, _, _ => rfl
  | some body, _, m, h =>
    within_congr (alike_body hfiles hcalls body (m.opened [] {} m.state)
      fun e m' hvisits => h e m' (.otherwise hvisits))
termination_by structural otherwise => otherwise

theorem alike_arms (hfiles : env'.files = env.files) (hcalls : CallsAlike env env' n) :
    ∀ (skip : Nat) (arms : List Arm) (m : Moment), VisitsAlike env env' n (.arms skip arms) m →
    env'.runArms (env'.runCalled n) skip arms m.state =
      env.runArms (env.runCalled n) skip arms m.state
  | skip, [], _, _ => by cases skip <;> rfl
  | skip + 1, arm :: arms, m, h =>
    alike_arms hfiles hcalls skip arms (m.passed arm.body)
      fun e m' hvisits => h e m' (.skip hvisits)
  | 0, .mk label body :: arms, m, h => by
    refine bindM_congr (alike_body hfiles hcalls body m fun e m' hvisits => h e m' (.arm hvisits))
      fun flow s hs => ?_
    cases flow with
    | normal =>
      exact alike_arms hfiles hcalls 0 arms (m.behind body s)
        fun e m' hvisits => h e m' (.nextArm hs hvisits)
    | «break» => rfl
    | «continue» => rfl
termination_by structural _ arms => arms

end

/-- What is called does the same if all steps that are visited from it are done alike. -/
theorem callsAlike (hfiles : env'.files = env.files) (n : Nat) : CallsAlike env env' n := by
  induction n with
  | zero =>
    intro body m _
    exact congrFun (fail_congr hfiles .endlessBlocks) m.state
  | succ n ih =>
    intro body m h
    exact alike_body hfiles ih body m (h n rfl)

/-- A program does the same if all steps that are visited from it are done alike. -/
theorem run_eq_of_alike (hprogram : env'.program = env.program) (hfiles : env'.files = env.files)
    (globals : Table Value)
    (h : ∀ n, n + 1 = env.callBound →
      VisitsAlike env env' n (.body env.program.body) (.start globals)) :
    env'.run { globals } = env.run { globals } := by
  have hbound : env'.callBound = env.callBound := by
    unfold RenderEnv.callBound
    rw [hprogram]
  unfold RenderEnv.run
  rw [hbound, hprogram]
  refine callsAlike hfiles env.callBound env.program.body (.start globals) fun n hn => ?_
  exact h n hn.symm

end

end Stencil
