import Stencil.Proofs.Render.Alike
import Stencil.Proofs.Render.Checked

/-!
# What a run evaluates

A run comes to the expressions of its program in an order of its own, through calls and loops, and to
some of them never. It does not come to any others, so it evaluates only what has been checked.

* `Visits.holds`: what a run comes to stands in its program.
* `run_agree`: a program runs alike with two evaluators that agree on its expressions.
* `renderWith_checked`: a template evaluates only expressions that were accepted when it was made.
-/

namespace Stencil

/-! ## Steps of a program -/

/-- The expressions that a step evaluates. -/
def Step.expressions : Step → List String
  | run i => i.expressions
  | head p => Checker.expressionsOf p

/-- The step is the instruction, unless that is a block, or one of its pipelines. -/
inductive Step.Of : Step → Instruction → Prop where
  | run {i : Instruction} (leaf : i.isBlock = false) : Of (.run i) i
  | head {i : Instruction} {p : Pipeline} (mem : p ∈ i.pipelines) : Of (.head p) i

theorem Step.Of.expressions {e : Step} {i : Instruction} (h : e.Of i) :
    ∀ x ∈ e.expressions, x ∈ i.expressions := by
  intro x hx
  cases h with
  | run => exact hx
  | head mem =>
    have hscript : ∀ source, i ≠ .script source := by
      rintro source rfl
      exact List.not_mem_nil mem
    rw [Instruction.expressions_eq hscript]
    exact List.mem_flatMap.2 ⟨_, mem, hx⟩

/-- The step is one of some pipelines, or stands in one of some bodies. -/
def Step.StandsIn (e : Step) (ps : List Pipeline) (bodies : List (List Instruction)) : Prop :=
  (∃ p ∈ ps, e = .head p) ∨ ∃ inner ∈ bodies, ∃ i, Occurs i inner ∧ e.Of i

theorem Step.StandsIn.mono {e : Step} {ps qs : List Pipeline}
    {bodies more : List (List Instruction)} (h : e.StandsIn ps bodies) (hps : ∀ p ∈ ps, p ∈ qs)
    (hbodies : ∀ inner ∈ bodies, inner ∈ more) : e.StandsIn qs more :=
  h.imp (fun ⟨p, hp, he⟩ => ⟨p, hps p hp, he⟩) fun ⟨inner, hinner, hi⟩ =>
    ⟨inner, hbodies inner hinner, hi⟩

/-- A step in the pipelines and bodies of an instruction. -/
theorem Step.StandsIn.occurs {e : Step} {i : Instruction} (h : e.StandsIn i.pipelines i.bodies) :
    ∃ x, Occurs x [i] ∧ e.Of x := by
  rcases h with ⟨p, hp, rfl⟩ | ⟨inner, hinner, x, hx, he⟩
  · exact ⟨i, .here List.mem_cons_self, .head hp⟩
  · exact ⟨x, .inside List.mem_cons_self hinner hx, he⟩

theorem leaf_occurs {σ : Scope} {i : Instruction} (h : i.isBlock = false) {e : Step × Scope}
    (he : e ∈ instructionSteps σ i) : ∃ x, Occurs x [i] ∧ e.1.Of x := by
  rw [instructionSteps_leaf h, List.mem_singleton] at he
  exact ⟨i, .here List.mem_cons_self, he ▸ .run h⟩

mutual

theorem instructionSteps_occur : ∀ (i : Instruction) (σ : Scope), ∀ e ∈ instructionSteps σ i,
    ∃ x, Occurs x [i] ∧ e.1.Of x
  | .choose branches otherwise, σ, e, he => by
    apply Step.StandsIn.occurs
    rw [instructionSteps] at he
    rcases List.mem_append.1 he with he | he
    · refine (branchSteps_stand branches σ σ e he).mono (fun p hp => hp) fun inner hinner => ?_
      exact List.mem_append_left _ hinner
    · refine .inr ?_
      obtain ⟨inner, hinner, hi⟩ := otherwiseSteps_stand otherwise σ e he
      exact ⟨inner, List.mem_append_right _ hinner, hi⟩
  | .switch subject arms, σ, e, he => by
    apply Step.StandsIn.occurs
    rw [instructionSteps] at he
    rcases List.mem_cons.1 he with rfl | he
    · exact .inl ⟨subject, List.mem_cons_self, rfl⟩
    · exact (armSteps_stand arms σ.create e he).mono (fun p hp => List.mem_cons_of_mem _ hp)
        fun inner hinner => hinner
  | .loop binding iterable offset limit body, σ, e, he => by
    apply Step.StandsIn.occurs
    rw [instructionSteps] at he
    rcases List.mem_append.1 he with he | he
    · obtain ⟨p, hp, rfl⟩ := List.mem_map.1 he
      exact .inl ⟨p, hp, rfl⟩
    · exact .inr ⟨body, List.mem_cons_self, bodySteps_occur body _ e he⟩
  | .position _, _, _, he => leaf_occurs rfl he
  | .text _, _, _, he => leaf_occurs rfl he
  | .emit _, _, _, he => leaf_occurs rfl he
  | .assign .., _, _, he => leaf_occurs rfl he
  | .capture .., _, _, he => leaf_occurs rfl he
  | .break, _, _, he => leaf_occurs rfl he
  | .continue, _, _, he => leaf_occurs rfl he
  | .callMixin .., _, _, he => leaf_occurs rfl he
  | .callBlock _, _, _, he => leaf_occurs rfl he
  | .script _, _, _, he => leaf_occurs rfl he
termination_by structural i => i

/-- The steps of a body stand in it. -/
theorem bodySteps_occur : ∀ (body : List Instruction) (σ : Scope), ∀ e ∈ bodySteps σ body,
    ∃ x, Occurs x body ∧ e.1.Of x
  | [], _, _, he => absurd he List.not_mem_nil
  | i :: is, σ, e, he => by
    rw [bodySteps] at he
    rcases List.mem_append.1 he with he | he
    · obtain ⟨x, hx, hof⟩ := instructionSteps_occur i σ e he
      exact ⟨x, hx.mono fun y hy => List.mem_singleton.1 hy ▸ List.mem_cons_self, hof⟩
    · obtain ⟨x, hx, hof⟩ := bodySteps_occur is _ e he
      exact ⟨x, hx.mono fun y hy => List.mem_cons_of_mem i hy, hof⟩
termination_by structural body => body

theorem branchSteps_stand : ∀ (bs : List Branch) (σ τ : Scope), ∀ e ∈ branchSteps σ τ bs,
    e.1.StandsIn (bs.map fun | .mk p _ _ => p) (bs.map fun | .mk _ _ body => body)
  | [], _, _, _, he => absurd he List.not_mem_nil
  | .mk condition negated body :: bs, σ, τ, e, he => by
    rw [branchSteps] at he
    rcases List.mem_cons.1 he with rfl | he
    · exact .inl ⟨condition, List.mem_cons_self, rfl⟩
    · rcases List.mem_append.1 he with he | he
      · exact .inr ⟨body, List.mem_cons_self, bodySteps_occur body _ e he⟩
      · exact (branchSteps_stand bs σ _ e he).mono (fun p hp => List.mem_cons_of_mem _ hp)
          fun inner hinner => List.mem_cons_of_mem _ hinner
termination_by structural bs => bs

theorem otherwiseSteps_stand : ∀ (otherwise : Option (List Instruction)) (σ : Scope),
    ∀ e ∈ otherwiseSteps σ otherwise,
    ∃ inner ∈ otherwise.toList, ∃ x, Occurs x inner ∧ e.1.Of x
  | none, _, _, he => absurd he List.not_mem_nil
  | some body, _, e, he => ⟨body, List.mem_cons_self, bodySteps_occur body _ e he⟩
termination_by structural otherwise => otherwise

theorem armSteps_stand : ∀ (arms : List Arm) (σ : Scope), ∀ e ∈ armSteps σ arms,
    e.1.StandsIn (arms.flatMap fun | .mk label _ => Checker.labelPipelines label)
      (arms.map fun | .mk _ body => body)
  | [], _, _, he => absurd he List.not_mem_nil
  | .mk label body :: arms, σ, e, he => by
    rw [armSteps] at he
    rcases List.mem_append.1 he with he | he
    · obtain ⟨p, hp, rfl⟩ := List.mem_map.1 he
      exact .inl ⟨p, List.mem_append_left _ hp, rfl⟩
    · rcases List.mem_append.1 he with he | he
      · exact .inr ⟨body, List.mem_cons_self, bodySteps_occur body _ e he⟩
      · exact (armSteps_stand arms _ e he).mono (fun p hp => List.mem_append_right _ hp)
          fun inner hinner => List.mem_cons_of_mem _ hinner
termination_by structural arms => arms

end

/-- The steps of the bodies that are called stand in the program. -/
theorem Program.calledSteps_hold {program : Program} {e : Step × Scope}
    (he : e ∈ program.calledSteps) : ∃ i, program.Holds i ∧ e.1.Of i := by
  rcases List.mem_append.1 he with hmixin | hblock
  · obtain ⟨entry, hentry, hstep⟩ := List.mem_flatMap.1 hmixin
    obtain ⟨i, hi, he⟩ := bodySteps_occur entry.2.body _ _ hstep
    exact ⟨i, .mixin hentry hi, he⟩
  · obtain ⟨entry, hentry, hstep⟩ := List.mem_flatMap.1 hblock
    obtain ⟨i, hi, he⟩ := bodySteps_occur entry.2 _ _ hstep
    exact ⟨i, .block hentry hi, he⟩

/-- All steps of a program stand in it. -/
theorem Program.steps_hold {program : Program} {e : Step × Scope} (he : e ∈ program.steps) :
    ∃ i, program.Holds i ∧ e.1.Of i := by
  rcases List.mem_append.1 he with hmain | hcalled
  · obtain ⟨i, hi, he⟩ := bodySteps_occur program.body {} _ hmain
    exact ⟨i, .body hi, he⟩
  · exact calledSteps_hold hcalled

/-- All that a run comes to stands in its program. -/
theorem Visits.holds {env : RenderEnv} {n : Nat} {m m' : Moment} {e : Step}
    (h : Visits env n (.body env.program.body) m e m') : ∃ i, env.program.Holds i ∧ e.Of i := by
  rcases h.steps with hmain | hcalled
  · obtain ⟨i, hi, he⟩ := bodySteps_occur env.program.body m.held _ hmain
    exact ⟨i, .body hi, he⟩
  · exact Program.calledSteps_hold hcalled

/-! ## Evaluators that agree -/

section

variable {env env' : RenderEnv}

/-- Two renderings of a program with the same filters. -/
structure SameButEvaluator (env env' : RenderEnv) : Prop where
  program : env'.program = env.program
  files : env'.files = env.files
  filters : env'.toolbox.filters = env.toolbox.filters

/-- The evaluators give an expression the same value. -/
def AgreeOnExpression (env env' : RenderEnv) (x : String) : Prop :=
  env'.toolbox.evaluator.evaluate x = env.toolbox.evaluator.evaluate x

theorem evaluate_agree (h : SameButEvaluator env env') {x : String}
    (hx : AgreeOnExpression env env' x) : env'.evaluate x = env.evaluate x := by
  unfold RenderEnv.evaluate
  rw [hx]
  simp only [fail_congr h.files]

theorem mapM_agree {α β : Type} {f g : α → RenderM β} {as : List α} (h : ∀ a ∈ as, f a = g a) :
    as.mapM f = as.mapM g := by
  induction as with
  | nil => rfl
  | cons a as ih =>
    rw [List.mapM_cons, List.mapM_cons, h a List.mem_cons_self,
      ih fun b hb => h b (List.mem_cons_of_mem _ hb)]

theorem foldlM_agree {α β : Type} {f g : β → α → RenderM β} {as : List α}
    (h : ∀ b, ∀ a ∈ as, f b a = g b a) (b : β) : as.foldlM f b = as.foldlM g b := by
  induction as generalizing b with
  | nil => rfl
  | cons a as ih =>
    rw [List.foldlM_cons, List.foldlM_cons, h b a List.mem_cons_self]
    exact bind_congr fun c => ih (fun b a ha => h b a (List.mem_cons_of_mem _ ha)) c

theorem applyFilter_agree (h : SameButEvaluator env env') (v : Value) {call : FilterCall}
    (hcall : ∀ x ∈ call.args, AgreeOnExpression env env' x) :
    env'.applyFilter v call = env.applyFilter v call := by
  unfold RenderEnv.applyFilter
  rw [h.filters, mapM_agree fun x hx => evaluate_agree h (hcall x hx)]
  simp only [fail_congr h.files]

theorem eval_agree (h : SameButEvaluator env env') {p : Pipeline}
    (hp : ∀ x ∈ Checker.expressionsOf p, AgreeOnExpression env env' x) : env'.eval p = env.eval p := by
  have hbase : env'.evaluate p.base = env.evaluate p.base :=
    evaluate_agree h (hp p.base List.mem_cons_self)
  have hfilters (v : Value) : p.filters.foldlM env'.applyFilter v = p.filters.foldlM env.applyFilter v := by
    refine foldlM_agree (fun v call hcall => ?_) v
    exact applyFilter_agree h v fun x hx =>
      hp x (List.mem_cons_of_mem _ (List.mem_flatMap.2 ⟨call, hcall, hx⟩))
  unfold RenderEnv.eval
  rw [hbase]
  simp only [fail_congr h.files, hfilters]

theorem runScript_agree (h : SameButEvaluator env env') {source : String}
    (hsource : ∀ x ∈ scriptValues source, AgreeOnExpression env env' x) :
    env'.runScript source = env.runScript source := by
  unfold RenderEnv.runScript
  cases hread : readScript source with
  | error fault => exact fail_congr h.files _
  | ok statements =>
    rw [scriptValues, hread] at hsource
    dsimp only
    refine congrArg (· >>= _) ?_
    clear hread
    induction statements with
    | nil => rfl
    | cons statement statements ih =>
      rw [List.forIn_cons, List.forIn_cons, evaluate_agree h (hsource _ List.mem_cons_self)]
      refine bind_congr fun step => ?_
      cases step with
      | done => rfl
      | yield => exact ih fun x hx => hsource x (List.mem_cons_of_mem _ hx)

theorem combine_agree (h : SameButEvaluator env env') (op : AssignOp) (current v : Value) :
    env'.combine op current v = env.combine op current v := by
  unfold RenderEnv.combine RenderEnv.combine.failed
  simp only [fail_congr h.files]

/-- A step is done alike if the evaluators agree on its expressions. -/
theorem Step.Of.doneAlike (h : SameButEvaluator env env') {e : Step} {i : Instruction} (he : e.Of i)
    (hagree : ∀ x ∈ i.expressions, AgreeOnExpression env env' x) (s : RenderState) :
    DoneAlike env env' s e := by
  have hpipeline (hscript : ∀ source, i ≠ .script source) (p : Pipeline) (hp : p ∈ i.pipelines) :
      env'.eval p = env.eval p := by
    refine eval_agree h fun x hx => hagree x ?_
    rw [Instruction.expressions_eq hscript]
    exact List.mem_flatMap.2 ⟨p, hp, hx⟩
  cases he with
  | @head _ p mem =>
    have hscript : ∀ source, i ≠ .script source := by
      rintro source rfl
      exact List.not_mem_nil mem
    exact congrFun (hpipeline hscript p mem) s
  | run leaf =>
    intro call
    refine congrFun ?_ s
    cases i with
    | position | text | capture | «break» | «continue» => rfl
    | choose | switch | loop => cases leaf
    | emit p =>
      rw [RenderEnv.runInstruction, RenderEnv.runInstruction,
        hpipeline (fun _ h => by cases h) p List.mem_cons_self]
    | assign name op p declares =>
      rw [RenderEnv.runInstruction, RenderEnv.runInstruction,
        hpipeline (fun _ h => by cases h) p List.mem_cons_self]
      refine bind_congr fun v => bind_congr fun s => ?_
      exact congrArg (· >>= _) (combine_agree h op _ v)
    | callMixin name args =>
      have hargs : args.mapM env'.eval = args.mapM env.eval := mapM_agree (hpipeline (fun _ h => by cases h))
      rw [RenderEnv.runInstruction, RenderEnv.runInstruction, RenderEnv.callMixin, RenderEnv.callMixin,
        h.program, hargs]
      refine congrArg (· >>= _) ?_
      cases env.program.mixins.get? name with
      | none => exact fail_congr h.files _
      | some mixin =>
        dsimp only
        rw [fail_congr h.files]
    | callBlock name =>
      rw [RenderEnv.runInstruction, RenderEnv.runInstruction, RenderEnv.callBlock, RenderEnv.callBlock,
        h.program]
    | script source =>
      rw [RenderEnv.runInstruction, RenderEnv.runInstruction, runScript_agree h hagree]

/-- A program runs alike with two evaluators that agree on its expressions. -/
theorem run_agree (h : SameButEvaluator env env')
    (hagree : ∀ i, env.program.Holds i → ∀ x ∈ i.expressions, AgreeOnExpression env env' x)
    (globals : Table Value) : env'.run { globals } = env.run { globals } := by
  refine run_eq_of_alike h.program h.files globals fun n _ e m hvisits => ?_
  obtain ⟨i, hi, he⟩ := hvisits.holds
  exact he.doneAlike h (hagree i hi) m.state

end

/-! ## Templates -/

/-- Whatever expression a template comes to while it renders, its evaluator was asked about it when the
template was made, and accepted it; and the scripts that it comes to can be read. So it does not matter
what the evaluator makes of any other expression. -/
theorem renderWith_checked (program : Program) (files : Files) (filters used : FilterRegistry)
    (E : Evaluator) (t : Template)
    (hproduced : Template.produce program files (some ⟨filters, E⟩) = .ok t) :
    (∀ globals n e m,
      Visits ⟨t.program, t.files, ⟨used, E⟩⟩ n (.body t.program.body) (.start globals) e m →
        (∀ x ∈ e.expressions, program.Asks files x ∧ E.check x = .ok ()) ∧
        ∀ source, e = .run (.script source) → ∃ statements, readScript source = .ok statements) ∧
    ∀ other : Evaluator,
      (∀ x, program.Asks files x → E.check x = .ok () → other.evaluate x = E.evaluate x) →
      ∀ bindings, t.renderWith bindings ⟨used, other⟩ = t.renderWith bindings ⟨used, E⟩ := by
  have hprogram : t.program = program := (Template.of_produce hproduced).1
  have haccepts := (produce_decides program files _).passes.1 ⟨t, hproduced⟩
  have hasked (i : Instruction) (hi : program.Holds i) (x : String) (hx : x ∈ i.expressions) :
      program.Asks files x ∧ E.check x = .ok () :=
    ⟨hi.asks files hx, (haccepts i hi).expressions x hx⟩
  refine ⟨fun globals n e m hvisits => ?_, fun other hother bindings => ?_⟩
  · obtain ⟨i, hi, he⟩ := hvisits.holds
    rw [show RenderEnv.program _ = program from hprogram] at hi
    refine ⟨fun x hx => hasked i hi x (he.expressions x hx), fun source hsource => ?_⟩
    subst hsource
    cases he with
    | run => exact (haccepts _ hi).script source rfl
  · rw [Template.renderWith_eq, Template.renderWith_eq]
    refine congrArg _ (funext fun globals => congrArg _ ?_)
    have hsame : SameButEvaluator ⟨t.program, t.files, ⟨used, E⟩⟩
        ⟨t.program, t.files, ⟨used, other⟩⟩ := ⟨rfl, rfl, rfl⟩
    refine run_agree hsame (fun i hi x hx => ?_) globals
    obtain ⟨hasks, hcheck⟩ := hasked i (hprogram ▸ hi) x hx
    exact hother x hasks hcheck

/-- A mixin that is called with a filtered argument and runs a script. -/
def callsScript : Program where
  body := [.callMixin "m" [⟨"1", [⟨"plus", ["2"]⟩], none⟩]]
  mixins := .ofList [("m", ⟨["x"], [.script "let y = x", .emit (.ofBase "y")]⟩)]

/-- The evaluator of the expression language, with the value `null` for all that is no expression. -/
def Evaluator.lenient : Evaluator where
  check := standard.check
  evaluate text lookup :=
    match standard.check text with
    | .ok () => standard.evaluate text lookup
    | .error _ => .ok .null

theorem renderWith_checked_callsScript :
    ∃ t, Template.produce callsScript {} (some {}) = .ok t ∧
      Visits ⟨t.program, t.files, {}⟩ 1 (.body t.program.body) (.start {})
        (.run (.callMixin "m" [⟨"1", [⟨"plus", ["2"]⟩], none⟩])) (.start {}) ∧
      Evaluator.standard.check "2" = .ok () ∧
      t.renderWith .undefined ⟨.builtin, .lenient⟩ = t.renderWith .undefined ⟨.builtin, .standard⟩ := by
  have hcomputed : (Template.produce callsScript {} (some {})).toOption.map (fun _ => ()) = some () := by
    decide +kernel
  obtain ⟨t, hproduced, -⟩ := ok_of_toOption_map hcomputed
  obtain ⟨hvisits, hagree⟩ :=
    renderWith_checked callsScript {} .builtin .builtin .standard t hproduced
  obtain ⟨hprogram, -⟩ := Template.of_produce hproduced
  have hvisited : Visits ⟨t.program, t.files, {}⟩ 1 (.body t.program.body) (.start {})
      (.run (.callMixin "m" [⟨"1", [⟨"plus", ["2"]⟩], none⟩])) (.start {}) := by
    rw [hprogram]
    exact .here rfl
  have hargument : "2" ∈ (Step.run (.callMixin "m" [⟨"1", [⟨"plus", ["2"]⟩], none⟩])).expressions := by
    decide
  refine ⟨t, hproduced, hvisited, ((hvisits {} 1 _ _ hvisited).1 "2" hargument).2,
    hagree .lenient (fun x _ hcheck => ?_) .undefined⟩
  unfold Evaluator.lenient
  funext lookup
  dsimp only
  rw [hcheck]

end Stencil
