import Stencil.Proofs.Program.Inlined
import Stencil.Proofs.Render.Jumps
import Stencil.Proofs.Render.Paired

/-!
# Frames that make no difference

The body of a block runs in a frame of its own. As long as nothing is bound in it, the frame makes no
difference: `padded m` bonds two renderings of which the second one has empty frames more, where the
marks `m` say.

* `padded_store`: storing keeps states corresponding if the innermost frame is none of these.
* `padded_body`: a body does the same as the body with calls of a block replaced by its instructions.
* `padded_called`: so do all bodies of a program.
-/

namespace Stencil

/-! ## Frames -/

/-- The second list has empty frames more, where a mark is true. The marks are for the innermost frames;
those behind them are the same. -/
inductive Pads : List Bool → List (Table Value) → List (Table Value) → Prop where
  | same (frames : List (Table Value)) : Pads [] frames frames
  | frame {m : List Bool} {frames frames' : List (Table Value)} (frame : Table Value)
      (rest : Pads m frames frames') : Pads (false :: m) (frame :: frames) (frame :: frames')
  | pad {m : List Bool} {frames frames' : List (Table Value)} (rest : Pads m frames frames') :
      Pads (true :: m) frames ({} :: frames')

/-- The innermost frame belongs to both. -/
def Solid (m : List Bool) : Prop := m.head? ≠ some true

theorem solid_nil : Solid [] := by simp [Solid]

theorem solid_cons (m : List Bool) : Solid (false :: m) := by simp [Solid]

namespace Pads

variable {m : List Bool} {frames frames' : List (Table Value)}

theorem lookupIn (h : Pads m frames frames') (name : String) :
    RenderState.lookupIn name frames' = RenderState.lookupIn name frames := by
  unfold RenderState.lookupIn
  induction h with
  | same => rfl
  | frame frame _ ih => rw [List.findSome?_cons, List.findSome?_cons, ih]
  | pad _ ih =>
    rw [List.findSome?_cons, ih]
    rfl

/-- A name is changed in the same frame, or in none. -/
theorem changeIn? (h : Pads m frames frames') (name : String) (v : Value) :
    Option.Rel (Pads m) (RenderState.changeIn? name v frames)
      (RenderState.changeIn? name v frames') := by
  induction h with
  | same frames =>
    cases RenderState.changeIn? name v frames with
    | none => exact .none
    | some changed => exact .some (.same changed)
  | @frame _ frames frames' frame rest ih =>
    unfold RenderState.changeIn?
    split
    · exact .some (.frame _ rest)
    · generalize RenderState.changeIn? name v frames = x at ih ⊢
      generalize RenderState.changeIn? name v frames' = x' at ih ⊢
      cases ih with
      | none => exact .none
      | some changed => exact .some (.frame frame changed)
  | @pad _ frames frames' _ ih =>
    have hempty : ({} : Table Value).contains name = false := rfl
    rw [RenderState.changeIn?.eq_2 name v {}, hempty, if_neg Bool.false_ne_true]
    generalize RenderState.changeIn? name v frames = x at ih ⊢
    generalize RenderState.changeIn? name v frames' = x' at ih ⊢
    cases ih with
    | none => exact .none
    | some changed => exact .some (.pad changed)

end Pads

/-! ## States -/

/-- The states are the same but for positions and empty frames. -/
structure RenderState.Pads (m : List Bool) (s s' : RenderState) : Prop where
  globals : s'.globals = s.globals
  depth : s'.depth = s.depth
  output : s'.output = s.output
  frames : Stencil.Pads m s.frames s'.frames

/-- The second rendering has empty frames more, and needs no more calls than the first one may make. -/
def padded (m : List Bool) : Bond where
  state := RenderState.Pads m
  failure e _ e' _ := e'.cause = e.cause
  escape e := e.cause = .endlessBlocks

/-- Storing keeps states corresponding if the innermost frame belongs to both. -/
theorem padded_store {m : List Bool} {s s' : RenderState} (hm : Solid m) (h : s.Pads m s')
    (name : String) (v : Value) (declares : Bool) :
    (s.store name v declares).Pads m (s'.store name v declares) := by
  have hdeclare : (s.declare name v).Pads m (s'.declare name v) := by
    obtain ⟨globals, frames, position, depth, output⟩ := s
    obtain ⟨globals', frames', position', depth', output'⟩ := s'
    obtain ⟨rfl, rfl, rfl, hframes⟩ := h
    cases hframes with
    | same => cases frames <;> exact ⟨rfl, rfl, rfl, .same _⟩
    | frame frame rest => exact ⟨rfl, rfl, rfl, .frame _ rest⟩
    | pad => exact absurd rfl hm
  unfold RenderState.store
  split
  · exact hdeclare
  unfold RenderState.assign
  have hchange := h.frames.changeIn? name v
  generalize RenderState.changeIn? name v s.frames = x at hchange ⊢
  generalize RenderState.changeIn? name v s'.frames = x' at hchange ⊢
  cases hchange with
  | some hframes => exact ⟨h.globals, h.depth, h.output, hframes⟩
  | none =>
    dsimp only
    rw [h.globals]
    split
    · exact ⟨rfl, h.depth, h.output, h.frames⟩
    · exact hdeclare

/-- Two renderings of programs with one toolbox. -/
theorem padded_fair {env env' : RenderEnv} (htoolbox : env'.toolbox = env.toolbox) (m : List Bool) :
    (padded m).Fair env env' where
  evaluator := by rw [htoolbox]
  lookup s s' h := by
    funext name
    unfold RenderState.lookup
    rw [h.frames.lookupIn, h.globals]
  failure _ _ _ _ _ := rfl

/-! ## Steps -/

section

variable {α : Type} {m : List Bool} {x y : RenderM α}

theorem padded_within (frame : Table Value) (h : (padded (false :: m)).Paired x y) :
    (padded m).Paired (RenderM.within frame x) (RenderM.within frame y) := by
  intro s s' hs
  unfold RenderM.within
  have hout := h _ _ (⟨hs.globals, hs.depth, hs.output, .frame frame hs.frames⟩ :
    RenderState.Pads (false :: m) { s with frames := frame :: s.frames }
      { s' with frames := frame :: s'.frames })
  generalize x _ = r at hout
  generalize y _ = r' at hout
  cases hout with
  | @ok a t t' state =>
    refine .ok a ⟨state.globals, state.depth, state.output, ?_⟩
    have hframes := state.frames
    dsimp only
    generalize t.frames = frames at hframes
    generalize t'.frames = frames' at hframes
    cases hframes with
    | frame _ rest => exact rest
  | error failure => exact .error failure
  | escape escape => exact .escape escape

/-- The second rendering alone has one more frame. -/
theorem padded_pad (h : (padded (true :: m)).Paired x y) :
    (padded m).Paired x (RenderM.within {} y) := by
  intro s s' hs
  unfold RenderM.within
  have hout := h _ _ (⟨hs.globals, hs.depth, hs.output, .pad hs.frames⟩ :
    RenderState.Pads (true :: m) s { s' with frames := {} :: s'.frames })
  generalize x s = r at hout
  generalize y _ = r' at hout
  cases hout with
  | @ok a t t' state =>
    refine .ok a ⟨state.globals, state.depth, state.output, ?_⟩
    have hframes := state.frames
    dsimp only
    generalize t'.frames = frames' at hframes
    cases hframes with
    | pad rest => exact rest
  | error failure => exact .error failure
  | escape escape => exact .escape escape

theorem padded_mixin (h : (padded m).Paired x y) :
    (padded m).Paired (RenderM.called x) (RenderM.called y) := by
  intro s s' hs
  unfold RenderM.called
  have hdepth : s'.depth + 1 = s.depth + 1 := by rw [hs.depth]
  have hout := h _ _ (⟨hs.globals, hdepth, hs.output, hs.frames⟩ :
    RenderState.Pads m { s with depth := s.depth + 1 } { s' with depth := s'.depth + 1 })
  generalize x _ = r at hout
  generalize y _ = r' at hout
  cases hout with
  | ok a state =>
    exact .ok a ⟨state.globals, congrArg (· - 1) state.depth, state.output, state.frames⟩
  | error failure => exact .error failure
  | escape escape => exact .escape escape

end

theorem padded_write {m : List Bool} (text : String) :
    (padded m).Paired (modify (·.write text) : RenderM PUnit) (modify (·.write text)) :=
  .modify fun _ _ hs => ⟨hs.globals, hs.depth, congrArg (· ++ text) hs.output, hs.frames⟩

theorem padded_position {m : List Bool} (pos : Pos) :
    (padded m).Paired (modify fun s => { s with position := some pos } : RenderM PUnit)
      (modify fun s => { s with position := some pos }) :=
  .modify fun _ _ hs => ⟨hs.globals, hs.depth, hs.output, hs.frames⟩

/-- A body that is calm ends at its end. -/
theorem Calm.endsIn {env : RenderEnv} {call : List Instruction → RenderM Flow}
    {body : List Instruction} (h : Calm body) : EndsIn (· = .normal) (env.runBody call body) := by
  refine endsIn_body (P := (· = .normal)) rfl body fun flow hescapes => ?_
  obtain ⟨x, hx, hjump⟩ := hescapes.occurs
  have hquiet := h x hx
  cases x with
  | «break» | «continue» => cases hquiet
  | _ => cases hjump

/-! ## Bodies with and without calls -/

section

variable {env : RenderEnv} {call : List Instruction → RenderM Flow}

/-- One body behind another. -/
theorem runBody_append (body more : List Instruction) :
    env.runBody call (body ++ more) = (do
      match ← env.runBody call body with
      | .normal => env.runBody call more
      | flow => return flow) := by
  induction body with
  | nil => rfl
  | cons i is ih =>
    rw [List.cons_append, RenderEnv.runBody, RenderEnv.runBody, ih, bind_assoc]
    refine bind_congr fun flow => ?_
    cases flow <;> rfl

theorem runBody_singleton (i : Instruction) : env.runBody call [i] = env.runInstruction call i := by
  refine Eq.trans (bind_congr fun flow => ?_) (bind_pure (env.runInstruction call i))
  cases flow <;> rfl

end

/-- Calls in the first rendering do what they do in the second one; those of one block are left out. -/
structure Unfolds (name : String) (env env' : RenderEnv)
    (call call' : List Instruction → RenderM Flow) : Prop where
  toolbox : env'.toolbox = env.toolbox
  mixins : ∀ key, Option.Rel (fun mixin mixin' => mixin.params = mixin'.params ∧
    ∀ m, Solid m → (padded m).Paired (call mixin.body) (call' mixin'.body))
    (env.program.mixins.get? key) (env'.program.mixins.get? key)
  blocks : ∀ key, key ≠ name → Option.Rel (fun body body' =>
    ∀ m, Solid m → (padded m).Paired (call body) (call' body'))
    (env.program.blocks.get? key) (env'.program.blocks.get? key)

/-- If the block is the one that is left out, its call does what its instructions do. -/
def Answers (name : String) (added : List Instruction) (env env' : RenderEnv)
    (call call' : List Instruction → RenderM Flow) (key : String) : Prop :=
  key = name → ∀ m, (padded m).Paired (env.runBody call added)
    (env'.runInstruction call' (.callBlock name))

namespace Unfolds

variable {name : String} {added : List Instruction} {env env' : RenderEnv}
  {call call' : List Instruction → RenderM Flow} {m : List Bool}

theorem sameFilters (h : Unfolds name env env' call call') (p : Pipeline) :
    SameFilters env env' p := fun _ _ => by rw [h.toolbox]

theorem fair (h : Unfolds name env env' call call') : (padded m).Fair env env' :=
  padded_fair h.toolbox m

theorem eval (h : Unfolds name env env' call call') (p : Pipeline) :
    (padded m).Paired (env.eval p) (env'.eval p) := paired_eval h.fair (h.sameFilters p)

theorem callMixin (h : Unfolds name env env' call call') (key : String)
    (args : List Pipeline) :
    (padded m).Paired (env.callMixin call key args) (env'.callMixin call' key args) := by
  have hrel := h.mixins key
  generalize hx : env.program.mixins.get? key = x at hrel
  generalize hx' : env'.program.mixins.get? key = x' at hrel
  cases hrel with
  | none =>
    rw [RenderEnv.callMixin_of_none hx, RenderEnv.callMixin_of_none hx']
    exact paired_fail h.fair nofun
  | @some mixin mixin' hmixin =>
    obtain ⟨hparams, hbody⟩ := hmixin
    rw [RenderEnv.callMixin_of_some hx, RenderEnv.callMixin_of_some hx']
    refine .get fun s s' hs => ?_
    rw [hs.depth, RenderEnv.enterMixin, RenderEnv.enterMixin, hparams]
    split
    · exact paired_fail h.fair nofun
    · exact (Bond.Paired.mapM fun p _ => h.eval p).bind fun values =>
        (padded_mixin (padded_within _ (hbody _ (solid_cons m)))).bind fun _ => .pure _

theorem callBlock (h : Unfolds name env env' call call') {key : String} (hne : key ≠ name) :
    (padded m).Paired (env.callBlock call key) (env'.callBlock call' key) := by
  have hrel := h.blocks key hne
  unfold RenderEnv.callBlock
  generalize env.program.blocks.get? key = x at hrel ⊢
  generalize env'.program.blocks.get? key = x' at hrel ⊢
  cases hrel with
  | none => exact .pure _
  | some hbody => exact (padded_within {} (hbody _ (solid_cons m))).bind fun _ => .pure _

end Unfolds

section

variable {name : String} {added : List Instruction} {env env' : RenderEnv}
  {call call' : List Instruction → RenderM Flow}

/-- An instruction without bodies that calls no block does the same. -/
theorem padded_step (h : Unfolds name env env' call call') {m : List Bool} :
    ∀ i : Instruction, i.isBlock = false → (∀ key, i ≠ .callBlock key) → Solid m ∨ i.isQuiet = true →
    (padded m).Paired (env.runInstruction call i) (env'.runInstruction call' i)
  | .position pos, _, _, _ => (padded_position pos).bind fun _ => .pure _
  | .text text, _, _, _ => (padded_write text).bind fun _ => .pure _
  | .emit p, _, _, _ => (h.eval p).bind fun v => (padded_write v.render).bind fun _ => .pure _
  | .assign key op p declares, _, _, hm => (h.eval p).bind fun v => .get fun s s' hs => by
    rw [h.fair.lookup s s' hs]
    exact (paired_combine h.fair op _ v).bind fun v => (Bond.Paired.modify fun _ _ hs =>
      padded_store (hm.resolve_right nofun) hs key v declares).bind fun _ => .pure _
  | .capture key text declares, _, _, hm => (Bond.Paired.modify fun _ _ hs =>
      padded_store (hm.resolve_right nofun) hs key (.str text) declares).bind fun _ => .pure _
  | .callMixin key args, _, _, _ => (h.callMixin key args).bind fun _ => .pure _
  | .script source, _, _, hm => (paired_runScript h.fair (fun _ _ hs key v declares =>
      padded_store (hm.resolve_right nofun) hs key v declares) source).bind fun _ => .pure _
  | .break, _, _, _ | .continue, _, _, _ => .pure _
  | .callBlock key, _, hcall, _ => absurd rfl (hcall key)

/-- In a body nothing else stands for it. -/
theorem padded_leaf (h : Unfolds name env env' call call') {m : List Bool} {i : Instruction}
    (hleaf : i.isBlock = false) (hcall : ∀ key, i ≠ .callBlock key)
    (hm : Solid m ∨ i.isQuiet = true) :
    (padded m).Paired (env.runBody call (i.inlined (foldOne name added)))
      (env'.runInstruction call' i) := by
  rw [Instruction.inlined_leaf hleaf hcall, runBody_singleton]
  exact padded_step h i hleaf hcall hm

mutual

theorem padded_instruction (h : Unfolds name env env' call call') :
    ∀ (i : Instruction) (m : List Bool), Solid m ∨ i.isQuiet = true →
    CallsOnly (Answers name added env env' call call') [i] →
    (padded m).Paired (env.runBody call (i.inlined (foldOne name added)))
      (env'.runInstruction call' i)
  | .callBlock key, m, _, hcalls => by
    unfold Instruction.inlined foldOne
    by_cases hkey : key = name
    · rw [if_pos hkey]
      exact hkey ▸ hcalls key (.here List.mem_cons_self) hkey m
    · rw [if_neg hkey, Option.getD_none, runBody_singleton]
      exact (h.callBlock hkey).bind fun _ => .pure _
  | .choose branches otherwise, m, _, hcalls => by
    rw [Instruction.inlined, runBody_singleton]
    refine padded_branches h branches m _ _ (fun inner hmem => ?_)
      (padded_otherwise h otherwise m fun inner hmem => ?_)
    · exact hcalls.inner (List.mem_append_left _ hmem)
    · exact hcalls.inner (List.mem_append_right _ hmem)
  | .switch subject arms, m, _, hcalls => by
    rw [Instruction.inlined, runBody_singleton]
    refine (h.eval subject).bind fun v => ?_
    have hlabels : arms.map Arm.label =
        (inlinedArms (foldOne name added) arms).map Arm.label := by
      rw [inlinedArms_eq, List.map_map]
      exact List.map_congr_left fun ⟨_, _⟩ _ => rfl
    refine (paired_firstArm h.fair v hlabels fun _ _ p _ => h.sameFilters p).bind fun found => ?_
    cases found with
    | none => exact .pure _
    | some index =>
      have harms := padded_arms h index arms (false :: m) (solid_cons m) fun inner hmem =>
        hcalls.inner hmem
      exact (padded_within {} harms).bind fun _ => .pure _
  | .loop binding iterable offset limit body, m, _, hcalls => by
    rw [Instruction.inlined, runBody_singleton]
    refine (paired_entriesOf h.fair fun p _ => h.sameFilters p).bind fun (entries, isMap) => ?_
    refine (paired_iterate (fun entry => ?_) 0 entries).bind fun _ => .pure _
    exact padded_within _ (padded_body h body (false :: m) (.inl (solid_cons m))
      (hcalls.inner List.mem_cons_self))
  | .position _, _, hm, _ | .text _, _, hm, _ | .emit _, _, hm, _ | .assign .., _, hm, _
  | .capture .., _, hm, _ | .break, _, hm, _ | .continue, _, hm, _ | .callMixin .., _, hm, _
  | .script _, _, hm, _ => padded_leaf h rfl nofun hm
termination_by structural i => i

/-- A body with the instructions of the block in it does the same as the body that calls the block. -/
theorem padded_body (h : Unfolds name env env' call call') :
    ∀ (body : List Instruction) (m : List Bool), (Solid m ∨ ∀ i ∈ body, i.isQuiet = true) →
    CallsOnly (Answers name added env env' call call') body →
    (padded m).Paired (env.runBody call (inlinedBody (foldOne name added) body))
      (env'.runBody call' body)
  | [], _, _, _ => .pure _
  | i :: is, m, hm, hcalls => by
    rw [inlinedBody, runBody_append]
    refine (padded_instruction h i m (hm.imp_right fun hall => hall i List.mem_cons_self)
      hcalls.first).bind fun flow => ?_
    cases flow with
    | normal =>
      exact padded_body h is m (hm.imp_right fun hall j hj => hall j (List.mem_cons_of_mem i hj))
        hcalls.rest
    | «break» => exact .pure _
    | «continue» => exact .pure _
termination_by structural body => body

theorem padded_branches (h : Unfolds name env env' call call') :
    ∀ (branches : List Branch) (m : List Bool) (x y : RenderM Flow),
    (∀ inner ∈ branches.map (fun | .mk _ _ body => body),
      CallsOnly (Answers name added env env' call call') inner) → (padded m).Paired x y →
    (padded m).Paired (env.runBranches call (inlinedBranches (foldOne name added) branches) x)
      (env'.runBranches call' branches y)
  | [], _, _, _, _, hxy => hxy
  | .mk condition negated body :: bs, m, x, y, hcalls, hxy => by
    refine (h.eval condition).bind fun v => ?_
    split
    · exact padded_within {} (padded_body h body (false :: m) (.inl (solid_cons m))
        (hcalls _ List.mem_cons_self))
    · exact padded_branches h bs m x y (fun inner hmem => hcalls inner (List.mem_cons_of_mem _ hmem))
        hxy
termination_by structural branches => branches

theorem padded_otherwise (h : Unfolds name env env' call call') :
    ∀ (otherwise : Option (List Instruction)) (m : List Bool),
    (∀ inner ∈ otherwise.toList, CallsOnly (Answers name added env env' call call') inner) →
    (padded m).Paired (env.runOtherwise call (inlinedOtherwise (foldOne name added) otherwise))
      (env'.runOtherwise call' otherwise)
  | none, _, _ => .pure _
  | some body, m, hcalls => padded_within {} (padded_body h body (false :: m) (.inl (solid_cons m))
      (hcalls _ List.mem_cons_self))
termination_by structural otherwise => otherwise

theorem padded_arms (h : Unfolds name env env' call call') :
    ∀ (skip : Nat) (arms : List Arm) (m : List Bool), Solid m →
    (∀ inner ∈ arms.map (fun | .mk _ body => body),
      CallsOnly (Answers name added env env' call call') inner) →
    (padded m).Paired (env.runArms call skip (inlinedArms (foldOne name added) arms))
      (env'.runArms call' skip arms)
  | skip, [], _, _, _ => by cases skip <;> exact .pure _
  | skip + 1, .mk _ _ :: arms, m, hm, hcalls =>
    padded_arms h skip arms m hm fun inner hmem => hcalls inner (List.mem_cons_of_mem _ hmem)
  | 0, .mk _ body :: arms, m, hm, hcalls => by
    refine (padded_body h body m (.inl hm) (hcalls _ List.mem_cons_self)).bind fun flow => ?_
    cases flow with
    | normal =>
      exact padded_arms h 0 arms m hm fun inner hmem => hcalls inner (List.mem_cons_of_mem _ hmem)
    | «break» => exact .pure _
    | «continue» => exact .pure _
termination_by structural _ arms => arms

end

end

/-! ## Programs -/

theorem rel_mono {α β : Type} {R S : α → β → Prop} {x : Option α} {y : Option β}
    (h : Option.Rel R x y) (hRS : ∀ a b, R a b → S a b) : Option.Rel S x y := by
  cases h with
  | none => exact .none
  | some h => exact .some (hRS _ _ h)

section

variable {name : String} {added : List Instruction} {env env' : RenderEnv}

/-- A step that ends at its end may as well not tell. -/
theorem paired_normal {b : Bond} {x y : RenderM Flow} (h : b.Paired x y) (hx : EndsIn (· = .normal) x) :
    b.Paired x (do let _ ← y; return .normal) := by
  intro s s' hs
  show b.Outcome (x s) (EStateM.bind y _ s')
  unfold EStateM.bind
  have hends := hx s
  have hout := h s s' hs
  generalize x s = r at hout hends
  generalize y s' = r' at hout
  cases hout with
  | ok flow state =>
    obtain rfl := hends _ _ rfl
    exact .ok _ state
  | error failure => exact .error failure
  | escape escape => exact .escape escape

/-- The call of the block does what its instructions do, with one call less. -/
theorem answers (hfolds : env.program.Folds name added env'.program) (hcalm : Calm added)
    {call call' : List Instruction → RenderM Flow} (h : Unfolds name env env' call call')
    (key : String) : Answers name added env env' call (env'.runBody call') key := by
  rintro - m
  have hnone (key : String) (hocc : Occurs (.callBlock key) added) : False := nomatch hcalm _ hocc
  have hbody : (padded (true :: m)).Paired (env.runBody call added) (env'.runBody call' added) := by
    have hpaired : (padded (true :: m)).Paired
        (env.runBody call (inlinedBody (foldOne name added) added)) (env'.runBody call' added) :=
      padded_body h added (true :: m) (.inr fun i hi => hcalm i (.here hi))
        fun key hocc => (hnone key hocc).elim
    rwa [inlinedBody_of_fresh added fun key hocc => (hnone key hocc).elim] at hpaired
  have hnamed := hfolds.named
  rw [RenderEnv.runInstruction, RenderEnv.callBlock]
  cases hget : env'.program.blocks.get? name with
  | none =>
    rw [hget] at hnamed
    obtain rfl : [] = added := hnamed
    exact .pure _
  | some body =>
    rw [hget] at hnamed
    obtain rfl : body = added := hnamed
    have hcall := paired_normal (padded_pad hbody) hcalm.endsIn
    dsimp only
    rwa [bind_assoc]

/-- Bodies do the same in both renderings, if the second one may make twice as many calls. -/
theorem padded_called (htoolbox : env'.toolbox = env.toolbox)
    (hfolds : env.program.Folds name added env'.program) (hcalm : Calm added) {n k : Nat}
    (hk : 2 * n ≤ k) {m : List Bool} (hm : Solid m) (body : List Instruction) :
    (padded m).Paired (env.runCalled n (inlinedBody (foldOne name added) body))
      (env'.runCalled k body) := by
  induction n generalizing k m body with
  | zero => exact fun s s' _ => .escape rfl
  | succ n ih =>
    obtain ⟨k, rfl⟩ : ∃ j, k = j + 2 := ⟨k - 2, by omega⟩
    have hunfolds (j : Nat) (hj : 2 * n ≤ j) :
        Unfolds name env env' (env.runCalled n) (env'.runCalled j) := by
      refine ⟨htoolbox, fun key => ?_, fun key hne => ?_⟩
      · exact rel_mono (hfolds.mixins key) fun mixin mixin' hmixin =>
          ⟨hmixin.1, fun m hm => hmixin.2 ▸ ih hj hm mixin'.body⟩
      · exact rel_mono (hfolds.blocks key hne) fun body body' hbody m hm => hbody ▸ ih hj hm body'
    exact padded_body (hunfolds (k + 1) (by omega)) body m (.inl hm) fun key _ =>
      answers hfolds hcalm (hunfolds k (by omega)) key

end

end Stencil
