import Stencil.Proofs.Generation.Filters
import Stencil.Render.Run

/-!
# Two renderings side by side

A `Bond` tells which states of two renderings correspond, and which failures. `Paired b x y` compares two
steps: from corresponding states, they give the same result and leave corresponding states behind, or
both fail.

* `Paired.bind`, `Paired.within`, `Paired.called`: paired steps make up paired steps.
* `paired_eval`: a pipeline has the same value in both renderings, if the bond is `Fair`.
* `paired_entriesOf`, `paired_firstArm`, `paired_iterate`: so have the heads of loops and cases.
-/

namespace Stencil

/-! ## Steps -/

/-- What two renderings have in common, step by step. -/
structure Bond where
  /-- States that correspond. -/
  state : RenderState → RenderState → Prop
  /-- Failures that correspond, with the states they leave behind. -/
  failure : Error → RenderState → Error → RenderState → Prop
  /-- Errors of the first rendering behind which the second one may do anything. -/
  escape : Error → Prop

namespace Bond

variable {α : Type} (b : Bond)

/-- Results that correspond. -/
inductive Outcome : EStateM.Result Error RenderState α → EStateM.Result Error RenderState α → Prop where
  | ok (a : α) {s s' : RenderState} (state : b.state s s') : Outcome (.ok a s) (.ok a s')
  | error {e e' : Error} {s s' : RenderState} (failure : b.failure e s e' s') :
      Outcome (.error e s) (.error e' s')
  | escape {e : Error} {s : RenderState} {r : EStateM.Result Error RenderState α}
      (escape : b.escape e) : Outcome (.error e s) r

/-- The steps do the same, as far as the bond tells. -/
def Paired (x y : RenderM α) : Prop := ∀ s s', b.state s s' → b.Outcome (x s) (y s')

namespace Paired

variable {b} {b₁ : Bond} {β γ : Type} {x y : RenderM α} {k l : α → RenderM β}

theorem pure (a : α) : b.Paired (pure a) (pure a) := fun _ _ h => .ok a h

theorem bind (hx : b.Paired x y) (hk : ∀ a, b.Paired (k a) (l a)) :
    b.Paired (x >>= k) (y >>= l) := by
  intro s s' hs
  show b.Outcome (EStateM.bind x k s) (EStateM.bind y l s')
  unfold EStateM.bind
  have hout := hx s s' hs
  generalize x s = r at hout
  generalize y s' = r' at hout
  cases hout with
  | ok a state => exact hk a _ _ state
  | error failure => exact .error failure
  | escape escape => exact .escape escape

/-- What is made of the states must be the same, if they correspond. -/
theorem get {k l : RenderState → RenderM β} (h : ∀ s s', b.state s s' → b.Paired (k s) (l s')) :
    b.Paired (MonadState.get >>= k) (MonadState.get >>= l) := fun s s' hs => h s s' hs s s' hs

theorem modify {f : RenderState → RenderState} (h : ∀ s s', b.state s s' → b.state (f s) (f s')) :
    b.Paired (modify f) (modify f) := fun s s' hs => .ok PUnit.unit (h s s' hs)

theorem mapM {f g : γ → RenderM α} {cs : List γ} (h : ∀ c ∈ cs, b.Paired (f c) (g c)) :
    b.Paired (cs.mapM f) (cs.mapM g) := by
  induction cs with
  | nil => exact pure []
  | cons c cs ih =>
    rw [List.mapM_cons, List.mapM_cons]
    exact (h c List.mem_cons_self).bind fun a =>
      (ih fun c hc => h c (List.mem_cons_of_mem _ hc)).bind fun as => pure _

theorem foldlM {f g : α → γ → RenderM α} {cs : List γ}
    (h : ∀ a, ∀ c ∈ cs, b.Paired (f a c) (g a c)) (a : α) :
    b.Paired (cs.foldlM f a) (cs.foldlM g a) := by
  induction cs generalizing a with
  | nil => exact pure a
  | cons c cs ih =>
    rw [List.foldlM_cons, List.foldlM_cons]
    exact (h a c List.mem_cons_self).bind (ih fun a c hc => h a c (List.mem_cons_of_mem _ hc))

theorem forIn {f g : γ → β → RenderM (ForInStep β)} (h : ∀ c r, b.Paired (f c r) (g c r))
    (cs : List γ) (r : β) : b.Paired (forIn cs r f) (forIn cs r g) := by
  induction cs generalizing r with
  | nil => exact pure r
  | cons c cs ih =>
    rw [List.forIn_cons, List.forIn_cons]
    refine (h c r).bind fun step => ?_
    cases step with
    | done r => exact pure r
    | yield r => exact ih r

end Paired

end Bond

/-! ## Values -/

/-- The filters of a pipeline are the same in both renderings. -/
def SameFilters (env env' : RenderEnv) (p : Pipeline) : Prop :=
  ∀ call ∈ p.filters, env'.toolbox.filters.get? call.name = env.toolbox.filters.get? call.name

/-- The label of an arm. -/
def Arm.label : Arm → ArmLabel
  | mk label _ => label

/-- The renderings have one evaluator. Names have the same values in corresponding states, and failures
there correspond. -/
structure Bond.Fair (b : Bond) (env env' : RenderEnv) : Prop where
  evaluator : env'.toolbox.evaluator = env.toolbox.evaluator
  lookup : ∀ s s', b.state s s' → s'.lookup = s.lookup
  failure : ∀ s s', b.state s s' → ∀ cause, cause ≠ .endlessBlocks →
    b.failure (.near cause env.files s.position) s (.near cause env'.files s'.position) s'

section

variable {b : Bond} {env env' : RenderEnv}

theorem paired_fail {α : Type} (h : b.Fair env env') {cause : Cause} (hcause : cause ≠ .endlessBlocks) :
    b.Paired (env.fail cause : RenderM α) (env'.fail cause) :=
  fun s s' hs => .error (h.failure s s' hs cause hcause)

theorem paired_evaluate (h : b.Fair env env') (expression : String) :
    b.Paired (env.evaluate expression) (env'.evaluate expression) := by
  unfold RenderEnv.evaluate
  refine .get fun s s' hs => ?_
  rw [h.evaluator, h.lookup s s' hs]
  split
  · exact .pure _
  · exact paired_fail h nofun

theorem paired_applyFilter (h : b.Fair env env') (v : Value) {call : FilterCall}
    (hcall : env'.toolbox.filters.get? call.name = env.toolbox.filters.get? call.name) :
    b.Paired (env.applyFilter v call) (env'.applyFilter v call) := by
  unfold RenderEnv.applyFilter
  rw [hcall]
  split
  · exact paired_fail h nofun
  · refine .bind (.mapM fun x _ => paired_evaluate h x) fun args => ?_
    split
    · exact .pure _
    · exact paired_fail h nofun

/-- A pipeline has the same value in both renderings. -/
theorem paired_eval (h : b.Fair env env') {p : Pipeline} (hp : SameFilters env env' p) :
    b.Paired (env.eval p) (env'.eval p) := by
  unfold RenderEnv.eval
  refine .get fun s s' hs => ?_
  rw [h.lookup s s' hs]
  split
  · exact paired_fail h nofun
  · exact .bind (paired_evaluate h p.base) fun v =>
      .foldlM (fun v call hcall => paired_applyFilter h v (hp call hcall)) v

theorem paired_combine (h : b.Fair env env') (op : AssignOp) (current v : Value) :
    b.Paired (env.combine op current v) (env'.combine op current v) := by
  unfold RenderEnv.combine
  split
  · exact .pure _
  · split
    · exact .pure _
    · split
      · exact .pure _
      · exact paired_fail h nofun
      · exact paired_fail h nofun

/-- A script does the same if storing keeps states corresponding. -/
theorem paired_runScript (h : b.Fair env env')
    (hstore : ∀ s s', b.state s s' → ∀ name v declares,
      b.state (s.store name v declares) (s'.store name v declares)) (source : String) :
    b.Paired (env.runScript source) (env'.runScript source) := by
  unfold RenderEnv.runScript
  split
  · exact paired_fail h nofun
  · next statements _ =>
    refine .bind (.forIn (fun statement _ => ?_) statements PUnit.unit) fun _ => .pure _
    exact (paired_evaluate h statement.value).bind fun v =>
      (Bond.Paired.modify fun s s' hs => hstore s s' hs _ v _).bind fun _ => .pure _

theorem paired_bound (h : b.Fair env env') {p : Pipeline} (hp : SameFilters env env' p) :
    b.Paired (env.bound p) (env'.bound p) := by
  unfold RenderEnv.bound
  refine (paired_eval h hp).bind fun v => ?_
  split
  · exact .pure _
  · exact paired_fail h nofun

theorem paired_entriesOf (h : b.Fair env env') {iterable : Iterable}
    (hps : ∀ p ∈ Checker.pipelinesOf iterable, SameFilters env env' p) :
    b.Paired (env.entriesOf iterable) (env'.entriesOf iterable) := by
  cases iterable with
  | pipeline p =>
    refine (paired_eval h (hps p List.mem_cons_self)).bind fun v => ?_
    unfold RenderEnv.entries
    split <;> first | exact .pure _ | exact paired_fail h nofun
  | range start stop =>
    exact (paired_bound h (hps start List.mem_cons_self)).bind fun _ =>
      (paired_bound h (hps stop (List.mem_cons_of_mem _ List.mem_cons_self))).bind fun _ =>
        .pure _

theorem paired_anyEqual (h : b.Fair env env') (subject : Value) {ps : List Pipeline}
    (hps : ∀ p ∈ ps, SameFilters env env' p) :
    b.Paired (env.anyEqual subject ps) (env'.anyEqual subject ps) := by
  induction ps with
  | nil => exact .pure _
  | cons p ps ih =>
    unfold RenderEnv.anyEqual
    refine (paired_eval h (hps p List.mem_cons_self)).bind fun v => ?_
    split
    · exact .pure _
    · exact ih fun q hq => hps q (List.mem_cons_of_mem _ hq)

/-- The same arm runs if the labels are the same. -/
theorem paired_firstArm (h : b.Fair env env') (subject : Value) {arms arms' : List Arm}
    (hlabels : arms'.map Arm.label = arms.map Arm.label)
    (hps : ∀ arm ∈ arms, ∀ p ∈ Checker.labelPipelines arm.label, SameFilters env env' p) :
    b.Paired (env.firstArm subject arms) (env'.firstArm subject arms') := by
  have hmatching (index : Nat) :
      b.Paired (env.matchingArm subject index arms) (env'.matchingArm subject index arms') := by
    induction arms generalizing arms' index with
    | nil =>
      obtain rfl := List.map_eq_nil_iff.1 hlabels
      exact .pure _
    | cons arm arms ih =>
      obtain ⟨arm', more', rfl, hlabel, hmore⟩ := List.map_eq_cons_iff.1 hlabels
      have hrest := ih hmore fun other hother => hps other (List.mem_cons_of_mem _ hother)
      obtain ⟨label, body⟩ := arm
      obtain ⟨label', body'⟩ := arm'
      obtain rfl : label' = label := hlabel
      cases label' with
      | default => exact hrest (index + 1)
      | values ps =>
        refine (paired_anyEqual h subject (hps _ List.mem_cons_self)).bind fun equal => ?_
        split
        · exact .pure _
        · exact hrest (index + 1)
  have hdefault : arms'.findIdx? RenderEnv.isDefault = arms.findIdx? RenderEnv.isDefault := by
    have hlabel : RenderEnv.isDefault = (· == ArmLabel.default) ∘ Arm.label := by
      funext arm
      obtain ⟨label, body⟩ := arm
      cases label <;> rfl
    rw [hlabel, ← List.findIdx?_map, ← List.findIdx?_map, hlabels]
  unfold RenderEnv.firstArm
  refine (hmatching 0).bind fun found => ?_
  rw [hdefault]
  split <;> exact .pure _

theorem paired_iterate {runs : Nat → Bool} {step step' : Value × Value → RenderM Flow}
    (hstep : ∀ entry, b.Paired (step entry) (step' entry)) (index : Nat)
    (entries : List (Value × Value)) :
    b.Paired (RenderEnv.iterate runs step index entries) (RenderEnv.iterate runs step' index entries) := by
  induction entries generalizing index with
  | nil => exact .pure _
  | cons entry rest ih =>
    rw [RenderEnv.iterate, RenderEnv.iterate]
    split
    · refine (hstep entry).bind fun flow => ?_
      cases flow with
      | normal => exact ih (index + 1)
      | «break» => exact .pure _
      | «continue» => exact ih (index + 1)
    · exact ih (index + 1)

end

end Stencil
