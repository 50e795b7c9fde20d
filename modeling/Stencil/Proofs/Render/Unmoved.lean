import Stencil.Render.Run

/-!
# Steps that change nothing

A step may end with a result or in a failure; `RenderM.final` is the state that it leaves behind in
either case. Evaluating leaves the state as it is, also where it fails.

* `unmoved_eval`, `unmoved_entriesOf`, `unmoved_firstArm`: what a body evaluates before it runs
  anything changes nothing.
-/

namespace Stencil

open RenderM

/-! ## The state that is left -/

/-- The state that a step leaves behind, whether it fails or not. -/
def RenderM.final {α : Type} (x : RenderM α) (s : RenderState) : RenderState :=
  match x s with
  | .ok _ t => t
  | .error _ t => t

section

variable {α β γ : Type} {x : RenderM α} {f : α → RenderM β} {s t : RenderState}

theorem final_of_ok {a : α} (h : x s = .ok a t) : x.final s = t := by
  simp [final, h]

theorem final_of_error {e : Error} (h : x s = .error e t) : x.final s = t := by
  simp [final, h]

@[simp]
theorem final_pure (a : α) (s : RenderState) : final (pure a : RenderM α) s = s := rfl

@[simp]
theorem final_fail (env : RenderEnv) (cause : Cause) (s : RenderState) :
    final (env.fail cause : RenderM α) s = s := rfl

theorem bind_of_ok {a : α} (h : x s = .ok a t) : (x >>= f) s = f a t := by
  show EStateM.bind x f s = _
  simp only [EStateM.bind, h]

theorem bind_of_error {e : Error} (h : x s = .error e t) : (x >>= f) s = .error e t := by
  show EStateM.bind x f s = _
  simp only [EStateM.bind, h]

theorem final_bind_ok {a : α} (h : x s = .ok a t) : (x >>= f).final s = (f a).final t := by
  simp only [final, bind_of_ok h]

theorem final_bind_error {e : Error} (h : x s = .error e t) : (x >>= f).final s = t :=
  final_of_error (bind_of_error h)

theorem within_of_ok {frame : Table Value} {a : α}
    (h : x { s with frames := frame :: s.frames } = .ok a t) :
    RenderM.within frame x s = .ok a { t with frames := t.frames.drop 1 } := by
  simp only [RenderM.within, h]

theorem within_of_error {frame : Table Value} {e : Error}
    (h : x { s with frames := frame :: s.frames } = .error e t) :
    RenderM.within frame x s = .error e { t with frames := t.frames.drop 1 } := by
  simp only [RenderM.within, h]

/-- The result of a step, unless it fails. -/
def RenderM.value? (x : RenderM α) (s : RenderState) : Option α :=
  match x s with
  | .ok a _ => some a
  | .error .. => none

/-! ## Evaluating -/

/-- A step that leaves the state as it is, also if it fails. -/
def Unmoved (x : RenderM α) : Prop := ∀ s, x.final s = s

namespace Unmoved

theorem pure (a : α) : Unmoved (pure a : RenderM α) := final_pure a

theorem fail (env : RenderEnv) (cause : Cause) : Unmoved (env.fail cause : RenderM α) :=
  final_fail env cause

theorem bind (hx : Unmoved x) (hf : ∀ a, Unmoved (f a)) : Unmoved (x >>= f) := by
  intro s
  have hs := hx s
  cases hr : x s with
  | ok a t =>
    rw [final_of_ok hr] at hs
    rw [final_bind_ok hr, hf a t, hs]
  | error e t =>
    rw [final_of_error hr] at hs
    rw [final_bind_error hr, hs]

/-- A step that changes nothing is known by its result. -/
theorem ok_of_value? (hx : Unmoved x) {a : α} (h : x.value? s = some a) : x s = .ok a s := by
  have hs := hx s
  unfold value? at h
  cases hr : x s with
  | ok b t =>
    rw [final_of_ok hr] at hs
    rw [hr] at h
    rw [hs, Option.some.inj h]
  | error e t =>
    rw [hr] at h
    cases h

theorem get : Unmoved (get : RenderM RenderState) := fun _ => rfl

theorem mapM {f : γ → RenderM α} (hf : ∀ c, Unmoved (f c)) (cs : List γ) :
    Unmoved (cs.mapM f) := by
  induction cs with
  | nil => exact pure []
  | cons c cs ih =>
    rw [List.mapM_cons]
    exact (hf c).bind fun a => ih.bind fun as => pure _

theorem foldlM {f : α → γ → RenderM α} (hf : ∀ a c, Unmoved (f a c)) (a : α) (cs : List γ) :
    Unmoved (cs.foldlM f a) := by
  induction cs generalizing a with
  | nil => exact pure a
  | cons c cs ih =>
    rw [List.foldlM_cons]
    exact (hf a c).bind ih

end Unmoved

end

section

variable {env : RenderEnv}

theorem unmoved_evaluate (expression : String) : Unmoved (env.evaluate expression) := by
  unfold RenderEnv.evaluate
  apply Unmoved.get.bind
  intro s
  split
  · exact .pure _
  · exact .fail env _

theorem unmoved_applyFilter (v : Value) (call : FilterCall) : Unmoved (env.applyFilter v call) := by
  unfold RenderEnv.applyFilter
  split
  · exact .fail env _
  · apply (Unmoved.mapM unmoved_evaluate call.args).bind
    intro args
    split
    · exact .pure _
    · exact .fail env _

theorem unmoved_eval (p : Pipeline) : Unmoved (env.eval p) := by
  unfold RenderEnv.eval
  apply Unmoved.get.bind
  intro s
  split
  · exact .fail env _
  · exact (unmoved_evaluate p.base).bind fun v => .foldlM unmoved_applyFilter v p.filters

theorem unmoved_combine (op : AssignOp) (current v : Value) :
    Unmoved (env.combine op current v) := by
  unfold RenderEnv.combine
  split
  · exact .pure _
  · split
    · exact .pure _
    · split
      · exact .pure _
      · exact .fail env _
      · exact .fail env _

theorem unmoved_bound (p : Pipeline) : Unmoved (env.bound p) := by
  unfold RenderEnv.bound
  apply (unmoved_eval p).bind
  intro v
  split
  · exact .pure _
  · exact .fail env _

theorem unmoved_entriesOf (iterable : Iterable) : Unmoved (env.entriesOf iterable) := by
  cases iterable with
  | pipeline p =>
    apply (unmoved_eval p).bind
    intro v
    unfold RenderEnv.entries
    split <;> first | exact .pure _ | exact .fail env _
  | range start stop =>
    exact (unmoved_bound start).bind fun _ => (unmoved_bound stop).bind fun _ => .pure _

theorem unmoved_anyEqual (subject : Value) (ps : List Pipeline) :
    Unmoved (env.anyEqual subject ps) := by
  induction ps with
  | nil => exact .pure _
  | cons p ps ih =>
    unfold RenderEnv.anyEqual
    apply (unmoved_eval p).bind
    intro v
    split
    · exact .pure _
    · exact ih

theorem unmoved_matchingArm (subject : Value) (index : Nat) (arms : List Arm) :
    Unmoved (env.matchingArm subject index arms) := by
  induction arms generalizing index with
  | nil => exact .pure _
  | cons arm arms ih =>
    obtain ⟨label, body⟩ := arm
    cases label with
    | default => exact ih (index + 1)
    | values ps =>
      unfold RenderEnv.matchingArm
      apply (unmoved_anyEqual subject ps).bind
      intro equal
      split
      · exact .pure _
      · exact ih (index + 1)

theorem unmoved_firstArm (subject : Value) (arms : List Arm) :
    Unmoved (env.firstArm subject arms) := by
  unfold RenderEnv.firstArm
  apply (unmoved_matchingArm subject 0 arms).bind
  intro found
  split <;> exact .pure _

end

end Stencil
