import Stencil.Proofs.Render.Twin
import Stencil.Proofs.Render.Unmoved

/-!
# Runs keep names bound

`Bound` says of one run that the names of a scope are found. `Keeps` is what a step that does not
fail makes of a state, `Steady` that it leaves the state as it is.

* `steady_eval`: evaluating changes nothing.
* `keeps_body`: where a body ends, the names are found that were found before it, and those that its
  tags have bound, unless it ends in a jump.
* `keeps_called`: the bodies of mixins and blocks keep the names of their callers.
-/

namespace Stencil

/-! ## Steps -/

/-- From a state that satisfies `A`, a step that does not fail gives a result and a state that satisfy
`B`. -/
def Keeps {α : Type} (A : RenderState → Prop) (B : α → RenderState → Prop) (x : RenderM α) : Prop :=
  ∀ s, A s → ∀ a t, x s = .ok a t → B a t

/-- A step that leaves the state as it is, unless it fails. -/
def Steady {α : Type} (x : RenderM α) : Prop := ∀ s a t, x s = .ok a t → t = s

section

variable {α β : Type} {A : RenderState → Prop} {B : α → RenderState → Prop}
  {C : β → RenderState → Prop}

theorem ok_of_bindM {x : RenderM α} {f : α → RenderM β} {s t : RenderState} {b : β}
    (h : (x >>= f) s = .ok b t) : ∃ a u, x s = .ok a u ∧ f a u = .ok b t := by
  have hbind : EStateM.bind x f s = .ok b t := h
  unfold EStateM.bind at hbind
  split at hbind
  · next a u hx => exact ⟨a, u, hx, hbind⟩
  · cases hbind

namespace Keeps

theorem pure {a : α} (h : ∀ s, A s → B a s) : Keeps A B (pure a) := by
  intro s hA _ t ht
  cases ht
  exact h s hA

theorem bind {x : RenderM α} {f : α → RenderM β} (hx : Keeps A B x) (hf : ∀ a, Keeps (B a) C (f a)) :
    Keeps A C (x >>= f) := by
  intro s hA b t ht
  obtain ⟨a, u, hu, hrest⟩ := ok_of_bindM ht
  exact hf a u (hx s hA a u hu) b t hrest

theorem mono {B' : α → RenderState → Prop} {x : RenderM α} (hx : Keeps A B x)
    (h : ∀ a t, B a t → B' a t) : Keeps A B' x :=
  fun s hA a t ht => h a t (hx s hA a t ht)

theorem modify {f : RenderState → RenderState} {B : Unit → RenderState → Prop}
    (h : ∀ s, A s → B () (f s)) : Keeps A B (modify f) := by
  intro s hA a t ht
  cases ht
  exact h s hA

theorem fail (env : RenderEnv) (cause : Cause) : Keeps A B (env.fail cause : RenderM α) := by
  intro s _ a t ht
  cases ht

end Keeps

namespace Steady

theorem of_unmoved {x : RenderM α} (h : Unmoved x) : Steady x := by
  intro s a t ht
  rw [← final_of_ok ht]
  exact h s

theorem get : Steady (get : RenderM RenderState) := of_unmoved .get

theorem keeps {x : RenderM α} (hx : Steady x) : Keeps A (fun _ => A) x := by
  intro s hA a t ht
  rw [hx s a t ht]
  exact hA

end Steady

end

/-! ## Evaluating -/

section

variable {env : RenderEnv}

theorem steady_evaluate (expression : String) : Steady (env.evaluate expression) :=
  .of_unmoved (unmoved_evaluate expression)

/-- Evaluating a pipeline changes nothing. -/
theorem steady_eval (p : Pipeline) : Steady (env.eval p) := .of_unmoved (unmoved_eval p)

theorem steady_evals (ps : List Pipeline) : Steady (ps.mapM env.eval) :=
  .of_unmoved (.mapM unmoved_eval ps)

theorem steady_combine (op : AssignOp) (current v : Value) : Steady (env.combine op current v) :=
  .of_unmoved (unmoved_combine op current v)

theorem steady_bound (p : Pipeline) : Steady (env.bound p) := .of_unmoved (unmoved_bound p)

theorem steady_entriesOf (iterable : Iterable) : Steady (env.entriesOf iterable) :=
  .of_unmoved (unmoved_entriesOf iterable)

theorem steady_anyEqual (subject : Value) (ps : List Pipeline) : Steady (env.anyEqual subject ps) :=
  .of_unmoved (unmoved_anyEqual subject ps)

theorem steady_firstArm (subject : Value) (arms : List Arm) : Steady (env.firstArm subject arms) :=
  .of_unmoved (unmoved_firstArm subject arms)

end

/-! ## Bound names -/

/-- The names of the scope are found. -/
def Bound (σ : Scope) (s : RenderState) : Prop := Agrees (fun _ => True) σ s s

namespace Bound

variable {σ : Scope} {s t : RenderState} {name : String}

theorem of_held (h : Held s.globals s.globals σ.frames s.frames) : Bound σ s :=
  ⟨rfl, fun _ _ => rfl, h⟩

/-- A name that the scope has is found. -/
theorem find (h : Bound σ s) (hname : σ.has name = true) : (s.lookup name).isSome = true := by
  rw [RenderState.lookup]
  rcases h.held.find (Scope.has_iff.1 hname) with ⟨frame, hmem, hframe⟩ | ⟨_, hglobal⟩
  · obtain ⟨v, hv⟩ := Option.isSome_iff_exists.1 (Agrees.lookup_frames hmem hframe)
    rw [hv]
    rfl
  · rw [Option.isSome_or, Bool.or_eq_true]
    exact .inr hglobal

theorem store (h : Bound σ s) (name : String) (v : Value) (declares : Bool) :
    Bound (σ.add name) (s.store name v declares) :=
  Agrees.store h v fun _ => .inr rfl

theorem depth_pos (h : Bound σ s) : 0 < σ.depth := by
  obtain ⟨names, outer, hframes⟩ := h.held.exists_cons
  rw [Scope.depth, hframes]
  exact Nat.succ_pos _

/-- Names may be forgotten. -/
theorem subset {names more : List String} (h : Bound (σ.addAll more) s)
    (hsub : ∀ name ∈ names, name ∈ more) : Bound (σ.addAll names) s := by
  have hdepth := h.depth_pos
  obtain ⟨frames⟩ := σ
  cases frames with
  | nil =>
    rw [Scope.depth_addAll] at hdepth
    cases hdepth
  | cons first outer =>
    have hheld := h.held
    rw [Scope.addAll_frames] at hheld
    refine of_held ?_
    rw [Scope.addAll_frames]
    have hmem (n : String) (hn : n ∈ first.insertAll names) : n ∈ first.insertAll more := by
      rw [NameSet.mem_insertAll] at hn ⊢
      exact hn.imp_left (hsub n)
    generalize s.globals = g at hheld ⊢
    generalize s.frames = frames at hheld ⊢
    cases hheld with
    | globals sure => exact .globals fun n hn => sure n (hmem n hn)
    | frame sure held => exact .frame (fun n hn => sure n (hmem n hn)) held

theorem of_addAll {more : List String} (h : Bound (σ.addAll more) s) : Bound σ s := by
  have hnone : Bound (σ.addAll []) s := h.subset fun _ hname => absurd hname List.not_mem_nil
  exact hnone

/-- A body begins in a frame of its own. -/
theorem opened (h : Bound σ s) {frame : Table Value} {names : List String}
    (hnames : ∀ name ∈ names, frame.contains name = true) :
    Bound (σ.create.addAll names) { s with frames := frame :: s.frames } :=
  Agrees.opened h hnames

/-- Its frame is left in the end. -/
theorem within {α : Type} {frame : Table Value} {names : List String} {x : RenderM α}
    (hnames : ∀ name ∈ names, frame.contains name = true)
    (hx : Keeps (Bound (σ.create.addAll names)) (fun _ => Bound (σ.create.addAll names)) x) :
    Keeps (Bound σ) (fun _ => Bound σ) (RenderM.within frame x) := by
  intro s h a t ht
  have hresult := hx _ (h.opened hnames)
  unfold RenderM.within at ht
  split at ht
  · next a' u hu =>
    cases ht
    exact Agrees.closed (hresult a u hu) h.depth_pos
  · cases ht

/-- A branch, an arm or a block has no names to begin with. -/
theorem within_empty {α : Type} {x : RenderM α}
    (hx : Keeps (Bound σ.create) (fun _ => Bound σ.create) x) :
    Keeps (Bound σ) (fun _ => Bound σ) (RenderM.within {} x) := by
  have hnames : ∀ name ∈ ([] : List String), ({} : Table Value).contains name = true :=
    fun _ hname => absurd hname List.not_mem_nil
  exact within hnames hx

/-- The names do not depend on the position and the calls that are open. -/
theorem called {α : Type} {x : RenderM α} (hx : Keeps (Bound σ) (fun _ => Bound σ) x) :
    Keeps (Bound σ) (fun _ => Bound σ) (RenderM.called x) := by
  intro s h a t ht
  have hresult := hx { s with depth := s.depth + 1 } (of_held h.held)
  unfold RenderM.called at ht
  split at ht
  · next a' u hu =>
    cases ht
    exact of_held (hresult a u hu).held
  · cases ht

end Bound

/-! ## Runs -/

/-- How some instructions end: the names of the scope are found, and unless they end in a jump, so are
those that they bind. -/
def Leaves (σ : Scope) (body : List Instruction) (flow : Flow) (t : RenderState) : Prop :=
  Bound σ t ∧ (flow = .normal → Bound (σ.behind body) t)

section

variable {env : RenderEnv} {σ : Scope}

theorem leaves_of_binds {i : Instruction} (hbinds : i.binds = []) (flow : Flow) {t : RenderState}
    (h : Bound σ t) : Leaves σ [i] flow t :=
  ⟨h, fun _ => by rwa [Scope.behind_singleton hbinds]⟩

/-- An instruction leaves the names that it binds. -/
theorem leaves_behind (body : List Instruction) (flow : Flow) {t : RenderState}
    (h : Bound (σ.behind body) t) : Leaves σ body flow t :=
  ⟨h.of_addAll, fun _ => h⟩

/-- The names that a script assigns are found behind it. -/
theorem keeps_script (source : String) :
    Keeps (Bound σ) (fun _ => Bound (σ.addAll (Handler.declaredNames source)))
      (env.runScript source) := by
  have hloop (statements : List Statement) (σ : Scope) :
      Keeps (Bound σ) (fun _ => Bound (σ.addAll (statements.map Statement.name)))
        (forIn statements PUnit.unit fun statement (_ : PUnit) => do
          let v ← env.evaluate statement.value
          modify (·.store statement.name v statement.declares)
          pure (.yield PUnit.unit)) := by
    induction statements generalizing σ with
    | nil => exact .pure fun _ h => h
    | cons statement statements ih =>
      rw [List.forIn_cons]
      refine .bind (B := fun step t => step = .yield PUnit.unit ∧ Bound (σ.add statement.name) t) ?_ ?_
      · refine .bind (steady_evaluate statement.value).keeps fun v => ?_
        refine .bind (Keeps.modify (B := fun _ => Bound (σ.add statement.name))
          fun s hs => hs.store statement.name v statement.declares) fun _ => ?_
        exact .pure fun _ h => ⟨rfl, h⟩
      · rintro step s ⟨rfl, hs⟩
        exact ih (σ.add statement.name) s hs
  unfold RenderEnv.runScript
  cases hread : readScript source with
  | error fault => exact .fail env _
  | ok statements =>
    have hdeclared : Handler.declaredNames source =
        (statements.filter (·.declares)).map Statement.name := by
      rw [Handler.declaredNames, hread]
    refine .bind (hloop statements σ) fun _ => .pure fun t ht => ?_
    rw [hdeclared]
    refine ht.subset fun name hname => ?_
    obtain ⟨statement, hmem, rfl⟩ := List.mem_map.1 hname
    exact List.mem_map.2 ⟨statement, (List.mem_filter.1 hmem).1, rfl⟩

variable {call : List Instruction → RenderM Flow}

theorem keeps_iterate {runs : Nat → Bool} {step : Value × Value → RenderM Flow}
    (hstep : ∀ entry, Keeps (Bound σ) (fun _ => Bound σ) (step entry)) (index : Nat)
    (entries : List (Value × Value)) :
    Keeps (Bound σ) (fun _ => Bound σ) (RenderEnv.iterate runs step index entries) := by
  induction entries generalizing index with
  | nil => exact .pure fun _ h => h
  | cons entry rest ih =>
    rw [RenderEnv.iterate]
    split
    · refine .bind (hstep entry) fun flow => ?_
      cases flow with
      | normal => exact ih (index + 1)
      | «break» => exact .pure fun _ h => h
      | «continue» => exact ih (index + 1)
    · exact ih (index + 1)

/-- The frame of a mixin has all its parameters. -/
theorem contains_params (params : List String) (values : List Value) :
    ∀ name ∈ params, (Table.ofList (params.mapIdx fun i : Nat => fun param =>
      (param, values.getD i .undefined))).contains name = true := by
  intro name hname
  obtain ⟨i, hi, rfl⟩ := List.getElem_of_mem hname
  exact Table.contains_ofList.2 ⟨_, List.mem_mapIdx.2 ⟨i, hi, rfl⟩, rfl⟩

/-- What is called keeps the names of the caller. -/
theorem keeps_callMixin (hcall : ∀ σ body, Keeps (Bound σ) (fun _ => Bound σ) (call body))
    (name : String) (args : List Pipeline) :
    Keeps (Bound σ) (fun _ => Bound σ) (env.callMixin call name args) := by
  cases hmixin : env.program.mixins.get? name with
  | none =>
    rw [RenderEnv.callMixin_of_none hmixin]
    exact .fail env _
  | some mixin =>
    rw [RenderEnv.callMixin_of_some hmixin]
    refine .bind Steady.get.keeps fun s => ?_
    split
    · exact .fail env _
    · refine .bind (steady_evals args).keeps fun values => ?_
      have hbody := Bound.within (contains_params mixin.params values)
        (hcall (σ.create.addAll mixin.params) mixin.body)
      exact .bind (Bound.called hbody) fun _ => .pure fun _ h => h

theorem keeps_callBlock (hcall : ∀ σ body, Keeps (Bound σ) (fun _ => Bound σ) (call body))
    (name : String) : Keeps (Bound σ) (fun _ => Bound σ) (env.callBlock call name) := by
  unfold RenderEnv.callBlock
  cases env.program.blocks.get? name with
  | none => exact .pure fun _ h => h
  | some body =>
    exact .bind (Bound.within_empty (hcall _ body)) fun _ => .pure fun _ h => h

mutual

theorem keeps_instruction (hcall : ∀ σ body, Keeps (Bound σ) (fun _ => Bound σ) (call body))
    (σ : Scope) : ∀ i : Instruction, Keeps (Bound σ) (Leaves σ [i]) (env.runInstruction call i)
  | .position pos => by
    rw [RenderEnv.runInstruction]
    refine .bind (Keeps.modify (B := fun _ => Bound σ) fun s h => Agrees.moved h pos) fun _ => ?_
    exact .pure fun _ h => leaves_of_binds rfl .normal h
  | .text text => by
    rw [RenderEnv.runInstruction]
    refine .bind (Keeps.modify (B := fun _ => Bound σ) fun s h => Agrees.write h text) fun _ => ?_
    exact .pure fun _ h => leaves_of_binds rfl .normal h
  | .emit p => by
    rw [RenderEnv.runInstruction]
    refine .bind (steady_eval p).keeps fun v => ?_
    refine .bind (Keeps.modify (B := fun _ => Bound σ) fun s h => Agrees.write h v.render) fun _ => ?_
    exact .pure fun _ h => leaves_of_binds rfl .normal h
  | .assign name op p declares => by
    rw [RenderEnv.runInstruction]
    refine .bind (steady_eval p).keeps fun v => .bind Steady.get.keeps fun s => ?_
    refine .bind (steady_combine op _ v).keeps fun v => ?_
    refine .bind (Keeps.modify (B := fun _ => Bound (σ.add name))
      fun s h => h.store name v declares) fun _ => ?_
    exact .pure fun _ h => leaves_behind [.assign name op p declares] .normal h
  | .capture name text declares => by
    rw [RenderEnv.runInstruction]
    refine .bind (Keeps.modify (B := fun _ => Bound (σ.add name))
      fun s h => h.store name (.str text) declares) fun _ => ?_
    exact .pure fun _ h => leaves_behind [.capture name text declares] .normal h
  | .choose branches otherwise => by
    rw [RenderEnv.runInstruction]
    exact (keeps_branches hcall σ branches _ (keeps_otherwise hcall σ otherwise)).mono
      fun flow t h => leaves_of_binds rfl flow h
  | .switch subject arms => by
    rw [RenderEnv.runInstruction]
    refine .bind (steady_eval subject).keeps fun v =>
      .bind (steady_firstArm v arms).keeps fun found => ?_
    cases found with
    | none => exact .pure fun _ h => leaves_of_binds rfl .normal h
    | some index =>
      refine .bind (Bound.within_empty (keeps_arms hcall σ.create index arms)) fun flow => ?_
      exact .pure fun _ h => leaves_of_binds rfl _ h
  | .loop binding iterable offset limit body => by
    rw [RenderEnv.runInstruction]
    refine .bind (steady_entriesOf iterable).keeps fun (entries, isMap) => ?_
    have hstep (entry : Value × Value) : Keeps (Bound σ) (fun _ => Bound σ)
        (RenderM.within (RenderEnv.frameOf binding entry.1 entry.2 isMap) (env.runBody call body)) :=
      Bound.within (contains_frameOf binding entry.1 entry.2 isMap)
        ((keeps_body hcall _ body).mono fun _ _ h => h.1)
    refine .bind (keeps_iterate hstep 0 entries) fun _ => ?_
    exact .pure fun _ h => leaves_of_binds rfl .normal h
  | .break => by
    rw [RenderEnv.runInstruction]
    exact .pure fun _ h => leaves_of_binds rfl .break h
  | .continue => by
    rw [RenderEnv.runInstruction]
    exact .pure fun _ h => leaves_of_binds rfl .continue h
  | .callMixin name args => by
    rw [RenderEnv.runInstruction]
    refine .bind (keeps_callMixin hcall name args) fun _ => ?_
    exact .pure fun _ h => leaves_of_binds rfl .normal h
  | .callBlock name => by
    rw [RenderEnv.runInstruction]
    refine .bind (keeps_callBlock hcall name) fun _ => ?_
    exact .pure fun _ h => leaves_of_binds rfl .normal h
  | .script source => by
    rw [RenderEnv.runInstruction]
    refine .bind (keeps_script source) fun _ => ?_
    refine .pure fun t h => leaves_behind [.script source] .normal ?_
    rw [Scope.behind, List.flatMap_singleton]
    exact h
termination_by structural i => i

theorem keeps_body (hcall : ∀ σ body, Keeps (Bound σ) (fun _ => Bound σ) (call body)) (σ : Scope) :
    ∀ body : List Instruction, Keeps (Bound σ) (Leaves σ body) (env.runBody call body)
  | [] => .pure fun _ h => ⟨h, fun _ => h⟩
  | i :: is => by
    rw [RenderEnv.runBody]
    refine .bind (keeps_instruction hcall σ i) fun flow => ?_
    cases flow with
    | normal =>
      intro s hs flow t ht
      have hrest := keeps_body hcall (σ.behind [i]) is s (hs.2 rfl) flow t ht
      rw [Leaves, show σ.behind (i :: is) = (σ.behind [i]).behind is from Scope.behind_append σ [i] is]
      exact ⟨hrest.1.of_addAll, hrest.2⟩
    | «break» => exact .pure fun _ h => ⟨h.1, fun heq => by cases heq⟩
    | «continue» => exact .pure fun _ h => ⟨h.1, fun heq => by cases heq⟩
termination_by structural body => body

theorem keeps_branches (hcall : ∀ σ body, Keeps (Bound σ) (fun _ => Bound σ) (call body))
    (σ : Scope) : ∀ (branches : List Branch) (otherwise : RenderM Flow),
    Keeps (Bound σ) (fun _ => Bound σ) otherwise →
    Keeps (Bound σ) (fun _ => Bound σ) (env.runBranches call branches otherwise)
  | [], otherwise, hotherwise => by
    rw [RenderEnv.runBranches]
    exact hotherwise
  | .mk condition negated body :: bs, otherwise, hotherwise => by
    rw [RenderEnv.runBranches]
    refine .bind (steady_eval condition).keeps fun v => ?_
    split
    · exact Bound.within_empty ((keeps_body hcall _ body).mono fun _ _ h => h.1)
    · exact keeps_branches hcall σ bs otherwise hotherwise
termination_by structural branches => branches

theorem keeps_otherwise (hcall : ∀ σ body, Keeps (Bound σ) (fun _ => Bound σ) (call body))
    (σ : Scope) : ∀ otherwise : Option (List Instruction),
    Keeps (Bound σ) (fun _ => Bound σ) (env.runOtherwise call otherwise)
  | none => by
    rw [RenderEnv.runOtherwise]
    exact .pure fun _ h => h
  | some body => by
    rw [RenderEnv.runOtherwise]
    exact Bound.within_empty ((keeps_body hcall _ body).mono fun _ _ h => h.1)
termination_by structural otherwise => otherwise

theorem keeps_arms (hcall : ∀ σ body, Keeps (Bound σ) (fun _ => Bound σ) (call body))
    (σ : Scope) : ∀ (skip : Nat) (arms : List Arm),
    Keeps (Bound σ) (fun _ => Bound σ) (env.runArms call skip arms)
  | skip, [] => by
    cases skip <;> exact .pure fun _ h => h
  | skip + 1, _ :: arms => by
    rw [RenderEnv.runArms]
    exact keeps_arms hcall σ skip arms
  | 0, .mk _ body :: arms => by
    rw [RenderEnv.runArms]
    refine .bind ((keeps_body hcall σ body).mono fun _ _ h => h.1) fun flow => ?_
    cases flow with
    | normal => exact keeps_arms hcall σ 0 arms
    | «break» => exact .pure fun _ h => h
    | «continue» => exact .pure fun _ h => h
termination_by structural _ arms => arms

end

/-- The bodies of mixins and blocks keep the names of their callers. -/
theorem keeps_called (calls : Nat) (σ : Scope) (body : List Instruction) :
    Keeps (Bound σ) (fun _ => Bound σ) (env.runCalled calls body) := by
  induction calls generalizing σ body with
  | zero => exact .fail env _
  | succ calls ih => exact (keeps_body ih σ body).mono fun _ _ h => h.1

end

end Stencil