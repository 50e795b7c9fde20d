import Stencil.Proofs.Render.Same
import Stencil.Proofs.Render.Unmoved

/-!
# What a run leaves as it was

A run may end at its end, in a jump or in a failure. `Relates R x` says that the state that is left
is related by `R` to the one before, however the step ends.

* `relates_called`: a relation that the steps of the machine satisfy holds for every run.
* `neutral`: such a relation is that the tables that names are looked up in bind the same names,
  but for the innermost one, which may bind more.
* `guarded_called`: no body begins when more than `maxMixinDepth` calls of mixins are open.
* `runCalled_neutral`: what running a body does to the state.
-/

namespace Stencil

open RenderM

/-! ## Relations that runs carry along -/

/-- The step leads from every state to a state that is related to it. -/
def Relates (R : RenderState → RenderState → Prop) {α : Type} (x : RenderM α) : Prop :=
  ∀ s, R s (x.final s)

/-- What a step does with one frame more, and what is left of it without the frame. -/
theorem Relates.closed {R R' : RenderState → RenderState → Prop} {α : Type} {x : RenderM α}
    {frame : Table Value} (hx : Relates R x)
    (hclose : ∀ s t, R { s with frames := frame :: s.frames } t →
      R' s { t with frames := t.frames.drop 1 }) : Relates R' (RenderM.within frame x) := by
  intro s
  have hs := hclose s _ (hx { s with frames := frame :: s.frames })
  cases hr : x { s with frames := frame :: s.frames } with
  | ok a t =>
    rw [final_of_ok hr] at hs
    rwa [final_of_ok (within_of_ok hr)]
  | error e t =>
    rw [final_of_error hr] at hs
    rwa [final_of_error (within_of_error hr)]

/-- A relation of two states of a run: all that the machine does to a state satisfies it. -/
structure Carried (R : RenderState → RenderState → Prop) : Prop where
  refl (s : RenderState) : R s s
  trans {s t u : RenderState} : R s t → R t u → R s u
  moved (s : RenderState) (pos : Pos) : R s { s with position := some pos }
  write (s : RenderState) (text : String) : R s (s.write text)
  store (s : RenderState) (name : String) (v : Value) (declares : Bool) :
    R s (s.store name v declares)
  within {s t : RenderState} {frame : Table Value} :
    R { s with frames := frame :: s.frames } t → R s { t with frames := t.frames.drop 1 }
  called {s t : RenderState} : R { s with depth := s.depth + 1 } t →
    R s { t with depth := t.depth - 1, position := s.position }

namespace Carried

variable {R : RenderState → RenderState → Prop} {α β γ : Type} {x : RenderM α}
  {f : α → RenderM β}

theorem unmoved (h : Carried R) (hx : Unmoved x) : Relates R x := by
  intro s
  rw [hx s]
  exact h.refl s

theorem pure (h : Carried R) (a : α) : Relates R (pure a : RenderM α) := h.unmoved (.pure a)

theorem bind (h : Carried R) (hx : Relates R x) (hf : ∀ a, Relates R (f a)) :
    Relates R (x >>= f) := by
  intro s
  have hs := hx s
  cases hr : x s with
  | ok a t =>
    rw [final_of_ok hr] at hs
    rw [final_bind_ok hr]
    exact h.trans hs (hf a t)
  | error e t =>
    rw [final_of_error hr] at hs
    rw [final_bind_error hr]
    exact hs

theorem forIn (h : Carried R) {f : γ → β → RenderM (ForInStep β)} (hf : ∀ c b, Relates R (f c b))
    (cs : List γ) (b : β) : Relates R (forIn cs b f) := by
  induction cs generalizing b with
  | nil => exact h.pure b
  | cons c cs ih =>
    rw [List.forIn_cons]
    apply h.bind (hf c b)
    intro step
    cases step with
    | done b => exact h.pure b
    | yield b => exact ih b

/-- The frame of a step is gone behind it. -/
theorem relates_within (h : Carried R) (frame : Table Value) (hx : Relates R x) :
    Relates R (RenderM.within frame x) := hx.closed fun _ _ => h.within

/-- As many calls are open behind a call as before. -/
theorem relates_called (h : Carried R) (hx : Relates R x) : Relates R (RenderM.called x) := by
  intro s
  have hs := h.called (hx { s with depth := s.depth + 1 })
  unfold RenderM.called final at *
  cases hr : x { s with depth := s.depth + 1 } with
  | ok a t => simpa only [hr] using hs
  | error e t => simpa only [hr] using hs

theorem relates_write (h : Carried R) (text : String) :
    Relates R (modify (·.write text) : RenderM PUnit) := fun s => h.write s text

theorem relates_store (h : Carried R) (name : String) (v : Value) (declares : Bool) :
    Relates R (modify (·.store name v declares) : RenderM PUnit) :=
  fun s => h.store s name v declares

theorem relates_iterate (h : Carried R) {runs : Nat → Bool} {step : Value × Value → RenderM Flow}
    (hstep : ∀ entry, Relates R (step entry)) (index : Nat) (entries : List (Value × Value)) :
    Relates R (RenderEnv.iterate runs step index entries) := by
  induction entries generalizing index with
  | nil => exact h.pure _
  | cons entry rest ih =>
    rw [RenderEnv.iterate]
    split
    · apply h.bind (hstep entry)
      intro flow
      cases flow with
      | normal => exact ih (index + 1)
      | «break» => exact h.pure _
      | «continue» => exact ih (index + 1)
    · exact ih (index + 1)

variable {env : RenderEnv} {call : List Instruction → RenderM Flow}

theorem relates_script (h : Carried R) (source : String) : Relates R (env.runScript source) := by
  unfold RenderEnv.runScript
  split
  · exact h.unmoved (.fail env _)
  · next statements _ =>
    refine h.bind (h.forIn (fun statement _ => ?_) statements PUnit.unit) fun _ => h.pure _
    apply h.bind (h.unmoved (unmoved_evaluate statement.value))
    intro v
    exact h.bind (h.relates_store statement.name v statement.declares) fun _ => h.pure _

theorem relates_callMixin (h : Carried R) (hcall : ∀ body, Relates R (call body)) (name : String)
    (args : List Pipeline) : Relates R (env.callMixin call name args) := by
  cases hmixin : env.program.mixins.get? name with
  | none =>
    rw [RenderEnv.callMixin_of_none hmixin]
    exact h.unmoved (.fail env _)
  | some mixin =>
    rw [RenderEnv.callMixin_of_some hmixin]
    apply h.bind (h.unmoved .get)
    intro s
    split
    · exact h.unmoved (.fail env _)
    · apply h.bind (h.unmoved (.mapM unmoved_eval args))
      intro values
      exact h.bind (h.relates_called (h.relates_within _ (hcall mixin.body))) fun _ => h.pure _

theorem relates_callBlock (h : Carried R) (hcall : ∀ body, Relates R (call body)) (name : String) :
    Relates R (env.callBlock call name) := by
  unfold RenderEnv.callBlock
  cases env.program.blocks.get? name with
  | none => exact h.pure _
  | some body => exact h.bind (h.relates_within {} (hcall body)) fun _ => h.pure _

end Carried

section

variable {R : RenderState → RenderState → Prop} {env : RenderEnv}
  {call : List Instruction → RenderM Flow}

mutual

theorem relates_instruction (h : Carried R) (hcall : ∀ body, Relates R (call body)) :
    ∀ i : Instruction, Relates R (env.runInstruction call i)
  | .position pos => h.bind (fun s => h.moved s pos) fun _ => h.pure _
  | .text text => h.bind (h.relates_write text) fun _ => h.pure _
  | .emit p => h.bind (h.unmoved (unmoved_eval p)) fun v =>
      h.bind (h.relates_write v.render) fun _ => h.pure _
  | .assign name op p declares => h.bind (h.unmoved (unmoved_eval p)) fun v =>
      h.bind (h.unmoved .get) fun _ => h.bind (h.unmoved (unmoved_combine op _ v)) fun v =>
        h.bind (h.relates_store name v declares) fun _ => h.pure _
  | .capture name text declares =>
      h.bind (h.relates_store name (.str text) declares) fun _ => h.pure _
  | .choose branches otherwise =>
      relates_branches h hcall branches _ (relates_otherwise h hcall otherwise)
  | .switch subject arms => by
    apply h.bind (h.unmoved (unmoved_eval subject))
    intro v
    apply h.bind (h.unmoved (unmoved_firstArm v arms))
    intro found
    cases found with
    | none => exact h.pure _
    | some index =>
      exact h.bind (h.relates_within {} (relates_arms h hcall index arms)) fun _ => h.pure _
  | .loop binding iterable offset limit body =>
    h.bind (h.unmoved (unmoved_entriesOf iterable)) fun (entries, _) =>
      h.bind (h.relates_iterate (fun _ => h.relates_within _ (relates_body h hcall body)) 0 entries)
        fun _ => h.pure _
  | .break => h.pure _
  | .continue => h.pure _
  | .callMixin name args => h.bind (h.relates_callMixin hcall name args) fun _ => h.pure _
  | .callBlock name => h.bind (h.relates_callBlock hcall name) fun _ => h.pure _
  | .script source => h.bind (h.relates_script source) fun _ => h.pure _
termination_by structural i => i

theorem relates_body (h : Carried R) (hcall : ∀ body, Relates R (call body)) :
    ∀ body : List Instruction, Relates R (env.runBody call body)
  | [] => h.pure _
  | i :: is => by
    apply h.bind (relates_instruction h hcall i)
    intro flow
    cases flow with
    | normal => exact relates_body h hcall is
    | «break» => exact h.pure _
    | «continue» => exact h.pure _
termination_by structural body => body

theorem relates_branches (h : Carried R) (hcall : ∀ body, Relates R (call body)) :
    ∀ (branches : List Branch) (otherwise : RenderM Flow), Relates R otherwise →
      Relates R (env.runBranches call branches otherwise)
  | [], _, hotherwise => hotherwise
  | .mk condition negated body :: bs, otherwise, hotherwise => by
    apply h.bind (h.unmoved (unmoved_eval condition))
    intro v
    split
    · exact h.relates_within {} (relates_body h hcall body)
    · exact relates_branches h hcall bs otherwise hotherwise
termination_by structural branches => branches

theorem relates_otherwise (h : Carried R) (hcall : ∀ body, Relates R (call body)) :
    ∀ otherwise : Option (List Instruction), Relates R (env.runOtherwise call otherwise)
  | none => h.pure _
  | some body => h.relates_within {} (relates_body h hcall body)
termination_by structural otherwise => otherwise

theorem relates_arms (h : Carried R) (hcall : ∀ body, Relates R (call body)) :
    ∀ (skip : Nat) (arms : List Arm), Relates R (env.runArms call skip arms)
  | skip, [] => by cases skip <;> exact h.pure _
  | skip + 1, _ :: arms => relates_arms h hcall skip arms
  | 0, .mk _ body :: arms => by
    apply h.bind (relates_body h hcall body)
    intro flow
    cases flow with
    | normal => exact relates_arms h hcall 0 arms
    | «break» => exact h.pure _
    | «continue» => exact h.pure _
termination_by structural _ arms => arms

end

/-- A relation that the steps of the machine satisfy holds for every run. -/
theorem relates_called (h : Carried R) (calls : Nat) (body : List Instruction) :
    Relates R (env.runCalled calls body) := by
  induction calls generalizing body with
  | zero => exact h.unmoved (.fail env _)
  | succ calls ih => exact relates_body h ih body

end

/-! ## The names that are bound -/

/-- The tables bind the same names. -/
def Table.SameNames {α : Type} (t t' : Table α) : Prop :=
  ∀ name, t'.contains name = t.contains name

theorem Table.sameNames_insert {α : Type} {t : Table α} {name : String}
    (h : t.contains name = true) (v : α) : t.SameNames (t.insert name v) := by
  intro key
  apply Bool.eq_iff_iff.2
  rw [Table.contains_insert]
  apply or_iff_right_of_imp
  rintro rfl
  exact h

/-- Of two lists of tables, innermost first: they bind the same names, but that the first table of
the second list may bind more. -/
inductive Widens : List (Table Value) → List (Table Value) → Prop where
  | intro {t t' : Table Value} {outer outer' : List (Table Value)}
      (first : ∀ name, t.contains name = true → t'.contains name = true)
      (rest : List.Forall₂ Table.SameNames outer outer') : Widens (t :: outer) (t' :: outer')

/-- Lists of tables that bind the same names. -/
abbrev SameTables : List (Table Value) → List (Table Value) → Prop :=
  List.Forall₂ Table.SameNames

theorem sameTables_refl (tables : List (Table Value)) : SameTables tables tables :=
  List.forall₂_same.2 fun _ _ _ => rfl

theorem sameTables_trans {l l' l'' : List (Table Value)} (h : SameTables l l')
    (h' : SameTables l' l'') : SameTables l l'' := by
  induction h generalizing l'' with
  | nil => exact h'
  | cons hfirst _ ih =>
    cases h' with
    | cons hfirst' hrest' => exact .cons (fun name => (hfirst' name).trans (hfirst name)) (ih hrest')

namespace Widens

variable {l l' l'' : List (Table Value)}

theorem of_same (h : SameTables l l') (hne : l ≠ []) : Widens l l' := by
  cases h with
  | nil => exact absurd rfl hne
  | cons hfirst hrest => exact .intro (fun name hname => (hfirst name).trans hname) hrest

theorem trans (h : Widens l l') (h' : Widens l' l'') : Widens l l'' := by
  cases h with
  | intro first rest =>
    cases h' with
    | intro first' rest' =>
      exact .intro (fun name hname => first' name (first name hname)) (sameTables_trans rest rest')

/-- All tables but the first one bind the same names. -/
theorem tail (h : Widens l l') : SameTables l.tail l'.tail := by
  cases h with
  | intro _ rest => exact rest

end Widens

/-- The tables that names are looked up in, innermost first. -/
def RenderState.tables (s : RenderState) : List (Table Value) := s.frames ++ [s.globals]

theorem RenderState.tables_ne_nil (s : RenderState) : s.tables ≠ [] := by
  simp [RenderState.tables]

/-- The innermost table is the innermost frame, or the globals if there is no frame. -/
theorem Widens.frames {frames frames' : List (Table Value)} {globals globals' : Table Value}
    (h : Widens (frames ++ [globals]) (frames' ++ [globals'])) :
    frames'.length = frames.length ∧ SameTables frames.tail frames'.tail ∧
      (frames ≠ [] → globals.SameNames globals') ∧
      ∀ name, globals.contains name = true → globals'.contains name = true := by
  have hlength := h.tail.length_eq
  simp only [List.length_tail, List.length_append, List.length_singleton, Nat.add_sub_cancel]
    at hlength
  cases frames with
  | nil =>
    obtain rfl := List.length_eq_zero_iff.1 hlength.symm
    cases h with
    | intro first _ => exact ⟨rfl, .nil, fun hne => absurd rfl hne, first⟩
  | cons frame outer =>
    obtain ⟨frame', outer', rfl⟩ := List.exists_cons_of_length_eq_add_one hlength.symm
    have houter : outer.length = outer'.length := by simpa using hlength
    have htail : SameTables (outer ++ [globals]) (outer' ++ [globals']) := h.tail
    have htake := List.forall₂_take_append _ _ _ htail
    have hdrop := List.forall₂_drop_append _ _ _ htail
    simp only [← houter, List.take_left, List.drop_left] at htake hdrop
    cases hdrop with
    | cons hglobals _ =>
      exact ⟨hlength.symm, htake, fun _ => hglobals, fun name hname => (hglobals name).trans hname⟩

/-- A name that is changed was bound before. -/
theorem same_changeIn {name : String} {v : Value} {frames frames' : List (Table Value)}
    (h : RenderState.changeIn? name v frames = some frames') : SameTables frames frames' := by
  induction frames generalizing frames' with
  | nil => cases h
  | cons frame outer ih =>
    unfold RenderState.changeIn? at h
    split at h
    · next hname =>
      cases h
      exact .cons (Table.sameNames_insert hname v) (sameTables_refl outer)
    · obtain ⟨changed, hchanged, rfl⟩ := Option.map_eq_some_iff.1 h
      exact .cons (fun _ => rfl) (ih hchanged)

theorem widens_declare (s : RenderState) (name : String) (v : Value) :
    Widens s.tables (s.declare name v).tables := by
  have hinsert (t : Table Value) (key : String) (hkey : t.contains key = true) :
      (t.insert name v).contains key = true := Table.contains_insert.2 (.inr hkey)
  unfold RenderState.declare
  split
  · next hframes =>
    simp only [RenderState.tables, hframes]
    exact .intro (hinsert s.globals) .nil
  · next frame outer hframes =>
    simp only [RenderState.tables, hframes]
    exact .intro (hinsert frame) (sameTables_refl _)

/-- Only the innermost table gets new names. -/
theorem widens_store (s : RenderState) (name : String) (v : Value) (declares : Bool) :
    Widens s.tables (s.store name v declares).tables := by
  unfold RenderState.store
  split
  · exact widens_declare s name v
  unfold RenderState.assign
  split
  · next frames hchange =>
    apply Widens.of_same _ s.tables_ne_nil
    exact List.rel_append (same_changeIn hchange) (sameTables_refl [s.globals])
  · split
    · next hglobal =>
      apply Widens.of_same _ s.tables_ne_nil
      exact List.rel_append (sameTables_refl s.frames)
        (.cons (Table.sameNames_insert hglobal v) .nil)
    · exact widens_declare s name v

/-! ## Neutral steps -/

/-- From the first state to the second one no call has been left open, what had been written is
still there, and the names of the tables are related. -/
structure Levels (R : List (Table Value) → List (Table Value) → Prop) (s t : RenderState) :
    Prop where
  depth : t.depth = s.depth
  output : ∃ written, t.output = s.output ++ written
  names : R s.tables t.tables

theorem Levels.same_refl (s : RenderState) : Levels SameTables s s where
  depth := rfl
  output := ⟨"", by simp⟩
  names := sameTables_refl s.tables

theorem Levels.trans {R : List (Table Value) → List (Table Value) → Prop} {s t u : RenderState}
    (hR : ∀ {l l' l''}, R l l' → R l' l'' → R l l'') (h : Levels R s t) (h' : Levels R t u) :
    Levels R s u where
  depth := h'.depth.trans h.depth
  output := by
    obtain ⟨written, hwritten⟩ := h.output
    obtain ⟨more, hmore⟩ := h'.output
    exact ⟨written ++ more, by rw [hmore, hwritten, String.append_assoc]⟩
  names := hR h.names h'.names

/-- The innermost table may bind more names in the end. -/
abbrev Neutral : RenderState → RenderState → Prop := Levels Widens

theorem output_store (s : RenderState) (name : String) (v : Value) (declares : Bool) :
    (s.store name v declares).output = s.output := by
  have hdeclare : (s.declare name v).output = s.output := by
    unfold RenderState.declare
    split <;> rfl
  unfold RenderState.store RenderState.assign
  split
  · exact hdeclare
  · split
    · rfl
    · split
      · rfl
      · exact hdeclare

namespace Neutral

variable {s t : RenderState}

theorem of_tables (hdepth : t.depth = s.depth) (houtput : t.output = s.output)
    (hnames : t.tables = s.tables) : Neutral s t where
  depth := hdepth
  output := ⟨"", by simp [houtput]⟩
  names := by
    rw [hnames]
    exact .of_same (sameTables_refl _) s.tables_ne_nil

/-- What is bound in a frame goes with it: behind it all tables bind the names that they bound
before. -/
theorem closed {frame : Table Value} (h : Neutral { s with frames := frame :: s.frames } t) :
    Levels SameTables s { t with frames := t.frames.drop 1 } where
  depth := h.depth
  output := h.output
  names := by
    have htail := h.names.tail
    have hlength := htail.length_eq
    obtain ⟨globals, frames, position, depth, output⟩ := t
    cases frames with
    | nil => simp [RenderState.tables] at hlength
    | cons frame' frames => exact htail

end Neutral

/-- Runs are neutral. -/
theorem neutral : Carried Neutral where
  refl s := .of_tables rfl rfl rfl
  trans := Levels.trans Widens.trans
  moved s pos := .of_tables rfl rfl rfl
  write s text := ⟨rfl, ⟨text, rfl⟩, .of_same (sameTables_refl _) s.tables_ne_nil⟩
  store s name v declares :=
    ⟨s.depth_store name v declares, ⟨"", by simp [output_store]⟩, widens_store s name v declares⟩
  within {s t frame} h := by
    have hclosed := h.closed
    exact ⟨hclosed.depth, hclosed.output, .of_same hclosed.names s.tables_ne_nil⟩
  called {s t} h := by
    refine ⟨?_, h.output, h.names⟩
    have hdepth := h.depth
    simp only at hdepth ⊢
    omega

/-! ## How deep calls nest -/

namespace RenderEnv

/-- Run a step unless more than `maxMixinDepth` calls of mixins are open; then run the other one. -/
def guarded (beyond x : RenderM Flow) : RenderM Flow := fun s =>
  if s.depth ≤ maxMixinDepth then x s else beyond s

/-- Run bodies as `runCalled` does, but leave those that begin when more than `maxMixinDepth` calls
of mixins are open to `beyond`. -/
def runGuarded (env : RenderEnv) (beyond : List Instruction → RenderM Flow) :
    Nat → List Instruction → RenderM Flow
  | 0, body => guarded (beyond body) (env.fail .endlessBlocks)
  | calls + 1, body => guarded (beyond body) (env.runBody (runGuarded env beyond calls) body)

end RenderEnv

section

variable {env : RenderEnv}

theorem same_guarded {n : Nat} (hn : n ≤ maxMixinDepth) {x y : RenderM Flow} (beyond : RenderM Flow)
    (h : Same (fun _ => True) n x y) : Same (fun _ => True) n x (RenderEnv.guarded beyond y) := by
  intro s hs
  unfold RenderEnv.guarded
  rw [if_pos (by omega)]
  exact h s hs

/-- A body that begins when at most `maxMixinDepth` calls are open begins no body that is left to
`beyond`. -/
theorem guarded_called (beyond : List Instruction → RenderM Flow) {n : Nat}
    (hn : n ≤ maxMixinDepth) (calls : Nat) (body : List Instruction) :
    Same (fun _ => True) n (env.runCalled calls body) (env.runGuarded beyond calls body) := by
  have hsimilar : Similar env env := ⟨rfl, rfl, rfl, rfl⟩
  induction calls generalizing n body with
  | zero => exact same_guarded hn _ (.fail rfl trivial)
  | succ calls ih =>
    apply same_guarded hn
    apply same_body (fun _ _ => trivial) hsimilar
    intro x _
    exact {
      filters := fun _ _ _ _ => rfl
      mixin := fun _ _ mixin _ _ hdepth => ih hdepth mixin.body
      block := fun _ body _ _ => ih hn body }

/-- What running a body does to the state, however it ends: there are as many frames as before, and
as many calls open, which are never more than `maxMixinDepth`, so that it does not matter what would
be run beyond. All frames but the innermost one bind the names that they bound before. So do the
globals, which may get names if there is no frame. What had been written stays. -/
theorem runCalled_neutral (env : RenderEnv) (calls : Nat) (body : List Instruction)
    (s : RenderState) (hdepth : s.depth ≤ maxMixinDepth) :
    let t := (env.runCalled calls body).final s
    t.frames.length = s.frames.length ∧ t.depth = s.depth ∧
      (∀ beyond, env.runGuarded beyond calls body s = env.runCalled calls body s) ∧
      SameTables s.frames.tail t.frames.tail ∧
      (s.frames ≠ [] → s.globals.SameNames t.globals) ∧
      (∀ name, s.globals.contains name = true → t.globals.contains name = true) ∧
      ∃ written, t.output = s.output ++ written := by
  have hguarded (beyond : List Instruction → RenderM Flow) :
      env.runGuarded beyond calls body s = env.runCalled calls body s :=
    ((guarded_called beyond hdepth calls body) s rfl).1.symm
  have hneutral : Neutral s ((env.runCalled calls body).final s) :=
    relates_called neutral calls body s
  intro t
  obtain ⟨hlength, houter, hsame, hglobals⟩ := hneutral.names.frames
  exact ⟨hlength, hneutral.depth, hguarded, houter, hsame, hglobals, hneutral.output⟩

/-- A mixin that calls itself, in a loop that changes a variable. -/
def selfCalling : Program where
  body := [.loop (.item "i") (.range (.ofBase "1") (.ofBase "3")) none none
    [.assign "y" .set (.ofBase "i") false, .assign "z" .set (.ofBase "i") true,
      .callMixin "again" []]]
  mixins := .ofList [("again", ⟨[], [.text "b", .callMixin "again" []]⟩)]

theorem runCalled_neutral_selfCalling :
    let env : RenderEnv := ⟨selfCalling, {}, default⟩
    let s : RenderState := { frames := [.ofList [("x", .int 0)], .ofList [("y", .int 0)]] }
    ∃ e t, env.run s = .error e t ∧ e.cause = .recursionLimit maxMixinDepth ∧
      t.output.length = maxMixinDepth ∧ t.frames.length = 2 ∧ t.depth = 0 ∧
      SameTables [.ofList [("y", .int 0)]] t.frames.tail ∧ s.globals.SameNames t.globals := by
  intro env s
  obtain ⟨hlength, hdepth, _, houter, hsame, _, _⟩ :=
    runCalled_neutral env env.callBound selfCalling.body s (Nat.zero_le _)
  have hcomputed : (match env.run s with
      | .error e t => some (e.cause, t.output.length)
      | .ok .. => none) = some (.recursionLimit maxMixinDepth, maxMixinDepth) := by decide +kernel
  cases hrun : env.run s with
  | ok => simp [hrun] at hcomputed
  | error e t =>
    obtain ⟨hcause, houtput⟩ : e.cause = .recursionLimit maxMixinDepth ∧
        t.output.length = maxMixinDepth := by simpa [hrun] using hcomputed
    have hfinal : (env.runCalled env.callBound selfCalling.body).final s = t :=
      final_of_error hrun
    rw [hfinal] at hlength hdepth houter hsame
    exact ⟨e, t, rfl, hcause, houtput, hlength, hdepth, houter, hsame nofun⟩

end

end Stencil
