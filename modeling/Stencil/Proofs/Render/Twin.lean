import Stencil.Proofs.Expression.Path
import Stencil.Proofs.Render.Held
import Stencil.Render.Run

/-!
# Two runs of a program

A body is confined to a scope and some globals when it writes and compares nothing but dotted paths,
and each of these starts with a name that the scope holds or with one of the globals.

* `Twin`: from related states, a step gives the same result twice and related states again, or the
  same error twice.
* `twin_body`: two runs of a confined body that differ in other globals only are twins.
-/

namespace Stencil

/-! ## Confined bodies -/

/-- The expression is a dotted path that starts with a name of the scope or of `R`, and no filter of
it has arguments. -/
structure Pipeline.Confined (R : String → Prop) (σ : Scope) (p : Pipeline) : Prop where
  path : ∃ head text, p.base = .ofList text ∧ DottedPath head text ∧
    Text.after? dollarSign head = none ∧ (Expression.readsNothing (.ofList head) = false →
      σ.has (.ofList head) = true ∨ R (.ofList head))
  needed : ∀ name, p.needed = some name → R name
  plain : ∀ call ∈ p.filters, call.args = []

mutual

/-- An instruction that reads only names of the scope where it stands and of `R`. -/
def confined (R : String → Prop) (σ : Scope) : Instruction → Prop
  | .position _ => True
  | .text _ => True
  | .emit p => p.Confined R σ
  | .assign name op p declares =>
    op = .set ∧ p.Confined R σ ∧ (declares = false → σ.has name = true)
  | .capture name _ declares => declares = false → σ.has name = true
  | .choose branches otherwise => confinedBranches R σ branches ∧ confinedOtherwise R σ otherwise
  | .loop binding (.pipeline p) _ _ body =>
    p.Confined R σ ∧ confinedBody R (σ.create.addAll binding.names) body
  | _ => False
termination_by structural i => i

/-- A body of such instructions. -/
def confinedBody (R : String → Prop) (σ : Scope) : List Instruction → Prop
  | [] => True
  | i :: is => confined R σ i ∧ confinedBody R (σ.behind [i]) is
termination_by structural is => is

/-- Branches of such instructions. -/
def confinedBranches (R : String → Prop) (σ : Scope) : List Branch → Prop
  | [] => True
  | .mk condition _ body :: bs =>
    condition.Confined R σ ∧ confinedBody R σ.create body ∧ confinedBranches R σ bs
termination_by structural bs => bs

/-- A last resort of such instructions. -/
def confinedOtherwise (R : String → Prop) (σ : Scope) : Option (List Instruction) → Prop
  | none => True
  | some body => confinedBody R σ.create body
termination_by structural body => body

end

/-! ## Twins -/

/-- The same result and related states, or the same error. -/
inductive Alike {α : Type} (B : α → RenderState → RenderState → Prop) :
    EStateM.Result Error RenderState α → EStateM.Result Error RenderState α → Prop where
  | ok {a : α} {t t' : RenderState} (related : B a t t') : Alike B (.ok a t) (.ok a t')
  | error {e : Error} {t t' : RenderState} : Alike B (.error e t) (.error e t')

/-- From related states, a step gives the same result twice and related states again, or the same
error twice. -/
def Twin {α : Type} (A : RenderState → RenderState → Prop)
    (B : α → RenderState → RenderState → Prop) (x : RenderM α) : Prop :=
  ∀ s s', A s s' → Alike B (x s) (x s')

namespace Twin

variable {α β : Type} {A : RenderState → RenderState → Prop}
  {B : α → RenderState → RenderState → Prop} {C : β → RenderState → RenderState → Prop}
  {R : String → Prop} {σ : Scope} {env : RenderEnv}

theorem pure {a : α} (h : ∀ s s', A s s' → B a s s') : Twin A B (pure a) :=
  fun s s' hA => .ok (h s s' hA)

theorem bind {x : RenderM α} {f : α → RenderM β} (hx : Twin A B x) (hf : ∀ a, Twin (B a) C (f a)) :
    Twin A C (x >>= f) := by
  intro s s' hA
  show Alike C (EStateM.bind x f s) (EStateM.bind x f s')
  unfold EStateM.bind
  have hresult := hx s s' hA
  generalize x s = r at hresult
  generalize x s' = r' at hresult
  cases hresult with
  | ok h => exact hf _ _ _ h
  | error => exact .error

theorem mono {B' : α → RenderState → RenderState → Prop} {x : RenderM α} (hx : Twin A B x)
    (h : ∀ a s s', B a s s' → B' a s s') : Twin A B' x := by
  intro s s' hA
  have hresult := hx s s' hA
  generalize x s = r at hresult ⊢
  generalize x s' = r' at hresult ⊢
  cases hresult with
  | ok hB => exact .ok (h _ _ _ hB)
  | error => exact .error

theorem modify {f : RenderState → RenderState} {B : Unit → RenderState → RenderState → Prop}
    (h : ∀ s s', A s s' → B () (f s) (f s')) : Twin A B (modify f) :=
  fun s s' hA => .ok (h s s' hA)

/-- A failure depends on the position only. -/
theorem fail (cause : Cause) : Twin (Agrees R σ) B (env.fail cause : RenderM α) := by
  intro s s' h
  rw [h.same]
  exact .error

/-- A body runs in a frame of its own. -/
theorem within {x : RenderM α} {frame : Table Value} {names more : List String} {P : α → Prop}
    (hnames : ∀ name ∈ names, frame.contains name = true)
    (hx : Twin (Agrees R (σ.create.addAll names))
      (fun a s s' => P a ∧ Agrees R ((σ.create.addAll names).addAll more) s s') x) :
    Twin (Agrees R σ) (fun a s s' => P a ∧ Agrees R σ s s') (RenderM.within frame x) := by
  intro s s' h
  have hσ : 0 < σ.depth := by
    obtain ⟨names, outer, hframes⟩ := h.held.exists_cons
    rw [Scope.depth, hframes]
    exact Nat.succ_pos _
  have hresult := hx _ _ (h.opened hnames)
  unfold RenderM.within
  generalize x { s with frames := frame :: s.frames } = r at hresult ⊢
  generalize x { s' with frames := frame :: s'.frames } = r' at hresult ⊢
  cases hresult with
  | ok hB =>
    obtain ⟨hP, hagrees⟩ := hB
    rw [← Scope.addAll_append] at hagrees
    exact .ok ⟨hP, hagrees.closed hσ⟩
  | error => exact .error

/-- A branch runs in a frame without names. -/
theorem within_empty {x : RenderM α} {more : List String} {P : α → Prop}
    (hx : Twin (Agrees R σ.create) (fun a s s' => P a ∧ Agrees R (σ.create.addAll more) s s') x) :
    Twin (Agrees R σ) (fun a s s' => P a ∧ Agrees R σ s s') (RenderM.within {} x) := by
  have hnames : ∀ name ∈ ([] : List String), ({} : Table Value).contains name = true :=
    fun _ h => absurd h List.not_mem_nil
  exact within hnames hx

end Twin

/-! ## Values -/

section

variable {R : String → Prop} {σ : Scope} {env : RenderEnv}

theorem evaluate_eq (env : RenderEnv) (expression : String) (s : RenderState) :
    env.evaluate expression s =
      match env.toolbox.evaluator.evaluate expression s.lookup with
      | .ok v => .ok v s
      | .error reason => env.fail (.evaluation expression reason) s := by
  unfold RenderEnv.evaluate
  show EStateM.bind EStateM.get _ s = _
  unfold EStateM.bind EStateM.get
  dsimp only
  cases env.toolbox.evaluator.evaluate expression s.lookup <;> rfl

/-- A confined path has the same value in both runs. -/
theorem twin_evaluate (henv : env.toolbox.evaluator = .standard) {p : Pipeline}
    (hp : p.Confined R σ) :
    Twin (Agrees R σ) (fun _ => Agrees R σ) (env.evaluate p.base) := by
  intro s s' h
  obtain ⟨head, text, hbase, hpath, hplain, hreads⟩ := hp.path
  have hsame : env.toolbox.evaluator.evaluate p.base s.lookup =
      env.toolbox.evaluator.evaluate p.base s'.lookup := by
    rw [henv, hbase]
    exact evaluate_path hpath hplain fun hhead => h.lookup (hreads hhead)
  rw [evaluate_eq, evaluate_eq, ← hsame]
  cases env.toolbox.evaluator.evaluate p.base s.lookup with
  | ok v => exact .ok h
  | error reason => exact Twin.fail (.evaluation p.base reason) s s' h

theorem twin_applyFilter (v : Value) {call : FilterCall} (hplain : call.args = []) :
    Twin (Agrees R σ) (fun _ => Agrees R σ) (env.applyFilter v call) := by
  unfold RenderEnv.applyFilter
  split
  · exact .fail _
  · rw [hplain]
    refine .bind (Twin.pure (B := fun _ => Agrees R σ) fun _ _ h => h) fun args => ?_
    split
    · exact .pure fun _ _ h => h
    · exact .fail _

/-- A confined pipeline has the same value in both runs. -/
theorem twin_eval (henv : env.toolbox.evaluator = .standard) {p : Pipeline}
    (hp : p.Confined R σ) : Twin (Agrees R σ) (fun _ => Agrees R σ) (env.eval p) := by
  have hfilters (calls : List FilterCall) (hcalls : ∀ call ∈ calls, call.args = []) (v : Value) :
      Twin (Agrees R σ) (fun _ => Agrees R σ) (calls.foldlM env.applyFilter v) := by
    induction calls generalizing v with
    | nil => exact .pure fun _ _ h => h
    | cons call calls ih =>
      rw [List.foldlM_cons]
      exact .bind (twin_applyFilter v (hcalls call List.mem_cons_self))
        (ih fun c hc => hcalls c (List.mem_cons_of_mem _ hc))
  intro s s' h
  have hneeded : (p.needed.filter fun name => (s'.lookup name).isNone) =
      p.needed.filter fun name => (s.lookup name).isNone := by
    cases hname : p.needed with
    | none => rfl
    | some name => simp only [Option.filter, h.lookup (.inr (hp.needed name hname))]
  unfold RenderEnv.eval
  show Alike _ (EStateM.bind EStateM.get _ s) (EStateM.bind EStateM.get _ s')
  unfold EStateM.bind EStateM.get
  dsimp only
  rw [hneeded]
  cases p.needed.filter fun name => (s.lookup name).isNone with
  | some name => exact Twin.fail _ s s' h
  | none => exact Twin.bind (twin_evaluate henv hp) (hfilters p.filters hp.plain) s s' h

/-! ## Loops -/

/-- The frame of an iteration has all names of the binding. -/
theorem contains_frameOf (binding : LoopBinding) (key v : Value) (isMap : Bool) :
    ∀ name ∈ binding.names, (RenderEnv.frameOf binding key v isMap).contains name = true := by
  intro name hname
  cases binding with
  | item n =>
    obtain rfl := List.mem_singleton.1 hname
    exact Table.contains_ofList.2 ⟨_, List.mem_singleton_self _, rfl⟩
  | keyed k n =>
    rw [RenderEnv.frameOf, Table.contains_ofList]
    rcases List.mem_cons.1 hname with rfl | hname
    · exact ⟨_, List.mem_cons_self, rfl⟩
    · obtain rfl := List.mem_singleton.1 hname
      exact ⟨_, List.mem_cons_of_mem _ List.mem_cons_self, rfl⟩
  | places names =>
    rw [RenderEnv.frameOf, Table.contains_ofList]
    obtain ⟨place, hplace, hsome⟩ := List.mem_filterMap.1 hname
    obtain rfl : place = some name := hsome
    obtain ⟨i, hi, hget⟩ := List.getElem_of_mem hplace
    refine ⟨(name, (v.itemOf? (.int i)).getD .undefined), ?_, rfl⟩
    refine List.mem_filterMap.2 ⟨some _, List.mem_mapIdx.2 ⟨i, hi, ?_⟩, rfl⟩
    rw [hget]
    rfl
  | members names =>
    rw [RenderEnv.frameOf, Table.contains_ofList]
    refine ⟨_, List.mem_map.2 ⟨name, hname, rfl⟩, ?_⟩
    cases v <;> rfl

theorem twin_iterate {runs : Nat → Bool} {step : Value × Value → RenderM Flow}
    (hstep : ∀ entry, Twin (Agrees R σ) (fun flow s s' => flow = .normal ∧ Agrees R σ s s')
      (step entry)) (index : Nat) (entries : List (Value × Value)) :
    Twin (Agrees R σ) (fun _ => Agrees R σ) (RenderEnv.iterate runs step index entries) := by
  induction entries generalizing index with
  | nil => exact .pure fun _ _ h => h
  | cons entry rest ih =>
    rw [RenderEnv.iterate]
    split
    · refine .bind (hstep entry) fun flow => ?_
      cases flow with
      | normal => exact fun s s' h => ih (index + 1) s s' h.2
      | «break» => exact fun s s' h => absurd h.1 (by decide)
      | «continue» => exact fun s s' h => absurd h.1 (by decide)
    · exact ih (index + 1)

theorem twin_entries (p : Pipeline) (v : Value) :
    Twin (Agrees R σ) (fun _ => Agrees R σ) (env.entries p v) := by
  unfold RenderEnv.entries
  split <;> first | exact .pure fun _ _ h => h | exact .fail _

/-! ## Bodies -/

/-- An assignment that computes nothing does not read the variable it sets. -/
theorem runInstruction_assign (call : List Instruction → RenderM Flow) (name : String) (p : Pipeline)
    (declares : Bool) :
    env.runInstruction call (.assign name .set p declares) = (do
      let v ← env.eval p
      modify (·.store name v declares)
      return .normal) := by
  rw [RenderEnv.runInstruction]
  rfl

variable (call : List Instruction → RenderM Flow)

mutual

theorem twin_instruction (henv : env.toolbox.evaluator = .standard) (σ : Scope) :
    ∀ i : Instruction, confined R σ i →
    Twin (Agrees R σ) (fun flow s s' => flow = .normal ∧ Agrees R (σ.behind [i]) s s')
      (env.runInstruction call i)
  | .position pos, _ => by
    rw [RenderEnv.runInstruction]
    refine .bind (Twin.modify (B := fun _ => Agrees R σ) fun s s' h => h.moved pos) fun _ => ?_
    exact .pure fun _ _ h => ⟨rfl, h⟩
  | .text text, _ => by
    rw [RenderEnv.runInstruction]
    refine .bind (Twin.modify (B := fun _ => Agrees R σ) fun s s' h => h.write text) fun _ => ?_
    exact .pure fun _ _ h => ⟨rfl, h⟩
  | .emit p, h => by
    rw [RenderEnv.runInstruction]
    refine .bind (twin_eval henv h) fun v => ?_
    refine .bind (Twin.modify (B := fun _ => Agrees R σ) fun s s' h => h.write v.render) fun _ => ?_
    exact .pure fun _ _ h => ⟨rfl, h⟩
  | .assign name op p declares, h => by
    obtain ⟨rfl, hp, hdeclares⟩ := h
    rw [runInstruction_assign]
    refine .bind (twin_eval henv hp) fun v => ?_
    refine .bind (Twin.modify (B := fun _ => Agrees R (σ.add name))
      fun s s' h => h.store v fun hd => .inl (hdeclares hd)) fun _ => ?_
    exact .pure fun _ _ h => ⟨rfl, h⟩
  | .capture name text declares, h => by
    rw [RenderEnv.runInstruction]
    refine .bind (Twin.modify (B := fun _ => Agrees R (σ.add name))
      fun s s' hs => hs.store (.str text) fun hd => .inl (h hd)) fun _ => ?_
    exact .pure fun _ _ h => ⟨rfl, h⟩
  | .choose branches otherwise, h => by
    rw [RenderEnv.runInstruction]
    exact twin_branches henv σ branches _ h.1 (twin_otherwise henv σ otherwise h.2)
  | .loop binding (.pipeline p) offset limit body, h => by
    rw [RenderEnv.runInstruction, RenderEnv.entriesOf]
    refine .bind (.bind (twin_eval henv h.1) fun v => twin_entries p v) fun (entries, isMap) => ?_
    have hstep (entry : Value × Value) :
        Twin (Agrees R σ) (fun flow s s' => flow = .normal ∧ Agrees R σ s s')
          (RenderM.within (RenderEnv.frameOf binding entry.1 entry.2 isMap)
            (env.runBody call body)) :=
      .within (contains_frameOf binding entry.1 entry.2 isMap) (twin_body henv _ body h.2)
    refine .bind (twin_iterate hstep 0 entries) fun _ => ?_
    exact .pure fun _ _ h => ⟨rfl, h⟩
  | .loop _ (.range _ _) _ _ _, h => h.elim
  | .switch _ _, h => h.elim
  | .break, h => h.elim
  | .continue, h => h.elim
  | .callMixin _ _, h => h.elim
  | .callBlock _, h => h.elim
  | .script _, h => h.elim
termination_by structural i => i

theorem twin_body (henv : env.toolbox.evaluator = .standard) (σ : Scope) :
    ∀ body : List Instruction, confinedBody R σ body →
    Twin (Agrees R σ) (fun flow s s' => flow = .normal ∧ Agrees R (σ.behind body) s s')
      (env.runBody call body)
  | [], _ => .pure fun _ _ h => ⟨rfl, h⟩
  | i :: is, h => by
    rw [RenderEnv.runBody]
    refine .bind (twin_instruction henv σ i h.1) fun flow => ?_
    cases flow with
    | normal =>
      intro s s' hs
      have hbehind : σ.behind (i :: is) = (σ.behind [i]).behind is := Scope.behind_append σ [i] is
      rw [hbehind]
      exact twin_body henv (σ.behind [i]) is h.2 s s' hs.2
    | «break» => exact fun s s' hs => absurd hs.1 (by decide)
    | «continue» => exact fun s s' hs => absurd hs.1 (by decide)
termination_by structural body => body

theorem twin_branches (henv : env.toolbox.evaluator = .standard) (σ : Scope) :
    ∀ (branches : List Branch) (otherwise : RenderM Flow),
    confinedBranches R σ branches →
    Twin (Agrees R σ) (fun flow s s' => flow = .normal ∧ Agrees R σ s s') otherwise →
    Twin (Agrees R σ) (fun flow s s' => flow = .normal ∧ Agrees R σ s s')
      (env.runBranches call branches otherwise)
  | [], otherwise, _, hotherwise => by
    rw [RenderEnv.runBranches]
    exact hotherwise
  | .mk condition negated body :: bs, otherwise, h, hotherwise => by
    rw [RenderEnv.runBranches]
    refine .bind (twin_eval henv h.1) fun v => ?_
    split
    · exact .within_empty (twin_body henv _ body h.2.1)
    · exact twin_branches henv σ bs otherwise h.2.2 hotherwise
termination_by structural branches => branches

theorem twin_otherwise (henv : env.toolbox.evaluator = .standard) (σ : Scope) :
    ∀ otherwise : Option (List Instruction),
    confinedOtherwise R σ otherwise →
    Twin (Agrees R σ) (fun flow s s' => flow = .normal ∧ Agrees R σ s s')
      (env.runOtherwise call otherwise)
  | none, _ => by
    rw [RenderEnv.runOtherwise]
    exact .pure fun _ _ h => ⟨rfl, h⟩
  | some body, h => by
    rw [RenderEnv.runOtherwise]
    exact .within_empty (twin_body henv _ body h)
termination_by structural otherwise => otherwise

end

end

end Stencil
