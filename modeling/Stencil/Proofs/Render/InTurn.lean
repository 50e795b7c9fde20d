import Stencil.Proofs.Generation.Steps
import Stencil.Proofs.Render.Neutral

/-!
# Steps that are taken in turn

The iterations of a loop and the arms of a case are taken one behind the other until one of them
ends in a jump or fails. `InTurn` describes such a run by its trace, which tells for each step the
state in which it begins.

* `InTurn.isPrefix`, `InTurn.complete`: the steps are taken in order, and all of them if none stops.
* `InTurn.related`: a relation of states that the steps satisfy holds along the trace.
* `inTurn_iterate`, `inTurn_arms`: loops and cases run so.
-/

namespace Stencil

/-- Steps, one for each item, are taken in turn until one stops or fails. The trace tells for each
of them the state in which it begins; the last one gives the result. -/
inductive InTurn {ι : Type} (step : ι → RenderM Flow) (stops : Flow → Bool) :
    List ι → RenderState → List (ι × RenderState) → EStateM.Result Error RenderState Flow → Prop where
  | done {s : RenderState} : InTurn step stops [] s [] (.ok .normal s)
  | fails {i : ι} {is : List ι} {s t : RenderState} {e : Error} (runs : step i s = .error e t) :
      InTurn step stops (i :: is) s [(i, s)] (.error e t)
  | stops {i : ι} {is : List ι} {s t : RenderState} {flow : Flow} (runs : step i s = .ok flow t)
      (jumps : stops flow = true) : InTurn step stops (i :: is) s [(i, s)] (.ok flow t)
  | passes {i : ι} {is : List ι} {s t : RenderState} {flow : Flow} {trace : List (ι × RenderState)}
      {r : EStateM.Result Error RenderState Flow} (runs : step i s = .ok flow t)
      (goes : stops flow = false) (rest : InTurn step stops is t trace r) :
      InTurn step stops (i :: is) s ((i, s) :: trace) r

/-- The step of a turn lets the next one begin. -/
def Passes {ι : Type} (step : ι → RenderM Flow) (stops : Flow → Bool) (turn : ι × RenderState) :
    Prop :=
  ∃ flow t, step turn.1 turn.2 = .ok flow t ∧ stops flow = false

namespace InTurn

variable {ι : Type} {step : ι → RenderM Flow} {stops : Flow → Bool} {items : List ι}
  {s : RenderState} {trace : List (ι × RenderState)} {r : EStateM.Result Error RenderState Flow}

/-- The first step begins at once. -/
theorem head? (h : InTurn step stops items s trace r) : trace.head? = items.head?.map (·, s) := by
  cases h <;> rfl

/-- The steps are taken in order. -/
theorem isPrefix (h : InTurn step stops items s trace r) : trace.map Prod.fst <+: items := by
  induction h with
  | done => exact List.prefix_rfl
  | fails | stops => simp
  | passes _ _ _ ih => simpa using ih

/-- All steps are taken, unless one does not let the next one begin. -/
theorem complete (h : InTurn step stops items s trace r)
    (hpasses : ∀ turn ∈ trace, Passes step stops turn) : trace.map Prod.fst = items := by
  induction h with
  | done => rfl
  | fails runs =>
    obtain ⟨_, _, hruns, _⟩ := hpasses _ List.mem_cons_self
    rw [runs] at hruns
    cases hruns
  | stops runs jumps =>
    obtain ⟨_, _, hruns, hgoes⟩ := hpasses _ List.mem_cons_self
    rw [runs] at hruns
    cases hruns
    rw [jumps] at hgoes
    cases hgoes
  | passes _ _ _ ih =>
    rw [List.map_cons, ih fun turn hturn => hpasses turn (List.mem_cons_of_mem _ hturn)]

/-- Only the last step may stop or fail. -/
theorem passes_dropLast (h : InTurn step stops items s trace r) :
    ∀ turn ∈ trace.dropLast, Passes step stops turn := by
  induction h with
  | done | fails | stops => simp
  | @passes i is s t flow trace r runs goes _ ih =>
    intro turn hturn
    cases trace with
    | nil => cases hturn
    | cons next trace =>
      rw [List.dropLast_cons_of_ne_nil (List.cons_ne_nil _ _)] at hturn
      rcases List.mem_cons.1 hturn with rfl | hturn
      · exact ⟨flow, t, runs, goes⟩
      · exact ih turn hturn

/-- A relation that the steps satisfy holds between the first state and all others. -/
theorem related {R : RenderState → RenderState → Prop} (hrefl : ∀ s, R s s)
    (htrans : ∀ {s t u}, R s t → R t u → R s u) (hstep : ∀ i, Relates R (step i))
    (h : InTurn step stops items s trace r) :
    (∀ turn ∈ trace, R s turn.2) ∧
      ∀ t, (∃ flow, r = .ok flow t) ∨ (∃ e, r = .error e t) → R s t := by
  have ends {i : ι} {s t : RenderState} {result : EStateM.Result Error RenderState Flow}
      (hruns : step i s = result)
      (hresult : (∃ flow, result = .ok flow t) ∨ ∃ e, result = .error e t) : R s t := by
    have hrelated := hstep i s
    rcases hresult with ⟨flow, rfl⟩ | ⟨e, rfl⟩
    · rwa [final_of_ok hruns] at hrelated
    · rwa [final_of_error hruns] at hrelated
  induction h with
  | done =>
    refine ⟨fun turn hturn => (List.not_mem_nil hturn).elim, ?_⟩
    rintro t (⟨_, ht⟩ | ⟨_, ht⟩)
    · cases ht
      exact hrefl _
    · cases ht
  | @fails _ _ s _ _ runs | @stops _ _ s _ _ runs =>
    refine ⟨fun turn hturn => ?_, fun t ht => ends runs ht⟩
    rw [List.mem_singleton.1 hturn]
    exact hrefl s
  | @passes i is s t flow trace r runs goes _ ih =>
    have hfirst : R s t := ends runs (.inl ⟨flow, rfl⟩)
    refine ⟨fun turn hturn => ?_, fun u hu => htrans hfirst (ih.2 u hu)⟩
    rcases List.mem_cons.1 hturn with rfl | hturn
    · exact hrefl s
    · exact htrans hfirst (ih.1 turn hturn)

end InTurn

/-! ## Loops and cases -/

/-- A loop takes the iterations that are in bounds in turn, until one breaks. -/
theorem inTurn_iterate (runs : Nat → Bool) (step : Value × Value → RenderM Flow)
    (entries : List (Value × Value)) (index : Nat) (s : RenderState) :
    ∃ trace r, InTurn (fun item : (Value × Value) × Nat => step item.1) (· == .break)
        ((entries.zipIdx index).filter fun item => runs item.2) s trace r ∧
      RenderEnv.iterate runs step index entries s =
        match r with
        | .ok _ t => .ok () t
        | .error e t => .error e t := by
  induction entries generalizing index s with
  | nil => exact ⟨[], _, .done, rfl⟩
  | cons entry rest ih =>
    rw [List.zipIdx_cons, RenderEnv.iterate, List.filter_cons]
    dsimp only
    by_cases hruns : runs index = true
    · rw [if_pos hruns, if_pos hruns]
      show ∃ trace r, _ ∧ EStateM.bind (step entry) _ s = _
      unfold EStateM.bind
      cases hstep : step entry s with
      | error e t => exact ⟨_, _, .fails hstep, rfl⟩
      | ok flow t =>
        obtain ⟨trace, r, hturns, hrest⟩ := ih (index + 1) t
        cases flow with
        | «break» => exact ⟨_, _, .stops hstep rfl, rfl⟩
        | normal => exact ⟨_, r, .passes hstep rfl hturns, hrest⟩
        | «continue» => exact ⟨_, r, .passes hstep rfl hturns, hrest⟩
    · rw [if_neg hruns, if_neg hruns]
      exact ih (index + 1) s

/-- A case takes its arms in turn, until one jumps. -/
theorem inTurn_arms (env : RenderEnv) (call : List Instruction → RenderM Flow) (skip : Nat)
    (arms : List Arm) (s : RenderState) :
    ∃ trace, InTurn (fun arm : Arm => env.runBody call arm.body) (· != .normal) (arms.drop skip) s
      trace (env.runArms call skip arms s) := by
  induction arms generalizing skip s with
  | nil =>
    rw [List.drop_nil]
    cases skip <;> exact ⟨[], .done⟩
  | cons arm arms ih =>
    obtain ⟨label, body⟩ := arm
    cases skip with
    | succ skip => exact ih skip s
    | zero =>
      rw [List.drop_zero, RenderEnv.runArms]
      show ∃ trace, InTurn _ _ _ _ trace (EStateM.bind (env.runBody call body) _ s)
      unfold EStateM.bind
      cases hbody : env.runBody call body s with
      | error e t => exact ⟨_, .fails hbody⟩
      | ok flow t =>
        obtain ⟨trace, hturns⟩ := ih 0 t
        cases flow with
        | normal => exact ⟨_, .passes hbody rfl hturns⟩
        | «break» => exact ⟨_, .stops hbody rfl⟩
        | «continue» => exact ⟨_, .stops hbody rfl⟩

end Stencil
