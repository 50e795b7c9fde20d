import Stencil.Proofs.Program.Jumps
import Stencil.Proofs.Render.Bound

/-!
# How bodies end

A body that does not fail ends at its end, or in a jump that leaves it.

* `endsIn_body`: a body from which no jump escapes ends at its end; in general, a jump in which it
  ends escapes from it.
-/

namespace Stencil

/-! ## Steps -/

/-- Unless a step fails, its result satisfies `P`. -/
def EndsIn {α : Type} (P : α → Prop) (x : RenderM α) : Prop := ∀ s a t, x s = .ok a t → P a

namespace EndsIn

variable {α β : Type} {P : β → Prop} {Q : α → Prop} {x : RenderM α} {f : α → RenderM β}

theorem pure {b : β} (h : P b) : EndsIn P (pure b : RenderM β) := by
  intro s a t ht
  cases ht
  exact h

theorem after (hx : EndsIn Q x) (hf : ∀ a, Q a → EndsIn P (f a)) : EndsIn P (x >>= f) := by
  intro s b t ht
  obtain ⟨a, u, hu, hrest⟩ := ok_of_bindM ht
  exact hf a (hx s a u hu) u b t hrest

theorem bind (hf : ∀ a, EndsIn P (f a)) : EndsIn P (x >>= f) :=
  after (Q := fun _ => True) (fun _ _ _ _ => trivial) fun a _ => hf a

theorem within {frame : Table Value} (h : EndsIn Q x) : EndsIn Q (RenderM.within frame x) := by
  intro s a t ht
  unfold RenderM.within at ht
  split at ht
  · next b u hu =>
    cases ht
    exact h _ _ _ hu
  · cases ht

/-- One step behind another, unless that one jumps. -/
theorem andThen {P : Flow → Prop} {x y : RenderM Flow} (hx : EndsIn P x) (hy : EndsIn P y) :
    EndsIn P (do match ← x with | .normal => y | flow => return flow) := by
  refine hx.after fun flow hflow => ?_
  cases flow with
  | normal => exact hy
  | «break» => exact .pure hflow
  | «continue» => exact .pure hflow

end EndsIn

/-! ## Bodies -/

section

variable {env : RenderEnv} {call : List Instruction → RenderM Flow}

mutual

theorem endsIn_instruction {P : Flow → Prop} (hnormal : P .normal) : ∀ i : Instruction,
    (∀ flow, Escapes flow [i] → P flow) → EndsIn P (env.runInstruction call i)
  | .position _, _ => .bind fun _ => .pure hnormal
  | .text _, _ => .bind fun _ => .pure hnormal
  | .emit _, _ => .bind fun _ => .bind fun _ => .pure hnormal
  | .assign .., _ => .bind fun _ => .bind fun _ => .bind fun _ => .bind fun _ => .pure hnormal
  | .capture .., _ => .bind fun _ => .pure hnormal
  | .choose branches otherwise, h => by
    apply endsIn_branches hnormal branches
    · intro inner hmem flow hescapes
      exact h flow (.inside List.mem_cons_self rfl (List.mem_append_left _ hmem) hescapes)
    · apply endsIn_otherwise hnormal otherwise
      intro inner hmem flow hescapes
      exact h flow (.inside List.mem_cons_self rfl (List.mem_append_right _ hmem) hescapes)
  | .switch subject arms, h => by
    -- What ends the arms is taken up if it is a `break`, and leaves the case otherwise.
    have harms (index : Nat) :
        EndsIn (fun flow => flow = .break ∨ P flow) (env.runArms call index arms) := by
      refine endsIn_arms (P := fun flow => flow = .break ∨ P flow) (.inr hnormal) index arms
        fun inner hmem flow hescapes => ?_
      by_cases hflow : flow = .break
      · exact .inl hflow
      · have hpasses : (Instruction.switch subject arms).catches flow = false := by
          simpa [Instruction.catches] using hflow
        exact .inr (h flow (.inside List.mem_cons_self hpasses hmem hescapes))
    refine .bind fun _ => .bind fun found => ?_
    cases found with
    | none => exact .pure hnormal
    | some index =>
      refine (harms index).within.after fun flow hflow => ?_
      split
      · exact .pure hnormal
      · next hne => exact .pure (hflow.resolve_left hne)
  | .loop .., _ => .bind fun _ => .bind fun _ => .pure hnormal
  | .break, h => .pure (h .break (.here List.mem_cons_self rfl))
  | .continue, h => .pure (h .continue (.here List.mem_cons_self rfl))
  | .callMixin .., _ => .bind fun _ => .pure hnormal
  | .callBlock _, _ => .bind fun _ => .pure hnormal
  | .script _, _ => .bind fun _ => .pure hnormal
termination_by structural i => i

/-- A body ends at its end, or in a jump that escapes from it. -/
theorem endsIn_body {P : Flow → Prop} (hnormal : P .normal) : ∀ body : List Instruction,
    (∀ flow, Escapes flow body → P flow) → EndsIn P (env.runBody call body)
  | [], _ => .pure hnormal
  | i :: is, h => by
    refine EndsIn.andThen (endsIn_instruction hnormal i fun flow hescapes => ?_)
      (endsIn_body hnormal is fun flow hescapes => ?_)
    · exact h flow ((additive_escapes flow).first hescapes)
    · exact h flow ((additive_escapes flow).rest hescapes)
termination_by structural body => body

theorem endsIn_branches {P : Flow → Prop} (hnormal : P .normal) : ∀ (branches : List Branch)
    {otherwise : RenderM Flow},
    (∀ inner ∈ branches.map (fun | .mk _ _ body => body), ∀ flow, Escapes flow inner → P flow) →
    EndsIn P otherwise → EndsIn P (env.runBranches call branches otherwise)
  | [], _, _, hotherwise => hotherwise
  | .mk condition negated body :: bs, _, h, hotherwise => by
    refine .bind fun v => ?_
    split
    · exact (endsIn_body hnormal body (h _ List.mem_cons_self)).within
    · exact endsIn_branches hnormal bs (fun inner hmem => h inner (List.mem_cons_of_mem _ hmem))
        hotherwise
termination_by structural branches => branches

theorem endsIn_otherwise {P : Flow → Prop} (hnormal : P .normal) :
    ∀ otherwise : Option (List Instruction),
    (∀ inner ∈ otherwise.toList, ∀ flow, Escapes flow inner → P flow) →
    EndsIn P (env.runOtherwise call otherwise)
  | none, _ => .pure hnormal
  | some body, h => (endsIn_body hnormal body (h _ List.mem_cons_self)).within
termination_by structural otherwise => otherwise

theorem endsIn_arms {P : Flow → Prop} (hnormal : P .normal) : ∀ (skip : Nat) (arms : List Arm),
    (∀ inner ∈ arms.map (fun | .mk _ body => body), ∀ flow, Escapes flow inner → P flow) →
    EndsIn P (env.runArms call skip arms)
  | skip, [], _ => by cases skip <;> exact .pure hnormal
  | skip + 1, .mk _ _ :: arms, h =>
    endsIn_arms hnormal skip arms fun inner hmem => h inner (List.mem_cons_of_mem _ hmem)
  | 0, .mk _ body :: arms, h =>
    (endsIn_body hnormal body (h _ List.mem_cons_self)).andThen
      (endsIn_arms hnormal 0 arms fun inner hmem => h inner (List.mem_cons_of_mem _ hmem))
termination_by structural _ arms => arms

end

end

end Stencil
