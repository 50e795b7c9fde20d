import Stencil.Template

/-!
# Templates, step by step

A template is made when all bodies of its program have been checked, and renders what running the
program writes. Both are stated here as equations, so that checks and runs can be compared apart.
-/

namespace Stencil.Template

/-- The text that a rendering has written, unless it failed. -/
def written : EStateM.Result Error RenderState Flow → Except Error String
  | .ok _ s => .ok s.output
  | .error e _ => .error e

theorem renderWith_eq (t : Template) (bindings : Value) (toolbox : Toolbox) :
    t.renderWith bindings toolbox =
      (globalsOf bindings).bind fun globals =>
        written (RenderEnv.run ⟨t.program, t.files, toolbox⟩ { globals }) := by
  unfold renderWith
  refine bind_congr fun globals => ?_
  cases RenderEnv.run ⟨t.program, t.files, toolbox⟩ { globals } <;> rfl

/-- A rendering fails because its bindings are no map, or because the program fails. -/
theorem error_of_renderWith {t : Template} {bindings : Value} {toolbox : Toolbox} {e : Error}
    (h : t.renderWith bindings toolbox = .error e) :
    (∃ kind, globalsOf bindings = .error e ∧ e.cause = .invalidBindings kind) ∨
      ∃ globals s, globalsOf bindings = .ok globals ∧
        RenderEnv.run ⟨t.program, t.files, toolbox⟩ { globals } = .error e s := by
  rw [renderWith_eq] at h
  cases hglobals : globalsOf bindings with
  | error e' =>
    rw [hglobals] at h
    cases h
    unfold globalsOf at hglobals
    split at hglobals <;> cases hglobals
    exact .inl ⟨_, rfl, rfl⟩
  | ok globals =>
    rw [hglobals] at h
    replace h : written (RenderEnv.run ⟨t.program, t.files, toolbox⟩ { globals }) = .error e := h
    cases hrun : RenderEnv.run ⟨t.program, t.files, toolbox⟩ { globals } with
    | ok flow s =>
      rw [hrun] at h
      cases h
    | error e' s =>
      rw [hrun] at h
      cases h
      exact .inr ⟨globals, s, rfl, hrun⟩

theorem produce_eq (program : Program) (files : Files) (toolbox : Option Toolbox) :
    produce program files toolbox =
      (Checker.checkBodies ⟨(toolbox.getD default).evaluator, files⟩
        (Checker.bodiesOf program)).map
          fun _ => ⟨program, files, toolbox.getD default, toolbox.isSome⟩ := by
  unfold produce
  dsimp only
  cases Checker.checkBodies ⟨(toolbox.getD default).evaluator, files⟩
    (Checker.bodiesOf program) <;> rfl

theorem eq_of_produce {program : Program} {files : Files} {toolbox : Option Toolbox} {t : Template}
    (h : produce program files toolbox = .ok t) :
    t = ⟨program, files, toolbox.getD default, toolbox.isSome⟩ := by
  rw [produce_eq] at h
  cases hcheck : Checker.checkBodies ⟨(toolbox.getD default).evaluator, files⟩
    (Checker.bodiesOf program) with
  | error e =>
    rw [hcheck] at h
    cases h
  | ok _ =>
    rw [hcheck] at h
    exact (Except.ok.inj h).symm

theorem of_produce {program : Program} {files : Files} {toolbox : Option Toolbox} {t : Template}
    (h : produce program files toolbox = .ok t) :
    t.program = program ∧ t.toolbox = toolbox.getD default := by
  obtain rfl := eq_of_produce h
  exact ⟨rfl, rfl⟩

end Stencil.Template
