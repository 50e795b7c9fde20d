import Stencil.Proofs.Generation.Warned
import Stencil.Proofs.Render.Bundle
import Stencil.Proofs.Render.Evaluated
import Stencil.Proofs.Render.Supplied

/-!
# Names that are missing in a rendering

A rendering fails for want of a mixin or of a filter only if its program names one that is not there.
Such mixins, and such filters of a template that carries its own, are warned about when the template
is compiled.

* `run_lacks`: what a run misses is named in the program, and not there.
* `render_warned`: so a template without warnings misses nothing, and a mixin that is missed has been
  warned about.
-/

namespace Stencil

/-! ## What a run misses -/

/-- The program names the mixin or the filter that is missing, and it is not there. -/
def RenderEnv.Lacks (env : RenderEnv) : Cause → Prop
  | .unknownMixin name => env.program.CallsMixin name ∧ env.program.mixins.contains name = false
  | .unknownFilter name => (∃ x, env.program.Holds x ∧ ∃ p ∈ x.pipelines, ∃ call ∈ p.filters,
      call.name = name) ∧ env.toolbox.filters.get? name = none
  | _ => True

/-- A rendering fails for want only of what it lacks. -/
def Contract.lacks (env : RenderEnv) : Contract where
  globals _ := True
  failure := env.Lacks
  insert _ _ _ := trivial
  other {cause} _ := by cases cause <;> trivial

variable {env : RenderEnv}

theorem Step.Of.meets {e : Step} {i : Instruction} (h : e.Of i) (hi : env.program.Holds i) :
    e.Meets env (.lacks env) where
  pipelines p hp := by
    have hmem : p ∈ i.pipelines := by
      cases h with
      | run => exact hp
      | head mem => exact List.mem_singleton.1 hp ▸ mem
    exact ⟨fun _ _ _ _ _ => trivial, fun call hcall hnone =>
      ⟨⟨i, hi, p, hmem, call, hcall, rfl⟩, hnone⟩⟩
  mixin name args he hnone := by
    subst he
    cases h
    refine ⟨⟨args, hi⟩, ?_⟩
    rw [Table.contains, hnone]
    rfl

/-- A run misses nothing but what its program names, and what is not there. -/
theorem run_lacks {s t : RenderState} {e : Error} (h : env.run s = .error e t) :
    env.Lacks e.cause := by
  have hends : (Contract.lacks env).Ends (env.run s) := by
    refine obeys_run (fun e he => ?_) s trivial
    obtain ⟨i, hi, hof⟩ := Program.steps_hold he
    exact hof.meets hi
  rwa [h] at hends

theorem Template.renderWith_lacks {t : Template} {bindings : Value} {toolbox : Toolbox} {e : Error}
    (h : t.renderWith bindings toolbox = .error e) :
    RenderEnv.Lacks ⟨t.program, t.files, toolbox⟩ e.cause := by
  rcases error_of_renderWith h with ⟨kind, _, hcause⟩ | ⟨globals, s, _, hrun⟩
  · rw [hcause]
    trivial
  · exact run_lacks hrun

/-! ## Compiled templates -/

/-- A program has the same instructions, whatever it carries. -/
theorem Program.Holds.of_bundled {program : Program} {names : Option (List String)}
    {x : Instruction} (h : Program.Holds { program with bundled := names } x) : program.Holds x := by
  cases h with
  | body occurs => exact .body occurs
  | mixin mem occurs => exact .mixin mem occurs
  | block mem occurs => exact .block mem occurs

/-- What there is to warn about besides calls of mixins is no such call. -/
theorem message_filterWarnings {o : CompileOptions} {files : Files} {made : Generated} {w : Warning}
    (hw : w ∈ filterWarnings o files made) (name : String) : w.message ≠ undefinedMixin name := by
  obtain ⟨entry, _, rfl⟩ := List.mem_map.1 hw
  intro h
  have hheads := congrArg (·.toList.head?) h
  simp [undefinedMixin] at hheads

/-- A compiled template has warnings about the mixins that are called and not there. -/
theorem Compiled.warns {o : CompileOptions}
    (htags : ∀ entry ∈ o.tags.handlers.entries, TagHandler.Reports entry.2) {f : Flattened}
    {c : Compiled} (h : compileFlattened o f = .ok c) :
    (∀ name, c.program.CallsMixin name → c.program.mixins.contains name = false →
      ∃ w ∈ c.warnings, w.message = undefinedMixin name) ∧
    ∀ w ∈ c.warnings, ∀ name, w.message = undefinedMixin name →
      c.program.mixins.contains name = false := by
  obtain ⟨rfl, _, made, _, hmade, _, _, hprogram, hwarnings, _⟩ := compileFlattened_ok h
  obtain ⟨hcalled, hwarned⟩ := generate_warns (TagRegistry.reports_merged htags) hmade
  obtain ⟨⟨names, hbundle⟩, _⟩ := bundle_spec o c.flattened.files made
  -- Bundling keeps the warnings, and adds such as are about filters.
  have hmem (w : Warning) : w ∈ c.warnings ↔ w ∈ made.warnings ∨ o.bundle = true ∧
      w ∈ filterWarnings o c.flattened.files made := by
    rw [hwarnings, bundle]
    split
    · next hbundles => simp [hbundles]
    · next hbundles => simp [hbundles]
  rw [hprogram, hbundle]
  constructor
  · rintro name ⟨args, holds⟩ hmissing
    obtain ⟨w, hw, hmessage⟩ := hcalled name ⟨args, holds.of_bundled⟩ hmissing
    exact ⟨w, (hmem w).2 (.inl hw), hmessage⟩
  · intro w hw name hmessage
    rcases (hmem w).1 hw with hw | ⟨_, hw⟩
    · exact hwarned w hw name hmessage
    · exact absurd hmessage (message_filterWarnings hw name)

/-- Without warnings about filters, every filter of the program is provided. -/
theorem provided_of_filterWarnings {o : CompileOptions} {tokens : List Token} {files : Files}
    {positions : Bool} {made : Generated}
    (hmade : generate tokens files .builtin positions = .ok made)
    (hnone : filterWarnings o files made = []) {x : Instruction} (holds : made.program.Holds x)
    {p : Pipeline} (hp : p ∈ x.pipelines) {call : FilterCall} (hcall : call ∈ p.filters) :
    (FilterRegistry.merged .builtin o.filters).get? call.name ≠ none := by
  intro hmissing
  obtain ⟨entry, hentry, hname⟩ := List.mem_map.1 (Table.contains_iff.1
    (generate_uses hmade holds hp hcall))
  unfold filterWarnings at hnone
  rw [List.map_eq_nil_iff, List.filter_eq_nil_iff] at hnone
  refine hnone entry hentry ?_
  show (!(FilterRegistry.merged .builtin o.filters).contains entry.1) = true
  rw [hname, FilterRegistry.contains, hmissing]
  rfl

/-- Where all mixins that are called and all filters are there, none is missing. -/
theorem RenderEnv.Lacks.not_missing {env : RenderEnv} {cause : Cause} (h : env.Lacks cause)
    (hcalled : ∀ name, env.program.CallsMixin name → env.program.mixins.contains name = true)
    (hfilters : ∀ x, env.program.Holds x → ∀ p ∈ x.pipelines, ∀ call ∈ p.filters,
      env.toolbox.filters.get? call.name ≠ none) (name : String) :
    cause ≠ .unknownMixin name ∧ cause ≠ .unknownFilter name := by
  constructor
  · rintro rfl
    obtain ⟨hcalls, hmissing⟩ := h
    rw [hcalled name hcalls] at hmissing
    cases hmissing
  · rintro rfl
    obtain ⟨⟨x, holds, p, hp, call, hcall, rfl⟩, hmissing⟩ := h
    exact hfilters x holds p hp call hcall hmissing

/-- A program without warnings misses nothing when it is rendered with all filters. -/
theorem renderWith_unwarned {o : CompileOptions} {tokens : List Token} {files : Files}
    {positions : Bool} {made : Generated}
    (hmade : generate tokens files .builtin positions = .ok made) (hcalls : made.warnings = [])
    (hfilters : filterWarnings o files made = []) {t : Template} (ht : t.program = made.program)
    {bindings : Value} {e : Error}
    (herror : t.renderWith bindings (.withFilters o.filters) = .error e) (name : String) :
    e.cause ≠ .unknownMixin name ∧ e.cause ≠ .unknownFilter name := by
  have hregistry : TagRegistry.builtin.Reports := fun _ _ h => .inl h
  refine (Template.renderWith_lacks herror).not_missing ?_ ?_ name <;> dsimp only <;> rw [ht]
  · intro name hname
    by_contra hmissing
    obtain ⟨w, hw, _⟩ := (generate_warns hregistry hmade).1 name hname (Bool.not_eq_true _ ▸ hmissing)
    rw [hcalls] at hw
    exact List.not_mem_nil hw
  · intro x holds p hp call hcall
    exact provided_of_filterWarnings hmade hfilters holds hp hcall

/-- A template that is compiled with the built-in tags, carries its filters and has no warnings
misses nothing. -/
theorem Compiled.render_unwarned {o : CompileOptions} (htags : o.tags = .empty)
    (hbundle : o.bundle = true) {f : Flattened} {c : Compiled} (h : compileFlattened o f = .ok c)
    (hnone : c.warnings = []) {bindings : Value} {e : Error}
    (herror : c.render o bindings = .error e ∨
      ∃ t, c.template = some t ∧ t.render bindings = .error e) (name : String) :
    e.cause ≠ .unknownMixin name ∧ e.cause ≠ .unknownFilter name := by
  obtain ⟨rfl, tokens, made, htokens, hmade, _, _, _, hwarnings, htemplate⟩ :=
    compileFlattened_ok h
  rw [htags, TagRegistry.merged_empty] at hmade
  simp only [bundle, hbundle, if_true] at hwarnings htemplate
  rw [hnone, eq_comm, List.append_eq_nil_iff] at hwarnings
  replace herror : c.render o bindings = .error e := by
    rcases herror with herror | ⟨t, ht, herror⟩
    · exact herror
    · obtain rfl := Template.eq_of_produce (htemplate t ht)
      unfold render
      rw [ht]
      exact herror
  have hrender := renderFlattened_eq o htags c.flattened bindings
  rw [h, htokens] at hrender
  replace hrender : c.render o bindings =
      (generate tokens c.flattened.files .builtin o.positions).bind fun made =>
        renderMade o c.flattened.files made bindings := hrender
  rw [hmade, herror] at hrender
  replace hrender : .error e = (Checker.checkBodies ⟨.standard, c.flattened.files⟩
      (Checker.bodiesOf made.program)).bind fun _ => _ := hrender
  cases hcheck : Checker.checkBodies ⟨.standard, c.flattened.files⟩
    (Checker.bodiesOf made.program) with
  | error e' =>
    rw [hcheck] at hrender
    cases hrender
    obtain ⟨_, _, hcause⟩ := (Checker.checkBodies_decides _).refuses e hcheck
    rw [hcause]
    exact ⟨nofun, nofun⟩
  | ok _ =>
    rw [hcheck] at hrender
    exact renderWith_unwarned hmade hwarnings.1 hwarnings.2 rfl hrender.symm name

/-- A tag of the host, which writes its head. -/
def echoTag : TagHandler := fun _ tag d => .ok (d.emit (.text tag.head)).advance

theorem echoTag_reports : echoTag.Reports := by
  intro env tag d d' h
  obtain rfl := Except.ok.inj h
  exact ((Draft.Aside.refl d).emits rfl).advance.reports

/-- A call of a mixin that is not defined, behind a tag of the host. -/
def undefinedCall : String := "\x7b% echo x %\x7d\x7b% +a %\x7d"

end Stencil
