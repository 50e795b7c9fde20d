import Stencil.Proofs.Generation.Steps
import Stencil.Proofs.Render.Checked
import Stencil.Proofs.Render.Contract
import Stencil.Proofs.Render.Locals

/-!
# Templates with all their variables

A template lists the variables that it reads from its bindings. A rendering binds names and changes
their values, but never takes a name out of the globals; so once the listed variables are there, no
pipeline misses the one it needs.

* `Made.needsOnly`: the pipelines of a program need only variables that are listed.
* `Step.NeedsOnly.meets`: where they are among the globals, no step fails for want of a variable.
* `render_supplied`: so it goes for compiled templates, whatever they are rendered with.
-/

namespace Stencil

/-! ## Needed variables -/

def Pipeline.NeedsOnly (L : String → Prop) (p : Pipeline) : Prop :=
  ∀ name, p.needed = some name → L name

def Step.NeedsOnly (L : String → Prop) (e : Step) : Prop := ∀ p ∈ e.pipelines, p.NeedsOnly L

section

variable {env : DraftEnv} {L : String → Prop} {A : Nat → Scope → Prop} {σ : Scope}

theorem Step.NeedsOnly.head {p : Pipeline} (h : p.NeedsOnly L) : (Step.head p).NeedsOnly L := by
  intro q hq
  obtain rfl := List.mem_singleton.1 hq
  exact h

theorem MakesAll.needsOnly {bases : List String} {ps : List Pipeline} (h : MakesAll L σ bases ps) :
    ∀ p ∈ ps, p.NeedsOnly L := by
  induction h with
  | nil => exact fun p hp => absurd hp List.not_mem_nil
  | cons hmakes _ ih => exact List.forall_mem_cons.2 ⟨hmakes.known, ih⟩

theorem Leaf.needsOnly {i j : Nat} {added : List Instruction} (h : Leaf env L σ i added j) :
    ∀ x ∈ added, (Step.run x).NeedsOnly L := by
  intro x hx p hp
  have one {y : Instruction} (hx : x ∈ [y]) (hy : y.pipelines = []) : p.NeedsOnly L := by
    obtain rfl := List.mem_singleton.1 hx
    rw [Step.pipelines, hy] at hp
    exact absurd hp List.not_mem_nil
  cases h with
  | text | raw =>
    split at hx
    · exact absurd hx List.not_mem_nil
    · exact one hx rfl
  | comment | mixin | trim => exact absurd hx List.not_mem_nil
  | capture | script | «break» | «continue» => exact one hx rfl
  | block _ _ _ adds =>
    rcases adds with rfl | rfl
    · exact absurd hx List.not_mem_nil
    · exact one hx rfl
  | object _ makes | assign _ _ _ _ makes =>
    obtain rfl := List.mem_singleton.1 hx
    obtain rfl := List.mem_singleton.1 hp
    exact makes.known
  | callMixin _ _ makes =>
    obtain rfl := List.mem_singleton.1 hx
    exact makes.needsOnly p hp

theorem RunsOver.needsOnly {text : String} {calls : List FilterCall} {iterable : Iterable}
    (h : RunsOver L σ text calls iterable) :
    ∀ p ∈ Checker.pipelinesOf iterable, p.NeedsOnly L := by
  cases h with
  | range _ starts stops =>
    exact List.forall_mem_cons.2 ⟨starts.known, List.forall_mem_singleton.2 stops.known⟩
  | pipeline _ makes => exact List.forall_mem_singleton.2 makes.known

theorem Opens.needsOnly {i : Nat} {kind : OpenKind} (h : Opens env L σ i kind) :
    ∀ p ∈ kind.pipelines, p.NeedsOnly L := by
  cases h with
  | condition _ _ makes | case _ _ makes => exact List.forall_mem_singleton.2 makes.known
  | loop _ _ _ _ _ _ runs => exact runs.needsOnly

/-- What a token makes a program do needs only known variables. -/
theorem Yields.needsOnly {k : Nat} {e : Step} (h : Yields env L σ k e) : e.NeedsOnly L := by
  cases h with
  | position => exact fun p hp => absurd hp List.not_mem_nil
  | leaf leaf mem => exact leaf.needsOnly _ mem
  | opens opens mem => exact .head (opens.needsOnly _ mem)
  | elseIf _ _ makes => exact .head makes.known
  | label labels mem =>
    cases labels with
    | values _ _ makes => exact .head (makes.needsOnly _ mem)
    | default => exact absurd mem List.not_mem_nil

theorem Made.needsOnly {program : Program} (h : Made env L A program) :
    ∀ e ∈ program.steps, e.1.NeedsOnly L := by
  intro e he
  obtain ⟨_, _, hyields⟩ := h.steps he
  exact hyields.needsOnly

end

/-! ## Supplied names -/

/-- The names of `L` are among the globals, and no failure is for want of a variable. -/
def Contract.supplies (L : String → Prop) : Contract where
  globals t := ∀ name, L name → t.contains name = true
  failure cause := ∀ name, cause ≠ .undefinedVariable name
  insert h _ _ other hother := Table.contains_insert.2 (.inr (h other hother))
  other hcause name := by
    rintro rfl
    cases hcause

/-- A step that needs only names of `L` never misses them. -/
theorem Step.NeedsOnly.meets {env : RenderEnv} {L : String → Prop} {e : Step} (h : e.NeedsOnly L) :
    e.Meets env (.supplies L) where
  pipelines p hp :=
    { needed := by
        intro name hneeded s hs hnone
        have hglobal : (s.globals.get? name).isSome = true := hs name (h p hp name hneeded)
        rw [RenderState.lookup, Option.isNone_iff_eq_none, Option.or_eq_none_iff] at hnone
        rw [hnone.2] at hglobal
        cases hglobal
      filters := fun _ _ _ _ => nofun }
  mixin _ _ _ _ _ := nofun

/-! ## Templates -/

theorem Template.renderWith_secure {L : String → Prop} {t : Template}
    (h : ∀ e ∈ t.program.steps, e.1.NeedsOnly L) (toolbox : Toolbox) {bindings : Value}
    {globals : Table Value} (hglobals : globalsOf bindings = .ok globals)
    (hsupplied : ∀ name, L name → globals.contains name = true) {e : Error}
    (herror : t.renderWith bindings toolbox = .error e) (name : String) :
    e.cause ≠ .undefinedVariable name := by
  let env : RenderEnv := ⟨t.program, t.files, toolbox⟩
  have hrun : (Contract.supplies L).Ends (env.run { globals }) :=
    obeys_run (fun e he => (h e he).meets) { globals } hsupplied
  rcases error_of_renderWith herror with ⟨kind, hrefused, _⟩ | ⟨globals', s, hgiven, hfails⟩
  · rw [hglobals] at hrefused
    cases hrefused
  · obtain rfl := Except.ok.inj (hglobals.symm.trans hgiven)
    rw [hfails] at hrun
    exact hrun name

/-- A compiled template fails to render for the causes for which templates of its program do, or
because it has not been checked yet and is refused. -/
theorem Compiled.render_cause {P : Cause → Prop} {o : CompileOptions} {c : Compiled}
    {bindings : Value} (htemplate : ∀ t, c.template = some t → t.program = c.program)
    (hrenders : ∀ (t : Template) (toolbox : Toolbox) (e : Error), t.program = c.program →
      t.renderWith bindings toolbox = .error e → P e.cause)
    (hrefuses : ∀ expression reason, P (.uncompilable expression reason)) {e : Error}
    (herror : c.render o bindings = .error e) : P e.cause := by
  have hchosen (t : Template) (ht : t.program = c.program)
      (herror : (if t.bundled || o.filters.isEmpty then t.render bindings
        else t.renderWith bindings (.withFilters o.filters)) = .error e) : P e.cause := by
    split at herror
    · exact hrenders t t.toolbox e ht herror
    · exact hrenders t _ e ht herror
  unfold render at herror
  cases ht : c.template with
  | some t =>
    rw [ht] at herror
    exact hchosen t (htemplate t ht) herror
  | none =>
    rw [ht] at herror
    cases hproduced : Template.produce c.program c.flattened.files none with
    | ok t =>
      rw [hproduced] at herror
      exact hchosen t (Template.of_produce hproduced).1 herror
    | error e' =>
      rw [hproduced] at herror
      cases herror
      obtain ⟨expression, reason, hcause⟩ := (produce_decides _ _ _).refuses e hproduced
      rw [hcause]
      exact hrefuses expression reason

/-- A template whose listed variables are all bound never fails for want of a variable, neither when
it is rendered as it was compiled, nor by any template of its program with any toolbox. -/
theorem render_supplied (o : CompileOptions) (htags : o.tags = .empty) (text : String)
    (reads reads' : List Path) (c : Compiled) (hcompile : compile o text reads = .ok c reads')
    (bindings : Value) (globals : Table Value) (hglobals : Template.globalsOf bindings = .ok globals)
    (hsupplied : ∀ name ∈ c.locals, globals.contains name = true) (name : String) :
    (∀ e, c.render o bindings = .error e → e.cause ≠ .undefinedVariable name) ∧
    (∀ t, c.template = some t → t.program = c.program) ∧
    ∀ t : Template, t.program = c.program → ∀ (toolbox : Toolbox) (e : Error),
      t.renderWith bindings toolbox = .error e → e.cause ≠ .undefinedVariable name := by
  obtain ⟨f, hf⟩ := compileFlattened_of_compile hcompile
  obtain ⟨tokens, made, _, hmade, hlocals, ⟨names, hprogram⟩, htemplate⟩ := Compiled.generated hf
  rw [htags, TagRegistry.merged_empty] at hmade
  obtain ⟨sites, _, hmadeOf⟩ := (generate_settles tokens c.flattened.files o.positions).get hmade
  have hneeds : ∀ e ∈ c.program.steps, e.1.NeedsOnly (· ∈ c.locals) := by
    rw [hprogram, hlocals]
    exact hmadeOf.needsOnly
  have hany (t : Template) (ht : t.program = c.program) (toolbox : Toolbox) (e : Error)
      (herror : t.renderWith bindings toolbox = .error e) : e.cause ≠ .undefinedVariable name :=
    Template.renderWith_secure (ht ▸ hneeds) toolbox hglobals hsupplied herror name
  have htemplates (t : Template) (ht : c.template = some t) : t.program = c.program :=
    (htemplate t ht).1
  refine ⟨fun e herror => ?_, htemplates, hany⟩
  exact Compiled.render_cause (P := (· ≠ .undefinedVariable name)) htemplates
    (fun t toolbox e ht => hany t ht toolbox e) (fun _ _ => nofun) herror

/-- A block in a branch, which is compiled behind the main body. -/
def blockInBranch : String :=
  "\x7b% if a %\x7d\x7b% block m %\x7d\x7b\x7b b \x7d\x7d\x7b% endblock %\x7d\x7b% endif %\x7d"

theorem render_supplied_blockInBranch :
    ∃ c, compile {} blockInBranch [] = .ok c [] ∧ c.locals.toList = ["a", "b"] ∧
      ∀ (v : Value) (e : Error), c.render {} (.map [(.str "a", .bool true), (.str "b", v)]) = .error e →
        e.cause ≠ .undefinedVariable "b" := by
  have hcompiled : (match compile {} blockInBranch [] with
      | .ok c reads => reads.isEmpty && c.locals.toList == ["a", "b"]
      | .error _ _ => false) = true := by decide +kernel
  split at hcompiled
  · next c reads hc =>
    simp only [Bool.and_eq_true, List.isEmpty_iff, beq_iff_eq] at hcompiled
    obtain ⟨rfl, hlocals⟩ := hcompiled
    refine ⟨c, hc, hlocals, fun v => ?_⟩
    refine (render_supplied {} rfl blockInBranch [] [] c hc _ (.ofList [("a", .bool true), ("b", v)])
      rfl (fun name hname => ?_) "b").1
    have hmem : name ∈ c.locals.toList := hname
    rw [hlocals] at hmem
    simp only [List.mem_cons, List.not_mem_nil, or_false] at hmem
    rcases hmem with rfl | rfl <;> rfl
  · cases hcompiled

end Stencil
