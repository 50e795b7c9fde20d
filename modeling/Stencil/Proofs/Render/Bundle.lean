import Stencil.Compilation
import Stencil.Proofs.Generation.Noted
import Stencil.Proofs.Render.Same
import Stencil.Proofs.Render.Template

/-!
# Templates that carry their filters

A template may carry the filters that were noted while its program was made. As every filter that the
program applies has been noted, it renders as with all filters.

* `FilterRegistry.get?_select`: a selection has the selected filters.
* `same_run`: a program does the same with two toolboxes that agree on its filters.
* `render_bundle`: so a template renders alike with the filters it carries, with all filters, and
  from its program alone.
-/

namespace Stencil

/-! ## Registries -/

namespace FilterRegistry

theorem get?_select (r : FilterRegistry) (names : List String) (name : String) :
    (r.select names).get? name = if name ∈ names then r.get? name else none := by
  obtain ⟨pick, hselect, hpick⟩ : ∃ pick : FilterRegistry → String → FilterRegistry,
      r.select names = names.foldl pick empty ∧ ∀ s key, (pick s key).get? name =
        if name = key then (r.get? name).or (s.get? name) else s.get? name := by
    refine ⟨_, rfl, fun s key => ?_⟩
    by_cases hkey : name = key
    · subst hkey
      cases hfilter : r.get? name with
      | none => simp
      | some filter => simp [get?_insert]
    · rw [if_neg hkey]
      split
      · rw [get?_insert, if_neg hkey]
      · rfl
  have hfold (s : FilterRegistry) : (names.foldl pick s).get? name =
      if name ∈ names then (r.get? name).or (s.get? name) else s.get? name := by
    clear hselect
    induction names generalizing s with
    | nil => simp
    | cons key names ih =>
      rw [List.foldl_cons, ih, hpick]
      by_cases hkey : name = key
      · subst hkey
        cases r.get? name <;> simp
      · simp [hkey]
  rw [hselect, hfold]
  show (if name ∈ names then (r.get? name).or none else none) = _
  rw [Option.or_none]

/-- Nothing is changed by a registry without filters. -/
theorem merged_of_isEmpty {r extra : FilterRegistry} (h : extra.isEmpty = true) :
    r.merged extra = r := by
  have hnames : extra.names = [] := List.eq_nil_of_length_eq_zero (by simpa [isEmpty, size] using h)
  have hentries : extra.table.entries = [] := by
    cases hentries : extra.table.entries with
    | nil => rfl
    | cons e rest =>
      have hmem : e.1 ∈ NameSet.ofList extra.table.keys :=
        NameSet.mem_insertAll.2 (.inl (by simp [Table.keys, hentries]))
      replace hmem : e.1 ∈ extra.names := hmem
      rw [hnames] at hmem
      exact absurd hmem List.not_mem_nil
  rw [merged, hentries]
  rfl

end FilterRegistry

/-- Every filter that the program applies has been noted. -/
def Generated.NotesFilters (made : Generated) : Prop :=
  ∀ x, made.program.Holds x → ∀ p ∈ x.pipelines, ∀ call ∈ p.filters,
    made.filters.contains call.name = true

theorem notesFilters_builtin {tokens : List Token} {files : Files} {positions : Bool}
    {made : Generated} (hmade : generate tokens files .builtin positions = .ok made) :
    made.NotesFilters :=
  fun _ holds _ hp _ hcall => generate_uses hmade holds hp hcall

/-- Every filter that a program applies is among those that its template carries: a filter of the
host, or else a built-in one. -/
theorem Generated.NotesFilters.bundled {o : CompileOptions} {made : Generated}
    (h : made.NotesFilters) {x : Instruction} (holds : made.program.Holds x) {p : Pipeline}
    (hp : p ∈ x.pipelines) {call : FilterCall} (hcall : call ∈ p.filters) :
    (bundledFilters o made).get? call.name =
      (o.filters.get? call.name).or (FilterRegistry.builtin.get? call.name) := by
  have hmem := Table.contains_iff.1 (h x holds p hp call hcall)
  rw [bundledFilters, FilterRegistry.get?_select, if_pos hmem, FilterRegistry.get?_merged]

@[inherit_doc Generated.NotesFilters.bundled]
theorem bundledFilters_get? {o : CompileOptions} {tokens : List Token} {files : Files}
    {positions : Bool} {made : Generated}
    (hmade : generate tokens files .builtin positions = .ok made) {x : Instruction}
    (holds : made.program.Holds x) {p : Pipeline} (hp : p ∈ x.pipelines) {call : FilterCall}
    (hcall : call ∈ p.filters) :
    (bundledFilters o made).get? call.name =
      (o.filters.get? call.name).or (FilterRegistry.builtin.get? call.name) :=
  (notesFilters_builtin hmade).bundled holds hp hcall

/-! ## Runs -/

section

variable {env env' : RenderEnv}

/-- The filters of a program are the same in both renderings. -/
def SameProgram (env env' : RenderEnv) : Prop :=
  ∀ x, env.program.Holds x → ∀ p ∈ x.pipelines, SameFilters env env' p

/-- Bodies of a program do the same in both renderings. -/
theorem same_called (h : Similar env env') (hfilters : SameProgram env env') (calls n : Nat)
    {body : List Instruction} (hbody : ∀ x, Occurs x body → env.program.Holds x) :
    Same (fun _ => True) n (env.runCalled calls body) (env'.runCalled calls body) := by
  induction calls generalizing n body with
  | zero => exact .fail h.files trivial
  | succ calls ih =>
    refine same_body (fun _ _ => trivial) h body fun x hx => ⟨hfilters x (hbody x hx), ?_, ?_⟩
    · intro name args mixin _ hmixin _
      exact ih (n + 1) fun y hy => .mixin (Table.mem_of_get? hmixin) hy
    · intro name inner _ hblock
      exact ih n fun y hy => .block (Table.mem_of_get? hblock) hy

/-- A program does the same in both renderings. -/
theorem same_run (h : Similar env env') (hfilters : SameProgram env env')
    (hbody : env'.program.body = env.program.body) (s : RenderState) : env'.run s = env.run s := by
  have hbound : env'.callBound = env.callBound := by
    unfold RenderEnv.callBound
    rw [h.blocks]
  unfold RenderEnv.run
  rw [hbound, hbody]
  exact (same_called h hfilters env.callBound s.depth (fun x hx => .body hx) s rfl).1.symm

end

/-! ## Templates -/

theorem Template.renderWith_same {t t' : Template} {toolbox toolbox' : Toolbox} (bindings : Value)
    (h : Similar ⟨t.program, t.files, toolbox⟩ ⟨t'.program, t'.files, toolbox'⟩)
    (hfilters : SameProgram ⟨t.program, t.files, toolbox⟩ ⟨t'.program, t'.files, toolbox'⟩)
    (hbody : t'.program.body = t.program.body) :
    t'.renderWith bindings toolbox' = t.renderWith bindings toolbox := by
  rw [renderWith_eq, renderWith_eq]
  refine congrArg _ (funext fun globals => ?_)
  rw [same_run h hfilters hbody]

/-- What rendering a program comes to, whatever its template carries: the program is checked and runs
with all filters. -/
def renderMade (o : CompileOptions) (files : Files) (made : Generated) (bindings : Value) :
    Except Error String :=
  (Checker.checkBodies ⟨.standard, files⟩ (Checker.bodiesOf made.program)).bind fun _ =>
    Template.renderWith ⟨made.program, files, default, false⟩ bindings (.withFilters o.filters)

/-- A template made of a program renders as the program with all filters, if its filters agree with
all filters on the program. -/
theorem Template.renderWith_made (o : CompileOptions) (made : Generated) (t : Template)
    (toolbox : Toolbox) (bindings : Value) (hbody : t.program.body = made.program.body)
    (hmixins : t.program.mixins = made.program.mixins)
    (hblocks : t.program.blocks = made.program.blocks) (hstandard : toolbox.evaluator = .standard)
    (hfilters : ∀ x, made.program.Holds x → ∀ p ∈ x.pipelines, ∀ call ∈ p.filters,
      toolbox.filters.get? call.name =
        (FilterRegistry.merged .builtin o.filters).get? call.name) :
    t.renderWith bindings toolbox = Template.renderWith ⟨made.program, t.files, default, false⟩
      bindings (.withFilters o.filters) :=
  renderWith_same bindings ⟨rfl, hstandard, hmixins, hblocks⟩ hfilters hbody

/-- Rendering with the default toolbox, or with the filters of the host if there are any. -/
theorem render_made (o : CompileOptions) (program : Program) (made : Generated) (files : Files)
    (bindings : Value) (hbody : program.body = made.program.body)
    (hmixins : program.mixins = made.program.mixins)
    (hblocks : program.blocks = made.program.blocks) :
    ((Template.produce program files none).bind fun t =>
      if t.bundled || o.filters.isEmpty then t.render bindings
      else t.renderWith bindings (.withFilters o.filters)) = renderMade o files made bindings := by
  have hbodies : Checker.bodiesOf program = Checker.bodiesOf made.program := by
    unfold Checker.bodiesOf
    rw [hbody, hmixins, hblocks]
  rw [Template.produce_eq, hbodies]
  unfold renderMade
  show ((Checker.checkBodies ⟨.standard, files⟩ _).map _).bind _ = _
  cases Checker.checkBodies ⟨.standard, files⟩ (Checker.bodiesOf made.program) with
  | error e => rfl
  | ok _ =>
    show (if false || o.filters.isEmpty then _ else _) = _
    rw [Bool.false_or]
    split
    · next hempty =>
      refine Template.renderWith_made o made _ default bindings hbody hmixins hblocks rfl ?_
      intro x _ p _ call _
      rw [FilterRegistry.merged_of_isEmpty hempty]
      rfl
    · exact Template.renderWith_made o made _ (.withFilters o.filters) bindings hbody hmixins
        hblocks rfl fun _ _ _ _ _ _ => rfl

/-- Rendering with the filters that a template carries. -/
theorem render_carried (o : CompileOptions) {made : Generated} (hnotes : made.NotesFilters)
    (files : Files) (names : Option (List String)) (bindings : Value) :
    ((Template.produce { made.program with bundled := names } files
        (some { filters := bundledFilters o made })).bind fun t =>
      if t.bundled || o.filters.isEmpty then t.render bindings
      else t.renderWith bindings (.withFilters o.filters)) = renderMade o files made bindings := by
  rw [Template.produce_eq]
  unfold renderMade
  show ((Checker.checkBodies ⟨.standard, files⟩ (Checker.bodiesOf made.program)).map _).bind _ = _
  cases Checker.checkBodies ⟨.standard, files⟩ (Checker.bodiesOf made.program) with
  | error e => rfl
  | ok _ =>
    refine Template.renderWith_made o made
      ⟨{ made.program with bundled := names }, files, { filters := bundledFilters o made }, true⟩
      { filters := bundledFilters o made } bindings rfl rfl rfl rfl ?_
    intro x holds p hp call hcall
    rw [FilterRegistry.get?_merged]
    exact hnotes.bundled holds hp hcall

/-- A program that is generated renders alike with any setting, as long as its filters have been
noted. -/
theorem renderCompiled_eq (o : CompileOptions) (f : Flattened) {tokens : List Token}
    {made : Generated} (htokens : tokenize f.text f.root f.files o.tokenLimit = .ok tokens)
    (hmade : generate tokens f.files (.merged .builtin o.tags) o.positions = .ok made)
    (hnotes : made.NotesFilters) (bindings : Value) :
    ((compileFlattened o f).bind fun c => c.render o bindings) =
      renderMade o f.files made bindings := by
  -- The template is made when it is compiled, or when its program is rendered.
  have hproduced {program : Program} {toolbox : Option Toolbox} {warnings : List Warning} :
      ((do
        let template ← if o.programOnly then pure none
          else some <$> Template.produce program f.files toolbox
        return ⟨program, template, made.locals, made.paths, warnings, f⟩ :
          Except Error Compiled).bind fun c => c.render o bindings) =
      (Template.produce program f.files (if o.programOnly then none else toolbox)).bind
        fun t => if t.bundled || o.filters.isEmpty then t.render bindings
          else t.renderWith bindings (.withFilters o.filters) := by
    cases o.programOnly with
    | true => rfl
    | false =>
      simp only [Bool.false_eq_true, if_false]
      cases Template.produce program f.files toolbox <;> rfl
  unfold compileFlattened
  rw [htokens]
  show ((generate tokens f.files (.merged .builtin o.tags) o.positions).bind _).bind _ = _
  rw [hmade]
  unfold bundle
  cases o.bundle with
  | false =>
    refine hproduced.trans ?_
    rw [ite_self]
    exact render_made o made.program made f.files bindings rfl rfl rfl
  | true =>
    refine hproduced.trans ?_
    split
    · exact render_made o _ made f.files bindings rfl rfl rfl
    · exact render_carried o hnotes f.files _ bindings

/-- Compiling and rendering come to the same, with any setting. -/
theorem renderFlattened_eq (o : CompileOptions) (htags : o.tags = .empty) (f : Flattened)
    (bindings : Value) :
    ((compileFlattened o f).bind fun c => c.render o bindings) =
      (tokenize f.text f.root f.files o.tokenLimit).bind fun tokens =>
        (generate tokens f.files .builtin o.positions).bind fun made =>
          renderMade o f.files made bindings := by
  have hregistry : TagRegistry.merged .builtin o.tags = .builtin := by
    rw [htags]
    rfl
  cases htokens : tokenize f.text f.root f.files o.tokenLimit with
  | error e =>
    unfold compileFlattened
    rw [htokens]
    rfl
  | ok tokens =>
    show _ = (generate tokens f.files .builtin o.positions).bind _
    cases hmade : generate tokens f.files .builtin o.positions with
    | error e =>
      unfold compileFlattened
      rw [htokens, hregistry]
      show ((generate tokens f.files .builtin o.positions).bind _).bind _ = _
      rw [hmade]
      rfl
    | ok made =>
      exact renderCompiled_eq o f htokens (by rw [hregistry, hmade]) (notesFilters_builtin hmade)
        bindings

theorem Reading.ofExcept_bind {α β : Type} (x : Except Error α) (k : α → Except Error β) :
    Reading.ofExcept (x.bind k) = Reading.ofExcept x >>= fun a => Reading.ofExcept (k a) := by
  cases x <;> rfl

/-- A template is flattened, and then compiled and rendered. -/
theorem render_eq (o : CompileOptions) (text : String) (bindings : Value) :
    render o text bindings = (do
      let place ← Reading.ofExcept o.place
      let f ← flattenWith o text place
      Reading.ofExcept ((compileFlattened o f).bind fun c => c.render o bindings)) := by
  unfold render compile
  simp only [bind_assoc, Reading.ofExcept_bind]

/-- A template renders alike with the filters that it carries, with all filters, and from its program
alone. The filters that it carries are the ones that its program applies, those of the host before
the built-in ones. -/
theorem render_bundle (o : CompileOptions) (text : String) (bindings : Value)
    (carries carries' only only' : Bool) :
    render { o with tags := .empty, bundle := carries, programOnly := only } text bindings =
        render { o with tags := .empty, bundle := carries', programOnly := only' } text bindings ∧
      ∀ tokens files made, generate tokens files .builtin o.positions = .ok made →
        ∀ x, made.program.Holds x → ∀ p ∈ x.pipelines, ∀ call ∈ p.filters,
          (bundledFilters o made).get? call.name =
            (o.filters.get? call.name).or (FilterRegistry.builtin.get? call.name) := by
  refine ⟨?_, fun tokens files made hmade x holds p hp call hcall =>
    bundledFilters_get? hmade holds hp hcall⟩
  rw [render_eq, render_eq]
  refine bind_congr fun place => bind_congr fun f => congrArg Reading.ofExcept ?_
  rw [renderFlattened_eq _ rfl, renderFlattened_eq _ rfl]
  rfl

/-- An object that goes through a filter. -/
def filtered : List Token :=
  [.object "x" [⟨"upcase", []⟩] "\x7b\x7b x | upcase \x7d\x7d" ⟨stringFile, 0⟩]

theorem render_bundle_filtered :
    render { bundle := true } "\x7b\x7b x | upcase \x7d\x7d" .undefined =
        render { programOnly := true } "\x7b\x7b x | upcase \x7d\x7d" .undefined ∧
      ∃ made x p call, generate filtered {} .builtin true = .ok made ∧ made.program.Holds x ∧
        p ∈ x.pipelines ∧ call ∈ p.filters ∧ (bundledFilters {} made).get? call.name =
          (FilterRegistry.empty.get? call.name).or (FilterRegistry.builtin.get? call.name) := by
  have hcarried := render_bundle {} "\x7b\x7b x | upcase \x7d\x7d" .undefined true false false true
  have hcomputed : (generate filtered {} .builtin true).toOption.map (fun made =>
      made.program.body.any fun x => x.pipelines.any fun p => !p.filters.isEmpty) = some true := by
    decide +kernel
  obtain ⟨made, hmade, hfilters⟩ := ok_of_toOption_map hcomputed
  obtain ⟨x, hx, hany⟩ := List.any_eq_true.1 hfilters
  obtain ⟨p, hp, hsome⟩ := List.any_eq_true.1 hany
  obtain ⟨call, hcall⟩ := List.exists_mem_of_ne_nil p.filters (by simpa using hsome)
  have holds : made.program.Holds x := .body (.here hx)
  exact ⟨hcarried.1, made, x, p, call, hmade, holds, hp, hcall,
    hcarried.2 filtered {} made hmade x holds p hp call hcall⟩

end Stencil
