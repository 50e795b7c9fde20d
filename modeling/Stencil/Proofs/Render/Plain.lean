import Stencil.Proofs.Inclusion.Expansion
import Stencil.Proofs.Render.Locals
import Stencil.Proofs.Render.Verbatim

/-!
# Text without tags

A text in which nothing is opened goes through every stage as it is, whatever else it holds: closing
delimiters and single braces are text like any other.

* `flatten_plain`: it has no directives, so it is flattened to itself and includes no file.
* `tokenize_plain`: it is one token, or none when it is empty.
* `generate_plain`: the token is made into an instruction that writes it, and nothing is noted.
* `render_plain`: so it is rendered as it is, with any options.
-/

namespace Stencil

open Text

/-! ## Flattening -/

theorem Inclusion.opener_of_read? {cs rest : List Char} {inclusion : Inclusion}
    (h : read? cs = some (inclusion, rest)) : Enclosure.tag.opener <+: cs := by
  obtain ⟨behind, hafter, -⟩ := Option.bind_eq_some_iff.1 h
  unfold after? at hafter
  split at hafter
  · next hprefix => exact List.isPrefixOf_iff_prefix.1 hprefix
  · cases hafter

/-- Where there is a directive, a tag is opened. -/
theorem opener_of_directive {scan : SegmentScan} {spot : Spot} {cs : List Char} {d : Directive}
    (h : .directive d ∈ segmentsFrom scan spot cs) : Enclosure.tag.opener <:+: cs := by
  have hbehind {c : Char} {cs : List Char} (h : Enclosure.tag.opener <:+: cs) :
      Enclosure.tag.opener <:+: c :: cs := h.trans (List.suffix_cons c cs).isInfix
  fun_induction segmentsFrom scan spot cs with
  | case1 => cases h
  | case2 count spot c cs ih => exact hbehind (ih h)
  | case3 count spot c cs ih => exact hbehind (ih (mem_consText h))
  | case4 scan spot c cs _ _ next _ ih => exact hbehind (ih (mem_consText h))
  | case5 scan spot c cs _ _ next inclusion rest hread count _ ih =>
    exact (Inclusion.opener_of_read? hread).isInfix
  | case6 scan spot c cs _ _ next inclusion rest hread count _ source ih =>
    exact (Inclusion.opener_of_read? hread).isInfix

theorem OpensNothing.directive_notMem {text : List Char} (h : OpensNothing text) (d : Directive) :
    .directive d ∉ segments text := fun hmem => h .tag (opener_of_directive hmem)

section

variable {e : Flattener} {fuel : Nat} {active : List String} {file text : String} {path : Path}
  {c : Closure}

/-- Text between directives stays. -/
theorem Flattener.mapM_expandSegment_texts {segments : List Segment}
    (h : ∀ d, .directive d ∉ segments) :
    segments.mapM (e.expandSegment fuel active file path) c =
      .ok (segments.map Segment.source) c := by
  induction segments with
  | nil => rfl
  | cons segment segments ih =>
    cases segment with
    | directive d => exact absurd (.head _) (h d)
    | text cs =>
      have hrest := ih fun d hd => h d (.tail _ hd)
      rw [List.mapM_cons]
      show EStateM.bind (segments.mapM (e.expandSegment fuel active file path)) _ c = _
      unfold EStateM.bind
      rw [hrest]
      rfl

/-- A text without directives is expanded to itself, and nothing is read for it. -/
theorem Flattener.expand_plain (htext : c.files.get? file = some text)
    (hplain : OpensNothing text.toList) : e.expand (fuel + 1) active file path c =
      .ok text.toList { c with includes := c.includes.insertNew file [] } := by
  have hdirectives : (segments text.toList).filterMap Segment.directive? = [] := by
    refine List.filterMap_eq_nil_iff.2 fun segment hmem => ?_
    cases segment with
    | text cs => rfl
    | directive d => exact absurd hmem (hplain.directive_notMem d)
  have htargets : e.targets path text = [] := by rw [targets, hdirectives, List.map_nil]
  have henter : e.enter file path text c =
      .ok () { c with includes := c.includes.insertNew file [] } := by
    unfold enter fetch
    rw [htargets]
    show EStateM.Result.ok () _ = _
    simp
  have htexts : ((segments text.toList).map Segment.source).flatten = text.toList := by
    rw [← List.flatMap_def, source_segments]
  rw [expand_succ, htext]
  exact Resolving.bind_ok.2 ⟨(), _, henter, Resolving.bind_ok.2
    ⟨_, _, mapM_expandSegment_texts hplain.directive_notMem, Resolving.pure_ok.2 ⟨htexts, rfl⟩⟩⟩

/-- A text in which nothing is opened is flattened to itself, and its file includes none. -/
theorem flatten_plain (hplain : OpensNothing text.toList) (store : FileStore) (place : Place) :
    ∃ root files includes, includes.values.flatten = [] ∧
      ∀ reads, flatten store place text { reads } =
        .ok ⟨text, root, files, includes⟩ ⟨files, includes, reads⟩ := by
  let folders : Folders := ⟨place.base.normalize, place.parts.normalize⟩
  let root := folders.fileName place.source.normalize
  refine ⟨root, Table.insert {} root text, Table.insertNew {} root [], rfl, fun reads => ?_⟩
  have hexpand : Flattener.expand ⟨store, folders⟩ (store.files.length + 1) [root] root
      place.source.normalize ⟨Table.insert {} root text, {}, reads⟩ =
        .ok text.toList ⟨Table.insert {} root text, Table.insertNew {} root [], reads⟩ :=
    Flattener.expand_plain (by rw [Table.get?_insert, if_pos rfl]) hplain
  refine Resolving.bind_ok.2 ⟨(), _, Resolving.modify_ok.2 rfl, Resolving.bind_ok.2
    ⟨_, _, hexpand, Resolving.bind_ok.2 ⟨_, _, Resolving.get_ok.2 ⟨rfl, rfl⟩, ?_⟩⟩⟩
  rw [String.ofList_toList]
  rfl

/-- The files of a template may be left out altogether. -/
theorem flattenWith_plain (hplain : OpensNothing text.toList) (o : CompileOptions)
    (place : Option Place) : ∃ f : Flattened, flattenWith o text place = pure f ∧ f.text = text ∧
      f.dependencies = .empty := by
  cases place with
  | none => exact ⟨.ofString text, rfl, rfl, rfl⟩
  | some place =>
    obtain ⟨root, files, includes, hincludes, hflatten⟩ := flatten_plain hplain o.store place
    refine ⟨⟨text, root, files, includes⟩, funext fun reads => ?_, rfl, ?_⟩
    · show Reading.ofResolving (flatten o.store place text) reads = _
      unfold Reading.ofResolving EStateM.run
      rw [hflatten]
      rfl
    · rw [Flattened.dependencies, hincludes]
      rfl

end

/-! ## Tokens -/

/-- Nothing but text is read as long as nothing is opened. -/
theorem Scan.foldlM_unopened {files : Files} {limit : Nat} {s : Scan} {read : List Char}
    (hmode : s.mode = .raw read) {ls : List Lexeme} (h : ∀ e, .open e ∉ ls) :
    ls.foldlM (step files limit) s =
      .ok { s with mode := .raw ((ls.flatMap Lexeme.text).reverse ++ read) } := by
  induction ls generalizing s read with
  | nil =>
    show Except.ok s = .ok { s with mode := .raw read }
    rw [← hmode]
  | cons l ls ih =>
    have hstep : step files limit s l =
        .ok { s with mode := .raw (l.text.reverse ++ read) } := by
      cases l with
      | «open» e => exact absurd (.head _) (h e)
      | close e => simp only [step, hmode]
      | char c => simp only [step, hmode]
    rw [List.foldlM_cons, hstep]
    show ls.foldlM (step files limit) { s with mode := .raw (l.text.reverse ++ read) } = _
    rw [ih rfl fun e hmem => h e (.tail _ hmem)]
    simp

/-- The tokens of a text in which nothing is opened. -/
def plainTokens (text root : String) : List Token :=
  if text.isEmpty then [] else [.raw text ⟨root, 0⟩]

theorem tokenize_plain {text : String} (hplain : OpensNothing text.toList) (root : String)
    (files : Files) {limit : Nat} (hlimit : 0 < limit) :
    tokenize text root files limit = .ok (plainTokens text root) := by
  have hrun : (lexemes text.toList).foldlM (Scan.step files limit) { frame := { file := root } } =
      .ok { frame := { file := root }, mode := .raw text.toList.reverse } := by
    rw [Scan.foldlM_unopened rfl (opensNothing_iff.1 hplain), List.append_nil, text_lexemes]
  unfold tokenize
  rw [hrun]
  show Scan.finish files limit { frame := { file := root }, mode := .raw text.toList.reverse } = _
  unfold Scan.finish Scan.flush plainTokens
  by_cases hempty : text = ""
  · subst hempty
    rfl
  · have hread : text.toList.reverse.isEmpty = false := by simpa using hempty
    have htext : text.isEmpty = false := by simpa using hempty
    simp only [hread, htext, Bool.false_eq_true, if_false, List.reverse_reverse, Scan.push, hlimit,
      if_true, String.ofList_toList]
    rfl

/-! ## Programs -/

/-- The body that such a text is made into. -/
def plainBody (positions : Bool) (text root : String) : List Instruction :=
  if text.isEmpty then [] else rawBody positions ⟨root, 0⟩ text

/-- Nothing is noted about a text in which nothing is opened. -/
theorem generate_plain (text root : String) (files : Files) (registry : TagRegistry)
    (positions : Bool) : generate (plainTokens text root) files registry positions =
      .ok ⟨{ body := plainBody positions text root }, .empty, .empty, {}, []⟩ := by
  let g : Generator :=
    ⟨⟨plainTokens text root, files, registry.kinds, positions, {}⟩, registry⟩
  have hsites : blockSites registry.kinds (plainTokens text root) = .ok {} := by
    unfold plainTokens
    split <;> rfl
  unfold generate
  rw [hsites]
  show g.generate = _
  cases hempty : text.isEmpty with
  | true =>
    -- there is no token, so there is no position either
    have hrange : g.generateRange g.env.tokens.length {} = .ok {} := by
      refine Generator.generateRange_of_le g ?_
      simp [g, plainTokens, hempty]
    rw [Generator.generate_alone hrange rfl rfl rfl, plainBody, if_pos hempty]
    rfl
  | false =>
    have hne : ¬ text.isEmpty = true := by simp [hempty]
    let d : Draft :=
      { idx := 1, root := { kind := .root, found := .text text :: markedIn positions ⟨root, 0⟩ [] } }
    have hstep : g.step (.raw text ⟨root, 0⟩) {} = .ok d := by
      show Except.ok (Draft.advance (if text.isEmpty then _ else _)) = _
      rw [if_neg hne]
      cases positions <;> rfl
    have htokens : g.env.tokens = [.raw text ⟨root, 0⟩] := if_neg hne
    have hrange : g.generateRange g.env.tokens.length {} = .ok d := by
      have hhere : g.env.token? 0 = some (.raw text ⟨root, 0⟩) := by
        rw [DraftEnv.token?, htokens]
        rfl
      rw [htokens, List.length_singleton, Generator.generateRange_next Nat.one_pos hhere hstep
        Nat.one_pos, Generator.generateRange_of_le g (Nat.le_refl 1)]
    have hbody : (g.warnCalls {} d).root.body = rawBody positions ⟨root, 0⟩ text := by
      rw [← reverse_raw, writes, if_neg hne]
      rfl
    rw [Generator.generate_alone hrange rfl rfl rfl, plainBody, if_neg hne, hbody]
    rfl

/-! ## Rendering -/

theorem isPlain_plainBody (positions : Bool) (text root : String) :
    ∀ x ∈ plainBody positions text root, x.IsPlain := by
  unfold plainBody
  split
  · exact fun x hx => absurd hx List.not_mem_nil
  · exact isPlain_rawBody positions _ text

theorem rendered_plainBody (positions : Bool) (text root : String) (files : Files)
    (toolbox : Toolbox) (bindings : Value) :
    rendered { body := plainBody positions text root } files (some toolbox) bindings =
      (Template.globalsOf bindings).map fun _ => text := by
  unfold plainBody
  split
  · next hempty =>
    obtain rfl := String.isEmpty_iff.1 hempty
    refine rendered_text ⟨none, rfl⟩ (fun call s => ?_) bindings
    rw [String.append_empty]
    rfl
  · exact rendered_rawBody positions _ text files toolbox bindings

/-- Compiling a text in which nothing is opened succeeds, with any options, and the text is rendered
for any bindings. -/
theorem compileFlattened_plain {o : CompileOptions} (hlimit : 0 < o.tokenLimit) {f : Flattened}
    (hplain : OpensNothing f.text.toList) : ∃ c, compileFlattened o f = .ok c ∧
      c.locals = .empty ∧ c.paths = .empty ∧ c.warnings = [] ∧ c.flattened = f ∧
      ∀ entries, c.render o (.map entries) = .ok f.text := by
  have htokens := tokenize_plain hplain f.root f.files hlimit
  have hmade := generate_plain f.text f.root f.files (.merged .builtin o.tags) o.positions
  have hrender (entries) : ((compileFlattened o f).bind fun c => c.render o (.map entries)) =
      .ok f.text := by
    rw [renderCompiled_eq o f htokens hmade
        (notesFilters_plain rfl (isPlain_plainBody _ _ _)), renderMade_eq, rendered_plainBody]
    rfl
  cases hcompiled : compileFlattened o f with
  | error e =>
    -- what does not compile is not rendered
    have hresult := hrender []
    rw [hcompiled] at hresult
    cases hresult
  | ok c =>
    obtain ⟨hflattened, tokens, made, htokens', hmade', hlocals, hpaths, -, hwarnings, -⟩ :=
      compileFlattened_ok hcompiled
    obtain rfl := Except.ok.inj (htokens.symm.trans htokens')
    obtain rfl := Except.ok.inj (hmade.symm.trans hmade')
    refine ⟨c, rfl, hlocals, hpaths, ?_, hflattened, fun entries => ?_⟩
    · rw [hwarnings, bundle]
      split <;> rfl
    · have hresult := hrender entries
      rwa [hcompiled] at hresult

/-- No file options are given, or all three, and what they name exists. -/
def CompileOptions.IsPlaced (o : CompileOptions) : Prop :=
  (o.source = none ∧ o.base = none ∧ o.parts = none) ∨
    ∃ source base parts, o.source = some source ∧ o.base = some base ∧ o.parts = some parts ∧
      o.store.has source = true ∧ o.store.has base = true ∧ o.store.has parts = true

theorem CompileOptions.IsPlaced.place_ok {o : CompileOptions} (h : o.IsPlaced) :
    ∃ place, o.place = .ok place := by
  unfold place
  obtain ⟨hsource, hbase, hparts⟩ | ⟨source, base, parts, hsource, hbase, hparts, hhas⟩ := h
  · rw [hsource, hbase, hparts]
    exact ⟨none, rfl⟩
  · rw [hsource, hbase, hparts]
    simp only [checkPath, hhas, if_true]
    exact ⟨some ⟨source, base, parts⟩, rfl⟩

/-- A text in which nothing is opened is rendered as it is, whatever else it holds, with any options
and for any bindings. No file is read for it, no variable and no file is noted, and there is nothing to
warn about. -/
theorem render_plain {o : CompileOptions} (hplaced : o.IsPlaced) (hlimit : 1 ≤ o.tokenLimit)
    {text : String} (hplain : OpensNothing text.toList) :
    (∀ entries, render o text (.map entries) = pure text) ∧
      ∃ c, compile o text = pure c ∧ c.locals = .empty ∧ c.paths = .empty ∧ c.warnings = [] ∧
        c.flattened.dependencies = .empty := by
  obtain ⟨place, hplace⟩ := hplaced.place_ok
  obtain ⟨f, hflatten, rfl, hdependencies⟩ := flattenWith_plain hplain o place
  obtain ⟨c, hcompiled, hlocals, hpaths, hwarnings, rfl, hrendered⟩ :=
    compileFlattened_plain hlimit hplain
  have hcompile : compile o c.flattened.text = pure c := by
    unfold compile
    rw [hplace]
    show (flattenWith o c.flattened.text place >>= _) = _
    rw [hflatten]
    show Reading.ofExcept (compileFlattened o c.flattened) = _
    rw [hcompiled]
    rfl
  refine ⟨fun entries => ?_, c, hcompile, hlocals, hpaths, hwarnings, hdependencies⟩
  unfold render
  rw [hcompile]
  show Reading.ofExcept (c.render o (.map entries)) = _
  rw [hrendered]
  rfl

/-- Closing delimiters without openers, and braces that open nothing. -/
def closersText : String := " a \x7d\x7d %\x7d\r\n#\x7d \x7b % \x7b é\n"

/-- A page that may include files and carries its filters. -/
def bundledPage : CompileOptions where
  source := some ⟨"p/page"⟩
  base := some ⟨"p"⟩
  parts := some ⟨"p"⟩
  bundle := true
  tokenLimit := 1
  store := ⟨[(⟨"p/page"⟩, .ok closersText)]⟩

theorem render_plain_closersText :
    (∀ entries, render bundledPage closersText (.map entries) = pure closersText) ∧
      ∃ c, compile bundledPage closersText = pure c ∧ c.locals = .empty ∧ c.paths = .empty ∧
        c.warnings = [] ∧ c.flattened.dependencies = .empty := by
  have hplain : OpensNothing closersText.toList := by
    intro e
    cases e <;> decide +kernel
  exact render_plain (.inr ⟨_, _, _, rfl, rfl, rfl, by decide +kernel, by decide +kernel,
    by decide +kernel⟩) (Nat.le_refl 1) hplain

end Stencil
