import Stencil.Proofs.Generation.Naming
import Stencil.Proofs.Render.Missing
import Stencil.Proofs.Token.Contents

/-!
# Listings of compiled templates

The listing of a compiled template has a line for each row of its program's outline. Texts are quoted
in it and names are words, but expressions and filters are written as they are in the template, where
they may go over several lines.

* `newline_notMem_expressions`: they do so only in tokens that do so.
* `compile_listing`: how many lines a listing has, and when its lines are the rows of the outline.
* `compile_listing_sum`: an expression on two lines takes two lines.
-/

namespace Stencil

open Text

/-! ## Carried filters -/

theorem FilterRegistry.mem_names {r : FilterRegistry} {name : String} :
    name ∈ r.names ↔ r.contains name = true := by
  have hkeys : name ∈ r.names ↔ name ∈ r.table.keys := by
    show name ∈ NameSet.ofList r.table.keys ↔ _
    simp [NameSet.ofList, NameSet.mem_insertAll]
  rw [hkeys, ← Table.contains_iff]
  rfl

/-- The filters that a template carries are built-in ones and those of the host. -/
theorem newline_notMem_bundled {o : CompileOptions} {made : Generated}
    (hhost : ∀ name ∈ o.filters.names, '\n' ∉ name.toList) :
    ∀ name ∈ (bundledFilters o made).names, '\n' ∉ name.toList := by
  intro name hname
  rw [FilterRegistry.mem_names, FilterRegistry.contains, bundledFilters,
    FilterRegistry.get?_select] at hname
  split at hname
  · rw [FilterRegistry.get?_merged, Option.isSome_or, Bool.or_eq_true] at hname
    rcases hname with hname | hname
    · exact hhost name (FilterRegistry.mem_names.2 hname)
    · have hbuiltin : ∀ key ∈ FilterRegistry.builtin.table.keys, '\n' ∉ key.toList := by decide
      exact hbuiltin name (Table.contains_iff.1 hname)
  · cases hname

namespace Generator

variable {g : Generator} {d d' : Draft} {program program' : Program} {rounds : Nat}

theorem generateDeferred_bundled (hdone : g.generateDeferred rounds d program = .ok (d', program')) :
    program'.bundled = program.bundled := by
  induction rounds generalizing d program with
  | zero =>
    cases hdone
    rfl
  | succ rounds ih =>
    rw [generateDeferred_succ] at hdone
    cases hround : g.round d program with
    | none =>
      rw [hround] at hdone
      cases hdone
      rfl
    | some x =>
      rw [hround] at hdone
      cases x with
      | error e => cases hdone
      | ok made =>
        obtain ⟨_, _, _, _, ⟨_, _, hprogram⟩ | ⟨_, _, _, hprogram⟩⟩ := round_ok hround
        · rw [ih hdone, hprogram]
        · rw [ih hdone, hprogram]

/-- A program carries nothing when it is generated. -/
theorem generate_bundled {made : Generated} (hmade : g.generate = .ok made) :
    made.program.bundled = none := by
  obtain ⟨_, _, program, _, hdone, _, hprogram⟩ := generate_ok hmade
  rw [hprogram]
  exact generateDeferred_bundled hdone

end Generator

/-- What a bundle carries are the selected filters. -/
theorem bundle_program (o : CompileOptions) (files : Files) {made : Generated}
    (hmade : made.program.bundled = none) :
    ∃ filters, (bundle o files made).1 = { made.program with bundled := filters } ∧
      ∀ names ∈ filters, names = (bundledFilters o made).names := by
  unfold bundle
  split
  · exact ⟨_, rfl, fun names hnames => (Option.some.inj hnames).symm⟩
  · exact ⟨_, rfl, fun names hnames => by rw [hmade] at hnames; cases hnames⟩

/-! ## Programs that carry filters -/

section

variable {program : Program} {filters : Option (List String)}

theorem Program.NamesInLine.bundle (h : program.NamesInLine) :
    NamesInLine { program with bundled := filters } := by
  intro row hrow
  cases hrow with
  | instruction holds own => exact h _ (.instruction holds.of_bundled own)
  | mixin mem => exact h _ (.mixin mem)
  | block mem => exact h _ (.block mem)
  | _ => exact fun _ hname => absurd hname List.not_mem_nil

end

/-- In a program that was generated, an expression goes over several lines only in a token that does
so. -/
theorem newline_notMem_expressions {text root : String} {files : Files} {limit : Nat}
    {tokens : List Token} {positions : Bool} {made : Generated} {filters : Option (List String)}
    (htokens : tokenize text root files limit = .ok tokens)
    (hmade : generate tokens files .builtin positions = .ok made)
    (hlines : ∀ token ∈ tokens, '\n' ∈ token.source.toList → ∃ text pos, token = .raw text pos)
    (hfilters : ∀ names ∈ filters, ∀ name ∈ names, '\n' ∉ name.toList) :
    ∀ s ∈ Program.expressions { made.program with bundled := filters }, '\n' ∉ s.toList := by
  obtain ⟨sites, _, hprogram⟩ := (generate_settles tokens files positions).get hmade
  intro s hs
  obtain ⟨line, hline, hs⟩ := List.mem_flatMap.1 hs
  rcases (Program.prints_of_mem line hline).expressions hs with
    ⟨x, p, holds, hp, hs⟩ | ⟨names, hnames, hs⟩
  · obtain ⟨k, _, token, _, here, hwrites⟩ := (hprogram.arises rfl holds.of_bundled).writes hp
    have hmem : token ∈ tokens := List.mem_of_getElem? here
    by_cases hline : '\n' ∈ token.source.toList
    · obtain ⟨_, _, rfl⟩ := hlines token hmem hline
      obtain ⟨_, hbase, _⟩ := hwrites.base
      exact absurd hbase List.not_mem_nil
    · exact hwrites.newline_notMem (tokenize_isMade htokens token hmem) hline s hs
  · exact hfilters names hnames s hs

/-- A listing is made of the rows of the outline, and how many there are depends on the shape of the
program alone. Every line feed in a file's name or in an expression starts one more line: the lines
are the rows exactly if there are none. There are none in expressions when every object and every
tag is on one line, and the names of the host's filters are. -/
theorem compile_listing {o : CompileOptions} {text : String} {reads reads' : List Path}
    {c : Compiled} (htags : o.tags = .empty) (h : compile o text reads = .ok c reads') :
    c.program.lines = c.program.outline.map Line.text ∧
    (∀ line ∈ c.program.outline, c.program.Prints line.row) ∧
    c.program.outline.length = c.program.lineCount ∧
    lineFeeds c.code = c.program.lineCount + (c.program.files.map lineFeeds).sum +
      (c.program.expressions.map lineFeeds).sum ∧
    (linesOf c.code.toList = c.program.outline.map (·.text.toList) ++ [[]] ↔
      (∀ s ∈ c.program.files, '\n' ∉ s.toList) ∧ ∀ s ∈ c.program.expressions, '\n' ∉ s.toList) ∧
    ∃ tokens,
      tokenize c.flattened.text c.flattened.root c.flattened.files o.tokenLimit = .ok tokens ∧
      ((∀ token ∈ tokens, '\n' ∈ token.source.toList → ∃ text pos, token = .raw text pos) →
        (∀ name ∈ o.filters.names, '\n' ∉ name.toList) →
        ∀ s ∈ c.program.expressions, '\n' ∉ s.toList) := by
  obtain ⟨f, hf⟩ := compileFlattened_of_compile h
  obtain ⟨rfl, tokens, made, htokens, hmade, _, _, hprogram, _⟩ := compileFlattened_ok hf
  rw [htags, TagRegistry.merged_empty] at hmade
  have hnames : made.program.NamesInLine := by
    refine generate_names hmade fun tag htag hmem => ?_
    exact absurd ((tokenize_isMade htokens _ htag).name tag rfl _ hmem) (by decide)
  have hbare : made.program.bundled = none := by
    obtain ⟨sites, hsites, _⟩ := (generate_settles tokens c.flattened.files o.positions).get hmade
    rw [generate_eq hsites] at hmade
    exact Generator.generate_bundled hmade
  obtain ⟨filters, hcarries, hfilters⟩ := bundle_program o c.flattened.files hbare
  replace hcarries := hprogram.trans hcarries
  have hinline : c.program.NamesInLine := hcarries ▸ hnames.bundle
  refine ⟨c.program.lines_eq, Program.prints_of_mem, c.program.length_outline,
    Program.lineFeeds_listing hinline, Program.linesOf_listing_iff hinline, tokens, htokens,
    fun hlines hhost => ?_⟩
  rw [hcarries]
  refine newline_notMem_expressions htokens hmade hlines fun names hmem => ?_
  rw [hfilters names hmem]
  exact newline_notMem_bundled hhost

/-- A loop around a line feed and a filtered object. -/
def rowsText : String :=
  "\x7b% for row in rows %\x7d\n\x7b\x7b row.title | upcase \x7d\x7d\x7b% endfor %\x7d"

theorem compile_listing_rows :
    ∃ c, compile {} rowsText [] = .ok c [] ∧ c.program.lineCount = 8 ∧
      linesOf c.code.toList = c.program.outline.map (·.text.toList) ++ [[]] := by
  have hcompiled : (match compile {} rowsText [] with
      | .ok c reads => reads.isEmpty && c.program.lineCount == 8 &&
        c.program.files.all (!·.toList.contains '\n') &&
        (tokenize c.flattened.text c.flattened.root c.flattened.files defaultTokenLimit).toOption.map
          (·.all fun | .raw .. => true | token => !token.source.toList.contains '\n') == some true
      | .error _ _ => false) = true := by decide +kernel
  split at hcompiled
  · next c reads hc =>
    simp only [Bool.and_eq_true, List.isEmpty_iff, beq_iff_eq] at hcompiled
    obtain ⟨⟨⟨rfl, hcount⟩, hfiles⟩, hsources⟩ := hcompiled
    obtain ⟨-, -, -, -, hlines, tokens, htokens, hexpressions⟩ := compile_listing rfl hc
    obtain ⟨tokens', htokens', hsources⟩ := ok_of_toOption_map hsources
    obtain rfl : tokens' = tokens := Except.ok.inj (htokens'.symm.trans htokens)
    refine ⟨c, hc, hcount, hlines.2 ⟨by simpa using hfiles, hexpressions ?_ ?_⟩⟩
    · intro token htoken hfeed
      have hsource := List.all_eq_true.1 hsources token htoken
      cases token with
      | raw text pos => exact ⟨text, pos, rfl⟩
      | _ => simp_all
    · exact fun name hname => absurd hname List.not_mem_nil
  · cases hcompiled

/-- An expression on two lines takes two lines in the listing. -/
theorem compile_listing_sum :
    ∃ c, compile {} "\x7b\x7b a +\n b \x7d\x7d" [] = .ok c [] ∧
      c.program.files = ["<string>"] ∧ c.program.lineCount = 2 ∧
      c.code = "@ <string>@0\nemit a +\n b\n" ∧ lineFeeds c.code = 3 ∧
      linesOf c.code.toList ≠ c.program.outline.map (·.text.toList) ++ [[]] := by
  have hcompiled : (match compile {} "\x7b\x7b a +\n b \x7d\x7d" [] with
      | .ok c reads => reads.isEmpty && c.program.files == ["<string>"] &&
        c.program.lineCount == 2 && c.code == "@ <string>@0\nemit a +\n b\n" &&
        linesOf c.code.toList != c.program.outline.map (·.text.toList) ++ [[]]
      | .error _ _ => false) = true := by decide +kernel
  split at hcompiled
  · next c reads hc =>
    simp only [Bool.and_eq_true, List.isEmpty_iff, beq_iff_eq, bne_iff_ne] at hcompiled
    obtain ⟨⟨⟨⟨rfl, hfiles⟩, hcount⟩, hcode⟩, hlines⟩ := hcompiled
    exact ⟨c, hc, hfiles, hcount, hcode, by rw [hcode]; rfl, hlines⟩
  · cases hcompiled

end Stencil
