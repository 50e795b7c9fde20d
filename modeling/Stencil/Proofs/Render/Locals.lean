import Mathlib.Tactic.ByContra
import Stencil.Compilation
import Stencil.Proofs.Generation.Blocks
import Stencil.Proofs.Generation.Lexical
import Stencil.Proofs.Render.Template

/-!
# What a template reads

A template of lexical tokens reads its listed variables, and the words that are looked up though they
are not listed.

* `Template.renderWith_congr`: a confined program renders alike with bindings that agree on what it
  reads.
* `Compiled.confined`: a template of lexical tokens is compiled to a confined program.
* `render_reads`: the bindings of other names do not matter, and those of the unlisted words do.
* `render_locals_insufficient`: so listed variables alone do not tell what is rendered.
-/

namespace Stencil

/-! ## Bindings -/

/-- Two bindings give the same values to some names. -/
def AgreeOn (R : String → Prop) (b b' : Value) : Prop :=
  ∃ g g', Template.globalsOf b = .ok g ∧ Template.globalsOf b' = .ok g' ∧
    ∀ name, R name → g.get? name = g'.get? name

/-- A rendering begins without frames. -/
theorem Agrees.start {R : String → Prop} {g g' : Table Value}
    (h : ∀ name, R name → g.get? name = g'.get? name) :
    Agrees R {} { globals := g } { globals := g' } where
  same := rfl
  reads := h
  held := .globals fun _ hname => absurd hname NameSet.not_mem_empty

/-- Two runs of a confined program with globals that agree on what it reads are twins. -/
theorem RenderEnv.run_alike {env : RenderEnv} {R : String → Prop}
    (hstandard : env.toolbox.evaluator = .standard) (hbody : confinedBody R {} env.program.body)
    {g g' : Table Value} (hsame : ∀ name, R name → g.get? name = g'.get? name) :
    Alike (fun _ s s' => s'.output = s.output) (env.run { globals := g })
      (env.run { globals := g' }) := by
  rw [run, callBound, runCalled]
  have htwin := twin_body (env.runCalled ((maxMixinDepth + 1) * (env.program.blocks.size + 1)))
    hstandard {} env.program.body hbody
  have houtput (flow : Flow) (s s' : RenderState)
      (h : flow = .normal ∧ Agrees R (Scope.behind {} env.program.body) s s') :
      s'.output = s.output := by rw [h.2.same]
  exact htwin.mono houtput _ _ (.start hsame)

/-- A confined program renders alike with bindings that agree on what it reads. -/
theorem Template.renderWith_congr {t : Template} {toolbox : Toolbox} {R : String → Prop}
    (hstandard : toolbox.evaluator = .standard) (hbody : confinedBody R {} t.program.body)
    {b b' : Value} (hsame : AgreeOn R b b') : t.renderWith b toolbox = t.renderWith b' toolbox := by
  obtain ⟨g, g', hg, hg', hagree⟩ := hsame
  obtain ⟨env, henv⟩ : ∃ env : RenderEnv, ⟨t.program, t.files, toolbox⟩ = env := ⟨_, rfl⟩
  have halike : Alike (fun _ s s' => s'.output = s.output) (env.run { globals := g })
      (env.run { globals := g' }) := by
    subst henv
    exact RenderEnv.run_alike hstandard hbody hagree
  unfold renderWith
  rw [hg, hg', henv]
  dsimp only [bind, Except.bind]
  generalize env.run { globals := g } = r at halike ⊢
  generalize env.run { globals := g' } = r' at halike ⊢
  cases halike with
  | ok h =>
    dsimp only
    rw [h]
  | error => rfl

/-! ## Compiled templates -/

/-- The tokens of a template are lexical, outside verbatim blocks. -/
structure Compiled.IsLexical (c : Compiled) (o : CompileOptions) (tokens : List Token) : Prop where
  cut : tokenize c.flattened.text c.flattened.root c.flattened.files o.tokenLimit = .ok tokens
  lexical : ∀ token ∈ withoutVerbatim TagRegistry.builtin.kinds none tokens, token.IsLexical

/-- A template may read its listed variables, and the words of `W` that start a path of a token. -/
def Compiled.Reads (c : Compiled) (tokens : List Token) (W : String → Prop) (name : String) : Prop :=
  name ∈ c.locals ∨ W name ∧
    ∃ token ∈ withoutVerbatim TagRegistry.builtin.kinds none tokens, token.StartsWith name.toList

theorem compileFlattened_of_compile {o : CompileOptions} {text : String} {reads reads' : List Path}
    {c : Compiled} (h : compile o text reads = .ok c reads') :
    ∃ f, compileFlattened o f = .ok c := by
  have of_bind {α β : Type} {x : Reading α} {f : α → Reading β} {b : β} {s t : List Path}
      (h : (x >>= f) s = .ok b t) : ∃ a u, f a u = .ok b t := by
    have hbind : EStateM.bind x f s = .ok b t := h
    unfold EStateM.bind at hbind
    split at hbind
    · exact ⟨_, _, hbind⟩
    · cases hbind
  obtain ⟨place, _, h⟩ := of_bind h
  obtain ⟨f, _, h⟩ := of_bind h
  refine ⟨f, ?_⟩
  cases hc : compileFlattened o f with
  | error e =>
    rw [hc] at h
    cases h
  | ok c' =>
    rw [hc] at h
    cases h
    rfl

/-- A bundle keeps the program, but for the names of what it carries, and evaluates expressions as
usual. -/
theorem bundle_spec (o : CompileOptions) (files : Files) (g : Generated) :
    (∃ names, (bundle o files g).1 = { g.program with bundled := names }) ∧
      ((bundle o files g).2.1.getD default).evaluator = .standard := by
  unfold bundle
  split
  · exact ⟨⟨_, rfl⟩, rfl⟩
  · exact ⟨⟨_, rfl⟩, rfl⟩

/-- What is compiled was generated from the tokens of the flattened template, and bundled. -/
theorem compileFlattened_ok {o : CompileOptions} {f : Flattened} {c : Compiled}
    (h : compileFlattened o f = .ok c) : c.flattened = f ∧
      ∃ tokens made, tokenize f.text f.root f.files o.tokenLimit = .ok tokens ∧
        generate tokens f.files (.merged .builtin o.tags) o.positions = .ok made ∧
        c.locals = made.locals ∧ c.paths = made.paths ∧ c.program = (bundle o f.files made).1 ∧
        c.warnings = (bundle o f.files made).2.2 ∧ ∀ t, c.template = some t →
          Template.produce c.program f.files (bundle o f.files made).2.1 = .ok t := by
  obtain ⟨tokens, htokens, h⟩ := ok_of_bind h
  obtain ⟨made, hmade, h⟩ := ok_of_bind h
  dsimp only at h
  split at h
  · obtain ⟨template, htemplate, h⟩ := ok_of_bind h
    cases htemplate
    cases h
    exact ⟨rfl, tokens, made, htokens, hmade, rfl, rfl, rfl, rfl, fun t ht => by cases ht⟩
  · obtain ⟨template, htemplate, h⟩ := ok_of_bind h
    cases hproduced : Template.produce (bundle o f.files made).1 f.files
        (bundle o f.files made).2.1 with
    | error e =>
      rw [hproduced] at htemplate
      cases htemplate
    | ok t =>
      rw [hproduced] at htemplate
      cases htemplate
      cases h
      exact ⟨rfl, tokens, made, htokens, hmade, rfl, rfl, rfl, rfl, fun t' ht =>
        hproduced.trans (congrArg Except.ok (Option.some.inj ht))⟩

/-- The program is the one that was generated, and the template has it and evaluates as usual. -/
theorem Compiled.generated {o : CompileOptions} {f : Flattened} {c : Compiled}
    (h : compileFlattened o f = .ok c) :
    ∃ tokens made, tokenize c.flattened.text c.flattened.root c.flattened.files o.tokenLimit =
      .ok tokens ∧
      generate tokens c.flattened.files (.merged .builtin o.tags) o.positions = .ok made ∧
      c.locals = made.locals ∧ (∃ names, c.program = { made.program with bundled := names }) ∧
      ∀ t, c.template = some t → t.program = c.program ∧ t.toolbox.evaluator = .standard := by
  obtain ⟨rfl, tokens, made, htokens, hmade, hlocals, _, hprogram, _, htemplate⟩ :=
    compileFlattened_ok h
  obtain ⟨hnames, hstandard⟩ := bundle_spec o c.flattened.files made
  refine ⟨tokens, made, htokens, hmade, hlocals, hprogram ▸ hnames, fun t ht => ?_⟩
  obtain ⟨hsame, htoolbox⟩ := Template.of_produce (htemplate t ht)
  exact ⟨hsame, htoolbox ▸ hstandard⟩

theorem TagRegistry.merged_empty (r : TagRegistry) : r.merged .empty = r := rfl

/-- The program of a template of lexical tokens is confined to what the template reads. -/
theorem Compiled.confined {o : CompileOptions} {f : Flattened} {c : Compiled} {tokens : List Token}
    {W : String → Prop} (hW : ∀ word ∈ unlistedWords, W word) (htags : o.tags = .empty)
    (h : compileFlattened o f = .ok c) (hlexical : c.IsLexical o tokens) :
    confinedBody (c.Reads tokens W) {} c.program.body ∧ ∀ t, c.template = some t →
      confinedBody (c.Reads tokens W) {} t.program.body ∧ t.toolbox.evaluator = .standard := by
  obtain ⟨tokens', made, htokens, hmade, hlocals, ⟨_, hprogram⟩, htemplate⟩ := Compiled.generated h
  rw [hlexical.cut] at htokens
  obtain rfl := Except.ok.inj htokens
  rw [htags, TagRegistry.merged_empty] at hmade
  have hsettles := generate_settles tokens c.flattened.files o.positions
  rw [hmade] at hsettles
  cases hsettles with
  | ok h =>
    obtain ⟨sites, _, hmade⟩ := h
    obtain ⟨found, hfound, hfilled⟩ := hmade.body
    have hall : between tokens 0 tokens.length = tokens := by
      rw [between, List.take_length, List.drop_zero]
    have hconfined : confinedBody (c.Reads tokens W) {} made.program.body := by
      have hcovered (token : Token) (hmem : token ∈ withoutVerbatim TagRegistry.builtin.kinds none
          (between tokens 0 tokens.length)) : token.Covered (c.Reads tokens W) := by
        rw [hall] at hmem
        refine ⟨hlexical.lexical token hmem, fun word hstarts hunlisted => ?_⟩
        refine .inr ⟨hW _ hunlisted, token, hmem, ?_⟩
        rw [String.toList_ofList]
        exact hstarts
      rw [hfound]
      exact (hfilled.confined rfl (fun name hname => .inl (hlocals ▸ hname)) (Nat.zero_le _)
        (fun hne => absurd rfl hne) hcovered).2
    have hbody : confinedBody (c.Reads tokens W) {} c.program.body := by
      rw [hprogram]
      exact hconfined
    refine ⟨hbody, fun t ht => ?_⟩
    obtain ⟨hsame, hstandard⟩ := htemplate t ht
    exact ⟨hsame ▸ hbody, hstandard⟩

/-- What is not read does not matter. -/
theorem Compiled.render_congr {o : CompileOptions} {f : Flattened} {c : Compiled}
    {tokens : List Token} {W : String → Prop} (hW : ∀ word ∈ unlistedWords, W word)
    (htags : o.tags = .empty) (h : compileFlattened o f = .ok c) (hlexical : c.IsLexical o tokens)
    {b b' : Value} (hsame : AgreeOn (c.Reads tokens W) b b') : c.render o b = c.render o b' := by
  obtain ⟨hprogram, htemplate⟩ := Compiled.confined hW htags h hlexical
  have hrender (t : Template) (hbody : confinedBody (c.Reads tokens W) {} t.program.body)
      (hstandard : t.toolbox.evaluator = .standard) :
      (if t.bundled || o.filters.isEmpty then t.render b
        else t.renderWith b (.withFilters o.filters)) =
      if t.bundled || o.filters.isEmpty then t.render b'
        else t.renderWith b' (.withFilters o.filters) := by
    have hfiltered : (Toolbox.withFilters o.filters).evaluator = .standard := rfl
    split
    · exact Template.renderWith_congr hstandard hbody hsame
    · exact Template.renderWith_congr hfiltered hbody hsame
  unfold Compiled.render
  cases ht : c.template with
  | some t =>
    obtain ⟨hbody, hstandard⟩ := htemplate t ht
    exact hrender t hbody hstandard
  | none =>
    cases hproduced : Template.produce c.program c.flattened.files none with
    | error e => rfl
    | ok t =>
      obtain ⟨hsame, htoolbox⟩ := Template.of_produce hproduced
      refine hrender t (hsame ▸ hprogram) ?_
      rw [htoolbox]
      rfl

/-! ## Words that are not listed -/

theorem ok_of_toOption {ε α : Type} {x : Except ε α} {a : α} (h : x.toOption = some a) :
    x = .ok a := by
  cases x with
  | error e => cases h
  | ok b => exact congrArg Except.ok (Option.some.inj h)

/-- The template that writes a word. -/
def writing (word : String) : String := "\x7b\x7b " ++ word ++ " \x7d\x7d"

/-- Bindings with one name. -/
def binding (name text : String) : Value := .map [(.str name, .str text)]

/-- The template that writes a word lists no variable, and shows what is bound to the word. -/
def showsBinding (word : String) : Bool :=
  match compile {} (writing word) [] with
  | .error _ _ => false
  | .ok c reads =>
    reads.isEmpty && c.locals.toList.isEmpty &&
      (tokenize c.flattened.text c.flattened.root c.flattened.files defaultTokenLimit).toOption =
        some [.object word [] (writing word) ⟨stringFile, 0⟩] &&
      (c.render {} (binding word "one")).toOption != (c.render {} (binding word "two")).toOption

theorem isPath_word {word : String} (hident : isIdentifier word.toList = true)
    (hplain : Text.after? dollarSign word.toList = none) : IsPath word.toList word :=
  ⟨word.toList, String.ofList_toList.symm, .name hident, hplain⟩

theorem isLexical_object {expression source : String} {pos : Pos} {word : List Char}
    (hpath : IsPath word expression) : (Token.object expression [] source pos).IsLexical where
  tags _ htag := by cases htag
  sets _ _ htag := by cases htag
  paths e he := by
    obtain rfl := List.mem_singleton.1 he
    exact ⟨word, hpath⟩
  plain _ hcall := absurd hcall List.not_mem_nil

/-- A word is no path with another head. -/
theorem eq_of_isPath {word : String} {head : List Char} (hident : isIdentifier word.toList = true)
    (hpath : IsPath head word) : head = word.toList := by
  obtain ⟨text, rfl, hdotted, _⟩ := hpath
  rw [String.toList_ofList] at hident ⊢
  cases hdotted with
  | name => rfl
  | member =>
    have hdot := isIdentifier_all hident '.' (List.mem_append_right _ List.mem_cons_self)
    exact absurd hdot (by decide)

/-- The template that writes an unlisted word lists no variable, starts no path with another word, and
reads the word. -/
theorem unlisted_read {word : String} (hword : word ∈ unlistedWords) :
    ∃ c tokens, compile {} (writing word) [] = .ok c [] ∧ c.IsLexical {} tokens ∧
      (∀ W name, c.Reads tokens W name → W name ∧ name = word) ∧
      c.render {} (binding word "one") ≠ c.render {} (binding word "two") := by
  have hall : ∀ word ∈ unlistedWords, showsBinding word = true ∧
      isIdentifier word.toList = true ∧ Text.after? dollarSign word.toList = none := by
    decide +kernel
  obtain ⟨hshows, hident, hplain⟩ := hall word hword
  unfold showsBinding at hshows
  split at hshows
  · cases hshows
  · next c reads hc =>
    simp only [Bool.and_eq_true, List.isEmpty_iff, decide_eq_true_eq, bne_iff_ne] at hshows
    obtain ⟨⟨⟨rfl, hlocals⟩, htokens⟩, hdiffers⟩ := hshows
    refine ⟨c, _, hc, ⟨ok_of_toOption htokens, fun token htoken => ?_⟩, fun W name hname => ?_,
      fun hsame => hdiffers (by rw [hsame])⟩
    · obtain rfl := List.mem_singleton.1 htoken
      exact isLexical_object (isPath_word hident hplain)
    · rcases hname with hlocal | ⟨hW, token, htoken, e, he, hpath⟩
      · have hmem : name ∈ c.locals.toList := hlocal
        rw [hlocals] at hmem
        cases hmem
      · obtain rfl := List.mem_singleton.1 htoken
        obtain rfl := List.mem_singleton.1 he
        exact ⟨hW, String.toList_inj.1 (eq_of_isPath hident hpath)⟩

/-- A loop over users. -/
def roster : String := "\x7b% for user in users %\x7d\x7b\x7b user.name \x7d\x7d\x7b% endfor %\x7d"

def rosterTokens : List Token :=
  [tagAt 0 "for" "user in users" "\x7b% for user in users %\x7d",
    .object "user.name" [] "\x7b\x7b user.name \x7d\x7d" ⟨stringFile, 23⟩,
    tagAt 38 "endfor" "" "\x7b% endfor %\x7d"]

/-- Two users. -/
def rosterUsers : Value × Value :=
  (.str "users", .seq [.map [(.str "name", .str "Ann")], .map [(.str "name", .str "Bob")]])

theorem isLexical_roster : ∀ token ∈ rosterTokens, token.IsLexical := by
  have hpath : IsPath "user".toList "user.name" :=
    ⟨"user".toList ++ '.' :: "name".toList, rfl, .member rfl (.name rfl), rfl⟩
  have hfor : (tagAt 0 "for" "user in users" "\x7b% for user in users %\x7d").IsLexical := by
    refine ⟨fun t ht => ?_, fun t head ht hname => ?_, fun e he => ?_, ?_⟩
    · cases ht
      decide
    · cases ht
      exact absurd hname (by decide)
    · have hexpressions : (tagAt 0 "for" "user in users" "\x7b% for user in users %\x7d").expressions =
          ["users"] := by decide +kernel
      rw [hexpressions] at he
      obtain rfl := List.mem_singleton.1 he
      exact ⟨"users".toList, isPath_word rfl rfl⟩
    · exact fun call hcall => absurd hcall List.not_mem_nil
  have hendfor : (tagAt 38 "endfor" "" "\x7b% endfor %\x7d").IsLexical := by
    refine ⟨fun t ht => ?_, fun t head ht hname => ?_, fun e he => ?_, ?_⟩
    · cases ht
      decide
    · cases ht
      exact absurd hname (by decide)
    · exact absurd he List.not_mem_nil
    · exact fun call hcall => absurd hcall List.not_mem_nil
  intro token htoken
  simp only [rosterTokens, List.mem_cons, List.not_mem_nil, or_false] at htoken
  rcases htoken with rfl | rfl | rfl
  · exact hfor
  · exact isLexical_object hpath
  · exact hendfor

end Stencil