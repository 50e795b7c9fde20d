import Stencil.Proofs.Generation.Wrapping
import Stencil.Proofs.Render.Bundle
import Stencil.Proofs.Render.Named
import Stencil.Proofs.Token.Tagged

/-!
# Texts that are taken as they are

The content of a verbatim block is cut into tokens, and put together again. Neither the search for its
end nor the scan for named blocks looks at what the tokens say, so any text can stand in it that can
be cut into tokens and does not hold the closing tag.

* `Verbatim.verbatimEnd?_eq`, `Verbatim.sourceBetween_eq`: where such a block ends, and its text.
* `generate_raw`, `generate_capture`: the programs that are made of it.
* `rendered_rawBody`, `rendered_capturedBody`: what these programs write.
* `render_verbatim`: so what the templates render.
-/

namespace Stencil

open Text

/-! ## Verbatim blocks -/

/-- A verbatim block stands at an index: its opener, its content, and the first tag that closes it. -/
structure Verbatim (tokens : List Token) (idx : Nat) (opener : Tag) (content rest : List Token) :
    Prop where
  inside : ∀ token ∈ content, token.isTag (closerOf opener.name) = false
  drop : ∃ closer, closer.isTag (closerOf opener.name) = true ∧
    tokens.drop idx = .tag opener :: (content ++ closer :: rest)

namespace Verbatim

variable {tokens content rest : List Token} {idx : Nat} {opener : Tag}

theorem here (h : Verbatim tokens idx opener content rest) : tokens[idx]? = some (.tag opener) := by
  obtain ⟨closer, -, hdrop⟩ := h.drop
  exact here_of_drop hdrop

/-- The block ends at the closing tag. -/
theorem verbatimEnd?_eq (h : Verbatim tokens idx opener content rest) :
    verbatimEnd? tokens opener.name idx = some (idx + 1 + content.length) := by
  obtain ⟨closer, hcloser, hdrop⟩ := h.drop
  have hinside : content.findIdx? (·.isTag (closerOf opener.name)) = none :=
    List.findIdx?_eq_none_iff.2 h.inside
  rw [verbatimEnd?, drop_succ_of_drop hdrop, List.findIdx?_append, hinside, List.findIdx?_cons,
    hcloser]
  simp

/-- The text of the block is that of its content. -/
theorem sourceBetween_eq {env : DraftEnv} (h : Verbatim env.tokens idx opener content rest) :
    env.sourceBetween (idx + 1) (idx + 1 + content.length) = sourceOf content := by
  obtain ⟨closer, -, hdrop⟩ := h.drop
  rw [DraftEnv.sourceBetween, List.drop_take, drop_succ_of_drop hdrop, Nat.add_sub_cancel_left,
    List.take_left]

section

variable {env : DraftEnv} {d : Draft}

theorem verbatimEnd_eq (h : Verbatim env.tokens idx opener content rest) (hidx : d.idx = idx) :
    env.verbatimEnd d opener = .ok (idx + 1 + content.length) := by
  rw [DraftEnv.verbatimEnd, hidx, h.verbatimEnd?_eq]

/-- The handlers take the text as it is, and go on behind the closing tag. -/
theorem raw_eq (h : Verbatim env.tokens idx opener content rest) (hidx : d.idx = idx) :
    Handler.raw env opener d =
      .ok ((if (sourceOf content).isEmpty then d else d.emit (.text (sourceOf content))).skipTo
        (idx + 1 + content.length + 1)) := by
  rw [Handler.raw, h.verbatimEnd_eq hidx]
  show Except.ok _ = _
  rw [hidx, h.sourceBetween_eq]

@[inherit_doc raw_eq]
theorem capture_eq (h : Verbatim env.tokens idx opener content rest) (hidx : d.idx = idx)
    (hname : isVariableName opener.head = true) :
    Handler.capture env opener d =
      .ok (((d.declare opener.head).2.emit (.capture opener.head (sourceOf content)
        (d.declare opener.head).1)).skipTo (idx + 1 + content.length + 1)) := by
  rw [Handler.capture, h.verbatimEnd_eq hidx, hname]
  show Except.ok _ = _
  rw [hidx, h.sourceBetween_eq]
  rfl

end

/-- The scan for named blocks passes over it. -/
theorem behind {kinds : TagKinds} (h : Verbatim tokens 0 opener content rest)
    (hverbatim : kinds.isVerbatim opener.name = true) :
    tokens.foldl kinds.behind none = rest.foldl kinds.behind none := by
  obtain ⟨closer, hcloser, hdrop⟩ := h.drop
  have hopens : kinds.behind none (.tag opener) = some opener := by
    simp [TagKinds.behind, hverbatim]
  have hcloses : kinds.behind (some opener) closer = none := by simp [TagKinds.behind, hcloser]
  rw [List.drop_zero] at hdrop
  rw [hdrop, List.foldl_cons, hopens, List.foldl_append, TagKinds.behind_content h.inside,
    List.foldl_cons, hcloses]

theorem length_tokens (h : Verbatim tokens 0 opener content rest) :
    tokens.length = 0 + 1 + content.length + 1 + rest.length := by
  obtain ⟨closer, -, hdrop⟩ := h.drop
  rw [List.drop_zero] at hdrop
  rw [hdrop]
  simp
  omega

end Verbatim

/-! ## Programs -/

/-- The instruction that writes a text, unless there is nothing to write. -/
def writes (text : String) : List Instruction := if text.isEmpty then [] else [.text text]

namespace Generator

variable {g : Generator} {d : Draft} {idx : Nat} {found : List Instruction} {σ : Scope} {tag : Tag}
  {content rest : List Token}

theorem step_raw (hhandler : g.registry.get? tag.name = some Handler.raw) (h : d.Flat idx found σ)
    (hblock : Verbatim g.env.tokens idx tag content rest) :
    ∃ d', g.step (.tag tag) d = .ok d' ∧
      d'.Flat (idx + 1 + content.length + 1)
        (writes (sourceOf content) ++ markedIn g.env.positions tag.pos found) σ := by
  have hmarked := h.mark g.env tag.pos
  have hwritten : (if (sourceOf content).isEmpty then
        ({ d with trimNext := false } : Draft).mark g.env tag.pos
      else (({ d with trimNext := false } : Draft).mark g.env tag.pos).emit
        (.text (sourceOf content))).Flat idx
          (writes (sourceOf content) ++ markedIn g.env.positions tag.pos found) σ := by
    unfold writes
    split
    · exact hmarked
    · exact hmarked.append _
  refine ⟨_, ?_, hwritten.skipTo _⟩
  simp only [step, handle, Token.pos, hhandler, hblock.raw_eq hmarked.idx]

theorem step_capture (hhandler : g.registry.get? tag.name = some Handler.capture)
    (hname : isVariableName tag.head = true) (h : d.Flat idx found σ)
    (hblock : Verbatim g.env.tokens idx tag content rest) :
    ∃ d', g.step (.tag tag) d = .ok d' ∧
      d'.Flat (idx + 1 + content.length + 1)
        (.capture tag.head (sourceOf content) (!σ.has tag.head) ::
          markedIn g.env.positions tag.pos found) (σ.add tag.head) := by
  have hmarked := h.mark g.env tag.pos
  obtain ⟨hnew, hdeclared⟩ := hmarked.declare tag.head
  refine ⟨_, ?_, (hdeclared.append _).skipTo _⟩
  simp only [step, handle, Token.pos, hhandler, hblock.capture_eq hmarked.idx hname, hnew]

end Generator

section

variable {registry : TagRegistry} {opener : Tag} {tokens content : List Token}

/-- When the places of its named blocks can be found, a program is generated with them. -/
theorem generate_behind (h : tokens.foldl registry.kinds.behind none = none) (files : Files)
    (positions : Bool) : ∃ sites, generate tokens files registry positions =
      Generator.generate ⟨⟨tokens, files, registry.kinds, positions, sites⟩, registry⟩ := by
  obtain ⟨sites, hsites⟩ := sitesFrom_ok.2 h
  refine ⟨sites, ?_⟩
  unfold generate blockSites
  rw [hsites]

/-- A raw text alone is made into a program that writes it. -/
theorem generate_raw (hhandler : registry.get? opener.name = some Handler.raw)
    (hverbatim : registry.kinds.isVerbatim opener.name = true)
    (hblock : Verbatim tokens 0 opener content []) (files : Files) (positions : Bool) :
    (generate tokens files registry positions).map (·.program) =
      .ok { body := (writes (sourceOf content) ++ markedIn positions opener.pos []).reverse } := by
  obtain ⟨sites, hgenerate⟩ := generate_behind (hblock.behind hverbatim) files positions
  have hstart : ({} : Draft).Flat 0 [] {} := ⟨rfl, rfl, rfl, rfl, rfl, rfl⟩
  let g : Generator := ⟨⟨tokens, files, registry.kinds, positions, sites⟩, registry⟩
  obtain ⟨d, hstep, hd⟩ := Generator.step_raw (g := g) hhandler hstart hblock
  have hlength : tokens.length = 0 + 1 + content.length + 1 := hblock.length_tokens
  rw [hgenerate]
  refine Generator.generate_flat (show g.generateRange tokens.length {} = .ok d from ?_) hd
  have hhere : g.env.token? ({} : Draft).idx = some (.tag opener) := hblock.here
  rw [Generator.generateRange_next (by rw [hlength]; exact Nat.succ_pos _) hhere hstep
    (by rw [hd.idx]; exact Nat.succ_pos _), Generator.generateRange_of_le _ (by rw [hd.idx, hlength])]

/-- A capture and an object behind it are made into a program that binds the text and writes the
value. -/
theorem generate_capture (hhandler : registry.get? opener.name = some Handler.capture)
    (hverbatim : registry.kinds.isVerbatim opener.name = true)
    (hname : isVariableName opener.head = true) (expression source : String)
    (calls : List FilterCall) (pos : Pos)
    (hblock : Verbatim tokens 0 opener content [.object expression calls source pos])
    (files : Files) (positions : Bool) :
    (generate tokens files registry positions).map (·.program) =
      .ok { body := (.emit (.ofExpression (Scope.add {} opener.head) expression calls) ::
        markedIn positions pos
          (.capture opener.head (sourceOf content) true ::
            markedIn positions opener.pos [])).reverse } := by
  obtain ⟨sites, hgenerate⟩ := generate_behind (hblock.behind hverbatim) files positions
  have hstart : ({} : Draft).Flat 0 [] {} := ⟨rfl, rfl, rfl, rfl, rfl, rfl⟩
  let g : Generator := ⟨⟨tokens, files, registry.kinds, positions, sites⟩, registry⟩
  obtain ⟨d, hstep, hd⟩ := Generator.step_capture (g := g) hhandler hname hstart hblock
  obtain ⟨d', hstep', hd'⟩ := Generator.step_object (g := g) hd expression source calls pos
  have hlength : tokens.length = 0 + 1 + content.length + 1 + 1 := hblock.length_tokens
  have hobject : tokens[0 + 1 + content.length + 1]? = some (.object expression calls source pos) := by
    obtain ⟨closer, -, hdrop⟩ := hblock.drop
    rw [List.drop_zero] at hdrop
    rw [hdrop, Nat.zero_add, Nat.add_comm 1 content.length]
    simp
  have hfree : (!({} : Scope).has opener.head) = true := rfl
  rw [hfree] at hd'
  have hnext : d.idx < d'.idx := by
    rw [hd.idx, hd'.idx]
    exact Nat.lt_succ_self _
  rw [hgenerate]
  refine Generator.generate_flat (show g.generateRange tokens.length {} = .ok d' from ?_) hd'
  have hhere : g.env.token? ({} : Draft).idx = some (.tag opener) := hblock.here
  rw [Generator.generateRange_next (by rw [hlength]; exact Nat.succ_pos _) hhere hstep
      (by rw [hd.idx]; exact Nat.succ_pos _),
    Generator.generateRange_next (by rw [hd.idx, hlength]; exact Nat.lt_succ_self _)
      (by rw [hd.idx]; exact hobject) hstep' hnext,
    Generator.generateRange_of_le _ (by rw [hd'.idx, hlength])]

end

/-! ## Rendering -/

/-- An instruction without bodies and without filters. -/
def Instruction.IsPlain (x : Instruction) : Prop :=
  x.bodies = [] ∧ ∀ p ∈ x.pipelines, p.filters = []

theorem Instruction.isPlain_of_nil {x : Instruction} (hbodies : x.bodies = [])
    (hpipelines : x.pipelines = []) : x.IsPlain := by
  refine ⟨hbodies, fun p hp => ?_⟩
  rw [hpipelines] at hp
  exact absurd hp List.not_mem_nil

/-- A program of such instructions has noted all its filters. -/
theorem notesFilters_plain {made : Generated} {body : List Instruction}
    (hbody : made.program = { body }) (hplain : ∀ x ∈ body, x.IsPlain) : made.NotesFilters := by
  intro x holds p hp call hcall
  rw [hbody] at holds
  cases holds with
  | mixin mem _ => cases mem
  | block mem _ => cases mem
  | body occurs =>
    cases occurs with
    | here mem => rw [(hplain x mem).2 p hp] at hcall; cases hcall
    | inside mem within _ => rw [(hplain _ mem).1] at within; cases within

theorem renderMade_eq (o : CompileOptions) (files : Files) (made : Generated) (bindings : Value) :
    renderMade o files made bindings =
      rendered made.program files (some (.withFilters o.filters)) bindings := by
  rw [rendered, Template.produce_eq]
  unfold renderMade
  show (Checker.checkBodies ⟨.standard, files⟩ (Checker.bodiesOf made.program)).bind _ =
    ((Checker.checkBodies ⟨.standard, files⟩ (Checker.bodiesOf made.program)).map _).bind _
  cases Checker.checkBodies ⟨.standard, files⟩ (Checker.bodiesOf made.program) <;> rfl

/-- Behind an instruction that is no position there is room for one. -/
theorem markedIn_cons {x : Instruction} (h : ∀ pos, x ≠ .position pos) (positions : Bool) (pos : Pos)
    (found : List Instruction) :
    markedIn positions pos (x :: found) = markedIn positions pos [] ++ x :: found := by
  cases positions with
  | false => rfl
  | true =>
    cases x with
    | position place => exact absurd rfl (h place)
    | _ => rfl

theorem eq_of_mem_markedIn {x : Instruction} {positions : Bool} {pos : Pos}
    (h : x ∈ markedIn positions pos []) : x = .position pos := by
  cases positions with
  | false => cases h
  | true => exact List.mem_singleton.1 h

theorem eq_of_mem_writes {x : Instruction} {text : String} (h : x ∈ writes text) :
    x = .text text := by
  unfold writes at h
  split at h
  · cases h
  · exact List.mem_singleton.1 h

theorem reverse_writes (text : String) : (writes text).reverse = writes text := by
  unfold writes
  split <;> rfl

theorem reverse_markedIn (positions : Bool) (pos : Pos) :
    (markedIn positions pos []).reverse = markedIn positions pos [] := by
  cases positions <;> rfl

section

variable (env : RenderEnv) (call : List Instruction → RenderM Flow) (positions : Bool) (pos : Pos)

/-- Positions write nothing. -/
theorem runBody_marked (is : List Instruction) (s : RenderState) : ∃ position,
    env.runBody call (markedIn positions pos [] ++ is) s = env.runBody call is { s with position } := by
  cases positions with
  | false => exact ⟨s.position, rfl⟩
  | true => exact ⟨some pos, rfl⟩

theorem checkBody_marked (c : Checker) (is : List Instruction) (position : Option Pos) :
    ∃ position', c.checkBody (markedIn positions pos [] ++ is) position = c.checkBody is position' := by
  cases positions with
  | false => exact ⟨position, rfl⟩
  | true => exact ⟨some pos, rfl⟩

/-- What writes a text writes it. -/
theorem written_writes (text : String) (s : RenderState) :
    Template.written (env.runBody call (writes text) s) = .ok (s.output ++ text) := by
  unfold writes
  split
  · next hempty =>
    rw [String.isEmpty_iff.1 hempty, String.append_empty]
    rfl
  · rfl

/-- A captured text is written by its name. -/
theorem written_captured {name : String} (henv : env.toolbox.evaluator = .standard)
    (hname : ReadsJust name name) (text : String) (s : RenderState) :
    Template.written (env.runBody call (.capture name text true ::
      (markedIn positions pos [] ++ [.emit (.ofBase name)])) s) = .ok (s.output ++ text) := by
  have hcapture : env.runBody call (.capture name text true ::
      (markedIn positions pos [] ++ [.emit (.ofBase name)])) s =
        env.runBody call (markedIn positions pos [] ++ [.emit (.ofBase name)])
          (s.declare name (.str text)) := rfl
  obtain ⟨position, hmarked⟩ := runBody_marked env call positions pos
    [.emit (.ofBase name)] (s.declare name (.str text))
  have hlookup : ({ s.declare name (.str text) with position } : RenderState).lookup name =
      some (.str text) := by
    simpa [RenderState.lookup] using RenderState.lookup_declare s name name (.str text)
  rw [hcapture, hmarked, runBody_emit, eval_name henv hname hlookup]
  exact congrArg (fun output => Except.ok (output ++ text)) (output_declare s name (.str text))

end

/-- A body that passes the check and always writes a text renders it, whatever the bindings are. -/
theorem rendered_text {body : List Instruction} {files : Files} {toolbox : Toolbox} {text : String}
    (hcheck : ∃ position, Checker.checkBody ⟨toolbox.evaluator, files⟩ body none = .ok position)
    (hrun : ∀ call s, Template.written
      (RenderEnv.runBody ⟨{ body }, files, toolbox⟩ call body s) = .ok (s.output ++ text))
    (bindings : Value) : rendered { body } files (some toolbox) bindings =
      (Template.globalsOf bindings).map fun _ => text := by
  obtain ⟨position, hcheck⟩ := hcheck
  rw [rendered_body]
  show ((Checker.checkBody ⟨toolbox.evaluator, files⟩ body none).map _).bind _ = _
  rw [hcheck]
  show (Template.globalsOf bindings).bind _ = _
  cases Template.globalsOf bindings with
  | error e => rfl
  | ok globals =>
    show Template.written (RenderEnv.run ⟨{ body }, files, toolbox⟩ { globals }) = .ok text
    rw [run_body, hrun]
    exact congrArg Except.ok String.empty_append

/-! ## Bodies of verbatim texts -/

/-- The body that a raw text is made into. -/
def rawBody (positions : Bool) (pos : Pos) (text : String) : List Instruction :=
  markedIn positions pos [] ++ writes text

/-- The body that a captured text is made into, when its name is written behind it. -/
def capturedBody (positions : Bool) (pos behind : Pos) (name text : String) : List Instruction :=
  markedIn positions pos [] ++ .capture name text true ::
    (markedIn positions behind [] ++ [.emit (.ofBase name)])

section

variable (positions : Bool) (pos behind : Pos) (name text : String)

theorem reverse_raw :
    (writes text ++ markedIn positions pos []).reverse = rawBody positions pos text := by
  rw [List.reverse_append, reverse_markedIn, reverse_writes, rawBody]

theorem reverse_captured :
    (.emit (.ofBase name) :: markedIn positions behind
      (.capture name text true :: markedIn positions pos [])).reverse =
        capturedBody positions pos behind name text := by
  have hcapture (place : Pos) : Instruction.capture name text true ≠ .position place :=
    fun h => by cases h
  rw [List.reverse_cons, markedIn_cons hcapture, List.reverse_append, List.reverse_cons,
    reverse_markedIn, reverse_markedIn, List.append_assoc, List.append_assoc, List.singleton_append,
    capturedBody]

theorem isPlain_markedIn : ∀ x ∈ markedIn positions pos [], x.IsPlain := by
  intro x hx
  obtain rfl := eq_of_mem_markedIn hx
  exact Instruction.isPlain_of_nil rfl rfl

theorem isPlain_rawBody : ∀ x ∈ rawBody positions pos text, x.IsPlain := by
  refine List.forall_mem_append.2 ⟨isPlain_markedIn positions pos, fun x hx => ?_⟩
  obtain rfl := eq_of_mem_writes hx
  exact Instruction.isPlain_of_nil rfl rfl

theorem isPlain_capturedBody : ∀ x ∈ capturedBody positions pos behind name text, x.IsPlain := by
  have hemit : (Instruction.emit (.ofBase name)).IsPlain :=
    ⟨rfl, fun p hp => List.mem_singleton.1 hp ▸ rfl⟩
  exact List.forall_mem_append.2 ⟨isPlain_markedIn positions pos,
    List.forall_mem_cons.2 ⟨Instruction.isPlain_of_nil rfl rfl,
      List.forall_mem_append.2 ⟨isPlain_markedIn positions behind,
        List.forall_mem_singleton.2 hemit⟩⟩⟩

variable (files : Files) (toolbox : Toolbox) (bindings : Value)

/-- A raw text is rendered as it is. -/
theorem rendered_rawBody :
    rendered { body := rawBody positions pos text } files (some toolbox) bindings =
      (Template.globalsOf bindings).map fun _ => text := by
  refine rendered_text ?_ (fun call s => ?_) bindings
  · obtain ⟨position, hmarked⟩ := checkBody_marked positions pos _ (writes text) none
    refine ⟨position, hmarked.trans ?_⟩
    unfold writes
    split <;> rfl
  · obtain ⟨position, hmarked⟩ := runBody_marked _ call positions pos (writes text) s
    rw [rawBody, hmarked]
    exact written_writes _ call text _

/-- A captured text is rendered as it is by a name that reads itself. -/
theorem rendered_capturedBody {name : String} (hreads : ReadsJust name name)
    (htoolbox : toolbox.evaluator = .standard) :
    rendered { body := capturedBody positions pos behind name text } files (some toolbox) bindings =
      (Template.globalsOf bindings).map fun _ => text := by
  refine rendered_text ?_ (fun call s => ?_) bindings
  · obtain ⟨position, hmarked⟩ := checkBody_marked positions pos ⟨toolbox.evaluator, files⟩
      (.capture name text true :: (markedIn positions behind [] ++ [.emit (.ofBase name)])) none
    obtain ⟨position', hmarked'⟩ := checkBody_marked positions behind ⟨toolbox.evaluator, files⟩
      [.emit (.ofBase name)] position
    exact ⟨position', (hmarked.trans hmarked').trans (checkBody_name htoolbox hreads position')⟩
  · obtain ⟨position, hmarked⟩ := runBody_marked _ call positions pos (.capture name text true ::
      (markedIn positions behind [] ++ [.emit (.ofBase name)])) s
    rw [capturedBody, hmarked]
    exact written_captured _ call positions behind htoolbox hreads text _

end

/-! ## Templates -/

namespace TagRegistry

variable {r extra : TagRegistry} {name : String}

/-- What the host does not define stays as it is. -/
theorem get?_merged_of_none (h : extra.get? name = none) :
    (r.merged extra).get? name = r.get? name := by
  have hkeys : ∀ entry ∈ extra.handlers.entries, handlerName name ≠ entry.1 := by
    intro entry hentry heq
    have hcontains : extra.handlers.contains (handlerName name) = true :=
      Table.contains_iff.2 (heq ▸ List.mem_map_of_mem hentry)
    rw [Table.contains, show extra.handlers.get? (handlerName name) = none from h] at hcontains
    cases hcontains
  unfold get? merged
  dsimp only
  generalize extra.handlers.entries = entries at hkeys ⊢
  induction entries with
  | nil => rfl
  | cons entry entries ih =>
    rw [List.forall_mem_cons] at hkeys
    rw [List.foldr_cons, Table.get?_insert, if_neg hkeys.1]
    exact ih hkeys.2

theorem isVerbatim_merged (h : r.kinds.isVerbatim name = true) :
    (r.merged extra).kinds.isVerbatim name = true := by
  rw [TagKinds.isVerbatim, decide_eq_true_iff] at h ⊢
  exact NameSet.mem_insertAll.2 (.inr h)

end TagRegistry

/-- A template without a place is rendered from what its tokens are made into. -/
theorem render_made_of_string {o : CompileOptions} (hplace : o.place = .ok none) {text : String}
    {tokens : List Token} {made : Generated}
    (htokens : tokenize text stringFile (Flattened.ofString text).files o.tokenLimit = .ok tokens)
    (hmade : generate tokens (Flattened.ofString text).files (.merged .builtin o.tags) o.positions =
      .ok made) (hnotes : made.NotesFilters) (bindings : Value) :
    render o text bindings = Reading.ofExcept
      (rendered made.program (Flattened.ofString text).files (some (.withFilters o.filters))
        bindings) := by
  rw [render_eq, hplace]
  show Reading.ofExcept ((compileFlattened o (.ofString text)).bind _) = _
  rw [renderCompiled_eq o (.ofString text) htokens hmade hnotes, renderMade_eq]

section

variable {o : CompileOptions} {text root name : String} {files : Files} {limit : Nat}
  {tokens tokens' : List Token} {content behind : List Char}

/-- The tokens of a text without markers spell it. -/
theorem sourceOf_plain (hmarker : ¬ ['{', '#'] <:+: text.toList)
    (h : tokenize text root files limit = .ok tokens) : sourceOf tokens = text := by
  rw [← String.toList_inj, sourceOf_tokenize h, withoutMarkers_eq (not_mem_lexemes hmarker),
    text_lexemes]

theorem isTag_alike {inner : List Token} (halike : List.Forall₂ Token.Alike tokens inner)
    (h : ∀ token ∈ tokens, token.isTag name = false) : ∀ token ∈ inner, token.isTag name = false := by
  have hfind : inner.findIdx? (·.isTag name) = none := by
    rw [findIdx?_alike halike]
    exact List.findIdx?_eq_none_iff.2 h
  exact List.findIdx?_eq_none_iff.1 hfind

/-- A text between the tags of a verbatim block is its content. -/
theorem tokenize_verbatim {opener : Pos → Tag} (hcontent : Undelimited content)
    (hopener : ∀ pos, Enclosure.tag.token content pos = .tag (opener pos))
    (hname : ∀ pos, (opener pos).name = name) (hcloser : IsWord (closerOf name))
    (hmarker : ¬ ['{', '#'] <:+: text.toList) (hclosed : text.toList.getLast? ≠ some '{')
    (hown : tokenize text root files limit = .ok tokens)
    (hinside : ∀ token ∈ tokens, token.isTag (closerOf name) = false)
    (hbehind : Reads behind [] tokens') (page : String) (pages : Files) {most : Nat}
    (hmost : tokens.length + tokens'.length + 2 ≤ most) :
    ∃ pos inner more all,
      tokenize (.ofList (Enclosure.tag.opener ++ content ++ Enclosure.tag.closer ++
        (text.toList ++ (Enclosure.tag.opener ++ spaced (closerOf name).toList ++
          Enclosure.tag.closer ++ behind)))) page pages most = .ok all ∧
      Verbatim all 0 (opener pos) inner more ∧ sourceOf inner = text ∧
      List.Forall₂ Token.Alike tokens' more := by
  obtain ⟨pos, pos', inner, more, hall, hinner, hmore⟩ :=
    tokenize_tagged hcontent hcloser.undelimited.spaced hmarker hclosed
      (by rwa [String.ofList_toList]) hbehind page pages hmost
  rw [hopener, hcloser.tag] at hall
  refine ⟨pos, inner, more, _, hall, ⟨?_, _, ?_, rfl⟩, ?_, hmore⟩
  · rw [hname]
    exact isTag_alike hinner hinside
  · simp [Token.isTag, hname]
  · rw [sourceOf_alike hinner, sourceOf_plain hmarker hown]

theorem isWord_name (h : isVariableName name = true) : IsWord name := by
  have hne : name.toList ≠ [] := by
    intro hnil
    simp [isVariableName, startsLikeName, hnil] at h
  have hpart := isVariableName_all h
  refine ⟨hne, fun c hc => isBlank_namePart (hpart c hc), fun c hc hmem => ?_, fun hmem => ?_⟩
  · simp only [List.mem_cons, List.not_mem_nil, or_false] at hmem
    rcases hmem with rfl | rfl | rfl | rfl <;> exact absurd (hpart _ hc) (by decide)
  · exact absurd (hpart _ hmem) (by decide)

/-- A raw text alone is a verbatim block. -/
theorem tokenize_rawText (hmarker : ¬ ['{', '#'] <:+: text.toList)
    (hclosed : text.toList.getLast? ≠ some '{') (hown : tokenize text root files limit = .ok tokens)
    (hinside : ∀ token ∈ tokens, token.isTag "endraw" = false) (page : String) (pages : Files)
    {most : Nat} (hmost : tokens.length + 2 ≤ most) : ∃ opener inner all,
      tokenize ("\x7b% raw %\x7d" ++ text ++ "\x7b% endraw %\x7d") page pages most = .ok all ∧
      opener.name = "raw" ∧ Verbatim all 0 opener inner [] ∧ sourceOf inner = text := by
  have hopener : IsWord "raw" := isWord_name (by decide)
  have hcloser : IsWord (closerOf "raw") := isWord_name (by decide)
  obtain ⟨pos, inner, more, all, hall, hblock, hsource, hmore⟩ :=
    tokenize_verbatim hopener.undelimited.spaced hopener.tag (fun _ => rfl) hcloser hmarker hclosed
      hown hinside .nil page pages hmost
  cases hmore
  have htext : String.ofList (Enclosure.tag.opener ++ spaced "raw".toList ++ Enclosure.tag.closer ++
      (text.toList ++ (Enclosure.tag.opener ++ spaced (closerOf "raw").toList ++
        Enclosure.tag.closer ++ []))) = "\x7b% raw %\x7d" ++ text ++ "\x7b% endraw %\x7d" := by
    rw [← String.toList_inj]
    simp [Enclosure.opener, Enclosure.closer, closerOf, spaced]
  rw [htext] at hall
  exact ⟨_, inner, all, hall, rfl, hblock, hsource⟩

/-- A captured text with its name behind it is a verbatim block and an object. -/
theorem tokenize_captured (hmarker : ¬ ['{', '#'] <:+: text.toList)
    (hclosed : text.toList.getLast? ≠ some '{') (hown : tokenize text root files limit = .ok tokens)
    (hinside : ∀ token ∈ tokens, token.isTag "endcapture" = false)
    (hname : isVariableName name = true) (page : String) (pages : Files) {most : Nat}
    (hmost : tokens.length + 3 ≤ most) : ∃ opener inner source pos all,
      tokenize ("\x7b% capture " ++ name ++ " %\x7d" ++ text ++ "\x7b% endcapture %\x7d\x7b\x7b " ++
        name ++ " \x7d\x7d") page pages most = .ok all ∧
      opener.name = "capture" ∧ opener.head = name ∧
      Verbatim all 0 opener inner [.object name [] source pos] ∧ sourceOf inner = text := by
  have hopener : IsWord "capture" := isWord_name (by decide)
  have hcloser : IsWord (closerOf "capture") := isWord_name (by decide)
  have hword := isWord_name hname
  have hcontent : Undelimited ("capture".toList ++ ' ' :: name.toList) :=
    List.forall_mem_append.2 ⟨hopener.undelimited,
      List.forall_mem_cons.2 ⟨by decide, hword.undelimited⟩⟩
  have he : Enclosure.object ≠ .marker := fun h => by cases h
  have hobject : Reads (Enclosure.object.opener ++ spaced name.toList ++ Enclosure.object.closer ++ [])
      [] [Enclosure.object.token (spaced name.toList) ⟨stringFile, 0⟩] :=
    .enclosed he hword.undelimited.spaced .nil _
  obtain ⟨pos, inner, more, all, hall, hblock, hsource, hmore⟩ :=
    tokenize_verbatim hcontent.spaced (hopener.tag_word hword) (fun _ => rfl) hcloser hmarker
      hclosed hown hinside hobject page pages hmost
  obtain ⟨_, _, ⟨pos', rfl⟩, hnone, rfl⟩ := List.forall₂_cons_left_iff.1 hmore
  cases hnone
  rw [Enclosure.movedTo_token, hword.object] at hblock
  have htext : String.ofList (Enclosure.tag.opener ++
      spaced ("capture".toList ++ ' ' :: name.toList) ++ Enclosure.tag.closer ++
      (text.toList ++ (Enclosure.tag.opener ++ spaced (closerOf "capture").toList ++
        Enclosure.tag.closer ++ (Enclosure.object.opener ++ spaced name.toList ++
          Enclosure.object.closer ++ [])))) =
      "\x7b% capture " ++ name ++ " %\x7d" ++ text ++ "\x7b% endcapture %\x7d\x7b\x7b " ++
        name ++ " \x7d\x7d" := by
    rw [← String.toList_inj]
    simp [Enclosure.opener, Enclosure.closer, closerOf, spaced]
  rw [htext] at hall
  exact ⟨_, inner, _, pos', all, hall, rfl, rfl, hblock, hsource⟩

/-- A raw text renders as it is. -/
theorem render_rawText (hplace : o.place = .ok none) (hfree : o.tags.get? "raw" = none)
    (hmarker : ¬ ['{', '#'] <:+: text.toList) (hclosed : text.toList.getLast? ≠ some '{')
    (hown : tokenize text root files limit = .ok tokens)
    (hinside : ∀ token ∈ tokens, token.isTag "endraw" = false)
    (hlimit : tokens.length + 2 ≤ o.tokenLimit) (bindings : Value) :
    render o ("\x7b% raw %\x7d" ++ text ++ "\x7b% endraw %\x7d") bindings =
      Reading.ofExcept ((Template.globalsOf bindings).map fun _ => text) := by
  obtain ⟨opener, inner, all, hall, hraw, hblock, hsource⟩ :=
    tokenize_rawText hmarker hclosed hown hinside stringFile
      (Flattened.ofString ("\x7b% raw %\x7d" ++ text ++ "\x7b% endraw %\x7d")).files hlimit
  have hhandler : (TagRegistry.merged .builtin o.tags).get? opener.name = some Handler.raw := by
    rw [hraw]
    exact TagRegistry.get?_merged_of_none hfree
  have hverbatim : (TagRegistry.merged .builtin o.tags).kinds.isVerbatim opener.name = true := by
    rw [hraw]
    exact TagRegistry.isVerbatim_merged (by decide)
  obtain ⟨made, hmade, hprogram⟩ := ok_of_map (generate_raw hhandler hverbatim hblock _ o.positions)
  rw [hsource, reverse_raw] at hprogram
  rw [render_made_of_string hplace hall hmade (notesFilters_plain hprogram (isPlain_rawBody _ _ _)),
    hprogram, rendered_rawBody]

/-- A captured text renders as it is where its name is written. -/
theorem render_captured (hplace : o.place = .ok none) (hfree : o.tags.get? "capture" = none)
    (hmarker : ¬ ['{', '#'] <:+: text.toList) (hclosed : text.toList.getLast? ≠ some '{')
    (hown : tokenize text root files limit = .ok tokens)
    (hinside : ∀ token ∈ tokens, token.isTag "endcapture" = false)
    (hlimit : tokens.length + 3 ≤ o.tokenLimit) (hname : isVariableName name = true)
    (hcomes : ComesBack name) (bindings : Value) :
    render o ("\x7b% capture " ++ name ++ " %\x7d" ++ text ++ "\x7b% endcapture %\x7d\x7b\x7b " ++
        name ++ " \x7d\x7d") bindings =
      Reading.ofExcept ((Template.globalsOf bindings).map fun _ => text) := by
  obtain ⟨opener, inner, source, pos, all, hall, hcapture, hhead, hblock, hsource⟩ :=
    tokenize_captured hmarker hclosed hown hinside hname stringFile
      (Flattened.ofString ("\x7b% capture " ++ name ++ " %\x7d" ++ text ++
        "\x7b% endcapture %\x7d\x7b\x7b " ++ name ++ " \x7d\x7d")).files hlimit
  have hhandler : (TagRegistry.merged .builtin o.tags).get? opener.name = some Handler.capture := by
    rw [hcapture]
    exact TagRegistry.get?_merged_of_none hfree
  have hverbatim : (TagRegistry.merged .builtin o.tags).kinds.isVerbatim opener.name = true := by
    rw [hcapture]
    exact TagRegistry.isVerbatim_merged (by decide)
  obtain ⟨made, hmade, hprogram⟩ := ok_of_map
    (generate_capture hhandler hverbatim (hhead ▸ hname) name source [] pos hblock _ o.positions)
  rw [hhead, hsource, ofExpression_bound hname, reverse_captured] at hprogram
  rw [render_made_of_string hplace hall hmade
      (notesFilters_plain hprogram (isPlain_capturedBody _ _ _ _ _)), hprogram]
  have hreads : ReadsJust name name := hcomes.readsJust hname
  exact congrArg Reading.ofExcept (rendered_capturedBody _ _ _ _ _ _ _ hreads rfl)

/-- A text without markers that can be cut into tokens, does not end in a brace and does not hold the
tag that closes the block renders as it is between the tags of a raw text, and where the name is
written to which it was captured, as long as the name comes back. What else the text holds does not
matter, and neither do the bindings, as long as they are bindings. -/
theorem render_verbatim (hplace : o.place = .ok none) (hmarker : ¬ ['{', '#'] <:+: text.toList)
    (hclosed : text.toList.getLast? ≠ some '{')
    (hown : tokenize text root files limit = .ok tokens) (bindings : Value) :
    (o.tags.get? "raw" = none → (∀ token ∈ tokens, token.isTag "endraw" = false) →
      tokens.length + 2 ≤ o.tokenLimit →
      render o ("\x7b% raw %\x7d" ++ text ++ "\x7b% endraw %\x7d") bindings =
        Reading.ofExcept ((Template.globalsOf bindings).map fun _ => text)) ∧
    (o.tags.get? "capture" = none → (∀ token ∈ tokens, token.isTag "endcapture" = false) →
      tokens.length + 3 ≤ o.tokenLimit →
      ∀ name, isVariableName name = true → ComesBack name →
      render o ("\x7b% capture " ++ name ++ " %\x7d" ++ text ++
          "\x7b% endcapture %\x7d\x7b\x7b " ++ name ++ " \x7d\x7d") bindings =
        Reading.ofExcept ((Template.globalsOf bindings).map fun _ => text)) :=
  ⟨fun hfree hinside hlimit =>
      render_rawText hplace hfree hmarker hclosed hown hinside hlimit bindings,
    fun hfree hinside hlimit _ hname hcomes =>
      render_captured hplace hfree hmarker hclosed hown hinside hlimit hname hcomes bindings⟩

end

/-- An opener without its end, an end without its opener, a block, an object that is no expression,
and the opener of another verbatim block. -/
def unbalancedText : String :=
  "\x7b% if %\x7d\x7b% endfor %\x7d\x7b% block b %\x7d\x7b\x7b ) \x7d\x7d\x7b% comment %\x7d\n"

theorem render_verbatim_unbalanced : ∃ tokens,
    ¬ ['{', '#'] <:+: unbalancedText.toList ∧ unbalancedText.toList.getLast? ≠ some '{' ∧
    tokenize unbalancedText stringFile {} 6 = .ok tokens ∧
    (∀ token ∈ tokens, token.isTag "endraw" = false) ∧
    (∀ token ∈ tokens, token.isTag "endcapture" = false) ∧
    isVariableName "v" = true ∧ ComesBack "v" ∧
    render { tokenLimit := 8 } ("\x7b% raw %\x7d" ++ unbalancedText ++ "\x7b% endraw %\x7d") .null =
      pure unbalancedText ∧
    render { tokenLimit := 9 } ("\x7b% capture " ++ "v" ++ " %\x7d" ++ unbalancedText ++
        "\x7b% endcapture %\x7d\x7b\x7b " ++ "v" ++ " \x7d\x7d") .null = pure unbalancedText := by
  have hmarker : ¬ ['{', '#'] <:+: unbalancedText.toList := by decide +kernel
  have hclosed : unbalancedText.toList.getLast? ≠ some '{' := by decide +kernel
  have htokens : (tokenize unbalancedText stringFile {} 6).toOption.map (fun tokens =>
      decide ((∀ token ∈ tokens, token.isTag "endraw" = false) ∧
        (∀ token ∈ tokens, token.isTag "endcapture" = false) ∧ tokens.length = 6)) = some true := by
    decide +kernel
  obtain ⟨tokens, hown, hfacts⟩ := ok_of_toOption_map htokens
  obtain ⟨hraw, hcapture, hlength⟩ := of_decide_eq_true hfacts
  exact ⟨tokens, hmarker, hclosed, hown, hraw, hcapture, by decide, by decide,
    (render_verbatim (o := { tokenLimit := 8 }) rfl hmarker hclosed hown .null).1 rfl hraw
      (by rw [hlength]),
    (render_verbatim (o := { tokenLimit := 9 }) rfl hmarker hclosed hown .null).2 rfl hcapture
      (by rw [hlength]) "v" (by decide) (by decide)⟩

end Stencil
