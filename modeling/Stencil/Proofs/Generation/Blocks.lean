import Stencil.Proofs.Generation.Deferred

/-!
# The blocks of programs

* `Occurs` tells which instructions stand in a body, however deep.
* `Filled.spans`: a condition, a case or a loop that occurs in a body was built from the tokens
  between its opener and the closing tag that was found for it.
* `generate_nested`: so it is in all programs, their tokens are properly nested, and the checks of
  the open blocks never fail.
-/

namespace Stencil

/-! ## Occurrences -/

namespace Instruction

/-- The instruction is a condition, a case or a loop. -/
def isBlock : Instruction → Bool
  | choose .. | switch .. | loop .. => true
  | _ => false

/-- The bodies that stand in an instruction. -/
def bodies : Instruction → List (List Instruction)
  | choose branches otherwise => (branches.map fun | .mk _ _ body => body) ++ otherwise.toList
  | switch _ arms => arms.map fun | .mk _ body => body
  | loop _ _ _ _ body => [body]
  | _ => []

theorem bodies_eq_nil {x : Instruction} (h : x.isBlock = false) : x.bodies = [] := by
  cases x <;> first | rfl | cases h

end Instruction

/-- The instruction stands in a body, or in a body of an instruction there. -/
inductive Occurs (x : Instruction) : List Instruction → Prop where
  | here {body : List Instruction} (mem : x ∈ body) : Occurs x body
  | inside {body inner : List Instruction} {y : Instruction} (mem : y ∈ body)
      (within : inner ∈ y.bodies)
      (occurs : Occurs x inner) : Occurs x body

/-- The instruction stands in the main body of a program, or in one of its mixins or blocks. -/
inductive Program.Holds (program : Program) (x : Instruction) : Prop where
  | body (occurs : Occurs x program.body)
  | mixin {e : String × Mixin} (mem : e ∈ program.mixins.entries) (occurs : Occurs x e.2.body)
  | block {e : String × List Instruction} (mem : e ∈ program.blocks.entries) (occurs : Occurs x e.2)

namespace Occurs

variable {x : Instruction} {body more : List Instruction}

theorem mono (h : Occurs x body) (hsub : ∀ y ∈ body, y ∈ more) : Occurs x more := by
  cases h with
  | here mem => exact .here (hsub _ mem)
  | inside mem within occurs => exact .inside (hsub _ mem) within occurs

theorem of_reverse (h : Occurs x body.reverse) : Occurs x body :=
  h.mono fun _ hy => List.mem_reverse.1 hy

/-- Among more instructions, a block stands in one of the two parts. -/
theorem append (h : Occurs x (body ++ more)) : Occurs x body ∨ Occurs x more := by
  cases h with
  | here mem => exact (List.mem_append.1 mem).imp .here .here
  | inside mem within occurs =>
    exact (List.mem_append.1 mem).imp (.inside · within occurs) (.inside · within occurs)

/-- A body of an instruction that stands in another body is within it. -/
theorem deeper {y : Instruction} {inner : List Instruction} (h : Occurs y body)
    (hinner : inner ∈ y.bodies) (hx : Occurs x inner) :
    Occurs x body := by
  induction h with
  | here mem => exact .inside mem hinner hx
  | inside mem within _ ih => exact .inside mem within ih

end Occurs

theorem Program.Holds.deeper {program : Program} {x y : Instruction} {inner : List Instruction}
    (h : program.Holds y) (hinner : inner ∈ y.bodies) (hx : Occurs x inner) : program.Holds x := by
  cases h with
  | body occurs => exact .body (occurs.deeper hinner hx)
  | mixin mem occurs => exact .mixin mem (occurs.deeper hinner hx)
  | block mem occurs => exact .block mem (occurs.deeper hinner hx)

/-- A position comes first, and takes the place of one that is there. -/
theorem Draft.mem_markIn (pos : Pos) (found : List Instruction) :
    ∀ y ∈ Draft.markIn pos found, y ∈ [.position pos] ++ found := by
  intro y hy
  unfold Draft.markIn at hy
  split at hy
  · rcases List.mem_cons.1 hy with rfl | hy
    · exact List.mem_cons_self
    · exact List.mem_cons_of_mem _ (List.mem_cons_of_mem _ hy)
  · exact hy

/-! ## What blocks are built from -/

/-- The bodies of an open block that are complete. -/
def OpenKind.bodies : OpenKind → List (List Instruction)
  | condition _ branches _ => branches.map fun | .mk _ _ body => body
  | case _ arms _ => arms.map fun | .mk _ body => body
  | _ => []

/-- A block has the bodies that were complete, and the last one. -/
theorem OpenKind.mem_bodies {kind : OpenKind} {content inner : List Instruction} {x : Instruction}
    (h : kind.complete? content = some x) :
    inner ∈ x.bodies ↔ inner ∈ kind.bodies ∨ inner = content.reverse := by
  cases kind with
  | root => cases h
  | condition kind branches current =>
    cases current <;> cases h <;> simp [Instruction.bodies, bodies, or_comm]
  | case subject arms current =>
    cases current with
    | none => cases h
    | some label =>
      cases h
      simp [Instruction.bodies, bodies, or_comm]
  | loop =>
    cases h
    simp [Instruction.bodies, bodies]

/-- A block was built from the tokens between its opener and the closing tag found for it. -/
inductive Spans (env : DraftEnv) (L : String → Prop) (A : Nat → Scope → Prop) (x : Instruction) :
    Prop where
  | mk {σ : Scope} {k stop : Nat} {kind : OpenKind} {content : List Instruction} {tag : Tag}
      (here : env.token? k = some (.tag tag)) (opener : tag.name = kind.opener)
      (finds : ∀ d : Draft, d.idx = k → env.findTag d (closerOf tag.name) = .ok stop)
      (body : Filled env L A σ (k + 1) kind content stop)
      (complete : kind.complete? content = some x)

theorem DraftEnv.findTag_eq {env : DraftEnv} {name : String} {k stop : Nat}
    (h : closingTag env.kinds env.tokens name k = .ok stop) (d : Draft) (hd : d.idx = k) :
    env.findTag d name = .ok stop := by
  rw [findTag, hd, h]
  rfl

section

variable {env : DraftEnv} {L : String → Prop} {A : Nat → Scope → Prop} {σ : Scope}
  {x : Instruction}

theorem Leaf.not_block {i j : Nat} {added : List Instruction} (h : Leaf env L σ i added j) :
    ∀ y ∈ added, y.isBlock = false := by
  intro y hy
  cases h with
  | text =>
    split at hy
    · exact absurd hy List.not_mem_nil
    · rw [List.mem_singleton.1 hy]
      rfl
  | raw =>
    split at hy
    · exact absurd hy List.not_mem_nil
    · rw [List.mem_singleton.1 hy]
      rfl
  | block _ _ _ adds =>
    rcases adds with rfl | rfl
    · exact absurd hy List.not_mem_nil
    · rw [List.mem_singleton.1 hy]
      rfl
  | comment | mixin | trim => exact absurd hy List.not_mem_nil
  | object | assign | capture | script | «break» | «continue» | callMixin =>
    rw [List.mem_singleton.1 hy]
    rfl

/-- Turning to the next body completes the one before. -/
theorem Turns.mem_bodies {i : Nat} {found inner : List Instruction} {kind next : OpenKind}
    (h : Turns env L σ i found kind next) (hinner : inner ∈ next.bodies) :
    inner ∈ kind.bodies ∨ inner = found.reverse := by
  cases h with
  | elseIf => exact (List.mem_cons.1 hinner).symm
  | otherwise => exact (List.mem_cons.1 hinner).symm
  | firstArm => exact .inl hinner
  | arm => exact (List.mem_cons.1 hinner).symm

/-- What an instruction of a body comes from: a token between two indices, or the tokens of a
block. -/
inductive Arises (env : DraftEnv) (L : String → Prop) (A : Nat → Scope → Prop) (start stop : Nat)
    (x : Instruction) : Prop where
  | position {pos : Pos} (eq : x = .position pos)
  | leaf {σ : Scope} {k j : Nat} {added : List Instruction} (leaf : Leaf env L σ k added j)
      (held : A k σ) (mem : x ∈ added) (le : start ≤ k) (lt : k < stop)
  | block (spans : Spans env L A x)

theorem Arises.mono {start stop start' stop' : Nat} (h : Arises env L A start stop x)
    (hstart : start' ≤ start) (hstop : stop ≤ stop') : Arises env L A start' stop' x := by
  cases h with
  | position eq => exact .position eq
  | leaf leaf held mem le lt => exact .leaf leaf held mem (by omega) (by omega)
  | block spans => exact .block spans

/-- Every instruction in a body comes from the tokens that filled it. -/
theorem Filled.arises (hkinds : env.kinds = TagRegistry.builtin.kinds) {start i : Nat}
    {kind : OpenKind} {found : List Instruction} (hstart : start ≤ env.tokens.length)
    (h : Filled env L A σ start kind found i)
    (hin : Occurs x found ∨ ∃ inner ∈ kind.bodies, Occurs x inner) :
    Arises env L A start i x := by
  have not_nil (hocc : Occurs x []) : False := by
    cases hocc with
    | here mem => exact absurd mem List.not_mem_nil
    | inside mem => exact absurd mem List.not_mem_nil
  induction h with
  | root =>
    rcases hin with hocc | ⟨inner, hinner, _⟩
    · exact (not_nil hocc).elim
    · exact absurd hinner List.not_mem_nil
  | opened opens _ =>
    rcases hin with hocc | ⟨inner, hinner, _⟩
    · exact (not_nil hocc).elim
    · cases opens <;> exact absurd hinner List.not_mem_nil
  | @mark _ start i kind found token filled _ _ ih =>
    rcases hin with hocc | hinner
    · rcases (hocc.mono (Draft.mem_markIn token.pos found)).append with hpos | hocc
      · cases hpos with
        | here mem => exact .position (List.mem_singleton.1 mem)
        | inside mem within =>
          rw [List.mem_singleton.1 mem] at within
          exact absurd within List.not_mem_nil
      · exact ih hstart (.inl hocc)
    · exact ih hstart (.inr hinner)
  | @leaf _ start i j kind found added filled leaf held ih =>
    obtain ⟨hle, hi, _⟩ := filled.wellNested hkinds hstart
    obtain ⟨hlt, _, _⟩ := leaf.wellNested hkinds
    rcases hin with hocc | hinner
    · rcases hocc.append with hadded | hocc
      · cases hadded.of_reverse with
        | here mem => exact .leaf leaf held mem hle hlt
        | inside mem within =>
          rw [Instruction.bodies_eq_nil (leaf.not_block _ mem)] at within
          exact absurd within List.not_mem_nil
      · exact (ih hstart (.inl hocc)).mono (Nat.le_refl _) (Nat.le_of_lt hlt)
    · exact (ih hstart (.inr hinner)).mono (Nat.le_refl _) (Nat.le_of_lt hlt)
  | @nested _ start i stop kind inner found content tag instruction filled here opener closes body
      complete ih ihbody =>
    obtain ⟨hle, _, _⟩ := filled.wellNested hkinds hstart
    obtain ⟨hk, _⟩ := List.getElem?_eq_some_iff.1 here
    have hlt := (body.wellNested hkinds hk).1
    rcases hin with hocc | hinner
    · rcases (show Occurs x ([_] ++ _) from hocc).append with hblock | hocc
      · cases hblock with
        | here mem =>
          obtain rfl := List.mem_singleton.1 mem
          refine .block (.mk here opener ?_ body complete)
          rw [opener]
          exact DraftEnv.findTag_eq closes
        | inside mem within occurs =>
          obtain rfl := List.mem_singleton.1 mem
          refine (ihbody hk ?_).mono (Nat.le_succ_of_le hle) (Nat.le_succ _)
          rcases (OpenKind.mem_bodies complete).1 within with hinner | rfl
          · exact .inr ⟨_, hinner, occurs⟩
          · exact .inl occurs.of_reverse
      · exact (ih hstart (.inl hocc)).mono (Nat.le_refl _) (by omega)
    · exact (ih hstart (.inr hinner)).mono (Nat.le_refl _) (by omega)
  | turn _ turns _ ih =>
    rcases hin with hocc | ⟨inner, hinner, hocc⟩
    · exact (not_nil hocc).elim
    · rcases turns.mem_bodies hinner with hinner | rfl
      · exact (ih hstart (.inr ⟨inner, hinner, hocc⟩)).mono (Nat.le_refl _) (Nat.le_succ _)
      · exact (ih hstart (.inl hocc.of_reverse)).mono (Nat.le_refl _) (Nat.le_succ _)

theorem Spans.isBlock (h : Spans env L A x) : x.isBlock = true := by
  obtain @⟨_, _, _, kind, _, _, _, _, _, _, complete⟩ := h
  unfold OpenKind.complete? at complete
  split at complete <;> cases complete <;> rfl

/-- A tag that calls a block has the name of the block. -/
theorem Leaf.callBlock {k j : Nat} {added : List Instruction} {name : String}
    (h : Leaf env L σ k added j) (hmem : .callBlock name ∈ added) :
    ∃ tag, env.token? k = some (.tag tag) ∧ tag.name = "block" ∧ blockName? tag = some name := by
  cases h with
  | block here hblock reads adds =>
    rcases adds with rfl | rfl
    · exact absurd hmem List.not_mem_nil
    · cases List.mem_singleton.1 hmem
      exact ⟨_, here, hblock, reads⟩
  | text | raw =>
    split at hmem
    · exact absurd hmem List.not_mem_nil
    · cases List.mem_singleton.1 hmem
  | comment | mixin | trim => exact absurd hmem List.not_mem_nil
  | object | assign | capture | script | «break» | «continue» | callMixin =>
    cases List.mem_singleton.1 hmem

/-- A call of a block comes from a tag of that block. -/
theorem Arises.callBlock {start stop : Nat} {name : String}
    (h : Arises env L A start stop (.callBlock name)) :
    ∃ k σ tag, start ≤ k ∧ k < stop ∧ A k σ ∧ env.token? k = some (.tag tag) ∧
      tag.name = "block" ∧ blockName? tag = some name := by
  cases h with
  | position eq => cases eq
  | block spans => cases spans.isBlock
  | leaf leaf held mem le lt =>
    obtain ⟨tag, here, hblock, hname⟩ := leaf.callBlock mem
    exact ⟨_, _, tag, le, lt, held, here, hblock, hname⟩

/-- Every instruction in a program comes from its tokens. -/
theorem Made.arises {program : Program} (hkinds : env.kinds = TagRegistry.builtin.kinds)
    (h : Made env L A program) (holds : program.Holds x) :
    Arises env L A 0 env.tokens.length x := by
  have becomes {opener name : String} {body : Deferred} {instructions : List Instruction}
      (hbehind : LeftBehind env A opener name body)
      (hbecomes : body.Becomes env L A (Scope.behind {} program.body) instructions)
      (hocc : Occurs x instructions) : Arises env L A 0 env.tokens.length x := by
    obtain ⟨k, tag, _, defers, _⟩ := hbehind
    obtain ⟨found, rfl, filled⟩ := hbecomes
    have hstart := defers.start_le
    exact (filled.arises hkinds hstart (.inl hocc.of_reverse)).mono (Nat.zero_le _)
      (filled.wellNested hkinds hstart).2.1
  cases holds with
  | body occurs =>
    obtain ⟨found, hbody, filled⟩ := h.body
    rw [hbody] at occurs
    exact filled.arises hkinds (Nat.zero_le _) (.inl occurs.of_reverse)
  | mixin mem occurs =>
    obtain ⟨_, hbehind, _, hbecomes⟩ := h.calls.mixins _ mem
    exact becomes hbehind hbecomes occurs
  | block mem occurs =>
    obtain ⟨_, hbehind, hbecomes⟩ := h.calls.blocks _ mem
    exact becomes hbehind hbecomes occurs

/-- Every block in a program was built from the tokens between its tags. -/
theorem Made.spans {program : Program} (hkinds : env.kinds = TagRegistry.builtin.kinds)
    (h : Made env L A program) (hx : x.isBlock = true) (holds : program.Holds x) :
    Spans env L A x := by
  cases h.arises hkinds holds with
  | position eq =>
    subst eq
    cases hx
  | leaf leaf _ mem =>
    rw [leaf.not_block x mem] at hx
    cases hx
  | block spans => exact spans

/-- The tokens of a program are well nested. -/
theorem Made.wellNested {program : Program} (hkinds : env.kinds = TagRegistry.builtin.kinds)
    (h : Made env L A program) : WellNested TagRegistry.builtin.kinds env.tokens := by
  obtain ⟨found, _, filled⟩ := h.body
  obtain ⟨_, _, hnested⟩ := filled.wellNested hkinds (Nat.zero_le _)
  rwa [between, List.take_length, List.drop_zero] at hnested

end

/-! ## Programs -/

/-- What a program is generated from, when the places of its named blocks have been found. -/
def builtinEnv (tokens : List Token) (files : Files) (positions : Bool) (sites : Sites) : DraftEnv :=
  ⟨tokens, files, TagRegistry.builtin.kinds, positions, sites⟩

/-- The generator of such a program. -/
def builtinGenerator (tokens : List Token) (files : Files) (positions : Bool) (sites : Sites) :
    Generator :=
  ⟨builtinEnv tokens files positions sites, .builtin⟩

/-- When the places of its named blocks have been found, a program is generated with them. -/
theorem generate_eq {tokens : List Token} {files : Files} {positions : Bool} {sites : Sites}
    (h : blockSites TagRegistry.builtin.kinds tokens = .ok sites) :
    generate tokens files .builtin positions =
      (builtinGenerator tokens files positions sites).generate := by
  unfold generate
  rw [h]
  rfl

/-- A program that is generated with the built-in tags is made of its tokens. -/
theorem generate_settles (tokens : List Token) (files : Files) (positions : Bool) :
    Settles (fun made => ∃ sites, blockSites TagRegistry.builtin.kinds tokens = .ok sites ∧
      Made (builtinEnv tokens files positions sites) (· ∈ made.locals)
        (builtinGenerator tokens files positions sites).HeldAt made.program)
      (generate tokens files .builtin positions) := by
  unfold generate
  split
  · exact .error rfl
  · next sites hsites =>
    have hsettles := Generator.generate_settles
      (g := builtinGenerator tokens files positions sites) ⟨rfl, rfl⟩
    exact hsettles.mono fun made hmade => ⟨sites, hsites, hmade⟩

/-- What is generated is properly nested, every condition, case or loop was built from the tokens
between its opener and the closing tag that was found there, and no check of the open blocks ever
fails. -/
theorem generate_nested (tokens : List Token) (files : Files) (positions : Bool) :
    (∀ made, generate tokens files .builtin positions = .ok made →
      Nested TagRegistry.builtin.kinds
        (withoutVerbatim TagRegistry.builtin.kinds none tokens) ∧
      ∃ sites, blockSites TagRegistry.builtin.kinds tokens = .ok sites ∧
        ∀ x, made.program.Holds x → x.isBlock = true →
          Spans (builtinEnv tokens files positions sites) (· ∈ made.locals)
            (builtinGenerator tokens files positions sites).HeldAt x) ∧
    (∀ e, generate tokens files .builtin positions = .error e → e.cause.isLate = false) := by
  have hsettles := generate_settles tokens files positions
  constructor
  · intro made hmade
    rw [hmade] at hsettles
    cases hsettles with
    | ok h =>
      obtain ⟨sites, hsites, hmade⟩ := h
      exact ⟨(hmade.wellNested rfl).nested builtin_proper, sites, hsites,
        fun x holds hx => hmade.spans rfl hx holds⟩
  · intro e he
    rw [he] at hsettles
    cases hsettles with
    | error h => exact h

/-- What has been computed of an outcome is true of it. -/
theorem ok_of_toOption_map {ε α β : Type} {x : Except ε α} {f : α → β} {b : β}
    (h : x.toOption.map f = some b) : ∃ a, x = .ok a ∧ f a = b := by
  cases x with
  | error e => cases h
  | ok a => exact ⟨a, rfl, Option.some.inj h⟩

/-- A tag without filters, at an offset of a template without files. -/
def tagAt (offset : Nat) (name head source : String) : Token :=
  .tag ⟨name, head, head, [], source, ⟨stringFile, offset⟩⟩

/-- A condition around a raw text that looks like its closing tag. -/
def rawInCondition : List Token :=
  [tagAt 0 "if" "x" "\x7b% if x %\x7d", tagAt 10 "raw" "" "\x7b% raw %\x7d",
    tagAt 19 "endif" "" "\x7b% endif %\x7d", tagAt 30 "endraw" "" "\x7b% endraw %\x7d",
    tagAt 42 "endif" "" "\x7b% endif %\x7d"]

theorem generate_nested_rawInCondition :
    (∃ made sites x, generate rawInCondition {} .builtin false = .ok made ∧
      Nested TagRegistry.builtin.kinds
        (withoutVerbatim TagRegistry.builtin.kinds none rawInCondition) ∧
      made.program.Holds x ∧ x.isBlock = true ∧
      Spans (builtinEnv rawInCondition {} false sites) (· ∈ made.locals)
        (builtinGenerator rawInCondition {} false sites).HeldAt x) ∧
    ∃ e, generate (rawInCondition.drop 1) {} .builtin false = .error e ∧ e.cause.isLate = false := by
  constructor
  · have hblock : (generate rawInCondition {} .builtin false).toOption.map
        (·.program.body.any Instruction.isBlock) = some true := by decide +kernel
    cases hmade : generate rawInCondition {} .builtin false with
    | error e =>
      rw [hmade] at hblock
      cases hblock
    | ok made =>
      rw [hmade] at hblock
      obtain ⟨x, hmem, hx⟩ := List.any_eq_true.1 (Option.some.inj hblock)
      have holds : made.program.Holds x := .body (.here hmem)
      obtain ⟨hnested, sites, _, hspans⟩ := (generate_nested rawInCondition {} false).1 made hmade
      exact ⟨made, sites, x, rfl, hnested, holds, hx, hspans x holds hx⟩
  · have hfails : (generate (rawInCondition.drop 1) {} .builtin false).isOk = false := by
      decide +kernel
    cases hmade : generate (rawInCondition.drop 1) {} .builtin false with
    | ok made =>
      rw [hmade] at hfails
      cases hfails
    | error e => exact ⟨e, rfl, (generate_nested (rawInCondition.drop 1) {} false).2 e hmade⟩

end Stencil
