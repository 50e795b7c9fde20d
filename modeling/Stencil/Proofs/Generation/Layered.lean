import Stencil.Proofs.Generation.Lockstep
import Stencil.Proofs.Generation.Points

/-!
# Blocks and frames in layers

Every block that is open was opened by a tag of the body that is being generated, and around it are the
blocks and the frames that were there before the tag, with one frame more for the block. `Layered`
keeps the drafts from which these tags were handled, and a property that they have.

* `Layered.refill`, `Layered.opens`, `Layered.turns`, `Layered.closes`: how layers come and go.
* `Layered.depth_eq`: there are as many frames as open blocks.
* `Generator.Begins.induct`: what every token keeps up holds in all of a body.
* `Generator.step_layered`: every token keeps up the layers, and a closing tag leaves the scope of the
  opener behind.
* `Change.role`: what a tag does to the open blocks and to the scope, told by its name.
* `generate_inStep`: so scopes and open blocks go in step wherever a token is handled.
-/

namespace Stencil

/-! ## Frames -/

namespace Scope

variable {σ σ' : Scope}

/-- The scope has one frame more than another. -/
def Above (σ₀ σ : Scope) : Prop := ∃ frame, σ.frames = frame :: σ₀.frames

namespace Above

variable {σ₀ : Scope}

theorem depth (h : Above σ₀ σ) : σ.depth = σ₀.depth + 1 := by
  obtain ⟨frame, hframes⟩ := h
  rw [Scope.depth, hframes]
  rfl

/-- Names are bound in the innermost frame. -/
theorem addAll (h : Above σ₀ σ) (names : List String) : Above σ₀ (σ.addAll names) := by
  obtain ⟨frame, hframes⟩ := h
  obtain ⟨frames⟩ := σ
  obtain rfl : frames = frame :: σ₀.frames := hframes
  rw [addAll_frames]
  exact ⟨_, rfl⟩

theorem create (σ₀ : Scope) : Above σ₀ σ₀.create := ⟨_, rfl⟩

theorem destroy (h : Above σ₀ σ) (hpos : 0 < σ₀.depth) : σ.destroy = σ₀ := by
  obtain ⟨frame, hframes⟩ := h
  obtain ⟨frames⟩ := σ
  obtain ⟨outer⟩ := σ₀
  obtain rfl : frames = frame :: outer := hframes
  cases outer with
  | nil => exact absurd hpos (Nat.lt_irrefl 0)
  | cons => rfl

end Above

end Scope

/-! ## Layers -/

/-- A tag opens a block of a kind from a draft, and what stands between the tag and the token at an
index is well nested. -/
structure OpenedAt (env : DraftEnv) (opened : Draft) (kind : OpenKind) (tag : Tag) (i : Nat) :
    Prop where
  here : env.token? opened.idx = some (.tag tag)
  opener : tag.name = kind.opener
  inner : kind ≠ .root
  closes : ∃ stop, closingTag env.kinds env.tokens (closerOf kind.opener) opened.idx = .ok stop
  lt : opened.idx < i
  nested : WellNested TagRegistry.builtin.kinds (between env.tokens (opened.idx + 1) i)

/-- The open blocks of a body that begins at `start` above the blocks `below`. The innermost one is open
from the token `first` on. `P` holds of the drafts from which the blocks were opened. -/
inductive Layered (env : DraftEnv) (P : Nat → Draft → Prop) (start : Nat) (below : List OpenBlock) :
    Nat → List OpenBlock → Scope → Nat → Prop where
  | ground {found : List Instruction} {σ : Scope} {i : Nat} (depth : σ.depth = below.length + 1) :
      Layered env P start below start (⟨.root, found⟩ :: below) σ i
  | block {first i : Nat} {opened : Draft} {kind : OpenKind} {found : List Instruction} {tag : Tag}
      {σ : Scope} (around : Layered env P start below first opened.stack opened.scope opened.idx)
      (held : P first opened) (opens : OpenedAt env opened kind tag i)
      (frame : opened.scope.Above σ) :
      Layered env P start below (opened.idx + 1) (⟨kind, found⟩ :: (opened.mark env tag.pos).stack)
        σ i

/-- The outermost block has no tag. -/
theorem Opens.inner {env : DraftEnv} {L : String → Prop} {σ : Scope} {i : Nat} {kind : OpenKind}
    (h : Opens env L σ i kind) : kind ≠ .root := by
  rintro rfl
  cases h

namespace Draft

theorem depth_eq_length (d : Draft) : d.depth = d.stack.length := by
  rw [depth, stack, List.length_append, List.length_singleton]

theorem top_of_stack {d : Draft} {b : OpenBlock} {outer : List OpenBlock} (h : d.stack = b :: outer) :
    d.top = b := by
  rw [stack_eq] at h
  exact (List.cons.inj h).1

/-- A position goes to the innermost block. -/
theorem stack_mark_eq (d : Draft) (env : DraftEnv) (pos : Pos) :
    (d.mark env pos).stack = ⟨d.top.kind, (d.mark env pos).top.found⟩ :: d.stack.tail := by
  have hmarked := (d.mark env pos).stack_eq
  by_cases hpositions : env.positions = true
  · have hstack := stack_mark hpositions d pos
    rw [hmarked] at hstack
    obtain ⟨hblock, htail⟩ := List.cons.inj hstack
    rw [hmarked, htail, (OpenBlock.mk.inj hblock).1]
  · rw [mark, if_neg hpositions]
    exact d.stack_eq

end Draft

namespace OpenedAt

variable {env : DraftEnv} {opened : Draft} {kind : OpenKind} {tag : Tag} {i j : Nat}

/-- What comes behind may be well nested too. -/
theorem across (h : OpenedAt env opened kind tag i) (hle : i ≤ j)
    (hnested : WellNested TagRegistry.builtin.kinds (between env.tokens i j)) :
    OpenedAt env opened kind tag j where
  here := h.here
  opener := h.opener
  inner := h.inner
  closes := h.closes
  lt := Nat.lt_of_lt_of_le h.lt hle
  nested := by
    rw [← between_append h.lt hle]
    exact h.nested.append hnested

/-- The closing tag was found when the block was opened. -/
theorem closer (h : OpenedAt env opened kind tag i) (hkinds : env.kinds = TagRegistry.builtin.kinds)
    {closer : Tag} (here : env.token? i = some (.tag closer))
    (hcloser : closer.name = closerOf kind.opener) :
    closingTag env.kinds env.tokens closer.name opened.idx = .ok i := by
  obtain ⟨stop, hstop⟩ := h.closes
  have hclose := hstop
  rw [hkinds] at hclose
  obtain ⟨_, rfl⟩ := closer_eq builtin_proper (isCloser_closerOf _) hclose h.lt h.nested here
    (hcloser ▸ isCloser_closerOf _)
  rw [hcloser]
  exact hstop

end OpenedAt

namespace Layered

variable {env : DraftEnv} {P : Nat → Draft → Prop} {start first i j : Nat}
  {below outer : List OpenBlock} {kind next : OpenKind} {found : List Instruction} {σ σ' : Scope}
  {found' : List Instruction} {L : String → Prop}

/-- There are as many frames as open blocks. -/
theorem depth_eq {stack : List OpenBlock} (h : Layered env P start below first stack σ i) :
    σ.depth = stack.length := by
  induction h with
  | ground depth => exact depth
  | @block _ _ opened _ _ tag _ _ _ _ frame ih =>
    rw [frame.depth, ih, List.length_cons, opened.stack_mark_eq, opened.stack_eq]
    rfl

theorem depth_pos {stack : List OpenBlock} (h : Layered env P start below first stack σ i) :
    0 < σ.depth := by
  rw [h.depth_eq]
  cases h with
  | ground | block => exact Nat.succ_pos _

/-- The instructions of the innermost block do not matter, nor do the names in its frame. -/
theorem refill (h : Layered env P start below first (⟨kind, found⟩ :: outer) σ i)
    (found' : List Instruction) (hdepth : σ'.depth = σ.depth)
    (hframe : ∀ σ₀ : Scope, σ₀.Above σ → σ₀.Above σ') (hle : i ≤ j)
    (hnested : WellNested TagRegistry.builtin.kinds (between env.tokens i j)) :
    Layered env P start below first (⟨kind, found'⟩ :: outer) σ' j := by
  cases h with
  | ground depth => exact .ground (hdepth.trans depth)
  | block around held opens frame =>
    exact .block around held (opens.across hle hnested) (hframe _ frame)

/-- A token adds instructions to the innermost block, and names to its frame. -/
theorem leaf {added : List Instruction} (hkinds : env.kinds = TagRegistry.builtin.kinds)
    (h : Layered env P start below first (⟨kind, found⟩ :: outer) σ i)
    (hleaf : Leaf env L σ i added j) (found' : List Instruction) :
    Layered env P start below first (⟨kind, found'⟩ :: outer) (σ.behind added) j := by
  obtain ⟨hlt, _, hnested⟩ := hleaf.wellNested hkinds
  exact h.refill found' (Scope.depth_behind σ added) (fun _ hframe => hframe.addAll _)
    (Nat.le_of_lt hlt) hnested

/-- A tag opens a block in the innermost one. -/
theorem opens {opened : Draft} {tag : Tag} {stop : Nat}
    (h : Layered env P start below first opened.stack opened.scope opened.idx) (held : P first opened)
    (here : env.token? opened.idx = some (.tag tag)) (opener : tag.name = kind.opener)
    (inner : kind ≠ .root)
    (closes : closingTag env.kinds env.tokens (closerOf kind.opener) opened.idx = .ok stop) :
    Layered env P start below (opened.idx + 1) (⟨kind, []⟩ :: (opened.mark env tag.pos).stack)
      (kind.scope opened.scope) (opened.idx + 1) := by
  refine .block h held ⟨here, opener, inner, ⟨stop, closes⟩, Nat.lt_succ_self _, ?_⟩ ?_
  · rw [between_self]
    exact .nil
  · obtain ⟨names, hscope⟩ := kind.scope_eq inner opened.scope
    rw [hscope]
    exact (Scope.Above.create _).addAll names

/-- A tag starts another branch or arm of the innermost block. The frame of a branch is a new one. -/
theorem turns (h : Layered env P start below first (⟨kind, found⟩ :: outer) σ i)
    (hturns : Turns env L σ' i found' kind next) :
    Layered env P start below first (⟨next, []⟩ :: outer) (kind.turnScope σ) (i + 1) := by
  have hnext : next.opener = kind.opener ∧ next ≠ .root := by
    cases hturns <;> exact ⟨rfl, fun h => by cases h⟩
  cases h with
  | ground => cases hturns
  | @block _ _ opened _ _ tag _ around held opens frame =>
    have hopens := opens.across (Nat.le_succ i) hturns.wellNested.2.2
    have hframe : opened.scope.Above (kind.turnScope σ) := by
      cases kind with
      | condition =>
        rw [OpenKind.turnScope, frame.destroy around.depth_pos]
        exact .create _
      | root | case | loop => exact frame
    exact .block around held { hopens with
      opener := hopens.opener.trans hnext.1.symm, inner := hnext.2, closes := hnext.1 ▸ hopens.closes }
      hframe

/-- A closing tag completes the innermost block, which is one more instruction of the block around. -/
theorem closes {opened : Draft} {opener closer : Tag} (x : Instruction)
    (h : Layered env P start below first opened.stack opened.scope opened.idx)
    (hopens : OpenedAt env opened kind opener i) (here : env.token? i = some (.tag closer))
    (hcloser : closer.name = closerOf kind.opener) :
    Layered env P start below first
      (⟨opened.top.kind, x :: (opened.mark env opener.pos).top.found⟩ :: opened.stack.tail)
      opened.scope (i + 1) := by
  rw [opened.stack_eq] at h
  exact h.refill _ rfl (fun _ hframe => hframe) (Nat.le_succ_of_le (Nat.le_of_lt hopens.lt))
    (wellNested_closed hopens.here hopens.opener hopens.inner hopens.lt hopens.nested here hcloser)

/-- The block of which another branch or arm is started has been opened before. -/
theorem opened (h : Layered env P start below first (⟨kind, found⟩ :: outer) σ i)
    (hkind : kind ≠ .root) : ∃ before opened tag, P before opened ∧
      Layered env P start below before opened.stack opened.scope opened.idx ∧
      OpenedAt env opened kind tag i ∧ opened.scope.Above σ ∧ first = opened.idx + 1 ∧
      outer = (opened.mark env tag.pos).stack := by
  cases h with
  | ground => exact absurd rfl hkind
  | block around held opens frame => exact ⟨_, _, _, held, around, opens, frame, rfl, rfl⟩

/-- The outermost block is open from the start of the body on. -/
theorem first_eq (h : Layered env P start below first (⟨.root, found⟩ :: outer) σ i) :
    first = start := by
  cases h with
  | ground => rfl
  | block _ _ opens => exact absurd rfl opens.inner

end Layered

/-! ## What tokens keep up -/

namespace Generator

variable {g : Generator} {d₀ d next : Draft} {token : Token}

/-- The generator comes from one draft to another, and handles the token there. -/
structure Passes (g : Generator) (d₀ d : Draft) (token : Token) (next : Draft) : Prop where
  reached : g.generateRange d.idx d₀ = .ok d
  here : g.env.token? d.idx = some token
  step : g.step token d = .ok next

/-- The draft behind a token is reached as well. -/
theorem Passes.reached_next (h : g.Passes d₀ d token next) (hlt : d.idx < next.idx) :
    g.generateRange next.idx d₀ = .ok next := by
  rw [generateRange_split (Nat.le_of_lt hlt), h.reached]
  show g.generateRange next.idx d = _
  rw [generateRange_next hlt h.here h.step hlt]
  exact generateRange_of_le g (Nat.le_refl _)

/-- What holds where a body begins, and is kept up by every token, holds in all of the body. -/
theorem Begins.induct {I : Draft → Prop} {before : List Nat} {start stop : Nat} {mid : Draft}
    (hg : g.IsBuiltin) (h : g.Begins before start stop d₀) (hI : I d₀)
    (hstep : ∀ d token next, g.Passes d₀ d token next →
      Effect g.env ({ d with trimNext := false }.mark g.env token.pos) next → I d → I next)
    (hle : mid.idx ≤ stop) (hmid : g.generateRange mid.idx d₀ = .ok mid) : I mid := by
  obtain ⟨τ, below, hτ, hends, _, _, hgoing⟩ := h.going hg
  -- The drafts on the way go on from `d₀`, so that every one of them is reached from there.
  suffices hsuff : ∀ d, Going g.env d₀ (fun _ _ => True) τ start below d →
      g.generateRange d.idx d₀ = .ok d → I d → g.generateRange mid.idx d = .ok mid → I mid from
    hsuff d₀ hgoing (generateRange_of_le g (Nat.le_refl _)) hI hmid
  intro d hgoing hreached hI hmid
  fun_induction generateRange g mid.idx d with
  | case1 | case5 =>
    obtain rfl := Except.ok.inj hmid
    exact hI
  | case2 | case4 => cases hmid
  | case3 d hlt token here next hstep' hnext ih =>
    have hpasses : g.Passes d₀ d token next := ⟨hreached, here, hstep'⟩
    have hbefore : d.idx < stop := Nat.lt_of_lt_of_le hlt hle
    have heffect := (step_effect hg hends hgoing hbefore here trivial).get hstep'
    exact ih ((step_settles hg hτ hends hgoing hbefore here trivial).get hstep')
      (hpasses.reached_next hnext) (hstep d token next hpasses heffect hI) hmid

/-- What the tokens of a body keep up of the innermost block: `Q` tells it of a block that is open from
one index on, up to another one. -/
structure Keeps (g : Generator) (d₀ : Draft) (Q : Nat → OpenBlock → Nat → Prop) : Prop where
  leaf : ∀ {first d token next added}, g.Passes d₀ d token next → Q first d.top d.idx →
    Leaf g.env (· ∈ next.locals) d.scope d.idx added next.idx →
    next.stack =
      ⟨d.top.kind, added.reverse ++ (d.mark g.env token.pos).top.found⟩ :: d.stack.tail →
    Q first ⟨d.top.kind, added.reverse ++ (d.mark g.env token.pos).top.found⟩ next.idx
  opens : ∀ {i L σ kind}, Opens g.env L σ i kind → Q (i + 1) ⟨kind, []⟩ (i + 1)
  turns : ∀ {first d token next L σ kind}, g.Passes d₀ d token next → Q first d.top d.idx →
    Turns g.env L σ d.idx (d.mark g.env token.pos).top.found d.top.kind kind →
    Q first ⟨kind, []⟩ (d.idx + 1)
  closes : ∀ {first d token next opened opener x}, g.Passes d₀ d token next →
    Q (opened.idx + 1) d.top d.idx → g.generateRange opened.idx d₀ = .ok opened →
    Q first opened.top opened.idx → OpenedAt g.env opened d.top.kind opener d.idx →
    closingTag g.env.kinds g.env.tokens (closerOf opener.name) opened.idx = .ok d.idx →
    d.top.kind.complete? (d.mark g.env token.pos).top.found = some x →
    next.idx = d.idx + 1 →
    next.stack =
      ⟨opened.top.kind, x :: (opened.mark g.env opener.pos).top.found⟩ :: opened.stack.tail →
    Q first ⟨opened.top.kind, x :: (opened.mark g.env opener.pos).top.found⟩ (d.idx + 1)

/-- The open blocks of a draft are in layers, each of which was reached from where the body begins. -/
def InLayers (g : Generator) (d₀ : Draft) (Q : Nat → OpenBlock → Nat → Prop) (start : Nat)
    (below : List OpenBlock) (d : Draft) : Prop :=
  ∃ first, Layered g.env (fun first e => g.generateRange e.idx d₀ = .ok e ∧ Q first e.top e.idx)
    start below first d.stack d.scope d.idx ∧ Q first d.top d.idx

section

variable {Q : Nat → OpenBlock → Nat → Prop} {start : Nat} {below : List OpenBlock}

/-- What a token does to the open blocks, with its position in the innermost one. -/
theorem change_marked
    (heffect : Effect g.env ({ d with trimNext := false }.mark g.env token.pos) next) :
    Change g.env (· ∈ next.locals) d.scope d.idx
      (⟨d.top.kind, (d.mark g.env token.pos).top.found⟩ :: d.stack.tail) next.stack next.scope
      next.idx := by
  have hmark : ({ d with trimNext := false }.mark g.env token.pos).stack =
      (d.mark g.env token.pos).stack := by
    unfold Draft.mark
    split
    · rw [Draft.stack_setTop, Draft.stack_setTop]
      rfl
    · rfl
  have hchange := heffect.change
  rw [hmark, Draft.stack_mark_eq, Draft.idx_mark, Draft.scope_mark] at hchange
  exact hchange

/-- A token keeps the layers. -/
theorem step_layered (hg : g.IsBuiltin) (hQ : g.Keeps d₀ Q) (hpasses : g.Passes d₀ d token next)
    (heffect : Effect g.env ({ d with trimNext := false }.mark g.env token.pos) next)
    (h : g.InLayers d₀ Q start below d) : g.InLayers d₀ Q start below next := by
  obtain ⟨first, hlayered, hkept⟩ := h
  have hchange := change_marked heffect
  generalize hstack : next.stack = stack at hchange
  generalize hscope : next.scope = σ at hchange
  generalize hidx : next.idx = i at hchange
  generalize htail : d.stack.tail = tail at hchange
  rw [d.stack_eq, htail] at hlayered
  rw [InLayers, hstack, hscope, hidx]
  cases hchange with
  | leaf leaf =>
    rw [Draft.top_of_stack hstack]
    subst htail
    exact ⟨first, hlayered.leaf hg.kinds leaf _, hidx ▸ hQ.leaf hpasses hkept (hidx ▸ leaf) hstack⟩
  | @opens _ kind tag stop here opener opens closes =>
    rw [Draft.top_of_stack hstack]
    obtain rfl := Option.some.inj (hpasses.here.symm.trans here)
    rw [← htail, ← d.stack_eq] at hlayered
    have hopened := hlayered.opens ⟨hpasses.reached, hkept⟩ here opener opens.inner closes
    rw [Draft.stack_mark_eq, htail] at hopened
    exact ⟨_, hopened, hQ.opens opens⟩
  | turns turns =>
    rw [Draft.top_of_stack hstack]
    exact ⟨first, hlayered.turns turns, hQ.turns hpasses hkept turns⟩
  | @closes _ around found _ outer tag x here closer complete =>
    -- What is left is the layer from which the block was opened, with the position of the opener.
    have hinner : d.top.kind ≠ .root := fun hroot => by rw [hroot] at complete; cases complete
    obtain ⟨before, opened, opener, ⟨hreached, hheld⟩, hbelow, hopens, hframe, rfl, houter⟩ :=
      hlayered.opened hinner
    rw [opened.stack_mark_eq] at houter
    obtain ⟨hblock, rfl⟩ := List.cons.inj houter
    obtain ⟨rfl, rfl⟩ := OpenBlock.mk.inj hblock
    have hcloses := hopens.closer hg.kinds here closer
    rw [Draft.top_of_stack hstack, hframe.destroy hbelow.depth_pos]
    rw [closer, ← hopens.opener] at hcloses
    exact ⟨before, hbelow.closes x hopens here closer,
      hQ.closes hpasses hkept hreached hheld hopens hcloses complete hidx hstack⟩

/-- A body begins with its outermost block, above those that were open before. -/
theorem Begins.grounded {before : List Nat} {stop : Nat} (hg : g.IsBuiltin)
    (h : g.Begins before start stop d₀) (hstart : Q start ⟨.root, []⟩ start) :
    ∃ below, g.InLayers d₀ Q start below d₀ := by
  cases h with
  | main => exact ⟨[], 0, .ground rfl, hstart⟩
  | @deferred main d program rounds body first done next =>
    obtain ⟨found, hbetween⟩ := (generateMain_outside hg).get first
    have hresting := ((generateDeferred_outside hg hbetween rounds).get done).resting
    have hdepth : (d.begin body).scope.depth = d.stack.length + 1 := by
      show (d.scope.create.addAll body.params).depth = _
      rw [Scope.depth_addAll, Scope.depth_create, hresting.scope, Scope.depth_behind, hresting.stack]
      rfl
    exact ⟨d.stack, body.start, .ground hdepth, hstart⟩

/-- In all of a body the open blocks are in layers. -/
theorem Begins.layered {before : List Nat} {stop : Nat} {mid : Draft} (hg : g.IsBuiltin)
    (h : g.Begins before start stop d₀) (hQ : g.Keeps d₀ Q) (hstart : Q start ⟨.root, []⟩ start)
    (hle : mid.idx ≤ stop) (hmid : g.generateRange mid.idx d₀ = .ok mid) :
    ∃ below, g.InLayers d₀ Q start below mid := by
  obtain ⟨below, hgrounded⟩ := h.grounded hg hstart
  exact ⟨below, h.induct hg hgrounded (fun _ _ _ => step_layered hg hQ) hle hmid⟩

end

end Generator

/-! ## Tags -/

/-- The tags whose blocks are open while their bodies are generated. -/
def frameTags : List String := ["if", "unless", "case", "for"]

/-- The tags that start another branch of a condition. -/
def branchTags : List String := ["elseif", "elsif", "else"]

/-- What the name of a tag tells about the blocks that are open. -/
inductive TagRole where
  | opens
  | turns
  | closes
  | alone
  deriving DecidableEq

/-- A closing tag may have any name that begins like one. -/
def TagRole.ofName (name : String) : TagRole :=
  if name ∈ frameTags then .opens
  else if isCloser name then .closes
  else if name ∈ turningTags then .turns
  else .alone

namespace TagRole

variable {name : String}

theorem of_frames (h : name ∈ frameTags) : ofName name = .opens := if_pos h

theorem of_closer (h : isCloser name = true) : ofName name = .closes := by
  have hframes : name ∉ frameTags := by
    intro hmem
    have hnone : ∀ name ∈ frameTags, isCloser name = false := by decide
    rw [hnone _ hmem] at h
    cases h
  rw [ofName, if_neg hframes, if_pos h]

theorem of_branch (h : name ∈ branchTags) : ofName name = .turns := by
  have hall : ∀ name ∈ branchTags, ofName name = .turns := by decide
  exact hall _ h

/-- The calls of mixins open nothing, whatever they are called. -/
theorem of_plus (h : TagRegistry.handlerName name = "+") : ofName name = .alone := by
  have hhead := head_of_handlerName h
  have hcloser : isCloser name = false := by
    obtain ⟨rest, hname⟩ := List.head?_eq_some_iff.1 hhead
    rw [isCloser, hname]
    rfl
  have hnone : ∀ name ∈ frameTags ++ turningTags, name.toList.head? ≠ some '+' := by decide
  rw [ofName, if_neg fun hmem => hnone _ (List.mem_append_left _ hmem) hhead, hcloser,
    if_neg fun hmem => hnone _ (List.mem_append_right _ hmem) hhead]
  rfl

end TagRole

/-- How many blocks are open behind a tag depends on its role. -/
theorem Tag.depthBehind_eq (tag : Tag) (k : Nat) : tag.depthBehind k =
    match TagRole.ofName tag.name with
    | .opens => k + 1
    | .closes => k - 1
    | .turns | .alone => k := by
  have hbehind : tag.depthBehind k =
      if tag.name ∈ frameTags then k + 1 else if isCloser tag.name then k - 1 else k := rfl
  rw [hbehind]
  by_cases hframes : tag.name ∈ frameTags
  · rw [if_pos hframes, TagRole.of_frames hframes]
  by_cases hcloser : isCloser tag.name = true
  · rw [if_neg hframes, if_pos hcloser, TagRole.of_closer hcloser]
  rw [if_neg hframes, if_neg hcloser, TagRole.ofName, if_neg hframes, if_neg hcloser]
  by_cases hturning : tag.name ∈ turningTags
  · rw [if_pos hturning]
  · rw [if_neg hturning]

section

variable {env : DraftEnv} {L : String → Prop} {σ σ' : Scope} {i j k : Nat} {tag : Tag}
  {kind : OpenKind} {found : List Instruction} {outer stack' : List OpenBlock}

theorem OpenKind.opener_frames (h : kind ≠ .root) : kind.opener ∈ frameTags := by
  cases kind with
  | root => exact absurd rfl h
  | condition kind =>
    cases kind with
    | ifTrue => exact (by decide : "if" ∈ frameTags)
    | ifFalse => exact (by decide : "unless" ∈ frameTags)
  | case => exact (by decide : "case" ∈ frameTags)
  | loop => exact (by decide : "for" ∈ frameTags)

/-- A tag that stands for itself opens no block, and closes and turns none. -/
theorem Leaf.role {added : List Instruction} (h : Leaf env L σ i added j)
    (here : env.token? i = some (.tag tag)) : TagRole.ofName tag.name = .alone := by
  cases h with
  | text ht | object ht => cases here.symm.trans ht
  | assign ht name | capture ht name | raw ht name | comment ht name | script ht name
  | «break» ht name | «continue» ht name | mixin ht name | block ht name | trim ht name =>
    obtain rfl := Token.tag.inj (Option.some.inj (here.symm.trans ht))
    rw [name]
    rfl
  | callMixin ht name =>
    obtain rfl := Token.tag.inj (Option.some.inj (here.symm.trans ht))
    exact TagRole.of_plus name

theorem Turns.exists_tag {next : OpenKind} (h : Turns env L σ i found kind next) :
    ∃ tag, env.token? i = some (.tag tag) := by
  cases h with
  | elseIf here | otherwise here => exact ⟨_, here⟩
  | firstArm _ labels | arm labels =>
    cases labels with
    | values here | default here => exact ⟨_, here⟩

/-- A tag goes on with a block; a branch gets a frame of its own. -/
theorem Turns.role {next : OpenKind} (h : Turns env L σ i found kind next)
    (here : env.token? i = some (.tag tag)) : TagRole.ofName tag.name = .turns ∧
      (tag.name ∈ branchTags → ∀ σ : Scope, kind.turnScope σ = σ.destroy.create) := by
  have arms {label : ArmLabel} (hlabels : Labels env L σ i label) :
      TagRole.ofName tag.name = .turns ∧ tag.name ∉ branchTags := by
    cases hlabels with
    | values ht name | default ht name =>
      obtain rfl := Token.tag.inj (Option.some.inj (here.symm.trans ht))
      rw [name]
      exact ⟨rfl, by decide⟩
  cases h with
  | elseIf ht name =>
    obtain rfl := Token.tag.inj (Option.some.inj (here.symm.trans ht))
    refine ⟨?_, fun _ _ => rfl⟩
    rcases name with name | name <;> (rw [name]; rfl)
  | otherwise ht name =>
    obtain rfl := Token.tag.inj (Option.some.inj (here.symm.trans ht))
    exact ⟨by rw [name]; rfl, fun _ _ => rfl⟩
  | firstArm _ labels | arm labels =>
    exact ⟨(arms labels).1, fun hbranch => absurd hbranch (arms labels).2⟩

/-- What a tag does to the open blocks and to the scope, by its role. -/
theorem Change.role (h : Change env L σ i (⟨kind, found⟩ :: outer) stack' σ' j)
    (here : env.token? i = some (.tag tag)) :
    match TagRole.ofName tag.name with
    | .alone => stack'.length = outer.length + 1 ∧ ∃ added, Leaf env L σ i added j ∧
        σ' = σ.behind added
    | .opens => stack'.length = outer.length + 2 ∧ σ.Above σ'
    | .turns => stack'.length = outer.length + 1 ∧ kind ≠ .root ∧
        (tag.name ∈ branchTags → σ' = σ.destroy.create)
    | .closes => stack'.length = outer.length ∧ kind ≠ .root ∧
        tag.name = closerOf kind.opener ∧ σ' = σ.destroy := by
  cases h with
  | leaf leaf =>
    rw [leaf.role here]
    exact ⟨rfl, _, leaf, rfl⟩
  | opens ht opener opens =>
    obtain rfl := Token.tag.inj (Option.some.inj (here.symm.trans ht))
    rw [opener, TagRole.of_frames (OpenKind.opener_frames opens.inner)]
    obtain ⟨names, hscope⟩ := OpenKind.scope_eq opens.inner σ
    rw [hscope]
    exact ⟨rfl, (Scope.Above.create σ).addAll names⟩
  | turns turns =>
    obtain ⟨hrole, hbranch⟩ := turns.role here
    rw [hrole]
    exact ⟨rfl, fun hroot => (by subst hroot; cases turns), fun hname => hbranch hname σ⟩
  | closes ht closer complete =>
    obtain rfl := Token.tag.inj (Option.some.inj (here.symm.trans ht))
    rw [TagRole.of_closer (closer ▸ isCloser_closerOf _)]
    exact ⟨rfl, fun hroot => (by subst hroot; cases complete), closer, rfl⟩

/-- A token opens and closes as many blocks as its name tells. -/
theorem Change.length_eq {token : Token}
    (h : Change env L σ i (⟨kind, found⟩ :: outer) stack' σ' j) (here : env.token? i = some token) :
    stack'.length = token.depthBehind (outer.length + 1) := by
  cases token with
  | tag tag =>
    have hrole := h.role here
    rw [Token.depthBehind, Tag.depthBehind_eq]
    cases hname : TagRole.ofName tag.name <;> (rw [hname] at hrole; exact hrole.1)
  | raw | object =>
    cases h with
    | leaf => rfl
    | opens ht | closes ht => cases here.symm.trans ht
    | turns turns =>
      obtain ⟨_, ht⟩ := turns.exists_tag
      cases here.symm.trans ht

/-- A tag whose block is generated later binds no name where it stands. -/
theorem Leaf.behind_of_deferred {added : List Instruction} (h : Leaf env L σ i added j)
    (here : env.token? i = some (.tag tag)) (hname : tag.name ∈ ["mixin", "block"]) :
    σ.behind added = σ := by
  have other {t : Tag} {name : String} (ht : env.token? i = some (.tag t)) (hother : t.name = name)
      (hnot : name ∉ ["mixin", "block"]) : σ.behind added = σ := by
    obtain rfl := Token.tag.inj (Option.some.inj (here.symm.trans ht))
    exact absurd (hother ▸ hname) hnot
  cases h with
  | text ht | object ht => cases here.symm.trans ht
  | assign ht name | capture ht name | raw ht name | comment ht name | script ht name
  | «break» ht name | «continue» ht name | trim ht name => exact other ht name (by decide)
  | callMixin ht name =>
    obtain rfl := Token.tag.inj (Option.some.inj (here.symm.trans ht))
    have hnone : ∀ name ∈ ["mixin", "block"], name.toList.head? ≠ some '+' := by decide
    exact absurd (head_of_handlerName name) (hnone _ hname)
  | mixin => rfl
  | block _ _ _ adds =>
    rcases adds with rfl | rfl
    · rfl
    · exact Scope.behind_singleton rfl

end

/-! ## Scopes and open blocks -/

namespace Generator

variable {g : Generator} {d₀ d next : Draft} {token : Token}

/-- A body came to a tag that opens a block, and what stands between the tag and an index is well
nested: the block is the innermost one that is open at the index. -/
structure OpenSince (g : Generator) (d₀ opened : Draft) (opener : Tag) (i : Nat) : Prop where
  reached : g.generateRange opened.idx d₀ = .ok opened
  here : g.env.token? opened.idx = some (.tag opener)
  opener : opener.name ∈ frameTags
  lt : opened.idx < i
  nested : WellNested TagRegistry.builtin.kinds (between g.env.tokens (opened.idx + 1) i)

/-- A token takes the scope along with the open blocks. An opener adds a frame, a branch begins with an
empty one in the scope of the opener, and behind the closing tag the scope is that of the opener. Bodies
that are generated later are passed over. -/
structure MovesInStep (g : Generator) (d₀ d : Draft) (token : Token) (next : Draft) : Prop where
  depth : next.depth = token.depthBehind d.depth
  scope : next.scope.depth = next.depth
  opens : ∀ tag, token = .tag tag → tag.name ∈ frameTags → d.scope.Above next.scope
  deferred : ∀ tag, token = .tag tag → tag.name ∈ ["mixin", "block"] → next.scope = d.scope
  branches : ∀ tag, token = .tag tag → tag.name ∈ branchTags →
    ∃ opened opener, g.OpenSince d₀ opened opener d.idx ∧ next.scope = opened.scope.create
  closes : ∀ tag, token = .tag tag → isCloser tag.name = true →
    ∃ opened opener, g.OpenSince d₀ opened opener d.idx ∧ tag.name = closerOf opener.name ∧
      closingTag g.env.kinds g.env.tokens tag.name opened.idx = .ok d.idx ∧
      next.depth = opened.depth ∧ next.scope = opened.scope

section

variable {start : Nat} {below : List OpenBlock}

/-- Nothing more than the layers themselves is kept up. -/
theorem keeps_true (g : Generator) (d₀ : Draft) : g.Keeps d₀ fun _ _ _ => True :=
  ⟨fun _ _ _ _ => trivial, fun _ => trivial, fun _ _ _ => trivial,
    fun _ _ _ _ _ _ _ _ _ => trivial⟩

theorem InLayers.depth_eq {Q : Nat → OpenBlock → Nat → Prop} (h : g.InLayers d₀ Q start below d) :
    d.scope.depth = d.depth := by
  obtain ⟨_, hlayered, _⟩ := h
  rw [hlayered.depth_eq, Draft.depth_eq_length]

/-- In layers, every token moves the scope in step with the open blocks. -/
theorem InLayers.movesInStep (hg : g.IsBuiltin) (hpasses : g.Passes d₀ d token next)
    (heffect : Effect g.env ({ d with trimNext := false }.mark g.env token.pos) next)
    (h : g.InLayers d₀ (fun _ _ _ => True) start below d) : g.MovesInStep d₀ d token next := by
  have hnext := (step_layered hg (keeps_true g d₀) hpasses heffect h).depth_eq
  have hchange := change_marked heffect
  have hdepth : next.depth = token.depthBehind d.depth := by
    rw [Draft.depth_eq_length, hchange.length_eq hpasses.here, Draft.depth_eq_length, d.stack_eq]
    rfl
  obtain ⟨first, hlayered, _⟩ := h
  rw [d.stack_eq] at hlayered
  -- The innermost block has been opened in this body.
  have openSince (hkind : d.top.kind ≠ .root) : ∃ opened opener, g.OpenSince d₀ opened opener d.idx ∧
      OpenedAt g.env opened d.top.kind opener d.idx ∧ opened.scope.depth = opened.depth ∧
      d.scope.destroy = opened.scope := by
    obtain ⟨_, opened, opener, ⟨hreached, _⟩, hbelow, hopens, hframe, _⟩ := hlayered.opened hkind
    refine ⟨opened, opener, ?_, hopens, ?_, hframe.destroy hbelow.depth_pos⟩
    · exact ⟨hreached, hopens.here, hopens.opener ▸ OpenKind.opener_frames hkind, hopens.lt,
        hopens.nested⟩
    · rw [hbelow.depth_eq, Draft.depth_eq_length]
  refine ⟨hdepth, hnext, ?_, ?_, ?_, ?_⟩
  · rintro tag rfl hname
    have hrole := hchange.role hpasses.here
    rw [TagRole.of_frames hname] at hrole
    exact hrole.2
  · rintro tag rfl hname
    have hrole := hchange.role hpasses.here
    have halone : ∀ name ∈ ["mixin", "block"], TagRole.ofName name = .alone := by decide
    rw [halone _ hname] at hrole
    obtain ⟨_, added, hleaf, hscope⟩ := hrole
    rw [hscope, hleaf.behind_of_deferred hpasses.here hname]
  · rintro tag rfl hname
    have hrole := hchange.role hpasses.here
    rw [TagRole.of_branch hname] at hrole
    obtain ⟨_, hkind, hscope⟩ := hrole
    obtain ⟨opened, opener, hsince, _, _, hdestroy⟩ := openSince hkind
    exact ⟨opened, opener, hsince, by rw [hscope hname, hdestroy]⟩
  · rintro tag rfl hname
    have hrole := hchange.role hpasses.here
    rw [TagRole.of_closer hname] at hrole
    obtain ⟨_, hkind, hcloser, hscope⟩ := hrole
    obtain ⟨opened, opener, hsince, hopens, hopened, hdestroy⟩ := openSince hkind
    rw [hdestroy] at hscope
    refine ⟨opened, opener, hsince, hopens.opener ▸ hcloser,
      hopens.closer hg.kinds hpasses.here hcloser, ?_, hscope⟩
    rw [← hnext, hscope, hopened]

/-- The effect of a token on the draft with its position. -/
theorem Begins.effect {before : List Nat} {stop : Nat} (hg : g.IsBuiltin)
    (h : g.Begins before start stop d₀) (hlt : d.idx < stop) (hpasses : g.Passes d₀ d token next) :
    Effect g.env ({ d with trimNext := false }.mark g.env token.pos) next := by
  obtain ⟨τ, below, hτ, hends, _, _, hgoing⟩ := h.going hg
  have hmid := (generateRange_going hg hτ hends hgoing (fun _ _ _ _ => trivial) (Nat.le_of_lt hlt)
    hpasses.reached).1
  exact (step_effect hg hends hmid hlt hpasses.here trivial).get hpasses.step

/-- Between bodies nothing is open, and the scope is the one behind the main body. -/
theorem generateDeferred_scope {main d : Draft} {program : Program} {rounds : Nat}
    (hg : g.IsBuiltin) (hmain : g.generateMain = .ok main)
    (hdone : g.generateDeferred rounds main {} = .ok (d, program)) :
    d.depth = 1 ∧ d.scope.depth = 1 ∧ d.scope = main.scope := by
  obtain ⟨found, hbetween⟩ := (generateMain_outside hg).get hmain
  have hresting := ((generateDeferred_outside hg hbetween rounds).get hdone).resting
  refine ⟨?_, ?_, ?_⟩
  · rw [Draft.depth_eq_length, hresting.stack]
    rfl
  · rw [hresting.scope, Scope.depth_behind]
    rfl
  · rw [hresting.scope, hbetween.resting.scope]

end

end Generator

/-- Wherever a token of a body is handled there are as many frames in the scope as open blocks: one more
behind an opener, as many as before behind a branch, one less behind a closing tag, where the scope is
again the one that the opener was handled in. A body that is generated later has one frame of its own
above the scope of the main body, and in the end one frame is left. -/
theorem generate_inStep (tokens : List Token) (files : Files) (positions : Bool) (sites : Sites) :
    let g := builtinGenerator tokens files positions sites
    (blockSites TagRegistry.builtin.kinds tokens = .ok sites →
      generate tokens files .builtin positions = g.generate) ∧
    (∀ before start stop d₀, g.Begins before start stop d₀ →
      ∀ d, d.idx ≤ stop → g.generateRange d.idx d₀ = .ok d →
        d.scope.depth = d.depth ∧
        ∀ token next, d.idx < stop → g.env.token? d.idx = some token →
          g.step token d = .ok next → g.MovesInStep d₀ d token next) ∧
    (∀ main, g.generateMain = .ok main →
      ∀ rounds d program, g.generateDeferred rounds main {} = .ok (d, program) →
        d.depth = 1 ∧ d.scope.depth = 1 ∧ d.scope = main.scope ∧
        ∀ body, d.next? program = some body →
          (d.begin body).depth = 2 ∧ d.scope.Above (d.begin body).scope) ∧
    ∀ made, g.generate = .ok made → ∃ main last program, g.generateMain = .ok main ∧
      g.generateDeferred (tokens.length + 1) main {} = .ok (last, program) ∧
      made.program = { program with body := last.root.body } ∧
      last.depth = 1 ∧ last.scope.depth = 1 := by
  intro g
  have hg : g.IsBuiltin := ⟨rfl, rfl⟩
  refine ⟨generate_eq, fun before start stop d₀ hbegins d hle hreached => ?_,
    fun main hmain rounds d program hdone => ?_, fun made hmade => ?_⟩
  · obtain ⟨below, hlayers⟩ :=
      hbegins.layered hg (Generator.keeps_true g d₀) trivial hle hreached
    refine ⟨hlayers.depth_eq, fun token next hlt here hstep => ?_⟩
    have hpasses : g.Passes d₀ d token next := ⟨hreached, here, hstep⟩
    exact hlayers.movesInStep hg hpasses (hbegins.effect hg hlt hpasses)
  · obtain ⟨hdepth, hframes, hscope⟩ := Generator.generateDeferred_scope hg hmain hdone
    refine ⟨hdepth, hframes, hscope, fun body _ => ⟨congrArg (· + 1) hdepth, ?_⟩⟩
    exact (Scope.Above.create d.scope).addAll body.params
  · obtain ⟨main, last, program, hmain, hdone, _, hprogram⟩ := Generator.generate_ok hmade
    obtain ⟨hdepth, hframes, _⟩ := Generator.generateDeferred_scope hg hmain hdone
    exact ⟨main, last, program, hmain, hdone, hprogram, hdepth, hframes⟩

end Stencil
