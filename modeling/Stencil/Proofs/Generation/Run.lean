import Stencil.Proofs.Generation.Handlers

/-!
# How bodies are generated

`Going` is the invariant of a body that is being generated: its open blocks are stacked right, and
what is left for later was left behind at its tags.

* `Generator.step_settles`: a token keeps the invariant.
* `Generator.generateRange_settles`: so do all tokens of a body.
* `Going.rests`: where the body ends, no block inside it is open any more.
* `Generator.Reaches.passes`: a body that is generated passes all tokens that are reached in it.
-/

namespace Stencil

/-! ## The invariant -/

/-- The generator uses the built-in tags. -/
structure Generator.IsBuiltin (g : Generator) : Prop where
  registry : g.registry = .builtin
  kinds : g.env.kinds = TagRegistry.builtin.kinds

/-- A body was left behind under a name at a tag that was generated. -/
def LeftBehind (env : DraftEnv) (A : Nat → Scope → Prop) (opener name : String) (body : Deferred) :
    Prop :=
  ∃ k tag σ, Defers env opener k tag name body ∧ A k σ

/-- A body is being generated above the blocks `below`, from the token `start` on and in the scope
`τ`. The draft has grown out of `d₀`. -/
structure Going (env : DraftEnv) (d₀ : Draft) (A : Nat → Scope → Prop) (τ : Scope)
    (start : Nat) (below : List OpenBlock) (d : Draft) : Prop where
  grows : d₀.Grows d
  stacked : Stacked env (· ∈ d.locals) A τ start below d.stack d.scope d.idx
  mixins : ∀ e ∈ d.mixins.entries, LeftBehind env A "mixin" e.1 e.2
  blocks : ∀ e ∈ d.blocks.entries, LeftBehind env A "block" e.1 e.2

/-- Where a body ends: the main one with the tokens, another one at its closing tag. -/
inductive Ends (env : DraftEnv) : Nat → List OpenBlock → Nat → Prop where
  | main : Ends env 0 [] env.tokens.length
  | deferred {opener name : String} {k : Nat} {tag : Tag} {body : Deferred} {root : OpenBlock}
      (defers : Defers env opener k tag name body) : Ends env body.start [root] body.stop

namespace Going

variable {env : DraftEnv} {d₀ : Draft} {A : Nat → Scope → Prop} {τ : Scope}
  {start stop : Nat} {below : List OpenBlock} {d d' : Draft}

/-- Noting a position keeps the invariant. -/
theorem mark {token : Token} (h : Going env d₀ A τ start below d)
    (here : env.token? d.idx = some token) (held : A d.idx d.scope) :
    Going env d₀ A τ start below ({ d with trimNext := false }.mark env token.pos) := by
  have hgrows : d₀.Grows { d with trimNext := false } :=
    h.grows.trans ⟨fun _ h => h, fun _ h => h, .refl _, .refl _⟩
  unfold Draft.mark
  split
  · have hstacked := h.stacked
    rw [Draft.stack_eq] at hstacked
    refine ⟨?_, ?_, ?_, ?_⟩
    · exact hgrows.trans (Draft.grows_setTop _ _)
    · rw [Draft.stack_setTop, Draft.scope_setTop, Draft.idx_setTop, Draft.locals_setTop]
      exact hstacked.mark here held
    · rw [Draft.mixins_setTop]
      exact h.mixins
    · rw [Draft.blocks_setTop]
      exact h.blocks
  · exact ⟨hgrows, h.stacked, h.mixins, h.blocks⟩

/-- An effect keeps the invariant. -/
theorem effect (hkinds : env.kinds = TagRegistry.builtin.kinds) (hτ : 0 < τ.depth)
    (h : Going env d₀ A τ start below d) (heffect : Effect env d d') (held : A d.idx d.scope) :
    Going env d₀ A τ start below d' where
  grows := h.grows.trans heffect.grows
  stacked := h.stacked.change hkinds hτ heffect.grows.locals heffect.change held
  mixins e he := by
    rcases heffect.mixins e he with he | ⟨tag, hdefers⟩
    · exact h.mixins e he
    · exact ⟨d.idx, tag, d.scope, hdefers, held⟩
  blocks e he := by
    rcases heffect.blocks e he with he | ⟨tag, hdefers⟩
    · exact h.blocks e he
    · exact ⟨d.idx, tag, d.scope, hdefers, held⟩

/-- The draft at the start of the main body. -/
theorem begins (env : DraftEnv) (A : Nat → Scope → Prop) : Going env {} A {} 0 [] {} :=
  ⟨.refl _, .ground .root, fun _ h => absurd h List.not_mem_nil,
    fun _ h => absurd h List.not_mem_nil⟩

theorem rebase (h : Going env d₀ A τ start below d) : Going env d A τ start below d :=
  ⟨.refl d, h.stacked, h.mixins, h.blocks⟩

/-- A closing tag closes the innermost block. -/
theorem closes {tag : Tag} (hkinds : env.kinds = TagRegistry.builtin.kinds)
    (h : Going env d₀ A τ start below d) (hends : Ends env start below stop) (hlt : d.idx < stop)
    (here : env.token? d.idx = some (.tag tag)) (hcloser : isCloser tag.name = true) :
    Handler.Closes tag d := by
  intro block outer hinner
  have hstacked := h.stacked
  rw [Draft.stack, hinner, List.cons_append] at hstacked
  generalize hrest : outer ++ [d.root] = rest at hstacked
  generalize d.scope = σ at hstacked
  cases hstacked with
  | block _ _ hopener _ closes filled =>
    exact (Stacked.closer hkinds hopener closes filled here hcloser).1
  | ground filled =>
    -- The outermost block of a body that is left behind ends at its closing tag.
    cases hends with
    | main => simp at hrest
    | @deferred opener name k opening body root defers =>
      rw [defers.start] at filled
      obtain ⟨hk, _⟩ := List.getElem?_eq_some_iff.1 defers.here
      obtain ⟨hle, _, hnested⟩ := filled.wellNested hkinds hk
      have hcloses := defers.closes
      rw [hkinds] at hcloses
      have := (closer_eq builtin_proper (isCloser_closerOf _) hcloses hle hnested here hcloser).2
      omega

/-- In a body that was left behind, a draft stays before the closing tag, or only the outermost block of
the body is open. -/
theorem deferred_within {opener name : String} {k : Nat} {tag : Tag} {body : Deferred}
    (hkinds : env.kinds = TagRegistry.builtin.kinds)
    (h : Going env d₀ A τ body.start below d) (defers : Defers env opener k tag name body) :
    d.idx ≤ body.stop ∧ (d.idx < body.stop ∨ ∃ found, d.stack = ⟨.root, found⟩ :: below) := by
  obtain ⟨hk, _⟩ := List.getElem?_eq_some_iff.1 defers.here
  have hstacked := h.stacked
  rw [defers.start] at hstacked
  exact hstacked.within hkinds defers.closes hk (Nat.le_refl _) (hstacked.bound hkinds hk)
    (by rw [between_self]; exact .nil)

/-- No token behind a body is passed with it. -/
theorem ends_at (hkinds : env.kinds = TagRegistry.builtin.kinds) (h : Going env d₀ A τ start below d)
    (hends : Ends env start below stop) (hstop : stop ≤ d.idx ∨ env.token? d.idx = none) :
    d.idx = stop := by
  have hend {i : Nat} (hnone : env.token? i = none) : env.tokens.length ≤ i :=
    List.getElem?_eq_none_iff.1 hnone
  cases hends with
  | main =>
    have hbound := h.stacked.bound hkinds (Nat.zero_le _)
    rcases hstop with hle | hnone
    · omega
    · have := hend hnone
      omega
  | @deferred _ _ _ _ body _ defers =>
    have hle := (h.deferred_within hkinds defers).1
    have hlength := defers.stop_lt
    rcases hstop with hle | hnone
    · omega
    · have := hend hnone
      omega

/-- Where a body ends, only its outermost block is open. -/
theorem rests (hkinds : env.kinds = TagRegistry.builtin.kinds) (h : Going env d₀ A τ start below d)
    (hends : Ends env start below stop) (hstop : stop ≤ d.idx ∨ env.token? d.idx = none) :
    ∃ found, d.stack = ⟨.root, found⟩ :: below ∧ d.scope = τ.behind found.reverse ∧
      Filled env (· ∈ d.locals) A τ start .root found stop := by
  have hidx := h.ends_at hkinds hends hstop
  have hstacked := h.stacked
  cases hends with
  | main =>
    generalize d.stack = stack at hstacked ⊢
    generalize d.scope = σ at hstacked ⊢
    cases hstacked with
    | ground filled => exact ⟨_, rfl, rfl, hidx ▸ filled⟩
    | block _ _ here _ closes filled =>
      obtain ⟨hk, _⟩ := List.getElem?_eq_some_iff.1 here
      obtain ⟨hle, hi, hnested⟩ := filled.wellNested hkinds hk
      rw [hkinds] at closes
      have := lt_length_of_open builtin_proper (isCloser_closerOf _) closes hle hi hnested
      omega
  | @deferred opener name k opening body root defers =>
    have hground := (h.deferred_within hkinds defers).2
    generalize d.stack = stack at hstacked hground ⊢
    generalize d.scope = σ at hstacked ⊢
    rcases hground with hlt | ⟨found, rfl⟩
    · omega
    · cases hstacked with
      | ground filled => exact ⟨found, rfl, rfl, hidx ▸ filled⟩
      | block _ inner => exact absurd rfl inner

end Going

/-! ## Tokens -/

namespace Generator

variable {g : Generator} {d₀ : Draft} {A : Nat → Scope → Prop} {τ : Scope}
  {start stop : Nat} {below : List OpenBlock} {d : Draft}

/-- A token has an effect on the draft that is at it. -/
theorem handle_settles {token : Token} (hg : g.IsBuiltin) (trim : Bool)
    (here : g.env.token? d.idx = some token)
    (closes : ∀ tag, token = .tag tag → isCloser tag.name = true → Handler.Closes tag d) :
    Settles (Effect g.env d) (g.handle token trim d) := by
  cases token with
  | raw text pos =>
    unfold handle
    dsimp only
    generalize hwritten : (if trim then .ofList (Text.trimLeft text.toList) else text) = written
    have hcases : written = text ∨ written = .ofList (Text.trimLeft text.toList) := by
      rw [← hwritten]
      split
      · exact .inr rfl
      · exact .inl rfl
    have hleaf := Leaf.text (L := (· ∈ d.locals)) (σ := d.scope) here hcases
    by_cases hempty : written.isEmpty = true
    · rw [if_pos hempty] at hleaf
      rw [if_pos hempty]
      exact .ok (Effect.skips (.refl d) hleaf)
    · rw [if_neg hempty] at hleaf
      rw [if_neg hempty, Draft.advance_emit]
      exact .ok (Effect.emits (.refl d) hleaf rfl)
  | object expression calls source pos =>
    unfold handle
    obtain ⟨p, d₁, hp, hnotes, hmakes, _⟩ := Draft.pipeline_notes g.env d expression calls
    have heffect := Effect.emits hnotes (.object here hmakes) rfl
    dsimp only
    rw [hp]
    dsimp only
    rw [Draft.advance_emit]
    exact .ok (hnotes.idx ▸ heffect)
  | tag tag =>
    unfold handle
    dsimp only
    split
    · exact .error rfl
    · next handler hhandler =>
      rw [hg.registry] at hhandler
      exact builtin_settles here (closes tag rfl) hhandler

/-- A token has an effect on the draft with its position. -/
theorem step_effect {token : Token} (hg : g.IsBuiltin) (hends : Ends g.env start below stop)
    (h : Going g.env d₀ A τ start below d) (hlt : d.idx < stop)
    (here : g.env.token? d.idx = some token) (held : A d.idx d.scope) :
    Settles (Effect g.env ({ d with trimNext := false }.mark g.env token.pos)) (g.step token d) := by
  have hmark := h.mark here held
  have hidx : ({ d with trimNext := false }.mark g.env token.pos).idx = d.idx := Draft.idx_mark ..
  rw [← hidx] at hlt here
  exact handle_settles hg d.trimNext here
    fun tag htag hcloser => hmark.closes hg.kinds hends hlt (htag ▸ here) hcloser

/-- A token keeps the invariant. -/
theorem step_settles {token : Token} (hg : g.IsBuiltin) (hτ : 0 < τ.depth)
    (hends : Ends g.env start below stop) (h : Going g.env d₀ A τ start below d) (hlt : d.idx < stop)
    (here : g.env.token? d.idx = some token) (held : A d.idx d.scope) :
    Settles (Going g.env d₀ A τ start below) (g.step token d) := by
  have held' : A ({ d with trimNext := false }.mark g.env token.pos).idx
      ({ d with trimNext := false }.mark g.env token.pos).scope := by
    rw [Draft.idx_mark, Draft.scope_mark]
    exact held
  exact (step_effect hg hends h hlt here held).mono fun d' heffect =>
    (h.mark here held).effect hg.kinds hτ heffect held'

/-- A range that is not empty begins with a token. -/
theorem generateRange_cases {token : Token} {e : Draft} (hlt : d.idx < stop)
    (here : g.env.token? d.idx = some token) (hrange : g.generateRange stop d = .ok e) :
    ∃ next, g.step token d = .ok next ∧ d.idx < next.idx ∧ g.generateRange stop next = .ok e := by
  rw [generateRange, dif_pos hlt] at hrange
  simp only [here] at hrange
  split at hrange
  · cases hrange
  · next next hstep =>
    split at hrange
    · next hnext => exact ⟨next, hstep, hnext, hrange⟩
    · cases hrange

theorem generateRange_next {token : Token} {next : Draft} (hlt : d.idx < stop)
    (here : g.env.token? d.idx = some token) (hstep : g.step token d = .ok next)
    (hnext : d.idx < next.idx) : g.generateRange stop d = g.generateRange stop next := by
  rw [generateRange, dif_pos hlt]
  simp only [here, hstep, dif_pos hnext]

/-- Behind the tokens of a body there is nothing to do. -/
theorem generateRange_of_le (g : Generator) (h : stop ≤ d.idx) : g.generateRange stop d = .ok d := by
  rw [generateRange, dif_neg (by omega)]

/-- A range may be generated in two parts. -/
theorem generateRange_split {mid : Nat} (hle : mid ≤ stop) (d : Draft) :
    g.generateRange stop d = g.generateRange mid d >>= g.generateRange stop := by
  fun_induction generateRange g mid d with
  | case1 d hlt hnone =>
    rw [generateRange, dif_pos (by omega)]
    simp only [hnone]
    show Except.ok d = generateRange g stop d
    rw [generateRange, dif_pos (by omega)]
    simp only [hnone]
  | case2 d hlt token here e hstep =>
    rw [generateRange, dif_pos (by omega)]
    simp only [here, hstep]
    rfl
  | case3 d hlt token here next hstep hnext ih =>
    rw [generateRange_next (by omega) here hstep hnext, ih]
  | case4 d hlt token here next hstep hnext =>
    rw [generateRange, dif_pos (by omega)]
    simp only [here, hstep, dif_neg hnext]
    rfl
  | case5 d hlt => rfl

/-- From a draft, the generator comes to the token at an index in a scope. -/
def Reaches (g : Generator) (d : Draft) (k : Nat) (σ : Scope) : Prop :=
  ∃ d', g.generateRange k d = .ok d' ∧ d'.idx = k ∧ d'.scope = σ

theorem Reaches.here (g : Generator) (d : Draft) : g.Reaches d d.idx d.scope := by
  exact ⟨d, generateRange_of_le g (Nat.le_refl _), rfl, rfl⟩

/-- What is reached behind a token is reached from it. -/
theorem Reaches.step {token : Token} {next : Draft} {k : Nat} {σ : Scope}
    (here : g.env.token? d.idx = some token) (hstep : g.step token d = .ok next)
    (hnext : d.idx < next.idx) (h : g.Reaches next k σ) : g.Reaches d k σ := by
  obtain ⟨d', hrange, rfl, rfl⟩ := h
  by_cases hlt : d.idx < d'.idx
  · refine ⟨d', ?_, rfl, rfl⟩
    rw [generateRange, dif_pos hlt]
    simp only [here, hstep, dif_pos hnext, hrange]
  · rw [generateRange_of_le g (by omega)] at hrange
    obtain rfl := Except.ok.inj hrange
    omega

/-- Nothing is reached that the draft has passed. -/
theorem Reaches.le {k : Nat} {σ : Scope} (h : g.Reaches d k σ) : d.idx ≤ k := by
  obtain ⟨d', hrange, rfl, _⟩ := h
  by_contra hlt
  rw [generateRange_of_le g (by omega)] at hrange
  obtain rfl := Except.ok.inj hrange
  exact hlt (Nat.le_refl _)

/-- What is reached from a token, but for the token itself, is reached behind it. -/
theorem Reaches.next {token : Token} {next : Draft} {k : Nat} {σ : Scope}
    (here : g.env.token? d.idx = some token) (hstep : g.step token d = .ok next)
    (hnext : d.idx < next.idx) (h : g.Reaches d k σ) (hk : d.idx ≠ k) : g.Reaches next k σ := by
  have hlt := Nat.lt_of_le_of_ne h.le hk
  obtain ⟨d', hrange, hidx, hscope⟩ := h
  rw [generateRange, dif_pos hlt] at hrange
  simp only [here, hstep, dif_pos hnext] at hrange
  exact ⟨d', hrange, hidx, hscope⟩

/-- The tokens of a body keep the invariant, and where they end the body does. -/
theorem generateRange_settles (hg : g.IsBuiltin) (hτ : 0 < τ.depth)
    (hends : Ends g.env start below stop) (h : Going g.env d₀ A τ start below d)
    (held : ∀ k σ, k < stop → g.Reaches d k σ → A k σ) :
    Settles (fun d' => Going g.env d₀ A τ start below d' ∧
      (stop ≤ d'.idx ∨ g.env.token? d'.idx = none)) (g.generateRange stop d) := by
  fun_induction generateRange g stop d with
  | case1 d hlt hnone => exact .ok ⟨h, .inr hnone⟩
  | case2 d hlt token here e hstep =>
    have hsettles := step_settles hg hτ hends h hlt here (held _ _ hlt (.here g d))
    rw [hstep] at hsettles
    cases hsettles with
    | error he => exact .error he
  | case3 d hlt token here next hstep hnext ih =>
    have hsettles := step_settles hg hτ hends h hlt here (held _ _ hlt (.here g d))
    rw [hstep] at hsettles
    cases hsettles with
    | ok hgoing =>
      exact ih hgoing fun k σ hk hreaches => held k σ hk (hreaches.step here hstep hnext)
  | case4 => exact .error rfl
  | case5 d hlt => exact .ok ⟨h, .inl (by omega)⟩

/-- A token moves the draft on, but not out of the body. -/
theorem step_moves {token : Token} {next : Draft} (hg : g.IsBuiltin) (hτ : 0 < τ.depth)
    (hends : Ends g.env start below stop) (h : Going g.env d₀ A τ start below d) (hlt : d.idx < stop)
    (here : g.env.token? d.idx = some token) (held : A d.idx d.scope)
    (hstep : g.step token d = .ok next) : d.idx < next.idx ∧ next.idx ≤ stop := by
  have hchange := ((step_effect hg hends h hlt here held).get hstep).change
  have hgoing := (step_settles hg hτ hends h hlt here held).get hstep
  rw [Draft.idx_mark] at hchange
  refine ⟨hchange.lt hg.kinds, ?_⟩
  by_contra hpassed
  have := hgoing.ends_at hg.kinds hends (.inl (by omega))
  omega

/-- On the way through a body the invariant holds, and generating goes on from there. -/
theorem generateRange_going {mid : Draft} (hg : g.IsBuiltin) (hτ : 0 < τ.depth)
    (hends : Ends g.env start below stop) (h : Going g.env d₀ A τ start below d)
    (held : ∀ k σ, k < stop → g.Reaches d k σ → A k σ) (hk : mid.idx ≤ stop)
    (hmid : g.generateRange mid.idx d = .ok mid) :
    Going g.env d₀ A τ start below mid ∧ (∀ k σ, k < stop → g.Reaches mid k σ → A k σ) ∧
      g.generateRange stop d = g.generateRange stop mid := by
  fun_induction generateRange g mid.idx d with
  | case1 | case5 =>
    obtain rfl := Except.ok.inj hmid
    exact ⟨h, held, rfl⟩
  | case2 | case4 => cases hmid
  | case3 d hlt token here next hstep hnext ih =>
    have hgoing := (step_settles hg hτ hends h (by omega) here
      (held _ _ (by omega) (.here g d))).get hstep
    obtain ⟨hgoing', held', hrange⟩ := ih hgoing
      (fun k σ hk hreaches => held k σ hk (hreaches.step here hstep hnext)) hmid
    refine ⟨hgoing', held', ?_⟩
    rw [generateRange, dif_pos (by omega)]
    simp only [here, hstep, dif_pos hnext]
    exact hrange

/-- Where a token is reached, the invariant holds, and generating goes on from there. -/
theorem Reaches.going {k : Nat} {σ : Scope} (hg : g.IsBuiltin) (hτ : 0 < τ.depth)
    (hends : Ends g.env start below stop) (h : Going g.env d₀ A τ start below d)
    (held : ∀ k σ, k < stop → g.Reaches d k σ → A k σ) (hk : k ≤ stop)
    (hreaches : g.Reaches d k σ) :
    ∃ mid, mid.idx = k ∧ mid.scope = σ ∧ Going g.env d₀ A τ start below mid ∧
      (∀ k σ, k < stop → g.Reaches mid k σ → A k σ) ∧
      g.generateRange stop d = g.generateRange stop mid := by
  obtain ⟨mid, hmid, rfl, rfl⟩ := hreaches
  exact ⟨mid, rfl, rfl, generateRange_going hg hτ hends h held hk hmid⟩

/-- A body that is generated passes every token that is reached in it. -/
theorem Reaches.passes {d' : Draft} {k : Nat} {σ : Scope} (hg : g.IsBuiltin) (hτ : 0 < τ.depth)
    (hends : Ends g.env start below stop) (h : Going g.env d₀ A τ start below d)
    (held : ∀ k σ, k < stop → g.Reaches d k σ → A k σ) (hk : k < stop)
    (hlength : k < g.env.tokens.length) (hreaches : g.Reaches d k σ)
    (hrange : g.generateRange stop d = .ok d') :
    ∃ mid next token, mid.idx = k ∧ mid.scope = σ ∧ g.env.token? k = some token ∧
      g.step token mid = .ok next ∧ next.Grows d' := by
  obtain ⟨mid, rfl, hscope, hgoing, held', heq⟩ := hreaches.going hg hτ hends h held (Nat.le_of_lt hk)
  have here : g.env.token? mid.idx = some g.env.tokens[mid.idx] := List.getElem?_eq_getElem hlength
  rw [heq] at hrange
  obtain ⟨next, hstep, hnext, hrest⟩ := generateRange_cases hk here hrange
  refine ⟨mid, next, _, rfl, hscope, here, hstep, ?_⟩
  have hgoing' := (step_settles hg hτ hends hgoing hk here (held' _ _ hk (.here g mid))).get hstep
  exact ((generateRange_settles hg hτ hends hgoing'.rebase fun k σ hk hreaches =>
    held' k σ hk (hreaches.step here hstep hnext)).get hrest).1.grows

end Generator

end Stencil
