import Stencil.Proofs.Generation.Within

/-!
# Drafts around a word

Outside the word of a wrapping, a draft without the block and one with it go on alike, in the same
scopes.

* `Wrapping.facing`: the handlers of tags outside the word find the same there.
* `Wrapping.step_around`: every token outside the word keeps drafts abreast.
-/

namespace Stencil

namespace Wrapping

/-- A body that was left behind, without the block and with it. -/
structure Moved (w : Wrapping) (body body' : Deferred) : Prop where
  params : body'.params = body.params
  start : (body.start ≤ w.first ∧ body'.start = body.start) ∨
    (w.last < body.start ∧ body'.start = body.start + 2)
  stop : w.Across body.stop body'.stop

end Wrapping

/-- The drafts have one scope, and what is left behind is left behind where it has moved. -/
structure Bench.Around (w : Wrapping) (b : Bench) : Prop where
  lasting : b.Lasting
  base : b.base.kind = .root
  base' : b.base'.kind = .root
  below : b.below'.map OpenBlock.kind = b.below.map OpenBlock.kind
  scopes : ∀ {k σ σ'}, b.scopes k σ σ' ↔ σ' = σ
  mixins : ∀ {t t'} key {body body'}, b.mixins t t' → w.Moved body body' →
    b.mixins (t.insert key body) (t'.insert key body')
  blocks : ∀ {t t'} key {body body'}, key ≠ w.name → b.blocks t t' → w.Moved body body' →
    b.blocks (t.insert key body) (t'.insert key body')
  fold : ∀ key, key ≠ w.name → b.fold key = none

namespace Bench.Around

variable {w : Wrapping} {b : Bench} {k : Nat} {d d' : Draft}

theorem binds (hb : b.Around w) (k : Nat) : b.Binds k := by
  intro σ σ' hσ name
  obtain rfl := hb.scopes.1 hσ
  exact ⟨rfl, hb.scopes.2 rfl⟩

/-- Both drafts are inside the same kinds of blocks. -/
theorem inside (hb : b.Around w) (h : b.Stacks k d.stack d'.stack) {p : OpenKind → Bool}
    (hp : ∀ kind, p (OpenKind.inlined b.fold kind) = p kind) : d'.inside p = d.inside p := by
  have hinside (d : Draft) : d.inside p = (d.stack.map OpenBlock.kind).any p := by
    simp [Draft.inside, Draft.stack, List.any_map, Function.comp_def]
  obtain ⟨inner, found, _, hstack, hstack', _⟩ := h
  rw [hinside, hinside, hstack, hstack', List.map_append, List.map_append, List.map_cons,
    List.map_cons, List.map_map, List.any_append, List.any_append, List.any_cons, List.any_cons,
    hb.below, hb.base, hb.base', List.any_map, List.any_map]
  have hinner : p ∘ OpenBlock.kind ∘ OpenBlock.inlined b.fold = p ∘ OpenBlock.kind :=
    funext fun block => hp block.kind
  rw [List.any_map, hinner]

end Bench.Around

namespace Wrapping

variable {w : Wrapping} {g g' : Generator} {b : Bench} {k : Nat} {d d' e : Draft} {token : Token}
  {pos : Pos}

/-- The generators are those of the tokens without and with the block, and put no positions into
programs. -/
structure Generates (w : Wrapping) (g g' : Generator) : Prop where
  builtin : g.IsBuiltin
  builtin' : g'.IsBuiltin
  plain : g.env.positions = false
  plain' : g'.env.positions = false
  tokens : g.env.tokens = w.tokens
  wrapped : g'.env.tokens = w.wrapped
  trims : w.TrimsWithin
  sites : blockSites g.env.kinds g.env.tokens = .ok g.env.sites
  sites' : blockSites g'.env.kinds g'.env.tokens = .ok g'.env.sites

/-- Outside the word, handlers find the same. -/
theorem facing (hw : w.Generates g g') (hacross : w.Across d.idx d'.idx)
    (hout : Outside g.env.kinds g.env.tokens d.idx) :
    Facing w.Across g.env g'.env d.idx d'.idx := by
  have hkinds := hw.builtin.kinds
  have hkinds' := hw.builtin'.kinds
  have htokens := hw.tokens
  have hwrapped := hw.wrapped
  rw [hkinds, htokens] at hout
  refine ⟨fun _ => hacross, fun tag stop here _ hlooked hcloses => ?_, fun tag stop here hverbatim
    hends => ?_⟩
  · rw [DraftEnv.token?, htokens] at here
    rw [hkinds] at hlooked hcloses
    rw [htokens] at hcloses
    obtain ⟨stop', hstop', hmoved⟩ := closes_across hacross hout here hlooked hcloses
    refine ⟨stop', by rw [hkinds', hwrapped]; exact hstop', fun _ => hmoved, fun hjs => ?_⟩
    have hside := free_across hacross hout here (by simp [hjs]) hcloses
    rw [DraftEnv.sourceBetween, DraftEnv.sourceBetween, htokens, hwrapped]
    exact source_across hacross hmoved hside
  · rw [DraftEnv.token?, htokens] at here
    rw [hkinds] at hverbatim
    rw [htokens] at hends
    obtain ⟨stop', hstop', hmoved, hside⟩ := ends_across hacross hout here hverbatim hends
    refine ⟨stop', by rw [hwrapped]; exact hstop', hmoved, ?_⟩
    rw [DraftEnv.sourceBetween, DraftEnv.sourceBetween, htokens, hwrapped]
    exact source_across hacross hmoved hside

/-- A body that is left behind at a tag outside the word has moved with the tag. -/
theorem moved {i i' stop stop' : Nat} (hi : w.Across i i') (hstop : w.Across stop stop')
    (params : List String) : w.Moved ⟨i + 1, stop, params⟩ ⟨i' + 1, stop', params⟩ := by
  refine ⟨rfl, ?_, hstop⟩
  rcases hi with ⟨hlt, rfl⟩ | ⟨hle, rfl⟩
  · exact .inl ⟨hlt, rfl⟩
  · exact .inr ⟨Nat.lt_succ_of_le hle, Nat.add_right_comm i 2 1⟩

section

variable (d d') {tag : Tag} (hw : w.Generates g g') (hacross : w.Across d.idx d'.idx)
  (hout : Outside g.env.kinds g.env.tokens d.idx) (here : g.env.token? d.idx = some (.tag tag))
include hw hacross hout here

/-- A closing tag is found, and has moved. -/
theorem findTag_across (hblock : tag.name ∈ ["mixin", "block"]) :
    Follows w.Across (g.env.findTag d (closerOf tag.name)) (g'.env.findTag d' (closerOf tag.name)) := by
  have hdeferred : ∀ name ∈ ["mixin", "block"],
      name ∈ blockTags ∧ name ∉ verbatimTags ∧ name ∈ ["js", "mixin", "block"] := by decide
  obtain ⟨hmem, hlooked, hname⟩ := hdeferred _ hblock
  have hkinds := hw.builtin.kinds
  refine Handler.findTag_follows fun stop hstop => ?_
  obtain ⟨stop', hstop', hmoved, _⟩ := (facing hw hacross hout).closes tag stop here
    (by rw [hkinds]; exact mem_blockTags.2 hmem) (by rw [hkinds]; exact not_isVerbatim hlooked) hstop
  exact ⟨stop', hstop', hmoved hname⟩

variable (hb : b.Around w) (h : Abreast b k d d')
include hb h

theorem mixin_around (hname : tag.name = "mixin") :
    Follows (b.Leads w.Across k) (Handler.mixin g.env tag d)
      (Handler.mixin g'.env { tag with pos } d') := by
  have hfind := findTag_across d d' hw hacross hout here (by simp [hname])
  rw [hname] at hfind
  unfold Handler.mixin
  dsimp only
  cases Text.wordsOf tag.head with
  | nil => exact .error
  | cons name texts =>
    refine .guard fun _ => ?_
    cases Handler.badParam? (Handler.paramsOf texts) with
    | some param => exact .error
    | none =>
      refine hfind.bind fun stop stop' hmoved => .ok ?_
      have hnoted : Abreast b k
          { d with mixins := d.mixins.insert name ⟨d.idx + 1, stop, Handler.paramsOf texts⟩ }
          { d' with mixins := d'.mixins.insert name ⟨d'.idx + 1, stop', Handler.paramsOf texts⟩ } :=
        { h with mixins := hb.mixins name h.mixins (moved hacross hmoved _) }
      exact ⟨hnoted.skips _ _, stop, stop', hmoved, rfl, rfl⟩

theorem block_around (hname : tag.name = "block") :
    Follows (b.Leads w.Across k) (Handler.block g.env tag d)
      (Handler.block g'.env { tag with pos } d') := by
  have hfind := findTag_across d d' hw hacross hout here (by simp [hname])
  rw [hname] at hfind
  have hsame : blockName? { tag with pos } = blockName? tag := rfl
  unfold Handler.block
  rw [hsame]
  cases hnamed : blockName? tag with
  | none => exact .error
  | some key =>
    have hkinds := hw.builtin.kinds
    have hmem : .tag tag ∈ w.tokens := by
      rw [← hw.tokens]
      exact List.mem_of_getElem? here
    have hne : key ≠ w.name := fun heq => w.fresh tag hmem hname (heq ▸ hnamed)
    -- The tag is one of the sites, so they are known in both.
    obtain ⟨first, last, hsite, _⟩ :=
      DraftEnv.site_found hkinds hw.sites hout here hname hnamed
    have hsites := hw.sites
    rw [hkinds, hw.tokens] at hsites
    obtain ⟨sites', hsites', _, hmovedSites⟩ := sites_across hsites
    have hsame : sites' = g'.env.sites := by
      have := hw.sites'
      rw [hw.builtin'.kinds, hw.wrapped, hsites'] at this
      exact Except.ok.inj this
    obtain ⟨first', last', hsite', hfirst, hlast⟩ := hmovedSites key first last hsite hne
    rw [hsame] at hsite'
    refine hfind.bind fun stop stop' hmoved => .ok ?_
    rw [hsite, hsite']
    dsimp only [Option.getD_some]
    have hiff {i i' : Nat} (hi : w.Across i i') : d'.idx = i' ↔ d.idx = i := by
      have hword : w.first ≤ w.last := Nat.le_add_right _ _
      unfold Across at hacross hi
      omega
    have hcall : (Instruction.callBlock key).inlined b.fold = [.callBlock key] := by
      rw [Instruction.inlined, hb.fold key hne]
      rfl
    have hemitted : Abreast b k (if d.idx = first then d.emit (.callBlock key) else d)
        (if d'.idx = first' then d'.emit (.callBlock key) else d') := by
      by_cases hidx : d.idx = first
      · rw [if_pos hidx, if_pos ((hiff hfirst).2 hidx)]
        exact h.emits hcall
      · rw [if_neg hidx, if_neg fun hidx' => hidx ((hiff hfirst).1 hidx')]
        exact h
    generalize (if d.idx = first then d.emit (.callBlock key) else d) = f at hemitted ⊢
    generalize (if d'.idx = first' then d'.emit (.callBlock key) else d') = f' at hemitted ⊢
    by_cases hidx : d.idx = last
    · rw [if_pos hidx, if_pos ((hiff hlast).2 hidx)]
      have hnoted : Abreast b k { f with blocks := f.blocks.insert key ⟨d.idx + 1, stop, []⟩ }
          { f' with blocks := f'.blocks.insert key ⟨d'.idx + 1, stop', []⟩ } :=
        { hemitted with blocks := hb.blocks key hne hemitted.blocks (moved hacross hmoved []) }
      exact ⟨hnoted.skips _ _, stop, stop', hmoved, rfl, rfl⟩
    · rw [if_neg hidx, if_neg fun hidx' => hidx ((hiff hlast).1 hidx')]
      exact ⟨hemitted.skips _ _, stop, stop', hmoved, rfl, rfl⟩

end

/-- A token outside the word keeps drafts abreast. -/
theorem step_around (pos : Pos) (hw : w.Generates g g') (hb : b.Around w)
    (h : Abreast b k d.still d'.still)
    (htrim : d'.trimNext = d.trimNext) (hacross : w.Across d.idx d'.idx)
    (hout : Outside g.env.kinds g.env.tokens d.idx) (here : g.env.token? d.idx = some token)
    (hstep : g.step token d = .ok e) :
    ∃ e', g'.step (token.movedTo pos) d' = .ok e' ∧ Abreast b (token.depthBehind k) e.still e'.still ∧
      e'.trimNext = e.trimNext ∧ e.trimNext = token.isTag "trim" ∧
      ∃ j j', w.Across j j' ∧ e.idx = j + 1 ∧ e'.idx = j' + 1 := by
  have hscope : d'.scope = d.scope := hb.scopes.1 h.scopes
  have suited : ∀ tag, token = .tag tag →
      Suited b w.Across g.env g'.env k d.still d'.still tag pos := by
    rintro tag rfl
    exact ⟨fun _ => .inr hb.base, fun _ => hb.binds k, fun _ p hp => hb.inside h.stack hp,
      mixin_around d.still d'.still hw hacross hout here hb h,
      block_around d.still d'.still hw hacross hout here hb h⟩
  obtain ⟨e', hstep', ⟨habreast, hplaces⟩, hnext, hnext'⟩ :=
    Generator.step_abreast hw.builtin hw.builtin' hw.plain hw.plain' hb.lasting h htrim
      (facing hw hacross hout) here suited (fun base _ => by rw [hscope]) e hstep
  exact ⟨e', hstep', habreast, hnext'.trans hnext.symm, hnext, hplaces⟩

end Wrapping

/-! ## Runs -/

namespace Generator

variable {g : Generator} {d e : Draft} {tag : Tag}

/-- A trim moves to the next token. -/
theorem step_trim (hg : g.IsBuiltin) (hname : tag.name = "trim") (hstep : g.step (.tag tag) d = .ok e) :
    e.idx = d.idx + 1 := by
  unfold step handle at hstep
  dsimp only at hstep
  rw [hg.registry, hname] at hstep
  obtain rfl := Except.ok.inj hstep
  exact congrArg (· + 1) (Draft.idx_mark ..)

end Generator

/-- A body is being generated. If a text is about to be trimmed, there is a trim before it. -/
structure Underway (g : Generator) (A : Nat → Scope → Prop) (τ : Scope) (start stop : Nat)
    (below : List OpenBlock) (d₀ d : Draft) : Prop where
  going : Going g.env d₀ A τ start below d
  held : ∀ k σ, k < stop → g.Reaches d k σ → A k σ
  trims : d.trimNext = true → ∃ k token, d.idx = k + 1 ∧ Outside g.env.kinds g.env.tokens k ∧
    g.env.token? k = some token ∧ token.isTag "trim" = true

namespace Underway

variable {g : Generator} {A : Nat → Scope → Prop} {τ : Scope} {start stop : Nat}
  {below : List OpenBlock} {d₀ d next : Draft} {token : Token}

theorem outside (hg : g.IsBuiltin) (hlength : start ≤ g.env.tokens.length)
    (hstart : Outside g.env.kinds g.env.tokens start) (h : Underway g A τ start stop below d₀ d) :
    Outside g.env.kinds g.env.tokens d.idx :=
  h.going.stacked.outside hg.kinds hlength hstart

/-- It goes on with the next token. -/
theorem step (hg : g.IsBuiltin) (hτ : 0 < τ.depth) (hends : Ends g.env start below stop)
    (hlength : start ≤ g.env.tokens.length) (hstart : Outside g.env.kinds g.env.tokens start)
    (h : Underway g A τ start stop below d₀ d) (hlt : d.idx < stop)
    (here : g.env.token? d.idx = some token) (hstep : g.step token d = .ok next)
    (hnext : d.idx < next.idx) (htrim : next.trimNext = token.isTag "trim") :
    Underway g A τ start stop below d₀ next where
  going := (Generator.step_settles hg hτ hends h.going hlt here (h.held _ _ hlt (.here g d))).get hstep
  held k σ hk hreaches := h.held k σ hk (hreaches.step here hstep hnext)
  trims hpending := by
    rw [hpending] at htrim
    cases token with
    | raw | object => cases htrim
    | tag tag =>
      have hname : tag.name = "trim" := by simpa [Token.isTag] using htrim.symm
      exact ⟨d.idx, _, Generator.step_trim hg hname hstep, h.outside hg hlength hstart, here,
        htrim.symm⟩

end Underway

/-- The drafts are abreast in all of some ways, with one number of open blocks. -/
structure Along (benches : Bench → Prop) (d d' : Draft) : Prop where
  trims : d'.trimNext = d.trimNext
  abreast : ∃ k, ∀ b, benches b → Abreast b k d.still d'.still

namespace Wrapping

variable {w : Wrapping} {g g' : Generator} {A : Nat → Scope → Prop} {τ : Scope} {start stop : Nat}
  {below : List OpenBlock} {d₀ d d' e : Draft} {benches : Bench → Prop}

/-- A range outside the word keeps drafts along each other, at places that `P` relates. -/
theorem range_around {last : Nat} (last' : Nat) (P : Draft → Draft → Prop) (hw : w.Generates g g')
    (hbenches : ∀ b, benches b → b.Around w)
    (hsome : ∃ b, benches b) (hτ : 0 < τ.depth) (hends : Ends g.env start below stop)
    (hlength : start ≤ g.env.tokens.length) (hstart : Outside g.env.kinds g.env.tokens start)
    (hlast : last ≤ stop)
    (hlt : ∀ d d', P d d' → d.idx < last → w.Across d.idx d'.idx ∧ d'.idx < last')
    (hge : ∀ d d', P d d' → last ≤ d.idx → last' ≤ d'.idx)
    (hnext : ∀ d d' next next' token j j', P d d' → d.idx < last → g.env.token? d.idx = some token →
      g.step token d = .ok next → d.idx < next.idx → w.Across j j' → next.idx = j + 1 →
      next'.idx = j' + 1 → P next next')
    (hP : P d d') (hunder : Underway g A τ start stop below d₀ d) (h : Along benches d d')
    (hrange : g.generateRange last d = .ok e) :
    ∃ e', g'.generateRange last' d' = .ok e' ∧ P e e' ∧ Underway g A τ start stop below d₀ e ∧
      Along benches e e' ∧ (last ≤ e.idx ∨ g.env.token? e.idx = none) := by
  fun_induction Generator.generateRange g last d generalizing d' with
  | case1 d hidx hnone =>
    obtain rfl := Except.ok.inj hrange
    obtain ⟨hacross, hidx'⟩ := hlt d d' hP hidx
    rw [DraftEnv.token?, hw.tokens] at hnone
    have hnone' : g'.env.token? d'.idx = none := by
      rw [DraftEnv.token?, hw.wrapped]
      exact none_across hacross hnone
    refine ⟨d', ?_, hP, hunder, h, .inr (by rw [DraftEnv.token?, hw.tokens]; exact hnone)⟩
    rw [Generator.generateRange, dif_pos hidx']
    simp only [hnone']
  | case2 | case4 => cases hrange
  | case3 d hidx token here next hstep hnext' ih =>
    obtain ⟨hacross, hidx'⟩ := hlt d d' hP hidx
    have hout := hunder.outside hw.builtin hlength hstart
    obtain ⟨pos, here'⟩ : ∃ pos, g'.env.token? d'.idx = some (token.movedTo pos) := by
      rw [DraftEnv.token?, hw.tokens] at here
      rw [DraftEnv.token?, hw.wrapped]
      exact token_across hacross here
    obtain ⟨k, habreast⟩ := h.abreast
    obtain ⟨b, hb⟩ := hsome
    obtain ⟨next', hstep', _, htrims, htrim, j, j', hj, hnextIdx, hnextIdx'⟩ :=
      step_around pos hw (hbenches b hb) (habreast b hb) h.trims hacross hout here hstep
    have halong : Along benches next next' := by
      refine ⟨htrims, token.depthBehind k, fun b hb => ?_⟩
      obtain ⟨other, hother, hnextAbreast, _⟩ :=
        step_around pos hw (hbenches b hb) (habreast b hb) h.trims hacross hout here hstep
      obtain rfl := Except.ok.inj (hstep'.symm.trans hother)
      exact hnextAbreast
    have hforward : d'.idx < next'.idx := by
      have hword : w.first ≤ w.last := Nat.le_add_right _ _
      unfold Across at hacross hj
      omega
    rw [Generator.generateRange_next hidx' here' hstep' hforward]
    exact ih (hnext d d' next next' token j j' hP hidx here hstep hnext' hj hnextIdx hnextIdx')
      (hunder.step hw.builtin hτ hends hlength hstart (by omega) here hstep hnext' htrim) halong hrange
  | case5 d hidx =>
    obtain rfl := Except.ok.inj hrange
    have hle : last ≤ d.idx := Nat.not_lt.1 hidx
    exact ⟨d', Generator.generateRange_of_le _ (hge d d' hP hle), hP, hunder, h, .inl hle⟩

/-- Drafts that do not come to the word go on alike up to a place that has moved. -/
theorem range_across (hw : w.Generates g g') (hbenches : ∀ b, benches b → b.Around w)
    (hsome : ∃ b, benches b) (hτ : 0 < τ.depth) (hends : Ends g.env start below stop)
    (hlength : start ≤ g.env.tokens.length) (hstart : Outside g.env.kinds g.env.tokens start)
    {stop' : Nat} (hstop : w.Across stop stop')
    (hplace : w.Across d.idx d'.idx ∨ (d.idx ≤ w.first ∧ d'.idx = d.idx))
    (hapart : d.idx ≤ w.first → d'.idx = d.idx → w.first ≤ stop → ∀ σ, ¬ g.Reaches d w.first σ)
    (hunder : Underway g A τ start stop below d₀ d) (h : Along benches d d')
    (hrange : g.generateRange stop d = .ok e) :
    ∃ e', g'.generateRange stop' d' = .ok e' ∧ Underway g A τ start stop below d₀ e ∧
      Along benches e e' ∧ (stop ≤ e.idx ∨ g.env.token? e.idx = none) := by
  have hword : w.first ≤ w.last := Nat.le_add_right _ _
  rcases hstop with ⟨hbefore, rfl⟩ | ⟨hbehind, rfl⟩
  · obtain ⟨e', hrange', _, hends⟩ := range_around stop'
      (fun d d' => w.Across d.idx d'.idx ∨ (d.idx ≤ w.first ∧ d'.idx = d.idx))
      hw hbenches hsome hτ hends hlength hstart (Nat.le_refl stop')
      (fun d d' hP hlt => by unfold Across at hP ⊢; omega)
      (fun d d' hP hge => by unfold Across at hP; omega)
      (fun d d' next next' _ j j' _ _ _ _ _ hj hidx hidx' => by unfold Across at hj ⊢; omega)
      hplace hunder h hrange
    exact ⟨e', hrange', hends⟩
  · -- The word is in the range, but the drafts come to it in no case.
    have hfirst : w.first ≤ stop := Nat.le_trans hword hbehind
    have hacross {d d' : Draft} (hplace : w.Across d.idx d'.idx ∨ (d.idx ≤ w.first ∧ d'.idx = d.idx))
        (hapart : d.idx ≤ w.first → d'.idx = d.idx → w.first ≤ stop →
          ∀ σ, ¬ g.Reaches d w.first σ) : w.Across d.idx d'.idx := by
      rcases hplace with hacross | ⟨hle, heq⟩
      · exact hacross
      · obtain hlt | hat := Nat.lt_or_eq_of_le hle
        · exact .inl ⟨hlt, heq⟩
        · exact absurd (hat ▸ .here g d) (hapart hle heq hfirst d.scope)
    obtain ⟨e', hrange', _, hends⟩ := range_around (stop + 2)
      (fun d d' => w.Across d.idx d'.idx ∧
        (d.idx ≤ w.first → d'.idx = d.idx → w.first ≤ stop → ∀ σ, ¬ g.Reaches d w.first σ))
      hw hbenches hsome hτ hends hlength hstart (Nat.le_refl stop)
      (fun d d' hP hlt => ⟨hP.1, by have := hP.1; unfold Across at this; omega⟩)
      (fun d d' hP hge => by have := hP.1; unfold Across at this; omega)
      (fun d d' next next' token j j' hP hlt here hstep hnext hj hidx hidx' => by
        have hapart : next.idx ≤ w.first → next'.idx = next.idx → w.first ≤ stop →
            ∀ σ, ¬ g.Reaches next w.first σ := fun hle heq hstop σ hreaches => by
          have hacross := hP.1
          refine hP.2 (by omega) ?_ hstop σ (hreaches.step here hstep hnext)
          unfold Across at hacross
          omega
        refine ⟨hacross ?_ hapart, hapart⟩
        unfold Across at hj ⊢
        omega)
      ⟨hacross hplace hapart, hapart⟩ hunder h hrange
    exact ⟨e', hrange', hends⟩

/-- Drafts that start before the word go on alike until they come to it, or behind it. -/
theorem range_before (hw : w.Generates g g') (hbenches : ∀ b, benches b → b.Around w)
    (hsome : ∃ b, benches b) (hτ : 0 < τ.depth) (hends : Ends g.env start below stop)
    (hlength : start ≤ g.env.tokens.length) (hstart : Outside g.env.kinds g.env.tokens start)
    (hstop : w.first ≤ stop) (hle : d.idx ≤ w.first) (heq : d'.idx = d.idx)
    (hunder : Underway g A τ start stop below d₀ d) (h : Along benches d d')
    (hrange : g.generateRange w.first d = .ok e) :
    ∃ e', g'.generateRange w.first d' = .ok e' ∧ Underway g A τ start stop below d₀ e ∧
      Along benches e e' ∧ ((e.idx = w.first ∧ e'.idx = w.first) ∨
        (w.last < e.idx ∧ e'.idx = e.idx + 2)) := by
  have hword : w.first ≤ w.last := Nat.le_add_right _ _
  obtain ⟨e', hrange', hP, hunder', halong, hend⟩ := range_around w.first
    (fun d d' => (d.idx ≤ w.first ∧ d'.idx = d.idx) ∨ (w.last < d.idx ∧ d'.idx = d.idx + 2))
    hw hbenches hsome hτ hends hlength hstart hstop
    (fun d d' hP hlt => by unfold Across; omega)
    (fun d d' hP hge => by omega)
    (fun d d' next next' _ j j' _ _ _ _ _ hj hidx hidx' => by unfold Across at hj; omega)
    (.inl ⟨hle, heq⟩) hunder h hrange
  have hend : w.first ≤ e.idx := by
    rcases hend with hend | hnone
    · exact hend
    · have hlast := w.last_le
      rw [DraftEnv.token?, hw.tokens, List.getElem?_eq_none_iff] at hnone
      omega
  exact ⟨e', hrange', hunder', halong, by omega⟩

end Wrapping

end Stencil
