import Stencil.Proofs.Generation.Deferred

/-!
# Where blocks stand

The scan for named blocks passes over verbatim blocks, as the generator does. `Outside` tells of a
token that it stands in no verbatim block.

* `sites_spec`: the scan finds the first and the last tag of every name outside verbatim blocks.
* `Generator.HeldAt.outside`: the generator comes to no token inside a verbatim block.
-/

namespace Stencil

/-! ## Scanning -/

/-- The opener of the verbatim block that is open behind a token. -/
def TagKinds.behind (kinds : TagKinds) : Option Tag → Token → Option Tag
  | some opener, token => if token.isTag (closerOf opener.name) then none else some opener
  | none, .tag tag => if kinds.isVerbatim tag.name then some tag else none
  | none, _ => none

/-- The token at an index stands in no verbatim block. -/
def Outside (kinds : TagKinds) (tokens : List Token) (k : Nat) : Prop :=
  (tokens.take k).foldl kinds.behind none = none

/-- A tag of a named block. -/
def IsSite (token : Token) (name : String) : Prop :=
  ∃ tag, token = .tag tag ∧ tag.name = "block" ∧ (blockName? tag).getD "" = name

section

variable {kinds : TagKinds} {tokens : List Token} {i j k : Nat}

/-- A verbatim block stays open as long as no token closes it. -/
theorem TagKinds.behind_content {opener : Tag} {content : List Token}
    (inside : ∀ token ∈ content, token.isTag (closerOf opener.name) = false) :
    content.foldl kinds.behind (some opener) = some opener := by
  induction content with
  | nil => rfl
  | cons token content ih =>
    have hstays : kinds.behind (some opener) token = some opener := by
      simp [TagKinds.behind, inside token List.mem_cons_self]
    rw [List.foldl_cons, hstays]
    exact ih fun t ht => inside t (List.mem_cons_of_mem _ ht)

/-- Behind well-nested tokens no verbatim block is open. -/
theorem WellNested.behind (hk : kinds.Proper) (h : WellNested kinds tokens) :
    tokens.foldl kinds.behind none = none := by
  induction h with
  | nil => rfl
  | @plain token rest plain _ ih =>
    have hnone : kinds.behind none token = none := by
      cases token with
      | raw | object => rfl
      | tag tag => simp [TagKinds.behind, hk.looked_of_isBlock (plain tag rfl).1]
    rw [List.foldl_cons, hnone, ih]
  | @verbatim opener closer content rest opens inside closes _ ih =>
    have hcontent : content.foldl kinds.behind (some opener) = some opener :=
      TagKinds.behind_content inside
    have hopens : kinds.behind none (.tag opener) = some opener := by simp [TagKinds.behind, opens]
    have hcloses : kinds.behind (some opener) closer = none := by simp [TagKinds.behind, closes]
    rw [List.cons_append, List.foldl_cons, hopens, List.foldl_append, hcontent, List.foldl_cons,
      hcloses, ih]
  | @block opener closer inner rest opens looked _ closes _ ihinner ih =>
    have hopens : kinds.behind none (.tag opener) = none := by simp [TagKinds.behind, looked]
    have hcloses : kinds.behind none (.tag closer) = none := by
      simp [TagKinds.behind, closes, hk.looked_of_isBlock (hk.closerOf_isBlock _)]
    rw [List.cons_append, List.foldl_cons, hopens, List.foldl_append, ihinner, List.foldl_cons,
      hcloses, ih]

theorem Outside.zero (kinds : TagKinds) (tokens : List Token) : Outside kinds tokens 0 := rfl

theorem Outside.across (hk : kinds.Proper) (h : Outside kinds tokens i) (hij : i ≤ j)
    (hnested : WellNested kinds (between tokens i j)) : Outside kinds tokens j := by
  have hsplit := List.take_append_drop i (tokens.take j)
  rw [List.take_take, Nat.min_eq_left hij] at hsplit
  unfold Outside
  rw [← hsplit, List.foldl_append, h]
  exact hnested.behind hk

/-- Behind the opener of a block that is looked into, no verbatim block is open. -/
theorem Outside.succ {tag : Tag} (h : Outside kinds tokens k)
    (here : tokens[k]? = some (.tag tag)) (hlooked : kinds.isVerbatim tag.name = false) :
    Outside kinds tokens (k + 1) := by
  unfold Outside
  rw [List.take_add_one, here, List.foldl_append, h]
  simp [TagKinds.behind, hlooked]

/-- The content of a verbatim block stands in it. -/
theorem Outside.not_within {tag : Tag} {stop : Nat} (h : Outside kinds tokens i)
    (here : tokens[i]? = some (.tag tag)) (hverbatim : kinds.isVerbatim tag.name = true)
    (hends : verbatimEnd? tokens tag.name i = some stop) (hij : i < j) (hj : j ≤ stop) :
    ¬ Outside kinds tokens j := by
  obtain ⟨hlt, ⟨_, hcloser, _⟩, hinside⟩ := verbatimEnd?_eq_some hends
  have hsub : ∀ token ∈ between tokens (i + 1) j, token.isTag (closerOf tag.name) = false := by
    intro token htoken
    refine hinside token ?_
    rw [← between_append (by omega : i + 1 ≤ j) hj]
    exact List.mem_append_left _ htoken
  have hopens : kinds.behind none (.tag tag) = some tag := by simp [TagKinds.behind, hverbatim]
  have hsplit := List.take_append_drop (i + 1) (tokens.take j)
  rw [List.take_take, Nat.min_eq_left (Nat.succ_le_of_lt hij), List.take_add_one, here] at hsplit
  unfold Outside
  rw [← hsplit, List.foldl_append, List.foldl_append, h]
  show (between tokens (i + 1) j).foldl kinds.behind (kinds.behind none (.tag tag)) ≠ none
  rw [hopens, TagKinds.behind_content hsub]
  exact Option.some_ne_none tag

/-! ## Sites -/

theorem Sites.get?_note (sites : Sites) (name key : String) (idx : Nat) :
    Table.get? (sites.note name idx) key =
      if key = name then some (((sites.get? name).map Prod.fst).getD idx, idx)
      else Table.get? sites key := by
  unfold note
  split
  · next hsome => rw [Table.get?_insert, hsome]; rfl
  · next hnone => rw [Table.get?_insert, hnone]; rfl

/-- At an index behind some tokens, a tag of a named block stands in no verbatim block. -/
def SiteAt (kinds : TagKinds) (mode : Option Tag) (tokens : List Token) (k : Nat) (name : String) :
    Prop :=
  (tokens.take k).foldl kinds.behind mode = none ∧ ∃ token, tokens[k]? = some token ∧
    IsSite token name

theorem SiteAt.cons {mode : Option Tag} {token : Token} {name : String} :
    SiteAt kinds mode (token :: tokens) (k + 1) name ↔
      SiteAt kinds (kinds.behind mode token) tokens k name := Iff.rfl

/-- All sites were noted before an index. -/
def Sites.Before (sites : Sites) (idx : Nat) : Prop :=
  ∀ name first last, sites.get? name = some (first, last) → first ≤ last ∧ last < idx

/-- What a scan of tokens makes of sites. -/
structure Scans (kinds : TagKinds) (mode : Option Tag) (idx : Nat) (tokens : List Token)
    (sites sites' : Sites) : Prop where
  finds : ∀ name k, SiteAt kinds mode tokens k name →
    ∃ first last, sites'.get? name = some (first, last) ∧ first ≤ idx + k ∧ idx + k ≤ last
  keeps : ∀ name first last, sites.get? name = some (first, last) →
    ∃ last', sites'.get? name = some (first, last') ∧ last ≤ last'
  only : ∀ name first last, sites'.get? name = some (first, last) →
    sites.get? name = some (first, last) ∨
      ∃ k, last = idx + k ∧ SiteAt kinds mode tokens k name
  first : ∀ name first last, sites'.get? name = some (first, last) →
    (∃ last', sites.get? name = some (first, last')) ∨
      ∃ k, first = idx + k ∧ SiteAt kinds mode tokens k name

namespace Scans

variable {mode : Option Tag} {idx : Nat} {sites sites' : Sites} {token : Token}

theorem nil (sites : Sites) : Scans kinds mode idx [] sites sites where
  finds := fun _ _ ⟨_, token, here, _⟩ => by simp at here
  keeps := fun _ _ last h => ⟨last, h, Nat.le_refl last⟩
  only := fun _ _ _ h => .inl h
  first := fun _ _ last h => .inl ⟨last, h⟩

/-- A token that is no tag of a named block, or stands in a verbatim block, adds nothing. -/
theorem skip (hnone : ∀ name, mode = none → ¬ IsSite token name)
    (h : Scans kinds (kinds.behind mode token) (idx + 1) tokens sites sites') :
    Scans kinds mode idx (token :: tokens) sites sites' where
  finds name k hsite := by
    cases k with
    | zero =>
      obtain ⟨hmode, token', here, hsite⟩ := hsite
      obtain rfl : token = token' := Option.some.inj here
      exact absurd hsite (hnone name hmode)
    | succ k =>
      obtain ⟨first, last, hget, hfirst, hlast⟩ := h.finds name k (SiteAt.cons.1 hsite)
      exact ⟨first, last, hget, by omega, by omega⟩
  keeps := h.keeps
  only name first last hget := by
    rcases h.only name first last hget with hold | ⟨k, rfl, hsite⟩
    · exact .inl hold
    · exact .inr ⟨k + 1, by omega, SiteAt.cons.2 hsite⟩
  first name first last hget := by
    rcases h.first name first last hget with hold | ⟨k, rfl, hsite⟩
    · exact .inl hold
    · exact .inr ⟨k + 1, by omega, SiteAt.cons.2 hsite⟩

/-- The tag of a named block is noted. -/
theorem note {tag : Tag} (hblock : tag.name = "block")
    (hlooked : kinds.isVerbatim tag.name = false) (hbefore : sites.Before idx)
    (h : Scans kinds none (idx + 1) tokens (sites.note ((blockName? tag).getD "") idx) sites') :
    Scans kinds none idx (.tag tag :: tokens) sites sites' := by
  have hbehind : kinds.behind none (.tag tag) = none := by simp [TagKinds.behind, hlooked]
  have hnoted := h.keeps ((blockName? tag).getD "") _ idx
    ((Sites.get?_note sites _ _ idx).trans (if_pos rfl))
  have here : SiteAt kinds none (.tag tag :: tokens) 0 ((blockName? tag).getD "") :=
    ⟨rfl, .tag tag, rfl, tag, rfl, hblock, rfl⟩
  refine ⟨fun name k hsite => ?_, fun name first last hget => ?_, fun name first last hget => ?_,
    fun name first last hget => ?_⟩
  · cases k with
    | zero =>
      obtain ⟨_, token, here, tag', rfl, _, rfl⟩ := hsite
      obtain rfl : tag = tag' := Token.tag.inj (Option.some.inj here)
      obtain ⟨last, hget, hlast⟩ := hnoted
      refine ⟨_, last, hget, ?_, hlast⟩
      cases hold : sites.get? ((blockName? tag).getD "") with
      | none => exact Nat.le_refl _
      | some site =>
        have := hbefore _ _ _ hold
        show site.1 ≤ idx + 0
        omega
    | succ k =>
      rw [SiteAt.cons, hbehind] at hsite
      obtain ⟨first, last, hget, hfirst, hlast⟩ := h.finds name k hsite
      exact ⟨first, last, hget, by omega, by omega⟩
  · by_cases hname : name = (blockName? tag).getD ""
    · subst hname
      rw [hget] at hnoted
      obtain ⟨last', hget', hlast⟩ := hnoted
      have := hbefore _ _ _ hget
      exact ⟨last', hget', by omega⟩
    · exact h.keeps name first last ((Sites.get?_note sites _ _ idx).trans (if_neg hname ▸ hget))
  · rcases h.only name first last hget with hold | ⟨k, rfl, hsite⟩
    · rw [Sites.get?_note] at hold
      split at hold
      · next hname =>
        obtain ⟨_, rfl⟩ := Prod.mk.inj (Option.some.inj hold)
        exact .inr ⟨0, rfl, hname ▸ here⟩
      · exact .inl hold
    · refine .inr ⟨k + 1, by omega, ?_⟩
      rw [SiteAt.cons, hbehind]
      exact hsite
  · rcases h.first name first last hget with ⟨last', hold⟩ | ⟨k, rfl, hsite⟩
    · rw [Sites.get?_note] at hold
      split at hold
      · next hname =>
        obtain ⟨rfl, _⟩ := Prod.mk.inj (Option.some.inj hold)
        cases hbefore' : sites.get? ((blockName? tag).getD "") with
        | none => exact .inr ⟨0, rfl, hname ▸ here⟩
        | some site => exact .inl ⟨site.2, hname ▸ hbefore'⟩
      · exact .inl ⟨last', hold⟩
    · refine .inr ⟨k + 1, by omega, ?_⟩
      rw [SiteAt.cons, hbehind]
      exact hsite

end Scans

theorem Sites.Before.note {sites : Sites} {idx : Nat} (h : sites.Before idx) (name : String) :
    (sites.note name idx).Before (idx + 1) := by
  intro key first last hget
  rw [get?_note] at hget
  split at hget
  · obtain ⟨rfl, rfl⟩ := Prod.mk.inj (Option.some.inj hget)
    refine ⟨?_, Nat.lt_succ_self _⟩
    cases hold : sites.get? name with
    | none => exact Nat.le_refl _
    | some site =>
      have := h _ _ _ hold
      show site.1 ≤ idx
      omega
  · have := h key first last hget
    omega

theorem Sites.Before.succ {sites : Sites} {idx : Nat} (h : sites.Before idx) :
    sites.Before (idx + 1) := fun name first last hget => by
  have := h name first last hget
  omega

theorem scans_of_sitesFrom (hkinds : kinds.isVerbatim "block" = false) {mode : Option Tag}
    {idx : Nat} {sites sites' : Sites} (h : sitesFrom kinds mode idx sites tokens = .ok sites')
    (hbefore : sites.Before idx) : Scans kinds mode idx tokens sites sites' := by
  fun_induction sitesFrom kinds mode idx sites tokens with
  | case1 => cases h
  | case2 =>
    obtain rfl := Except.ok.inj h
    exact .nil _
  | case3 opener idx sites token rest hcloses ih =>
    refine .skip (fun _ hmode => by cases hmode) ?_
    have hbehind : kinds.behind (some opener) token = none := if_pos hcloses
    rw [hbehind]
    exact ih h hbefore.succ
  | case4 opener idx sites token rest hcloses ih =>
    refine .skip (fun _ hmode => by cases hmode) ?_
    have hbehind : kinds.behind (some opener) token = some opener := if_neg hcloses
    rw [hbehind]
    exact ih h hbefore.succ
  | case5 idx sites tag rest hverbatim ih =>
    refine .skip (fun name _ hsite => ?_) ?_
    · obtain ⟨tag', heq, hname, _⟩ := hsite
      obtain rfl := Token.tag.inj heq
      rw [hname, hkinds] at hverbatim
      cases hverbatim
    · have hbehind : kinds.behind none (.tag tag) = some tag := if_pos hverbatim
      rw [hbehind]
      exact ih h hbefore.succ
  | case6 idx sites tag rest hverbatim hblock ih =>
    exact .note hblock (by simpa using hverbatim) hbefore (ih h (hbefore.note _))
  | case7 idx sites tag rest hverbatim hblock ih =>
    refine .skip (fun name _ hsite => ?_) ?_
    · obtain ⟨tag', heq, hname, _⟩ := hsite
      obtain rfl := Token.tag.inj heq
      exact hblock hname
    · have hbehind : kinds.behind none (.tag tag) = none := if_neg hverbatim
      rw [hbehind]
      exact ih h hbefore.succ
  | case8 idx sites token rest hno ih =>
    refine .skip (fun name _ hsite => ?_) ?_
    · obtain ⟨tag, rfl, _⟩ := hsite
      exact hno tag rfl
    · have hbehind : kinds.behind none token = none := by
        cases token with
        | raw | object => rfl
        | tag tag => exact absurd rfl (hno tag)
      rw [hbehind]
      exact ih h hbefore.succ

/-- The scan finds the first and the last tag of a name. -/
theorem sites_spec (hkinds : kinds.isVerbatim "block" = false) {sites : Sites}
    (h : blockSites kinds tokens = .ok sites) : Scans kinds none 0 tokens {} sites :=
  scans_of_sitesFrom hkinds h fun _ _ _ hget => by cases hget

/-- What the scan finds are tags of blocks. -/
theorem siteAt_of_sites (hkinds : kinds.isVerbatim "block" = false) {sites : Sites} {name : String}
    {first last : Nat} (h : blockSites kinds tokens = .ok sites)
    (hget : sites.get? name = some (first, last)) :
    SiteAt kinds none tokens first name ∧ SiteAt kinds none tokens last name := by
  have hscan := sites_spec hkinds h
  constructor
  · rcases hscan.first name first last hget with ⟨_, hnone⟩ | ⟨k, hk, hsite⟩
    · cases hnone
    · obtain rfl : first = k := by omega
      exact hsite
  · rcases hscan.only name first last hget with hnone | ⟨k, hk, hsite⟩
    · cases hnone
    · obtain rfl : last = k := by omega
      exact hsite

end

/-! ## Tokens that are generated -/

theorem not_isVerbatim {name : String} (h : name ∉ verbatimTags) :
    TagRegistry.builtin.kinds.isVerbatim name = false := by
  cases hverbatim : TagRegistry.builtin.kinds.isVerbatim name with
  | false => rfl
  | true => exact absurd (mem_verbatimTags.1 hverbatim) h

section

variable {env : DraftEnv} {L : String → Prop} {A : Nat → Scope → Prop} {τ σ : Scope}
  {start i : Nat} {below stack : List OpenBlock}

/-- What fills a block leads out of no place but one outside verbatim blocks. -/
theorem Filled.outside (hkinds : env.kinds = TagRegistry.builtin.kinds) {kind : OpenKind}
    {found : List Instruction} (hlength : start ≤ env.tokens.length)
    (hstart : Outside env.kinds env.tokens start) (h : Filled env L A σ start kind found i) :
    Outside env.kinds env.tokens i := by
  obtain ⟨hle, _, hnested⟩ := h.wellNested hkinds hlength
  rw [hkinds] at hstart ⊢
  exact hstart.across builtin_proper hle hnested

theorem Stacked.outside (hkinds : env.kinds = TagRegistry.builtin.kinds)
    (hlength : start ≤ env.tokens.length) (hstart : Outside env.kinds env.tokens start)
    (h : Stacked env L A τ start below stack σ i) : Outside env.kinds env.tokens i := by
  induction h with
  | ground filled => exact filled.outside hkinds hlength hstart
  | @block _ _ kind _ k _ _ _ _ inner here opener _ filled ih =>
    refine filled.outside hkinds (List.getElem?_eq_some_iff.1 here).1 (ih.succ here ?_)
    rw [hkinds, opener]
    exact not_isVerbatim (kind.opener_mem inner).2

/-- A body that was left behind at a place outside verbatim blocks begins outside them. -/
theorem Defers.outside {opener name : String} {k : Nat} {tag : Tag} {body : Deferred}
    (hkinds : env.kinds = TagRegistry.builtin.kinds) (hopener : opener ∉ verbatimTags)
    (h : Defers env opener k tag name body) (hk : Outside env.kinds env.tokens k) :
    Outside env.kinds env.tokens body.start := by
  rw [h.start]
  refine hk.succ h.here ?_
  rw [hkinds, h.tag_name]
  exact not_isVerbatim hopener

end

namespace Generator

variable {g : Generator} {d d₀ : Draft} {τ σ : Scope} {start stop k : Nat}
  {below : List OpenBlock}

theorem Reaches.outside (hg : g.IsBuiltin) (hτ : 0 < τ.depth) (hends : Ends g.env start below stop)
    (hlength : start ≤ g.env.tokens.length) (hstart : Outside g.env.kinds g.env.tokens start)
    (h : Going g.env d₀ (fun _ _ => True) τ start below d) (hk : k < stop)
    (hreaches : g.Reaches d k σ) : Outside g.env.kinds g.env.tokens k := by
  obtain ⟨mid, rfl, _, hgoing, _⟩ := hreaches.going hg hτ hends h (fun _ _ _ _ => trivial)
    (Nat.le_of_lt hk)
  exact hgoing.stacked.outside hg.kinds hlength hstart

theorem Reaches.outside_main (hg : g.IsBuiltin) (hk : k < g.env.tokens.length)
    (hreaches : g.Reaches {} k σ) : Outside g.env.kinds g.env.tokens k := by
  have hdepth : 0 < ({} : Scope).depth := Nat.succ_pos 0
  exact hreaches.outside hg hdepth .main (Nat.zero_le _) (.zero _ _) (Going.begins g.env _) hk

/-- What is reached in the body that is generated next stands outside verbatim blocks. -/
theorem Reaches.outside_next {found : List Instruction} {program : Program} {body : Deferred}
    (hg : g.IsBuiltin)
    (h : Between g.env (fun k _ => Outside g.env.kinds g.env.tokens k) found d program)
    (hnext : d.next? program = some body) (hk : k < body.stop)
    (hreaches : g.Reaches (d.begin body) k σ) : Outside g.env.kinds g.env.tokens k := by
  obtain ⟨opener, hopener, name, m, tag, _, defers, hm⟩ := h.resting.next hnext
  have hlooked : ∀ opener ∈ ["mixin", "block"], opener ∉ verbatimTags := by decide
  have hτ := Scope.depth_opened_pos (Scope.behind {} found.reverse) body.params
  exact hreaches.outside hg hτ (.deferred defers) defers.start_le
    (defers.outside hg.kinds (hlooked opener hopener) hm)
    (h.resting.opened (fun _ _ _ => trivial) body) hk

/-- Bodies are left behind outside verbatim blocks, by the main body and in every round. -/
theorem generateMain_outside (hg : g.IsBuiltin) :
    Settles (fun d => ∃ found,
      Between g.env (fun k _ => Outside g.env.kinds g.env.tokens k) found d {}) g.generateMain :=
  generateMain_settles hg fun _ _ hk => Reaches.outside_main hg hk

theorem generateDeferred_outside (hg : g.IsBuiltin) {found : List Instruction} {program : Program}
    (h : Between g.env (fun k _ => Outside g.env.kinds g.env.tokens k) found d program)
    (rounds : Nat) : Settles (fun (d', program') =>
      Between g.env (fun k _ => Outside g.env.kinds g.env.tokens k) found d' program')
      (g.generateDeferred rounds d program) :=
  (generateDeferred_settles hg h rounds fun _ _ _ _ hnow _ hnext _ _ hk =>
    Reaches.outside_next hg hnow hnext hk).mono fun _ h => h.1

/-- No mixin and no block has two bodies. -/
theorem generate_nodup {made : Generated} (hg : g.IsBuiltin) (hmade : g.generate = .ok made) :
    made.program.mixins.keys.Nodup ∧ made.program.blocks.keys.Nodup := by
  obtain ⟨main, last, program, hmain, hlast, _, hprogram⟩ := generate_ok hmade
  obtain ⟨found, hfirst⟩ := (generateMain_outside hg).get hmain
  have hbetween := (generateDeferred_outside hg hfirst _).get hlast
  rw [hprogram]
  exact ⟨hbetween.mixins_nodup.sublist hbetween.mixins.sublist,
    hbetween.blocks_nodup.sublist hbetween.blocks.sublist⟩

/-- The generator comes to no token inside a verbatim block. -/
theorem HeldAt.outside (hg : g.IsBuiltin) (h : g.HeldAt k σ) :
    Outside g.env.kinds g.env.tokens k := by
  cases h with
  | main hk hreaches => exact hreaches.outside_main hg hk
  | @deferred main d program rounds deferred first done next hk hreaches =>
    obtain ⟨found, hbetween⟩ := (generateMain_outside hg).get first
    have hbetween' := (generateDeferred_outside hg hbetween rounds).get done
    exact hreaches.outside_next hg hbetween' next hk

end Generator

/-! ## Last tags -/

section

variable {env : DraftEnv} {k : Nat} {tag : Tag} {name : String}

/-- The last tag of a named block. -/
def DraftEnv.lastSite (env : DraftEnv) (name : String) : Nat :=
  ((env.sites.get? name).map Prod.snd).getD 0

theorem DraftEnv.lastSite_of_get? {first last : Nat}
    (h : env.sites.get? name = some (first, last)) : env.lastSite name = last := by
  rw [lastSite, h]
  rfl

/-- A tag of a named block that stands in no verbatim block was found. -/
theorem DraftEnv.site_found (hkinds : env.kinds = TagRegistry.builtin.kinds)
    (hsites : blockSites env.kinds env.tokens = .ok env.sites)
    (houtside : Outside env.kinds env.tokens k) (here : env.token? k = some (.tag tag))
    (hblock : tag.name = "block") (hname : blockName? tag = some name) :
    ∃ first last, env.sites.get? name = some (first, last) ∧ first ≤ k ∧ k ≤ last := by
  have hlooked : env.kinds.isVerbatim "block" = false := by
    rw [hkinds]
    exact not_isVerbatim (by decide)
  have hsite : IsSite (.tag tag) name := ⟨tag, rfl, hblock, by rw [hname]; rfl⟩
  obtain ⟨first, last, hget, hfirst, hlast⟩ :=
    (sites_spec hlooked hsites).finds name k ⟨houtside, _, here, hsite⟩
  exact ⟨first, last, hget, by omega, by omega⟩

/-- The last tag that was found stands in no verbatim block. -/
theorem DraftEnv.last_site (hkinds : env.kinds = TagRegistry.builtin.kinds)
    (hsites : blockSites env.kinds env.tokens = .ok env.sites) {first last : Nat}
    (h : env.sites.get? name = some (first, last)) :
    Outside env.kinds env.tokens last ∧ ∃ tag, env.token? last = some (.tag tag) ∧
      tag.name = "block" ∧ (blockName? tag).getD "" = name := by
  have hlooked : env.kinds.isVerbatim "block" = false := by
    rw [hkinds]
    exact not_isVerbatim (by decide)
  obtain ⟨_, houtside, _, here, tag, rfl, hblock, hname⟩ := siteAt_of_sites hlooked hsites h
  exact ⟨houtside, tag, here, hblock, hname⟩

/-- So does the first one. -/
theorem DraftEnv.first_site (hkinds : env.kinds = TagRegistry.builtin.kinds)
    (hsites : blockSites env.kinds env.tokens = .ok env.sites) {first last : Nat}
    (h : env.sites.get? name = some (first, last)) :
    Outside env.kinds env.tokens first ∧ ∃ tag, env.token? first = some (.tag tag) ∧
      tag.name = "block" ∧ (blockName? tag).getD "" = name := by
  have hlooked : env.kinds.isVerbatim "block" = false := by
    rw [hkinds]
    exact not_isVerbatim (by decide)
  obtain ⟨⟨houtside, _, here, tag, rfl, hblock, hname⟩, _⟩ := siteAt_of_sites hlooked hsites h
  exact ⟨houtside, tag, here, hblock, hname⟩

/-- Of the blocks of one name, the last one is left behind. -/
theorem Defers.lastSite_eq {body : Deferred} (hkinds : env.kinds = TagRegistry.builtin.kinds)
    (hsites : blockSites env.kinds env.tokens = .ok env.sites)
    (h : Defers env "block" k tag name body) (houtside : Outside env.kinds env.tokens k) :
    env.lastSite name = k := by
  obtain ⟨first, last, hsite, _⟩ :=
    DraftEnv.site_found hkinds hsites houtside h.here h.tag_name h.named
  have hlast := h.last.resolve_left (by decide)
  rw [hsite] at hlast
  rw [DraftEnv.lastSite_of_get? hsite]
  exact hlast

end

end Stencil
