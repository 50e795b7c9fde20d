import Stencil.Proofs.Generation.Sites
import Stencil.Proofs.Generation.Blocks

/-!
# Tokens that are generated

What stands between some tags may never be generated: the content of a script, the body of a mixin
that is defined again, and the body of a block that is written again behind (`Drops`).

* `Filled.covers`: the tokens of a body are generated, but for those inside verbatim blocks, scripts,
  and bodies that are left behind.
* `Generator.heldAt_of_filled`: so every token is generated that stands in no verbatim block and that
  no tag drops.
* `callBlock_defined`: a block that is called has a body exactly if its last tag is generated.
-/

namespace Stencil

/-- What stands between the tag and its closing tag may be left out. -/
inductive Drops (env : DraftEnv) (k : Nat) (tag : Tag) : Prop where
  | script (name : tag.name = "js")
  | mixin {m : Nat} {other : Tag} (name : tag.name = "mixin") (other_name : other.name = "mixin")
      (again : env.token? m = some (.tag other)) (outside : Outside env.kinds env.tokens m)
      (same : blockName? other = blockName? tag) (ne : m ≠ k)
  | block {name : String} (block : tag.name = "block") (reads : blockName? tag = some name)
      (behind : env.lastSite name ≠ k)

/-- No tag around the token at an index drops it. -/
def Kept (env : DraftEnv) (j : Nat) : Prop :=
  ∀ k tag stop, k < j → j < stop → Outside env.kinds env.tokens k →
    env.token? k = some (.tag tag) →
    closingTag env.kinds env.tokens (closerOf tag.name) k = .ok stop → ¬ Drops env k tag

/-- How a body comes to a token outside verbatim blocks: it is generated, or a closing tag, or it
stands between tags whose content is not generated with the body. -/
inductive Covers (env : DraftEnv) (A : Nat → Scope → Prop) (start j : Nat) : Prop where
  | held {σ : Scope} (held : A j σ)
  | closer {tag : Tag} (here : env.token? j = some (.tag tag)) (closer : isCloser tag.name = true)
  | inside {k stop : Nat} {tag : Tag} {σ : Scope} (le : start ≤ k) (lt : k < j) (before : j < stop)
      (here : env.token? k = some (.tag tag)) (held : A k σ)
      (defers : tag.name ∈ ["js", "mixin", "block"])
      (closes : closingTag env.kinds env.tokens (closerOf tag.name) k = .ok stop)

section

variable {env : DraftEnv} {L : String → Prop} {A : Nat → Scope → Prop} {σ : Scope}
  {start i j : Nat} {kind : OpenKind}

theorem Covers.mono {start' : Nat} (h : Covers env A start j) (hle : start' ≤ start) :
    Covers env A start' j := by
  cases h with
  | held held => exact .held held
  | closer here closer => exact .closer here closer
  | inside le lt before here held defers closes =>
    exact .inside (Nat.le_trans hle le) lt before here held defers closes

/-- The closing tag that was found is one. -/
theorem Covers.of_closingTag {name : String}
    (h : closingTag env.kinds env.tokens (closerOf name) i = .ok j) : Covers env A start j := by
  obtain ⟨_, closer, here, hname⟩ := wellNested_of_closingTag h
  exact .closer here (by rw [hname]; exact isCloser_closerOf name)

/-- The opener of a block was generated. -/
theorem Filled.opener_held {found : List Instruction} (h : Filled env L A σ start kind found i)
    (hkind : kind ≠ .root) : ∃ k, start = k + 1 ∧ A k σ := by
  induction h with
  | root => exact absurd rfl hkind
  | opened _ held => exact ⟨_, rfl, held⟩
  | mark _ _ _ ih | leaf _ _ _ ih => exact ih hkind
  | nested _ _ _ _ _ _ ih => exact ih hkind
  | turn _ turns _ ih => exact ih (by cases turns <;> nofun)

theorem Leaf.covers {stop : Nat} {added : List Instruction}
    (hkinds : env.kinds = TagRegistry.builtin.kinds)
    (houtside : ∀ k σ, A k σ → Outside env.kinds env.tokens k) (held : A i σ)
    (h : Leaf env L σ i added stop) (hi : i ≤ j) (hj : j < stop)
    (hout : Outside env.kinds env.tokens j) : Covers env A i j := by
  obtain rfl | hi := Nat.eq_or_lt_of_le hi
  · exact .held held
  have deferred {tag : Tag} {closer : Nat} (here : env.token? i = some (.tag tag))
      (hname : tag.name ∈ ["js", "mixin", "block"]) (hle : j ≤ closer)
      (closes : closingTag env.kinds env.tokens (closerOf tag.name) i = .ok closer) :
      Covers env A i j := by
    obtain rfl | hlt := Nat.eq_or_lt_of_le hle
    · exact .of_closingTag closes
    · exact .inside (Nat.le_refl i) hi hlt here held hname closes
  have verbatim {tag : Tag} {closer : Nat} (here : env.token? i = some (.tag tag))
      (hname : tag.name ∈ verbatimTags) (hle : j ≤ closer)
      (ends : verbatimEnd? env.tokens tag.name i = some closer) : Covers env A i j := by
    refine absurd hout (Outside.not_within (houtside i _ held) here ?_ ends hi hle)
    rw [hkinds]
    exact mem_verbatimTags.2 hname
  cases h with
  | capture here name _ ends | raw here name ends | comment here name ends =>
    exact verbatim here (by rw [name]; decide) (Nat.le_of_lt_succ hj) ends
  | script here name closes =>
    exact deferred here (by rw [name]; decide) (Nat.le_of_lt_succ hj) (by rw [name]; exact closes)
  | mixin here name closes =>
    exact deferred here (by rw [name]; decide) (Nat.le_of_lt_succ hj) (by rw [name]; exact closes)
  | block here name _ _ closes =>
    exact deferred here (by rw [name]; decide) (Nat.le_of_lt_succ hj) (by rw [name]; exact closes)
  | text | object | assign | «break» | «continue» | callMixin | trim => omega

/-- A body comes to all of its tokens that stand outside verbatim blocks. -/
theorem Filled.covers {found : List Instruction} (hkinds : env.kinds = TagRegistry.builtin.kinds)
    (houtside : ∀ k σ, A k σ → Outside env.kinds env.tokens k)
    (h : Filled env L A σ start kind found i) (hlength : start ≤ env.tokens.length)
    (hstart : start ≤ j) (hj : j < i) (hout : Outside env.kinds env.tokens j) :
    Covers env A start j := by
  induction h with
  | root | opened => omega
  | mark _ _ _ ih => exact ih hlength hstart hj
  | @leaf _ start i stop kind found added filled leaf held ih =>
    by_cases hlt : j < i
    · exact ih hlength hstart hlt
    · exact (leaf.covers hkinds houtside held (by omega) hj hout).mono
        (filled.wellNested hkinds hlength).1
  | @nested _ start i stop kind inner found content tag instruction filled here opener closes body
      complete ih ihbody =>
    by_cases hlt : j < i
    · exact ih hlength hstart hlt
    obtain rfl | hi := Nat.eq_or_lt_of_le (Nat.le_of_not_lt hlt)
    · obtain ⟨k, hk, held⟩ := body.opener_held (by rintro rfl; cases complete)
      cases hk
      exact .held held
    obtain rfl | hstop := Nat.eq_or_lt_of_le (Nat.le_of_lt_succ hj)
    · exact .of_closingTag closes
    · have hle := (filled.wellNested hkinds hlength).1
      have hk := (List.getElem?_eq_some_iff.1 here).1
      exact (ihbody hk hi hstop).mono (by omega)
  | @turn _ start i kind next found filled turns held ih =>
    by_cases hlt : j < i
    · exact ih hlength hstart hlt
    · obtain rfl : j = i := by omega
      exact .held held

end

/-! ## Bodies that are not left out -/

/-- A tag is the last one of its name if no other was found. -/
theorem DraftEnv.getD_lastSite {env : DraftEnv} {name : String} {k : Nat}
    (h : env.lastSite name = k) : ((env.sites.get? name).getD (k, k)).2 = k := by
  unfold lastSite at h
  cases hsite : env.sites.get? name with
  | none => rfl
  | some site =>
    rw [hsite] at h
    exact h

namespace Handler

variable {env : DraftEnv} {tag : Tag} {d : Draft}

theorem mixin_defines : Settles (fun d' => ∃ name, blockName? tag = some name ∧
    d'.mixins.contains name = true) (mixin env tag d) := by
  unfold mixin
  split
  · exact misuse_settles ..
  · next name texts hwords =>
    refine .guard (fun _ => refuse_settles rfl env tag) fun _ => ?_
    dsimp only
    split
    · exact refuse_settles rfl env tag
    · refine .bind (findTag_settles env d "endmixin") fun stop _ => ?_
      have hname : blockName? tag = some name := by rw [blockName?, hwords]; rfl
      exact .ok ⟨name, hname, Table.contains_insert.2 (.inl rfl)⟩

theorem block_defines : Settles (fun d' => ∃ name, blockName? tag = some name ∧
    (((env.sites.get? name).getD (d.idx, d.idx)).2 = d.idx → d'.blocks.contains name = true))
    (block env tag d) := by
  unfold block
  split
  · exact misuse_settles ..
  · next name hname =>
    refine .bind (findTag_settles env d "endblock") fun stop _ => ?_
    dsimp only
    split
    · exact .ok ⟨name, hname, fun _ => Table.contains_insert.2 (.inl rfl)⟩
    · next hlast => exact .ok ⟨name, hname, fun h => absurd h.symm hlast⟩

end Handler

namespace Generator

variable {g : Generator} {made : Generated} {k j : Nat} {σ : Scope} {tag : Tag}

/-- The mixin of a tag that is generated is in the program. -/
theorem HeldAt.defines_mixin (hg : g.IsBuiltin) (hmade : g.generate = .ok made)
    (h : g.HeldAt k σ) (here : g.env.token? k = some (.tag tag)) (hname : tag.name = "mixin") :
    ∃ name, blockName? tag = some name ∧ name ∈ made.program.mixins.keys := by
  obtain ⟨main, last, program, hmain, hlast, hmixins, _⟩ := generate_complete hg hmade
  let P (d : Draft) : Prop := ∃ name, blockName? tag = some name ∧ d.mixins.contains name = true
  have hdefined : P last := by
    refine h.outcome hg ?_ ?_ hmain hlast
    · rintro d d' hgrows ⟨name, hread, hcontains⟩
      exact ⟨name, hread, hgrows.mixins.contains hcontains⟩
    · intro d d' token _ _ here' hstep
      obtain rfl := Option.some.inj (here.symm.trans here')
      unfold step handle at hstep
      dsimp only at hstep
      rw [hg.registry, hname] at hstep
      exact Handler.mixin_defines.get hstep
  obtain ⟨name, hread, hcontains⟩ := hdefined
  exact ⟨name, hread, hmixins ▸ Table.contains_iff.1 hcontains⟩

/-- The block of a tag that is generated is in the program, if it is the last tag of its name. -/
theorem HeldAt.defines_block (hg : g.IsBuiltin) (hmade : g.generate = .ok made)
    (h : g.HeldAt k σ) (here : g.env.token? k = some (.tag tag)) (hname : tag.name = "block") :
    ∃ name, blockName? tag = some name ∧
      (g.env.lastSite name = k → name ∈ made.program.blocks.keys) := by
  obtain ⟨main, last, program, hmain, hlast, _, hblocks⟩ := generate_complete hg hmade
  let P (d : Draft) : Prop := ∃ name, blockName? tag = some name ∧
    (g.env.lastSite name = k → d.blocks.contains name = true)
  have hdefined : P last := by
    refine h.outcome hg ?_ ?_ hmain hlast
    · rintro d d' hgrows ⟨name, hread, hcontains⟩
      exact ⟨name, hread, fun hk => hgrows.blocks.contains (hcontains hk)⟩
    · rintro d d' token rfl _ here' hstep
      obtain rfl := Option.some.inj (here.symm.trans here')
      unfold step handle at hstep
      dsimp only at hstep
      rw [hg.registry, hname] at hstep
      obtain ⟨name, hread, hcontains⟩ := Handler.block_defines.get hstep
      refine ⟨name, hread, fun hk => hcontains ?_⟩
      rw [Draft.idx_mark]
      exact DraftEnv.getD_lastSite hk
  obtain ⟨name, hread, hcontains⟩ := hdefined
  exact ⟨name, hread, fun hk => hblocks ▸ Table.contains_iff.1 (hcontains hk)⟩

variable {L : String → Prop}

/-- The content of a tag that was generated is generated as a body of its own, unless the tag drops
it. -/
theorem HeldAt.opens_body {stop : Nat} (hg : g.IsBuiltin) (hmade : g.generate = .ok made)
    (hsites : blockSites g.env.kinds g.env.tokens = .ok g.env.sites)
    (hprogram : Made g.env L g.HeldAt made.program) (h : g.HeldAt k σ)
    (here : g.env.token? k = some (.tag tag)) (hname : tag.name ∈ ["js", "mixin", "block"])
    (closes : closingTag g.env.kinds g.env.tokens (closerOf tag.name) k = .ok stop)
    (hdrops : ¬ Drops g.env k tag) :
    ∃ τ found, Filled g.env L g.HeldAt τ (k + 1) .root found stop := by
  -- The body was left behind at this tag, because there is no other one.
  have becomes {opener name : String} {m : Nat} {other : Tag} {body : Deferred}
      {instructions : List Instruction} {τ : Scope} (hopener : tag.name = opener)
      (defers : Defers g.env opener m other name body) (hm : m = k)
      (hbecomes : body.Becomes g.env L g.HeldAt τ instructions) :
      ∃ τ found, Filled g.env L g.HeldAt τ (k + 1) .root found stop := by
    obtain ⟨found, _, filled⟩ := hbecomes
    have hstop := defers.closes
    rw [hm, ← hopener, closes] at hstop
    rw [defers.start, hm, ← Except.ok.inj hstop] at filled
    exact ⟨_, found, filled⟩
  simp only [List.mem_cons, List.not_mem_nil, or_false] at hname
  rcases hname with hname | hname | hname
  · exact absurd (.script hname) hdrops
  · obtain ⟨name, hread, hkey⟩ := h.defines_mixin hg hmade here hname
    obtain ⟨e, he, rfl⟩ := List.mem_map.1 hkey
    obtain ⟨body, ⟨m, other, _, defers, hm⟩, _, hbecomes⟩ := hprogram.calls.mixins e he
    refine becomes hname defers ?_ hbecomes
    by_contra hne
    exact hdrops (.mixin hname defers.tag_name defers.here (hm.outside hg)
      (defers.named.trans hread.symm) hne)
  · obtain ⟨name, hread, hkey⟩ := h.defines_block hg hmade here hname
    have hlast : g.env.lastSite name = k := by
      by_contra hne
      exact hdrops (.block hname hread hne)
    obtain ⟨e, he, rfl⟩ := List.mem_map.1 (hkey hlast)
    obtain ⟨body, ⟨m, other, _, defers, hm⟩, hbecomes⟩ := hprogram.calls.blocks e he
    refine becomes hname defers ?_ hbecomes
    rw [← hlast, defers.lastSite_eq hg.kinds hsites (hm.outside hg)]

/-- A token of a body is generated, if it stands in no verbatim block and no tag drops it. -/
theorem heldAt_of_filled {τ : Scope} {start i : Nat} {found : List Instruction} (hg : g.IsBuiltin)
    (hmade : g.generate = .ok made)
    (hsites : blockSites g.env.kinds g.env.tokens = .ok g.env.sites)
    (hprogram : Made g.env L g.HeldAt made.program)
    (hcloser : ∀ tag, g.env.token? j = some (.tag tag) → isCloser tag.name = false)
    (hout : Outside g.env.kinds g.env.tokens j) (hkept : Kept g.env j)
    (hfilled : Filled g.env L g.HeldAt τ start .root found i)
    (hlength : start ≤ g.env.tokens.length) (hstart : start ≤ j) (hj : j < i) :
    ∃ σ, g.HeldAt j σ := by
  have houtside (k : Nat) (σ : Scope) (h : g.HeldAt k σ) : Outside g.env.kinds g.env.tokens k :=
    h.outside hg
  cases hfilled.covers hg.kinds houtside hlength hstart hj hout with
  | held held => exact ⟨_, held⟩
  | closer here closer =>
    rw [hcloser _ here] at closer
    cases closer
  | @inside k stop tag _ le lt before here held defers closes =>
    have hdrops := hkept k tag stop lt before (held.outside hg) here closes
    obtain ⟨_, _, hinner⟩ := held.opens_body hg hmade hsites hprogram here defers closes hdrops
    have hk := (List.getElem?_eq_some_iff.1 here).1
    exact heldAt_of_filled hg hmade hsites hprogram hcloser hout hkept hinner hk lt before
termination_by j - start

end Generator

/-! ## Blocks that are called -/

/-- A block that is called is there exactly if the last tag of its name is generated, which it is if
no tag around it drops it. -/
theorem callBlock_defined (tokens : List Token) (files : Files) (positions : Bool) (made : Generated)
    (hmade : generate tokens files .builtin positions = .ok made) (name : String)
    (holds : made.program.Holds (.callBlock name)) :
    ∃ sites, blockSites TagRegistry.builtin.kinds tokens = .ok sites ∧
      let g := builtinGenerator tokens files positions sites
      (made.program.blocks.contains name = true ↔ ∃ σ, g.HeldAt (g.env.lastSite name) σ) ∧
      (Kept g.env (g.env.lastSite name) → made.program.blocks.contains name = true) := by
  obtain ⟨sites, hsites, hprogram⟩ := (generate_settles tokens files positions).get hmade
  refine ⟨sites, hsites, ?_⟩
  intro g
  have hg : g.IsBuiltin := ⟨rfl, rfl⟩
  have hgenerate : g.generate = .ok made := (generate_eq hsites).symm.trans hmade
  -- The call comes from a tag of the block, so that there is a last one.
  obtain ⟨m, τ, called, _, _, hm, hcalled, hblock, hread⟩ :=
    (hprogram.arises rfl holds).callBlock
  obtain ⟨first, last, hsite, _⟩ :=
    @DraftEnv.site_found g.env _ _ _ rfl hsites (hm.outside hg) hcalled hblock hread
  have hlast : g.env.lastSite name = last := DraftEnv.lastSite_of_get? hsite
  obtain ⟨hout, tag, here, hname, hnamed⟩ := DraftEnv.last_site rfl hsites hsite
  have hdefines (σ : Scope) (hheld : g.HeldAt last σ) :
      made.program.blocks.contains name = true := by
    obtain ⟨other, hother, hkey⟩ := hheld.defines_block hg hgenerate here hname
    obtain rfl : other = name := by rw [← hnamed, hother]; rfl
    exact Table.contains_iff.2 (hkey hlast)
  rw [hlast]
  refine ⟨⟨fun hcontains => ?_, fun ⟨σ, hheld⟩ => hdefines σ hheld⟩, fun hkept => ?_⟩
  · obtain ⟨e, he, rfl⟩ := List.mem_map.1 (Table.contains_iff.1 hcontains)
    obtain ⟨_, ⟨k, _, σ, defers, hk⟩, _⟩ := hprogram.calls.blocks e he
    obtain rfl := hlast.symm.trans (defers.lastSite_eq rfl hsites (hk.outside hg))
    exact ⟨σ, hk⟩
  · obtain ⟨found, _, filled⟩ := hprogram.body
    have hcloser : ∀ tag', g.env.token? last = some (.tag tag') → isCloser tag'.name = false := by
      intro tag' here'
      obtain rfl := Token.tag.inj (Option.some.inj (here.symm.trans here'))
      rw [hname]
      decide
    obtain ⟨σ, hheld⟩ := Generator.heldAt_of_filled hg hgenerate hsites hprogram hcloser hout hkept
      filled (Nat.zero_le _) (Nat.zero_le _) (List.getElem?_eq_some_iff.1 here).1
    exact hdefines σ hheld

/-- Whether an instruction calls a block. -/
def Instruction.callsBlock (name : String) : Instruction → Bool
  | callBlock called => called == name
  | _ => false

theorem Program.Holds.of_callsBlock {program : Program} {name : String}
    (h : program.body.any (·.callsBlock name) = true) : program.Holds (.callBlock name) := by
  obtain ⟨x, hx, hcalls⟩ := List.any_eq_true.1 h
  unfold Instruction.callsBlock at hcalls
  split at hcalls
  · next called =>
    obtain rfl := beq_iff_eq.1 hcalls
    exact .body (.here hx)
  · cases hcalls

/-- A block that is written twice. -/
def writtenTwice : List Token :=
  [tagAt 0 "block" "a" "\x7b% block a %\x7d", .raw "1" ⟨stringFile, 13⟩,
    tagAt 14 "endblock" "" "\x7b% endblock %\x7d", tagAt 28 "block" "a" "\x7b% block a %\x7d",
    .raw "2" ⟨stringFile, 41⟩, tagAt 42 "endblock" "" "\x7b% endblock %\x7d"]

theorem callBlock_defined_writtenTwice :
    ∃ made sites, generate writtenTwice {} .builtin false = .ok made ∧
      made.program.Holds (.callBlock "a") ∧
      Kept (builtinEnv writtenTwice {} false sites) 3 ∧
      made.program.blocks.contains "a" = true ∧
      ∃ σ, (builtinGenerator writtenTwice {} false sites).HeldAt 3 σ := by
  have hcomputed : (generate writtenTwice {} .builtin false).toOption.map
      (·.program.body.any (·.callsBlock "a")) = some true := by decide +kernel
  have hfound : (blockSites TagRegistry.builtin.kinds writtenTwice).toOption.map
      (fun sites => (builtinEnv writtenTwice {} false sites).lastSite "a") = some 3 := by
    decide +kernel
  obtain ⟨made, hmade, hcalls⟩ := ok_of_toOption_map hcomputed
  obtain ⟨sites, hsites, hlast⟩ := ok_of_toOption_map hfound
  have holds := Program.Holds.of_callsBlock hcalls
  obtain ⟨sites', hsites', hdefined⟩ := callBlock_defined writtenTwice {} false made hmade "a" holds
  obtain rfl := Except.ok.inj (hsites.symm.trans hsites')
  -- The first block ends before the second one begins.
  have hkept : Kept (builtinEnv writtenTwice {} false sites) 3 := by
    intro k tag stop hk hstop _ here closes
    obtain rfl | rfl | rfl : k = 0 ∨ k = 1 ∨ k = 2 := by omega
    · cases here
      have hfirst : closingTag TagRegistry.builtin.kinds writtenTwice "endblock" 0 = .ok 2 := by
        decide +kernel
      obtain rfl := Except.ok.inj (hfirst.symm.trans closes)
      omega
    · cases here
    · cases here
      have hnone : (closingTag TagRegistry.builtin.kinds writtenTwice "endendblock" 2).isOk =
          false := by decide +kernel
      replace closes :
          closingTag TagRegistry.builtin.kinds writtenTwice "endendblock" 2 = .ok stop := closes
      rw [closes] at hnone
      cases hnone
  dsimp only [builtinGenerator] at hdefined
  rw [hlast] at hdefined
  obtain ⟨hiff, hcontains⟩ := hdefined
  exact ⟨made, sites, hmade, holds, hkept, hcontains hkept, hiff.1 (hcontains hkept)⟩

/-- A block whose last tag stands in the body of another block that is written again behind. -/
def droppedLast : List Token :=
  [tagAt 0 "block" "b" "\x7b% block b %\x7d", .raw "1" ⟨stringFile, 13⟩,
    tagAt 14 "endblock" "" "\x7b% endblock %\x7d", tagAt 28 "block" "a" "\x7b% block a %\x7d",
    tagAt 41 "block" "b" "\x7b% block b %\x7d", .raw "2" ⟨stringFile, 54⟩,
    tagAt 55 "endblock" "" "\x7b% endblock %\x7d", tagAt 69 "endblock" "" "\x7b% endblock %\x7d",
    tagAt 83 "block" "a" "\x7b% block a %\x7d", .raw "x" ⟨stringFile, 96⟩,
    tagAt 97 "endblock" "" "\x7b% endblock %\x7d"]

/-- It is called where its first tag stands, but has no body. -/
theorem callBlock_dangles : ∃ made, generate droppedLast {} .builtin false = .ok made ∧
    made.program.Holds (.callBlock "b") ∧ made.program.blocks.contains "b" = false := by
  have hcomputed : (generate droppedLast {} .builtin false).toOption.map
      (fun made => (made.program.body.any (·.callsBlock "b"),
        made.program.blocks.contains "b")) = some (true, false) := by decide +kernel
  obtain ⟨made, hmade, hboth⟩ := ok_of_toOption_map hcomputed
  obtain ⟨hcalls, hcontains⟩ := Prod.mk.inj hboth
  exact ⟨made, hmade, .of_callsBlock hcalls, hcontains⟩

end Stencil
