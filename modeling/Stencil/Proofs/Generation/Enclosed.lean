import Stencil.Proofs.Aligned
import Stencil.Proofs.Generation.Around
import Stencil.Proofs.Generation.Owned

/-!
# The word on its own

Two drafts pass the word, which may stand in different places and scopes, and add the same to what they
have.

* `Stacked.armed`: in a case that is open at the word, an arm is being filled.
* `Bench.ofWord`: how drafts are compared that pass the word.
* `Abreast.passed`: behind it they have added the same.
-/

namespace Stencil

/-! ## Cases without an arm -/

section

variable {env : DraftEnv} {L : String → Prop} {A : Nat → Scope → Prop} {σ : Scope} {start i j : Nat}

/-- A token that adds instructions on its own is no `when`. -/
theorem Leaf.not_when {added : List Instruction} (h : Leaf env L σ i added j) (tag : Tag)
    (here : env.token? i = some (.tag tag)) : tag.name ≠ "when" := by
  have named {other : Tag} {name : String} (hother : env.token? i = some (.tag other))
      (hname : other.name = name) (hne : name ≠ "when") : tag.name ≠ "when" := by
    obtain rfl := Token.tag.inj (Option.some.inj (here.symm.trans hother))
    exact fun heq => hne (hname.symm.trans heq)
  cases h with
  | text hother | object hother =>
    rw [hother] at here
    cases here
  | assign hother name | capture hother name | raw hother name | comment hother name
    | script hother name | «break» hother name | «continue» hother name | mixin hother name
    | block hother name | trim hother name => exact named hother name (by decide)
  | callMixin hother name =>
    intro heq
    obtain rfl := Token.tag.inj (Option.some.inj (here.symm.trans hother))
    rw [heq] at name
    exact absurd name (by decide)

/-- It takes itself with it, or all tokens up to the end of its block. -/
theorem Leaf.extent {added : List Instruction} (h : Leaf env L σ i added j) :
    j = i + 1 ∨ ∃ tag stop, env.token? i = some (.tag tag) ∧ j = stop + 1 ∧
      ((tag.name ∈ verbatimTags ∧ verbatimEnd? env.tokens tag.name i = some stop) ∨
        (tag.name ∈ ["js", "mixin", "block"] ∧
          closingTag env.kinds env.tokens (closerOf tag.name) i = .ok stop)) := by
  cases h with
  | text | object | assign | «break» | «continue» | callMixin | trim => exact .inl rfl
  | capture here name _ ends =>
    exact .inr ⟨_, _, here, rfl, .inl ⟨by simp [name, verbatimTags], ends⟩⟩
  | raw here name ends | comment here name ends =>
    exact .inr ⟨_, _, here, rfl, .inl ⟨by simp [name, verbatimTags], ends⟩⟩
  | script here name closes | mixin here name closes =>
    exact .inr ⟨_, _, here, rfl, .inr ⟨by simp [name], by rw [name]; exact closes⟩⟩
  | block here name _ _ closes =>
    exact .inr ⟨_, _, here, rfl, .inr ⟨by simp [name], by rw [name]; exact closes⟩⟩

/-- In a case without an arm, no `when` stands at the level of the case. -/
theorem Filled.no_when (hkinds : env.kinds = TagRegistry.builtin.kinds) {kind : OpenKind}
    {found : List Instruction} (hlength : start ≤ env.tokens.length)
    (hstart : Outside env.kinds env.tokens start) (h : Filled env L A σ start kind found i)
    (hkind : ∃ subject arms, kind = .case subject arms none) {m : Nat} {tag : Tag} (hm : start ≤ m)
    (hlt : m < i) (here : env.token? m = some (.tag tag)) (hname : tag.name = "when") :
    ¬ WellNested TagRegistry.builtin.kinds (between env.tokens start m) := by
  intro hnested
  have hmlength := (List.getElem?_eq_some_iff.1 here).1
  -- No block that is opened before the tag is closed behind it.
  have closed {k stop : Nat} {opener : Tag} (hk : start ≤ k) (hkm : k < m)
      (hout : Outside env.kinds env.tokens k) (hopener : env.token? k = some (.tag opener))
      (hblock : opener.name ∈ blockTags) (hlooked : opener.name ∉ verbatimTags)
      (hcloses : closingTag env.kinds env.tokens (closerOf opener.name) k = .ok stop) : stop < m := by
    rw [hkinds] at hstart hout hcloses
    exact hnested.closingTag_lt builtin_proper (Nat.le_of_lt hmlength) hk hkm hopener
      (mem_blockTags.2 hblock) (not_isVerbatim hlooked) hstart hout hcloses
  induction h with
  | root => exact absurd hlt (Nat.not_lt.2 hm)
  | opened => exact absurd hlt (Nat.not_lt.2 hm)
  | mark _ _ _ ih => exact ih hlength hstart hkind hm hlt hnested closed
  | @leaf _ _ i j _ _ _ filled leaf _ ih =>
    by_cases hi : m < i
    · exact ih hlength hstart hkind hm hi hnested closed
    have him : i < m := by
      refine Nat.lt_of_le_of_ne (Nat.not_lt.1 hi) fun heq => ?_
      exact leaf.not_when tag (heq ▸ here) hname
    have hout := filled.outside hkinds hlength hstart
    rcases leaf.extent with rfl | ⟨opener, stop, hopener, rfl, ⟨hverbatim, hends⟩ | ⟨hblock, hcloses⟩⟩
    · omega
    · rw [hkinds] at hout hstart
      have hmout := hstart.across builtin_proper hm hnested
      exact hout.not_within hopener (mem_verbatimTags.2 hverbatim) hends him (by omega) hmout
    · have hdeferred : ∀ name ∈ ["js", "mixin", "block"], name ∈ blockTags ∧ name ∉ verbatimTags := by
        decide
      obtain ⟨hmem, hlooked⟩ := hdeferred _ hblock
      have hle := (filled.wellNested hkinds hlength).1
      have := closed hle him hout hopener hmem hlooked hcloses
      omega
  | @nested _ _ i stop _ inner _ _ opener _ filled hopener hname' hcloses _ complete ih =>
    by_cases hi : m < i
    · exact ih hlength hstart hkind hm hi hnested closed
    have hinner : inner ≠ .root := by
      rintro rfl
      cases complete
    obtain ⟨hmem, hlooked⟩ := inner.opener_mem hinner
    have him : i < m := by
      refine Nat.lt_of_le_of_ne (Nat.not_lt.1 hi) fun heq => ?_
      subst heq
      obtain rfl := Token.tag.inj (Option.some.inj (hopener.symm.trans here))
      rw [← hname', hname] at hmem
      exact absurd hmem (by decide)
    have hle := (filled.wellNested hkinds hlength).1
    have hout := filled.outside hkinds hlength hstart
    rw [← hname'] at hmem hlooked hcloses
    have := closed hle him hout hopener hmem hlooked hcloses
    omega
  | turn _ turns _ _ =>
    obtain ⟨subject, arms, rfl⟩ := hkind
    cases turns

end

/-- In a case that is open at the word, an arm is being filled. -/
theorem Stacked.armed {w : Wrapping} {g g' : Generator} {L : String → Prop} {A : Nat → Scope → Prop}
    {τ σ : Scope} {start : Nat} {below outer : List OpenBlock} {subject : Pipeline} {arms : List Arm}
    {found : List Instruction} (hw : w.Generates g g') (hlength : start ≤ g.env.tokens.length)
    (hstart : Outside g.env.kinds g.env.tokens start)
    (h : Stacked g.env L A τ start below (⟨.case subject arms none, found⟩ :: outer) σ w.first) :
    False := by
  have hkinds := hw.builtin.kinds
  have htokens := hw.tokens
  cases h with
  | @block _ _ _ _ k _ _ tag around inner here opener closes filled =>
    have hk := (List.getElem?_eq_some_iff.1 here).1
    obtain ⟨hle, hfirst, hnested⟩ := filled.wellNested hkinds hk
    have hname : tag.name = "case" := opener
    have hlooked : g.env.kinds.isVerbatim tag.name = false := by
      rw [hkinds, hname]
      exact not_isVerbatim (by decide)
    have hout := around.outside hkinds hlength hstart
    have hinside := hout.succ here hlooked
    rw [DraftEnv.token?, htokens] at here
    rw [hkinds, htokens] at hout
    rw [htokens] at hnested
    obtain ⟨i, arm, hki, hi, harm, hwhen, hlevel⟩ := w.armed k tag hle hout here hname hnested
    refine filled.no_when hkinds hk hinside ⟨subject, arms, rfl⟩ hki hi ?_ hwhen ?_
    · rw [DraftEnv.token?, htokens]
      exact harm
    · rw [htokens]
      exact hlevel

/-! ## The word on its own -/

theorem Token.Alike.refl (t : Token) : t.Alike t := ⟨t.pos, by cases t <;> rfl⟩

theorem NameSet.insert_insertAll (s : NameSet) (names : List String) (name : String) :
    (s.insertAll names).insert name = s.insertAll (names ++ [name]) :=
  List.foldl_concat .. |>.symm

theorem Scope.frames_destroy {σ : Scope} {frame : NameSet} {rest : List NameSet}
    (h : σ.frames = frame :: rest) (hrest : rest ≠ []) : σ.destroy.frames = rest := by
  obtain ⟨frames⟩ := σ
  obtain rfl : frames = frame :: rest := h
  cases rest with
  | nil => exact absurd rfl hrest
  | cons => rfl

theorem Scope.frames_add {σ : Scope} {frame : NameSet} {rest : List NameSet}
    (h : σ.frames = frame :: rest) (name : String) :
    (σ.add name).frames = frame.insert name :: rest := by
  obtain ⟨frames⟩ := σ
  obtain rfl : frames = frame :: rest := h
  rfl

/-- How drafts are compared that pass one word in different places: the frames that it opens are the
same, and so are the variables that become known. -/
def Bench.ofWord (d d' : Draft) : Bench where
  fold := noFold
  base := d.top
  base' := d'.top
  below := d.stack.tail
  below' := d'.stack.tail
  scopes k σ σ' := ∃ inner, inner.length = k ∧ σ.frames = inner ++ d.scope.frames ∧
    σ'.frames = inner ++ d'.scope.frames
  known s s' := ∃ names, s = d.locals.insertAll names ∧ s' = d'.locals.insertAll names
  reached s s' := ∃ paths, s = d.paths.insertAll paths ∧ s' = d'.paths.insertAll paths
  mixins t t' := t = d.mixins ∧ t' = d'.mixins
  blocks t t' := t = d.blocks ∧ t' = d'.blocks

theorem Bench.ofWord_lasting {d d' : Draft} (hd : 0 < d.scope.depth) (hd' : 0 < d'.scope.depth) :
    (Bench.ofWord d d').Lasting where
  create := by
    rintro k σ σ' ⟨inner, rfl, hframes, hframes'⟩
    exact ⟨.empty :: inner, rfl, congrArg (List.cons _) hframes, congrArg (List.cons _) hframes'⟩
  destroy := by
    rintro k σ σ' ⟨inner, hlength, hframes, hframes'⟩
    have some_below {d : Draft} (hd : 0 < d.scope.depth) (inner : List NameSet) :
        inner ++ d.scope.frames ≠ [] :=
      List.append_ne_nil_of_right_ne_nil _ (List.ne_nil_of_length_pos hd)
    cases inner with
    | nil => cases hlength
    | cons frame inner =>
      exact ⟨inner, Nat.succ.inj hlength, Scope.frames_destroy hframes (some_below hd inner),
        Scope.frames_destroy hframes' (some_below hd' inner)⟩
  add := by
    rintro k σ σ' name ⟨inner, hlength, hframes, hframes'⟩
    cases inner with
    | nil => cases hlength
    | cons frame inner =>
      exact ⟨frame.insert name :: inner, hlength, Scope.frames_add hframes name,
        Scope.frames_add hframes' name⟩
  known := by
    rintro s s' name ⟨names, rfl, rfl⟩
    exact ⟨names ++ [name], NameSet.insert_insertAll .., NameSet.insert_insertAll ..⟩
  reached := by
    rintro s s' path ⟨paths, rfl, rfl⟩
    exact ⟨paths ++ [path], NameSet.insert_insertAll .., NameSet.insert_insertAll ..⟩

theorem Abreast.ofWord (d d' : Draft) : Abreast (.ofWord d d') 0 d.still d'.still where
  stack := ⟨[], [], rfl, d.stack_eq, d'.stack_eq, fun _ h => absurd h List.not_mem_nil⟩
  scopes := ⟨[], rfl, rfl, rfl⟩
  locals := ⟨[], rfl, rfl⟩
  paths := ⟨[], rfl, rfl⟩
  mixins := ⟨rfl, rfl⟩
  blocks := ⟨rfl, rfl⟩
  still := rfl
  still' := rfl

/-- What a word adds to a draft. -/
structure Contents where
  instructions : List Instruction
  /-- The variables that become known, and the access paths by which they are read. -/
  names : List String
  paths : List String

/-- The second draft is the first one with what a word adds, and behind the word. -/
structure Draft.Passed (d p : Draft) (c : Contents) : Prop where
  stack : p.stack = ⟨d.top.kind, c.instructions.reverse ++ d.top.found⟩ :: d.stack.tail
  scope : p.scope = d.scope
  locals : p.locals = d.locals.insertAll c.names
  paths : p.paths = d.paths.insertAll c.paths
  mixins : p.mixins = d.mixins
  blocks : p.blocks = d.blocks
  still : p.trimNext = false

/-- Drafts that have passed one word have added the same. -/
theorem Abreast.passed {d d' p p' : Draft} (h : Abreast (.ofWord d d') 0 p p') :
    ∃ c, d.Passed p c ∧ d'.Passed p' c := by
  obtain ⟨inner, found, hlength, hstack, hstack', _⟩ := h.stack
  obtain rfl := List.length_eq_zero_iff.1 hlength
  have hfound : inlinedFound (Bench.ofWord d d').fold found = found := by
    rw [inlinedFound, show (Bench.ofWord d d').fold = noFold from rfl, inlinedBody_noFold,
      List.reverse_reverse]
  rw [hfound] at hstack
  obtain ⟨inner, hinner, hframes, hframes'⟩ := h.scopes
  obtain rfl := List.length_eq_zero_iff.1 hinner
  obtain ⟨names, hlocals, hlocals'⟩ := h.locals
  obtain ⟨paths, hpaths, hpaths'⟩ := h.paths
  refine ⟨⟨found.reverse, names, paths⟩,
    ⟨?_, congrArg Scope.mk hframes, hlocals, hpaths, h.mixins.1, h.blocks.1, h.still⟩,
    ⟨?_, congrArg Scope.mk hframes', hlocals', hpaths', h.mixins.2, h.blocks.2, h.still'⟩⟩
  · rw [List.reverse_reverse]
    exact hstack
  · rw [List.reverse_reverse]
    exact hstack'

end Stencil
