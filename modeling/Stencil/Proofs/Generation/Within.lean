import Stencil.Proofs.Generation.Wrapping

/-!
# Drafts inside a word

A word that is sealed is handled alike wherever it stands: two drafts that are abreast in front of it
are abreast behind it.

* `Sealed.unclosed`: a sealed word closes the blocks that it opens, and turns no others.
* `Unclosed.abreast`: so it keeps drafts abreast, if their scopes need the same variables.
-/

namespace Stencil

/-! ## Words that close blocks -/

/-- A word that closes `k` blocks around it, and those that it opens. -/
inductive Unclosed (kinds : TagKinds) : Nat → List Token → Prop where
  | done : Unclosed kinds 0 []
  | plain {k : Nat} {token : Token} {rest : List Token} (plain : token.IsPlain kinds)
      (stays : k = 0 → ∀ name ∈ turningTags, token.isTag name = false)
      (unclosed : Unclosed kinds k rest) : Unclosed kinds k (token :: rest)
  | verbatim {k : Nat} {opener : Tag} {closer : Token} {content rest : List Token}
      (opens : kinds.isVerbatim opener.name = true)
      (inside : ∀ token ∈ content, token.isTag (closerOf opener.name) = false)
      (closes : closer.isTag (closerOf opener.name) = true) (unclosed : Unclosed kinds k rest) :
      Unclosed kinds k (.tag opener :: (content ++ closer :: rest))
  | opens {k : Nat} {opener closer : Tag} {inner rest : List Token}
      (opens : kinds.isBlock opener.name = true) (looked : kinds.isVerbatim opener.name = false)
      (inside : WellNested kinds inner) (closes : closer.name = closerOf opener.name)
      (unclosed : Unclosed kinds (k + 1) (inner ++ .tag closer :: rest)) :
      Unclosed kinds k (.tag opener :: (inner ++ .tag closer :: rest))
  | closes {k : Nat} {tag : Tag} {rest : List Token} (closer : isCloser tag.name = true)
      (unclosed : Unclosed kinds k rest) : Unclosed kinds (k + 1) (.tag tag :: rest)

/-- Inside a block a well-nested word may come first. -/
theorem WellNested.unclosed {kinds : TagKinds} {word rest : List Token} {k : Nat}
    (h : WellNested kinds word) (hrest : Unclosed kinds (k + 1) rest) :
    Unclosed kinds (k + 1) (word ++ rest) := by
  induction h generalizing k rest with
  | nil => exact hrest
  | plain plain _ ih => exact .plain plain (fun h => absurd h (Nat.succ_ne_zero k)) (ih hrest)
  | verbatim opens inside closes _ ih =>
    rw [List.append_assoc, List.cons_append, List.cons_append]
    exact .verbatim opens inside closes (ih hrest)
  | block opens looked inside closes _ ihinner ih =>
    rw [List.append_assoc, List.cons_append, List.cons_append]
    refine .opens opens looked inside closes (ihinner (.closes ?_ (ih hrest)))
    rw [closes]
    exact isCloser_closerOf _

theorem Sealed.unclosed {kinds : TagKinds} {word : List Token} (h : Sealed kinds word) :
    Unclosed kinds 0 word := by
  induction h with
  | nil => exact .done
  | plain plain stays _ ih => exact .plain plain (fun _ => stays) ih
  | verbatim opens inside closes _ ih => exact .verbatim opens inside closes ih
  | block opens looked inside closes _ ih =>
    refine .opens opens looked inside closes (inside.unclosed (.closes ?_ ih))
    rw [closes]
    exact isCloser_closerOf _

/-! ## Drafts -/

section

variable {g g' : Generator} {b : Bench} {k i i' : Nat} {d d' p : Draft}
  {token : Token} {pos : Pos} {rest rest' : List Token}

/-- No tag of the token binds names, jumps, trims, or leaves a body behind. -/
def Token.Quiet (token : Token) : Prop := ∀ name ∈ unwrappedTags, token.isTag name = false

theorem Token.Quiet.ne {tag : Tag} (h : Token.Quiet (.tag tag)) {name : String}
    (hname : name ∈ unwrappedTags) : tag.name ≠ name := by
  have := h name hname
  simpa [Token.isTag] using this

/-- A quiet token keeps drafts abreast at the places that it faces. -/
theorem Token.Quiet.step {M : Nat → Nat → Prop} {next : Draft} (pos : Pos) (quiet : token.Quiet)
    (hg : g.IsBuiltin) (hg' : g'.IsBuiltin) (hplain : g.env.positions = false)
    (hplain' : g'.env.positions = false) (hb : b.Lasting) (h : Abreast b k d.still d'.still)
    (htrim : d'.trimNext = d.trimNext) (face : Facing M g.env g'.env d.idx d'.idx)
    (here : g.env.token? d.idx = some token)
    (turns : ∀ tag, token = .tag tag → isCloser tag.name = true ∨ tag.name ∈ turningTags → k ≠ 0)
    (needs : ∀ base ∈ token.operands, d'.scope.needed base = d.scope.needed base)
    (hstep : g.step token d = .ok next) :
    ∃ next', g'.step (token.movedTo pos) d' = .ok next' ∧
      Abreast b (token.depthBehind k) next.still next'.still ∧ next'.trimNext = next.trimNext ∧
      next.trimNext = false ∧ ∃ j j', M j j' ∧ next.idx = j + 1 ∧ next'.idx = j' + 1 := by
  have suited : ∀ tag, token = .tag tag → Suited b M g.env g'.env k d.still d'.still tag pos := by
    rintro tag rfl
    have hne {name : String} (hname : name ∈ unwrappedTags) : tag.name ≠ name := quiet.ne hname
    refine ⟨fun hturns => .inl (turns tag rfl hturns), fun hmem => ?_, fun hmem => ?_,
      fun hname => absurd hname (hne (by decide)), fun hname => absurd hname (hne (by decide))⟩
    · simp only [List.mem_cons, List.not_mem_nil, or_false] at hmem
      rcases hmem with hname | hname | hname
      · exact absurd hname (hne (by decide))
      · exact absurd hname (hne (by decide))
      · exact absurd hname (hne (by decide))
    · simp only [List.mem_cons, List.not_mem_nil, or_false] at hmem
      rcases hmem with hname | hname
      · exact absurd hname (hne (by decide))
      · exact absurd hname (hne (by decide))
  obtain ⟨next', hstep', ⟨habreast, hplaces⟩, hnext, hnext'⟩ :=
    Generator.step_abreast hg hg' hplain hplain' hb h htrim face here suited needs next hstep
  have hstill := quiet "trim" (by decide)
  exact ⟨next', hstep', habreast, hnext'.trans hnext.symm, hnext.trans hstill, hplaces⟩

end

/-! ## Runs -/

section

variable {tokens rest word : List Token} {token : Token} {i : Nat}

theorem here_of_drop (h : tokens.drop i = token :: rest) : tokens[i]? = some token := by
  have hhead := congrArg (·[0]?) h
  simpa [List.getElem?_drop] using hhead

theorem drop_succ_of_drop (h : tokens.drop i = token :: rest) : tokens.drop (i + 1) = rest := by
  rw [← List.drop_drop, h]
  rfl

theorem drop_of_drop (word : List Token) (h : tokens.drop i = word ++ rest) :
    tokens.drop (i + word.length) = rest := by
  rw [← List.drop_drop, h, List.drop_left]

end

section

variable {g g' : Generator} {b : Bench} {k : Nat} {d d' p : Draft} {word word' : List Token}

/-- Two drafts are abreast in front of a word and of one that says the same, and their scopes need the
same variables wherever an expression of the word is reached. -/
structure InFront (g g' : Generator) (b : Bench) (k : Nat) (word word' : List Token) (d d' : Draft) :
    Prop where
  abreast : Abreast b k d.still d'.still
  trims : d'.trimNext = d.trimNext
  alike : List.Forall₂ Token.Alike word word'
  drop : ∃ rest, g.env.tokens.drop d.idx = word ++ rest
  drop' : ∃ rest, g'.env.tokens.drop d'.idx = word' ++ rest
  needs : ∀ j σ token base k σ', j < d.idx + word.length → g.Reaches d j σ →
    g.env.token? j = some token → base ∈ token.operands → b.scopes k σ σ' →
    σ'.needed base = σ.needed base

/-- Both drafts pass a word and are abreast behind it. -/
def Pass (g' : Generator) (b : Bench) (word word' : List Token) (d d' p : Draft) : Prop :=
  ∃ p', g'.generateRange (d'.idx + word'.length) d' = .ok p' ∧ Abreast b 0 p p' ∧
    p.idx = d.idx + word.length ∧ p'.idx = d'.idx + word'.length

/-- Both pass a word, if a token of it leads behind some others, from where both pass the rest. -/
theorem InFront.passes {token token' : Token} (more more' : List Token) {rest rest' : List Token}
    (hg : g.IsBuiltin) (hg' : g'.IsBuiltin) (hplain : g.env.positions = false)
    (hplain' : g'.env.positions = false) (hb : b.Lasting)
    (h : InFront g g' b k (token :: (more ++ rest)) (token' :: (more' ++ rest')) d d')
    (hmore : more'.length = more.length) (quiet : token.Quiet)
    (face : Facing (fun j j' => j = d.idx + more.length ∧ j' = d'.idx + more.length) g.env g'.env
      d.idx d'.idx)
    (turns : ∀ tag, token = .tag tag → isCloser tag.name = true ∨ tag.name ∈ turningTags → k ≠ 0)
    (hrange : g.generateRange (d.idx + (token :: (more ++ rest)).length) d = .ok p)
    (hpass : ∀ next next', InFront g g' b (token.depthBehind k) rest rest' next next' →
      next.trimNext = false → g.generateRange (next.idx + rest.length) next = .ok p →
      Pass g' b rest rest' next next' p) :
    Pass g' b (token :: (more ++ rest)) (token' :: (more' ++ rest')) d d' p := by
  obtain ⟨left, hdrop⟩ := h.drop
  obtain ⟨left', hdrop'⟩ := h.drop'
  obtain ⟨⟨pos, rfl⟩, halike⟩ := List.forall₂_cons.1 h.alike
  have here : g.env.token? d.idx = some token := here_of_drop hdrop
  have here' : g'.env.token? d'.idx = some (token.movedTo pos) := here_of_drop hdrop'
  have hrest : List.Forall₂ Token.Alike rest rest' := by
    have hdropped := List.forall₂_drop more.length halike
    rwa [List.drop_left, ← hmore, List.drop_left] at hdropped
  have hlt : d.idx < d.idx + (token :: (more ++ rest)).length := by simp
  obtain ⟨next, hstep, hnext, hgoes⟩ := Generator.generateRange_cases hlt here hrange
  have hscopes := h.abreast.scopes
  obtain ⟨next', hstep', habreast, htrims, hstill, _, _, ⟨rfl, rfl⟩, hidx, hidx'⟩ :=
    quiet.step pos hg hg' hplain hplain' hb h.abreast h.trims face here turns
      (fun base hbase => h.needs d.idx d.scope token base k d'.scope hlt (.here g d) here hbase hscopes)
      hstep
  have hpassed : next.idx = d.idx + (token :: more).length := by
    rw [hidx, List.length_cons, Nat.add_assoc]
  have hpassed' : next'.idx = d'.idx + (token :: more).length := by
    rw [hidx', List.length_cons, Nat.add_assoc]
  have hend : d.idx + (token :: (more ++ rest)).length = next.idx + rest.length := by
    rw [hpassed]
    simp only [List.length_cons, List.length_append]
    omega
  have hend' : d'.idx + (token.movedTo pos :: (more' ++ rest')).length = next'.idx + rest'.length := by
    rw [hpassed']
    simp only [List.length_cons, List.length_append, hmore]
    omega
  have hfront : InFront g g' b (token.depthBehind k) rest rest' next next' := by
    refine ⟨habreast, htrims, hrest, ⟨left, ?_⟩, ⟨left', ?_⟩, ?_⟩
    · rw [hpassed]
      refine drop_of_drop (token :: more) ?_
      rw [hdrop]
      simp
    · have hlength : (token.movedTo pos :: more').length = (token :: more).length := by simp [hmore]
      rw [hpassed', ← hlength]
      refine drop_of_drop (token.movedTo pos :: more') ?_
      rw [hdrop']
      simp
    · intro j σ t base k σ' hj hreaches ht hbase hσ
      exact h.needs j σ t base k σ' (by omega) (hreaches.step here hstep hnext) ht hbase hσ
  obtain ⟨p', hp', hends, hidx, hidx'⟩ := hpass next next' hfront hstill (hend ▸ hgoes)
  refine ⟨p', ?_, hends, hidx.trans hend.symm, hidx'.trans hend'.symm⟩
  rw [hend', ← hp']
  exact Generator.generateRange_next (by omega) here' hstep' (by omega)

/-! ## Tokens of a word -/

section

variable {token : Token} {opener : Tag}

theorem Token.depthBehind_plain (h : token.IsPlain TagRegistry.builtin.kinds) :
    token.depthBehind k = k := by
  cases token with
  | raw | object => rfl
  | tag tag =>
    obtain ⟨hblock, hcloser⟩ := h tag rfl
    have hne : tag.name ∉ ["if", "unless", "case", "for"] := by
      intro hmem
      have hblocks : ∀ name ∈ ["if", "unless", "case", "for"], name ∈ blockTags := by decide
      rw [mem_blockTags.2 (hblocks _ hmem)] at hblock
      cases hblock
    rw [Token.depthBehind, Tag.depthBehind, if_neg hne, hcloser]
    rfl

theorem Token.depthBehind_verbatim (h : opener.name ∈ verbatimTags) :
    Token.depthBehind k (.tag opener) = k := by
  have hnone : ∀ name ∈ verbatimTags, isCloser name = false ∧
      name ∉ ["if", "unless", "case", "for"] := by decide
  obtain ⟨hcloser, hne⟩ := hnone _ h
  rw [Token.depthBehind, Tag.depthBehind, if_neg hne, hcloser]
  rfl

theorem Token.depthBehind_closer {tag : Tag} (h : isCloser tag.name = true) :
    Token.depthBehind (k + 1) (.tag tag) = k := by
  have hne : tag.name ∉ ["if", "unless", "case", "for"] := by
    intro hmem
    have hnone : ∀ name ∈ ["if", "unless", "case", "for"], isCloser name = false := by decide
    rw [hnone _ hmem] at h
    cases h
  rw [Token.depthBehind, Tag.depthBehind, if_neg hne, h]
  rfl

/-- A tag that opens a block closes none, and goes on with no branch. -/
theorem not_turns_of_opener (h : opener.name ∈ blockTags ++ verbatimTags) (tag : Tag)
    (heq : Token.tag opener = .tag tag) (hturns : isCloser tag.name = true ∨ tag.name ∈ turningTags) :
    k ≠ 0 := by
  obtain rfl := Token.tag.inj heq
  have hnone : ∀ name ∈ blockTags ++ verbatimTags, isCloser name = false ∧ name ∉ turningTags := by
    decide
  obtain ⟨hcloser, hstays⟩ := hnone _ h
  rcases hturns with hturns | hturns
  · rw [hcloser] at hturns
    cases hturns
  · exact absurd hturns hstays

namespace InFront

variable {rest rest' : List Token} {token' : Token}

/-- A token that opens no block is handled on its own. -/
theorem facing_leaf (hg : g.IsBuiltin) (h : InFront g g' b k (token :: rest) word' d d')
    (hnot_block : ∀ tag, token = .tag tag → TagRegistry.builtin.kinds.isBlock tag.name = false) :
    Facing (fun j j' => j = d.idx + 0 ∧ j' = d'.idx + 0) g.env g'.env d.idx d'.idx := by
  obtain ⟨left, hdrop⟩ := h.drop
  have hnone : ∀ tag, g.env.token? d.idx = some (.tag tag) →
      g.env.kinds.isBlock tag.name = false := fun tag htag => by
    rw [hg.kinds]
    exact hnot_block tag (Option.some.inj ((here_of_drop hdrop).symm.trans htag))
  refine ⟨fun _ => ⟨rfl, rfl⟩, fun tag _ htag hblock => ?_, fun tag _ htag hverbatim => ?_⟩
  · rw [hnone tag htag] at hblock
    cases hblock
  · have hlooked := builtin_proper.looked_of_isBlock (hg.kinds ▸ hnone tag htag)
    rw [hg.kinds, hlooked] at hverbatim
    cases hverbatim

/-- Behind the tag of a block, its closing tag is found in either place. -/
theorem facing_block {opener closer : Tag} {inner : List Token} (hg : g.IsBuiltin)
    (hg' : g'.IsBuiltin)
    (h : InFront g g' b k (.tag opener :: (inner ++ .tag closer :: rest)) (token' :: rest') d d')
    (looked : TagRegistry.builtin.kinds.isVerbatim opener.name = false)
    (hname : opener.name ∈ ["if", "unless", "case", "for"])
    (inside : WellNested TagRegistry.builtin.kinds inner)
    (closes : closer.name = closerOf opener.name) :
    Facing (fun j j' => j = d.idx + 0 ∧ j' = d'.idx + 0) g.env g'.env d.idx d'.idx := by
  obtain ⟨left, hdrop⟩ := h.drop
  obtain ⟨left', hdrop'⟩ := h.drop'
  obtain ⟨_, halike⟩ := List.forall₂_cons.1 h.alike
  have here : g.env.token? d.idx = some (.tag opener) := here_of_drop hdrop
  have hother : ∀ name ∈ ["if", "unless", "case", "for"], name ∉ ["js", "mixin", "block"] := by decide
  refine ⟨fun _ => ⟨rfl, rfl⟩, fun tag stop htag _ _ _ => ?_, fun tag _ htag hverbatim => ?_⟩
  · obtain rfl := Token.tag.inj (Option.some.inj (here.symm.trans htag))
    have hinside : List.Forall₂ Token.Alike inner (rest'.take inner.length) := by
      have htaken := List.forall₂_take inner.length halike
      rwa [List.take_left] at htaken
    have hbehind : List.Forall₂ Token.Alike (.tag closer :: rest) (rest'.drop inner.length) := by
      have hdropped := List.forall₂_drop inner.length halike
      rwa [List.drop_left] at hdropped
    obtain ⟨_, rest₁, ⟨pos, rfl⟩, _, hrest₁⟩ := List.forall₂_cons_left_iff.1 hbehind
    refine ⟨d'.idx + 1 + (rest'.take inner.length).length, ?_, fun hmem => ?_, fun hjs => ?_⟩
    · have hdrop₁ : g'.env.tokens.drop (d'.idx + 1) = rest'.take inner.length ++
          ((Token.tag closer).movedTo pos :: (rest₁ ++ left')) := by
        rw [drop_succ_of_drop hdrop', ← List.cons_append, ← hrest₁]
        conv => lhs; rw [← List.take_append_drop inner.length rest']
        exact List.append_assoc ..
      rw [closingTag, hdrop₁, hg'.kinds, closingFrom_append builtin_proper (isCloser_closerOf _)
        (inside.alike builtin_proper hinside)]
      simp [closingFrom, Token.movedTo, closes]
    · exact absurd hmem (hother _ hname)
    · exact absurd (hjs ▸ List.mem_cons_self) (hother _ hname)
  · obtain rfl := Token.tag.inj (Option.some.inj (here.symm.trans htag))
    rw [hg.kinds, looked] at hverbatim
    cases hverbatim

/-- Behind the tag of a verbatim block, its end is found in either place, with the same text before. -/
theorem facing_verbatim {opener : Tag} {more more' : List Token} (hg : g.IsBuiltin)
    (h : InFront g g' b k (.tag opener :: (more ++ rest)) (token' :: (more' ++ rest')) d d')
    (hmore : List.Forall₂ Token.Alike more more') (opens : opener.name ∈ verbatimTags)
    (hfound : more.findIdx? (·.isTag (closerOf opener.name)) = some (more.length - 1)) :
    Facing (fun j j' => j = d.idx + more.length ∧ j' = d'.idx + more.length) g.env g'.env
      d.idx d'.idx := by
  obtain ⟨left, hdrop⟩ := h.drop
  obtain ⟨left', hdrop'⟩ := h.drop'
  have here : g.env.token? d.idx = some (.tag opener) := here_of_drop hdrop
  refine ⟨fun hplain => ?_, fun tag _ htag _ hlooked => ?_, fun tag stop htag _ hends => ?_⟩
  · exact absurd (List.mem_append_right _ opens) (hplain opener here)
  · obtain rfl := Token.tag.inj (Option.some.inj (here.symm.trans htag))
    rw [hg.kinds, mem_verbatimTags.2 opens] at hlooked
    cases hlooked
  · obtain rfl := Token.tag.inj (Option.some.inj (here.symm.trans htag))
    have hdrop₁ : g.env.tokens.drop (d.idx + 1) = more ++ (rest ++ left) := by
      rw [← List.append_assoc]
      exact drop_succ_of_drop hdrop
    have hdrop₁' : g'.env.tokens.drop (d'.idx + 1) = more' ++ (rest' ++ left') := by
      rw [← List.append_assoc]
      exact drop_succ_of_drop hdrop'
    have hfound' := (findIdx?_alike hmore (closerOf opener.name)).trans hfound
    unfold verbatimEnd? at hends ⊢
    rw [hdrop₁, List.findIdx?_append, hfound] at hends
    rw [hdrop₁', List.findIdx?_append, hfound']
    obtain rfl := Option.some.inj hends
    have hlength := hmore.length_eq
    have hpos : 0 < more.length := by
      obtain ⟨hlt, _⟩ := List.findIdx?_eq_some_iff_getElem.1 hfound
      omega
    refine ⟨d'.idx + 1 + (more.length - 1), rfl, ⟨?_, ?_⟩, ?_⟩
    · show d.idx + 1 + (more.length - 1) = _
      omega
    · omega
    unfold DraftEnv.sourceBetween
    rw [List.drop_take, List.drop_take, Nat.add_sub_cancel_left, Nat.add_sub_cancel_left, hdrop₁,
      hdrop₁', List.take_append_of_le_length (by omega), List.take_append_of_le_length (by omega)]
    exact sourceOf_alike (List.forall₂_take _ hmore)

end InFront

end

/-- A word of quiet tokens that closes `k` blocks and those that it opens keeps drafts abreast. -/
theorem Unclosed.abreast (hg : g.IsBuiltin) (hg' : g'.IsBuiltin) (hplain : g.env.positions = false)
    (hplain' : g'.env.positions = false) (hb : b.Lasting)
    (hword : Unclosed TagRegistry.builtin.kinds k word) (quiet : ∀ token ∈ word, token.Quiet)
    (h : InFront g g' b k word word' d d') (hnone : word = [] → d.trimNext = false)
    (hrange : g.generateRange (d.idx + word.length) d = .ok p) : Pass g' b word word' d d' p := by
  induction hword generalizing d d' word' with
  | done =>
    obtain rfl : word' = [] := List.forall₂_nil_left_iff.1 h.alike
    have hdone := Generator.generateRange_of_le g (Nat.le_refl d.idx)
    obtain rfl := Except.ok.inj (hdone.symm.trans hrange)
    have hstill {d : Draft} (hd : d.trimNext = false) : d.still = d := by
      rw [Draft.still, ← hd]
    have habreast := h.abreast
    rw [hstill (hnone rfl), hstill (h.trims.trans (hnone rfl))] at habreast
    exact ⟨d', Generator.generateRange_of_le _ (Nat.le_refl _), habreast, rfl, rfl⟩
  | @plain k token rest plain stays unclosed ih =>
    obtain ⟨token', rest', halike, hrest, rfl⟩ := List.forall₂_cons_left_iff.1 h.alike
    have turns : ∀ tag, token = .tag tag → isCloser tag.name = true ∨ tag.name ∈ turningTags →
        k ≠ 0 := by
      rintro tag rfl (hcloser | hturns) rfl
      · rw [(plain tag rfl).2] at hcloser
        cases hcloser
      · have := stays rfl tag.name hturns
        simp [Token.isTag] at this
    have face := h.facing_leaf hg fun tag htag => (plain tag htag).1
    refine InFront.passes [] [] hg hg' hplain hplain' hb h rfl
      (quiet token List.mem_cons_self) face turns hrange fun next next' hfront hstill hgoes => ?_
    rw [Token.depthBehind_plain plain] at hfront
    exact ih (fun t ht => quiet t (List.mem_cons_of_mem _ ht)) hfront (fun _ => hstill) hgoes
  | @verbatim k opener closer content rest opens inside closes unclosed ih =>
    obtain ⟨token', left', _, hleft, rfl⟩ := List.forall₂_cons_left_iff.1 h.alike
    have hopens := mem_verbatimTags.1 opens
    -- The verbatim block is passed as a whole.
    have hsplit : content ++ closer :: rest = (content ++ [closer]) ++ rest := by simp
    have hsplit' := (List.take_append_drop (content ++ [closer]).length left').symm
    have hmore : List.Forall₂ Token.Alike (content ++ [closer])
        (left'.take (content ++ [closer]).length) := by
      have htaken := List.forall₂_take (content ++ [closer]).length hleft
      rwa [hsplit, List.take_left] at htaken
    generalize left'.take (content ++ [closer]).length = more' at hsplit' hmore
    generalize left'.drop (content ++ [closer]).length = rest' at hsplit'
    subst hsplit'
    rw [hsplit] at h hrange ⊢
    have hfound : (content ++ [closer]).findIdx? (·.isTag (closerOf opener.name)) =
        some ((content ++ [closer]).length - 1) := by
      rw [List.findIdx?_append, List.findIdx?_eq_none_iff.2 inside, List.findIdx?_cons, closes]
      simp
    refine InFront.passes _ _ hg hg' hplain hplain' hb h hmore.length_eq.symm
      (quiet _ List.mem_cons_self) (h.facing_verbatim hg hmore hopens hfound)
      (not_turns_of_opener (List.mem_append_right _ hopens)) hrange
      fun next next' hfront hstill hgoes => ?_
    rw [Token.depthBehind_verbatim hopens] at hfront
    exact ih (fun t ht => quiet t (by simp [ht])) hfront (fun _ => hstill) hgoes
  | @opens k opener closer inner rest opens looked inside closes unclosed ih =>
    obtain ⟨token', left', _, _, rfl⟩ := List.forall₂_cons_left_iff.1 h.alike
    have hblock := mem_blockTags.1 opens
    have hverbatim : opener.name ∉ verbatimTags := fun hmem => by
      rw [mem_verbatimTags.2 hmem] at looked
      cases looked
    have hquiet : Token.Quiet (.tag opener) := quiet _ List.mem_cons_self
    have hname : opener.name ∈ ["if", "unless", "case", "for"] := by
      have hall : ∀ name ∈ blockTags, name ∉ verbatimTags → name ∉ unwrappedTags →
          name ∈ ["if", "unless", "case", "for"] := by decide
      exact hall _ hblock hverbatim fun hmem => hquiet.ne hmem rfl
    refine InFront.passes [] [] hg hg' hplain hplain' hb h rfl hquiet
      (h.facing_block hg hg' looked hname inside closes)
      (not_turns_of_opener (List.mem_append_left _ hblock)) hrange
      fun next next' hfront hstill hgoes => ?_
    have hdepth : Token.depthBehind k (.tag opener) = k + 1 := if_pos hname
    rw [hdepth] at hfront
    exact ih (fun t ht => quiet t (List.mem_cons_of_mem _ ht)) hfront (fun _ => hstill) hgoes
  | @closes k tag rest closer unclosed ih =>
    obtain ⟨token', rest', _, _, rfl⟩ := List.forall₂_cons_left_iff.1 h.alike
    have face := h.facing_leaf hg fun other hother => by
      rw [← Token.tag.inj hother]
      exact builtin_proper.closer _ closer
    refine InFront.passes [] [] hg hg' hplain hplain' hb h rfl
      (quiet _ List.mem_cons_self) face (fun _ _ _ => Nat.succ_ne_zero k) hrange
      fun next next' hfront hstill hgoes => ?_
    rw [Token.depthBehind_closer closer] at hfront
    exact ih (fun t ht => quiet t (List.mem_cons_of_mem _ ht)) hfront (fun _ => hstill) hgoes

end

end Stencil
