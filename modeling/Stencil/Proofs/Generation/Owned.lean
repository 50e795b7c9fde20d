import Stencil.Proofs.Generation.Sites

/-!
# The bodies that tokens belong to

A token belongs to a body if no script, mixin or block is open at it that was opened in the body
(`Owned`).

* `WellNested.closes`: a block that is opened among well-nested tokens is closed among them.
* `Generator.Reaches.owned`: a token that is reached in a body belongs to it.
* `Owned.start_le`: so a token belongs to no two bodies.
-/

namespace Stencil

/-! ## Blocks among well-nested tokens -/

/-- A block that is opened among well-nested tokens, outside verbatim blocks, is closed among
them. -/
theorem WellNested.closes {kinds : TagKinds} {word before after : List Token} {tag : Tag}
    (hk : kinds.Proper) (h : WellNested kinds word) (hword : word = before ++ .tag tag :: after)
    (hblock : kinds.isBlock tag.name = true) (hlooked : kinds.isVerbatim tag.name = false)
    (hout : before.foldl kinds.behind none = none) :
    ∃ inner closer more, after = inner ++ .tag closer :: more ∧ WellNested kinds inner ∧
      closer.name = closerOf tag.name := by
  induction h generalizing before after with
  | nil => simp at hword
  | @plain token rest plain nested ih =>
    cases before with
    | nil =>
      obtain ⟨rfl, rfl⟩ := List.cons.inj hword
      rw [(plain tag rfl).1] at hblock
      cases hblock
    | cons _ before =>
      obtain ⟨rfl, hrest⟩ := List.cons.inj hword
      have hnone : kinds.behind none token = none :=
        WellNested.behind hk (.singleton plain)
      rw [List.foldl_cons, hnone] at hout
      exact ih hrest hout
  | @verbatim opener closer content rest opens inside closes nested ih =>
    cases before with
    | nil =>
      obtain ⟨heq, _⟩ := List.cons.inj hword
      rw [Token.tag.inj heq, hlooked] at opens
      cases opens
    | cons _ before =>
      obtain ⟨rfl, hrest⟩ := List.cons.inj hword
      have hopens : kinds.behind none (.tag opener) = some opener := if_pos opens
      rw [List.foldl_cons, hopens] at hout
      rcases List.append_eq_append_iff.1 hrest with ⟨passed, rfl, hpassed⟩ | ⟨left, rfl, hleft⟩
      · cases passed with
        | nil =>
          obtain ⟨rfl, _⟩ := List.cons.inj hpassed
          have hname : tag.name = closerOf opener.name := by simpa [Token.isTag] using closes
          rw [hname, hk.closerOf_isBlock] at hblock
          cases hblock
        | cons _ passed =>
          obtain ⟨rfl, rfl⟩ := List.cons.inj hpassed
          have hcloses : kinds.behind (some opener) closer = none := if_pos closes
          rw [List.foldl_append, TagKinds.behind_content inside, List.foldl_cons, hcloses] at hout
          exact ih rfl hout
      · -- In the content of a verbatim block, the verbatim block is open.
        rw [TagKinds.behind_content fun t ht => inside t (List.mem_append_left _ ht)] at hout
        cases hout
  | @block opener closer inner rest opens looked inside closes nested ihinner ih =>
    cases before with
    | nil =>
      obtain ⟨heq, rfl⟩ := List.cons.inj hword
      obtain rfl := Token.tag.inj heq
      exact ⟨inner, closer, rest, rfl, inside, closes⟩
    | cons _ before =>
      obtain ⟨rfl, hrest⟩ := List.cons.inj hword
      have hopens : kinds.behind none (.tag opener) = none := by
        simp [TagKinds.behind, looked]
      have hnotBlock : kinds.isBlock closer.name = false := closes ▸ hk.closerOf_isBlock _
      rw [List.foldl_cons, hopens] at hout
      rcases List.append_eq_append_iff.1 hrest with ⟨passed, rfl, hpassed⟩ | ⟨left, rfl, hleft⟩
      · cases passed with
        | nil =>
          obtain ⟨heq, _⟩ := List.cons.inj hpassed
          rw [← Token.tag.inj heq, hnotBlock] at hblock
          cases hblock
        | cons _ passed =>
          obtain ⟨rfl, rfl⟩ := List.cons.inj hpassed
          have hcloses : kinds.behind none (.tag closer) = none := by
            simp [TagKinds.behind, hk.looked_of_isBlock hnotBlock]
          rw [List.foldl_append, inside.behind hk, List.foldl_cons, hcloses] at hout
          exact ih rfl hout
      · cases left with
        | nil =>
          obtain ⟨heq, _⟩ := List.cons.inj hleft
          rw [Token.tag.inj heq, hnotBlock] at hblock
          cases hblock
        | cons _ left =>
          obtain ⟨rfl, rfl⟩ := List.cons.inj hleft
          obtain ⟨inner', closer', more, rfl, hnested, hcloser⟩ := ihinner rfl hout
          exact ⟨inner', closer', more ++ .tag closer :: rest, by simp, hnested, hcloser⟩

/-- So its closing tag is found among them. -/
theorem WellNested.closingTag_lt {kinds : TagKinds} {tokens : List Token} {start k j stop : Nat}
    {tag : Tag} (hk : kinds.Proper) (h : WellNested kinds (between tokens start j))
    (hj : j ≤ tokens.length) (hstart : start ≤ k) (hlt : k < j)
    (here : tokens[k]? = some (.tag tag)) (hblock : kinds.isBlock tag.name = true)
    (hlooked : kinds.isVerbatim tag.name = false) (hbegins : Outside kinds tokens start)
    (hout : Outside kinds tokens k) (closes : closingTag kinds tokens (closerOf tag.name) k = .ok stop) :
    stop < j := by
  have hword : between tokens start j =
      between tokens start k ++ .tag tag :: between tokens (k + 1) j := by
    rw [← between_append hstart (Nat.le_of_lt hlt), ← between_append (Nat.le_succ k) hlt,
      between_succ here]
    rfl
  have hbefore : (between tokens start k).foldl kinds.behind none = none := by
    have hsplit := List.take_append_drop start (tokens.take k)
    rw [List.take_take, Nat.min_eq_left hstart] at hsplit
    unfold Outside at hout hbegins
    rw [← hsplit, List.foldl_append, hbegins] at hout
    exact hout
  obtain ⟨inner, closer, more, hafter, hnested, hcloser⟩ :=
    h.closes hk hword hblock hlooked hbefore
  -- The search for the closing tag passes over what stands before it.
  have hdrop : tokens.drop (k + 1) = inner ++ .tag closer :: (more ++ tokens.drop j) := by
    rw [drop_eq_between hlt hj, hafter]
    simp
  rw [closingTag, hdrop, closingFrom_append hk (isCloser_closerOf _) hnested] at closes
  simp only [closingFrom, hcloser, decide_true, List.isEmpty_nil, Bool.and_self, if_true] at closes
  have hlength := congrArg List.length hafter
  rw [length_between hj, List.length_append, List.length_cons] at hlength
  have := Except.ok.inj closes
  omega

/-! ## Belonging -/

/-- The token at an index belongs to the body that starts at `start`: scripts, mixins and blocks that
were opened in the body are closed before it. -/
structure Owned (env : DraftEnv) (start j : Nat) : Prop where
  le : start ≤ j
  closed : ∀ k tag stop, start ≤ k → k < j → Outside env.kinds env.tokens k →
    env.token? k = some (.tag tag) → tag.name ∈ ["js", "mixin", "block"] →
    closingTag env.kinds env.tokens (closerOf tag.name) k = .ok stop → stop < j

section

variable {env : DraftEnv} {L : String → Prop} {A : Nat → Scope → Prop} {τ σ : Scope}
  {start i j : Nat} {below stack : List OpenBlock}

/-- No other body around the token starts behind the one that it belongs to. -/
theorem Owned.start_le {opener name : String} {k : Nat} {tag : Tag} {body : Deferred}
    (h : Owned env start j) (hopener : opener ∈ ["mixin", "block"])
    (defers : Defers env opener k tag name body) (hout : Outside env.kinds env.tokens k)
    (hle : body.start ≤ j) (hstop : j ≤ body.stop) : body.start ≤ start := by
  by_contra hbehind
  have hstart := defers.start
  have hname : tag.name ∈ ["js", "mixin", "block"] := by
    rw [defers.tag_name]
    exact List.mem_cons_of_mem _ hopener
  have hclosed := h.closed k tag body.stop (by omega) (by omega) hout defers.here hname
    (defers.tag_name ▸ defers.closes)
  omega

/-- What well-nested tokens lead to belongs to the same body. -/
theorem Owned.across (hkinds : env.kinds = TagRegistry.builtin.kinds) (h : Owned env start i)
    (hi : Outside env.kinds env.tokens i) (hle : i ≤ j) (hj : j ≤ env.tokens.length)
    (hnested : WellNested TagRegistry.builtin.kinds (between env.tokens i j)) :
    Owned env start j where
  le := Nat.le_trans h.le hle
  closed k tag stop hstart hlt hout here hname closes := by
    by_cases hki : k < i
    · exact Nat.lt_of_lt_of_le (h.closed k tag stop hstart hki hout here hname closes) hle
    · have hdeferred : ∀ name ∈ ["js", "mixin", "block"], name ∈ blockTags ∧ name ∉ verbatimTags := by
        decide
      obtain ⟨hblock, hlooked⟩ := hdeferred _ hname
      rw [hkinds] at hi hout closes
      exact hnested.closingTag_lt builtin_proper hj (by omega) hlt here (mem_blockTags.2 hblock)
        (not_isVerbatim hlooked) hi hout closes

theorem Owned.refl (env : DraftEnv) (start : Nat) : Owned env start start :=
  ⟨Nat.le_refl _, fun _ _ _ _ _ => by omega⟩

/-- An opener of another block leads to no other body. -/
theorem Owned.succ {tag : Tag} (h : Owned env start i) (here : env.token? i = some (.tag tag))
    (hname : tag.name ∉ ["js", "mixin", "block"]) : Owned env start (i + 1) where
  le := Nat.le_succ_of_le h.le
  closed k other stop hstart hlt hout here' hname' closes := by
    obtain rfl | hki := Nat.eq_or_lt_of_le (Nat.le_of_lt_succ hlt)
    · obtain rfl := Token.tag.inj (Option.some.inj (here.symm.trans here'))
      exact absurd hname' hname
    · exact Nat.lt_succ_of_lt (h.closed k other stop hstart hki hout here' hname' closes)

theorem OpenKind.opener_not_deferred (kind : OpenKind) :
    kind.opener ∉ ["js", "mixin", "block"] := by
  cases kind with
  | root | case | loop => simp [opener]
  | condition kind => cases kind <;> simp [opener, ConditionKind.opener]

theorem Stacked.owned (hkinds : env.kinds = TagRegistry.builtin.kinds)
    (hlength : start ≤ env.tokens.length) (hstart : Outside env.kinds env.tokens start)
    (h : Stacked env L A τ start below stack σ i) : Owned env start i := by
  induction h with
  | ground filled =>
    obtain ⟨hle, hi, hnested⟩ := filled.wellNested hkinds hlength
    exact (Owned.refl env start).across hkinds hstart hle hi hnested
  | @block _ _ kind _ k _ _ tag around inner here opener _ filled ih =>
    have hk := (List.getElem?_eq_some_iff.1 here).1
    obtain ⟨hle, hi, hnested⟩ := filled.wellNested hkinds hk
    have hlooked : env.kinds.isVerbatim tag.name = false := by
      rw [hkinds, opener]
      exact not_isVerbatim (kind.opener_mem inner).2
    have hout := (around.outside hkinds hlength hstart).succ here hlooked
    exact (ih.succ here (opener ▸ kind.opener_not_deferred)).across hkinds hout hle hi hnested

end

/-- A token that is reached in a body belongs to it. -/
theorem Generator.Reaches.owned {g : Generator} {d d₀ : Draft} {τ σ : Scope} {start stop k : Nat}
    {below : List OpenBlock} (hg : g.IsBuiltin) (hτ : 0 < τ.depth)
    (hends : Ends g.env start below stop) (hlength : start ≤ g.env.tokens.length)
    (hstart : Outside g.env.kinds g.env.tokens start)
    (h : Going g.env d₀ (fun _ _ => True) τ start below d) (hk : k ≤ stop)
    (hreaches : g.Reaches d k σ) : Owned g.env start k := by
  obtain ⟨mid, rfl, _, hgoing, _⟩ := hreaches.going hg hτ hends h (fun _ _ _ _ => trivial) hk
  exact hgoing.stacked.owned hg.kinds hlength hstart

end Stencil
