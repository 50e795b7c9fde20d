import Stencil.Proofs.Generation.Lockstep

/-!
# A block around some tokens

`Wrapping` puts the tags of a block around a word of tokens. All other tokens say the same as before,
but those behind the word have moved by two places (`Across`).

* `Wrapping.closes_across`, `Wrapping.ends_across`: what closes a block, closes it after the move.
* `Wrapping.sites_across`: named blocks stand where they stood, and the new one around the word.
-/

namespace Stencil

/-! ## Words -/

/-- Blocks are closed in order, and no tag goes on with another branch or arm of a block around. -/
inductive Sealed (kinds : TagKinds) : List Token → Prop where
  | nil : Sealed kinds []
  | plain {token : Token} {rest : List Token} (plain : token.IsPlain kinds)
      (stays : ∀ name ∈ turningTags, token.isTag name = false) (rest_sealed : Sealed kinds rest) :
      Sealed kinds (token :: rest)
  | verbatim {opener : Tag} {closer : Token} {content rest : List Token}
      (opens : kinds.isVerbatim opener.name = true)
      (inside : ∀ token ∈ content, token.isTag (closerOf opener.name) = false)
      (closes : closer.isTag (closerOf opener.name) = true) (rest_sealed : Sealed kinds rest) :
      Sealed kinds (.tag opener :: content ++ closer :: rest)
  | block {opener closer : Tag} {inner rest : List Token} (opens : kinds.isBlock opener.name = true)
      (looked : kinds.isVerbatim opener.name = false) (inside : WellNested kinds inner)
      (closes : closer.name = closerOf opener.name) (rest_sealed : Sealed kinds rest) :
      Sealed kinds (.tag opener :: inner ++ .tag closer :: rest)

theorem Sealed.nested {kinds : TagKinds} {word : List Token} (h : Sealed kinds word) :
    WellNested kinds word := by
  induction h with
  | nil => exact .nil
  | plain plain _ _ ih => exact .plain plain ih
  | verbatim opens inside closes _ ih => exact .verbatim opens inside closes ih
  | block opens looked inside closes _ ih => exact .block opens looked inside closes ih

/-- Tags that bind names, jump, trim, or leave a body behind. -/
def unwrappedTags : List String :=
  ["assign", "capture", "js", "break", "continue", "trim", "mixin", "block"]

/-- Tokens, a word among them, and the tokens with the tags of a block around the word. -/
structure Wrapping where
  name : String
  before : List Token
  word : List Token
  after : List Token
  before' : List Token
  word' : List Token
  after' : List Token
  opener : Tag
  closer : Tag
  before_alike : List.Forall₂ Token.Alike before before'
  word_alike : List.Forall₂ Token.Alike word word'
  after_alike : List.Forall₂ Token.Alike after after'
  opens : opener.name = "block"
  named : blockName? opener = some name
  closes : closer.name = "endblock"
  word_sealed : Sealed TagRegistry.builtin.kinds word
  word_quiet : ∀ token ∈ word, ∀ name ∈ unwrappedTags, token.isTag name = false
  /-- The word stands in no verbatim block. -/
  outside : Outside TagRegistry.builtin.kinds (before ++ (word ++ after)) before.length
  /-- No block has the name of the new one. -/
  fresh : ∀ tag, .tag tag ∈ before ++ (word ++ after) → tag.name = "block" →
    blockName? tag ≠ some name
  /-- The word stands in no script and no mixin. -/
  free : ∀ k tag stop, k < before.length →
    Outside TagRegistry.builtin.kinds (before ++ (word ++ after)) k →
    (before ++ (word ++ after))[k]? = some (.tag tag) → tag.name ∈ ["js", "mixin"] →
    closingTag TagRegistry.builtin.kinds (before ++ (word ++ after)) (closerOf tag.name) k = .ok stop →
    stop < before.length
  /-- It does not stand between a case and the first arm of it. -/
  armed : ∀ k tag, k < before.length →
    Outside TagRegistry.builtin.kinds (before ++ (word ++ after)) k →
    (before ++ (word ++ after))[k]? = some (.tag tag) → tag.name = "case" →
    WellNested TagRegistry.builtin.kinds (between (before ++ (word ++ after)) (k + 1) before.length) →
    ∃ i arm, k < i ∧ i < before.length ∧ (before ++ (word ++ after))[i]? = some (.tag arm) ∧
      arm.name = "when" ∧
      WellNested TagRegistry.builtin.kinds (between (before ++ (word ++ after)) (k + 1) i)
  /-- No trim stands right before it. -/
  untrimmed : ∀ token, before.getLast? = some token → token.isTag "trim" = false

namespace Wrapping

variable (w : Wrapping)

def tokens : List Token := w.before ++ (w.word ++ w.after)

/-- The tokens with the block. -/
def wrapped : List Token := w.before' ++ (.tag w.opener :: (w.word' ++ .tag w.closer :: w.after'))

/-- The index of the word. -/
def first : Nat := w.before.length

/-- The index behind the word. -/
def last : Nat := w.first + w.word.length

/-- A trim is not the last token, and not the last one of a mixin or a block. -/
def TrimsWithin : Prop :=
  ∀ k token, Outside TagRegistry.builtin.kinds w.tokens k → w.tokens[k]? = some token →
    token.isTag "trim" = true → ∃ next, w.tokens[k + 1]? = some next ∧
      next.isTag "endmixin" = false ∧ next.isTag "endblock" = false

/-- The indices of a token outside the word, without and with the block. -/
def Across (i i' : Nat) : Prop := (i < w.first ∧ i' = i) ∨ (w.last ≤ i ∧ i' = i + 2)

end Wrapping

/-! ## Alike tokens -/

section

variable {tokens tokens' : List Token} {kinds : TagKinds}

theorem getElem?_alike (h : List.Forall₂ Token.Alike tokens tokens') {i : Nat} {token : Token}
    (here : tokens[i]? = some token) : ∃ pos, tokens'[i]? = some (token.movedTo pos) := by
  induction h generalizing i with
  | nil => cases here
  | cons halike _ ih =>
    cases i with
    | zero =>
      obtain rfl := Option.some.inj here
      obtain ⟨pos, rfl⟩ := halike
      exact ⟨pos, rfl⟩
    | succ i => exact ih here

/-- A verbatim block is open behind both or behind neither. -/
theorem behind_alike (kinds : TagKinds) (h : List.Forall₂ Token.Alike tokens tokens')
    {mode mode' : Option Tag} (hmode : mode'.map Tag.name = mode.map Tag.name) :
    (tokens'.foldl kinds.behind mode').map Tag.name = (tokens.foldl kinds.behind mode).map Tag.name := by
  induction h generalizing mode mode' with
  | nil => exact hmode
  | @cons token _ _ _ halike _ ih =>
    obtain ⟨pos, rfl⟩ := halike
    refine ih ?_
    cases mode with
    | some opener =>
      cases mode' with
      | none => cases hmode
      | some opener' =>
        have hname : opener'.name = opener.name := Option.some.inj hmode
        simp only [TagKinds.behind, Token.isTag_movedTo, hname]
        split
        · rfl
        · exact hmode
    | none =>
      obtain rfl : mode' = none := Option.map_eq_none_iff.1 hmode
      cases token with
      | raw | object => rfl
      | tag tag =>
        simp only [TagKinds.behind, Token.movedTo]
        split <;> rfl

theorem behind_alike_none (h : List.Forall₂ Token.Alike tokens tokens') :
    tokens'.foldl kinds.behind none = none ↔ tokens.foldl kinds.behind none = none := by
  have halike : (tokens'.foldl kinds.behind none).map Tag.name =
      (tokens.foldl kinds.behind none).map Tag.name := behind_alike kinds h rfl
  rw [← Option.map_eq_none_iff (f := Tag.name), halike, Option.map_eq_none_iff]

/-- Tokens that say the same are nested alike. -/
theorem WellNested.alike (hk : kinds.Proper) (h : WellNested kinds tokens)
    (halike : List.Forall₂ Token.Alike tokens tokens') : WellNested kinds tokens' := by
  -- A closing tag behind the tokens is found, so what stands before it is well nested.
  let closer : Tag := { (default : Tag) with name := closerOf "" }
  have hcloser : closingFrom kinds (closerOf "") none [] 0 (tokens ++ [.tag closer]) =
      .ok tokens.length := by
    rw [closingFrom_append hk (isCloser_closerOf _) h]
    simp [closingFrom, closer]
  have hsame : List.Forall₂ Token.Alike (tokens ++ [.tag closer]) (tokens' ++ [.tag closer]) :=
    List.rel_append halike (.cons ⟨closer.pos, rfl⟩ .nil)
  rw [← List.append_nil (tokens ++ _)] at hcloser
  have hfound := closingFrom_alike hsame rfl hcloser (by simp) 0 []
  rw [List.append_nil] at hfound
  obtain ⟨content, word, tag, rest, htokens, hlength, _, hunwinds, hcontent⟩ :=
    leads_of_closingFrom hfound
  dsimp only at hcontent
  subst hcontent
  have hword : word = tokens' := by
    have hlengths := halike.length_eq
    have hall := congrArg List.length htokens
    simp only [List.length_append, List.length_cons, List.length_nil] at hall hlength
    have hrest : rest = [] := List.length_eq_zero_iff.1 (by omega)
    subst hrest
    have hsplit : tokens' = word ∧ closer = tag := by simpa using htokens
    exact hsplit.1.symm
  cases hunwinds with
  | done nested => exact hword ▸ nested

end

/-! ## Tokens around the word -/

namespace Wrapping

variable {w : Wrapping} {i i' stop stop' : Nat}

theorem length_before : w.before'.length = w.first := w.before_alike.length_eq.symm

theorem length_word : w.word'.length = w.word.length := w.word_alike.length_eq.symm

theorem last_le : w.last ≤ w.tokens.length := by
  simp only [last, first, tokens, List.length_append]
  omega

theorem length_wrapped : w.wrapped.length = w.tokens.length + 2 := by
  have hafter := w.after_alike.length_eq
  simp only [wrapped, tokens, List.length_append, List.length_cons, length_before, length_word, first]
  omega

theorem getElem?_before (h : i < w.first) : w.tokens[i]? = w.before[i]? :=
  List.getElem?_append_left h

theorem getElem?_before' (h : i < w.first) : w.wrapped[i]? = w.before'[i]? :=
  List.getElem?_append_left (length_before ▸ h)

theorem drop_after (h : w.last ≤ i) : w.tokens.drop i = w.after.drop (i - w.last) := by
  unfold last first at *
  rw [tokens, List.drop_append, List.drop_append, List.drop_eq_nil_of_le (by omega),
    List.drop_eq_nil_of_le (by omega), List.nil_append, List.nil_append]
  congr 1
  omega

theorem drop_after' (h : w.last ≤ i) : w.wrapped.drop (i + 2) = w.after'.drop (i - w.last) := by
  have hbefore := w.length_before
  have hword := w.length_word
  have hsplit : w.wrapped =
      (w.before' ++ (.tag w.opener :: (w.word' ++ [.tag w.closer]))) ++ w.after' := by
    simp [wrapped]
  unfold last first at *
  rw [hsplit, List.drop_append, List.drop_eq_nil_of_le, List.nil_append]
  · congr 1
    simp only [List.length_append, List.length_cons, List.length_nil]
    omega
  · simp only [List.length_append, List.length_cons, List.length_nil]
    omega

theorem getElem?_after (h : w.last ≤ i) : w.tokens[i]? = w.after[i - w.last]? := by
  have hhead := congrArg (·[0]?) (drop_after h)
  simpa [List.getElem?_drop] using hhead

theorem getElem?_after' (h : w.last ≤ i) : w.wrapped[i + 2]? = w.after'[i - w.last]? := by
  have hhead := congrArg (·[0]?) (drop_after' h)
  simpa [List.getElem?_drop] using hhead

/-- A token outside the word stands at the other index, too. -/
theorem token_across (h : w.Across i i') {token : Token} (here : w.tokens[i]? = some token) :
    ∃ pos, w.wrapped[i']? = some (token.movedTo pos) := by
  rcases h with ⟨hlt, rfl⟩ | ⟨hle, rfl⟩
  · rw [getElem?_before hlt] at here
    rw [getElem?_before' hlt]
    exact getElem?_alike w.before_alike here
  · rw [getElem?_after hle] at here
    rw [getElem?_after' hle]
    exact getElem?_alike w.after_alike here

/-- And behind all tokens there is none. -/
theorem none_across (h : w.Across i i') (hnone : w.tokens[i]? = none) : w.wrapped[i']? = none := by
  rw [List.getElem?_eq_none_iff] at hnone ⊢
  have hlast := w.last_le
  rw [length_wrapped]
  rcases h with ⟨hlt, rfl⟩ | ⟨hle, rfl⟩
  · unfold last at hlast
    omega
  · omega

/-! ## What closes blocks -/

theorem word_nested : WellNested TagRegistry.builtin.kinds w.word := w.word_sealed.nested

theorem word_nested' : WellNested TagRegistry.builtin.kinds w.word' :=
  w.word_nested.alike builtin_proper w.word_alike

/-- The block is well nested. -/
theorem block_nested : WellNested TagRegistry.builtin.kinds
    (.tag w.opener :: w.word' ++ .tag w.closer :: []) := by
  refine .block ?_ ?_ w.word_nested' ?_ .nil
  · rw [w.opens]
    exact mem_blockTags.2 (by decide)
  · rw [w.opens]
    exact not_isVerbatim (by decide)
  · rw [w.opens, w.closes]
    rfl

/-- Between two indices outside verbatim blocks, no verbatim block is open in the end. -/
theorem behind_between {kinds : TagKinds} {tokens : List Token} (hi : Outside kinds tokens i)
    (hj : Outside kinds tokens stop) (hle : i ≤ stop) :
    (between tokens i stop).foldl kinds.behind none = none := by
  have hsplit := List.take_append_drop i (tokens.take stop)
  rw [List.take_take, Nat.min_eq_left hle] at hsplit
  unfold Outside at hi hj
  rw [← hsplit, List.foldl_append, hi] at hj
  exact hj

/-- A closing tag that is found without the block is found with it. -/
theorem closes_across {tag : Tag} (h : w.Across i i')
    (hout : Outside TagRegistry.builtin.kinds w.tokens i) (here : w.tokens[i]? = some (.tag tag))
    (hlooked : TagRegistry.builtin.kinds.isVerbatim tag.name = false)
    (hcloses : closingTag TagRegistry.builtin.kinds w.tokens (closerOf tag.name) i = .ok stop) :
    ∃ stop', closingTag TagRegistry.builtin.kinds w.wrapped (closerOf tag.name) i' = .ok stop' ∧
      w.Across stop stop' := by
  unfold closingTag at hcloses ⊢
  rcases h with ⟨hlt, rfl⟩ | ⟨hle, rfl⟩
  · have hbefore := w.length_before
    have hdrop : w.tokens.drop (i' + 1) = w.before.drop (i' + 1) ++ (w.word ++ w.after) :=
      List.drop_append_of_le_length hlt
    have hdrop' : w.wrapped.drop (i' + 1) = w.before'.drop (i' + 1) ++
        ((.tag w.opener :: w.word' ++ .tag w.closer :: []) ++ w.after') := by
      rw [wrapped, List.drop_append_of_le_length (by omega)]
      simp
    have hbetween : between w.tokens (i' + 1) w.first = w.before.drop (i' + 1) := by
      rw [between, tokens, first, List.take_left]
    have hbehind := behind_between (hout.succ here hlooked) w.outside hlt
    rw [show between w.tokens (i' + 1) w.before.length = _ from hbetween] at hbehind
    rw [hdrop] at hcloses
    rw [hdrop']
    have hlength : (w.before.drop (i' + 1)).length = w.first - (i' + 1) := List.length_drop
    rcases closingFrom_across builtin_proper (isCloser_closerOf _)
      (List.forall₂_drop (i' + 1) w.before_alike) w.word_nested w.block_nested
      (by simp [length_word] : _ = w.word.length + 2) w.after_alike rfl hbehind hcloses with
      ⟨hbound, hfound⟩ | ⟨hbound, hfound⟩
    · exact ⟨stop, hfound, .inl ⟨by omega, rfl⟩⟩
    · exact ⟨stop + 2, hfound, .inr ⟨by unfold last; omega, rfl⟩⟩
  · have hstop := le_of_closingFrom hcloses
    have hlt := lt_of_closingFrom hcloses
    rw [← List.append_nil (w.tokens.drop _)] at hcloses
    have halike : List.Forall₂ Token.Alike (w.tokens.drop (i + 1)) (w.wrapped.drop (i + 1 + 2)) := by
      rw [drop_after (by omega), drop_after' (by omega)]
      exact List.forall₂_drop _ w.after_alike
    have hfound := closingFrom_alike halike rfl hcloses hlt 2 []
    rw [List.append_nil] at hfound
    exact ⟨stop + 2, hfound, .inr ⟨by omega, rfl⟩⟩

/-- The tags of scripts and mixins are closed on the same side of the word. -/
theorem free_across {tag : Tag} (h : w.Across i i')
    (hout : Outside TagRegistry.builtin.kinds w.tokens i) (here : w.tokens[i]? = some (.tag tag))
    (hname : tag.name ∈ ["js", "mixin"])
    (hcloses : closingTag TagRegistry.builtin.kinds w.tokens (closerOf tag.name) i = .ok stop) :
    stop < w.first ∨ w.last ≤ i := by
  rcases h with ⟨hlt, rfl⟩ | ⟨hle, rfl⟩
  · exact .inl (w.free i' tag stop hlt hout here hname hcloses)
  · exact .inr hle

/-- Tokens on the same side of the word have the same source. -/
theorem source_across (h : w.Across i i') (hstop : w.Across stop stop')
    (hside : stop < w.first ∨ w.last ≤ i) :
    sourceOf ((w.wrapped.take stop').drop (i' + 1)) = sourceOf ((w.tokens.take stop).drop (i + 1)) := by
  rcases hside with hlt | hle
  · have hstop' : stop' = stop := by
      unfold Across last at hstop
      omega
    subst hstop'
    by_cases hi : i < w.first
    · have hi' : i' = i := by
        unfold Across last at h
        omega
      subst hi'
      have hbefore := w.length_before
      rw [tokens, wrapped, List.take_append_of_le_length (Nat.le_of_lt hlt),
        List.take_append_of_le_length (by omega)]
      exact sourceOf_alike (List.forall₂_drop _ (List.forall₂_take _ w.before_alike))
    · have hempty {tokens : List Token} {i : Nat} (hle : stop' ≤ i + 1) :
          (tokens.take stop').drop (i + 1) = [] :=
        List.drop_eq_nil_of_le (by rw [List.length_take]; omega)
      rw [hempty (by unfold Across last at h; omega), hempty (by omega)]
  · have hi' : i' = i + 2 := by
      unfold Across last at h
      unfold last at hle
      omega
    subst hi'
    by_cases hlast : w.last ≤ stop
    · have hstop' : stop' = stop + 2 := by
        unfold Across last at hstop
        unfold last at hlast
        omega
      subst hstop'
      rw [List.drop_take, List.drop_take, show i + 2 + 1 = i + 1 + 2 by omega,
        drop_after (by omega), drop_after' (by omega),
        show stop + 2 - (i + 1 + 2) = stop - (i + 1) by omega]
      exact sourceOf_alike (List.forall₂_take _ (List.forall₂_drop _ w.after_alike))
    · have hempty {tokens : List Token} {stop i : Nat} (hle : stop ≤ i) :
          (tokens.take stop).drop i = [] :=
        List.drop_eq_nil_of_le (by rw [List.length_take]; omega)
      rw [hempty (by unfold Across at hstop; omega), hempty (by omega)]

/-- The end of a verbatim block is found with the block around the word, too. -/
theorem ends_across {tag : Tag} (h : w.Across i i')
    (hout : Outside TagRegistry.builtin.kinds w.tokens i) (here : w.tokens[i]? = some (.tag tag))
    (hverbatim : TagRegistry.builtin.kinds.isVerbatim tag.name = true)
    (hends : verbatimEnd? w.tokens tag.name i = some stop) :
    ∃ stop', verbatimEnd? w.wrapped tag.name i' = some stop' ∧ w.Across stop stop' ∧
      (stop < w.first ∨ w.last ≤ i) := by
  have hstop := (verbatimEnd?_eq_some hends).1
  unfold verbatimEnd? at hends ⊢
  obtain ⟨n, hn, rfl⟩ := Option.map_eq_some_iff.1 hends
  rcases h with ⟨hlt, rfl⟩ | ⟨hle, rfl⟩
  · -- The block ends before the word, because the word does not stand in it.
    have hbound : i' + 1 + n < w.first := by
      by_contra hge
      exact Outside.not_within hout here hverbatim hends hlt (by omega) w.outside
    have hbefore := w.length_before
    have hn' : (w.wrapped.drop (i' + 1)).findIdx? (·.isTag (closerOf tag.name)) = some n := by
      rw [tokens, List.drop_append_of_le_length hlt, List.findIdx?_append, Option.or_eq_some_iff] at hn
      rw [wrapped, List.drop_append_of_le_length (by omega), List.findIdx?_append,
        findIdx?_alike (List.forall₂_drop _ w.before_alike)]
      rcases hn with hn | ⟨_, hn⟩
      · rw [hn]
        rfl
      · obtain ⟨m, _, rfl⟩ := Option.map_eq_some_iff.1 hn
        rw [List.length_drop] at hbound
        unfold first at hbound hlt
        omega
    exact ⟨_, by rw [hn']; rfl, .inl ⟨hbound, rfl⟩, .inl hbound⟩
  · have hn' : (w.wrapped.drop (i + 2 + 1)).findIdx? (·.isTag (closerOf tag.name)) = some n := by
      rw [show i + 2 + 1 = i + 1 + 2 by omega, drop_after' (by omega),
        findIdx?_alike (List.forall₂_drop _ w.after_alike), ← drop_after (by omega)]
      exact hn
    exact ⟨i + 2 + 1 + n, by rw [hn']; rfl, .inr ⟨by omega, by omega⟩, .inr hle⟩

/-! ## Named blocks -/

/-- The name of a block is not empty. -/
theorem blockName?_ne_empty {tag : Tag} {name : String} (h : blockName? tag = some name) :
    name ≠ "" := by
  have hmem : name ∈ Text.wordsOf tag.head := List.mem_of_mem_head? (Option.mem_def.2 h)
  obtain ⟨word, hword, rfl⟩ := List.mem_map.1 hmem
  have hfilter := (List.mem_filter.1 hword).2
  intro hempty
  have hnil : word = [] := by simpa using congrArg String.toList hempty
  rw [hnil] at hfilter
  cases hfilter

/-- A token outside the word is outside verbatim blocks with the block if it is without. -/
theorem outside_across (h : w.Across i i') :
    Outside TagRegistry.builtin.kinds w.wrapped i' ↔ Outside TagRegistry.builtin.kinds w.tokens i := by
  have hbefore := w.length_before
  unfold Outside
  rcases h with ⟨hlt, rfl⟩ | ⟨hle, rfl⟩
  · rw [tokens, wrapped, List.take_append_of_le_length (Nat.le_of_lt hlt),
      List.take_append_of_le_length (by omega)]
    exact behind_alike_none (List.forall₂_take _ w.before_alike)
  · have htake : w.tokens.take i = w.before ++ (w.word ++ w.after.take (i - w.last)) := by
      unfold last first at *
      rw [tokens, List.take_append, List.take_of_length_le (by omega), List.take_append,
        List.take_of_length_le (by omega)]
      congr 3
      omega
    have htake' : w.wrapped.take (i + 2) =
        w.before' ++
          ((.tag w.opener :: w.word' ++ .tag w.closer :: []) ++ w.after'.take (i - w.last)) := by
      have hword := w.length_word
      have hsplit : w.wrapped =
          (w.before' ++ (.tag w.opener :: w.word' ++ .tag w.closer :: [])) ++ w.after' := by
        simp [wrapped]
      unfold last first at *
      rw [hsplit, List.take_append, List.take_of_length_le, List.append_assoc]
      · congr 3
        simp only [List.length_append, List.length_cons, List.length_nil]
        omega
      · simp only [List.length_append, List.length_cons, List.length_nil]
        omega
    have hout : w.before.foldl TagRegistry.builtin.kinds.behind none = none := by
      have := w.outside
      rwa [Outside, List.take_left] at this
    have hold : (w.tokens.take i).foldl TagRegistry.builtin.kinds.behind none =
        (w.after.take (i - w.last)).foldl TagRegistry.builtin.kinds.behind none := by
      rw [htake, List.foldl_append, hout, List.foldl_append, w.word_nested.behind builtin_proper]
    have hnew : (w.wrapped.take (i + 2)).foldl TagRegistry.builtin.kinds.behind none =
        (w.after'.take (i - w.last)).foldl TagRegistry.builtin.kinds.behind none := by
      rw [htake', List.foldl_append, (behind_alike_none w.before_alike).2 hout, List.foldl_append,
        w.block_nested.behind builtin_proper]
    rw [hold, hnew]
    exact behind_alike_none (List.forall₂_take _ w.after_alike)

/-- The tag of the block stands at the index of the word. -/
theorem opener_here : w.wrapped[w.first]? = some (.tag w.opener) := by
  rw [wrapped, List.getElem?_append_right (Nat.le_of_eq length_before), length_before, Nat.sub_self]
  rfl

theorem isSite_movedTo {token : Token} {pos : Pos} {name : String} :
    IsSite (token.movedTo pos) name ↔ IsSite token name := by
  cases token with
  | raw | object => exact iff_of_false (fun ⟨_, h, _⟩ => by cases h) fun ⟨_, h, _⟩ => by cases h
  | tag tag =>
    constructor
    · rintro ⟨_, heq, hblock, hname⟩
      cases heq
      exact ⟨tag, rfl, hblock, hname⟩
    · rintro ⟨_, heq, hblock, hname⟩
      cases heq
      exact ⟨{ tag with pos }, rfl, hblock, hname⟩

/-- A named block stands outside the word, and where it stood. -/
theorem siteAt_across {key : String} (h : SiteAt TagRegistry.builtin.kinds none w.tokens i key) :
    ∃ i', w.Across i i' ∧ SiteAt TagRegistry.builtin.kinds none w.wrapped i' key := by
  obtain ⟨hout, token, here, hsite⟩ := h
  have hside : i < w.first ∨ w.last ≤ i := by
    by_contra hword
    have hmem : token ∈ w.word := by
      have hi : i - w.first < w.word.length := by
        unfold last at hword
        omega
      unfold first at *
      rw [tokens, List.getElem?_append_right (by omega), List.getElem?_append_left hi] at here
      exact List.mem_of_getElem? here
    obtain ⟨tag, rfl, hblock, _⟩ := hsite
    have hquiet := w.word_quiet _ hmem "block" (by decide)
    simp [Token.isTag, hblock] at hquiet
  obtain ⟨i', hacross⟩ : ∃ i', w.Across i i' :=
    hside.elim (fun hlt => ⟨i, .inl ⟨hlt, rfl⟩⟩) fun hle => ⟨i + 2, .inr ⟨hle, rfl⟩⟩
  obtain ⟨pos, here'⟩ := token_across hacross here
  exact ⟨i', hacross, (outside_across hacross).2 hout, _, here', isSite_movedTo.2 hsite⟩

/-- A named block other than the new one is an old one. -/
theorem siteAt_wrapped {key : String} (h : SiteAt TagRegistry.builtin.kinds none w.wrapped i' key) :
    (i' = w.first ∧ key = w.name) ∨
      ∃ i, w.Across i i' ∧ SiteAt TagRegistry.builtin.kinds none w.tokens i key := by
  obtain ⟨hout, token', here', hsite⟩ := h
  have hbefore := w.length_before
  have hword := w.length_word
  have old {i : Nat} (hacross : w.Across i i') (hi : i < w.tokens.length) :
      ∃ i, w.Across i i' ∧ SiteAt TagRegistry.builtin.kinds none w.tokens i key := by
    have here : w.tokens[i]? = some w.tokens[i] := List.getElem?_eq_getElem hi
    obtain ⟨pos, hmoved⟩ := token_across hacross here
    obtain rfl := Option.some.inj (here'.symm.trans hmoved)
    exact ⟨i, hacross, (outside_across hacross).1 hout, _, here, isSite_movedTo.1 hsite⟩
  have hlength := (List.getElem?_eq_some_iff.1 here').1
  have hlast := w.last_le
  rw [length_wrapped] at hlength
  rcases Nat.lt_trichotomy i' w.first with hlt | rfl | hgt
  · exact .inr (old (.inl ⟨hlt, rfl⟩) (by unfold last at hlast; omega))
  · obtain rfl := Option.some.inj (w.opener_here.symm.trans here')
    obtain ⟨tag, heq, _, hname⟩ := hsite
    obtain rfl := Token.tag.inj heq
    rw [w.named] at hname
    exact .inl ⟨rfl, hname.symm⟩
  · by_cases hafter : w.last + 2 ≤ i'
    · exact .inr (old (i := i' - 2) (.inr ⟨by omega, by omega⟩) (by omega))
    · -- Neither the word nor the closing tag of the block is the tag of a block.
      exfalso
      obtain ⟨n, hn, rfl⟩ : ∃ n, n ≤ w.word.length ∧ i' = w.first + 1 + n :=
        ⟨i' - (w.first + 1), by unfold last at hafter; omega, by omega⟩
      have hn' : w.wrapped[w.first + 1 + n]? = (w.word' ++ .tag w.closer :: w.after')[n]? := by
        rw [wrapped, List.getElem?_append_right (by omega), hbefore,
          show w.first + 1 + n - w.first = n + 1 by omega]
        rfl
      rw [hn'] at here'
      obtain ⟨tag, rfl, hblock, _⟩ := hsite
      obtain hlt | rfl := Nat.lt_or_eq_of_le hn
      · rw [List.getElem?_append_left (by omega)] at here'
        have here : w.word[n]? = some w.word[n] := List.getElem?_eq_getElem hlt
        obtain ⟨pos, hmoved⟩ := getElem?_alike w.word_alike here
        have hquiet := w.word_quiet _ (List.mem_of_getElem? here) "block" (by decide)
        rw [← Token.isTag_movedTo _ pos, Option.some.inj (hmoved.symm.trans here')] at hquiet
        simp [Token.isTag, hblock] at hquiet
      · rw [List.getElem?_append_right (by omega), hword, Nat.sub_self] at here'
        obtain rfl := Token.tag.inj (Option.some.inj here')
        rw [w.closes] at hblock
        exact absurd hblock (by decide)

end Wrapping

/-- The scan for named blocks succeeds if no verbatim block is open in the end. -/
theorem sitesFrom_ok {kinds : TagKinds} {mode : Option Tag} {idx : Nat} {sites : Sites}
    {tokens : List Token} : (∃ sites', sitesFrom kinds mode idx sites tokens = .ok sites') ↔
      tokens.foldl kinds.behind mode = none := by
  fun_induction sitesFrom kinds mode idx sites tokens with
  | case1 => simp
  | case2 => simp
  | case3 opener idx sites token rest hcloses ih => simpa [TagKinds.behind, hcloses] using ih
  | case4 opener idx sites token rest hcloses ih => simpa [TagKinds.behind, hcloses] using ih
  | case5 idx sites tag rest hverbatim ih => simpa [TagKinds.behind, hverbatim] using ih
  | case6 idx sites tag rest hverbatim hblock ih => simpa [TagKinds.behind, hverbatim] using ih
  | case7 idx sites tag rest hverbatim hblock ih => simpa [TagKinds.behind, hverbatim] using ih
  | case8 idx sites token rest hno ih =>
    cases token with
    | raw | object => simpa [TagKinds.behind] using ih
    | tag tag => exact absurd rfl (hno tag)

namespace Wrapping

variable {w : Wrapping}

/-- The new block is found where its tag stands, and nowhere else. -/
theorem site_new {sites' : Sites} (h' : blockSites TagRegistry.builtin.kinds w.wrapped = .ok sites') :
    sites'.get? w.name = some (w.first, w.first) := by
  have hlooked : TagRegistry.builtin.kinds.isVerbatim "block" = false := not_isVerbatim (by decide)
  have only {k : Nat} (hsite : SiteAt TagRegistry.builtin.kinds none w.wrapped k w.name) :
      k = w.first := by
    rcases siteAt_wrapped hsite with ⟨hk, _⟩ | ⟨i, _, _, token, here, tag, rfl, hblock, hname⟩
    · exact hk
    · have hfresh := w.fresh tag (List.mem_of_getElem? here) hblock
      cases hnamed : blockName? tag with
      | none =>
        rw [hnamed] at hname
        exact absurd hname.symm (blockName?_ne_empty w.named)
      | some other =>
        rw [hnamed] at hname hfresh
        exact absurd (congrArg some hname) hfresh
  have hsite : SiteAt TagRegistry.builtin.kinds none w.wrapped w.first w.name := by
    refine ⟨?_, _, w.opener_here, w.opener, rfl, w.opens, by rw [w.named]; rfl⟩
    have hout := w.outside
    rw [Outside, List.take_left] at hout
    rw [wrapped, List.take_left' length_before]
    exact (behind_alike_none w.before_alike).2 hout
  obtain ⟨first, last, hget, _⟩ := (sites_spec hlooked h').finds _ _ hsite
  obtain ⟨hfirst, hlast⟩ := siteAt_of_sites hlooked h' hget
  rw [hget, only hfirst, only hlast]

/-- An old one is found where it stood. -/
theorem site_old {sites sites' : Sites} {key : String} {first last : Nat}
    (h : blockSites TagRegistry.builtin.kinds w.tokens = .ok sites)
    (h' : blockSites TagRegistry.builtin.kinds w.wrapped = .ok sites')
    (hget : sites.get? key = some (first, last)) (hne : key ≠ w.name) :
    ∃ first' last', sites'.get? key = some (first', last') ∧ w.Across first first' ∧
      w.Across last last' := by
  have hlooked : TagRegistry.builtin.kinds.isVerbatim "block" = false := not_isVerbatim (by decide)
  have hscan := sites_spec hlooked h
  have hscan' := sites_spec hlooked h'
  obtain ⟨hfirst, hlast⟩ := siteAt_of_sites hlooked h hget
  obtain ⟨first₁, hacross₁, hsite₁⟩ := siteAt_across hfirst
  obtain ⟨last₁, hacross₂, hsite₂⟩ := siteAt_across hlast
  obtain ⟨first', last', hget', hle₁, _⟩ := hscan'.finds _ _ hsite₁
  obtain ⟨_, _, hget₂, _, hle₂⟩ := hscan'.finds _ _ hsite₂
  obtain ⟨rfl, rfl⟩ := Prod.mk.inj (Option.some.inj (hget'.symm.trans hget₂))
  -- No block of the name stands before the first one or behind the last one, with the block either.
  have old {k : Nat} (hsite : SiteAt TagRegistry.builtin.kinds none w.wrapped k key) :
      ∃ i, w.Across i k ∧ first ≤ i ∧ i ≤ last := by
    rcases siteAt_wrapped hsite with ⟨_, hname⟩ | ⟨i, hacross, hold⟩
    · exact absurd hname hne
    · obtain ⟨_, _, hget₃, hle, hge⟩ := hscan.finds _ _ hold
      obtain ⟨rfl, rfl⟩ := Prod.mk.inj (Option.some.inj (hget.symm.trans hget₃))
      exact ⟨i, hacross, by omega, by omega⟩
  obtain ⟨hfirst', hlast'⟩ := siteAt_of_sites hlooked h' hget'
  obtain ⟨i, hi, hfirst_le, _⟩ := old hfirst'
  obtain ⟨j, hj, _, hle_last⟩ := old hlast'
  have heq : first' = first₁ ∧ last' = last₁ := by
    have hword : w.first ≤ w.last := Nat.le_add_right _ _
    unfold Across at *
    omega
  rw [hget', heq.1, heq.2]
  exact ⟨_, _, rfl, hacross₁, hacross₂⟩

/-- Named blocks stand where they stood, and the new one around the word. -/
theorem sites_across {sites : Sites}
    (h : blockSites TagRegistry.builtin.kinds w.tokens = .ok sites) :
    ∃ sites', blockSites TagRegistry.builtin.kinds w.wrapped = .ok sites' ∧
      sites'.get? w.name = some (w.first, w.first) ∧
      ∀ key first last, sites.get? key = some (first, last) → key ≠ w.name →
        ∃ first' last', sites'.get? key = some (first', last') ∧ w.Across first first' ∧
          w.Across last last' := by
  have hend : w.wrapped.foldl TagRegistry.builtin.kinds.behind none = none := by
    have hout := sitesFrom_ok.1 ⟨sites, h⟩
    have hout' := (outside_across (w := w) (.inr ⟨w.last_le, rfl⟩)).2
      (by rw [Outside, List.take_length]; exact hout)
    rwa [Outside, ← length_wrapped, List.take_length] at hout'
  obtain ⟨sites', h'⟩ := sitesFrom_ok.2 hend
  exact ⟨sites', h', site_new h', fun _ _ _ hget hne => site_old h h' hget hne⟩

end Wrapping

end Stencil
