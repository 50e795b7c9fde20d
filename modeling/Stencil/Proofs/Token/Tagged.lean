import Stencil.Proofs.Expression.Path
import Stencil.Proofs.Script
import Stencil.Proofs.Token.Between

/-!
# A text between two tags

Tags and objects are one token each, and the text between them has its own tokens.

* `Reads.enclosed`: an object or a tag is one token.
* `tokenize_tagged`: the tokens of a text between two tags, with more behind them.
* `IsWord.tag`, `IsWord.object`: what is read between the delimiters if these are words.
-/

namespace Stencil

open Text

/-- What an enclosure is read from. -/
def Enclosure.source (e : Enclosure) (content : List Char) : String :=
  .ofList (e.opener ++ content ++ e.closer)

/-- The token of an object or a tag. -/
def Enclosure.token (e : Enclosure) (content : List Char) (pos : Pos) : Token :=
  match e with
  | object => .objectOfContent content (object.opener ++ content ++ object.closer) pos
  | tag | marker => .tag (.ofContent content (tag.opener ++ content ++ tag.closer) pos)

theorem Enclosure.movedTo_token (e : Enclosure) (content : List Char) (pos pos' : Pos) :
    (e.token content pos).movedTo pos' = e.token content pos' := by
  cases e <;> rfl

/-- An object or a tag that is closed is found, if there is room for it. -/
theorem Scan.close_gains {e : Enclosure} (he : e ≠ .marker) (files : Files) {limit : Nat} {s : Scan}
    (hlimit : s.count < limit) (start : Pos) (content : List Char) (pos : Pos) :
    ∃ s', s.close files limit e start content = .ok s' ∧ s'.mode = .raw [] ∧
      s.Gains s' [e.token content pos] := by
  have hpush : s.close files limit e start content = push files limit { s with
      mode := .raw []
      frame := s.frame.pastAll (e.opener ++ content ++ e.closer) } (e.token content start) := by
    cases e with
    | marker => exact absurd rfl he
    | tag => rfl
    | object => rfl
  have halike : (e.token content pos).Alike (e.token content start) :=
    ⟨start, (e.movedTo_token content pos start).symm⟩
  refine ⟨_, hpush.trans (push_of_lt hlimit), rfl, ?_⟩
  exact (Gains.nil rfl rfl rfl : s.Gains s []).push halike rfl rfl rfl

/-- An object or a tag is one token. -/
theorem Reads.enclosed {e : Enclosure} {content ds tail : List Char} {tokens : List Token}
    (he : e ≠ .marker) (hcontent : Undelimited content) (h : Reads ds tail tokens) (pos : Pos) :
    Reads (e.opener ++ content ++ e.closer ++ ds) tail (e.token content pos :: tokens) := by
  intro files limit s hmode hlimit
  rw [List.length_cons] at hlimit
  obtain ⟨s', hclose, hraw, hgained⟩ :=
    Scan.close_gains he files (show s.count < limit by omega) s.frame.pos content pos
  obtain ⟨s₁, s₂, hends, hgains, hrun⟩ := h files limit s' hraw (by
    rw [hgained.count, List.length_singleton]
    omega)
  refine ⟨s₁, s₂, hends, hgained.trans hgains, ?_⟩
  rw [List.append_assoc, Scan.run_enclosed hmode hcontent hclose, hrun]

/-- A text between two tags has its own tokens, unless its last brace meets the tag behind it. -/
theorem tokenize_tagged {content content' text behind : List Char} {root : String} {files : Files}
    {limit : Nat} {tokens tokens' : List Token} (hcontent : Undelimited content)
    (hcontent' : Undelimited content') (hmarker : ¬ ['{', '#'] <:+: text)
    (hclosed : text.getLast? ≠ some '{')
    (hown : tokenize (.ofList text) root files limit = .ok tokens)
    (hbehind : Reads behind [] tokens') (page : String) (pages : Files) {most : Nat}
    (hmost : tokens.length + tokens'.length + 2 ≤ most) :
    ∃ pos pos' inner more,
      tokenize (.ofList (Enclosure.tag.opener ++ content ++ Enclosure.tag.closer ++
        (text ++ (Enclosure.tag.opener ++ content' ++ Enclosure.tag.closer ++ behind)))) page pages
          most = .ok (Enclosure.tag.token content pos ::
            (inner ++ Enclosure.tag.token content' pos' :: more)) ∧
      List.Forall₂ Token.Alike tokens inner ∧ List.Forall₂ Token.Alike tokens' more := by
  have htag : Enclosure.tag ≠ .marker := nofun
  have hcloser := Reads.enclosed htag hcontent' hbehind ⟨page, 0⟩
  have hinner : Reads text
      (Enclosure.tag.opener ++ content' ++ Enclosure.tag.closer ++ behind ++ []) tokens :=
    .own hmarker (.inr ⟨rfl, hclosed⟩) hown
  have hopens : Enclosure.tag.opener <+:
      Enclosure.tag.opener ++ content' ++ Enclosure.tag.closer ++ behind ++ [] := by
    simp only [List.append_assoc]
    exact List.prefix_append _ _
  have hall := Reads.enclosed htag hcontent (hinner.append_open hopens hcloser) ⟨page, 0⟩
  have hroom : (Enclosure.tag.token content ⟨page, 0⟩ ::
      (tokens ++ Enclosure.tag.token content' ⟨page, 0⟩ :: tokens')).length ≤ most := by
    simp only [List.length_cons, List.length_append]
    omega
  obtain ⟨all, hall, halike⟩ := hall.tokenize page pages hroom
  rw [List.forall₂_cons_left_iff] at halike
  obtain ⟨opener, rest, ⟨pos, rfl⟩, hrest, rfl⟩ := halike
  have hinside := List.forall₂_take tokens.length hrest
  have houtside := List.forall₂_drop tokens.length hrest
  rw [List.take_left] at hinside
  rw [List.drop_left, List.forall₂_cons_left_iff] at houtside
  obtain ⟨closer, more, ⟨pos', rfl⟩, hmore, hdrop⟩ := houtside
  rw [← List.take_append_drop tokens.length rest, hdrop, Enclosure.movedTo_token,
    Enclosure.movedTo_token] at hall
  exact ⟨pos, pos', _, more, hall, hinside, hmore⟩

/-! ## Words between delimiters -/

/-- A text that is read as one word between delimiters. -/
structure IsWord (s : String) : Prop where
  nonempty : s.toList ≠ []
  ink : ∀ c ∈ s.toList, isBlank c = false
  undelimited : Undelimited s.toList
  bar : '|' ∉ s.toList

/-- A text with a blank on either side. -/
def spaced (cs : List Char) : List Char := ' ' :: cs ++ [' ']

theorem Undelimited.spaced {cs : List Char} (h : Undelimited cs) : Undelimited (spaced cs) := by
  intro c hc
  simp only [Stencil.spaced, List.cons_append, List.mem_cons, List.mem_append, List.not_mem_nil,
    or_false] at hc
  rcases hc with rfl | hc | rfl
  · decide
  · exact h c hc
  · decide

namespace IsWord

variable {s name : String}

/-- The blanks around a text are trimmed that starts with a word and ends with one. -/
theorem trim_spaced (h : IsWord s) {c : Char} (hc : isBlank c = false) {front rest : List Char}
    (hstarts : front ++ s.toList = c :: rest) :
    trim (spaced (front ++ s.toList)) = front ++ s.toList := by
  have hspace : isBlank ' ' = true := by decide
  have hblank : trimRight [' '] = [] := by decide
  have hleft : trimLeft (spaced (front ++ s.toList)) = front ++ s.toList ++ [' '] := by
    rw [hstarts]
    simp [spaced, trimLeft, hspace, hc]
  rw [trim, hleft, trimRight_append_ink (trimRight_of_not_blank h.ink) h.nonempty, hblank,
    List.append_nil]

theorem trim_eq (h : IsWord s) : trim (spaced s.toList) = s.toList := by
  obtain ⟨c, rest, hs⟩ := List.exists_cons_of_ne_nil h.nonempty
  have hc : isBlank c = false := h.ink c (hs ▸ List.mem_cons_self)
  exact h.trim_spaced hc (show [] ++ s.toList = c :: rest from hs)

theorem headAndFilters_eq (h : IsWord s) : headAndFilters s.toList = (s, []) := by
  have hpieces := topPieces_start h.bar {} []
  rw [List.append_nil] at hpieces
  rw [headAndFilters, hpieces]
  simp [topPieces, trim_of_no_blank h.ink]

theorem cutAt_eq (h : IsWord s) {rest : List Char} (hrest : ∀ c ∈ rest.head?, isBlank c = true) :
    cutAt isBlank (s.toList ++ rest) = (s.toList, rest) := by
  have hall : ∀ c ∈ s.toList, (!isBlank c) = true := fun c hc => by simp [h.ink c hc]
  rw [cutAt, List.span_eq_takeWhile_dropWhile, List.takeWhile_append_of_pos hall,
    List.dropWhile_append_of_pos hall]
  cases rest with
  | nil => simp
  | cons c rest => simp [hrest c rfl]

/-- A word between the delimiters of an object is its expression. -/
theorem object (h : IsWord s) (pos : Pos) :
    Enclosure.object.token (spaced s.toList) pos =
      .object s [] (Enclosure.object.source (spaced s.toList)) pos := by
  show Token.objectOfContent _ _ pos = _
  rw [Token.objectOfContent, h.trim_eq, h.headAndFilters_eq]
  rfl

/-- A word between the delimiters of a tag is its name. -/
theorem tag (h : IsWord name) (pos : Pos) :
    Enclosure.tag.token (spaced name.toList) pos =
      .tag ⟨name, "", "", [], Enclosure.tag.source (spaced name.toList), pos⟩ := by
  have hcut : cutAt isBlank (name.toList ++ []) = (name.toList, []) := h.cutAt_eq (by simp)
  rw [List.append_nil] at hcut
  show Token.tag (.ofContent _ _ pos) = _
  rw [Tag.ofContent, h.trim_eq, hcut]
  dsimp only
  rw [String.ofList_toList]
  rfl

/-- Of two words the second is the head. -/
theorem tag_word (h : IsWord name) (h' : IsWord s) (pos : Pos) :
    Enclosure.tag.token (spaced (name.toList ++ ' ' :: s.toList)) pos =
      .tag ⟨name, s, s, [],
        Enclosure.tag.source (spaced (name.toList ++ ' ' :: s.toList)), pos⟩ := by
  have hspace : isBlank ' ' = true := by decide
  have htrim : trim (spaced (name.toList ++ ' ' :: s.toList)) = name.toList ++ ' ' :: s.toList := by
    obtain ⟨c, rest, hname⟩ := List.exists_cons_of_ne_nil h.nonempty
    have hc : isBlank c = false := h.ink c (hname ▸ List.mem_cons_self)
    have hstarts : name.toList ++ [' '] ++ s.toList = c :: (rest ++ ' ' :: s.toList) := by
      simp [hname]
    simpa using h'.trim_spaced hc hstarts
  have hrest : trim (' ' :: s.toList) = s.toList := by
    rw [trim, trimLeft, List.dropWhile_cons_of_pos hspace]
    exact trim_of_no_blank h'.ink
  show Token.tag (.ofContent _ _ pos) = _
  rw [Tag.ofContent, htrim, h.cutAt_eq (by simpa using hspace)]
  dsimp only
  rw [hrest, h'.headAndFilters_eq, String.ofList_toList, String.ofList_toList]
  rfl

end IsWord

end Stencil
