import Mathlib.Data.List.Forall2
import Stencil.Proofs.Generation.Sites

/-!
# Tokens at other places

* `Token.Alike`: two tokens say the same, perhaps at different places.
* `closingFrom_alike`: what is found among tokens is found among those at other places.
* `closingFrom_across`: and behind them, if well-nested tokens stand in between, whichever they are.
-/

namespace Stencil

/-- The token at another place. -/
def Token.movedTo (pos : Pos) : Token → Token
  | raw text _ => raw text pos
  | tag t => tag { t with pos }
  | object expression filters source _ => object expression filters source pos

/-- The tokens say the same, perhaps at different places. -/
def Token.Alike (t t' : Token) : Prop := ∃ pos, t' = t.movedTo pos

theorem Token.isTag_movedTo (t : Token) (pos : Pos) (name : String) :
    (t.movedTo pos).isTag name = t.isTag name := by
  cases t <;> rfl

theorem Token.source_movedTo (t : Token) (pos : Pos) : (t.movedTo pos).source = t.source := by
  cases t <;> rfl

theorem sourceOf_alike {tokens tokens' : List Token} (h : List.Forall₂ Token.Alike tokens tokens') :
    sourceOf tokens' = sourceOf tokens := by
  have hmap : tokens'.map Token.source = tokens.map Token.source := by
    induction h with
    | nil => rfl
    | cons halike _ ih =>
      obtain ⟨pos, rfl⟩ := halike
      rw [List.map_cons, List.map_cons, Token.source_movedTo, ih]
  rw [sourceOf, hmap, sourceOf]

theorem findIdx?_alike {tokens tokens' : List Token} (h : List.Forall₂ Token.Alike tokens tokens')
    (name : String) : tokens'.findIdx? (·.isTag name) = tokens.findIdx? (·.isTag name) := by
  induction h with
  | nil => rfl
  | cons halike _ ih =>
    obtain ⟨pos, rfl⟩ := halike
    rw [List.findIdx?_cons, List.findIdx?_cons, Token.isTag_movedTo, ih]

/-! ## Closing tags -/

section

variable {kinds : TagKinds} {name : String} {mode mode' : Option Tag} {stack : List String}
  {idx found : Nat} {tokens tokens' rest rest' : List Token}

/-- At a token and at the same token elsewhere, the search finds what it looks for, or it fails at the
first one, or it goes on alike. -/
theorem closingFrom_cons (token : Token) (pos : Pos) (stack : List String)
    (hmode : mode'.map Tag.name = mode.map Tag.name) :
    (∀ idx rest, closingFrom kinds name mode stack idx (token :: rest) = .ok idx ∧
      closingFrom kinds name mode' stack idx (token.movedTo pos :: rest) = .ok idx) ∨
    (∀ idx rest found, closingFrom kinds name mode stack idx (token :: rest) ≠ .ok found) ∨
    ∃ stack₁ mode₁', mode₁'.map Tag.name = (kinds.behind mode token).map Tag.name ∧ ∀ idx rest,
      closingFrom kinds name mode stack idx (token :: rest) =
        closingFrom kinds name (kinds.behind mode token) stack₁ (idx + 1) rest ∧
      closingFrom kinds name mode' stack idx (token.movedTo pos :: rest) =
        closingFrom kinds name mode₁' stack₁ (idx + 1) rest := by
  cases mode with
  | some opener =>
    cases mode' with
    | none => cases hmode
    | some opener' =>
      have hname : opener'.name = opener.name := Option.some.inj hmode
      simp only [closingFrom, Token.isTag_movedTo, hname, TagKinds.behind]
      by_cases hcloses : token.isTag (closerOf opener.name) = true
      · simp only [hcloses, if_true]
        exact .inr (.inr ⟨stack, none, rfl, fun _ _ => ⟨rfl, rfl⟩⟩)
      · simp only [hcloses]
        exact .inr (.inr ⟨stack, some opener', hmode, fun _ _ => ⟨rfl, rfl⟩⟩)
  | none =>
    cases mode' with
    | some opener' => cases hmode
    | none =>
      cases token with
      | raw | object => exact .inr (.inr ⟨stack, none, rfl, fun _ _ => ⟨rfl, rfl⟩⟩)
      | tag tag =>
        simp only [closingFrom, Token.movedTo, TagKinds.behind]
        by_cases hfinds : (decide (tag.name = name) && stack.isEmpty) = true
        · simp only [hfinds, if_true]
          exact .inl fun _ _ => ⟨trivial, trivial⟩
        simp only [hfinds]
        by_cases hverbatim : kinds.isVerbatim tag.name = true
        · simp only [hverbatim, if_true]
          exact .inr (.inr ⟨stack, some { tag with pos }, rfl, fun _ _ => ⟨rfl, rfl⟩⟩)
        simp only [hverbatim]
        by_cases hblock : kinds.isBlock tag.name = true
        · simp only [hblock, if_true]
          exact .inr (.inr ⟨closerOf tag.name :: stack, none, rfl, fun _ _ => ⟨rfl, rfl⟩⟩)
        simp only [hblock]
        by_cases hcloser : isCloser tag.name = true
        · simp only [hcloser, if_true]
          cases stack with
          | nil => exact .inr (.inl fun _ _ _ h => by cases h)
          | cons closer stack =>
            dsimp only
            by_cases heq : closer = tag.name
            · simp only [heq, if_true]
              exact .inr (.inr ⟨stack, none, rfl, fun _ _ => ⟨rfl, rfl⟩⟩)
            · simp only [heq, if_false]
              exact .inr (.inl fun _ _ _ h => by cases h)
        · simp only [hcloser]
          exact .inr (.inr ⟨stack, none, rfl, fun _ _ => ⟨rfl, rfl⟩⟩)

/-- What is found among tokens is found among those at other places, whatever follows. -/
theorem closingFrom_alike (halike : List.Forall₂ Token.Alike tokens tokens')
    (hmode : mode'.map Tag.name = mode.map Tag.name)
    (h : closingFrom kinds name mode stack idx (tokens ++ rest) = .ok found)
    (hfound : found < idx + tokens.length) (d : Nat) (rest' : List Token) :
    closingFrom kinds name mode' stack (idx + d) (tokens' ++ rest') = .ok (found + d) := by
  induction halike generalizing mode mode' stack idx with
  | nil =>
    have := le_of_closingFrom h
    simp at hfound
    omega
  | @cons token token' tokens tokens' halike _ ih =>
    obtain ⟨pos, rfl⟩ := halike
    rcases closingFrom_cons token pos stack hmode with hfinds | hfails | ⟨stack₁, mode₁', hmode₁, hgoes⟩
    · obtain rfl := Except.ok.inj ((hfinds idx (tokens ++ rest)).1.symm.trans h)
      exact (hfinds _ _).2
    · exact absurd h (hfails _ _ _)
    · rw [List.cons_append, (hgoes _ _).1] at h
      have hidx : idx + 1 + d = idx + d + 1 := by omega
      rw [List.cons_append, (hgoes _ _).2, ← hidx]
      exact ih hmode₁ h (by rw [List.length_cons] at hfound; omega)

/-- What is found is one of the tokens. -/
theorem lt_of_closingFrom (h : closingFrom kinds name mode stack idx tokens = .ok found) :
    found < idx + tokens.length := by
  obtain ⟨content, word, tag, rest, rfl, rfl, _⟩ := leads_of_closingFrom h
  simp only [List.length_append, List.length_cons]
  omega

/-- Well-nested tokens behind some tokens may be replaced by more of them: what is found before them is
found there, and what is found behind them is found behind those in their place. -/
theorem closingFrom_across {word word' : List Token} {more : Nat} (hk : kinds.Proper)
    (hname : isCloser name = true) (halike : List.Forall₂ Token.Alike tokens tokens')
    (hword : WellNested kinds word) (hword' : WellNested kinds word')
    (hmore : word'.length = word.length + more) (hrest : List.Forall₂ Token.Alike rest rest')
    (hmode : mode'.map Tag.name = mode.map Tag.name) (hout : tokens.foldl kinds.behind mode = none)
    (h : closingFrom kinds name mode stack idx (tokens ++ (word ++ rest)) = .ok found) :
    (found < idx + tokens.length ∧
      closingFrom kinds name mode' stack idx (tokens' ++ (word' ++ rest')) = .ok found) ∨
    (idx + tokens.length + word.length ≤ found ∧
      closingFrom kinds name mode' stack idx (tokens' ++ (word' ++ rest')) = .ok (found + more)) := by
  induction halike generalizing mode mode' stack idx with
  | nil =>
    obtain rfl : mode = none := hout
    obtain rfl : mode' = none := Option.map_eq_none_iff.1 hmode
    rw [List.nil_append, closingFrom_append hk hname hword] at h
    refine .inr ⟨le_of_closingFrom h, ?_⟩
    have hlt := lt_of_closingFrom h
    rw [← List.append_nil rest] at h
    have hfound := closingFrom_alike hrest hmode h hlt more []
    rw [List.append_nil] at hfound
    rw [List.nil_append, closingFrom_append hk hname hword', hmore, ← Nat.add_assoc, hfound]
  | @cons token token' tokens tokens' halike _ ih =>
    obtain ⟨pos, rfl⟩ := halike
    rcases closingFrom_cons token pos stack hmode with hfinds | hfails | ⟨stack₁, mode₁', hmode₁, hgoes⟩
    · obtain rfl := Except.ok.inj ((hfinds idx (tokens ++ (word ++ rest))).1.symm.trans h)
      exact .inl ⟨by simp, (hfinds _ _).2⟩
    · exact absurd h (hfails _ _ _)
    · rw [List.cons_append, (hgoes _ _).1] at h
      rw [List.cons_append, (hgoes _ _).2, List.length_cons]
      rcases ih hmode₁ hout h with ⟨hlt, hfound⟩ | ⟨hle, hfound⟩
      · exact .inl ⟨by omega, hfound⟩
      · exact .inr ⟨by omega, hfound⟩

end

end Stencil
