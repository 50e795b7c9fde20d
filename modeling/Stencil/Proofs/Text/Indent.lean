import Stencil.Text.Blank
import Stencil.Text.Search

/-!
# Indenting and trimming

What takes the place of a directive is trimmed behind and indented like the line of the directive.

* `joinWith_lines`: putting line feeds and an indentation between the lines of a text indents it;
* `indentedBy_indentedBy`: of two indentations the outer one comes first;
* `trimRight_append_ink`: what stands before an inked end is not trimmed;
* `exists_blanks_trim`, `trim_trim`: trimming takes blanks away, and all of them;
* `lastInk_append`: the last inked character of a text is that of its last inked part.
-/

namespace Stencil

open Text

/-! ## Indenting -/

/-- The text with an indentation behind every line feed. -/
def indentedBy (indent cs : List Char) : List Char :=
  cs.flatMap fun c => if c = '\n' then '\n' :: indent else [c]

/-- What a line may start with. -/
def IsMargin (indent : List Char) : Prop := ∀ c ∈ indent, c = ' ' ∨ c = '\t'

theorem IsMargin.append {a b : List Char} (ha : IsMargin a) (hb : IsMargin b) :
    IsMargin (a ++ b) := by
  intro c hc
  rcases List.mem_append.1 hc with h | h
  · exact ha c h
  · exact hb c h

theorem IsMargin.notMem {indent : List Char} (h : IsMargin indent) : '\n' ∉ indent := by
  intro hc
  rcases h _ hc with h | h <;> simp at h

@[simp]
theorem indentedBy_nil (indent : List Char) : indentedBy indent [] = [] := rfl

@[simp]
theorem indentedBy_append (indent cs ds : List Char) :
    indentedBy indent (cs ++ ds) = indentedBy indent cs ++ indentedBy indent ds := by
  simp [indentedBy]

theorem indentedBy_cons (indent : List Char) (c : Char) (cs : List Char) :
    indentedBy indent (c :: cs) = indentedBy indent [c] ++ indentedBy indent cs := by
  simp [indentedBy]

theorem indentedBy_of_notMem {indent cs : List Char} (h : '\n' ∉ cs) :
    indentedBy indent cs = cs := by
  induction cs with
  | nil => rfl
  | cons c cs ih =>
    simp only [List.mem_cons, not_or] at h
    rw [indentedBy_cons, ih h.2]
    simp [indentedBy, Ne.symm h.1]

theorem indentedBy_singleton {indent : List Char} {c : Char} (h : c ≠ '\n') :
    indentedBy indent [c] = [c] := by
  simp [indentedBy, h]

theorem indentedBy_lineFeed (indent : List Char) : indentedBy indent ['\n'] = '\n' :: indent := by
  simp [indentedBy]

theorem indentedBy_cons_of_ne {indent : List Char} {c : Char} (h : c ≠ '\n') (cs : List Char) :
    indentedBy indent (c :: cs) = c :: indentedBy indent cs := by
  rw [indentedBy_cons, indentedBy_singleton h, List.singleton_append]

theorem indentedBy_cons_lineFeed (indent cs : List Char) :
    indentedBy indent ('\n' :: cs) = '\n' :: (indent ++ indentedBy indent cs) := by
  rw [indentedBy_cons, indentedBy_lineFeed, List.cons_append]

@[simp]
theorem indentedBy_empty (cs : List Char) : indentedBy [] cs = cs := by
  induction cs with
  | nil => rfl
  | cons c cs ih =>
    rw [indentedBy_cons, ih]
    by_cases hc : c = '\n' <;> simp [indentedBy, hc]

/-- The outer indentation comes before the inner one. -/
theorem indentedBy_indentedBy {outer inner : List Char} (h : '\n' ∉ inner) (cs : List Char) :
    indentedBy outer (indentedBy inner cs) = indentedBy (outer ++ inner) cs := by
  induction cs with
  | nil => rfl
  | cons c cs ih =>
    rw [indentedBy_cons inner, indentedBy_append, ih, indentedBy_cons (outer ++ inner)]
    by_cases hc : c = '\n'
    · subst hc
      rw [indentedBy_lineFeed, indentedBy_lineFeed, indentedBy_cons, indentedBy_lineFeed,
        indentedBy_of_notMem h]
      simp
    · rw [indentedBy_singleton hc, indentedBy_singleton hc, indentedBy_singleton hc]

/-- A text starts with the same character when it is indented. -/
@[simp]
theorem head?_indentedBy (indent cs : List Char) : (indentedBy indent cs).head? = cs.head? := by
  cases cs with
  | nil => rfl
  | cons c cs =>
    by_cases hc : c = '\n' <;> simp [indentedBy, hc]

theorem pieces_indentedBy (indent cs : List Char) :
    joinWith ('\n' :: indent) ((pieces (· == '\n') cs).1 :: (pieces (· == '\n') cs).2) =
      indentedBy indent cs := by
  rw [joinWith_cons]
  induction cs with
  | nil => rfl
  | cons c cs ih =>
    rw [indentedBy_cons, ← ih]
    by_cases hc : c = '\n' <;> simp [pieces, indentedBy, hc]

/-- Putting line feeds and indentation between the lines of a text is to indent it. -/
theorem joinWith_lines (indent cs : List Char) :
    joinWith ('\n' :: indent) (splitAt (· == '\n') cs) = indentedBy indent cs :=
  pieces_indentedBy indent cs

/-- An indented text ends like the text, or in blanks. -/
theorem getLast?_indentedBy {indent cs : List Char} (hm : IsMargin indent)
    (h : cs.getLast? ≠ some '{') : (indentedBy indent cs).getLast? ≠ some '{' := by
  rcases List.eq_nil_or_concat cs with rfl | ⟨front, c, rfl⟩
  · simp
  · rw [List.concat_eq_append, indentedBy_append]
    by_cases hc : c = '\n'
    · subst hc
      rw [indentedBy_lineFeed]
      rcases List.eq_nil_or_concat indent with rfl | ⟨blanks, b, rfl⟩
      · simp
      · have hb : b = ' ' ∨ b = '\t' := hm b (by simp)
        rcases hb with rfl | rfl <;> simp [List.getLast?_append, List.getLast?_cons]
    · rw [indentedBy_singleton hc]
      simpa using h

/-! ## Trimming -/

theorem trimRight_cons (c : Char) (cs : List Char) :
    trimRight (c :: cs) =
      if trimRight cs = [] then (if isBlank c then [] else [c]) else c :: trimRight cs := by
  unfold trimRight
  rw [dropRight]
  split <;> simp_all

/-- Trimming leaves a beginning of the text. -/
theorem trimRight_front (cs : List Char) : trimRight cs <+: cs := by
  induction cs with
  | nil => exact List.nil_prefix
  | cons c cs ih =>
    rw [trimRight_cons]
    split
    · split
      · exact List.nil_prefix
      · exact List.cons_prefix_cons.2 ⟨rfl, List.nil_prefix⟩
    · exact List.cons_prefix_cons.2 ⟨rfl, ih⟩

theorem trimRight_append (cs ds : List Char) :
    trimRight (cs ++ ds) = if trimRight ds = [] then trimRight cs else cs ++ trimRight ds := by
  induction cs with
  | nil =>
    split
    · next h => exact h
    · rfl
  | cons c cs ih =>
    rw [List.cons_append, trimRight_cons, ih]
    by_cases h : trimRight ds = []
    · simp only [h, if_true]
      rw [trimRight_cons]
    · simp [h]

/-- What stands before an inked end is not trimmed. -/
theorem trimRight_append_ink {cs : List Char} (h : trimRight cs = cs) (hne : cs ≠ [])
    (front back : List Char) :
    trimRight (front ++ cs ++ back) = front ++ cs ++ trimRight back := by
  rw [trimRight_append]
  split
  · next hback =>
    rw [hback, trimRight_append, h, if_neg hne, List.append_nil]
  · rfl

theorem getLast?_dropRight (p : Char → Bool) (cs : List Char) :
    ∀ c ∈ (dropRight p cs).getLast?, p c = false := by
  induction cs with
  | nil => simp [dropRight]
  | cons c cs ih =>
    rw [dropRight]
    cases hcs : dropRight p cs with
    | nil => by_cases hc : p c <;> simp [hc]
    | cons d ds =>
      rw [hcs] at ih
      simpa using ih

theorem head?_trim (cs : List Char) : ∀ c ∈ (trim cs).head?, isBlank c = false := by
  have hfirst := List.head?_dropWhile_not isBlank cs
  rw [trim, trimLeft]
  cases hcs : cs.dropWhile isBlank with
  | nil => simp [trimRight, dropRight]
  | cons c ds =>
    have hc : isBlank c = false := by simpa [hcs] using hfirst
    rw [trimRight_cons]
    split <;> simp [hc]

/-- Around a trimmed text there were blanks. -/
theorem exists_blanks_trimRight (cs : List Char) :
    ∃ behind, (∀ c ∈ behind, isBlank c = true) ∧ cs = trimRight cs ++ behind := by
  induction cs with
  | nil => exact ⟨[], nofun, rfl⟩
  | cons c cs ih =>
    obtain ⟨behind, hbehind, hcs⟩ := ih
    rw [trimRight_cons]
    split
    · next hnil =>
      rw [hnil, List.nil_append] at hcs
      split
      · next hc => exact ⟨c :: cs, List.forall_mem_cons.2 ⟨hc, hcs ▸ hbehind⟩, rfl⟩
      · exact ⟨cs, hcs ▸ hbehind, rfl⟩
    · exact ⟨behind, hbehind, congrArg (c :: ·) hcs⟩

theorem exists_blanks_trim (cs : List Char) :
    ∃ before behind, (∀ c ∈ before, isBlank c = true) ∧ (∀ c ∈ behind, isBlank c = true) ∧
      cs = before ++ trim cs ++ behind := by
  obtain ⟨behind, hbehind, hcs⟩ := exists_blanks_trimRight (trimLeft cs)
  refine ⟨cs.takeWhile isBlank, behind, List.all_eq_true.1 List.all_takeWhile, hbehind, ?_⟩
  rw [List.append_assoc, trim, ← hcs]
  exact List.takeWhile_append_dropWhile.symm

/-- A text between characters that are not blank is not trimmed. -/
theorem trim_of_ends {cs : List Char} (hfirst : ∀ c ∈ cs.head?, isBlank c = false)
    (hlast : ∀ c ∈ cs.getLast?, isBlank c = false) : trim cs = cs := by
  have hleft : trimLeft cs = cs := by
    cases cs with
    | nil => rfl
    | cons c cs => exact List.dropWhile_cons_of_neg (by simp [hfirst c rfl])
  rw [trim, hleft]
  cases hcs : cs.getLast? with
  | none => rw [List.getLast?_eq_none_iff.1 hcs]; rfl
  | some c =>
    obtain ⟨front, rfl⟩ := List.getLast?_eq_some_iff.1 hcs
    have hink : trimRight [c] = [c] := by simp [trimRight, dropRight, hlast c hcs]
    rw [trimRight_append, if_neg (by rw [hink]; exact List.cons_ne_nil _ _), hink]

theorem trim_of_blanks {cs before behind : List Char} (left : ∀ c ∈ before, isBlank c = true)
    (right : ∀ c ∈ behind, isBlank c = true) : trim (before ++ cs ++ behind) = trim cs := by
  have hbehind : trimRight behind = [] := dropRight_eq_nil.2 (List.all_eq_true.2 right)
  have hleft : trimLeft (before ++ cs ++ behind) = trimLeft (cs ++ behind) := by
    rw [List.append_assoc]
    exact List.dropWhile_append_of_pos left
  rw [trim, trim, hleft]
  unfold trimLeft
  rw [List.dropWhile_append]
  split
  · next hempty =>
    have hnone : behind.dropWhile isBlank = [] := by
      rw [← List.append_nil behind, List.dropWhile_append_of_pos right]
      rfl
    rw [hnone, List.isEmpty_iff.1 hempty]
  · rw [trimRight_append, if_pos hbehind]

theorem trim_trim (cs : List Char) : trim (trim cs) = trim cs :=
  trim_of_ends (head?_trim cs) (getLast?_dropRight isBlank (trimLeft cs))

/-- The last character that is not blank. -/
def lastInk (cs : List Char) : Option Char := (trimRight cs).getLast?

theorem lastInk_append (cs ds : List Char) :
    lastInk (cs ++ ds) = (lastInk ds).or (lastInk cs) := by
  unfold lastInk
  rw [trimRight_append]
  split
  · next h => simp [h]
  · next h =>
    obtain ⟨front, d, hd⟩ := (List.eq_nil_or_concat (trimRight ds)).resolve_left h
    rw [hd]
    simp

end Stencil
