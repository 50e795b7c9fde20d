import Mathlib.Algebra.Ring.Nat
import Stencil.Proofs.Path
import Stencil.Source.Excerpt
import Stencil.Text.Quoted
import Stencil.Text.Search

/-!
# Lines of texts

A text has one line more than line feeds.

* `linesOf_ended`: when every line of some texts is ended, the lines are those texts if none of them
  has a line feed.
* `length_linesOf`: otherwise every line feed in them starts a line more.
-/

namespace Stencil.Text

/-- How many line feeds are in a text. -/
def lineFeeds (s : String) : Nat := s.toList.count '\n'

variable {s : String} {parts : List String}

theorem lineFeeds_eq_zero : lineFeeds s = 0 ↔ '\n' ∉ s.toList := List.count_eq_zero

theorem lineFeeds_of_notMem (h : '\n' ∉ s.toList) : lineFeeds s = 0 := lineFeeds_eq_zero.2 h

@[simp]
theorem lineFeeds_append (s t : String) : lineFeeds (s ++ t) = lineFeeds s + lineFeeds t := by
  simp [lineFeeds]

@[simp]
theorem lineFeeds_concat (parts : List String) :
    lineFeeds (String.join parts) = (parts.map lineFeeds).sum := by
  induction parts with
  | nil => rfl
  | cons part parts ih => rw [String.join_cons, lineFeeds_append, ih, List.map_cons, List.sum_cons]

theorem sum_lineFeeds_append (xs ys : List String) :
    ((xs ++ ys).map lineFeeds).sum = (xs.map lineFeeds).sum + (ys.map lineFeeds).sum := by
  rw [List.map_append, List.sum_append]

theorem sum_lineFeeds_eq_zero :
    (parts.map lineFeeds).sum = 0 ↔ ∀ s ∈ parts, '\n' ∉ s.toList := by
  simp only [List.sum_eq_zero_iff_forall_eq_nat, List.forall_mem_map, lineFeeds_eq_zero]

/-- Line feeds of the parts are those of the whole, when there is none between them. -/
theorem lineFeeds_join {sep : String} (hsep : lineFeeds sep = 0) (parts : List String) :
    lineFeeds (join sep parts) = (parts.map lineFeeds).sum := by
  have hcount (pieces : List (List Char)) :
      (joinWith sep.toList pieces).count '\n' = (pieces.map (·.count '\n')).sum := by
    unfold lineFeeds at hsep
    induction pieces using joinWith.induct with
    | case1 => rfl
    | case2 piece => simp [joinWith]
    | case3 piece pieces _ ih => simp [joinWith, hsep, ih]
  unfold lineFeeds join
  rw [String.toList_ofList, hcount, List.map_map]
  rfl

@[simp]
theorem lineFeeds_quote (s : String) : lineFeeds (quote s) = 0 :=
  lineFeeds_eq_zero.2 (quote_noNewline s)

@[simp]
theorem lineFeeds_repr (n : Nat) : lineFeeds n.repr = 0 := by
  refine lineFeeds_of_notMem fun hmem => ?_
  rw [Nat.repr, String.toList_ofList] at hmem
  exact absurd (Nat.isDigit_of_mem_toDigits (b := 10) (by decide) (by decide) hmem) (by decide)

theorem lineFeeds_int (n : Int) : lineFeeds (toString n) = 0 := by
  cases n with
  | ofNat n => exact lineFeeds_repr n
  | negSucc n =>
    have hsign : toString (Int.negSucc n) = "-" ++ (n + 1).repr := rfl
    rw [hsign, lineFeeds_append, lineFeeds_repr]
    rfl

/-! ## Lines -/

/-- A line feed starts a line. -/
theorem length_linesOf (s : String) : (linesOf s.toList).length = lineFeeds s + 1 := by
  have hpieces (cs : List Char) : (pieces (· == '\n') cs).2.length = cs.count '\n' := by
    induction cs with
    | nil => rfl
    | cons c cs ih =>
      rw [pieces, List.count_cons, ← ih]
      dsimp only
      split <;> rfl
  rw [linesOf, splitAt, List.length_cons, hpieces]
  rfl

/-- Texts without line feeds are the lines of what they make up, when each is ended. -/
theorem linesOf_ended (h : ∀ s ∈ parts, '\n' ∉ s.toList) :
    linesOf (String.join (parts.map (· ++ "\n"))).toList = parts.map String.toList ++ [[]] := by
  induction parts with
  | nil => rfl
  | cons s parts ih =>
    rw [List.forall_mem_cons] at h
    have hline : ∀ c ∈ s.toList, (c == '\n') = false := by
      intro c hc
      rw [beq_eq_false_iff_ne]
      rintro rfl
      exact h.1 hc
    have hcut : (String.join ((s :: parts).map (· ++ "\n"))).toList =
        s.toList ++ '\n' :: (String.join (parts.map (· ++ "\n"))).toList := by
      simp [String.join_cons]
    have hfirst : linesOf (String.join ((s :: parts).map (· ++ "\n"))).toList =
        s.toList :: linesOf (String.join (parts.map (· ++ "\n"))).toList := by
      unfold linesOf splitAt
      rw [hcut, pieces_append (by rfl) hline]
    rw [hfirst, ih h.2]
    rfl

end Stencil.Text
