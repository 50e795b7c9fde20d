/-!
# Finding and replacing texts

Occurrences of a text are found from left to right and do not overlap. The empty text occurs before
every character and at the end.

* `joinWith_piecesBy`: putting the separator back between the pieces gives the text again.
-/

namespace Stencil.Text

/-- The pieces of `cs` between the occurrences of a non-empty `sep`, the first piece apart.
`skip` characters still belong to an occurrence. -/
def piecesFrom (sep : List Char) : Nat → List Char → List Char × List (List Char)
  | _, [] => ([], [])
  | skip + 1, _ :: cs => piecesFrom sep skip cs
  | 0, c :: cs =>
    if sep.isPrefixOf (c :: cs) then
      let (first, others) := piecesFrom sep (sep.length - 1) cs
      ([], first :: others)
    else
      let (first, others) := piecesFrom sep 0 cs
      (c :: first, others)

/-- The pieces of a text between the occurrences of `sep`. -/
def piecesBy (sep cs : List Char) : List (List Char) :=
  if sep.isEmpty then [] :: (cs.map fun c => [c]) ++ [[]]
  else
    let (first, others) := piecesFrom sep 0 cs
    first :: others

/-- The pieces with `sep` between them. -/
def joinWith (sep : List Char) : List (List Char) → List Char
  | [] => []
  | [piece] => piece
  | piece :: pieces => piece ++ sep ++ joinWith sep pieces

/-- Strings with a separator between them. -/
def join (sep : String) (parts : List String) : String :=
  .ofList (joinWith sep.toList (parts.map String.toList))

/-- The pieces of a string between the occurrences of a separator. -/
def splitBy (sep s : String) : List String := (piecesBy sep.toList s.toList).map .ofList

/-- Every occurrence of `old` replaced by `new`. -/
def replace (s old new : String) : String :=
  .ofList (joinWith new.toList (piecesBy old.toList s.toList))

/-- Whether `part` occurs in `cs`. -/
def occursIn (part : List Char) : List Char → Bool
  | [] => part.isEmpty
  | c :: cs => part.isPrefixOf (c :: cs) || occursIn part cs

/-- The rest of a text after `start`, when it starts so. -/
def after? (start cs : List Char) : Option (List Char) :=
  if start.isPrefixOf cs then some (cs.drop start.length) else none

/-- The text without a byte order mark in front. -/
def dropByteOrderMark (cs : List Char) : List Char := (after? ['\ufeff'] cs).getD cs

/-! ## Splitting loses nothing -/

theorem joinWith_cons (sep piece : List Char) (others : List (List Char)) :
    joinWith sep (piece :: others) = piece ++ others.flatMap (sep ++ ·) := by
  induction others generalizing piece with
  | nil => simp [joinWith]
  | cons o os ih =>
    have : joinWith sep (piece :: o :: os) = piece ++ sep ++ joinWith sep (o :: os) := rfl
    rw [this, ih]
    simp [List.append_assoc]

theorem joinWith_piecesFrom {sep : List Char} (hsep : sep ≠ []) :
    ∀ (cs : List Char) (skip : Nat), skip ≤ cs.length →
      joinWith sep ((piecesFrom sep skip cs).1 :: (piecesFrom sep skip cs).2) = cs.drop skip
  | [], skip, h => by
    have : skip = 0 := by simpa using h
    subst this
    simp [piecesFrom, joinWith]
  | c :: cs, skip + 1, h => by
    rw [piecesFrom, joinWith_piecesFrom hsep cs skip (by simpa using h)]
    simp
  | c :: cs, 0, _ => by
    rw [piecesFrom]
    by_cases hp : sep.isPrefixOf (c :: cs)
    · simp only [hp, if_true]
      obtain ⟨rest, hrest⟩ := List.isPrefixOf_iff_prefix.1 hp
      have hlen : sep.length - 1 ≤ cs.length := by
        have := congrArg List.length hrest
        simp at this; omega
      have ih := joinWith_piecesFrom hsep cs (sep.length - 1) hlen
      rw [joinWith_cons] at ih ⊢
      simp only [List.nil_append, List.flatMap_cons, List.append_assoc]
      rw [ih]
      cases sep with
      | nil => exact absurd rfl hsep
      | cons s sep =>
        simp only [List.cons_append, List.cons.injEq] at hrest
        simp [hrest.1, ← hrest.2]
    · simp only [hp]
      have ih := joinWith_piecesFrom hsep cs 0 (Nat.zero_le _)
      rw [joinWith_cons] at ih ⊢
      simpa using ih

/-- Putting the separator back between the pieces gives the text again. -/
theorem joinWith_piecesBy (sep cs : List Char) : joinWith sep (piecesBy sep cs) = cs := by
  by_cases hsep : sep = []
  · subst hsep
    simp [piecesBy, joinWith_cons, List.flatMap_append, List.flatMap_map]
  · have : sep.isEmpty = false := by simpa using hsep
    simp only [piecesBy, this, Bool.false_eq_true, if_false]
    exact joinWith_piecesFrom hsep cs 0 (Nat.zero_le _)

end Stencil.Text
