/-!
# Lengths and cuts in bytes

Offsets count the bytes of the UTF-8 form, while texts are lists of characters.
-/

namespace Stencil.Text

/-- The number of bytes of a text in UTF-8. -/
def byteLength : List Char → Nat
  | [] => 0
  | c :: cs => c.utf8Size + byteLength cs

/-- How many characters make up the first `bytes` bytes; nothing when the cut would fall inside a
character or behind the end. -/
def charsIn? : Nat → List Char → Option Nat
  | 0, _ => some 0
  | _ + 1, [] => none
  | bytes + 1, c :: cs =>
    if c.utf8Size ≤ bytes + 1 then (charsIn? (bytes + 1 - c.utf8Size) cs).map (· + 1) else none

@[simp]
theorem byteLength_append (cs ds : List Char) :
    byteLength (cs ++ ds) = byteLength cs + byteLength ds := by
  induction cs with
  | nil => simp [byteLength]
  | cons c cs ih => simp [byteLength, ih, Nat.add_assoc]

/-- The end of a leading part is a place to cut, after its characters. -/
theorem charsIn?_append (cs ds : List Char) :
    charsIn? (byteLength cs) (cs ++ ds) = some cs.length := by
  induction cs with
  | nil => simp [byteLength, charsIn?]
  | cons c cs ih =>
    have hpos : 0 < c.utf8Size := c.utf8Size_pos
    obtain ⟨n, hn⟩ : ∃ n, byteLength (c :: cs) = n + 1 :=
      ⟨byteLength (c :: cs) - 1, by simp only [byteLength]; omega⟩
    have hle : c.utf8Size ≤ n + 1 := by rw [← hn]; simp [byteLength]
    have hsub : n + 1 - c.utf8Size = byteLength cs := by rw [← hn]; simp [byteLength]
    rw [hn, List.cons_append, charsIn?]
    simp [hle, hsub, ih]

end Stencil.Text
