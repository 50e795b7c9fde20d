import Stencil.Text.Bytes

/-!
# Lines and columns

Lines end with a line feed. Line and column of an offset are counted from one, the column in bytes.
-/

namespace Stencil

open Text

/-- Where the lines after the first one start, in bytes, for a text that starts at `from`. -/
def lineStartsFrom : Nat → List Char → List Nat
  | _, [] => []
  | offset, c :: cs =>
    let next := offset + c.utf8Size
    if c == '\n' then next :: lineStartsFrom next cs else lineStartsFrom next cs

/-- Where the lines of a text start, in bytes. -/
structure LineTable where
  /-- The starts of all lines but the first, which starts at zero. -/
  later : List Nat

namespace LineTable

/-- The line table of a text. -/
def ofText (text : String) : LineTable := ⟨lineStartsFrom 0 text.toList⟩

/-- The number of lines. -/
def count (t : LineTable) : Nat := t.later.length + 1

/-- Line and column of an offset, both counted from one. -/
def locate (t : LineTable) (offset : Nat) : Nat × Nat :=
  let passed := t.later.takeWhile (· ≤ offset)
  (passed.length + 1, offset - passed.getLastD 0 + 1)

end LineTable

end Stencil
