/-!
# Properties of characters as ranges

A property of characters beyond ASCII is a list of ranges of code points, both ends included.
-/

namespace Stencil.Text

/-- Ranges of code points, both ends included. -/
abbrev Ranges := List (Nat × Nat)

/-- Whether a code point lies in one of the ranges. -/
def Ranges.has (ranges : Ranges) (point : Nat) : Bool :=
  ranges.any fun range => range.1 ≤ point && point ≤ range.2

end Stencil.Text
