import Stencil.Table

/-!
# Positions in source files

A position is a byte offset into the text of a file. Files are named by their identifier,
and the texts of all files of one compilation are kept in the order in which they were read.
-/

namespace Stencil

/-- The texts of the files of one compilation by their identifiers. -/
abbrev Files := Table String

/-- The identifier of a template that was given as a string. -/
def stringFile : String := "<string>"

/-- A byte offset into the text of a file. -/
structure Pos where
  file : String
  offset : Nat
  deriving DecidableEq, Repr, Inhabited

/-- The position as it is written in listings. -/
def Pos.describe (pos : Pos) : String := pos.file ++ "@" ++ toString pos.offset

end Stencil
