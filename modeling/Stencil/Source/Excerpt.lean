import Stencil.Source.Lines
import Stencil.Source.Position
import Stencil.Text.Blank

/-!
# Excerpts

An excerpt shows the lines around a position with their numbers, marks the line of the position and
ends with the file, the line and the column. Columns are counted in characters, except when the
offset lies inside a character: then in bytes.
-/

namespace Stencil

open Text

/-- How many lines most excerpts show above and below the marked one. -/
def excerptRadius : Nat := 2

/-- How many lines the excerpts of nesting errors show: the mismatch is often far away. -/
def nestingRadius : Nat := 4

/-- The text moved to the right end of a field of five characters. -/
def padLeft5 (s : String) : String := .ofList (List.replicate (5 - s.length) ' ') ++ s

/-- The lines of a text without their line feeds. -/
def linesOf (text : List Char) : List (List Char) := splitAt (· == '\n') text

/-- The column of an offset that is `byteColumn - 1` bytes into a line. -/
def columnOf (line : List Char) (byteColumn : Nat) : Nat :=
  match charsIn? (byteColumn - 1) line with
  | some chars => chars + 1
  | none => byteColumn

/-- One line of an excerpt. -/
def excerptLine (marked : Bool) (number : Nat) (line : List Char) : String :=
  let label := (if marked then ">> " else "") ++ toString number
  padLeft5 label ++ "| " ++ .ofList (dropRight (· == '\r') line) ++ "\n"

/-- The lines around a position and where it is; only the file when its text is not known. -/
def excerpt (files : Files) (radius : Nat) (pos : Pos) : String :=
  match files.get? pos.file with
  | none => " File| " ++ pos.file
  | some text =>
    let lines := linesOf text.toList
    let (line, byteColumn) := (LineTable.ofText text).locate (min pos.offset text.utf8ByteSize)
    let column := columnOf (lines.getD (line - 1) []) byteColumn
    let first := max (line - radius) 1
    let last := min (line + radius) lines.length
    let shown := (lines.take last).drop (first - 1)
    let rows := shown.mapIdx fun i content => excerptLine (first + i == line) (first + i) content
    String.join rows ++
      s!" File| {pos.file}:{line}:{column}"

end Stencil
