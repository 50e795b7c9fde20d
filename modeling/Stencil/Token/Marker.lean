import Stencil.Number.Reading
import Stencil.Number.Width
import Stencil.Text.Blank

/-!
# Markers of files

A flattened template tells by markers where the text of a file begins and where it ends. They look
like comments: `{# beg 17 2 nav #}` begins the file `nav`, which replaces a directive of seventeen
bytes on a line indented by two, and `{# end 0 page #}` ends it and goes back to `page`.
-/

namespace Stencil

open Text

/-! ## Writing -/

/-- The digits of a number. -/
def digits (n : Nat) : List Char := (toString n).toList

/-- The marker in front of a file. -/
def beginMarker (resume indent : Nat) (file : String) : List Char :=
  "\x7b# beg ".toList ++ digits resume ++ ' ' :: digits indent ++ ' ' :: file.toList ++
    " #\x7d".toList

/-- The marker behind a file, given the one that goes on. -/
def endMarker (parent : String) : List Char :=
  "\x7b# end 0 ".toList ++ parent.toList ++ " #\x7d".toList

/-! ## Reading -/

/-- A number of 64 bits written in decimal digits, with an optional plus sign. -/
def decimal? (cs : List Char) : Option Nat :=
  let digits := match cs with
    | '+' :: rest => rest
    | _ => cs
  if digits.isEmpty || !digits.all Number.isDigit then none
  else
    let n := Number.ofDigits digits
    if n < Number.twoTo 64 then some n else none

/-- What a marker says. -/
inductive Marker where
  /-- A file begins that replaces a directive of `resume` bytes and is indented by `indent` more
  bytes. -/
  | begin (resume indent : Nat) (file : String)
  /-- The file ends. -/
  | finish
  /-- A begin marker without its fields. -/
  | bad
  /-- A comment. -/
  | other
  deriving DecidableEq, Repr

/-- Cut at the first `count` spaces. -/
def fields : Nat → List Char → List (List Char)
  | 0, cs => [cs]
  | count + 1, cs =>
    match cutAt (· == ' ') cs with
    | (field, _ :: rest) => field :: fields count rest
    | (field, []) => [field]

/-- The meaning of the trimmed content of a marker. -/
def Marker.ofContent (content : List Char) : Marker :=
  match fields 3 content with
  | ['b', 'e', 'g'] :: rest =>
    match rest with
    | [resume, indent, file] =>
      match decimal? resume, decimal? indent with
      | some resume, some indent => .begin resume indent (.ofList file)
      | _, _ => .bad
    | _ => .bad
  | ['e', 'n', 'd'] :: _ => .finish
  | _ => .other

end Stencil
