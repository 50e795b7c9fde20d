import Stencil.Data.Json
import Stencil.Text.Blank
import Stencil.Text.Search

/-!
# Texts and keys in TOML

A basic text stands between double quotes and knows escapes, a literal text stands between single
quotes and does not. With three quotes on either side a text may have several lines; a line feed
right behind the opening quotes does not count, and up to two quotes may stand before the closing
ones.
-/

namespace Stencil.Data

open Text

/-- Whether a character may stand in a document as it is. -/
def isTomlChar (c : Char) : Bool := c == '\t' || (32 ≤ c.toNat && c.toNat != 127)

/-- A space or a tab. -/
def isTomlBlank (c : Char) : Bool := c == ' ' || c == '\t'

/-- The character of `count` hexadecimal digits, and the rest. -/
def hexChar? (count : Nat) (cs : List Char) : Option (Char × List Char) := do
  let (n, rest) ← hexNumber? count cs
  return (← charOf? n, rest)

/-- The character behind a backslash, and the rest. -/
def tomlEscape? : List Char → Option (Char × List Char)
  | 'b' :: rest => some ('\x08', rest)
  | 't' :: rest => some ('\t', rest)
  | 'n' :: rest => some ('\n', rest)
  | 'f' :: rest => some ('\x0c', rest)
  | 'r' :: rest => some ('\r', rest)
  | 'e' :: rest => some ('\x1b', rest)
  | '"' :: rest => some ('"', rest)
  | '\\' :: rest => some ('\\', rest)
  | 'x' :: rest => hexChar? 2 rest
  | 'u' :: rest => hexChar? 4 rest
  | 'U' :: rest => hexChar? 8 rest
  | _ => none

/-- The line feed at the start of a text, as it is written, and the rest. -/
def lineFeed? : List Char → Option (List Char × List Char)
  | '\n' :: rest => some (['\n'], rest)
  | '\r' :: '\n' :: rest => some (['\r', '\n'], rest)
  | _ => none

/-- The kinds of texts. -/
structure TextStyle where
  quote : Char
  /-- Whether a backslash starts an escape. -/
  escapes : Bool
  /-- Whether there are three quotes on either side. -/
  long : Bool

/-- How many of the first five characters are quotes, counted from the start. -/
def quoteRun (quote : Char) (cs : List Char) : Nat := ((cs.take 5).takeWhile (· == quote)).length

/-- The rest behind the blank end of a line and all the blanks on the lines that follow. -/
def joinedLine? (cs : List Char) : Option (List Char) :=
  (lineFeed? (cs.dropWhile isTomlBlank)).map fun (_, rest) =>
    rest.dropWhile fun c => isTomlBlank c || c == '\n' || c == '\r'

/-- The characters of a text behind its opening quotes, and the rest behind the closing ones. At
most `fuel` characters are read. -/
def tomlChars? (style : TextStyle) : Nat → List Char → Option (List Char × List Char)
  | 0, _ => none
  | _ + 1, [] => none
  | fuel + 1, c :: cs =>
    if c == style.quote then
      let run := quoteRun style.quote (c :: cs)
      if !style.long then some ([], cs)
      else if run < 3 then (tomlChars? style fuel cs).map fun (ds, rest) => (c :: ds, rest)
      else some (List.replicate (run - 3) c, (c :: cs).drop run)
    else if c == '\\' && style.escapes then
      match (if style.long then joinedLine? cs else none) with
      | some rest => tomlChars? style fuel rest
      | none => do
        let (d, rest) ← tomlEscape? cs
        let (ds, rest) ← tomlChars? style fuel rest
        return (d :: ds, rest)
    else
      match (if style.long then lineFeed? (c :: cs) else none) with
      | some (feed, rest) => (tomlChars? style fuel rest).map fun (ds, rest) => (feed ++ ds, rest)
      | none =>
        if isTomlChar c then (tomlChars? style fuel cs).map fun (ds, rest) => (c :: ds, rest)
        else none

/-- The text in some style behind its opening quotes, and the rest. -/
def tomlQuoted? (style : TextStyle) (cs : List Char) : Option (String × List Char) :=
  let cs := if style.long then ((lineFeed? cs).map (·.2)).getD cs else cs
  (tomlChars? style (cs.length + 1) cs).map fun (ds, rest) => (.ofList ds, rest)

/-- The text on one line at the start of `cs`, and the rest. -/
def shortText? : List Char → Option (String × List Char)
  | '"' :: cs => tomlQuoted? ⟨'"', true, false⟩ cs
  | '\'' :: cs => tomlQuoted? ⟨'\'', false, false⟩ cs
  | _ => none

/-- The text at the start of `cs`, and the rest. -/
def tomlText? : List Char → Option (String × List Char)
  | '"' :: '"' :: '"' :: cs => tomlQuoted? ⟨'"', true, true⟩ cs
  | '\'' :: '\'' :: '\'' :: cs => tomlQuoted? ⟨'\'', false, true⟩ cs
  | cs => shortText? cs

/-! ## Keys -/

/-- A character of a bare key. -/
def isKeyChar (c : Char) : Bool := c.isAlphanum || c == '_' || c == '-'

/-- The part of a key at the start of `cs`, and the rest. -/
def keyPart? (cs : List Char) : Option (String × List Char) :=
  (shortText? cs).orElse fun _ =>
    match cs.span isKeyChar with
    | ([], _) => none
    | (key, rest) => some (.ofList key, rest)

/-- The parts of a dotted key of at most `fuel` parts, and the rest. -/
def dottedKey? : Nat → List Char → Option (List String × List Char)
  | 0, _ => none
  | fuel + 1, cs => do
    let (part, rest) ← keyPart? (cs.dropWhile isTomlBlank)
    let rest := rest.dropWhile isTomlBlank
    match rest with
    | '.' :: rest => return ((← dottedKey? fuel rest).map (part :: ·) id)
    | _ => return ([part], rest)

/-- The path and the last part of a dotted key, and the rest. -/
def tomlKey? (cs : List Char) : Option (List String × String × List Char) := do
  let (parts, rest) ← dottedKey? (cs.length + 1) cs
  return (parts.dropLast, parts.getLastD "", rest)

end Stencil.Data
