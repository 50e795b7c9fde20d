import Stencil.Data.Toml.Scalar
import Stencil.Data.Toml.Tree

/-!
# TOML documents

A document is a list of statements on lines of their own. Within lists and inline tables, line feeds
and comments may stand between the parts, and a comma may stand behind the last one.
-/

namespace Stencil.Data

/-- How deep lists and inline tables may nest. -/
def tomlNesting : Nat := 80

/-- The rest behind blanks, line feeds and comments; `comment` tells whether the text starts inside
of a comment. Nothing when a character may not stand there. -/
def skipTrivia? : Bool → List Char → Option (List Char)
  | _, [] => some []
  | _, '\r' :: '\n' :: cs => skipTrivia? false cs
  | comment, c :: cs =>
    if c == '\n' then skipTrivia? false cs
    else if comment then if isTomlChar c then skipTrivia? true cs else none
    else if isTomlBlank c then skipTrivia? false cs
    else if c == '#' then skipTrivia? true cs
    else some (c :: cs)

/-- What stands at the start of a text, and the rest. -/
abbrev TomlReader (α : Type) := List Char → Option (α × List Char)

/-- The items of a list behind its opening bracket or a comma. -/
def tomlItems? (value : TomlReader Value) : Nat → TomlReader (List Value)
  | 0, _ => none
  | fuel + 1, cs => do
    match ← skipTrivia? false cs with
    | ']' :: rest => return ([], rest)
    | cs =>
      let (v, rest) ← value cs
      match ← skipTrivia? false rest with
      | ',' :: rest => return ((← tomlItems? value fuel rest).map (v :: ·) id)
      | ']' :: rest => return ([v], rest)
      | _ => none

/-- A pair of a key and a value. -/
def tomlPair? (value : TomlReader Value) : TomlReader TomlStatement := fun cs => do
  let (path, key, rest) ← tomlKey? cs
  let rest ← Text.after? ['='] rest
  let (v, rest) ← value (rest.dropWhile isTomlBlank)
  return (.pair path key v, rest)

/-- The pairs of an inline table behind its opening brace or a comma. -/
def tomlPairs? (value : TomlReader Value) : Nat → TomlReader (List TomlStatement)
  | 0, _ => none
  | fuel + 1, cs => do
    match ← skipTrivia? false cs with
    | '}' :: rest => return ([], rest)
    | cs =>
      let (pair, rest) ← tomlPair? value cs
      match ← skipTrivia? false rest with
      | ',' :: rest => return ((← tomlPairs? value fuel rest).map (pair :: ·) id)
      | '}' :: rest => return ([pair], rest)
      | _ => none

/-- The value of some statements. -/
def tableOf? (statements : List TomlStatement) : Option Value :=
  (statements.foldlM TomlDocument.add {}).map fun d => d.entries.toValue

/-- A value whose lists and inline tables nest no deeper than `depth`. -/
def tomlValue? : Nat → TomlReader Value
  | 0, _ => none
  | depth + 1, cs =>
    match cs with
    | '[' :: rest =>
      (tomlItems? (tomlValue? depth) (rest.length + 1) rest).map fun (items, rest) =>
        (.seq items, rest)
    | '{' :: rest => do
      let (pairs, rest) ← tomlPairs? (tomlValue? depth) (rest.length + 1) rest
      return (← tableOf? pairs, rest)
    | _ =>
      ((tomlText? cs).map fun (text, rest) => (Value.str text, rest)).orElse fun _ =>
        let (run, rest) := scalarRun cs
        (scalarValue? run).map (·, rest)

/-! ## Statements -/

/-- A header behind its brackets. -/
def tomlHeader? (make : List String → String → TomlStatement) (closer : List Char) :
    TomlReader TomlStatement := fun cs => do
  let (path, key, rest) ← tomlKey? cs
  return (make path key, ← Text.after? closer rest)

/-- A statement. -/
def tomlStatement? : TomlReader TomlStatement
  | '[' :: '[' :: cs => tomlHeader? .item [']', ']'] cs
  | '[' :: cs => tomlHeader? .table [']'] cs
  | cs => tomlPair? (tomlValue? (tomlNesting + 1)) cs

/-- The rest behind the end of the line of a statement: nothing but blanks and a comment may stand
there. -/
def lineEnd? (cs : List Char) : Option (List Char) :=
  match cs.dropWhile isTomlBlank with
  | [] => some []
  | '#' :: rest => skipTrivia? true rest
  | rest => (lineFeed? rest).bind fun (_, rest) => skipTrivia? false rest

/-- The statements of a document that starts with none of its blanks. -/
def tomlStatements? : Nat → List Char → Option (List TomlStatement)
  | _, [] => some []
  | 0, _ => none
  | fuel + 1, cs => do
    let (statement, rest) ← tomlStatement? cs
    return statement :: (← tomlStatements? fuel (← lineEnd? rest))

/-- The table that a TOML document holds. -/
def readToml? (text : String) : Option Value := do
  let cs ← skipTrivia? false (Text.dropByteOrderMark text.toList)
  tableOf? (← tomlStatements? cs.length cs)

end Stencil.Data
