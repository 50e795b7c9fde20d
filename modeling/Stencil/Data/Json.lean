import Stencil.Data.JsonNumber
import Stencil.Value.Order

/-!
# JSON

A JSON text is cut into its tokens, and the tokens are read as one value. Of equal keys in an object
the last one counts.
-/

namespace Stencil.Data

/-- How deep lists and objects may nest. -/
def jsonNesting : Nat := 127

/-- A token of a JSON text. -/
inductive JsonToken where
  | openList
  | closeList
  | openMap
  | closeMap
  | comma
  | colon
  | scalar (v : Value)
  deriving Inhabited

/-- The value of a hexadecimal digit. -/
def hexDigit? (c : Char) : Option Nat :=
  if '0' ≤ c && c ≤ '9' then some (c.toNat - '0'.toNat)
  else if 'a' ≤ c && c ≤ 'f' then some (c.toNat - 'a'.toNat + 10)
  else if 'A' ≤ c && c ≤ 'F' then some (c.toNat - 'A'.toNat + 10)
  else none

/-- The number written by the first `count` hexadecimal digits of a text, and the rest. -/
def hexNumber? (count : Nat) (cs : List Char) : Option (Nat × List Char) :=
  let digits := cs.take count
  if digits.length < count then none
  else
    (digits.foldlM (fun n c => (hexDigit? c).map (n * 16 + ·)) 0).map fun n => (n, cs.drop count)

/-- The character of a code point, if there is one. -/
def charOf? (n : Nat) : Option Char := if n.isValidChar then some (Char.ofNat n) else none

/-- The character behind `\u`, of one unit of 16 bits or a pair of them, and the rest. -/
def escapedUnit? (cs : List Char) : Option (Char × List Char) := do
  let (unit, rest) ← hexNumber? 4 cs
  if 0xD800 ≤ unit && unit < 0xDC00 then
    match rest with
    | '\\' :: 'u' :: rest =>
      let (low, rest) ← hexNumber? 4 rest
      guard (0xDC00 ≤ low && low < 0xE000)
      return (← charOf? (0x10000 + (unit - 0xD800) * 0x400 + (low - 0xDC00)), rest)
    | _ => none
  else return (← charOf? unit, rest)

/-- The character behind a backslash, and the rest. -/
def escapedChar? : List Char → Option (Char × List Char)
  | '"' :: rest => some ('"', rest)
  | '\\' :: rest => some ('\\', rest)
  | '/' :: rest => some ('/', rest)
  | 'b' :: rest => some ('\x08', rest)
  | 'f' :: rest => some ('\x0c', rest)
  | 'n' :: rest => some ('\n', rest)
  | 'r' :: rest => some ('\r', rest)
  | 't' :: rest => some ('\t', rest)
  | 'u' :: rest => escapedUnit? rest
  | _ => none

/-- The characters up to the closing quote, and the rest. At most `fuel` characters are read. -/
def jsonString? : Nat → List Char → Option (List Char × List Char)
  | 0, _ => none
  | _ + 1, [] => none
  | fuel + 1, c :: cs =>
    if c == '"' then some ([], cs)
    else if c == '\\' then do
      let (d, rest) ← escapedChar? cs
      let (ds, rest) ← jsonString? fuel rest
      return (d :: ds, rest)
    else if c.toNat < 32 then none
    else (jsonString? fuel cs).map fun (ds, rest) => (c :: ds, rest)

/-- The literal at the start of a text, and the rest. -/
def jsonLiteral? : List Char → Option (Value × List Char)
  | 'n' :: 'u' :: 'l' :: 'l' :: rest => some (.null, rest)
  | 't' :: 'r' :: 'u' :: 'e' :: rest => some (.bool true, rest)
  | 'f' :: 'a' :: 'l' :: 's' :: 'e' :: rest => some (.bool false, rest)
  | _ => none

/-- The token that starts with `c`, and the rest. -/
def jsonToken? (c : Char) (cs : List Char) : Option (JsonToken × List Char) :=
  if c == '[' then some (.openList, cs)
  else if c == ']' then some (.closeList, cs)
  else if c == '{' then some (.openMap, cs)
  else if c == '}' then some (.closeMap, cs)
  else if c == ',' then some (.comma, cs)
  else if c == ':' then some (.colon, cs)
  else if c == '"' then
    (jsonString? cs.length cs).map fun (text, rest) => (.scalar (.str (.ofList text)), rest)
  else
    ((jsonLiteral? (c :: cs)).orElse fun _ => jsonNumber? (c :: cs)).map fun (v, rest) =>
      (.scalar v, rest)

/-- White space between tokens. -/
def isJsonBlank (c : Char) : Bool := c == ' ' || c == '\n' || c == '\t' || c == '\r'

/-- The tokens of a text of at most `fuel` characters. -/
def jsonTokens? : Nat → List Char → Option (List JsonToken)
  | _, [] => some []
  | 0, _ => none
  | fuel + 1, c :: cs =>
    if isJsonBlank c then jsonTokens? fuel cs
    else do
      let (token, rest) ← jsonToken? c cs
      return token :: (← jsonTokens? fuel rest)

/-- What the tokens at the start of a list stand for, and the tokens behind. -/
abbrev JsonReader (α : Type) := List JsonToken → Option (α × List JsonToken)

/-- The items of a list behind its opening bracket. -/
def jsonItems? (value : JsonReader Value) : Nat → JsonReader (List Value)
  | 0, _ => none
  | fuel + 1, ts => do
    let (v, rest) ← value ts
    match rest with
    | .comma :: rest => return ((← jsonItems? value fuel rest).map (v :: ·) id)
    | .closeList :: rest => return ([v], rest)
    | _ => none

/-- The entries of an object behind its opening brace. -/
def jsonEntries? (value : JsonReader Value) : Nat → JsonReader (List (Value × Value))
  | 0, _ => none
  | fuel + 1, .scalar (.str key) :: .colon :: ts => do
    let (v, rest) ← value ts
    match rest with
    | .comma :: rest =>
      return ((← jsonEntries? value fuel rest).map ((Value.str key, v) :: ·) id)
    | .closeMap :: rest => return ([(.str key, v)], rest)
    | _ => none
  | _, _ => none

/-- A value whose lists and objects nest no deeper than `depth`. -/
def jsonValue? : Nat → JsonReader Value
  | _, .scalar v :: rest => some (v, rest)
  | _ + 1, .openList :: .closeList :: rest => some (.seq [], rest)
  | depth + 1, .openList :: rest =>
    (jsonItems? (jsonValue? depth) rest.length rest).map fun (items, rest) => (.seq items, rest)
  | _ + 1, .openMap :: .closeMap :: rest => some (.map [], rest)
  | depth + 1, .openMap :: rest =>
    (jsonEntries? (jsonValue? depth) rest.length rest).map fun (entries, rest) =>
      (.ofEntries entries, rest)
  | _, _ => none

/-- The value of a JSON text. -/
def readJson? (text : String) : Option Value := do
  let tokens ← jsonTokens? text.toList.length text.toList
  match ← jsonValue? jsonNesting tokens with
  | (v, []) => some v
  | _ => none

end Stencil.Data
