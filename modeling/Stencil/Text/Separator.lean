import Stencil.Text.Bytes

/-!
# Separators outside quotes and brackets

A separator counts only where no quote and no bracket is open. `Nesting` is what a scan knows about
the text it has read: the open quote, whether the next character is escaped in it, and how many
brackets are open. Brackets of all kinds share one count, and closing one too many is harmless.

* `splitTop` gives the pieces between the separators that count;
* `firstTop?` gives the place of the first of them.
-/

namespace Stencil.Text

/-- What is open after some text. -/
structure Nesting where
  /-- The quote that is open. -/
  quote : Option Char := none
  /-- Whether the next character inside the quote is taken literally. -/
  escaped : Bool := false
  /-- How many brackets are open. -/
  depth : Nat := 0
  deriving DecidableEq, Repr

/-- A character that opens a quote. -/
def isQuoteMark (c : Char) : Bool := c == '"' || c == '\'' || c == '\x60'

/-- A character that opens a bracket. -/
def isOpening (c : Char) : Bool := c == '(' || c == '[' || c == '{'

/-- A character that closes a bracket. -/
def isClosing (c : Char) : Bool := c == ')' || c == ']' || c == '}'

namespace Nesting

/-- What is open after one more character. -/
def step (n : Nesting) (c : Char) : Nesting :=
  match n.quote with
  | some mark =>
    if n.escaped then { n with escaped := false }
    else if c == '\\' then { n with escaped := true }
    else if c == mark then { n with quote := none }
    else n
  | none =>
    if isQuoteMark c then { n with quote := some c }
    else if isOpening c then { n with depth := n.depth + 1 }
    else if isClosing c then { n with depth := n.depth - 1 }
    else n

/-- Whether `c` is a separator that counts here. -/
def separates (n : Nesting) (sep c : Char) : Bool :=
  n.quote.isNone && n.depth == 0 && c == sep &&
    !(isQuoteMark c || isOpening c || isClosing c)

/-- What is open after a whole text. -/
def after (n : Nesting) (cs : List Char) : Nesting := cs.foldl step n

end Nesting

/-- The pieces of a text between the separators that count, the first one apart. -/
def topPieces (sep : Char) : Nesting → List Char → List Char × List (List Char)
  | _, [] => ([], [])
  | n, c :: cs =>
    let (first, others) := topPieces sep (n.step c) cs
    if n.separates sep c then ([], first :: others) else (c :: first, others)

/-- The pieces of a text between the separators outside quotes and brackets. -/
def splitTop (sep : Char) (cs : List Char) : List (List Char) :=
  let (first, others) := topPieces sep {} cs
  first :: others

/-- The byte offset of the first separator that counts. -/
def firstFrom? (sep : Char) : Nesting → List Char → Option Nat
  | _, [] => none
  | n, c :: cs =>
    if n.separates sep c then some 0 else (firstFrom? sep (n.step c) cs).map (c.utf8Size + ·)

/-- The byte offset of the first separator outside quotes and brackets. -/
def firstTop? (sep : Char) (cs : List Char) : Option Nat := firstFrom? sep {} cs

/-- The text before the first separator that counts and the text behind it. -/
def cutTop? (sep : Char) (cs : List Char) : Option (List Char × List Char) :=
  match topPieces sep {} cs with
  | (_, []) => none
  | (first, _ :: _) => some (first, cs.drop (first.length + 1))

end Stencil.Text
