import Stencil.Data.Yaml.Text

/-!
# Tokens of YAML

A document is cut into tokens. Indentation becomes tokens too: where a line is indented more than
the lines around it a block opens, and where it is indented less blocks close.

A key may be known as one only when the colon behind it is met. So the scan remembers, for every
level of brackets, where the last node started that could be a key, and puts the tokens of the key
there when a colon follows on the same line.
-/

namespace Stencil.Data

/-- A token of a YAML document. -/
inductive YamlToken where
  /-- A directive in front of a document: the version. -/
  | version (major minor : Nat)
  /-- A directive in front of a document: a handle for tags. -/
  | handle (name start : List Char)
  | documentStart
  | documentEnd
  | streamEnd
  | blockList
  | blockMap
  | blockEnd
  | openList
  | closeList
  | openMap
  | closeMap
  /-- The dash in front of an item. -/
  | item
  | comma
  | key
  | value
  | alias (name : List Char)
  | anchor (name : List Char)
  | tag (handle suffix : List Char)
  | scalar (plain : Bool) (text : List Char)
  deriving DecidableEq, Repr, Inhabited

/-- Where a node starts that may turn out to be a key. -/
structure KeySite where
  /-- How many tokens stand before it. -/
  token : Nat
  index : Nat
  line : Nat
  column : Nat
  /-- Whether nothing but a key can stand there. -/
  required : Bool
  deriving Repr

/-- The state of a scan. -/
structure YamlScan where
  rest : List Char
  index : Nat := 0
  line : Nat := 0
  column : Nat := 0
  /-- The columns at which the open blocks start, innermost first. -/
  blocks : List Nat := []
  /-- Whether a key may start here. -/
  keyAllowed : Bool := true
  /-- The last node that may be a key, for every level of brackets around, innermost first. -/
  sites : List (Option KeySite) := []
  /-- The same outside of all brackets. -/
  outerSite : Option KeySite := none
  /-- The tokens so far, latest first. -/
  found : List YamlToken := []
  count : Nat := 0
  deriving Repr

namespace YamlScan

/-! ## Moving -/

/-- Whether the scan is inside of brackets. -/
def inFlow (s : YamlScan) : Bool := !s.sites.isEmpty

/-- How much a line has to be indented to belong to the innermost block. -/
def outer (s : YamlScan) : Nat := (s.blocks.head?.map (· + 1)).getD 0

/-- Move over the characters in front of `rest`; there are `count` of them. -/
def past : Nat → YamlScan → YamlScan
  | 0, s => s
  | count + 1, s =>
    match s.rest with
    | [] => s
    | c :: rest =>
      let s := { s with rest, index := s.index + 1 }
      if c == '\r' && rest.head? == some '\n' then past count s
      else if isYamlBreak c then past count { s with line := s.line + 1, column := 0 }
      else past count { s with column := s.column + 1 }

/-- Move on to `rest`, which is the end of the text ahead. -/
def moveTo (s : YamlScan) (rest : List Char) : YamlScan := s.past (s.rest.length - rest.length)

/-! ## Tokens and keys -/

/-- Append a token. -/
def push (s : YamlScan) (token : YamlToken) : YamlScan :=
  { s with found := token :: s.found, count := s.count + 1 }

/-- Put tokens behind the first `place` ones. -/
def insertAt (s : YamlScan) (place : Nat) (tokens : List YamlToken) : YamlScan :=
  let later := s.count - place
  { s with
    found := s.found.take later ++ tokens.reverse ++ s.found.drop later
    count := s.count + tokens.length }

/-- The node that may be a key at this level of brackets. -/
def site (s : YamlScan) : Option KeySite := s.sites.headD s.outerSite

/-- Set the node that may be a key at this level of brackets. -/
def setSite (s : YamlScan) (site : Option KeySite) : YamlScan :=
  match s.sites with
  | [] => { s with outerSite := site }
  | _ :: sites => { s with sites := site :: sites }

/-- Give up the node as a key; a required key without its colon is an error. -/
def dropSite? (s : YamlScan) : Option YamlScan :=
  if s.site.any KeySite.required then none else some (s.setSite none)

/-- Whether a node is too far behind to be a key: keys have one line and at most 1024 characters. -/
def isStale (s : YamlScan) (site : KeySite) : Bool :=
  site.line < s.line || site.index + 1024 < s.index

/-- Give up every node that is too far behind. -/
def dropStale? (s : YamlScan) : Option YamlScan :=
  let all := s.outerSite :: s.sites
  if all.any (fun site => site.any fun k => s.isStale k && k.required) then none
  else
    let fresh := fun site : Option KeySite => site.filter fun k => !s.isStale k
    some { s with outerSite := fresh s.outerSite, sites := s.sites.map fresh }

/-- Note that a node starts here. -/
def noteSite? (s : YamlScan) : Option YamlScan :=
  if s.keyAllowed then do
    let s ← s.dropSite?
    let required := !s.inFlow && s.blocks.head? == some s.column
    return s.setSite (some ⟨s.count, s.index, s.line, s.column, required⟩)
  else some s

/-! ## Blocks -/

/-- Close the blocks that start behind `column`; all of them when there is none. -/
def closeBlocks (s : YamlScan) (column : Option Nat) : YamlScan :=
  if s.inFlow then s
  else
    let closed := s.blocks.takeWhile fun start => column.all (· < start)
    closed.foldl (fun s _ => s.push .blockEnd) { s with blocks := s.blocks.drop closed.length }

/-- Open a block at `column` unless one is open there; its token goes behind the first `place` ones.
-/
def openBlockAt (s : YamlScan) (column place : Nat) (token : YamlToken) : YamlScan :=
  if s.inFlow || s.blocks.head?.any (column ≤ ·) then s
  else { s.insertAt place [token] with blocks := column :: s.blocks }

/-- Open a block here. -/
def openBlock (s : YamlScan) (token : YamlToken) : YamlScan := s.openBlockAt s.column s.count token

/-- Move over an indicator of `length` characters and append its token. -/
def indicator (s : YamlScan) (length : Nat) (token : YamlToken) : YamlScan :=
  (s.past length).push token

/-! ## Between tokens -/

/-- The rest behind blanks, comments and ends of lines, and whether a key may start there. Outside
of brackets a new line allows keys, and where keys are allowed a tab is no blank. -/
def skipBlanks (flow : Bool) : (keyAllowed comment : Bool) → List Char → Bool × List Char
  | keyAllowed, _, [] => (keyAllowed, [])
  | keyAllowed, comment, c :: cs =>
    if isYamlBreak c then skipBlanks flow (keyAllowed || !flow) false cs
    else if comment || c == '#' then skipBlanks flow keyAllowed true cs
    else if c == ' ' || (c == '\t' && (flow || !keyAllowed)) then
      skipBlanks flow keyAllowed false cs
    else (keyAllowed, c :: cs)

/-- Move on to the next token. -/
def toToken? (s : YamlScan) : Option YamlScan := do
  let (keyAllowed, rest) := skipBlanks s.inFlow s.keyAllowed false s.rest
  let s := { s.moveTo rest with keyAllowed }
  let s ← s.dropStale?
  return if s.rest.isEmpty then s else s.closeBlocks (some s.column)

end YamlScan

end Stencil.Data
