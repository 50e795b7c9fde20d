import Stencil.Data.Json
import Stencil.Text.Blank

/-!
# Texts in YAML

A text is plain, quoted, or a block of lines. In plain and quoted texts a line feed with the blanks
around it is folded: one line feed is a space, and of several all but the first are kept. In a
folded block only lines without blanks in front are folded; a literal block keeps its lines.

Every function takes the rest of a document and gives back the text and what follows it.
-/

namespace Stencil.Data

/-- A character that ends a line. -/
def isYamlBreak (c : Char) : Bool :=
  c == '\n' || c == '\r' || c == '\x85' || c == '\u2028' || c == '\u2029'

/-- A space or a tab. -/
def isYamlBlank (c : Char) : Bool := c == ' ' || c == '\t'

/-- Whether a blank, the end of a line or the end of the document comes next. -/
def atBlank (cs : List Char) : Bool := cs.head?.all fun c => isYamlBlank c || isYamlBreak c

/-- The end of a line, as it counts in a text, and the rest. -/
def yamlBreak? : List Char → Option (Char × List Char)
  | '\r' :: '\n' :: rest => some ('\n', rest)
  | c :: rest =>
    if c == '\u2028' || c == '\u2029' then some (c, rest)
    else if isYamlBreak c then some ('\n', rest)
    else none
  | [] => none

/-- Whether a marker of documents stands at the start of a line. -/
def atDocumentMark (cs : List Char) : Bool :=
  (['-', '-', '-'].isPrefixOf cs || ['.', '.', '.'].isPrefixOf cs) && atBlank (cs.drop 3)

/-! ## Gaps -/

/-- Blanks and ends of lines between two words. -/
structure Gap where
  /-- The blanks in front of the first end of a line. -/
  blanks : List Char := []
  /-- The ends of lines. -/
  breaks : List Char := []
  /-- How many blanks stand behind the last end of a line. -/
  column : Nat := 0
  /-- The columns of tabs that stand behind an end of a line. -/
  tabs : List Nat := []
  deriving Repr

namespace Gap

/-- Whether the gap reaches over the end of a line. -/
def hasBreak (g : Gap) : Bool := !g.breaks.isEmpty

/-- What the gap counts for in a text. -/
def text (g : Gap) : List Char :=
  match g.breaks with
  | [] => g.blanks
  | ['\n'] => [' ']
  | '\n' :: more => more
  | breaks => breaks

/-- The gap with one more blank. -/
def addBlank (g : Gap) (c : Char) : Gap :=
  if g.hasBreak then
    { g with column := g.column + 1, tabs := if c == '\t' then g.tabs ++ [g.column] else g.tabs }
  else { g with blanks := g.blanks ++ [c] }

/-- The gap with one more end of a line. -/
def addBreak (g : Gap) (c : Char) : Gap := { g with breaks := g.breaks ++ [c], column := 0 }

/-- The gap that goes on at the start of a text. -/
def past (g : Gap) : List Char → Gap × List Char
  | '\r' :: '\n' :: rest => past (g.addBreak '\n') rest
  | c :: rest =>
    if isYamlBlank c then past (g.addBlank c) rest
    else if c == '\u2028' || c == '\u2029' then past (g.addBreak c) rest
    else if isYamlBreak c then past (g.addBreak '\n') rest
    else (g, c :: rest)
  | [] => (g, [])

end Gap

/-! ## Plain texts -/

/-- A character that ends a plain text inside of brackets. -/
def isFlowMark (c : Char) : Bool := c == ',' || c == '[' || c == ']' || c == '{' || c == '}'

/-- The word of a plain text at the start of `cs`, and the rest. Inside of brackets a colon right in
front of a bracket, comma or question mark is an error. -/
def plainWord? (flow : Bool) : List Char → Option (List Char × List Char)
  | [] => some ([], [])
  | c :: cs =>
    if atBlank (c :: cs) then some ([], c :: cs)
    else if flow && c == ':' && cs.head?.any (fun d => isFlowMark d || d == '?') then none
    else if (c == ':' && atBlank cs) || (flow && isFlowMark c) then some ([], c :: cs)
    else (plainWord? flow cs).map fun (word, rest) => (c :: word, rest)

/-- A plain text of at most `fuel` words: its characters, whether an end of a line follows, and the
rest. Lines that go on are indented by at least `indent`, outside of brackets. -/
def plainText? (flow : Bool) (indent : Nat) :
    Nat → List Char → Option (List Char × Bool × List Char)
  | 0, _ => none
  | fuel + 1, cs => do
    let (word, rest) ← plainWord? flow cs
    let (gap, next) := Gap.past {} rest
    if gap.tabs.any (· < indent) then none
    else if (!flow && gap.hasBreak && gap.column < indent) ||
        (gap.hasBreak && gap.column == 0 && atDocumentMark next) || next.head? == some '#' then
      return (word, gap.hasBreak, next)
    else
      match ← plainWord? flow next with
      | ([], _) => return (word, gap.hasBreak, next)
      | _ =>
        let (more, hasBreak, rest) ← plainText? flow indent fuel next
        return (word ++ gap.text ++ more, hasBreak, rest)

/-! ## Quoted texts -/

/-- The character of `count` hexadecimal digits, and the rest. -/
def yamlHex? (count : Nat) (cs : List Char) : Option (Char × List Char) := do
  let (n, rest) ← hexNumber? count cs
  return (← charOf? n, rest)

/-- The character behind a backslash, and the rest. -/
def yamlEscape? : List Char → Option (Char × List Char)
  | '0' :: rest => some ('\x00', rest)
  | 'a' :: rest => some ('\x07', rest)
  | 'b' :: rest => some ('\x08', rest)
  | 't' :: rest => some ('\t', rest)
  | '\t' :: rest => some ('\t', rest)
  | 'n' :: rest => some ('\n', rest)
  | 'v' :: rest => some ('\x0b', rest)
  | 'f' :: rest => some ('\x0c', rest)
  | 'r' :: rest => some ('\r', rest)
  | 'e' :: rest => some ('\x1b', rest)
  | ' ' :: rest => some (' ', rest)
  | '"' :: rest => some ('"', rest)
  | '/' :: rest => some ('/', rest)
  | '\\' :: rest => some ('\\', rest)
  | 'N' :: rest => some ('\x85', rest)
  | '_' :: rest => some ('\xa0', rest)
  | 'L' :: rest => some ('\u2028', rest)
  | 'P' :: rest => some ('\u2029', rest)
  | 'x' :: rest => yamlHex? 2 rest
  | 'u' :: rest => yamlHex? 4 rest
  | 'U' :: rest => yamlHex? 8 rest
  | _ => none

/-- The characters of a text behind its opening quote, and the rest behind the closing one. At most
`fuel` characters and gaps are read; `fresh` tells whether a line starts here. -/
def yamlQuoted? (quote : Char) : Nat → Bool → List Char → Option (List Char × List Char)
  | 0, _, _ => none
  | _ + 1, _, [] => none
  | fuel + 1, fresh, c :: cs =>
    if fresh && atDocumentMark (c :: cs) then none
    else if c == quote then
      if c == '\'' && cs.head? == some '\'' then
        (yamlQuoted? quote fuel false (cs.drop 1)).map fun (ds, rest) => ('\'' :: ds, rest)
      else some ([], cs)
    else if c == '\\' && quote == '"' then
      match yamlBreak? cs with
      | some (_, rest) =>
        let (gap, rest) := Gap.past { breaks := ['\n'] } rest
        (yamlQuoted? quote fuel (gap.column == 0) rest).map fun (ds, rest) =>
          (gap.breaks.drop 1 ++ ds, rest)
      | none => do
        let (d, rest) ← yamlEscape? cs
        let (ds, rest) ← yamlQuoted? quote fuel false rest
        return (d :: ds, rest)
    else if atBlank (c :: cs) then
      let (gap, rest) := Gap.past {} (c :: cs)
      (yamlQuoted? quote fuel (gap.hasBreak && gap.column == 0) rest).map fun (ds, rest) =>
        (gap.text ++ ds, rest)
    else (yamlQuoted? quote fuel false cs).map fun (ds, rest) => (c :: ds, rest)

/-! ## Blocks -/

/-- What becomes of the ends of lines at the end of a block. -/
inductive Chomping where
  | strip
  | clip
  | keep
  deriving DecidableEq, Repr

/-- What the header of a block says. -/
structure BlockHeader where
  chomping : Chomping := .clip
  /-- By how much the block is indented, when it is said. -/
  indent : Option Nat := none
  deriving Repr

/-- The chomping at the start of a text, and the rest. -/
def chomping? : List Char → Option (Chomping × List Char)
  | '+' :: rest => some (.keep, rest)
  | '-' :: rest => some (.strip, rest)
  | _ => none

/-- The digit of an indentation at the start of a text, and the rest; a zero is an error. -/
def indentDigit? : List Char → Option (Option Nat × List Char)
  | c :: rest =>
    if c == '0' then none
    else if c.isDigit then some (some (c.toNat - '0'.toNat), rest)
    else some (none, c :: rest)
  | [] => some (none, [])

/-- The header of a block behind its first character, and the rest behind the line. -/
def blockHeader? (cs : List Char) : Option (BlockHeader × List Char) := do
  let (header, rest) ← match chomping? cs with
    | some (chomping, rest) =>
      (indentDigit? rest).map fun (indent, rest) => (BlockHeader.mk chomping indent, rest)
    | none =>
      (indentDigit? cs).map fun (indent, rest) =>
        match indent, chomping? rest with
        | some _, some (chomping, rest) => (⟨chomping, indent⟩, rest)
        | _, _ => (⟨.clip, indent⟩, rest)
  let rest := rest.dropWhile isYamlBlank
  let rest := if rest.head? == some '#' then rest.dropWhile (!isYamlBreak ·) else rest
  match rest with
  | [] => return (header, [])
  | rest => return (header, (← yamlBreak? rest).2)

/-- Empty lines of a block, and the blanks in front of the line behind them. -/
structure BlockGap where
  breaks : List Char := []
  column : Nat := 0
  /-- The largest column reached. -/
  widest : Nat := 0
  deriving Repr

/-- The empty lines at the start of a text, of which blanks up to `indent` are taken: all of them
when the indentation is not known yet. A tab among them is an error. -/
def blockGap? (indent : Option Nat) : BlockGap → List Char → Option (BlockGap × List Char)
  | g, '\r' :: '\n' :: rest =>
    blockGap? indent { g with breaks := g.breaks ++ ['\n'], column := 0 } rest
  | g, c :: rest =>
    if indent.all (g.column < ·) && c == ' ' then
      blockGap? indent { g with column := g.column + 1, widest := max g.widest (g.column + 1) } rest
    else if indent.all (g.column < ·) && c == '\t' then none
    else if c == '\u2028' || c == '\u2029' then
      blockGap? indent { g with breaks := g.breaks ++ [c], column := 0 } rest
    else if isYamlBreak c then
      blockGap? indent { g with breaks := g.breaks ++ ['\n'], column := 0 } rest
    else some (g, c :: rest)
  | g, [] => some (g, [])

/-- The end of the line before, what it counts for, and whether that line started with a blank. -/
structure BlockLine where
  feed : List Char := []
  blank : Bool := false
  deriving Repr

/-- The text between two lines of a block. -/
def blockJoint (folded : Bool) (before : BlockLine) (breaks : List Char) (blank : Bool) :
    List Char :=
  if folded && before.feed == ['\n'] && !before.blank && !blank then
    if breaks.isEmpty then [' '] else breaks
  else before.feed ++ breaks

/-- The lines of a block of at most `fuel` lines, indented by `indent`, behind the gap in front of
the first of them. -/
def blockLines? (folded : Bool) (chomping : Chomping) (indent : Nat) :
    Nat → BlockLine → BlockGap → List Char → Option (List Char × List Char)
  | 0, _, _, _ => none
  | fuel + 1, before, gap, cs =>
    if gap.column == indent && !cs.isEmpty then do
      let blank := cs.head?.any isYamlBlank
      let (line, rest) := cs.span (!isYamlBreak ·)
      let (feed, rest) := match yamlBreak? rest with
        | some (c, rest) => ([c], rest)
        | none => ([], rest)
      let (next, rest) ← blockGap? (some indent) {} rest
      let (more, rest) ← blockLines? folded chomping indent fuel ⟨feed, blank⟩ next rest
      return (blockJoint folded before gap.breaks blank ++ line ++ more, rest)
    else
      let tail := match chomping with
        | .strip => []
        | .clip => before.feed
        | .keep => before.feed ++ gap.breaks
      some (tail, cs)

/-- The text of a block behind its first character, and the rest. The block is inside of something
that is indented by `outer - 1`. -/
def blockText? (folded : Bool) (outer : Nat) (cs : List Char) : Option (List Char × List Char) := do
  let (header, rest) ← blockHeader? cs
  let said := header.indent.map (outer - 1 + ·)
  let (gap, rest) ← blockGap? said {} rest
  let indent := said.getD (max (max gap.widest outer) 1)
  blockLines? folded header.chomping indent (rest.length + 1) {} gap rest

end Stencil.Data
