import Stencil.Data.Yaml.Token
import Stencil.Number.Reading
import Stencil.Text.Search

/-!
# Cutting YAML into tokens

`YamlScan.step?` takes one token, by the character that comes next. `yamlTokens?` takes them all.
-/

namespace Stencil.Data

open Text

namespace YamlScan

/-! ## Directives and marks -/

/-- Leave all blocks: nothing inside of them can go on behind a mark or a directive. -/
def leaveAll? (s : YamlScan) : Option YamlScan := do
  let s ← (s.closeBlocks none).dropSite?
  return { s with keyAllowed := false }

/-- A mark of documents. -/
def documentMark? (s : YamlScan) (token : YamlToken) : Option YamlScan := do
  return (← s.leaveAll?).indicator 3 token

/-- A number of at most nine digits, and the rest. -/
def shortNumber? (cs : List Char) : Option (Nat × List Char) :=
  let (digits, rest) := cs.span Number.isDigit
  if digits.isEmpty || digits.length > 9 then none else some (Number.ofDigits digits, rest)

/-- A character of the name of a directive, an anchor or a handle. -/
def isNameChar (c : Char) : Bool := c.isAlphanum || c == '_' || c == '-'

/-- The name of a handle for tags, with its exclamation marks. -/
def handle? : List Char → Option (List Char × List Char)
  | '!' :: cs =>
    let (name, rest) := cs.span isNameChar
    match rest with
    | '!' :: rest => some ('!' :: name ++ ['!'], rest)
    | _ => if name.isEmpty then some (['!'], rest) else none
  | _ => none

/-- What a directive says, from behind its percent sign. -/
def directive? (cs : List Char) : Option (YamlToken × List Char) := do
  let (name, rest) := cs.span isNameChar
  guard (rest.head?.any isYamlBlank)
  let rest := rest.dropWhile isYamlBlank
  if name == "YAML".toList then
    let (major, rest) ← shortNumber? rest
    let (minor, rest) ← shortNumber? (← after? ['.'] rest)
    return (.version major minor, rest)
  else if name == "TAG".toList then
    let (handle, rest) ← handle? rest
    guard (rest.head?.any isYamlBlank)
    let (start, rest) := (rest.dropWhile isYamlBlank).span fun c => !isYamlBlank c && !isYamlBreak c
    return (.handle handle start, rest)
  else none

/-- A directive; nothing but a comment may follow on its line. -/
def directiveToken? (s : YamlScan) : Option YamlScan := do
  let s ← s.leaveAll?
  let (token, rest) ← directive? (s.rest.drop 1)
  guard (atBlank rest)
  let rest := rest.dropWhile isYamlBlank
  let rest := if rest.head? == some '#' then rest.dropWhile (!isYamlBreak ·) else rest
  guard (rest.head?.all isYamlBreak)
  return (s.moveTo rest).push token

/-! ## Brackets -/

/-- Open brackets. -/
def openFlow? (s : YamlScan) (token : YamlToken) : Option YamlScan := do
  let s ← s.noteSite?
  return { s.indicator 1 token with sites := none :: s.sites, keyAllowed := true }

/-- Close brackets. -/
def closeFlow? (s : YamlScan) (token : YamlToken) : Option YamlScan := do
  let s ← s.dropSite?
  return { s.indicator 1 token with sites := s.sites.drop 1, keyAllowed := false }

/-- A comma between brackets. -/
def comma? (s : YamlScan) : Option YamlScan := do
  let s ← s.dropSite?
  return { s.indicator 1 .comma with keyAllowed := true }

/-! ## Items, keys and values -/

/-- The dash in front of an item. -/
def item? (s : YamlScan) : Option YamlScan := do
  guard (s.inFlow || s.keyAllowed)
  let s ← (s.openBlock .blockList).dropSite?
  return { s.indicator 1 .item with keyAllowed := true }

/-- The question mark in front of a key. -/
def key? (s : YamlScan) : Option YamlScan := do
  guard (s.inFlow || s.keyAllowed)
  let s ← (s.openBlock .blockMap).dropSite?
  return { s.indicator 1 .key with keyAllowed := !s.inFlow }

/-- The colon in front of a value: the node before it is the key, if it can be. -/
def value? (s : YamlScan) : Option YamlScan :=
  match s.site with
  | some site =>
    let s := (s.insertAt site.token [.key]).setSite none
    let s := s.openBlockAt site.column site.token .blockMap
    some { s.indicator 1 .value with keyAllowed := false }
  | none => do
    guard (s.inFlow || s.keyAllowed)
    let s := s.openBlock .blockMap
    return { s.indicator 1 .value with keyAllowed := !s.inFlow }

/-! ## Nodes -/

/-- Take a node that may be a key. -/
def node? (s : YamlScan) (token : YamlToken) (rest : List Char) : Option YamlScan := do
  let s ← s.noteSite?
  return { (s.moveTo rest).push token with keyAllowed := false }

/-- The name of an anchor behind its first character, and the rest. -/
def anchorName? (cs : List Char) : Option (List Char × List Char) :=
  let (name, rest) := cs.span isNameChar
  let ends := rest.head?.all fun c =>
    isYamlBlank c || isYamlBreak c || ['?', ':', ',', ']', '}', '%', '@', '\x60'].contains c
  if name.isEmpty || !ends then none else some (name, rest)

/-- An anchor or an alias. -/
def anchor? (s : YamlScan) (make : List Char → YamlToken) : Option YamlScan := do
  let (name, rest) ← anchorName? (s.rest.drop 1)
  s.node? (make name) rest

/-- A character of a tag. -/
def isTagChar (c : Char) : Bool :=
  isNameChar c || [';', '/', '?', ':', '@', '&', '=', '+', '$', '.', '%', '!', '~', '*', '\'', '(',
    ')'].contains c

/-- The handle and the rest of a tag. -/
def tagParts? (cs : List Char) : Option (YamlToken × List Char) :=
  match cs with
  | '!' :: '<' :: cs =>
    match cs.span fun c => isTagChar c || c == ',' || c == '[' || c == ']' with
    | (name, '>' :: rest) => if name.isEmpty then none else some (.tag [] name, rest)
    | _ => none
  | _ =>
    let named := match handle? cs with
      | some (handle, rest) => if handle.length > 1 then some (handle, rest) else none
      | none => none
    match named with
    | some (handle, rest) =>
      let (suffix, rest) := rest.span isTagChar
      if suffix.isEmpty then none else some (.tag handle suffix, rest)
    | none =>
      let (suffix, rest) := (cs.drop 1).span isTagChar
      some (if suffix.isEmpty then .tag [] ['!'] else .tag ['!'] suffix, rest)

/-- A tag. -/
def tag? (s : YamlScan) : Option YamlScan := do
  let (token, rest) ← tagParts? s.rest
  guard (atBlank rest || (s.inFlow && rest.head? == some ','))
  s.node? token rest

/-- A quoted text. -/
def quoted? (s : YamlScan) (quote : Char) : Option YamlScan := do
  let cs := s.rest.drop 1
  let (text, rest) ← yamlQuoted? quote (cs.length + 1) false cs
  s.node? (.scalar false text) rest

/-- A plain text. Behind the end of its line a key may start. -/
def plain? (s : YamlScan) : Option YamlScan := do
  let (text, hasBreak, rest) ← plainText? s.inFlow s.outer (s.rest.length + 1) s.rest
  let s ← s.node? (.scalar true text) rest
  return { s with keyAllowed := hasBreak }

/-- A block of lines. -/
def block? (s : YamlScan) (folded : Bool) : Option YamlScan := do
  let s ← s.dropSite?
  let (text, rest) ← blockText? folded s.outer (s.rest.drop 1)
  return { (s.moveTo rest).push (.scalar false text) with keyAllowed := true }

/-! ## Steps -/

/-- The characters that have a meaning at the start of a token. -/
def yamlIndicators : List Char :=
  ['-', '?', ':', ',', '[', ']', '{', '}', '#', '&', '*', '!', '|', '>', '\'', '"', '%', '@',
    '\x60']

/-- Whether a plain text may start with `c`, given what follows. -/
def startsPlain (flow : Bool) (c : Char) (cs : List Char) : Bool :=
  !(isYamlBlank c || yamlIndicators.contains c) ||
    (c == '-' && !cs.head?.any isYamlBlank) || (!flow && (c == '?' || c == ':') && !atBlank cs)

/-- Take the token that starts with `c`, in front of `cs`. -/
def token? (s : YamlScan) (c : Char) (cs : List Char) : Option YamlScan :=
  if s.column == 0 && c == '%' then s.directiveToken?
  else if s.column == 0 && atDocumentMark (c :: cs) then
    s.documentMark? (if c == '-' then .documentStart else .documentEnd)
  else if c == '[' then s.openFlow? .openList
  else if c == '{' then s.openFlow? .openMap
  else if c == ']' then s.closeFlow? .closeList
  else if c == '}' then s.closeFlow? .closeMap
  else if c == ',' then s.comma?
  else if c == '-' && atBlank cs then s.item?
  else if c == '?' && (s.inFlow || atBlank cs) then s.key?
  else if c == ':' && (s.inFlow || atBlank cs) then s.value?
  else if c == '*' then s.anchor? .alias
  else if c == '&' then s.anchor? .anchor
  else if c == '!' then s.tag?
  else if c == '|' && !s.inFlow then s.block? false
  else if c == '>' && !s.inFlow then s.block? true
  else if c == '\'' || c == '"' then s.quoted? c
  else if startsPlain s.inFlow c cs then s.plain?
  else none

/-- Take all tokens of a text of fewer than `fuel` characters. -/
def all? : Nat → YamlScan → Option YamlScan
  | 0, _ => none
  | fuel + 1, s => do
    let s ← s.toToken?
    match s.rest with
    | [] => return (← s.leaveAll?).push .streamEnd
    | c :: cs => all? fuel (← s.token? c cs)

end YamlScan

/-- A character that may stand in a YAML document. -/
def isYamlChar (c : Char) : Bool :=
  let n := c.toNat
  n == 0x09 || n == 0x0A || n == 0x0D || (0x20 ≤ n && n ≤ 0x7E) || n == 0x85 ||
    (0xA0 ≤ n && n ≤ 0xFFFD) || 0x10000 ≤ n

/-- The tokens of a YAML document. -/
def yamlTokens? (cs : List Char) : Option (List YamlToken) :=
  if cs.all isYamlChar then
    (YamlScan.all? (cs.length + 1) { rest := cs }).map fun s => s.found.reverse
  else none

end Stencil.Data
