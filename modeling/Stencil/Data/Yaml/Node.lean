import Stencil.Data.Yaml.Scan

/-!
# Nodes of YAML

The tokens of a document make up one node: a text, a list, a map, or an alias of a node with an
anchor. Where a node is missing, an empty plain text stands for it.
-/

namespace Stencil.Data

/-- How deep lists and maps may nest. -/
def yamlNesting : Nat := 128

/-- What stands in front of a node. -/
structure NodeProperties where
  anchor : Option (List Char) := none
  /-- The tag in full. -/
  tag : Option (List Char) := none
  deriving DecidableEq, Repr, Inhabited

/-- A node of a document. -/
inductive YamlNode where
  | alias (name : List Char)
  | scalar (properties : NodeProperties) (plain : Bool) (text : List Char)
  | list (properties : NodeProperties) (items : List YamlNode)
  | map (properties : NodeProperties) (entries : List (YamlNode × YamlNode))
  deriving Inhabited, Repr

namespace YamlNode

/-- The node that stands for a missing one. -/
def missing (properties : NodeProperties := {}) : YamlNode := .scalar properties true []

end YamlNode

/-- Handles for tags and what they stand for. -/
abbrev TagHandles := List (List Char × List Char)

/-- The handles that need no directive. -/
def standardHandles : TagHandles :=
  [(['!'], ['!']), (['!', '!'], "tag:yaml.org,2002:".toList)]

/-- The tag in full. -/
def fullTag? (handles : TagHandles) (handle suffix : List Char) : Option (List Char) :=
  if handle.isEmpty then some suffix else (handles.lookup handle).map (· ++ suffix)

/-- What stands at the start of some tokens, and the tokens behind. -/
abbrev YamlReader (α : Type) := List YamlToken → Option (α × List YamlToken)

/-- The anchor and the tag in front of a node, in either order. -/
def properties? (handles : TagHandles) : YamlReader NodeProperties
  | .anchor name :: .tag handle suffix :: ts =>
    (fullTag? handles handle suffix).map fun tag => (⟨some name, some tag⟩, ts)
  | .tag handle suffix :: .anchor name :: ts =>
    (fullTag? handles handle suffix).map fun tag => (⟨some name, some tag⟩, ts)
  | .anchor name :: ts => some (⟨some name, none⟩, ts)
  | .tag handle suffix :: ts =>
    (fullTag? handles handle suffix).map fun tag => (⟨none, some tag⟩, ts)
  | ts => some ({}, ts)

/-- A node unless one of the tokens `stops` comes next, where it is missing. -/
def nodeUnless? (node : YamlReader YamlNode) (stops : List YamlToken) :
    YamlReader YamlNode := fun ts =>
  if ts.head?.any (stops.contains ·) then some (.missing, ts) else node ts

/-- The value behind a key; it is missing without a colon. -/
def valueUnless? (node : YamlReader YamlNode) (stops : List YamlToken) : YamlReader YamlNode
  | .value :: ts => nodeUnless? node stops ts
  | ts => some (.missing, ts)

/-- The items of a block. -/
def blockItems? (node : YamlReader YamlNode) : Nat → YamlReader (List YamlNode)
  | 0, _ => none
  | fuel + 1, .item :: ts => do
    let (item, ts) ← nodeUnless? node [.item, .blockEnd] ts
    return ((← blockItems? node fuel ts).map (item :: ·) id)
  | _, .blockEnd :: ts => some ([], ts)
  | _, _ => none

/-- The items of a list that is indented like the map around it. -/
def flushItems? (node : YamlReader YamlNode) : Nat → YamlReader (List YamlNode)
  | 0, _ => none
  | fuel + 1, .item :: ts => do
    let (item, ts) ← nodeUnless? node [.item, .key, .value, .blockEnd] ts
    return ((← flushItems? node fuel ts).map (item :: ·) id)
  | _, ts => some ([], ts)

/-- The entries of a block; nodes in it may be lists that are not indented. -/
def blockEntries? (node : YamlReader YamlNode) : Nat → YamlReader (List (YamlNode × YamlNode))
  | 0, _ => none
  | fuel + 1, .key :: ts => do
    let stops := [.key, .value, .blockEnd]
    let (key, ts) ← nodeUnless? node stops ts
    let (value, ts) ← valueUnless? node stops ts
    return ((← blockEntries? node fuel ts).map ((key, value) :: ·) id)
  | _, .blockEnd :: ts => some ([], ts)
  | _, _ => none

/-- An item between brackets; a key makes it a map with one entry. -/
def flowItem? (node : YamlReader YamlNode) : YamlReader YamlNode
  | .key :: ts => do
    let (key, ts) ← nodeUnless? node [.value, .comma, .closeList] ts
    let (value, ts) ← valueUnless? node [.comma, .closeList] ts
    return (.map {} [(key, value)], ts)
  | ts => node ts

/-- The items between brackets, behind the opening one or a comma. -/
def flowItems? (node : YamlReader YamlNode) : Nat → YamlReader (List YamlNode)
  | 0, _ => none
  | _, .closeList :: ts => some ([], ts)
  | fuel + 1, ts => do
    let (item, ts) ← flowItem? node ts
    match ts with
    | .comma :: ts => return ((← flowItems? node fuel ts).map (item :: ·) id)
    | .closeList :: ts => return ([item], ts)
    | _ => none

/-- An entry between braces; without a question mark or a colon it has no value. -/
def flowEntry? (node : YamlReader YamlNode) : YamlReader (YamlNode × YamlNode)
  | .key :: ts => do
    let (key, ts) ← nodeUnless? node [.value, .comma, .closeMap] ts
    let (value, ts) ← valueUnless? node [.comma, .closeMap] ts
    return ((key, value), ts)
  | ts => do
    let (key, ts) ← node ts
    return ((key, .missing), ts)

/-- The entries between braces, behind the opening one or a comma. -/
def flowEntries? (node : YamlReader YamlNode) : Nat → YamlReader (List (YamlNode × YamlNode))
  | 0, _ => none
  | _, .closeMap :: ts => some ([], ts)
  | fuel + 1, ts => do
    let (entry, ts) ← flowEntry? node ts
    match ts with
    | .comma :: ts => return ((← flowEntries? node fuel ts).map (entry :: ·) id)
    | .closeMap :: ts => return ([entry], ts)
    | _ => none

/-- Where a node stands. -/
inductive NodePlace where
  /-- Between brackets: there are no blocks. -/
  | flow
  /-- In a block. -/
  | block
  /-- In a map of a block: lists need not be indented. -/
  | entry
  deriving DecidableEq, Repr

/-- A node whose lists and maps nest no deeper than `depth`. -/
def yamlNode? (handles : TagHandles) : Nat → NodePlace → YamlReader YamlNode
  | _, _, .alias name :: ts => some (.alias name, ts)
  | 0, _, _ => none
  | depth + 1, place, ts => do
    let (properties, ts) ← properties? handles ts
    let inner := fun place => yamlNode? handles depth place
    let fuel := ts.length + 1
    match ts with
    | .scalar plain text :: ts => return (.scalar properties plain text, ts)
    | .openList :: ts => return (← flowItems? (inner .flow) fuel ts).map (.list properties) id
    | .openMap :: ts => return (← flowEntries? (inner .flow) fuel ts).map (.map properties) id
    | .item :: _ =>
      if place = .entry then return (← flushItems? (inner .block) fuel ts).map (.list properties) id
      else if properties = {} then none
      else return (.missing properties, ts)
    | .blockList :: rest =>
      if place = .flow then none
      else return (← blockItems? (inner .block) fuel rest).map (.list properties) id
    | .blockMap :: rest =>
      if place = .flow then none
      else return (← blockEntries? (inner .entry) fuel rest).map (.map properties) id
    | _ => if properties = {} then none else return (.missing properties, ts)

/-! ## Documents -/

/-- Directives: the handles that they tell, and the tokens behind. A version is told once, and so is
a handle. -/
def directives? : Bool → TagHandles → YamlReader TagHandles
  | versioned, told, .version major minor :: ts =>
    if versioned || major != 1 || (minor != 1 && minor != 2) then none else directives? true told ts
  | versioned, told, .handle name start :: ts =>
    if (told.lookup name).isSome then none else directives? versioned ((name, start) :: told) ts
  | _, told, ts => some (told, ts)

/-- A node that takes up a whole document. -/
def rootNode? (handles : TagHandles) : YamlReader YamlNode :=
  yamlNode? handles (yamlNesting + 1) .block

/-- Whether a token stands outside of the contents of documents. -/
def YamlToken.isOutside : YamlToken → Bool
  | .version .. => true
  | .handle .. => true
  | .documentStart => true
  | .documentEnd => true
  | .streamEnd => true
  | _ => false

/-- The content of a document behind its mark; it may be missing. -/
def yamlContent? (handles : TagHandles) : YamlReader YamlNode := fun ts =>
  if ts.head?.any YamlToken.isOutside then some (.missing, ts) else rootNode? handles ts

/-- The first document of some tokens, without a node when there is none, and the tokens behind. -/
def firstDocument? (ts : List YamlToken) : Option (Option YamlNode × List YamlToken) := do
  let (told, rest) ← directives? false [] ts
  let handles := told ++ standardHandles
  match rest with
  | .documentStart :: rest => (yamlContent? handles rest).map fun (node, ts) => (some node, ts)
  | rest =>
    if rest.length < ts.length then none
    else if ts == [.streamEnd] then return (none, ts)
    else (rootNode? handles ts).map fun (node, ts) => (some node, ts)

/-- The only document of some tokens, without a node when there is none. -/
def yamlDocument? (ts : List YamlToken) : Option (Option YamlNode) := do
  let (node, ts) ← firstDocument? ts
  guard (ts.dropWhile (· == .documentEnd) == [.streamEnd])
  return node

end Stencil.Data
