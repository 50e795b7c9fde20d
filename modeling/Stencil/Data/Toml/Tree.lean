import Stencil.Value.Order

/-!
# Trees of TOML tables

The statements of a document are put into a tree one after the other. A header opens a table at a
path, a pair sets a value in the table opened last. A table remembers how it came to be, because
that decides what may still be added to it:

* a table opened by a header is opened once;
* a table that is only passed through by a header may be opened later;
* a table made by a dotted key grows by dotted keys alone;
* an inline table and a list are values, and values are closed.
-/

namespace Stencil.Data

/-- How a table came to be. -/
inductive TableOrigin where
  /-- A header opened it, or it is the document. -/
  | header
  /-- A header passed through it. -/
  | passed
  /-- A dotted key made it. -/
  | dotted
  deriving DecidableEq, Repr

/-- What a key stands for. -/
inductive TomlNode where
  | value (v : Value)
  | table (origin : TableOrigin) (entries : List (String × TomlNode))
  /-- Tables opened by headers in double brackets; only the last one grows. -/
  | tables (items : List (List (String × TomlNode)))
  deriving Inhabited

/-- The entries of a table. -/
abbrev TomlEntries := List (String × TomlNode)

/-- The entries with the node under a key set. -/
def setNode (key : String) (node : TomlNode) : TomlEntries → TomlEntries
  | [] => [(key, node)]
  | (k, n) :: rest => if k == key then (key, node) :: rest else (k, n) :: setNode key node rest

/-- Change the table at a path, and make the tables on the way that are not there. A table opened by
a header is closed to dotted keys. -/
def changeAt (made : TableOrigin) (change : TableOrigin → TomlEntries → Option TomlEntries) :
    List String → TableOrigin → TomlEntries → Option TomlEntries
  | [], origin, entries => change origin entries
  | key :: path, _, entries =>
    match entries.lookup key with
    | none => do
      let inner ← changeAt made change path made []
      return setNode key (.table made inner) entries
    | some (.table origin inner) =>
      if made = .dotted ∧ origin = .header then none
      else do
        let inner ← changeAt made change path origin inner
        return setNode key (.table origin inner) entries
    | some (.tables items) => do
      let inner ← changeAt made change path .header (items.getLastD [])
      return setNode key (.tables (items.dropLast ++ [inner])) entries
    | some (.value _) => none

/-- Set a value that is not there yet. -/
def addValue (key : String) (v : Value) (entries : TomlEntries) : Option TomlEntries :=
  if (entries.lookup key).isSome then none else some (setNode key (.value v) entries)

/-- Set the value of a dotted key. -/
def addPair (path : List String) (key : String) (v : Value) :
    TableOrigin → TomlEntries → Option TomlEntries :=
  changeAt .dotted (fun origin entries =>
    if decide (origin = .dotted) == path.isEmpty then none else addValue key v entries) path

/-- Open the table under a key. -/
def openTable (key : String) (entries : TomlEntries) : Option TomlEntries :=
  match entries.lookup key with
  | none => some (setNode key (.table .header []) entries)
  | some (.table .passed inner) => some (setNode key (.table .header inner) entries)
  | some _ => none

/-- Open one more of the tables under a key. -/
def openItem (key : String) (entries : TomlEntries) : Option TomlEntries :=
  match entries.lookup key with
  | none => some (setNode key (.tables [[]]) entries)
  | some (.tables items) => some (setNode key (.tables (items ++ [[]])) entries)
  | some _ => none

/-- A statement of a document; paths end with the key. -/
inductive TomlStatement where
  | pair (path : List String) (key : String) (v : Value)
  | table (path : List String) (key : String)
  | item (path : List String) (key : String)
  deriving Inhabited

/-- A document in the making: its entries, and the path of the table opened last. -/
structure TomlDocument where
  entries : TomlEntries := []
  current : List String := []
  deriving Inhabited

namespace TomlDocument

/-- The document with one more statement. -/
def add (d : TomlDocument) : TomlStatement → Option TomlDocument
  | .pair path key v => do
    let entries ← changeAt .passed (addPair path key v) d.current .header d.entries
    return { d with entries }
  | .table path key => do
    let entries ← changeAt .passed (fun _ => openTable key) path .header d.entries
    return ⟨entries, path ++ [key]⟩
  | .item path key => do
    let entries ← changeAt .passed (fun _ => openItem key) path .header d.entries
    return ⟨entries, path ++ [key]⟩

end TomlDocument

mutual

/-- The value of a node. -/
def TomlNode.toValue : TomlNode → Value
  | .value v => v
  | .table _ entries => .ofEntries (entryValues entries)
  | .tables items => .seq (itemValues items)

/-- The values of the entries of a table. -/
def entryValues : List (String × TomlNode) → List (Value × Value)
  | [] => []
  | (key, node) :: rest => (.str key, node.toValue) :: entryValues rest

/-- The values of some tables. -/
def itemValues : List (List (String × TomlNode)) → List Value
  | [] => []
  | entries :: rest => .ofEntries (entryValues entries) :: itemValues rest

end

/-- The value of a table. -/
def TomlEntries.toValue (entries : TomlEntries) : Value := .ofEntries (entryValues entries)

end Stencil.Data
