import Stencil.Compilation
import Stencil.Config.Folder
import Stencil.Data.Toml.Document

/-!
# Configurations

A configuration names the template to compile, the directories of its files, some options, and the
data files whose contents become bindings. It is a TOML document in one of a few places of the
project folder; keys that it does not know are passed over.
-/

namespace Stencil

/-- Where the data of a namespace come from. -/
structure DataSource where
  path : Path
  /-- The format, when it is told. -/
  format : Option String := none
  deriving DecidableEq, Repr

namespace DataSource

/-- A text in lower case, as far as it is ASCII. -/
def lowerAscii (s : String) : String := .ofList (s.toList.map Char.toLower)

/-- The name of the format: the one that is told, or the extension of the file. -/
def formatName (d : DataSource) : String :=
  match d.format with
  | some format => lowerAscii (Text.trimmed format)
  | none => lowerAscii (d.path.extension?.getD "")

end DataSource

/-- What a configuration says. -/
structure Config where
  /-- The template. -/
  source : Option Path := none
  /-- The directory that files are named after. -/
  base : Option Path := none
  /-- The directory of the included files. -/
  parts : Option Path := none
  positions : Bool := true
  bundle : Bool := false
  tokenLimit : Nat := defaultTokenLimit
  /-- The sources of the data by their namespaces, in order. -/
  data : List (String × DataSource) := []
  deriving Repr

namespace Config

/-! ## Reading -/

/-- A field that may be missing, read by `read?`. -/
def optional? {α : Type} (entries : List (Value × Value)) (key : String)
    (read? : Value → Option α) : Option (Option α) :=
  match Value.lookupKey? entries (.str key) with
  | none => some none
  | some v => (read? v).map some

/-- A text. -/
def text? : Value → Option String
  | .str s => some s
  | _ => none

/-- A path. -/
def path? (v : Value) : Option Path := (text? v).map Path.mk

/-- A truth. -/
def bool? : Value → Option Bool
  | .bool b => some b
  | _ => none

/-- A count of 64 bits. -/
def limit? : Value → Option Nat
  | .int n => if Number.fitsUnsigned 64 n then some n.toNat else none
  | _ => none

/-- The source of data that a value stands for: a path, or a table with a path and a format. -/
def dataSource? : Value → Option DataSource
  | .str s => some ⟨⟨s⟩, none⟩
  | .map entries => do
    let path ← Value.lookupKey? entries (.str "path")
    let format ← Value.lookupKey? entries (.str "format")
    return ⟨← path? path, some (← text? format)⟩
  | _ => none

/-- The sources of data by their namespaces. -/
def dataSources? : Value → Option (List (String × DataSource))
  | .map entries => entries.mapM fun (name, v) => do
    return (← text? name, ← dataSource? v)
  | _ => none

/-- The configuration that a table stands for. -/
def ofValue? : Value → Option Config
  | .map entries => do
    let positions ← optional? entries "debug_positions" bool?
    let bundle ← optional? entries "inline_runtime" bool?
    let tokenLimit ← optional? entries "token_limit" limit?
    let data ← optional? entries "data" dataSources?
    return {
      source := ← optional? entries "source" path?
      base := ← optional? entries "base_dir" path?
      parts := ← optional? entries "includes_dir" path?
      positions := positions.getD true
      bundle := bundle.getD false
      tokenLimit := tokenLimit.getD defaultTokenLimit
      data := data.getD [] }
  | _ => none

/-- The configuration that a text holds. -/
def read? (text : String) : Option Config := Data.readToml? text >>= ofValue?

/-! ## Finding -/

/-- Where a configuration may be, the first place first. -/
def candidates : List Path := [⟨"weft.toml"⟩, ⟨".weft.toml"⟩, ⟨".config/weft.toml"⟩]

/-- Where the configuration of a folder is. -/
def find? (f : Folder) : Option Path := candidates.find? f.isFile

/-- The configuration of a folder, if it has one. -/
def load (f : Folder) : Except Error (Option Config) :=
  match find? f with
  | none => .ok none
  | some path =>
    match f.read path with
    | .error fault => .error ⟨.unreadable fault.describe, none⟩
    | .ok text =>
      match read? text with
      | some c => .ok (some c)
      | none => .error ⟨.invalidConfig "not a configuration", none⟩

/-! ## Options -/

/-- The options that a configuration of the folder at `root` stands for. The directory of the
included files is the one that files are named after, unless another one is named. -/
def options (c : Config) (root : Path) : CompileOptions :=
  let o : CompileOptions :=
    { positions := c.positions, bundle := c.bundle, tokenLimit := c.tokenLimit }
  match c.source with
  | none => o
  | some source =>
    let base := root.join (c.base.getD ⟨"."⟩)
    { o with
      source := some (root.join source)
      base := some base
      parts := some ((c.parts.map root.join).getD base) }

end Config

end Stencil
