import Stencil.Config.Basic
import Stencil.Data.Yaml.Read

/-!
# Bindings from data files

Every namespace of a configuration is bound to what its data file holds. A file is plain text, JSON,
TOML or YAML.
-/

namespace Stencil.Config

/-- The formats of data files. -/
inductive DataFormat where
  | text
  | json
  | toml
  | yaml
  deriving DecidableEq, Repr

namespace DataFormat

/-- The format of a name. -/
def ofName? (name : String) : Option DataFormat :=
  match name with
  | "text" => some text
  | "txt" => some text
  | "json" => some json
  | "toml" => some toml
  | "yaml" => some yaml
  | "yml" => some yaml
  | _ => none

end DataFormat

mutual

/-- A value of a TOML document as data: integers have 64 bits, and a float that is not finite is
null. -/
def tomlData? : Value → Option Value
  | .int n => if Number.fitsSigned 64 n then some (.int n) else none
  | .float x => some (if x.isFinite then .float x else .null)
  | .seq items => (tomlItems? items).map Value.seq
  | .map entries => (tomlEntries? entries).map Value.map
  | v => some v

/-- Items of a TOML list as data. -/
def tomlItems? : List Value → Option (List Value)
  | [] => some []
  | v :: vs => do return (← tomlData? v) :: (← tomlItems? vs)

/-- Entries of a TOML table as data. -/
def tomlEntries? : List (Value × Value) → Option (List (Value × Value))
  | [] => some []
  | (key, v) :: rest => do return (key, ← tomlData? v) :: (← tomlEntries? rest)

end

/-- What a text in a format holds. -/
def DataFormat.read? (format : DataFormat) (text : String) : Option Value :=
  match format with
  | .text => some (.str text)
  | .json => Data.readJson? text
  | .toml => Data.readToml? text >>= tomlData?
  | .yaml => Data.readYaml? text

/-- What the data file of a source holds. -/
def loadSource (f : Folder) (d : DataSource) : Except Error Value := do
  let path := d.path.text
  let text ← (f.read d.path).mapError fun fault =>
    ⟨.dataFile path (.unreadable fault.describe), none⟩
  match DataFormat.ofName? d.formatName with
  | none => throw ⟨.unsupportedFormat d.formatName, none⟩
  | some format =>
    match format.read? text with
    | some v => return v
    | none => throw ⟨.dataFile path (.malformed d.formatName), none⟩

/-- What the data files hold, by namespaces. -/
def loadData (c : Config) (f : Folder) : Except Error (List (String × Value)) :=
  c.data.mapM fun (name, source) => do return (name, ← loadSource f source)

/-- The bindings of some namespaces. -/
def bindings (data : List (String × Value)) : Value :=
  .ofEntries (data.map fun (name, v) => (.str name, v))

end Stencil.Config
