import Stencil.Data.Yaml.Node
import Stencil.Number.Reading
import Stencil.Text.Search
import Stencil.Value.Order

/-!
# Reading YAML

A plain text stands for nothing, a truth, an integer, a float, or itself, by the way it is written;
a tag may say which of them it has to be. A float that is not a finite number becomes null. Keys are
texts, however they are written, and of equal keys the last one counts.
-/

namespace Stencil.Data

open Number Text

/-! ## Plain texts -/

/-- Null, by its spellings. -/
def yamlNull? (text : String) : Option Value :=
  if ["null", "Null", "NULL", "~"].contains text then some .null else none

/-- A truth, by its spellings. -/
def yamlBool? (text : String) : Option Value :=
  if ["true", "True", "TRUE"].contains text then some (.bool true)
  else if ["false", "False", "FALSE"].contains text then some (.bool false)
  else none

/-- Whether digits start with a zero too many: such a text is no number. -/
def hasSpareZero (cs : List Char) : Bool :=
  let digits := (sign cs).2
  digits.length > 1 && digits.head? == some '0' && digits.all isDigit

/-- The number written in digits of a base. -/
def yamlDigits? (base : Nat) (cs : List Char) : Option Nat :=
  if cs.isEmpty then none
  else
    cs.foldlM (fun n c => do
      let digit ← hexDigit? c
      guard (digit < base)
      return n * base + digit) 0

/-- The integer without sign of a text. -/
def yamlNatural? (cs : List Char) : Option Nat :=
  match cs with
  | '0' :: 'x' :: digits => yamlDigits? 16 digits
  | '0' :: 'o' :: digits => yamlDigits? 8 digits
  | '0' :: 'b' :: digits => yamlDigits? 2 digits
  | _ => if hasSpareZero cs then none else yamlDigits? 10 cs

/-- The integer of a text, of at most 128 bits. -/
def yamlInteger? (cs : List Char) : Option Int := do
  let (negative, digits) := sign cs
  let n : Int ← yamlNatural? digits
  let n := if negative then -n else n
  guard (fitsSigned 128 n || fitsUnsigned 128 n)
  return n

/-- The float of a text, or null when it is not finite. -/
def yamlFloat? (cs : List Char) : Option Value :=
  let (negative, size) := sign cs
  if [".inf", ".Inf", ".INF"].contains (.ofList size) then some .null
  else if [".nan", ".NaN", ".NAN"].contains (.ofList cs) then some .null
  else if (sign size).2 != size then none
  else do
    let x ← readFloat? size
    guard x.isFinite
    return .float (if negative then -x else x)

/-- An integer as a value: more than 64 bits are refused. -/
def integerValue? (n : Int) : Option Value :=
  if fitsSigned 64 n || fitsUnsigned 64 n then some (.int n) else none

/-- The value of a plain text without a tag. -/
def plainValue? (cs : List Char) : Option Value :=
  let text := String.ofList cs
  if cs.isEmpty then some .null
  else
    match (yamlNull? text).or (yamlBool? text) with
    | some v => some v
    | none =>
      match yamlInteger? cs with
      | some n => integerValue? n
      | none =>
        if hasSpareZero cs then some (.str text) else some ((yamlFloat? cs).getD (.str text))

/-! ## Tags -/

/-- The name behind the start that the standard tags have in common. -/
def standardTag? (tag : List Char) : Option String :=
  (after? "tag:yaml.org,2002:".toList tag).map .ofList

/-- Whether a tag belongs to an application; such tags are not known. -/
def isOwnTag (tag : Option (List Char)) : Bool :=
  match tag with
  | some ('!' :: _ :: _) => true
  | _ => false

/-- The value of a text with a tag. -/
def taggedValue? (tag cs : List Char) : Option Value :=
  let text := String.ofList cs
  match standardTag? tag with
  | some "null" => yamlNull? text
  | some "bool" => yamlBool? text
  | some "int" => (yamlInteger? cs).bind integerValue?
  | some "float" => yamlFloat? cs
  | _ => some (.str text)

/-- The value of a text. -/
def scalarNode? (properties : NodeProperties) (plain : Bool) (cs : List Char) : Option Value :=
  match properties.tag with
  | some tag => taggedValue? tag cs
  | none => if plain then plainValue? cs else some (.str (.ofList cs))

/-! ## Nodes -/

/-- What an anchor stands for: the value of its node, and its text when it can be a key. -/
structure Anchored where
  value : Value
  text : Option String
  deriving Inhabited

/-- The anchors of a document so far, latest first. -/
abbrev Anchors := List (List Char × Anchored)

/-- The anchors with that of a node whose inner anchors were added to `before`. -/
def Anchors.note (properties : NodeProperties) (a : Anchored) (before after : Anchors) : Anchors :=
  match properties.anchor with
  | none => after
  | some name => after.take (after.length - before.length) ++ (name, a) :: before

mutual

/-- The meaning of a node, and the anchors behind it. -/
def YamlNode.read? : YamlNode → Anchors → Option (Anchored × Anchors)
  | .alias name, anchors => (anchors.lookup name).map fun a => (a, anchors)
  | .scalar properties plain cs, anchors => do
    guard (!isOwnTag properties.tag)
    let v ← scalarNode? properties plain cs
    let a : Anchored := ⟨v, some (.ofList cs)⟩
    return (a, anchors.note properties a anchors)
  | .list properties items, anchors => do
    guard (!isOwnTag properties.tag)
    let (items, after) ← readItems? items anchors
    let a : Anchored := ⟨.seq items, none⟩
    return (a, anchors.note properties a after)
  | .map properties entries, anchors => do
    guard (!isOwnTag properties.tag)
    let (entries, after) ← readEntries? entries anchors
    let a : Anchored := ⟨.ofEntries entries, none⟩
    return (a, anchors.note properties a after)

/-- The values of some items, and the anchors behind them. -/
def readItems? : List YamlNode → Anchors → Option (List Value × Anchors)
  | [], anchors => some ([], anchors)
  | item :: items, anchors => do
    let (a, anchors) ← item.read? anchors
    let (vs, anchors) ← readItems? items anchors
    return (a.value :: vs, anchors)

/-- The entries of a map, and the anchors behind them. -/
def readEntries? : List (YamlNode × YamlNode) → Anchors → Option (List (Value × Value) × Anchors)
  | [], anchors => some ([], anchors)
  | (key, value) :: entries, anchors => do
    let (k, anchors) ← readKey? key anchors
    let (a, anchors) ← value.read? anchors
    let (rest, anchors) ← readEntries? entries anchors
    return ((.str k, a.value) :: rest, anchors)

/-- The text of a key, and the anchors behind it. -/
def readKey? : YamlNode → Anchors → Option (String × Anchors)
  | .alias name, anchors => do
    let a ← anchors.lookup name
    return (← a.text, anchors)
  | .scalar properties plain cs, anchors =>
    let text := String.ofList cs
    let v := (scalarNode? properties plain cs).getD (.str text)
    some (text, anchors.note properties ⟨v, some text⟩ anchors)
  | _, _ => none

end

/-- The value of a YAML document; null when there is no document. -/
def readYaml? (text : String) : Option Value := do
  match ← yamlDocument? (← yamlTokens? (dropByteOrderMark text.toList)) with
  | none => return .null
  | some node => return (← node.read? []).1.value

end Stencil.Data
