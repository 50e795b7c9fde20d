import Stencil.Number.Shortest
import Stencil.Text.Quoted
import Stencil.Text.Search
import Stencil.Value.Basic

/-!
# Values as text

A value is written in three ways.

* `inner`: inside a list or a map, where texts are quoted.
* `display`: on its own, where a text is written as it is and a missing value as nothing.
* `render`: in the output of a template, where a missing value is named, a whole float has no
  fraction, and the items of a list are joined with commas.
-/

namespace Stencil.Value

/-- A boolean as text. -/
def boolText (b : Bool) : String := if b then "True" else "False"

mutual

/-- A value inside of another. -/
def inner : Value → String
  | undefined => "undefined"
  | null => "None"
  | bool b => boolText b
  | int n => toString n
  | float x => Number.general x
  | str s => Text.quote s
  | seq items => "[" ++ Text.join ", " (innerAll items) ++ "]"
  | iter items => "[" ++ Text.join ", " (innerAll items) ++ "]"
  | map entries => "\x7b" ++ Text.join ", " (innerEntries entries) ++ "\x7d"
termination_by structural v => v

/-- The items of a list. -/
def innerAll : List Value → List String
  | [] => []
  | v :: vs => inner v :: innerAll vs
termination_by structural vs => vs

/-- The entries of a map. -/
def innerEntries : List (Value × Value) → List String
  | [] => []
  | (k, v) :: es => (inner k ++ ": " ++ inner v) :: innerEntries es
termination_by structural es => es

end

/-- A value on its own. -/
def display : Value → String
  | undefined => ""
  | float x => Number.plain x
  | str s => s
  | v => inner v

/-- A number in the output, where a whole float has no fraction. -/
def renderFloat (x : Float) : String :=
  let shown := (Number.plain x).toList
  match shown.reverse with
  | '0' :: '.' :: rest => .ofList rest.reverse
  | _ => .ofList shown

mutual

/-- A value in the output of a template. -/
def render : Value → String
  | undefined => "undefined"
  | null => "null"
  | float x => renderFloat x
  | seq items => Text.join "," (renderAll items)
  | bool b => display (bool b)
  | int n => display (int n)
  | str s => s
  | iter items => display (iter items)
  | map entries => display (map entries)
termination_by structural v => v

/-- The items of a list in the output. -/
def renderAll : List Value → List String
  | [] => []
  | v :: vs => render v :: renderAll vs
termination_by structural vs => vs

end

/-- The text a value stands for: a text itself, anything else as in the output. -/
def text (v : Value) : String := v.render

end Stencil.Value
