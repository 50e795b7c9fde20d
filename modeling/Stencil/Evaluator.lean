import Stencil.Expression.Evaluate
import Stencil.Expression.Reader

/-!
# Evaluators

Templates know expressions only as texts. An evaluator checks such a text and computes its value
from the variables around it; `Evaluator.standard` does so for the expression language.

Names in templates may hold dollar signs, which the expression language does not know. `hideDollars`
writes them as `__dollar_`, and `templateName` reads a name back.
-/

namespace Stencil

open Text

/-- What gives templates the values of their expressions. -/
structure Evaluator where
  /-- Refuse a text that is no expression, with the reason. -/
  check : String → Except String Unit
  /-- The value of an expression, given the values of variables. -/
  evaluate : String → (String → Option Value) → Except String Value

/-- How a dollar sign at the start of a name is written in expressions. -/
def dollarSign : List Char := "__dollar_".toList

/-- What the scan for dollar signs has seen. -/
structure DollarScan where
  /-- The quote that is open. -/
  quote : Option Char := none
  /-- Whether the next character is taken literally. -/
  escaped : Bool := false
  /-- Whether a name could go on here. -/
  inName : Bool := false

/-- Move over one character. -/
def DollarScan.step (s : DollarScan) (c : Char) : DollarScan :=
  let inName := isAlphanumeric c || c == '_'
  match s.quote with
  | some mark =>
    if s.escaped then { s with escaped := false, inName }
    else if c == '\\' then { s with escaped := true, inName }
    else if c == mark then { s with quote := none, inName }
    else { s with inName }
  | none => if c == '"' || c == '\'' then { s with quote := some c, inName } else { s with inName }

/-- The text with every dollar sign outside of quotes that starts a name written out. -/
def hideDollarsFrom : DollarScan → List Char → List Char
  | _, [] => []
  | s, c :: cs =>
    let rest := hideDollarsFrom (s.step c) cs
    if c == '$' && s.quote.isNone && !s.inName then dollarSign ++ rest else c :: rest

/-- An expression of a template in the expression language. -/
def hideDollars (expression : String) : String := .ofList (hideDollarsFrom {} expression.toList)

/-- The name in the template of a name in the expression language. -/
def templateName (name : String) : String :=
  match after? dollarSign name.toList with
  | some rest => .ofList ('$' :: rest)
  | none => name

namespace Expression

/-- The expression that a text in a template holds. -/
def ofTemplate (text : String) : Except ExpressionFault Expression := read (hideDollars text)

/-- The names in the template that evaluating an expression may look up. -/
def templateNames (e : Expression) : NameSet :=
  .ofList (e.freeNames.toList.map templateName)

/-- The value of an expression of a template. Only the names in `freeNames` are looked up. -/
def evaluateIn (lookup : String → Option Value) (e : Expression) : Except ExpressionFault Value :=
  let known := e.freeNames
  e.evaluate fun name => if name ∈ known then lookup (templateName name) else none

end Expression

/-- The evaluator of the expression language. -/
def Evaluator.standard : Evaluator where
  check text := (Expression.ofTemplate text).map (fun _ => ()) |>.mapError ExpressionFault.describe
  evaluate text lookup :=
    (Expression.ofTemplate text >>= Expression.evaluateIn lookup).mapError ExpressionFault.describe

end Stencil
