import Stencil.Number.Reading
import Stencil.Text.Blank
import Stencil.Value.Show

/-!
# Values as numbers

Filters and ranges read their operands as numbers, also when they are written as text. What is
computed becomes an integer again as long as a float holds all integers up to its size.
-/

namespace Stencil.Value

/-- The largest integer below which a float holds every integer. -/
def maxSafe : Int := 9007199254740991

/-- Why a value is not the number it should be. -/
inductive NumberFault where
  | notNumber (shown : String)
  | notInteger (shown : String)
  deriving DecidableEq, Repr

/-- The fault in words. -/
def NumberFault.describe : NumberFault → String
  | notNumber shown => "`" ++ shown ++ "` is not a number"
  | notInteger shown => "`" ++ shown ++ "` is not an integer"

/-- The value as a float: a number, or a text that writes one. -/
def number : Value → Except NumberFault Float
  | str s =>
    match Number.readFloat? (Text.trim s.toList) with
    | some x => .ok x
    | none => .error (.notNumber s)
  | int n => .ok (Float.ofInt n)
  | float x => .ok x
  | v => .error (.notNumber v.render)

/-- The integer equal to a float that holds all integers up to its size. -/
def safeInteger? (x : Float) : Option Int :=
  match Number.integer? x with
  | some n => if n.natAbs ≤ maxSafe.natAbs then some n else none
  | none => none

/-- The value as an integer: an integer, a whole float, or a text that writes one. -/
def integer (v : Value) : Except NumberFault Int :=
  match v.int64? with
  | some n => .ok n
  | none => do
    let x ← v.number
    match safeInteger? x with
    | some n => .ok n
    | none => .error (.notInteger v.render)

/-- The number as a value, an integer where nothing is lost by it. -/
def ofNumber (x : Float) : Value :=
  match safeInteger? x with
  | some n => .int n
  | none => .float x

/-- Whether a value counts as nothing where a default is at hand. -/
def isBlank : Value → Bool
  | undefined => true
  | null => true
  | bool b => !b
  | str s => s.isEmpty
  | _ => false

end Stencil.Value
