import Stencil.Number.Binary

/-!
# The shortest decimal of a float

The shortest decimal that reads back as a float is the one with the fewest digits among those that
round to it, and of these the nearest. `shortest` looks for it on the grids of one, two, … seventeen
digits: on each grid only the two neighbours of the float can be the nearest points.

* `positional` writes it without an exponent, with a point only where digits follow it.
* `plain` adds `.0` to a whole number, so that the text shows a float.
* `general` switches to an exponent for very large and very small floats.
-/

namespace Stencil.Number

/-- A decimal: `digits * 10 ^ exponent`. -/
structure Decimal where
  digits : Nat
  exponent : Int
  deriving DecidableEq, Repr

/-- A rational interval around a value, all with the denominator `unit`. -/
structure Rounding where
  value : Nat
  low : Nat
  high : Nat
  unit : Nat
  /-- Whether the ends belong to the interval. -/
  closed : Bool

/-- The values that round to `mantissa * 2 ^ exponent`. -/
def rounding (mantissa : Nat) (exponent : Int) : Rounding :=
  let below := if mantissa == twoTo 52 && exponent > -1074 then 1 else 2
  let shift := exponent - 2
  let scale := twoTo shift.toNat
  { value := 4 * mantissa * scale
    low := (4 * mantissa - below) * scale
    high := (4 * mantissa + 2) * scale
    unit := twoTo (-shift).toNat
    closed := mantissa % 2 == 0 }

/-- Whether `digits * 10 ^ exponent` lies in the interval. -/
def Rounding.holds (r : Rounding) (d : Decimal) : Bool :=
  let point := d.digits * tenTo d.exponent.toNat * r.unit
  let scale := tenTo (-d.exponent).toNat
  if r.closed then r.low * scale ≤ point && point ≤ r.high * scale
  else r.low * scale < point && point < r.high * scale

/-- How often a value below one can be multiplied by ten and stay below one, from `n` on. -/
def Rounding.zeros (r : Rounding) : Nat → Nat → Nat
  | 0, n => n
  | fuel + 1, n => if r.unit ≤ r.value * tenTo (n + 1) then n else r.zeros fuel (n + 1)

/-- How many digits the integer part of the value has; below one, less the zeros behind the point.
-/
def Rounding.magnitude (r : Rounding) : Int :=
  if r.unit ≤ r.value then (Nat.toDigits 10 (r.value / r.unit)).length
  else 0 - (r.zeros 400 0 : Int)

/-- The nearest point to the value on the grid of multiples of `10 ^ exponent`, if it lies in the
interval; failing that, the other neighbour. -/
def Rounding.onGrid? (r : Rounding) (exponent : Int) : Option Decimal :=
  let value := r.value * tenTo (-exponent).toNat
  let unit := r.unit * tenTo exponent.toNat
  let floor := value / unit
  let (near, far) :=
    if 2 * (value % unit) < unit then (floor, floor + 1) else (floor + 1, floor)
  if r.holds ⟨near, exponent⟩ then some ⟨near, exponent⟩
  else if r.holds ⟨far, exponent⟩ then some ⟨far, exponent⟩
  else none

/-- The shortest decimal of a positive finite float. -/
def shortest (mantissa : Nat) (exponent : Int) : Decimal :=
  let r := rounding mantissa exponent
  let magnitude := r.magnitude
  let hit := (List.range 17).findSome? fun n : Nat => r.onGrid? (magnitude - (n + 1))
  hit.getD ⟨mantissa, exponent⟩

/-- Move up to `fuel` trailing zeros of the digits into the exponent. -/
def Decimal.reduceBy : Nat → Decimal → Decimal
  | 0, d => d
  | fuel + 1, d =>
    if d.digits != 0 && d.digits % 10 == 0 then reduceBy fuel ⟨d.digits / 10, d.exponent + 1⟩ else d

/-- The decimal without trailing zeros among its digits. -/
def Decimal.reduced (d : Decimal) : Decimal := reduceBy 20 d

/-- The decimal without an exponent. -/
def Decimal.positional (d : Decimal) : String :=
  let digits := Nat.toDigits 10 d.digits
  if 0 ≤ d.exponent then
    .ofList (digits ++ List.replicate d.exponent.toNat '0')
  else
    let places := (-d.exponent).toNat
    let digits := List.replicate (places + 1 - digits.length) '0' ++ digits
    let whole := digits.take (digits.length - places)
    .ofList (whole ++ '.' :: digits.drop (digits.length - places))

/-- The decimal with one digit before the point and an exponent. -/
def Decimal.scientific (d : Decimal) : String :=
  match Nat.toDigits 10 d.digits with
  | [] => ""
  | first :: rest =>
    let exponent := d.exponent + rest.length
    let tail := if rest.isEmpty then [] else '.' :: rest
    .ofList (first :: tail) ++ "e" ++ toString exponent

/-- The text of a float, given how its size is written. -/
def floatText (write : Decimal → String) (x : Float) : String :=
  match decode x with
  | .nan => "NaN"
  | .infinite negative => if negative then "-inf" else "inf"
  | .finite negative mantissa exponent =>
    let d := if mantissa == 0 then ⟨0, 0⟩ else (shortest mantissa exponent).reduced
    (if negative then "-" else "") ++ write d

/-- The decimal with a point, also when it is whole. -/
def Decimal.pointed (d : Decimal) : String :=
  if 0 ≤ d.exponent then d.positional ++ ".0" else d.positional

/-- A float without an exponent, with `.0` behind a whole number. -/
def plain (x : Float) : String := floatText Decimal.pointed x

/-- A float with an exponent from `1e16` up and below `1e-4`. -/
def general (x : Float) : String :=
  floatText (fun d =>
    let magnitude := d.exponent + (Nat.toDigits 10 d.digits).length
    if d.digits != 0 && (magnitude > 16 || magnitude < -3) then d.scientific else d.pointed) x

end Stencil.Number
