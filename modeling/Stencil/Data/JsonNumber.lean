import Stencil.Number.Reading
import Stencil.Value.Basic

/-!
# Numbers in JSON

A number without fraction and exponent that fits into 64 bits is an integer. Any other number is a
float, computed from its leading digits and a power of ten with one rounding for each: digits that
do not fit into 64 bits any more only move the point.
-/

namespace Stencil.Data

open Number

/-- The digits of a number and the place of its point: `digits * 10 ^ exponent`. -/
structure Scaled where
  digits : Nat
  exponent : Int := 0
  /-- Whether a digit did not fit any more. -/
  full : Bool := false
  deriving DecidableEq, Repr

namespace Scaled

/-- Append a digit, unless 64 bits are too few for it. -/
def push (s : Scaled) (c : Char) : Scaled :=
  let next := s.digits * 10 + (c.toNat - '0'.toNat)
  if s.full || next ≥ twoTo 64 then { s with full := true } else { s with digits := next }

/-- Append a digit in front of the point. -/
def pushWhole (s : Scaled) (c : Char) : Scaled :=
  let next := s.push c
  if next.full then { next with exponent := next.exponent + 1 } else next

/-- Append a digit behind the point. -/
def pushFraction (s : Scaled) (c : Char) : Scaled :=
  let next := s.push c
  if next.full then next else { next with exponent := next.exponent - 1 }

/-- The float of the size, unless it is too large. -/
def toFloat? (s : Scaled) : Option Float :=
  let size := Float.ofNat s.digits
  let down := (-s.exponent).toNat
  if s.digits == 0 then some 0.0
  else if 0 ≤ s.exponent then
    let x := size * nearest 1 s.exponent
    if s.exponent > 308 || x.isInf then none else some x
  else if down ≤ 308 then some (size / nearest 1 down)
  else if down ≤ 616 then some (size / nearest 1 308 / nearest 1 (down - 308 : Nat))
  else some 0.0

end Scaled

/-- The exponent at the start of a text. -/
def jsonExponent? (cs : List Char) : Option (Int × List Char) :=
  let (negative, cs) := sign cs
  let (digits, rest) := cs.span isDigit
  if digits.isEmpty then none
  else
    let n : Int := ofDigits digits
    some (if negative then -n else n, rest)

/-- The integer or float of a number without fraction and exponent. -/
def wholeNumber? (negative : Bool) (s : Scaled) : Option Value :=
  if s.full then s.toFloat?.map fun x => .float (if negative then -x else x)
  else if !negative then some (.int s.digits)
  else if s.digits == 0 || s.digits > twoTo 63 then some (.float (-Float.ofNat s.digits))
  else some (.int (-(s.digits : Int)))

/-- The number at the start of a text, and the rest. -/
def jsonNumber? (cs : List Char) : Option (Value × List Char) := do
  let (negative, cs) := match cs with
    | '-' :: rest => (true, rest)
    | _ => (false, cs)
  let (whole, rest) := cs.span isDigit
  guard (!whole.isEmpty && (whole.length == 1 || whole.head? != some '0'))
  let s := whole.foldl Scaled.pushWhole ⟨0, 0, false⟩
  let (s, rest, hasFraction) ← match rest with
    | '.' :: rest =>
      let (fraction, rest) := rest.span isDigit
      if fraction.isEmpty then none
      else some (fraction.foldl Scaled.pushFraction s, rest, true)
    | _ => some (s, rest, false)
  let (exponent, rest, hasExponent) ← match rest with
    | c :: more =>
      if c == 'e' || c == 'E' then
        (jsonExponent? more).map fun (exponent, rest) => (exponent, rest, true)
      else some (0, rest, false)
    | [] => some (0, rest, false)
  if hasFraction || hasExponent then
    let x ← { s with exponent := s.exponent + exponent }.toFloat?
    return (.float (if negative then -x else x), rest)
  else return (← wholeNumber? negative s, rest)

end Stencil.Data
