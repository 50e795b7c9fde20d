import Stencil.Number.Width

/-!
# Floating-point numbers as exact values

A 64-bit float is not a number, infinite, or a sign and a natural number times a power of two. What
the hardware does not offer is computed on that exact form: the remainder of a division, the floored
quotient, powers of ten, and the integer a float equals.
-/

namespace Stencil.Number

/-- What a 64-bit float stands for. -/
inductive Binary where
  | nan
  | infinite (negative : Bool)
  /-- `mantissa * 2 ^ exponent`, negated on demand. -/
  | finite (negative : Bool) (mantissa : Nat) (exponent : Int)
  deriving DecidableEq, Repr

/-- The exact value of a float. -/
def decode (x : Float) : Binary :=
  let bits := x.toBits.toNat
  let negative := bits / twoTo 63 == 1
  let exponent : Nat := bits / twoTo 52 % twoTo 11
  let fraction := bits % twoTo 52
  if exponent == twoTo 11 - 1 then
    if fraction == 0 then .infinite negative else .nan
  else if exponent == 0 then .finite negative fraction (-1074)
  else .finite negative (twoTo 52 + fraction) (exponent - 1075)

/-- The float of an exact value whose mantissa has at most 53 bits. -/
def encode (negative : Bool) (mantissa : Nat) (exponent : Int) : Float :=
  let x := (Float.ofNat mantissa).scaleB exponent
  if negative then -x else x

/-- The integer that a float equals. -/
def integer? (x : Float) : Option Int :=
  match decode x with
  | .finite negative mantissa exponent =>
    let size : Option Nat :=
      if 0 ≤ exponent then some (mantissa * twoTo exponent.toNat)
      else
        let unit := twoTo (-exponent).toNat
        if mantissa % unit == 0 then some (mantissa / unit) else none
    size.map fun n => if negative then -(n : Int) else n
  | _ => none

/-- The integer that a float is truncated to, when it is finite. -/
def truncate? (x : Float) : Option Int :=
  match decode x with
  | .finite negative mantissa exponent =>
    let n :=
      if 0 ≤ exponent then mantissa * twoTo exponent.toNat
      else mantissa / twoTo (-exponent).toNat
    some (if negative then -(n : Int) else n)
  | _ => none

/-- The remainder of the truncating division, exact, with the sign of the dividend. -/
def remainder (x y : Float) : Float :=
  match decode x, decode y with
  | .finite negative mx ex, .finite _ my ey =>
    if my == 0 then 0.0 / 0.0
    else
      let unit := min ex ey
      let rest := (mx * twoTo (ex - unit).toNat) % (my * twoTo (ey - unit).toNat)
      encode negative rest unit
  | .finite .., .infinite _ => x
  | _, _ => 0.0 / 0.0

/-- The quotient that leaves a remainder which is not negative. -/
def euclideanQuotient (x y : Float) : Float :=
  let quotient := x / y
  let quotient := if quotient < 0.0 then quotient.ceil else quotient.floor
  if remainder x y < 0.0 then
    if y > 0.0 then quotient - 1.0 else quotient + 1.0
  else quotient

/-- Powers by repeated squaring, from the lowest bit of the exponent up. -/
def powerLoop : Nat → Float → Float → Nat → Float
  | 0, result, _, _ => result
  | fuel + 1, result, base, exponent =>
    let result := if exponent % 2 == 1 then result * base else result
    if exponent / 2 == 0 then result else powerLoop fuel result (base * base) (exponent / 2)

/-- An integral power of ten as a float. -/
def powerOfTen (exponent : Int) : Float :=
  let size := powerLoop 64 1.0 10.0 exponent.natAbs
  if exponent < 0 then 1.0 / size else size

end Stencil.Number
