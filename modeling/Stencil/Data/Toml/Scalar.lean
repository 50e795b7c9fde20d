import Stencil.Data.Toml.Text
import Stencil.Number.Reading
import Stencil.Value.Order

/-!
# Numbers, truths and times in TOML

A scalar without quotes is a run of characters: a truth, an integer, a float or a time. Digits may
be kept apart by single underscores. A time is kept as a map with its text under a key of its own.
-/

namespace Stencil.Data

open Number Text

/-- The digits of a run in which single underscores stand between digits. -/
def plainDigits? (digit : Char → Bool) (cs : List Char) : Option (List Char) :=
  let groups := splitAt (· == '_') cs
  if groups.all fun g => !g.isEmpty && g.all digit then some groups.flatten else none

/-- The number written in digits of a base of at most sixteen. -/
def numberIn? (base : Nat) (cs : List Char) : Option Nat := do
  let digits ← plainDigits? (fun c => (hexDigit? c).any (· < base)) cs
  digits.foldlM (fun n c => (hexDigit? c).map (n * base + ·)) 0

/-- Decimal digits without a zero too many in front. -/
def wholeDigits? (cs : List Char) : Option (List Char) := do
  let digits ← plainDigits? isDigit cs
  guard (digits.length == 1 || digits.head? != some '0')
  return digits

/-- The integer of a run. -/
def tomlInteger? (cs : List Char) : Option Int :=
  match cs with
  | '0' :: 'x' :: digits => (numberIn? 16 digits).map Int.ofNat
  | '0' :: 'o' :: digits => (numberIn? 8 digits).map Int.ofNat
  | '0' :: 'b' :: digits => (numberIn? 2 digits).map Int.ofNat
  | _ =>
    let (negative, digits) := sign cs
    (wholeDigits? digits).map fun digits =>
      let n : Int := ofDigits digits
      if negative then -n else n

/-- The exponent of a float, from behind its letter. -/
def tomlExponent? (cs : List Char) : Option Int :=
  let (negative, digits) := sign cs
  (plainDigits? isDigit digits).map fun digits =>
    let n : Int := ofDigits digits
    if negative then -n else n

/-- The float without sign of a run that has a fraction or an exponent. -/
def decimalFloat? (cs : List Char) : Option Float := do
  let (mantissa, exponent) := cutAt (fun c => c == 'e' || c == 'E') cs
  let (whole, fraction) := cutAt (· == '.') mantissa
  guard (!(exponent.isEmpty && fraction.isEmpty))
  let whole ← wholeDigits? whole
  let fraction ← match fraction with
    | [] => some []
    | _ :: fraction => plainDigits? isDigit fraction
  let exponent ← match exponent with
    | [] => some 0
    | _ :: exponent => tomlExponent? exponent
  let x := nearest (ofDigits (whole ++ fraction)) (exponent - fraction.length)
  guard x.isFinite
  return x

/-- The float of a run. -/
def tomlFloat? (cs : List Char) : Option Float :=
  let (negative, size) := sign cs
  let x :=
    if size == "inf".toList then some (1.0 / 0.0)
    else if size == "nan".toList then some (0.0 / 0.0)
    else decimalFloat? size
  x.map fun x => if negative then -x else x

/-! ## Times -/

/-- The number of exactly `count` digits at the start of a text, and the rest. -/
def fixedDigits? (count : Nat) (cs : List Char) : Option (Nat × List Char) :=
  let digits := cs.take count
  if digits.length == count && digits.all isDigit then some (ofDigits digits, cs.drop count)
  else none

/-- The number of days of a month. -/
def daysIn (year month : Nat) : Nat :=
  if month == 2 then
    if year % 4 == 0 && (year % 100 != 0 || year % 400 == 0) then 29 else 28
  else if month == 4 || month == 6 || month == 9 || month == 11 then 30
  else 31

/-- The rest behind a date. -/
def afterDate? (cs : List Char) : Option (List Char) := do
  let (year, rest) ← fixedDigits? 4 cs
  let (month, rest) ← fixedDigits? 2 (← after? ['-'] rest)
  let (day, rest) ← fixedDigits? 2 (← after? ['-'] rest)
  guard (1 ≤ month && month ≤ 12 && 1 ≤ day && day ≤ daysIn year month)
  return rest

/-- The rest behind hours and minutes. -/
def afterMinutes? (cs : List Char) : Option (List Char) := do
  let (hours, rest) ← fixedDigits? 2 cs
  let (minutes, rest) ← fixedDigits? 2 (← after? [':'] rest)
  guard (hours ≤ 23 && minutes ≤ 59)
  return rest

/-- A fraction of a second, cut to nine digits and without zeros behind. -/
def fractionText (digits : List Char) : List Char :=
  let digits := dropRight (· == '0') (digits.take 9)
  '.' :: if digits.isEmpty then ['0'] else digits

/-- The text of the seconds at the start of `cs`, when there are some, and the rest. -/
def seconds? (cs : List Char) : Option (List Char × List Char) :=
  match cs with
  | ':' :: rest => do
    let (seconds, more) ← fixedDigits? 2 rest
    guard (seconds ≤ 60)
    match more with
    | '.' :: more =>
      let (digits, more) := more.span isDigit
      guard (!digits.isEmpty)
      return (':' :: rest.take 2 ++ fractionText digits, more)
    | _ => return (':' :: rest.take 2, more)
  | _ => some ([], cs)

/-- The text of the time of day at the start of `cs`, and the rest. -/
def dayTime? (cs : List Char) : Option (List Char × List Char) := do
  let (seconds, rest) ← seconds? (← afterMinutes? cs)
  return (cs.take 5 ++ seconds, rest)

/-- The text of an offset from universal time, which may be missing. -/
def timeOffset? (cs : List Char) : Option (List Char) :=
  match cs with
  | [] => some []
  | ['Z'] => some ['Z']
  | ['z'] => some ['Z']
  | c :: rest => do
    guard (c == '+' || c == '-')
    guard (← afterMinutes? rest).isEmpty
    return (if rest == "00:00".toList then '+' else c) :: rest

/-- The text of a date, a time of day, or both. -/
def timeText? (cs : List Char) : Option (List Char) :=
  match afterDate? cs with
  | some [] => some cs
  | some (c :: rest) => do
    guard (c == 'T' || c == 't' || c == ' ')
    let (day, rest) ← dayTime? rest
    return cs.take 10 ++ 'T' :: day ++ (← timeOffset? rest)
  | none => do
    let (day, rest) ← dayTime? cs
    guard rest.isEmpty
    return day

/-- The key under which a time is kept. -/
def timeKey : String := "$__toml_private_datetime"

/-- The map that stands for a time. -/
def timeValue (text : List Char) : Value := .map [(.str timeKey, .str (.ofList text))]

/-! ## Scalars -/

/-- A character of a scalar without quotes. -/
def isScalarChar (c : Char) : Bool :=
  c.isAlphanum || c == '_' || c == '-' || c == '+' || c == '.' || c == ':'

/-- The run at the start of a text, and the rest. A date goes on behind one space when a digit
follows. -/
def scalarRun (cs : List Char) : List Char × List Char :=
  let (run, rest) := cs.span isScalarChar
  match rest with
  | ' ' :: c :: more =>
    if isDigit c && afterDate? run == some [] then
      let (time, rest) := (c :: more).span isScalarChar
      (run ++ ' ' :: time, rest)
    else (run, rest)
  | _ => (run, rest)

/-- The integer of a run, when 128 bits suffice. -/
def boundedInteger? (cs : List Char) : Option Value := do
  let n ← tomlInteger? cs
  guard (fitsSigned 128 n || fitsUnsigned 128 n)
  return .int n

/-- The value of a run. -/
def scalarValue? (run : List Char) : Option Value :=
  if run == "true".toList then some (.bool true)
  else if run == "false".toList then some (.bool false)
  else
    (boundedInteger? run).orElse fun _ =>
      ((tomlFloat? run).map Value.float).orElse fun _ => (timeText? run).map timeValue

end Stencil.Data
