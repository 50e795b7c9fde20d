import Stencil.Data.Json
import Stencil.Expression.Basic
import Stencil.Number.Reading
import Stencil.Number.Width
import Stencil.Text.Word

/-!
# Symbols of expressions

An expression is cut into names, texts, numbers and marks; blanks between them are dropped. Where
the text cannot be cut any further, the last symbol is the fault: it counts only when the reader
gets there.
-/

namespace Stencil

open Text

/-- A mark of the expression language. -/
inductive Mark where
  | plus | minus | times | power | slash | slashes | percent | tilde
  | equal | unequal | less | atMost | greater | atLeast
  | assign | dot | comma | colon | bar
  | openParen | closeParen | openBracket | closeBracket | openBrace | closeBrace
  deriving DecidableEq, Repr

/-- A symbol of an expression. -/
inductive Symbol where
  | name (s : String)
  | text (s : String)
  | int (n : Nat)
  | float (x : Float)
  | mark (m : Mark)
  | fault (f : ExpressionFault)
  deriving Repr, Inhabited

/-- The mark of two characters. -/
def doubleMark? : Char → Char → Option Mark
  | '/', '/' => some .slashes
  | '*', '*' => some .power
  | '=', '=' => some .equal
  | '!', '=' => some .unequal
  | '>', '=' => some .atLeast
  | '<', '=' => some .atMost
  | _, _ => none

/-- The mark of one character. -/
def singleMark? : Char → Option Mark
  | '+' => some .plus
  | '-' => some .minus
  | '*' => some .times
  | '/' => some .slash
  | '%' => some .percent
  | '~' => some .tilde
  | '<' => some .less
  | '>' => some .greater
  | '=' => some .assign
  | '.' => some .dot
  | ',' => some .comma
  | ':' => some .colon
  | '|' => some .bar
  | '(' => some .openParen
  | ')' => some .closeParen
  | '[' => some .openBracket
  | ']' => some .closeBracket
  | '{' => some .openBrace
  | '}' => some .closeBrace
  | _ => none

/-! ## Numbers -/

/-- The part of a number that is being read. -/
inductive NumberPart where
  | whole
  | fraction
  /-- Behind the letter of the exponent. -/
  | exponent
  | exponentDigits
  deriving DecidableEq, Repr

/-- The part that a character continues with, if it belongs to the number at all. -/
def NumberPart.next? (part : NumberPart) (c : Char) : Option NumberPart :=
  match part with
  | whole =>
    if isAsciiDigit c || c == '_' then some whole
    else if c == '.' then some fraction
    else if c == 'e' || c == 'E' then some exponent
    else none
  | fraction =>
    if isAsciiDigit c || c == '_' then some fraction
    else if c == 'e' || c == 'E' then some exponent
    else none
  | exponent =>
    if isAsciiDigit c || c == '+' || c == '-' then some exponentDigits
    else if c == '_' then some exponent
    else none
  | exponentDigits => if isAsciiDigit c || c == '_' then some exponentDigits else none

/-- The characters of a number, the part it ends in, and the rest. -/
def numberSpan : NumberPart → List Char → List Char × NumberPart × List Char
  | part, [] => ([], part, [])
  | part, c :: cs =>
    match part.next? c with
    | none => ([], part, c :: cs)
    | some next =>
      let (digits, last, rest) := numberSpan next cs
      (c :: digits, last, rest)

/-- The base that a number is written in, and what follows the mark of the base. -/
def numberBase : List Char → Nat × List Char
  | '0' :: c :: rest =>
    if c == 'b' || c == 'B' then (2, rest)
    else if c == 'o' || c == 'O' then (8, rest)
    else if c == 'x' || c == 'X' then (16, rest)
    else (10, '0' :: c :: rest)
  | cs => (10, cs)

/-- The number written by digits of a base. -/
def ofDigitsIn? (base : Nat) (digits : List Char) : Option Nat :=
  if digits.isEmpty then none
  else
    let n := digits.foldlM (fun n c =>
      match Data.hexDigit? c with
      | some d => if d < base then some (n * base + d) else none
      | none => none) 0
    n.filter (· < Number.twoTo 128)

/-- The digits without their separators; a separator may not come last. -/
def withoutSeparators? (digits : List Char) : Option (List Char) :=
  if digits.getLast? == some '_' then none else some (digits.filter (· != '_'))

/-- The number at the start of a text, and the rest. -/
def numberSymbol (cs : List Char) : Symbol × List Char :=
  let orFault := fun s : Option Symbol => s.getD (.fault .badSyntax)
  let (base, rest) := numberBase cs
  if base == 10 then
    let (digits, part, rest) := numberSpan .whole cs
    let number := (withoutSeparators? digits).bind fun digits =>
      if part = .whole then (ofDigitsIn? 10 digits).map Symbol.int
      else (Number.readFloat? digits).map Symbol.float
    (orFault number, rest)
  else
    let isPart := fun c => isAsciiDigit c || c == '_' || (base == 16 && (Data.hexDigit? c).isSome)
    let (digits, rest) := rest.span isPart
    let number := (withoutSeparators? digits).bind fun digits =>
      (ofDigitsIn? base digits).map Symbol.int
    (orFault number, rest)

/-! ## Texts -/

/-- The characters up to the closing quote as they are written, and the rest. -/
def quoted? (quote : Char) : List Char → Option (List Char × List Char)
  | [] => none
  | '\\' :: c :: cs => (quoted? quote cs).map fun (inner, rest) => ('\\' :: c :: inner, rest)
  | c :: cs =>
    if c == quote then some ([], cs)
    else (quoted? quote cs).map fun (inner, rest) => (c :: inner, rest)

/-- An octal digit. -/
def isOctal (c : Char) : Bool := '0' ≤ c && c ≤ '7'

/-- The unit of 16 bits behind `\u`, and the rest. -/
def unit? (cs : List Char) : Option (Nat × List Char) :=
  match cs with
  | '+' :: rest => Data.hexNumber? 3 rest
  | _ => Data.hexNumber? 4 cs

/-- The byte behind `\x`, and the rest. -/
def byte? (cs : List Char) : Option (Nat × List Char) :=
  match cs with
  | '+' :: rest => Data.hexNumber? 1 rest
  | _ => Data.hexNumber? 2 cs

/-- The character that two surrogates stand for. -/
def paired? (high low : Nat) : Option Char :=
  if 0xD800 ≤ high && high < 0xDC00 && 0xDC00 ≤ low && low < 0xE000 then
    Data.charOf? (0x10000 + (high - 0xD800) * 0x400 + (low - 0xDC00))
  else none

/-- The character behind a backslash that has a short escape. -/
def shortEscape? (c : Char) : Option Char :=
  if c == '"' || c == '\\' || c == '/' || c == '\'' then some c
  else if c == 'b' then some '\x08'
  else if c == 'f' then some '\x0c'
  else if c == 'n' then some '\n'
  else if c == 'r' then some '\r'
  else if c == 't' then some '\t'
  else none

/-- The characters that a text of at most `fuel` written characters stands for. `pending` is a
surrogate that waits for its partner. A backslash before a character without a meaning stands for
itself. -/
def unescape? : Nat → Option Nat → List Char → Option (List Char)
  | _, pending, [] => if pending.isNone then some [] else none
  | 0, _, _ => none
  | fuel + 1, pending, '\\' :: 'u' :: cs => do
    let (unit, rest) ← unit? cs
    let surrogate := 0xD800 ≤ unit && unit < 0xE000
    match pending, surrogate with
    | none, true => unescape? fuel (some unit) rest
    | some high, true => return (← paired? high unit) :: (← unescape? fuel none rest)
    | none, false => return (← Data.charOf? unit) :: (← unescape? fuel none rest)
    | some _, false => none
  | fuel + 1, none, '\\' :: 'x' :: cs => do
    let (byte, rest) ← byte? cs
    return Char.ofNat byte :: (← unescape? fuel none rest)
  | fuel + 1, none, '\\' :: c :: cs =>
    if isOctal c then do
      let digits := c :: (cs.takeWhile isOctal).take 2
      let byte ← ofDigitsIn? 8 digits
      guard (byte < 256)
      return Char.ofNat byte :: (← unescape? fuel none (cs.drop (digits.length - 1)))
    else
      match shortEscape? c with
      | some d => (unescape? fuel none cs).map (d :: ·)
      | none => (unescape? fuel none cs).map ('\\' :: c :: ·)
  | fuel + 1, none, c :: cs => (unescape? fuel none cs).map (c :: ·)
  | _, _, _ => none

/-- The text behind its opening quote, and the rest. -/
def textSymbol (quote : Char) (cs : List Char) : Symbol × List Char :=
  match quoted? quote cs with
  | none => (.fault .badSyntax, [])
  | some (inner, rest) =>
    match unescape? inner.length none inner with
    | some text => (.text (.ofList text), rest)
    | none => (.fault .badEscape, [])

/-! ## The cut -/

/-- Blanks between symbols. -/
def isGap (c : Char) : Bool := c == ' ' || c == '\t' || c == '\n' || c == '\x0c' || c == '\r'

/-- A character that may start a name in an expression. -/
def startsSymbolName (c : Char) : Bool := isAsciiLetter c || c == '_'

/-- A character of a name in an expression. -/
def inSymbolName (c : Char) : Bool := startsSymbolName c || isAsciiDigit c

/-- The symbol at the start of a text that does not start with a blank, and the rest. -/
def symbolOf (c : Char) (cs : List Char) : Symbol × List Char :=
  match cs.head?.bind (doubleMark? c) with
  | some m => (.mark m, cs.drop 1)
  | none =>
    match singleMark? c with
    | some m => (.mark m, cs)
    | none =>
      if c == '"' || c == '\'' then textSymbol c cs
      else if isAsciiDigit c then numberSymbol (c :: cs)
      else if startsSymbolName c then
        let (name, rest) := (c :: cs).span inSymbolName
        (.name (.ofList name), rest)
      else (.fault .badSyntax, [])

/-- The symbols of a text of at most `fuel` characters. -/
def symbolsFrom : Nat → List Char → List Symbol
  | _, [] => []
  | 0, _ => []
  | fuel + 1, c :: cs =>
    if isGap c then symbolsFrom fuel cs
    else
      match symbolOf c cs with
      | (.fault f, _) => [.fault f]
      | (symbol, rest) => symbol :: symbolsFrom fuel rest

/-- The symbols of an expression. -/
def symbols (text : String) : List Symbol := symbolsFrom text.toList.length text.toList

end Stencil
