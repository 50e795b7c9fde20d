import Stencil.Filter.Basic
import Stencil.Text.Case
import Stencil.Text.Markup

/-!
# Built-in filters

Filters on numbers, on texts, and on sequences. Filters on texts take any value by its text, and
filters on numbers take texts that write numbers. A missing argument is reported before anything
else, except where the value has to be a number first.
-/

namespace Stencil.Filter

open Text

/-! ## Arguments -/

/-- The argument at an index. -/
def argument (filter : String) (args : List Value) (index : Nat) : Except FilterFault Value :=
  match args[index]? with
  | some v => .ok v
  | none => .error (.missingArgument filter (index + 1))

/-- The text of the first argument. -/
def textArgument (filter : String) (args : List Value) : Except FilterFault String :=
  (argument filter args 0).map Value.text

/-- A value as a number. -/
def toNumber (v : Value) : Except FilterFault Float := v.number.mapError .number

/-- The first argument as a number. -/
def numberArgument (filter : String) (args : List Value) : Except FilterFault Float :=
  argument filter args 0 >>= toNumber

/-- The first argument as an integer, if there is one. -/
def integerArgument (args : List Value) (missing : Int) : Except FilterFault Int :=
  match args with
  | [] => .ok missing
  | v :: _ => v.integer.mapError .number

/-- The items of a value. -/
def toItems (v : Value) : Except FilterFault (List Value) :=
  match v.items? with
  | some items => .ok items
  | none => .error (.notSequence v.render)

/-! ## Numbers -/

/-- A filter on a number. -/
def onNumber (f : Float → Float) : Filter := fun v _ => do
  return .ofNumber (f (← toNumber v))

/-- A filter on a number and an argument. -/
def onNumbers (name : String) (f : Float → Float → Float) : Filter := fun v args => do
  let x ← toNumber v
  let y ← numberArgument name args
  return .ofNumber (f x y)

/-- The quotient of the value and a divisor that is looked at first. -/
def dividedBy : Filter := fun v args => do
  let divisor ← numberArgument "divided_by" args
  if divisor == 0.0 then throw .divisionByZero
  return .ofNumber ((← toNumber v) / divisor)

/-- Round to a number of decimal places, halves away from zero. -/
def round : Filter := fun v args => do
  let x ← toNumber v
  let places ← integerArgument args 0
  let factor := Number.powerOfTen (places.bmod (Number.twoTo 32))
  return .ofNumber ((x * factor).round / factor)

/-! ## Texts -/

/-- A filter on a text. -/
def onText (f : String → String) : Filter := fun v _ => .ok (.str (f v.text))

/-- A filter on the characters of a text. -/
def onChars (f : List Char → List Char) : Filter := onText fun s => .ofList (f s.toList)

/-- A filter on a text and an argument. -/
def onTexts (name : String) (f : String → String → String) : Filter := fun v args => do
  return .str (f v.text (← textArgument name args))

/-- Replace every occurrence of the first argument by the second one, or by nothing. -/
def replaceAll : Filter := fun v args => do
  let old ← textArgument "replace" args
  let new := (args[1]?.map Value.text).getD ""
  return .str (replace v.text old new)

/-- Shorten a text to a length, which counts the mark at its end. -/
def truncate : Filter := fun v args => do
  let s := v.text
  let length := (← integerArgument args 50).toNat
  let mark := (args[1]?.map Value.text).getD "..."
  if s.length ≤ length then return .str s
  return .str (.ofList (s.toList.take (length - mark.length)) ++ mark)

/-- The pieces of a text between the occurrences of the argument, or its characters when the
argument is empty. -/
def split : Filter := fun v args => do
  let s := v.text
  let separator ← textArgument "split" args
  if separator.isEmpty then return .seq (Value.ofChars s)
  return .seq ((splitBy separator s).map .str)

/-! ## Sequences -/

/-- The number of characters, items or entries; zero for any other value. -/
def size : Filter := fun v _ => .ok (.int (v.length?.getD 0))

/-- The first character or item. -/
def first : Filter := fun v _ => do
  return (← toItems v).headD .undefined

/-- The last character or item. -/
def last : Filter := fun v _ => do
  return (← toItems v).getLastD .undefined

/-- The characters or items from the last to the first. -/
def reverse : Filter := fun v _ =>
  match v with
  | .str s => .ok (.str (.ofList s.toList.reverse))
  | v => (toItems v).map fun items => .seq items.reverse

/-- The texts of the items, with the argument or a space between them. -/
def joinAll : Filter := fun v args => do
  let separator := (args.head?.map Value.text).getD " "
  return .str (Text.join separator ((← toItems v).map Value.text))

/-- The value, or the argument where the value counts as nothing. -/
def orElse : Filter := fun v args =>
  if v.isBlank then argument "default" args 0 else .ok v

/-! ## The registry -/

/-- The built-in filters with their names. -/
def builtins : List (String × Filter) :=
  [("abs", onNumber Float.abs),
    ("append", onTexts "append" (· ++ ·)),
    ("capitalize", onText capitalize),
    ("ceil", onNumber Float.ceil),
    ("default", orElse),
    ("divided_by", dividedBy),
    ("downcase", onText lower),
    ("escape", onChars escape),
    ("escape_once", onChars escapeOnce),
    ("first", first),
    ("floor", onNumber Float.floor),
    ("ifnot", orElse),
    ("join", joinAll),
    ("last", last),
    ("lstrip", onChars trimLeft),
    ("minus", onNumbers "minus" (· - ·)),
    ("modulo", onNumbers "modulo" Number.remainder),
    ("plus", onNumbers "plus" (· + ·)),
    ("prepend", onTexts "prepend" fun s start => start ++ s),
    ("remove", onTexts "remove" fun s part => replace s part ""),
    ("replace", replaceAll),
    ("reverse", reverse),
    ("round", round),
    ("rstrip", onChars trimRight),
    ("size", size),
    ("split", split),
    ("strip", onChars trim),
    ("times", onNumbers "times" (· * ·)),
    ("truncate", truncate),
    ("unescape", onChars unescape),
    ("upcase", onText upper)]

end Stencil.Filter

namespace Stencil

/-- The built-in filters. -/
def FilterRegistry.builtin : FilterRegistry := ⟨⟨Filter.builtins⟩⟩

end Stencil
