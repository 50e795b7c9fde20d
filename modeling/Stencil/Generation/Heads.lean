import Stencil.Number.Reading
import Stencil.Number.Width
import Stencil.Program.Basic
import Stencil.Text.Search
import Stencil.Text.Separator
import Stencil.Text.Word
import Stencil.Variable

/-!
# Heads of tags

The head of some tags has a form of its own.

* An assignment: a name without blanks, a sign, and a value on one line.
* A loop: what is bound, `in` or `of`, and what is run over, on one line.
* A range: two bounds with two points between them, perhaps in parentheses.
-/

namespace Stencil

open Text

/-- What stands behind the blanks at the start of a text, when it is one line up to the end. Where
all is blank, the last character stands behind the others. -/
def lineBehind? (cs : List Char) : Option (List Char) :=
  let kept := trimLeft cs
  let line := if kept.isEmpty then cs.getLast?.toList else kept
  if line.isEmpty || line.contains '\n' then none else some line

/-! ## Assignments -/

/-- The head of an assignment. -/
structure AssignmentHead where
  name : String
  op : AssignOp
  value : String
  deriving DecidableEq, Repr

/-- The sign of an assignment at the start of a text, and the rest. -/
def assignmentSign? : List Char → Option (AssignOp × List Char)
  | '=' :: rest => some (.set, rest)
  | '+' :: '=' :: rest => some (.add, rest)
  | '-' :: '=' :: rest => some (.subtract, rest)
  | '*' :: '=' :: rest => some (.multiply, rest)
  | '/' :: '=' :: rest => some (.divide, rest)
  | _ => none

/-- The sign and the value behind the name of an assignment. -/
def assignmentTail? (cs : List Char) : Option (AssignOp × List Char) :=
  match assignmentSign? (trimLeft cs) with
  | none => none
  | some (op, rest) => (lineBehind? rest).map (op, ·)

/-- The assignment with the shortest name that extends `before`, which is kept latest first. -/
def assignmentFrom : List Char → List Char → Option AssignmentHead
  | _, [] => none
  | before, c :: cs =>
    if isBlank c then none
    else
      match assignmentTail? cs with
      | some (op, value) => some ⟨.ofList (c :: before).reverse, op, .ofList value⟩
      | none => assignmentFrom (c :: before) cs

/-- The assignment that a head writes. -/
def AssignmentHead.ofHead? (head : String) : Option AssignmentHead := assignmentFrom [] head.toList

/-! ## Loops -/

/-- The head of a loop: what is bound, and what is run over. -/
structure LoopHead where
  binding : String
  iterable : String
  deriving DecidableEq, Repr

/-- What follows the word `in` or `of` on one line, behind at least one blank, at the start of a
text. -/
def iterableBehind? (cs : List Char) : Option (List Char) :=
  match (after? ['i', 'n'] cs).or (after? ['o', 'f'] cs) with
  | some (c :: rest) => if isBlank c then lineBehind? rest else none
  | _ => none

/-- The loop with the shortest binding that extends `before`, which is kept latest first. -/
def loopFrom : List Char → List Char → Option LoopHead
  | _, [] => none
  | before, c :: cs =>
    let iterable :=
      if before.isEmpty || !isBlank c then none else iterableBehind? (trimLeft (c :: cs))
    match iterable with
    | some iterable => some ⟨.ofList before.reverse, .ofList (trim iterable)⟩
    | none => if c == '\n' then none else loopFrom (c :: before) cs

/-- The loop that a head writes. -/
def LoopHead.ofHead? (head : String) : Option LoopHead := loopFrom [] head.toList

/-- Why a loop does not bind what it should. -/
inductive BindingFault where
  | badName (name : String)
  | badShape
  deriving DecidableEq, Repr

/-- A name that can be bound. -/
def checkedName (name : String) : Except BindingFault String :=
  if isVariableName name then .ok name else .error (.badName name)

/-- The names between commas. -/
def namesBetween (cs : List Char) : List String :=
  (splitAt (· == ',') cs).map fun name => .ofList (trim name)

/-- What stands between two brackets that enclose a text. -/
def between? (opening closing : Char) (cs : List Char) : Option (List Char) :=
  match cs with
  | c :: rest =>
    if c == opening && rest.getLast? == some closing then some rest.dropLast else none
  | [] => none

/-- A place of a list: a name, or nothing. -/
def checkedPlace (name : String) : Except BindingFault (Option String) :=
  if name.isEmpty then .ok none else (checkedName name).map some

/-- The binding that a text writes. -/
def LoopBinding.ofText (text : String) : Except BindingFault LoopBinding :=
  let cs := trim text.toList
  match between? '[' ']' cs, between? '{' '}' cs with
  | some inner, _ => ((namesBetween inner).mapM checkedPlace).map .places
  | none, some inner => (((namesBetween inner).filter (!·.isEmpty)).mapM checkedName).map .members
  | none, none =>
    match namesBetween cs with
    | [name] => (checkedName name).map .item
    | [key, value] => do
      let key ← checkedName key
      let value ← checkedName value
      return .keyed key value
    | _ => .error .badShape

/-! ## Ranges -/

/-- A character of a bound. -/
def isBoundPart (c : Char) : Bool := c == '$' || c == '.' || isWord c

/-- The sign and the characters of a bound at the start of a text, and the rest. -/
def boundSpan (cs : List Char) : List Char × List Char × List Char :=
  let (sign, cs) := match cs with
    | '-' :: rest => (['-'], rest)
    | _ => ([], cs)
  let (run, rest) := cs.span isBoundPart
  (sign, run, rest)

/-- The second bound, given the text behind the first one. -/
def secondBound? (cs : List Char) : Option (List Char) :=
  match trimLeft cs with
  | '.' :: '.' :: rest =>
    let (sign, run, rest) := boundSpan (trimLeft rest)
    let rest := trimLeft rest
    if run.isEmpty || !(rest.isEmpty || rest = [')']) then none else some (sign ++ run)
  | _ => none

/-- The two bounds with the longest first one, of at most `size` characters of `run`. -/
def boundsFrom (sign run rest : List Char) : Nat → Option (String × String)
  | 0 => none
  | size + 1 =>
    match secondBound? (run.drop (size + 1) ++ rest) with
    | some second => some (.ofList (sign ++ run.take (size + 1)), .ofList second)
    | none => boundsFrom sign run rest size

/-- The two bounds of a range. -/
def rangeBounds? (text : String) : Option (String × String) :=
  let cs := match text.toList with
    | '(' :: rest => rest
    | cs => cs
  let (sign, run, rest) := boundSpan (trimLeft cs)
  boundsFrom sign run rest run.length

/-! ## Bounds of loops -/

/-- A signed integer of 64 bits in decimal digits. -/
def decimalInteger? (text : String) : Option Int :=
  let (negative, digits) := Number.sign text.toList
  if digits.isEmpty || !digits.all Number.isDigit then none
  else
    let size : Int := Number.ofDigits digits
    let n := if negative then -size else size
    if Number.fitsSigned 64 n then some n else none

end Stencil
