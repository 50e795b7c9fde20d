import Stencil.Text.Blank
import Stencil.Text.Search
import Stencil.Text.Separator
import Stencil.Variable

/-!
# Scripts

A script is a list of assignments, one a line or separated by semicolons outside quotes and
brackets. Blank lines and lines that start with `//` hold nothing. A keyword in front declares a new
name.
-/

namespace Stencil

open Text

/-- An assignment of a script. -/
structure Statement where
  name : String
  /-- The expression whose value is assigned. -/
  value : String
  /-- Whether the name is declared rather than assigned again. -/
  declares : Bool
  deriving DecidableEq, Repr

/-- Why a line of a script is no assignment. -/
inductive ScriptFault where
  | notAssignment (line : String)
  | isComparison (line : String)
  | badTarget (name : String)
  | noValue (name : String)
  deriving DecidableEq, Repr

/-- The fault in words. -/
def ScriptFault.describe : ScriptFault → String
  | notAssignment line => "expected an assignment, found `" ++ line ++ "`"
  | isComparison line => "expected an assignment, found a comparison in `" ++ line ++ "`"
  | badTarget name => "`" ++ name ++ "` cannot be assigned to"
  | noValue name => "`" ++ name ++ "` is assigned nothing"

namespace Statement

/-- The words that declare a name. -/
def keywords : List String := ["let ", "const ", "var "]

/-- What follows a keyword in front, and whether there is one. -/
def cutKeyword (line : List Char) : Bool × List Char :=
  match keywords.findSome? fun keyword => after? keyword.toList line with
  | some rest => (true, rest)
  | none => (false, line)

/-- The assignment on a trimmed line. -/
def ofLine (line : List Char) : Except ScriptFault Statement :=
  let (declares, rest) := cutKeyword line
  match cutAt (· == '=') rest with
  | (_, []) => .error (.notAssignment (.ofList line))
  | (name, _ :: value) =>
    let name := String.ofList (trim name)
    if value.head? == some '=' then .error (.isComparison (.ofList line))
    else if !isVariableName name then .error (.badTarget name)
    else if value.all isBlank then .error (.noValue name)
    else .ok ⟨name, .ofList (trim value), declares⟩

/-- Whether a trimmed line holds no assignment. -/
def isEmptyLine (line : List Char) : Bool := line.isEmpty || ['/', '/'].isPrefixOf line

/-- The trimmed lines of a script that hold assignments. -/
def linesOfScript (script : List Char) : List (List Char) :=
  (splitTop ';' script).flatMap fun piece =>
    ((splitAt (· == '\n') piece).map trim).filter (!isEmptyLine ·)

end Statement

/-- The assignments of a script. -/
def readScript (script : String) : Except ScriptFault (List Statement) :=
  (Statement.linesOfScript script.toList).mapM Statement.ofLine

end Stencil
