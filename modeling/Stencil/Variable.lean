import Stencil.Text.Blank
import Stencil.Text.Word

/-!
# Variables read by expressions

An expression that is an access path, such as `user.name` or `rows[0]`, reads the variable at its
start. Calls around a path are peeled off first: `f(g(x))` reads `x`.
-/

namespace Stencil

open Text

/-- Words that look like variables and never name one. -/
def reservedWords : List String :=
  ["true", "false", "null", "undefined", "none", "None", "True", "False", "and", "or", "not", "in",
    "is"]

/-- A character that may start a name. -/
def isNameStart (c : Char) : Bool := c == '$' || c == '_' || isAsciiLetter c

/-- A character that may occur in a name. -/
def isNamePart (c : Char) : Bool := isNameStart c || isAsciiDigit c

/-- Whether a text starts like a name. -/
def startsLikeName (s : String) : Bool :=
  match s.toList with
  | [] => false
  | c :: _ => isNameStart c

/-- Whether a text is the name of a variable. -/
def isVariableName (s : String) : Bool :=
  startsLikeName s && s.toList.all isNamePart && !reservedWords.contains s

/-- What stands behind the first opening parenthesis in front of which, since the last parenthesis,
there is a word character, and behind which the line does not end. `named` tells whether there was
one. -/
def behindCall? (named : Bool) : List Char → Option (List Char)
  | [] => none
  | c :: cs =>
    if c == '(' then
      if named && !cs.contains '\n' then some cs else behindCall? false cs
    else if c == ')' then behindCall? false cs
    else behindCall? (named || isWord c) cs

/-- The argument of the call that ends an expression. -/
def callArgument? (cs : List Char) : Option (List Char) :=
  match cs.reverse with
  | ')' :: rest => behindCall? false rest.reverse
  | _ => none

theorem length_behindCall? {named : Bool} {cs ds : List Char} (h : behindCall? named cs = some ds) :
    ds.length < cs.length := by
  fun_induction behindCall? named cs with
  | case1 => simp at h
  | case2 => simp_all
  | case3 named c cs _ _ ih => exact Nat.lt_succ_of_lt (ih h)
  | case4 named c cs _ _ ih => exact Nat.lt_succ_of_lt (ih h)
  | case5 named c cs _ _ ih => exact Nat.lt_succ_of_lt (ih h)

theorem length_callArgument? {cs ds : List Char} (h : callArgument? cs = some ds) :
    ds.length < cs.length := by
  unfold callArgument? at h
  split at h
  · next rest heq =>
    have hlen := length_behindCall? h
    have := congrArg List.length heq
    simp at this hlen
    omega
  · simp at h

theorem length_dropRight_le (p : Char → Bool) (cs : List Char) :
    (dropRight p cs).length ≤ cs.length := by
  induction cs with
  | nil => simp [dropRight]
  | cons c cs ih =>
    rw [dropRight]
    split
    · split <;> simp
    · next d ds h => rw [h] at ih; simpa using ih

theorem length_trim_le (cs : List Char) : (trim cs).length ≤ cs.length :=
  Nat.le_trans (length_dropRight_le _ _) (List.dropWhile_suffix _).length_le

/-- The innermost argument of the calls around an expression, in characters. -/
def peel (cs : List Char) : List Char :=
  match _h : callArgument? cs with
  | none => cs
  | some ds => peel (trim ds)
termination_by cs.length
decreasing_by exact Nat.lt_of_le_of_lt (length_trim_le ds) (length_callArgument? (by assumption))

/-- The innermost argument of the calls around an expression: `f(g(x))` becomes `x`. -/
def peelCalls (expression : String) : String := .ofList (peel (trim expression.toList))

/-- The part of an access path before its first point or bracket. -/
def pathStart (expression : String) : String :=
  .ofList (trim (cutAt (fun c => c == '.' || c == '[') expression.toList).1)

/-- What an expression reads. -/
structure Access where
  /-- The access path. -/
  path : String
  /-- The variable it starts with. -/
  variableName : String
  deriving DecidableEq, Repr

/-- The access path that an expression reads, when it starts with a variable. -/
def Access.ofExpression? (expression : String) : Option Access :=
  let path := peelCalls expression
  let name := pathStart path
  if isVariableName name then some ⟨path, name⟩ else none

end Stencil
