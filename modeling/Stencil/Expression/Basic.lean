import Stencil.NameSet
import Stencil.Value.Basic

/-!
# Expressions

The expressions that objects, conditions and arguments are written in: literals, variables, access
to attributes, items and slices, arithmetic, comparisons, the logical words, conditionals, calls,
filters and tests.

`Expression.freeNames` are the names that evaluation may look up.
-/

namespace Stencil

/-- Why an expression cannot be read or has no value. -/
inductive ExpressionFault where
  | badSyntax
  | badEscape
  | invalidOperation
  | undefinedValue
  | unknownFilter
  | unknownFunction
  | unknownMethod
  | unknownTest
  | missingArgument
  | tooManyArguments
  deriving DecidableEq, Repr, Inhabited

/-- The fault in words. -/
def ExpressionFault.describe : ExpressionFault → String
  | badSyntax => "syntax error"
  | badEscape => "bad string escape"
  | invalidOperation => "invalid operation"
  | undefinedValue => "undefined value"
  | unknownFilter => "unknown filter"
  | unknownFunction => "unknown function"
  | unknownMethod => "unknown method"
  | unknownTest => "unknown test"
  | missingArgument => "missing argument"
  | tooManyArguments => "too many arguments"

/-- An operator between two values. -/
inductive Operator where
  | add
  | subtract
  | concatenate
  | multiply
  | divide
  | floorDivide
  | remainder
  | power
  deriving DecidableEq, Repr

/-- A comparison of two values. -/
inductive Comparison where
  | equal
  | unequal
  | less
  | atMost
  | greater
  | atLeast
  | isIn
  | notIn
  deriving DecidableEq, Repr

/-- An expression. Arguments of calls carry the keyword they are passed under, if any. -/
inductive Expression where
  | literal (v : Value)
  | var (name : String)
  | list (items : List Expression)
  | map (entries : List (Expression × Expression))
  | negative (e : Expression)
  | negation (e : Expression)
  | binary (op : Operator) (a b : Expression)
  /-- A chain of comparisons, each with the operand before it. -/
  | comparison (first : Expression) (links : List (Comparison × Expression))
  | conjunction (a b : Expression)
  | disjunction (a b : Expression)
  | conditional (condition yes : Expression) (no : Option Expression)
  | member (e : Expression) (name : String)
  | item (e key : Expression)
  | slice (e : Expression) (start stop step : Option Expression)
  | call (f : Expression) (args : List (Option String × Expression))
  | filter (e : Expression) (name : String) (args : List (Option String × Expression))
  | test (e : Expression) (name : String) (args : List (Option String × Expression))
  deriving Inhabited

namespace Expression

mutual

/-- The variables that an expression may look up, added to a set. What a slice is taken of does not
count. -/
def addVariables : Expression → NameSet → NameSet
  | literal _, s => s
  | var name, s => s.insert name
  | list items, s => addAll items s
  | map entries, s => addEntries entries s
  | negative e, s => addVariables e s
  | negation e, s => addVariables e s
  | binary _ a b, s => addVariables b (addVariables a s)
  | comparison first links, s => addLinks links (addVariables first s)
  | conjunction a b, s => addVariables b (addVariables a s)
  | disjunction a b, s => addVariables b (addVariables a s)
  | conditional condition yes no, s =>
    addOptional no (addVariables yes (addVariables condition s))
  | member e _, s => addVariables e s
  | item e key, s => addVariables key (addVariables e s)
  | slice _ start stop step, s => addOptional step (addOptional stop (addOptional start s))
  | call f args, s => addArguments args (addVariables f s)
  | filter e _ args, s => addArguments args (addVariables e s)
  | test e _ args, s => addArguments args (addVariables e s)
termination_by structural e => e

/-- The variables of several expressions. -/
def addAll : List Expression → NameSet → NameSet
  | [], s => s
  | e :: es, s => addAll es (addVariables e s)
termination_by structural es => es

/-- The variables of the entries of a map. -/
def addEntries : List (Expression × Expression) → NameSet → NameSet
  | [], s => s
  | (k, v) :: es, s => addEntries es (addVariables v (addVariables k s))
termination_by structural es => es

/-- The variables of a chain of comparisons. -/
def addLinks : List (Comparison × Expression) → NameSet → NameSet
  | [], s => s
  | (_, e) :: es, s => addLinks es (addVariables e s)
termination_by structural es => es

/-- The variables of the arguments of a call. -/
def addArguments : List (Option String × Expression) → NameSet → NameSet
  | [], s => s
  | (_, e) :: es, s => addArguments es (addVariables e s)
termination_by structural es => es

/-- The variables of an expression that may be missing. -/
def addOptional : Option Expression → NameSet → NameSet
  | none, s => s
  | some e, s => addVariables e s
termination_by structural e => e

end

/-- The names that evaluating the expression may look up. -/
def freeNames (e : Expression) : NameSet := e.addVariables .empty

end Expression

end Stencil
