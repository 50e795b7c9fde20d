import Stencil.Expression.Builtin

/-!
# Values of expressions

Operands are evaluated from left to right, and only those that are needed: the logical words and
conditionals choose, and a chain of comparisons stops at the first that fails. A variable that is
not bound is undefined.
-/

namespace Stencil.Expression

/-- The arguments of a call, those under keywords collected in a map. -/
def Arguments.ofPairs (pairs : List (Option String × Value)) : Arguments :=
  let keywords := pairs.filterMap fun (keyword, v) => keyword.map fun k => (Value.str k, v)
  let positional := pairs.filterMap fun (keyword, v) => if keyword.isNone then some v else none
  if keywords.isEmpty then ⟨positional, false⟩
  else ⟨positional ++ [.ofEntries keywords], true⟩

mutual

/-- The value of an expression. -/
def evaluate (lookup : String → Option Value) : Expression → Except ExpressionFault Value
  | literal v => .ok v
  | var name => .ok ((lookup name).getD .undefined)
  | list items => (evaluateAll lookup items).map Value.seq
  | map entries => (evaluateEntries lookup entries).map Value.ofEntries
  | negative e => evaluate lookup e >>= Value.negated
  | negation e => (evaluate lookup e).map fun v => .bool !v.isTrue
  | binary op a b => do
    let x ← evaluate lookup a
    let y ← evaluate lookup b
    Value.apply op x y
  | comparison first links => do
    let x ← evaluate lookup first
    return .bool (← evaluateLinks lookup links x)
  | conjunction a b => do
    let x ← evaluate lookup a
    if x.isTrue then evaluate lookup b else return x
  | disjunction a b => do
    let x ← evaluate lookup a
    if x.isTrue then return x else evaluate lookup b
  | conditional condition yes no => do
    let x ← evaluate lookup condition
    if x.isTrue then evaluate lookup yes else evaluateOptional lookup no .undefined
  | member e name => do
    let x ← evaluate lookup e
    match x with
    | .map entries => return (Value.lookupKey? entries (.str name)).getD .undefined
    | .undefined => throw .undefinedValue
    | _ => return .undefined
  | item e key => do
    let x ← evaluate lookup e
    let k ← evaluate lookup key
    x.access k
  | slice e start stop step => do
    let x ← evaluate lookup e
    let first ← evaluateOptional lookup start .null
    let last ← evaluateOptional lookup stop .null
    let every ← evaluateOptional lookup step .null
    x.slice first last every
  | call f args => do
    match f with
    | var name =>
      let args ← evaluateArguments lookup args
      callNamed lookup name (.ofPairs args)
    | member e name =>
      let x ← evaluate lookup e
      let _ ← evaluateArguments lookup args
      callMethod x name
    | f =>
      let _ ← evaluate lookup f
      let _ ← evaluateArguments lookup args
      throw .invalidOperation
  | filter e name args => do
    let x ← evaluate lookup e
    let args ← evaluateArguments lookup args
    applyFilter name x (.ofPairs args)
  | test e name args => do
    let x ← evaluate lookup e
    let args ← evaluateArguments lookup args
    applyTest name x (.ofPairs args)
termination_by structural e => e

/-- The values of several expressions. -/
def evaluateAll (lookup : String → Option Value) :
    List Expression → Except ExpressionFault (List Value)
  | [] => .ok []
  | e :: es => do
    let v ← evaluate lookup e
    return v :: (← evaluateAll lookup es)
termination_by structural es => es

/-- The entries of a map. -/
def evaluateEntries (lookup : String → Option Value) :
    List (Expression × Expression) → Except ExpressionFault (List (Value × Value))
  | [] => .ok []
  | (k, e) :: es => do
    let key ← evaluate lookup k
    let v ← evaluate lookup e
    return (key, v) :: (← evaluateEntries lookup es)
termination_by structural es => es

/-- Whether all comparisons of a chain hold, each between its operand and the one before. -/
def evaluateLinks (lookup : String → Option Value) :
    List (Comparison × Expression) → Value → Except ExpressionFault Bool
  | [], _ => .ok true
  | (op, e) :: es, before => do
    let v ← evaluate lookup e
    if ← Value.compared op before v then evaluateLinks lookup es v else return false
termination_by structural es => es

/-- The arguments of a call. -/
def evaluateArguments (lookup : String → Option Value) :
    List (Option String × Expression) → Except ExpressionFault (List (Option String × Value))
  | [] => .ok []
  | (keyword, e) :: es => do
    let v ← evaluate lookup e
    return (keyword, v) :: (← evaluateArguments lookup es)
termination_by structural es => es

/-- The value of an expression that may be missing. -/
def evaluateOptional (lookup : String → Option Value) :
    Option Expression → Value → Except ExpressionFault Value
  | none, missing => .ok missing
  | some e, _ => evaluate lookup e
termination_by structural e => e

end

end Stencil.Expression
