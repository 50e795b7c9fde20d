import Stencil.Expression.Symbol

/-!
# Reading expressions

Precedence from loose to tight: conditionals, `or`, `and`, `not`, comparisons, `+` and `-`, `~`, `*`
`/` `//` `%`, `**`, filters and tests, access and calls, the minus sign, and primaries. All binary
operators group to the left, and the minus sign binds tighter than an access behind its operand.

Expressions nest through brackets only. The depth left is spent by one for every expression and by
one more for every primary, so `expressionAt` recurses on it; the chains on one level are bounded by
the number of symbols.
-/

namespace Stencil.Expression

/-- A reader takes what it reads off the front of the symbols. -/
abbrev Reader (α : Type) := List Symbol → Except ExpressionFault (α × List Symbol)

/-- How deep expressions and primaries may nest. -/
def maxNesting : Nat := 150

/-- The fault of meeting symbols that cannot be read here. -/
def unexpected {α : Type} : List Symbol → Except ExpressionFault α
  | .fault f :: _ => .error f
  | _ => .error .badSyntax

/-- Whether the symbols start with a mark. -/
def startsWith (m : Mark) : List Symbol → Bool
  | .mark n :: _ => m = n
  | _ => false

/-- Take a mark. -/
def expect (m : Mark) (ss : List Symbol) : Except ExpressionFault (List Symbol) :=
  if startsWith m ss then .ok (ss.drop 1) else unexpected ss

/-- The items up to a closing mark, with commas between them and perhaps behind the last one. -/
def itemsUntil {α : Type} (close : Mark) (item : Reader α) : Nat → Reader (List α)
  | 0, ss => unexpected ss
  | fuel + 1, ss =>
    if startsWith close ss then .ok ([], ss.drop 1)
    else do
      let (x, ss) ← item ss
      if startsWith close ss then return ([x], ss.drop 1)
      let ss ← expect .comma ss
      let (xs, ss) ← itemsUntil close item fuel ss
      return (x :: xs, ss)

/-- A chain of binary operators that group to the left, behind its first operand. -/
def chain (combine? : Symbol → Option (Expression → Expression → Expression))
    (operand : Reader Expression) : Nat → Expression → Reader Expression
  | 0, left, ss => .ok (left, ss)
  | fuel + 1, left, ss =>
    match ss with
    | [] => .ok (left, [])
    | s :: rest =>
      match combine? s with
      | none => .ok (left, s :: rest)
      | some combine => do
        let (right, ss) ← operand rest
        chain combine? operand fuel (combine left right) ss

/-- Operands with binary operators between them. -/
def level (combine? : Symbol → Option (Expression → Expression → Expression))
    (operand : Reader Expression) : Reader Expression := fun ss => do
  let (left, ss) ← operand ss
  chain combine? operand ss.length left ss

/-! ## Primaries -/

/-- The texts at the front of the symbols, joined. -/
def adjacentTexts : List Symbol → String × List Symbol
  | .text s :: rest =>
    let (more, rest) := adjacentTexts rest
    (s ++ more, rest)
  | ss => ("", ss)

/-- The literal that a word stands for. -/
def literalWord? (word : String) : Option Value :=
  if word == "true" || word == "True" then some (.bool true)
  else if word == "false" || word == "False" then some (.bool false)
  else if word == "none" || word == "None" then some .null
  else none

/-- An entry of a map. -/
def mapEntry (expr : Reader Expression) : Reader (Expression × Expression) := fun ss => do
  let (key, ss) ← expr ss
  let ss ← expect .colon ss
  let (v, ss) ← expr ss
  return ((key, v), ss)

/-- What stands between parentheses: an expression, or the items of a list when a comma follows it.
-/
def parenthesized (expr : Reader Expression) : Reader Expression := fun ss =>
  if startsWith .closeParen ss then .ok (.list [], ss.drop 1)
  else do
    let (e, ss) ← expr ss
    if startsWith .comma ss then
      let (es, ss) ← itemsUntil .closeParen expr ss.length (ss.drop 1)
      return (.list (e :: es), ss)
    let ss ← expect .closeParen ss
    return (e, ss)

/-- A literal, a variable, or something in brackets. -/
def primary (expr : Reader Expression) : Reader Expression := fun ss =>
  match ss with
  | .name word :: rest =>
    match literalWord? word with
    | some v => .ok (.literal v, rest)
    | none => .ok (.var word, rest)
  | .text s :: rest =>
    let (more, rest) := adjacentTexts rest
    .ok (.literal (.str (s ++ more)), rest)
  | .int n :: rest => .ok (.literal (.int n), rest)
  | .float x :: rest => .ok (.literal (.float x), rest)
  | .mark .openParen :: rest => parenthesized expr rest
  | .mark .openBracket :: rest => do
    let (items, ss) ← itemsUntil .closeBracket expr ss.length rest
    return (.list items, ss)
  | .mark .openBrace :: rest => do
    let (entries, ss) ← itemsUntil .closeBrace (mapEntry expr) ss.length rest
    return (.map entries, ss)
  | _ => unexpected ss

/-- A primary behind minus signs. -/
def signed (atom : Reader Expression) : Reader Expression
  | .mark .minus :: rest => do
    let (e, ss) ← signed atom rest
    return (.negative e, ss)
  | ss => atom ss

/-! ## Access, calls, filters and tests -/

/-- Whether no positional argument follows one with a keyword. -/
def keywordsLast (args : List (Option String × Expression)) : Bool :=
  (args.dropWhile (·.1.isNone)).all (·.1.isSome)

/-- An argument of a call. -/
def argument (expr plain : Reader Expression) : Reader (Option String × Expression) := fun ss => do
  let (e, ss) ← expr ss
  match e, ss with
  | .var keyword, .mark .assign :: rest =>
    let (e, ss) ← plain rest
    return ((some keyword, e), ss)
  | e, ss => return ((none, e), ss)

/-- The arguments of a call behind the opening parenthesis. -/
def arguments (expr plain : Reader Expression) : Reader (List (Option String × Expression)) :=
  fun ss => do
    let (args, ss) ← itemsUntil .closeParen (argument expr plain) (ss.length + 1) ss
    if keywordsLast args then return (args, ss) else unexpected ss

/-- An expression, except when one of the marks comes first. -/
def ifAny (marks : List Mark) (expr : Reader Expression) : Reader (Option Expression) := fun ss =>
  if marks.any (startsWith · ss) then .ok (none, ss)
  else do
    let (e, ss) ← expr ss
    return (some e, ss)

/-- An item or a slice, behind the opening bracket. -/
def subscript (expr : Reader Expression) (e : Expression) : Reader Expression := fun ss => do
  let (start, ss) ← ifAny [.colon] expr ss
  if startsWith .colon ss then
    let (stop, ss) ← ifAny [.closeBracket, .colon] expr (ss.drop 1)
    let (step, ss) ←
      if startsWith .colon ss then ifAny [.closeBracket] expr (ss.drop 1) else .ok (none, ss)
    let ss ← expect .closeBracket ss
    return (.slice e start stop step, ss)
  let ss ← expect .closeBracket ss
  match start with
  | some key => return (.item e key, ss)
  | none => unexpected ss

/-- The largest number that may follow a point. -/
def maxMember : Nat := Number.twoTo 64

/-- Accesses and calls behind an expression. -/
def accesses (expr plain : Reader Expression) : Nat → Expression → Reader Expression
  | 0, e, ss => .ok (e, ss)
  | fuel + 1, e, ss =>
    match ss with
    | .mark .dot :: .name name :: rest => accesses expr plain fuel (.member e name) rest
    | .mark .dot :: .int n :: rest =>
      if n < maxMember then accesses expr plain fuel (.item e (.literal (.int n))) rest
      else .error .badSyntax
    | .mark .dot :: rest => unexpected rest
    | .mark .openBracket :: rest => do
      let (e, ss) ← subscript expr e rest
      accesses expr plain fuel e ss
    | .mark .openParen :: rest => do
      let (args, ss) ← arguments expr plain rest
      accesses expr plain fuel (.call e args) ss
    | _ => .ok (e, ss)

/-- Whether a test takes the symbols that follow its name as its argument. -/
def startsTestArgument : List Symbol → Bool
  | .name word :: _ => !(["and", "or", "else", "is"].contains word)
  | .text _ :: _ => true
  | .int _ :: _ => true
  | .float _ :: _ => true
  | .mark m :: _ => [Mark.plus, .minus, .openBracket, .openBrace].contains m
  | _ => false

/-- The arguments of a test. -/
def testArguments (expr plain operand : Reader Expression) :
    Reader (List (Option String × Expression)) := fun ss =>
  if startsWith .openParen ss then arguments expr plain (ss.drop 1)
  else if startsTestArgument ss then do
    let (e, ss) ← operand ss
    return ([(none, e)], ss)
  else .ok ([], ss)

/-- Filters and tests behind an expression. -/
def pipes (expr plain operand : Reader Expression) : Nat → Expression → Reader Expression
  | 0, e, ss => .ok (e, ss)
  | fuel + 1, e, ss =>
    match ss with
    | .mark .bar :: .name name :: rest => do
      let (args, ss) ←
        if startsWith .openParen rest then arguments expr plain (rest.drop 1) else .ok ([], rest)
      pipes expr plain operand fuel (.filter e name args) ss
    | .mark .bar :: rest => unexpected rest
    | .name "is" :: rest => do
      let (negated, rest) := match rest with
        | .name "not" :: rest => (true, rest)
        | _ => (false, rest)
      match rest with
      | .name name :: rest =>
        let (args, ss) ← testArguments expr plain operand rest
        let e := .test e name args
        pipes expr plain operand fuel (if negated then .negation e else e) ss
      | _ => unexpected rest
    | _ => .ok (e, ss)

/-! ## Operators -/

/-- The operators of arithmetic, from loose to tight. -/
def operatorLevels : List (Mark → Option Operator) :=
  [fun
    | .plus => some .add
    | .minus => some .subtract
    | _ => none,
   fun
    | .tilde => some .concatenate
    | _ => none,
   fun
    | .times => some .multiply
    | .slash => some .divide
    | .slashes => some .floorDivide
    | .percent => some .remainder
    | _ => none,
   fun
    | .power => some .power
    | _ => none]

/-- How a mark combines two operands. -/
def combineBy (operator? : Mark → Option Operator) :
    Symbol → Option (Expression → Expression → Expression)
  | .mark m => (operator? m).map .binary
  | _ => none

/-- Arithmetic over operands. -/
def arithmetic (operand : Reader Expression) : Reader Expression :=
  operatorLevels.foldr (fun operator? operand => level (combineBy operator?) operand) operand

/-- The comparison at the front of the symbols, and the rest. -/
def comparison? : List Symbol → Except ExpressionFault (Option Comparison × List Symbol)
  | .mark .equal :: rest => .ok (some .equal, rest)
  | .mark .unequal :: rest => .ok (some .unequal, rest)
  | .mark .less :: rest => .ok (some .less, rest)
  | .mark .atMost :: rest => .ok (some .atMost, rest)
  | .mark .greater :: rest => .ok (some .greater, rest)
  | .mark .atLeast :: rest => .ok (some .atLeast, rest)
  | .name "in" :: rest => .ok (some .isIn, rest)
  | .name "not" :: rest =>
    match rest with
    | .name "in" :: rest => .ok (some .notIn, rest)
    | _ => unexpected rest
  | ss => .ok (none, ss)

/-- The links of a chain of comparisons. -/
def links (operand : Reader Expression) : Nat → Reader (List (Comparison × Expression))
  | 0, ss => .ok ([], ss)
  | fuel + 1, ss => do
    match ← comparison? ss with
    | (none, _) => return ([], ss)
    | (some op, rest) =>
      let (e, ss) ← operand rest
      let (more, ss) ← links operand fuel ss
      return ((op, e) :: more, ss)

/-- A chain of comparisons, or its only operand. -/
def comparisons (operand : Reader Expression) : Reader Expression := fun ss => do
  let (first, ss) ← operand ss
  match ← links operand ss.length ss with
  | ([], ss) => return (first, ss)
  | (links, ss) => return (.comparison first links, ss)

/-- An operand behind the word `not`. -/
def negations (operand : Reader Expression) : Reader Expression
  | .name "not" :: rest => do
    let (e, ss) ← negations operand rest
    return (.negation e, ss)
  | ss => operand ss

/-- How a word combines two operands. -/
def combineWord (word : String) (combine : Expression → Expression → Expression) :
    Symbol → Option (Expression → Expression → Expression)
  | .name s => if s == word then some combine else none
  | _ => none

/-- An expression that is no conditional, from its tightest operands. -/
def unconditional (operand : Reader Expression) : Reader Expression :=
  level (combineWord "or" .disjunction) <|
  level (combineWord "and" .conjunction) <|
  negations <| comparisons <| arithmetic operand

/-- Conditionals behind an expression. -/
def conditionals (operand : Reader Expression) : Nat → Expression → Reader Expression
  | 0, e, ss => .ok (e, ss)
  | fuel + 1, e, ss =>
    match ss with
    | .name "if" :: rest => do
      let (condition, ss) ← operand rest
      match ss with
      | .name "else" :: rest =>
        let (no, ss) ← operand rest
        let (no, ss) ← conditionals operand fuel no ss
        return (.conditional condition e (some no), ss)
      | ss => conditionals operand fuel (.conditional condition e none) ss
    | _ => .ok (e, ss)

/-- An expression whose primaries nest `inner` and whose accesses and calls nest `expr`. The
arguments under keywords are read by `plain`, which knows no conditional. -/
def operandOf (inner expr plain : Reader Expression) : Reader Expression := fun ss => do
  let accessed : Reader Expression := fun ss => do
    let (e, ss) ← signed (primary inner) ss
    accesses expr plain ss.length e ss
  let (e, ss) ← accessed ss
  pipes expr plain accessed ss.length e ss

mutual

/-- An expression, with `depth` levels of nesting left. -/
def expressionAt : Nat → Reader Expression
  | 0, ss => unexpected ss
  | 1, ss => unexpected ss
  | depth + 2, ss => do
    let operand := unconditional
      (operandOf (expressionAt depth) (expressionAt (depth + 1)) (plainAt (depth + 1)))
    let (e, ss) ← operand ss
    conditionals operand ss.length e ss

/-- An expression that is no conditional, with `depth` levels of nesting left. -/
def plainAt : Nat → Reader Expression
  | 0, ss => unexpected ss
  | depth + 1, ss =>
    unconditional (operandOf (expressionAt depth) (expressionAt depth) (plainAt depth)) ss

end

/-- The expression that a text holds. -/
def read (text : String) : Except ExpressionFault Expression := do
  match ← expressionAt maxNesting (symbols text) with
  | (e, []) => return e
  | (_, ss) => unexpected ss

end Stencil.Expression
