import Stencil.Expression.Arithmetic
import Stencil.Text.Case

/-!
# Filters, tests and functions of the expression language

They take their arguments in order: an argument that is missing where one is required, one of the
wrong kind, and one too many are told apart.
-/

namespace Stencil.Expression

/-- The arguments of a call: those by position, and at the end the ones under keywords as a map. -/
structure Arguments where
  values : List Value
  /-- Whether the last value holds the arguments under keywords. -/
  keywords : Bool := false

/-- A computation that takes arguments off the front of a list. -/
abbrev Taking (α : Type) := StateT Arguments (Except ExpressionFault) α

namespace Taking

/-- The next argument, unless there is none or it is missing as a value. -/
def optionalValue : Taking (Option Value) := do
  let args ← get
  match args.values with
  | [] => return none
  | v :: rest =>
    set { args with values := rest }
    return if v.kind == .undefined || v.kind == .null then none else some v

/-- The next argument. -/
def required : Taking Value := do
  let args ← get
  match args.values with
  | [] => throw .missingArgument
  | v :: rest =>
    set { args with values := rest }
    return v

/-- The text of the next argument, if there is one. -/
def optionalText : Taking (Option String) := do
  let args ← get
  if args.keywords && args.values.length == 1 then throw .invalidOperation
  return (← optionalValue).map Value.display

/-- The next argument as an integer, if there is one. -/
def optionalInt : Taking (Option Int) := do
  match ← optionalValue with
  | none => return none
  | some v =>
    match v.int64? with
    | some n => return some n
    | none => throw .invalidOperation

/-- The next argument as an integer. -/
def requiredInt : Taking Int := do
  match (← required).int64? with
  | some n => return n
  | none => throw .invalidOperation

/-- The next argument as a boolean, if there is one. -/
def optionalBool : Taking (Option Bool) := do
  match ← optionalValue with
  | none => return none
  | some (.bool b) => return some b
  | some _ => throw .invalidOperation

/-- Run a computation that has to take all arguments. -/
def all {α : Type} (x : Taking α) (args : Arguments) : Except ExpressionFault α := do
  let (a, rest) ← x.run args
  if rest.values.isEmpty then return a else throw .tooManyArguments

end Taking

open Taking

/-- Whether a sequence or text of that many items could be made. -/
def maxRange : Nat := 100000

/-- The integers from `lower` up to `upper`, which is left out, with `step` between them. -/
def integersFrom (lower upper step : Int) : Except ExpressionFault (List Value) :=
  if step == 0 then .error .invalidOperation
  else
    let distance := if 0 < step then upper - lower else lower - upper
    let count := ((distance + step.natAbs - 1) / step.natAbs).toNat
    if maxRange < count then .error .invalidOperation
    else .ok ((List.range count).map fun i : Nat => .int (lower + i * step))

/-- The integers of a range, from zero when only one bound is given. -/
def rangeFunction (args : Arguments) : Except ExpressionFault Value := do
  let (first, second, step) ← Taking.all (do
    let first ← requiredInt
    let second ← optionalInt
    let step ← optionalInt
    return (first, second, step)) args
  let items ← match second with
    | some upper => integersFrom first upper (step.getD 1)
    | none => integersFrom 0 first (step.getD 1)
  return .iter items

/-- The texts of some items, with a text between them once there is something to separate. -/
def joined (between : String) (items : List Value) : String :=
  items.foldl (fun s v => (if s.isEmpty then s else s ++ between) ++ v.display) ""

/-- The first item of a text, a sequence or a map. -/
def firstItem (v : Value) : Except ExpressionFault Value :=
  match v with
  | .undefined => .error .invalidOperation
  | .null => .error .invalidOperation
  | v =>
    match v.items? with
    | some items => .ok (items.headD .undefined)
    | none => .error .invalidOperation

/-- The last item of a text or a sequence. -/
def lastItem (v : Value) : Except ExpressionFault Value :=
  match v with
  | .str s => .ok ((Value.ofChars s).getLastD .undefined)
  | v =>
    match v.sequence? with
    | some items => .ok (items.getLastD .undefined)
    | none => .error .invalidOperation

/-- The number of items of a value. -/
def lengthOf (v : Value) : Except ExpressionFault Value :=
  match v.length? with
  | some n => .ok (.int n)
  | none => .error .invalidOperation

/-- The items of a value as one text. -/
def joinItems (v : Value) (between : String) : Except ExpressionFault Value :=
  match v with
  | .undefined => .ok (.str "")
  | .null => .ok (.str "")
  | v =>
    match v.items? with
    | some items => .ok (.str (joined between items))
    | none => .error .invalidOperation

/-- Another value where one is undefined, or false when `lax`. -/
def orDefault (v : Value) (other : Option Value) (lax : Bool) : Value :=
  if v.kind == .undefined || (lax && !v.isTrue) then other.getD (.str "") else v

/-- Apply the filter of a name. -/
def applyFilter (name : String) (v : Value) (args : Arguments) : Except ExpressionFault Value :=
  let none := fun (result : Unit → Except ExpressionFault Value) =>
    Taking.all (pure ()) args >>= result
  match name with
  | "upper" => none fun _ => .ok (.str (Text.upper v.display))
  | "lower" => none fun _ => .ok (.str (Text.lower v.display))
  | "length" => none fun _ => lengthOf v
  | "count" => none fun _ => lengthOf v
  | "first" => none fun _ => firstItem v
  | "last" => none fun _ => lastItem v
  | "join" => Taking.all optionalText args >>= fun between => joinItems v (between.getD "")
  | "default" => defaulted
  | "d" => defaulted
  | _ => .error .unknownFilter
where
  defaulted : Except ExpressionFault Value := do
    let (other, lax) ← Taking.all (do return (← optionalValue, ← optionalBool)) args
    return orDefault v other (lax.getD false)

/-- The integer whose parity counts. -/
def parityOf? (v : Value) : Option Int :=
  match v with
  | .int n => (Value.int n).int128?
  | v => v.int64?

/-- The test of a name on a value. -/
def testOf? (name : String) : Option (Value → Bool) :=
  match name with
  | "defined" => some fun v => v.kind != .undefined
  | "undefined" => some fun v => v.kind == .undefined
  | "none" => some fun v => v.kind == .null
  | "odd" => some fun v => (parityOf? v).any (· % 2 != 0)
  | "even" => some fun v => (parityOf? v).any (· % 2 == 0)
  | "string" => some fun v => v.kind == .string
  | "number" => some fun v => v.kind == .number
  | "sequence" => some fun v => v.kind == .sequence
  | "mapping" => some fun v => v.kind == .map
  | _ => none

/-- Apply the test of a name. -/
def applyTest (name : String) (v : Value) (args : Arguments) : Except ExpressionFault Value :=
  match testOf? name with
  | none => .error .unknownTest
  | some holds => Taking.all (pure ()) args >>= fun _ => .ok (.bool (holds v))

/-- Call what a name stands for: a value that is bound cannot be called. -/
def callNamed (lookup : String → Option Value) (name : String) (args : Arguments) :
    Except ExpressionFault Value :=
  if name == "loop" || name == "super" || (lookup name).isSome then .error .invalidOperation
  else if name == "range" then rangeFunction args
  else .error .unknownFunction

/-- Call a method: values have none, and an entry of a map cannot be called. -/
def callMethod (v : Value) (name : String) : Except ExpressionFault Value :=
  match v with
  | .map entries =>
    if (Value.lookupKey? entries (.str name)).isSome then .error .invalidOperation
    else .error .unknownMethod
  | _ => .error .unknownMethod

end Stencil.Expression
