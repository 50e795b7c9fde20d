import Stencil.Expression.Basic
import Stencil.Text.Search
import Stencil.Value.Order
import Stencil.Value.Show

/-!
# Operators on values

Arithmetic on integers of 128 bits and on floats, with booleans as zero and one. An integer result
that does not fit is an invalid operation, and so is an operand of another kind. Texts and sequences
can be added, and multiplied with a count.
-/

namespace Stencil.Value

open Number

/-- An integer result, when it fits into 128 bits with a sign. -/
def fitted (n : Int) : Except ExpressionFault Value :=
  if fitsSigned 128 n then .ok (.int n) else .error .invalidOperation

/-- Arithmetic on two integers or two floats. -/
def onNumbers (a b : Value) (ints : Int → Int → Except ExpressionFault Value)
    (floats : Float → Float → Float) : Except ExpressionFault Value :=
  match operands a b with
  | some (.ints a b) => ints a b
  | some (.floats a b) => .ok (.float (floats a b))
  | _ => .error .invalidOperation

/-- The items of a list or a lazy sequence. -/
def sequence? : Value → Option (List Value)
  | seq items => some items
  | iter items => some items
  | _ => none

/-- The negative of a number. -/
def negated : Value → Except ExpressionFault Value
  | int n => fitted (-n)
  | float x => .ok (.float (-x))
  | _ => .error .invalidOperation

/-- The sum of numbers, the concatenation of texts and sequences. -/
def plus (a b : Value) : Except ExpressionFault Value :=
  match a.sequence?, b.sequence? with
  | some xs, some ys => .ok (.iter (xs ++ ys))
  | _, _ =>
    match a, b with
    | str s, str t => .ok (.str (s ++ t))
    | a, b => onNumbers a b (fun a b => fitted (a + b)) (· + ·)

/-- A text or a sequence repeated, when one of the operands is one. -/
def repeated? (a b : Value) : Option (Except ExpressionFault Value) :=
  let times := fun (count : Value) (build : Nat → Value) =>
    match count.count? with
    | some n => Except.ok (build n)
    | none => Except.error ExpressionFault.invalidOperation
  let texts := fun s n => Value.str (String.join (List.replicate n s))
  let items := fun xs n => Value.iter (List.replicate n xs).flatten
  match a, b with
  | str s, n => some (times n (texts s))
  | n, str s => some (times n (texts s))
  | a, b =>
    match a.sequence?, b.sequence? with
    | some xs, _ => some (times b (items xs))
    | none, some ys => some (times a (items ys))
    | none, none => none

/-- The product of numbers, a repeated text or sequence. -/
def multiplied (a b : Value) : Except ExpressionFault Value :=
  (repeated? a b).getD (onNumbers a b (fun a b => fitted (a * b)) (· * ·))

/-- The quotient of two numbers as a float. -/
def divided (a b : Value) : Except ExpressionFault Value :=
  match a.nearestFloat?, b.nearestFloat? with
  | some x, some y => .ok (.float (x / y))
  | _, _ => .error .invalidOperation

/-- A function of two integers that is not defined where the second is zero. -/
def unlessZero (f : Int → Int → Int) (a b : Int) : Except ExpressionFault Value :=
  if b == 0 then .error .invalidOperation else fitted (f a b)

/-- The power of an integer to an exponent of 32 bits. -/
def powered (a b : Int) : Except ExpressionFault Value :=
  if !fitsUnsigned 32 b then .error .invalidOperation
  else if a.natAbs ≤ 1 then
    .ok (.int (if b == 0 then 1 else if a < 0 && b % 2 == 0 then 1 else a))
  else if 128 < b then .error .invalidOperation
  else fitted (Int.pow a b.toNat)

/-- Apply an operator. -/
def apply (op : Operator) (a b : Value) : Except ExpressionFault Value :=
  match op with
  | .add => plus a b
  | .subtract => onNumbers a b (fun a b => fitted (a - b)) (· - ·)
  | .concatenate => .ok (.str (a.display ++ b.display))
  | .multiply => multiplied a b
  | .divide => divided a b
  | .floorDivide => onNumbers a b (unlessZero (· / ·)) euclideanQuotient
  | .remainder => onNumbers a b (unlessZero (· % ·)) Number.remainder
  | .power => onNumbers a b powered Float.pow

/-- Whether a value occurs in a text, a sequence or among the keys of a map. -/
def contains (container v : Value) : Except ExpressionFault Bool :=
  match container with
  | undefined => .ok false
  | str s => .ok (Text.occursIn v.display.toList s.toList)
  | seq items => .ok (items.any (· == v))
  | iter items => .ok (items.any (· == v))
  | map entries => .ok (lookupKey? entries v).isSome
  | _ => .error .invalidOperation

/-- Compare two values. -/
def compared (op : Comparison) (a b : Value) : Except ExpressionFault Bool :=
  match op with
  | .equal => .ok (a == b)
  | .unequal => .ok (a != b)
  | .less => .ok (order a b == .lt)
  | .atMost => .ok (order a b != .gt)
  | .greater => .ok (order a b == .gt)
  | .atLeast => .ok (order a b != .lt)
  | .isIn => contains b a
  | .notIn => (contains b a).map (!·)

/-! ## Items and slices -/

/-- The item at an index that counts from the end when it is negative. -/
def itemAt? {α : Type} (items : List α) (index : Int) : Option α :=
  if 0 ≤ index then items[index.toNat]?
  else
    let back := (-index).toNat
    if back ≤ items.length then items[items.length - back]? else none

/-- The item of a value under a key, if there is one. -/
def itemOf? (v key : Value) : Option Value :=
  match v with
  | map entries => lookupKey? entries key
  | seq items => key.int64?.bind (itemAt? items)
  | iter items => key.int64?.bind (itemAt? items)
  | str s => key.int64?.bind (itemAt? (ofChars s))
  | _ => none

/-- What an access yields: a missing item is undefined, and a missing value has no items at all. -/
def access (v key : Value) : Except ExpressionFault Value :=
  match v.itemOf? key with
  | some item => .ok item
  | none => if v.kind == .undefined then .error .undefinedValue else .ok .undefined

/-- A bound of a slice: nothing when it is missing. -/
def sliceBound (v : Value) : Except ExpressionFault (Option Int) :=
  match v with
  | null => .ok none
  | v =>
    match v.int64? with
    | some n => .ok (some n)
    | none => .error .invalidOperation

/-- Every `step`-th item from the first one on; `skip` items still have to be passed. -/
def everyFrom {α : Type} (step : Nat) : Nat → List α → List α
  | _, [] => []
  | 0, x :: xs => x :: everyFrom step (step - 1) xs
  | skip + 1, _ :: xs => everyFrom step skip xs

/-- A bound counted from the front and kept inside the list. -/
def placed (length : Nat) (n : Int) : Nat :=
  min (if n < 0 then (length + n).toNat else n.toNat) length

/-- The items from `start` to `stop`, every `step`-th of them, backwards when the step is negative.
-/
def sliced {α : Type} (items : List α) (start stop : Option Int) (step : Int) : List α :=
  let length := items.length
  if 0 < step then
    let first := placed length (start.getD 0)
    let last := placed length (stop.getD length)
    everyFrom step.toNat 0 ((items.take last).drop first)
  else
    let first := match start with
      | none => length
      | some n => if n < 0 then (length + n + 1).toNat else min (n + 1).toNat length
    let last := match stop with
      | none => 0
      | some n => if n < 0 then (length + n + 1).toNat else min (n + 1).toNat length
    everyFrom (-step).toNat 0 ((items.take first).drop last).reverse

/-- A slice of a text or a sequence; of a missing value it is empty. -/
def slice (v start stop step : Value) : Except ExpressionFault Value := do
  let start ← sliceBound start
  let stop ← sliceBound stop
  let step := (← sliceBound step).getD 1
  if step == 0 then throw .invalidOperation
  match v with
  | undefined => return .seq []
  | null => return .seq []
  | str s => return .str (.ofList (sliced s.toList start stop step))
  | seq items => return .iter (sliced items start stop step)
  | iter items => return .iter (sliced items start stop step)
  | _ => throw .invalidOperation

end Stencil.Value
