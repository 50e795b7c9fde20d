import Stencil.Number.Binary

/-!
# Values

The values that bindings hold and expressions produce. Integers have up to 128 bits, maps keep their
entries sorted by key, and a lazy sequence is told apart from a list only where a value is shown.
-/

namespace Stencil

/-- A value of a binding or an expression. -/
inductive Value where
  | undefined
  | null
  | bool (b : Bool)
  | int (n : Int)
  | float (x : Float)
  | str (s : String)
  | seq (items : List Value)
  /-- A lazy sequence, by the items it yields. -/
  | iter (items : List Value)
  /-- A map, by its entries in the order of their keys. -/
  | map (entries : List (Value × Value))
  deriving Inhabited, Repr

/-- The kinds of values, in the order in which values of different kinds compare. -/
inductive Kind where
  | undefined
  | null
  | bool
  | number
  | string
  | sequence
  | map
  | iterator
  deriving DecidableEq, Repr

namespace Kind

/-- The name of the kind. -/
def name : Kind → String
  | undefined => "undefined"
  | null => "none"
  | bool => "bool"
  | number => "number"
  | string => "string"
  | sequence => "sequence"
  | map => "map"
  | iterator => "iterator"

/-- The place of the kind among all kinds. -/
def rank : Kind → Nat
  | undefined => 0
  | null => 1
  | bool => 2
  | number => 3
  | string => 4
  | sequence => 5
  | map => 6
  | iterator => 7

end Kind

namespace Value

/-- The kind of a value. -/
def kind : Value → Kind
  | undefined => .undefined
  | null => .null
  | bool _ => .bool
  | int _ => .number
  | float _ => .number
  | str _ => .string
  | seq _ => .sequence
  | iter _ => .iterator
  | map _ => .map

/-- Whether a condition takes the value for true. -/
def isTrue : Value → Bool
  | undefined => false
  | null => false
  | bool b => b
  | int n => n != 0
  | float x => x != 0.0
  | str s => !s.isEmpty
  | seq items => !items.isEmpty
  | iter items => !items.isEmpty
  | map entries => !entries.isEmpty

/-- The characters of a text, each as a text. -/
def ofChars (s : String) : List Value := s.toList.map fun c => .str (.singleton c)

/-- What iterating over the value yields: characters, items, or keys. Nothing comes of a missing
value, and other values cannot be iterated. -/
def items? : Value → Option (List Value)
  | undefined => some []
  | null => some []
  | str s => some (ofChars s)
  | seq items => some items
  | iter items => some items
  | map entries => some (entries.map (·.1))
  | _ => none

/-- How many items, characters or entries the value has. -/
def length? : Value → Option Nat
  | str s => some s.length
  | seq items => some items.length
  | iter items => some items.length
  | map entries => some entries.length
  | _ => none

/-- The integer of 64 bits that a value stands for: booleans count as zero and one, and a float must
be whole. The float just above the largest integer counts as that one. -/
def int64? : Value → Option Int
  | bool b => some (if b then 1 else 0)
  | int n => if Number.fitsSigned 64 n then some n else none
  | float x =>
    match Number.integer? x with
    | some n =>
      if Number.fitsSigned 64 n then some n
      else if n = Number.twoTo 63 then some (n - 1)
      else none
    | none => none
  | _ => none

/-- The count that a value stands for. -/
def count? : Value → Option Nat
  | bool b => some (if b then 1 else 0)
  | int n => if Number.fitsUnsigned 64 n then some n.toNat else none
  | float x =>
    match (float x).int64? with
    | some n => if 0 ≤ n then some n.toNat else none
    | none => none
  | _ => none

end Value

end Stencil
