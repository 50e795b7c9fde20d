import Stencil.Value.Basic

/-!
# Equality and order of values

Numbers and booleans are equal when they are the same number; an integer and a float are compared
only when the float form of the integer is exact. Sequences are equal to lazy sequences with the
same items.

The order compares kinds first, then values of one kind: numbers by size (floats totally, so that
`-0.0` comes before `0.0` and what is not a number comes last), texts by code points, sequences and
maps item by item.
-/

namespace Stencil

/-- Two values brought to one type. -/
inductive Coerced where
  | ints (a b : Int)
  | floats (a b : Float)
  | texts (a b : String)

namespace Value

/-- The integer of a number or boolean that 128 bits with a sign can hold. -/
def int128? : Value → Option Int
  | bool b => some (if b then 1 else 0)
  | int n => if Number.fitsSigned 128 n then some n else none
  | _ => none

/-- The float nearest to a number or boolean. -/
def nearestFloat? : Value → Option Float
  | bool b => some (if b then 1.0 else 0.0)
  | int n => some (Float.ofInt n)
  | float x => some x
  | _ => none

/-- The float equal to a number or boolean. -/
def exactFloat? (v : Value) : Option Float :=
  match v with
  | int n =>
    let x := Float.ofInt n
    if Number.integer? x == some n then some x else none
  | _ => v.nearestFloat?

/-- Two values as integers, floats or texts, with integers turned into floats by `toFloat`. -/
def coerceBy (toFloat : Value → Option Float) (a b : Value) : Option Coerced :=
  match a, b with
  | str a, str b => some (.texts a b)
  | float x, b => (toFloat b).map (.floats x)
  | a, float y => (toFloat a).map (.floats · y)
  | a, b =>
    match a.int128?, b.int128? with
    | some a, some b => some (.ints a b)
    | _, _ => none

/-- Two values as operands of arithmetic. -/
def operands (a b : Value) : Option Coerced := coerceBy nearestFloat? a b

/-- Two values for an exact comparison. -/
def comparands (a b : Value) : Option Coerced := coerceBy exactFloat? a b

/-- Equality of values that hold no others. -/
def equalsFlat (a b : Value) : Bool :=
  match a, b with
  | null, null => true
  | undefined, undefined => true
  | int a, int b => a == b
  | a, b =>
    match comparands a b with
    | some (.ints a b) => a == b
    | some (.floats a b) => a == b
    | some (.texts a b) => a == b
    | none => false

mutual

/-- Whether two values are equal. -/
def equals : Value → Value → Bool
  | seq xs, b =>
    match b with
    | seq ys => equalsAll xs ys
    | iter ys => equalsAll xs ys
    | _ => false
  | iter xs, b =>
    match b with
    | seq ys => equalsAll xs ys
    | iter ys => equalsAll xs ys
    | _ => false
  | map es, b =>
    match b with
    | map fs => equalsEntries es fs
    | _ => false
  | a, b => equalsFlat a b
termination_by structural a => a

/-- Whether two lists have equal items. -/
def equalsAll : List Value → List Value → Bool
  | [], ys => ys.isEmpty
  | x :: xs, ys =>
    match ys with
    | [] => false
    | y :: ys => equals x y && equalsAll xs ys
termination_by structural xs => xs

/-- Whether two lists of entries have equal keys and values. -/
def equalsEntries : List (Value × Value) → List (Value × Value) → Bool
  | [], fs => fs.isEmpty
  | (k, v) :: es, fs =>
    match fs with
    | [] => false
    | (k', v') :: fs => equals k k' && equals v v' && equalsEntries es fs
termination_by structural es => es

end

instance : BEq Value := ⟨equals⟩

/-- The place of a float in the total order of all floats. -/
def totalRank (x : Float) : Int :=
  let bits := x.toBits.toNat
  let half := Number.twoTo 63
  if bits < half then bits else (half : Int) - 1 - bits

/-- The order of values that hold no others, of one kind. -/
def compareFlat (a b : Value) : Ordering :=
  match a, b with
  | int a, int b => compare a b
  | a, b =>
    match (comparands a b).orElse fun _ => operands a b with
    | some (.ints a b) => compare a b
    | some (.floats a b) => compare (totalRank a) (totalRank b)
    | some (.texts a b) => compare a b
    | none => .eq

mutual

/-- The order of two values. -/
def order : Value → Value → Ordering
  | a, b =>
    match compare a.kind.rank b.kind.rank with
    | .eq =>
      match a, b with
      | seq xs, seq ys => orderAll xs ys
      | iter xs, iter ys => orderAll xs ys
      | map es, map fs => orderEntries es fs
      | a, b => compareFlat a b
    | decided => decided
termination_by structural a => a

/-- The order of two lists, decided at the first difference. -/
def orderAll : List Value → List Value → Ordering
  | [], ys => if ys.isEmpty then .eq else .lt
  | x :: xs, ys =>
    match ys with
    | [] => .gt
    | y :: ys => (order x y).then (orderAll xs ys)
termination_by structural xs => xs

/-- The order of two lists of entries, decided at the first difference. -/
def orderEntries : List (Value × Value) → List (Value × Value) → Ordering
  | [], fs => if fs.isEmpty then .eq else .lt
  | (k, v) :: es, fs =>
    match fs with
    | [] => .gt
    | (k', v') :: fs => (order k k').then ((order v v').then (orderEntries es fs))
termination_by structural es => es

end

/-- The entries with `value` under `key`, in the order of the keys. -/
def insertEntry (key value : Value) : List (Value × Value) → List (Value × Value)
  | [] => [(key, value)]
  | (k, v) :: rest =>
    match order key k with
    | .lt => (key, value) :: (k, v) :: rest
    | .eq => (k, value) :: rest
    | .gt => (k, v) :: insertEntry key value rest

/-- The map with these entries; of equal keys the last counts. -/
def ofEntries (entries : List (Value × Value)) : Value :=
  .map (entries.foldl (fun es (k, v) => insertEntry k v es) [])

/-- The value of a map under a key. -/
def lookupKey? (entries : List (Value × Value)) (key : Value) : Option Value :=
  (entries.find? fun e => order key e.1 == .eq).map (·.2)

end Value

end Stencil
