import Stencil.NameSet
import Stencil.Table
import Stencil.Text.Quoted
import Stencil.Text.Search
import Stencil.Value.Convert

/-!
# Filters and registries of filters

A filter turns a value and its arguments into a value. A registry holds filters under their names;
where two registries are put together, the entries of the second one win.

* `get?_merged`: how two registries are put together.
-/

namespace Stencil

/-- Why a filter fails. -/
inductive FilterFault where
  | missingArgument (filter : String) (count : Nat)
  | number (fault : Value.NumberFault)
  | notSequence (shown : String)
  | divisionByZero
  /-- A reason given by a filter of the host. -/
  | refused (reason : String)
  deriving DecidableEq, Repr

/-- The fault in words. -/
def FilterFault.describe : FilterFault → String
  | missingArgument filter count =>
    "`" ++ filter ++ "` expects at least " ++ toString count ++ " argument(s)"
  | number fault => fault.describe
  | notSequence shown => "`" ++ shown ++ "` is not a sequence"
  | divisionByZero => "division by zero"
  | refused reason => reason

/-- A filter: the value it is applied to, and its arguments. -/
abbrev Filter := Value → List Value → Except FilterFault Value

/-- Filters by name. -/
structure FilterRegistry where
  table : Table Filter := {}
  deriving Inhabited

namespace FilterRegistry

/-- The registry without filters. -/
def empty : FilterRegistry := {}

/-- The filter of a name. -/
def get? (r : FilterRegistry) (name : String) : Option Filter := r.table.get? name

/-- Whether there is a filter of that name. -/
def contains (r : FilterRegistry) (name : String) : Bool := (r.get? name).isSome

/-- Set the filter of a name. -/
def insert (r : FilterRegistry) (name : String) (filter : Filter) : FilterRegistry :=
  ⟨r.table.insert name filter⟩

/-- The names in order. -/
def names (r : FilterRegistry) : List String := (NameSet.ofList r.table.keys).toList

/-- How many filters there are. -/
def size (r : FilterRegistry) : Nat := r.names.length

/-- Whether there are no filters. -/
def isEmpty (r : FilterRegistry) : Bool := r.size == 0

/-- The filters of both registries; those of `extra` win. -/
def merged (r extra : FilterRegistry) : FilterRegistry :=
  extra.table.entries.foldr (fun (name, filter) s => s.insert name filter) r

/-- The filters with the given names; names without a filter are passed over. -/
def select (r : FilterRegistry) (names : List String) : FilterRegistry :=
  names.foldl (fun s name =>
    match r.get? name with
    | some filter => s.insert name filter
    | none => s) empty

/-- The names between braces. -/
def describe (r : FilterRegistry) : String :=
  "\x7b" ++ Text.join ", " (r.names.map Text.quote) ++ "\x7d"

theorem get?_insert (r : FilterRegistry) (key name : String) (filter : Filter) :
    (r.insert key filter).get? name = if name = key then some filter else r.get? name :=
  Table.get?_insert r.table key name filter

theorem get?_merged (r extra : FilterRegistry) (name : String) :
    (r.merged extra).get? name = (extra.get? name).or (r.get? name) := by
  obtain ⟨⟨entries⟩⟩ := extra
  show (entries.foldr (fun e s => s.insert e.1 e.2) r).get? name = _
  induction entries with
  | nil => simp [get?, Table.get?]
  | cons e rest ih =>
    obtain ⟨key, filter⟩ := e
    simp only [get?, Table.get?] at ih
    rw [List.foldr_cons, get?_insert]
    by_cases h : name = key
    · simp [h, get?, Table.get?]
    · have hb : (name == key) = false := by simpa using h
      simpa [h, hb, get?, Table.get?, List.lookup_cons] using ih

end FilterRegistry

end Stencil
