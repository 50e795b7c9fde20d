/-!
# Tables

Values under string keys, in the order in which the keys were first inserted. Inserting under a key
that is there replaces the value and keeps the place.

* `get?_insert`: a table holds the value inserted last.
-/

namespace Stencil

/-- Values under string keys, in order of first insertion. -/
structure Table (α : Type) where
  entries : List (String × α) := []
  deriving Inhabited

namespace Table

variable {α : Type}

/-- The table without entries. -/
def empty : Table α := {}

/-- The value under a key. -/
def get? (t : Table α) (key : String) : Option α := t.entries.lookup key

/-- Whether a key is there. -/
def contains (t : Table α) (key : String) : Bool := (t.get? key).isSome

/-- The keys in order. -/
def keys (t : Table α) : List String := t.entries.map (·.1)

/-- The values in order of their keys. -/
def values (t : Table α) : List α := t.entries.map (·.2)

/-- How many entries there are. -/
def size (t : Table α) : Nat := t.entries.length

/-- The entries with the value under `key` set: in its place, or at the end when it is new. -/
def put (key : String) (value : α) : List (String × α) → List (String × α)
  | [] => [(key, value)]
  | (k, v) :: rest => if k == key then (key, value) :: rest else (k, v) :: put key value rest

/-- Set the value under a key. -/
def insert (t : Table α) (key : String) (value : α) : Table α := ⟨put key value t.entries⟩

/-- Set the value under a key that is not there yet. -/
def insertNew (t : Table α) (key : String) (value : α) : Table α :=
  if t.contains key then t else t.insert key value

/-- Remove a key. -/
def erase (t : Table α) (key : String) : Table α := ⟨t.entries.filter fun e => e.1 != key⟩

/-- The table that inserts the pairs of a list in turn. -/
def ofList (pairs : List (String × α)) : Table α :=
  pairs.foldl (fun t (key, value) => t.insert key value) {}

/-- The table without keys holds nothing. -/
@[simp]
theorem get?_empty (key : String) : (empty : Table α).get? key = none := rfl

theorem lookup_put (key k : String) (value : α) (entries : List (String × α)) :
    (put key value entries).lookup k = if k = key then some value else entries.lookup k := by
  by_cases h : k = key
  · subst h
    induction entries with
    | nil => simp [put]
    | cons e rest ih =>
      obtain ⟨k', v'⟩ := e
      by_cases hk' : k' = k
      · simp [put, hk']
      · have hb : (k == k') = false := by simpa using Ne.symm hk'
        simpa [put, List.lookup_cons, hk', hb] using ih
  · have hb : (k == key) = false := by simpa using h
    induction entries with
    | nil => simp [put, List.lookup_cons, h, hb]
    | cons e rest ih =>
      obtain ⟨k', v'⟩ := e
      by_cases hk' : k' = key
      · subst hk'
        simp [put, List.lookup_cons, h, hb]
      · by_cases hkk : k = k'
        · subst hkk
          simp [put, h]
        · have hb' : (k == k') = false := by simpa using hkk
          simpa [put, List.lookup_cons, hk', hb', h] using ih

theorem get?_insert (t : Table α) (key k : String) (value : α) :
    (t.insert key value).get? k = if k = key then some value else t.get? k :=
  lookup_put key k value t.entries

end Table

end Stencil
