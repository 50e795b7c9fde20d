import Stencil.Token.Basic

/-!
# Programs

A compiled template is a program: a main body, and the bodies of the mixins and blocks that it
calls. An instruction that needs a value holds a pipeline: an expression as text, and the filters it
goes through.
-/

namespace Stencil

/-- An expression and its filters. -/
structure Pipeline where
  base : String
  filters : List FilterCall := []
  /-- The variable that has to be bound for the expression to be evaluated. -/
  needed : Option String := none
  deriving DecidableEq, Repr, Inhabited

/-- The pipeline of an expression without filters that needs no variable. -/
def Pipeline.ofBase (base : String) : Pipeline := { base }

/-- How an assignment combines the value with the current one. -/
inductive AssignOp where
  | set
  | add
  | subtract
  | multiply
  | divide
  deriving DecidableEq, Repr, Inhabited

namespace AssignOp

/-- The sign of an assignment. -/
def sign : AssignOp → String
  | set => "="
  | add => "+="
  | subtract => "-="
  | multiply => "*="
  | divide => "/="

/-- The assignment with a sign. -/
def ofSign? (s : String) : Option AssignOp :=
  [set, add, subtract, multiply, divide].find? (·.sign == s)

end AssignOp

/-- The names that an iteration binds. -/
inductive LoopBinding where
  /-- The item, or the key of an entry. -/
  | item (name : String)
  /-- Index or key, and the item. -/
  | keyed (key value : String)
  /-- The items of the item by their places, some of them passed over. -/
  | places (names : List (Option String))
  /-- Members of the item under their own names. -/
  | members (names : List String)
  deriving DecidableEq, Repr

/-- The names of a loop binding. -/
def LoopBinding.names : LoopBinding → List String
  | item name => [name]
  | keyed key value => [key, value]
  | places names => names.filterMap id
  | members names => names

/-- What a loop runs over. -/
inductive Iterable where
  | pipeline (p : Pipeline)
  /-- The integers from the first bound to the second, both included. -/
  | range (start stop : Pipeline)
  deriving DecidableEq, Repr

/-- Which values an arm of a case stands for. -/
inductive ArmLabel where
  | values (pipelines : List Pipeline)
  | default
  deriving DecidableEq, Repr

mutual

/-- An instruction of a program. -/
inductive Instruction where
  /-- Where what follows comes from. -/
  | position (pos : Pos)
  | text (s : String)
  | emit (p : Pipeline)
  | assign (name : String) (op : AssignOp) (p : Pipeline) (declares : Bool)
  | capture (name text : String) (declares : Bool)
  /-- The first branch that is taken, or the last resort. -/
  | choose (branches : List Branch) (otherwise : Option (List Instruction))
  /-- The arms from the first one that matches on. -/
  | switch (subject : Pipeline) (arms : List Arm)
  /-- The iterations from `offset` to `limit`. -/
  | loop (binding : LoopBinding) (iterable : Iterable) (offset limit : Option Int)
      (body : List Instruction)
  | break
  | continue
  | callMixin (name : String) (args : List Pipeline)
  | callBlock (name : String)
  | script (text : String)

/-- A branch, taken when its condition is true, or false when `negated`. -/
inductive Branch where
  | mk (condition : Pipeline) (negated : Bool) (body : List Instruction)

/-- An arm of a case. -/
inductive Arm where
  | mk (label : ArmLabel) (body : List Instruction)

end

instance : Inhabited Instruction := ⟨.break⟩

/-- A body that is called with arguments. -/
structure Mixin where
  params : List String
  body : List Instruction
  deriving Inhabited

/-- A compiled template. -/
structure Program where
  body : List Instruction := []
  mixins : Table Mixin := {}
  blocks : Table (List Instruction) := {}
  /-- The filters bundled with the program, when its toolbox was. -/
  bundled : Option (List String) := none
  deriving Inhabited

end Stencil
