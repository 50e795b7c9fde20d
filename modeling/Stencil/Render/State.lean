import Stencil.Error
import Stencil.Program.Basic
import Stencil.Toolbox

/-!
# The state of a rendering

While a program runs, names are bound in frames, innermost first, around the globals that the
bindings gave. A name is looked up from the innermost frame outwards.

A step that fails still leaves a state behind: `State.within` closes the frame it opened in either
case.

* `lookup_declare`: a declared name has the declared value.
-/

namespace Stencil

/-- The state of a rendering. -/
structure RenderState where
  globals : Table Value := {}
  /-- The frames, innermost first. -/
  frames : List (Table Value) := []
  /-- Where the instruction that runs comes from. -/
  position : Option Pos := none
  /-- How many calls of mixins are open. -/
  depth : Nat := 0
  /-- What has been written. -/
  output : String := ""
  deriving Inhabited

namespace RenderState

/-- The value of a name in the innermost frame that has it. -/
def lookupIn (name : String) (frames : List (Table Value)) : Option Value :=
  frames.findSome? (·.get? name)

/-- The value of a name. -/
def lookup (s : RenderState) (name : String) : Option Value :=
  (lookupIn name s.frames).or (s.globals.get? name)

/-- Bind a name in the innermost frame. -/
def declare (s : RenderState) (name : String) (v : Value) : RenderState :=
  match s.frames with
  | [] => { s with globals := s.globals.insert name v }
  | frame :: outer => { s with frames := frame.insert name v :: outer }

/-- Change the name in the innermost frame that has it, if there is one. -/
def changeIn? (name : String) (v : Value) : List (Table Value) → Option (List (Table Value))
  | [] => none
  | frame :: outer =>
    if frame.contains name then some (frame.insert name v :: outer)
    else (changeIn? name v outer).map (frame :: ·)

/-- Change a name where it is bound, or bind it in the innermost frame. -/
def assign (s : RenderState) (name : String) (v : Value) : RenderState :=
  match changeIn? name v s.frames with
  | some frames => { s with frames }
  | none =>
    if s.globals.contains name then { s with globals := s.globals.insert name v }
    else s.declare name v

/-- Bind or change a name. -/
def store (s : RenderState) (name : String) (v : Value) (declares : Bool) : RenderState :=
  if declares then s.declare name v else s.assign name v

/-- Write a text. -/
def write (s : RenderState) (text : String) : RenderState := { s with output := s.output ++ text }

@[simp]
theorem lookup_declare (s : RenderState) (name x : String) (v : Value) :
    (s.declare name v).lookup x = if x = name then some v else s.lookup x := by
  unfold declare lookup lookupIn
  split
  · next h => by_cases hx : x = name <;> simp [h, hx, Table.get?_insert]
  · next frame outer h =>
    by_cases hx : x = name <;> simp [h, hx, List.findSome?_cons, Table.get?_insert]

end RenderState

/-- How a body ends: at its end, or in a jump that leaves it. -/
inductive Flow where
  | normal
  | break
  | continue
  deriving DecidableEq, Repr, Inhabited

/-- A step of a rendering: it may fail, and leaves a state in either case. -/
abbrev RenderM := EStateM Error RenderState

namespace RenderM

/-- Run a step with one more frame, which is closed when the step ends. -/
def within {α : Type} (frame : Table Value) (x : RenderM α) : RenderM α := fun s =>
  match x { s with frames := frame :: s.frames } with
  | .ok a t => .ok a { t with frames := t.frames.drop 1 }
  | .error e t => .error e { t with frames := t.frames.drop 1 }

/-- Run a step as the body of a mixin: one call deeper, and back at the position of the call in the
end. -/
def called {α : Type} (x : RenderM α) : RenderM α := fun s =>
  match x { s with depth := s.depth + 1 } with
  | .ok a t => .ok a { t with depth := t.depth - 1, position := s.position }
  | .error e t => .error e { t with depth := t.depth - 1, position := s.position }

end RenderM

end Stencil
