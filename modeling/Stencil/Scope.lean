import Stencil.NameSet

/-!
# Names bound in a template

While a template is compiled, the scope knows which names the template itself has bound, frame by
frame. The outermost frame is the top level of the template and stays open.
-/

namespace Stencil

/-- The frames of bound names, innermost first. -/
structure Scope where
  frames : List NameSet := [.empty]
  deriving Inhabited

namespace Scope

/-- Open a frame inside all others. -/
def create (s : Scope) : Scope := ⟨.empty :: s.frames⟩

/-- Close the innermost frame, unless it is the only one. -/
def destroy (s : Scope) : Scope :=
  match s.frames with
  | _ :: outer :: rest => ⟨outer :: rest⟩
  | _ => s

/-- Bind a name in the innermost frame. -/
def add (s : Scope) (name : String) : Scope :=
  match s.frames with
  | [] => s
  | frame :: outer => ⟨frame.insert name :: outer⟩

/-- Bind several names in the innermost frame. -/
def addAll (s : Scope) (names : List String) : Scope := names.foldl add s

/-- Whether a name is bound in some frame. -/
def has (s : Scope) (name : String) : Bool := s.frames.any fun frame => decide (name ∈ frame)

/-- How many frames are open. -/
def depth (s : Scope) : Nat := s.frames.length

@[simp]
theorem depth_create (s : Scope) : s.create.depth = s.depth + 1 := rfl

@[simp]
theorem depth_add (s : Scope) (name : String) : (s.add name).depth = s.depth := by
  obtain ⟨frames⟩ := s
  cases frames <;> rfl

/-- Closing a frame takes back opening it. -/
@[simp]
theorem destroy_create (s : Scope) (h : 0 < s.depth) : s.create.destroy = s := by
  obtain ⟨frames⟩ := s
  cases frames with
  | nil => simp [depth] at h
  | cons f fs => rfl

end Scope

end Stencil
