import Stencil.Text.Blank
import Stencil.Text.Search

/-!
# Paths

A path is a text whose components are separated by slashes. Paths are compared by their components,
so repeated and trailing slashes do not count, nor do components `.` other than one in front of a
relative path. `Path.normalize` resolves `.` and `..` by the text alone.

* `resolve_up_name`: going up takes back the name before it.
* `resolve_current`: components `.` do not count.
-/

namespace Stencil

open Text

/-- A component of a path. -/
inductive PathPart where
  /-- The slash in front of an absolute path. -/
  | root
  /-- The `.` in front of a relative path. -/
  | current
  /-- The parent directory, `..`. -/
  | up
  /-- A directory or a file. -/
  | name (text : List Char)
  deriving DecidableEq, Repr

namespace PathPart

/-- The component that stands between two slashes, if it counts. -/
def ofPiece? (piece : List Char) : Option PathPart :=
  if piece.isEmpty || piece == ['.'] then none
  else if piece == ['.', '.'] then some .up
  else some (.name piece)

/-- The text of a component. -/
def text : PathPart → List Char
  | root => []
  | current => ['.']
  | up => ['.', '.']
  | name text => text

end PathPart

/-- A path. -/
structure Path where
  text : String
  deriving DecidableEq, Repr, Inhabited

namespace Path

/-- Whether a path starts at the root. -/
def isAbsolute (p : Path) : Bool := p.text.toList.head? == some '/'

/-- The components of a path. -/
def parts (p : Path) : List PathPart :=
  let (first, others) := pieces (· == '/') p.text.toList
  let front :=
    if p.isAbsolute then some .root
    else if first == ['.'] then some .current
    else PathPart.ofPiece? first
  front.toList ++ others.filterMap PathPart.ofPiece?

/-- The text of some components. -/
def writeParts : List PathPart → List Char
  | .root :: parts => '/' :: joinWith ['/'] (parts.map PathPart.text)
  | parts => joinWith ['/'] (parts.map PathPart.text)

/-- The path with the given components. -/
def ofParts (parts : List PathPart) : Path := ⟨.ofList (writeParts parts)⟩

/-- Whether two paths have the same components. -/
def same (p q : Path) : Bool := p.parts == q.parts

/-- Whether the components of `p` are the first ones of `q`. -/
def leadsTo (p q : Path) : Bool := p.parts.isPrefixOf q.parts

/-- A path as seen from another one; an absolute path stays as it is. -/
def join (p q : Path) : Path :=
  if q.isAbsolute then q
  else if p.text.isEmpty || p.text.toList.getLast? == some '/' then ⟨p.text ++ q.text⟩
  else ⟨p.text ++ "/" ++ q.text⟩

/-- The components passed so far, latest first, with one more. Going up takes back the component
before, unless there is none or it is the root. -/
def resolve : List PathPart → PathPart → List PathPart
  | passed, .current => passed
  | [], .up => [.up]
  | .root :: passed, .up => .up :: .root :: passed
  | _ :: passed, .up => passed
  | passed, part => part :: passed

/-- The path with `.` and `..` resolved. -/
def normalize (p : Path) : Path := ofParts (p.parts.foldl resolve []).reverse

/-- The directory that a path lies in. -/
def parent? (p : Path) : Option Path :=
  match p.parts.reverse with
  | [] => none
  | .root :: _ => none
  | _ :: rest => some (ofParts rest.reverse)

/-- The components behind those of `base`; the whole path when it does not lie there. -/
def relativeTo (p base : Path) : Path :=
  if base.leadsTo p then ofParts (p.parts.drop base.parts.length) else p

/-- The last component, when it is a name. -/
def fileName? (p : Path) : Option (List Char) :=
  match p.parts.getLast? with
  | some (.name text) => some text
  | _ => none

/-- What stands behind the last dot of the name; a dot in front of the name does not count. -/
def extension? (p : Path) : Option String := do
  let name ← p.fileName?
  match pieces (· == '.') name with
  | (_, []) => none
  | ([], [_]) => none
  | (_, others) => return .ofList (others.getLastD [])

/-! ## Resolving -/

/-- Going up takes back the name before it. -/
@[simp]
theorem resolve_up_name (passed : List PathPart) (text : List Char) :
    resolve (.name text :: passed) .up = passed := rfl

/-- Components `.` do not count. -/
@[simp]
theorem resolve_current (passed : List PathPart) : resolve passed .current = passed := by
  cases passed <;> rfl

theorem same_refl (p : Path) : p.same p = true := by simp [same]

theorem same_symm {p q : Path} (h : p.same q = true) : q.same p = true := by
  simp_all [same]

theorem leadsTo_of_same {p q : Path} (h : p.same q = true) : p.leadsTo q = true := by
  have h : p.parts = q.parts := by simpa [same] using h
  simp [leadsTo, h, List.isPrefixOf_iff_prefix]

end Path

end Stencil
