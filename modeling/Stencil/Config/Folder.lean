import Stencil.Path

/-!
# Project folders

A project folder holds files and empty directories. A path is followed from the folder component by
component: every component but the last must be a directory, also where `.` or `..` or a trailing
slash follows. What lies outside of the folder is not known and counts as missing.
-/

namespace Stencil

/-- Why a path in a folder cannot be read. -/
inductive ReadFault where
  | missing
  /-- Something other than a directory is taken for one. -/
  | notDirectory
  /-- A directory is taken for a file. -/
  | isDirectory
  deriving DecidableEq, Repr

namespace ReadFault

/-- The reason in words. -/
def describe : ReadFault → String
  | missing => "No such file or directory (os error 2)"
  | notDirectory => "Not a directory (os error 20)"
  | isDirectory => "Is a directory (os error 21)"

end ReadFault

/-- Files with their texts, and empty directories without. -/
structure Folder where
  entries : List (Path × Option String) := []

namespace Folder

/-- What a folder has at a place. -/
inductive Node where
  | file (text : String)
  | directory
  deriving DecidableEq, Repr

/-- What the folder has at the place with these components. -/
def node? (f : Folder) (place : List PathPart) : Option Node :=
  match f.entries.find? fun e => e.1.parts == place with
  | some (_, some text) => some (.file text)
  | some (_, none) => some .directory
  | none =>
    if place.isEmpty || f.entries.any (fun e => place.isPrefixOf e.1.parts) then some .directory
    else none

/-- One step from a directory along a piece of a path: the place is given latest component first. -/
def enter (place : List PathPart) (piece : List Char) : Except ReadFault (List PathPart) :=
  match PathPart.ofPiece? piece, place with
  | none, place => .ok place
  | some .up, [] => .error .missing
  | some .up, _ :: place => .ok place
  | some part, place => .ok (part :: place)

/-- Follow the pieces of a path from a place. -/
def follow (f : Folder) : List PathPart → List (List Char) → Except ReadFault Node
  | place, [] => ((f.node? place.reverse).map Except.ok).getD (.error .missing)
  | place, piece :: pieces =>
    match f.node? place.reverse with
    | none => .error .missing
    | some (.file _) => .error .notDirectory
    | some .directory => do
      let place ← enter place piece
      follow f place pieces

/-- What is at a path. -/
def at? (f : Folder) (p : Path) : Except ReadFault Node :=
  if p.isAbsolute then .error .missing else f.follow [] (Text.splitAt (· == '/') p.text.toList)

/-- The text of the file at a path. -/
def read (f : Folder) (p : Path) : Except ReadFault String :=
  match f.at? p with
  | .ok (.file text) => .ok text
  | .ok .directory => .error .isDirectory
  | .error fault => .error fault

/-- Whether there is a file at a path. -/
def isFile (f : Folder) (p : Path) : Bool := (f.read p).toBool

end Folder

end Stencil
