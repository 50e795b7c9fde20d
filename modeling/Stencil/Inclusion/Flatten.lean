import Stencil.Error
import Stencil.FileStore
import Stencil.Inclusion.Directive
import Stencil.NameSet
import Stencil.Token.Marker

/-!
# Flattening

Every directive is replaced by the text of the file that it names, with markers around it, until no
directive is left. What takes the place of a directive is indented like the line of the directive.

* A file is read once, whatever names it; the files that a text names are read before any of them is
  flattened.
* A file that is being flattened may not be included again. So a chain of inclusions is never longer
  than there are files, and that many levels are enough for `expand`.
-/

namespace Stencil

open Text

/-- Where the files of a template are. -/
structure Folders where
  /-- Files are named as seen from here. -/
  base : Path
  /-- Included files are looked up here. -/
  parts : Path
  deriving Repr

namespace Folders

/-- The name of a file. -/
def fileName (f : Folders) (p : Path) : String := replace (p.relativeTo f.base).text "\\" "/"

end Folders

/-- A directive and the file that it names. -/
structure Target where
  directive : Directive
  path : Path
  file : String

/-- The file that a directive of the file at `path` names. -/
def Folders.target (f : Folders) (path : Path) (d : Directive) : Target :=
  let directory := match d.kind with
    | .part => f.parts
    | .parent => path.parent?.getD f.base
  let target := (directory.join ⟨.ofList d.name⟩).normalize
  ⟨d, target, f.fileName target⟩

/-- The files met so far. -/
structure Closure where
  files : Files := {}
  /-- The files that each file includes itself. -/
  includes : Table (List String) := {}
  /-- What was read, in order. -/
  reads : List Path := []

/-- What happens while files are read; the files met are known also when it fails. -/
abbrev Resolving := EStateM Error Closure

/-- What is needed to flatten a template. -/
structure Flattener where
  store : FileStore
  folders : Folders

namespace Flattener

/-- Fail at a directive of a file. -/
def fail {α : Type} (cause : Cause) (file : String) (d : Directive) : Resolving α := do
  throw (.atPos cause (← get).files ⟨file, d.offset⟩)

/-- Keep the text that was read for a target. -/
def keep (file : String) (target : Target) (text : Except String String) : Resolving Unit :=
  match text with
  | .ok text => modify fun c => { c with files := c.files.insert target.file text }
  | .error reason =>
    let d := target.directive
    fail (.unresolved d.kind.describe (.ofList d.name) reason) file d

/-- Read the targets that were not read yet. -/
def fetch (e : Flattener) (file : String) (targets : List Target) : Resolving Unit := do
  let known := (← get).files
  let missing := (targets.filter fun t => !known.contains t.file).eraseDupsBy (·.file == ·.file)
  modify fun c => { c with reads := c.reads ++ missing.map Target.path }
  missing.forM fun t => keep file t (e.store.load t.path)

/-- The text of a file in the place of a directive of `parent`. -/
def wrap (body : List Char) (target : Target) (parent : String) : List Char :=
  let d := target.directive
  let body := joinWith ('\n' :: d.indent) (splitAt (· == '\n') (trimRight body))
  beginMarker (byteLength d.source) (byteLength d.indent) target.file ++ body ++ endMarker parent

/-- The flattened text of the last of the `active` files, which include each other in order, on at
most `fuel` more levels. -/
def expand (e : Flattener) : Nat → List String → String → Path → Resolving (List Char)
  | 0, active, _, _ => throw ⟨.cyclicInclusion active, none⟩
  | fuel + 1, active, file, path => do
    let segments := segments (((← get).files.get? file).getD "").toList
    let targets := (segments.filterMap Segment.directive?).map (e.folders.target path)
    e.fetch file targets
    let included := (targets.map Target.file).eraseDups
    modify fun c => { c with includes := c.includes.insertNew file included }
    let texts ← segments.mapM fun segment =>
      match segment with
      | .text cs => pure cs
      | .directive d => do
        let target := e.folders.target path d
        let chain := active ++ [target.file]
        if active.contains target.file then fail (.cyclicInclusion chain) file d
        let body ← expand e fuel chain target.file target.path
        return wrap body target file
    return texts.flatten

end Flattener

/-! ## Flattened templates -/

/-- A template without directives. -/
structure Flattened where
  text : String
  /-- The file that the text starts in. -/
  root : String
  files : Files
  /-- The files that each file includes itself, in the order of the inclusions. -/
  includes : Table (List String) := {}

namespace Flattened

/-- The files that the template includes, directly or through others. -/
def dependencies (f : Flattened) : NameSet := .ofList f.includes.values.flatten

/-- A template that belongs to no file; its directives stay. -/
def ofString (text : String) : Flattened :=
  { text, root := stringFile, files := .ofList [(stringFile, text)] }

end Flattened

/-- Where a template is, and where the files are that it includes. -/
structure Place where
  source : Path
  base : Path
  parts : Path
  deriving Repr

/-- Flatten the text of the template at a place. -/
def flatten (store : FileStore) (place : Place) (text : String) : Resolving Flattened := do
  let source := place.source.normalize
  let folders : Folders := ⟨place.base.normalize, place.parts.normalize⟩
  let root := folders.fileName source
  modify fun c => { c with files := c.files.insert root text }
  let expanded ← Flattener.expand ⟨store, folders⟩ (store.files.length + 1) [root] root source
  let c ← get
  return { text := .ofList expanded, root, files := c.files, includes := c.includes }

end Stencil
