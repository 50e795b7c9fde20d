import Stencil.Generation.Builtin
import Stencil.Generation.Generate
import Stencil.Inclusion.Flatten
import Stencil.Program.Listing
import Stencil.Template
import Stencil.Token.Scan

/-!
# Compiling templates

A template is flattened, cut into tokens, made into a program, and the program is checked. `compile`
keeps what was learnt on the way; `render` goes on and renders the template.

* A template that includes files has a place: its own path, the directory that files are named
  after, and the directory where included files are kept. All three are given, or none.
* With `bundle` the template carries the filters it uses. Filters it uses and that nobody provides
  are worth a warning.
-/

namespace Stencil

/-- How a template is to be compiled. -/
structure CompileOptions where
  /-- The file of the template. -/
  source : Option Path := none
  /-- Files are named as seen from here. -/
  base : Option Path := none
  /-- Included files are kept here. -/
  parts : Option Path := none
  /-- Whether the program tells the position of every token. -/
  positions : Bool := true
  /-- Whether the template carries the filters it uses. -/
  bundle : Bool := false
  /-- Whether only the program is asked for, and no template. -/
  programOnly : Bool := false
  /-- Filters besides the built-in ones. -/
  filters : FilterRegistry := .empty
  /-- Tags besides the built-in ones. -/
  tags : TagRegistry := .empty
  tokenLimit : Nat := defaultTokenLimit
  store : FileStore := .empty

namespace CompileOptions

/-- Refuse an option. -/
def refuse {α : Type} (option reason : String) : Except Error α :=
  .error ⟨.invalidOption option reason, none⟩

/-- Refuse a path that does not exist. -/
def checkPath (o : CompileOptions) (option : String) (p : Path) : Except Error Unit :=
  if o.store.has p then .ok () else refuse option ("`" ++ p.text ++ "` does not exist")

/-- Refuse a place that is not given as a whole. -/
def incomplete {α : Type} (option : String) : Except Error α :=
  refuse option "`source_file`, `base_dir` and `includes_dir` are required together"

/-- The place of the template, if it is given. -/
def place (o : CompileOptions) : Except Error (Option Place) :=
  match o.source, o.base, o.parts with
  | none, none, none => .ok none
  | none, _, _ => incomplete "source_file"
  | _, none, _ => incomplete "base_dir"
  | _, _, none => incomplete "includes_dir"
  | some source, some base, some parts => do
    o.checkPath "source_file" source
    o.checkPath "base_dir" base
    o.checkPath "includes_dir" parts
    return some ⟨source, base, parts⟩

end CompileOptions

/-! ## Reading files -/

/-- What happens while files are read; the paths read are known also when it fails. -/
abbrev Reading := EStateM Error (List Path)

namespace Reading

/-- What needs no file. -/
def ofExcept {α : Type} : Except Error α → Reading α
  | .ok a => pure a
  | .error e => throw e

/-- Resolve inclusions. -/
def ofResolving {α : Type} (x : Resolving α) : Reading α := fun reads =>
  match x.run { reads } with
  | .ok a closure => .ok a closure.reads
  | .error e closure => .error e closure.reads

end Reading

/-! ## Compiling -/

/-- What compiling a template gives. -/
structure Compiled where
  program : Program
  /-- The template, unless only the program was asked for. -/
  template : Option Template
  /-- The variables that the template reads from its bindings. -/
  locals : NameSet
  /-- What the template reads of those variables, such as `user.name`. -/
  paths : NameSet
  warnings : List Warning
  flattened : Flattened

namespace Compiled

/-- The text of the program. -/
def code (c : Compiled) : String := c.program.listing

end Compiled

/-- The filters that a template carries. -/
def bundledFilters (o : CompileOptions) (g : Generated) : FilterRegistry :=
  (FilterRegistry.merged .builtin o.filters).select g.filters.keys

/-- The warnings about filters that nobody provides, at their first uses. -/
def filterWarnings (o : CompileOptions) (files : Files) (g : Generated) : List Warning :=
  let available := FilterRegistry.merged .builtin o.filters
  let missing := g.filters.entries.filter fun (name, _) => !available.contains name
  missing.map fun (name, pos) =>
    ⟨"filter \"" ++ name ++ "\" was not provided during compile", excerpt files excerptRadius pos⟩

/-- The program with the toolbox that it carries, and what there is to warn about. -/
def bundle (o : CompileOptions) (files : Files) (g : Generated) :
    Program × Option Toolbox × List Warning :=
  if o.bundle then
    let filters := bundledFilters o g
    ({ g.program with bundled := some filters.names }, some { filters },
      g.warnings ++ filterWarnings o files g)
  else (g.program, none, g.warnings)

/-- Compile a flattened template. -/
def compileFlattened (o : CompileOptions) (f : Flattened) : Except Error Compiled := do
  let tokens ← tokenize f.text f.root f.files o.tokenLimit
  let g ← generate tokens f.files (TagRegistry.merged .builtin o.tags) o.positions
  let (program, toolbox, warnings) := bundle o f.files g
  let template ←
    if o.programOnly then pure none else some <$> Template.produce program f.files toolbox
  return { program, template, locals := g.locals, paths := g.paths, warnings, flattened := f }

/-- Flatten a template. -/
def flattenWith (o : CompileOptions) (text : String) (place : Option Place) : Reading Flattened :=
  match place with
  | none => pure (.ofString text)
  | some place => .ofResolving (flatten o.store place text)

/-- Compile a template. -/
def compile (o : CompileOptions) (text : String) : Reading Compiled := do
  let place ← Reading.ofExcept o.place
  let f ← flattenWith o text place
  Reading.ofExcept (compileFlattened o f)

/-- The text of the template file. -/
def readSource (o : CompileOptions) : Reading String :=
  match o.source with
  | none => .ofExcept (CompileOptions.refuse "source_file" "required to compile from a file")
  | some path => do
    modify (· ++ [path])
    match o.store.load path with
    | .ok text => return text
    | .error reason => throw ⟨.unreadable reason, none⟩

/-- Compile the template file. -/
def compileFile (o : CompileOptions) : Reading Compiled := do
  compile o (← readSource o)

/-! ## Rendering -/

/-- Render what was compiled. A template that carries its filters uses those and no others. -/
def Compiled.render (c : Compiled) (o : CompileOptions) (bindings : Value) :
    Except Error String := do
  let template ← match c.template with
    | some template => pure template
    | none => Template.produce c.program c.flattened.files none
  if template.bundled || o.filters.isEmpty then template.render bindings
  else template.renderWith bindings (.withFilters o.filters)

/-- Compile and render a template. -/
def render (o : CompileOptions) (text : String) (bindings : Value) : Reading String := do
  let c ← compile o text
  Reading.ofExcept (c.render o bindings)

/-- Compile and render the template file. -/
def renderFile (o : CompileOptions) (bindings : Value) : Reading String := do
  let c ← compileFile o
  Reading.ofExcept (c.render o bindings)

end Stencil
