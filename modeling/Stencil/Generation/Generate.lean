import Stencil.Generation.Registry

/-!
# Generating programs

The main body is generated from all tokens. It leaves the bodies of mixins and blocks behind as
ranges of tokens; they are generated afterwards, each in a frame of its own, so that a mixin may be
called before it is defined. Bodies generated late may leave further ones behind.

* `generateRange` ends because every handler has to move the draft forward.
* `generateDeferred` handles one body at a time; there are at most as many as there are tokens.
-/

namespace Stencil

/-- What is needed to generate a program. -/
structure Generator where
  env : DraftEnv
  registry : TagRegistry

/-- A program and what was learnt about the template. -/
structure Generated where
  program : Program
  locals : NameSet
  paths : NameSet
  /-- The first use of every filter. -/
  filters : Table Pos
  warnings : List Warning

namespace Generator

/-- Handle one token; `trim` tells whether a text is to be trimmed on the left. -/
def handle (g : Generator) (token : Token) (trim : Bool) (d : Draft) : Except Error Draft :=
  match token with
  | .raw text _ =>
    let text := if trim then .ofList (Text.trimLeft text.toList) else text
    .ok (if text.isEmpty then d else d.emit (.text text)).advance
  | .object expression filters _ _ =>
    let (p, d) := d.pipeline g.env expression filters
    .ok (d.emit (.emit p)).advance
  | .tag tag =>
    match g.registry.get? tag.name with
    | none => .error (.atPos (.unknownTag tag.name) g.env.files tag.pos)
    | some handler => handler g.env tag d

/-- Handle the token that the draft is at: its position is marked, and the trim of the tag before it
counts for it alone. -/
def step (g : Generator) (token : Token) (d : Draft) : Except Error Draft :=
  g.handle token d.trimNext ({ d with trimNext := false }.mark g.env token.pos)

/-- Handle the tokens before `stop`. -/
def generateRange (g : Generator) (stop : Nat) (d : Draft) : Except Error Draft :=
  if _h : d.idx < stop then
    match g.env.token? d.idx with
    | none => .ok d
    | some token =>
      match g.step token d with
      | .error e => .error e
      | .ok next =>
        if _h : d.idx < next.idx then generateRange g stop next
        else
          let name := (token.tag?.map Tag.name).getD ""
          .error (.atPos (.tagNotConsumed name) g.env.files token.pos)
  else .ok d
termination_by stop - d.idx

/-- The error of a block that is left open. -/
def leftOpen {α : Type} (g : Generator) (d : Draft) (kind : OpenKind) : Except Error α :=
  .error (g.env.nestingError d (.stillOpen kind.describe))

/-- Generate a body in a frame of its own, with its parameters bound. -/
def generateBody (g : Generator) (body : Deferred) (d : Draft) :
    Except Error (List Instruction × Draft) := do
  let depth := d.depth
  let d := (d.openBlock .root).withScope fun s => s.create.addAll body.params
  let d ← g.generateRange body.stop (d.skipTo body.start)
  let d := d.withScope Scope.destroy
  match d.closeBlock? with
  | none => .error (g.env.nestingError d (.nothingOpen "end"))
  | some (block, d) =>
    match block.kind with
    | .root => if d.depth = depth then return (block.body, d) else g.leftOpen d block.kind
    | kind => g.leftOpen d kind

/-- Generate the bodies left behind, those of mixins first, given how many of either kind are done.
-/
def generateDeferred (g : Generator) : Nat → Draft → Program → Except Error (Draft × Program)
  | 0, d, program => .ok (d, program)
  | fuel + 1, d, program =>
    match d.mixins.entries[program.mixins.size]?, d.blocks.entries[program.blocks.size]? with
    | some (name, body), _ => do
      let (instructions, d) ← g.generateBody body d
      let mixin := ⟨body.params, instructions⟩
      generateDeferred g fuel d { program with mixins := program.mixins.insert name mixin }
    | none, some (name, body) => do
      let (instructions, d) ← g.generateBody body d
      generateDeferred g fuel d { program with blocks := program.blocks.insert name instructions }
    | none, none => .ok (d, program)

/-- Warn about calls of mixins that are not defined. -/
def warnCalls (g : Generator) (program : Program) (d : Draft) : Draft :=
  d.calls.reverse.foldl (fun d (name, pos) =>
    if program.mixins.contains name then d
    else d.warn g.env ("mixin \"" ++ name ++ "\" is called but never defined") pos) d

/-- Generate the main body. -/
def generateMain (g : Generator) : Except Error Draft := do
  let d ← g.generateRange g.env.tokens.length {}
  if d.inner.isEmpty then return d else g.leftOpen d d.top.kind

/-- Generate a program. -/
def generate (g : Generator) : Except Error Generated := do
  let d ← g.generateMain
  let (d, program) ← g.generateDeferred (g.env.tokens.length + 1) d {}
  let d := g.warnCalls program d
  return {
    program := { program with body := d.root.body }
    locals := d.locals
    paths := d.paths
    filters := d.filters
    warnings := d.warnings.reverse }

end Generator

/-- Make a program of tokens. -/
def generate (tokens : List Token) (files : Files) (registry : TagRegistry) (positions : Bool) :
    Except Error Generated :=
  match blockSites registry.kinds tokens with
  | .error opener => .error (.atPos (.tagNotClosed opener.source) files opener.pos)
  | .ok sites => Generator.generate ⟨⟨tokens, files, registry.kinds, positions, sites⟩, registry⟩

end Stencil
