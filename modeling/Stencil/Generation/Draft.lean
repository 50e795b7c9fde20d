import Stencil.Generation.Matching
import Stencil.Program.Basic
import Stencil.Scope
import Stencil.Variable

/-!
# Drafts

A draft is a program in the making. It knows the token it is at, the blocks that are open with the
instructions found in them so far, the names that the template has bound, and what has been learnt
about the template on the way: variables it reads, filters it uses, bodies to be generated later.

`DraftEnv` is what does not change while a program is made.
-/

namespace Stencil

/-- A remark about a template that compiles. -/
structure Warning where
  message : String
  /-- The excerpt of the template around the place. -/
  context : String
  deriving DecidableEq, Repr

/-- The remark with the excerpt below it. -/
def Warning.describe (w : Warning) : String := w.message ++ "\n" ++ w.context

/-- The tokens of a body that is generated later, and the names it binds. -/
structure Deferred where
  start : Nat
  stop : Nat
  params : List String
  deriving DecidableEq, Repr, Inhabited

/-- The two kinds of conditions. -/
inductive ConditionKind where
  | ifTrue
  | ifFalse
  deriving DecidableEq, Repr

namespace ConditionKind

/-- The tag that opens the condition. -/
def opener : ConditionKind → String
  | ifTrue => "if"
  | ifFalse => "unless"

/-- The tag that closes the condition. -/
def closer (k : ConditionKind) : String := closerOf k.opener

end ConditionKind

/-- The header of an open block. -/
inductive OpenKind where
  | root
  /-- The branches that are complete, latest first, and the one being filled: none behind `else`. -/
  | condition (kind : ConditionKind) (branches : List Branch) (current : Option (Pipeline × Bool))
  /-- The arms that are complete, latest first, and the label of the one being filled. -/
  | case (subject : Pipeline) (arms : List Arm) (current : Option ArmLabel)
  | loop (binding : LoopBinding) (iterable : Iterable) (offset limit : Option Int)

/-- The name of an open block in messages. -/
def OpenKind.describe : OpenKind → String
  | root => "template"
  | condition kind _ _ => kind.opener
  | case .. => "case"
  | loop .. => "for"

/-- A block whose body is being filled. -/
structure OpenBlock where
  kind : OpenKind
  /-- The instructions so far, latest first. -/
  found : List Instruction := []

/-- The body of the block. -/
def OpenBlock.body (b : OpenBlock) : List Instruction := b.found.reverse

/-- What does not change while a program is made. -/
structure DraftEnv where
  tokens : List Token
  files : Files
  kinds : TagKinds
  /-- Whether positions are put into the program. -/
  positions : Bool
  /-- Where the named blocks are. -/
  sites : Sites

/-- A program in the making. -/
structure Draft where
  /-- The index of the token being handled. -/
  idx : Nat := 0
  /-- The open blocks inside the outermost one, innermost first. -/
  inner : List OpenBlock := []
  /-- The outermost block. -/
  root : OpenBlock := { kind := .root }
  /-- The variables that are read from the bindings. -/
  locals : NameSet := .empty
  /-- The access paths by which they are read. -/
  paths : NameSet := .empty
  /-- The first use of every filter. -/
  filters : Table Pos := {}
  mixins : Table Deferred := {}
  blocks : Table Deferred := {}
  /-- The calls of mixins, latest first. -/
  calls : List (String × Pos) := []
  /-- The warnings, latest first. -/
  warnings : List Warning := []
  scope : Scope := {}
  /-- Whether the next token is trimmed on the left. -/
  trimNext : Bool := false
  deriving Inhabited

namespace DraftEnv

/-- The token at an index. -/
def token? (env : DraftEnv) (idx : Nat) : Option Token := env.tokens[idx]?

/-- The place of the token that a draft is at, or of the last token. -/
def posOf (env : DraftEnv) (d : Draft) : Pos :=
  match (env.token? d.idx).or env.tokens.getLast? with
  | some token => token.pos
  | none => ⟨stringFile, 0⟩

/-- The nesting error at the place of a draft. -/
def nestingError (env : DraftEnv) (d : Draft) (fault : NestingFault) : Error :=
  .nestingAt fault env.files (env.posOf d)

/-- The text of the tokens from `start` up to `stop`. -/
def sourceBetween (env : DraftEnv) (start stop : Nat) : String :=
  sourceOf ((env.tokens.take stop).drop start)

/-- The error of a closing tag that is not there. -/
def matchError (env : DraftEnv) (d : Draft) (name : String) : MatchFault → Error
  | .verbatimOpen opener => .atPos (.tagNotClosed opener.source) env.files opener.pos
  | .mismatch expected found => .nestingAt (.unexpected expected found.source) env.files found.pos
  | .missing =>
    .atPos (.tagNotClosed (((env.token? d.idx).map Token.source).getD name)) env.files (env.posOf d)

/-- The index of the tag `name` that closes the block whose tag a draft is at. -/
def findTag (env : DraftEnv) (d : Draft) (name : String) : Except Error Nat :=
  (closingTag env.kinds env.tokens name d.idx).mapError (env.matchError d name)

/-- The index of the tag that ends the verbatim block whose tag a draft is at. -/
def verbatimEnd (env : DraftEnv) (d : Draft) (tag : Tag) : Except Error Nat :=
  match verbatimEnd? env.tokens tag.name d.idx with
  | some stop => .ok stop
  | none => .error (.atPos (.tagNotClosed tag.source) env.files tag.pos)

end DraftEnv

namespace Draft

/-- Move to a token. -/
def skipTo (d : Draft) (idx : Nat) : Draft := { d with idx }

/-- Move past the token. -/
def advance (d : Draft) : Draft := d.skipTo (d.idx + 1)

/-- How many blocks are open. -/
def depth (d : Draft) : Nat := d.inner.length + 1

/-- The innermost open block. -/
def top (d : Draft) : OpenBlock := d.inner.headD d.root

/-- Replace the innermost open block. -/
def setTop (d : Draft) (b : OpenBlock) : Draft :=
  match d.inner with
  | [] => { d with root := b }
  | _ :: outer => { d with inner := b :: outer }

/-- Append an instruction to the innermost open block. -/
def emit (d : Draft) (i : Instruction) : Draft :=
  d.setTop { d.top with found := i :: d.top.found }

/-- The instructions with a position at the end: it takes the place of one that is there. -/
def markIn (pos : Pos) : List Instruction → List Instruction
  | .position _ :: found => .position pos :: found
  | found => .position pos :: found

/-- Note where the instructions that follow come from. -/
def mark (env : DraftEnv) (d : Draft) (pos : Pos) : Draft :=
  if env.positions then d.setTop { d.top with found := markIn pos d.top.found } else d

/-- Open a block. -/
def openBlock (d : Draft) (kind : OpenKind) : Draft := { d with inner := { kind } :: d.inner }

/-- Close the innermost open block, unless it is the outermost one. -/
def closeBlock? (d : Draft) : Option (OpenBlock × Draft) :=
  match d.inner with
  | [] => none
  | b :: outer => some (b, { d with inner := outer })

/-- Whether some open block is of a kind. -/
def inside (d : Draft) (p : OpenKind → Bool) : Bool := d.inner.any (p ·.kind) || p d.root.kind

/-- Change the scope. -/
def withScope (d : Draft) (f : Scope → Scope) : Draft := { d with scope := f d.scope }

/-- Bind a name, and tell whether it was free. -/
def declare (d : Draft) (name : String) : Bool × Draft :=
  (!d.scope.has name, d.withScope (·.add name))

/-- Note the variable that an expression reads, unless the template binds it, and answer its name.
-/
def addLocal (d : Draft) (expression : String) : Option String × Draft :=
  match Access.ofExpression? expression with
  | none => (none, d)
  | some access =>
    if d.scope.has access.variableName then (none, d)
    else
      (some access.variableName,
        { d with
          locals := d.locals.insert access.variableName
          paths := d.paths.insert access.path })

/-- The pipeline of an expression and its filters at the present token; what it reads and uses is
noted. -/
def pipeline (env : DraftEnv) (d : Draft) (base : String) (calls : List FilterCall) :
    Pipeline × Draft :=
  let pos := env.posOf d
  let filters := calls.foldl (fun t call => t.insertNew call.name pos) d.filters
  let (needed, d) := { d with filters }.addLocal base
  (⟨Text.trimmed base, calls, needed⟩, d)

/-- Some pipelines without filters, in turn. -/
def pipelines (env : DraftEnv) (d : Draft) : List String → List Pipeline × Draft
  | [] => ([], d)
  | base :: bases =>
    let (p, d) := d.pipeline env base []
    let (ps, d) := pipelines env d bases
    (p :: ps, d)

/-- Add a warning about a place. -/
def warn (env : DraftEnv) (d : Draft) (message : String) (pos : Pos) : Draft :=
  { d with warnings := ⟨message, excerpt env.files excerptRadius pos⟩ :: d.warnings }

end Draft

end Stencil
