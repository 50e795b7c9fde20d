import Stencil.Source.Position
import Stencil.Text.Blank

/-!
# Tokens

A template is raw text, objects (an expression to write) and tags (a command). Each token keeps the
text it was read from and its place in the file it comes from. Objects and tags may end with a chain
of filter calls.
-/

namespace Stencil

/-- A call of a filter in a chain, its arguments still to be evaluated. -/
structure FilterCall where
  name : String
  args : List String
  deriving DecidableEq, Repr, Inhabited

/-- A tag: a name, what follows it, and its parts. -/
structure Tag where
  name : String
  /-- Everything behind the name, trimmed. -/
  args : String
  /-- `args` up to the first bar that counts, trimmed. -/
  head : String
  filters : List FilterCall
  /-- The tag as it was written. -/
  source : String
  pos : Pos
  deriving DecidableEq, Repr, Inhabited

/-- The argument of the clause `name: value` or `name value` in the tag's filter chain. -/
def Tag.filterArg? (tag : Tag) (name : String) : Option String :=
  tag.filters.findSome? fun call =>
    if call.name == name then call.args.head?
    else if name.toList.isPrefixOf call.name.toList then
      match call.name.toList.drop name.length with
      | c :: rest => if Text.isBlank c then some (.ofList (Text.trim (c :: rest))) else none
      | [] => none
    else none

/-- A piece of a template. -/
inductive Token where
  /-- Text between tags and objects. -/
  | raw (text : String) (pos : Pos)
  /-- A tag. -/
  | tag (tag : Tag)
  /-- An expression to write, through a chain of filters. -/
  | object (expression : String) (filters : List FilterCall) (source : String) (pos : Pos)
  deriving DecidableEq, Repr, Inhabited

namespace Token

/-- Where the token starts. -/
def pos : Token → Pos
  | raw _ pos => pos
  | tag t => t.pos
  | object _ _ _ pos => pos

/-- The text the token was read from. -/
def source : Token → String
  | raw text _ => text
  | tag t => t.source
  | object _ _ source _ => source

/-- The token as a tag. -/
def tag? : Token → Option Tag
  | tag t => some t
  | _ => none

/-- Whether the token is a tag of that name. -/
def isTag (token : Token) (name : String) : Bool :=
  match token with
  | tag t => t.name == name
  | _ => false

end Token

/-- The text that some consecutive tokens were read from. -/
def sourceOf (tokens : List Token) : String := String.join (tokens.map Token.source)

end Stencil
