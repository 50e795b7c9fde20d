import Stencil.Generation.Draft

/-!
# Registries of tags

A handler moves a draft past its tag. A registry holds handlers under the names of their tags, and
knows which tags open blocks. All calls of mixins, written `+name`, share the handler of `+`.
-/

namespace Stencil

/-- The handler of a tag. -/
abbrev TagHandler := DraftEnv → Tag → Draft → Except Error Draft

/-- Handlers by the names of their tags, and the tags that open blocks. -/
structure TagRegistry where
  handlers : Table TagHandler := {}
  kinds : TagKinds := {}
  deriving Inhabited

namespace TagRegistry

/-- The registry without tags. -/
def empty : TagRegistry := {}

/-- The name under which the handler of a tag is kept. -/
def handlerName (name : String) : String :=
  match name.toList with
  | '+' :: _ :: _ => "+"
  | _ => name

/-- The handler of a tag. -/
def get? (r : TagRegistry) (name : String) : Option TagHandler := r.handlers.get? (handlerName name)

/-- Whether a tag has a handler. -/
def contains (r : TagRegistry) (name : String) : Bool := (r.get? name).isSome

/-- Set the handler of a tag. -/
def insert (r : TagRegistry) (name : String) (handler : TagHandler) : TagRegistry :=
  { r with handlers := r.handlers.insert name handler }

/-- Set the handlers of a block tag and of the tag that closes it. -/
def insertBlock (r : TagRegistry) (name : String) (opening closing : TagHandler) : TagRegistry :=
  let r := (r.insert (closerOf name) closing).insert name opening
  { r with kinds := { r.kinds with blocks := r.kinds.blocks.insert name } }

/-- The tags of both registries; the handlers of `extra` win. -/
def merged (r extra : TagRegistry) : TagRegistry where
  handlers :=
    extra.handlers.entries.foldr (fun (name, handler) t => t.insert name handler) r.handlers
  kinds := r.kinds.merged extra.kinds

end TagRegistry

end Stencil
