import Stencil.Generation.Calls
import Stencil.Generation.Loops

/-!
# Built-in tags
-/

namespace Stencil

/-- The built-in handlers with the names of their tags. -/
def Handler.builtins : List (String × TagHandler) :=
  [("assign", assign),
    ("capture", capture),
    ("raw", raw),
    ("comment", comment),
    ("js", script),
    ("if", openCondition .ifTrue),
    ("unless", openCondition .ifFalse),
    ("elseif", elseIf),
    ("elsif", elseIf),
    ("else", otherwise),
    ("endif", closeCondition),
    ("endunless", closeCondition),
    ("case", openCase),
    ("when", armWhen),
    ("default", armDefault),
    ("endcase", closeCase),
    ("for", openLoop),
    ("endfor", closeLoop),
    ("break", breakOut),
    ("continue", goOn),
    ("mixin", mixin),
    ("+", callMixin),
    ("block", block),
    ("trim", trim),
    ("extends", extendsTag),
    ("include", includeTag)]

/-- The tags that open verbatim blocks. -/
def verbatimTags : List String := ["raw", "comment", "capture"]

/-- The tags that open blocks. -/
def blockTags : List String :=
  ["if", "unless", "for", "case", "js", "mixin", "block"] ++ verbatimTags

/-- The built-in tags. -/
def TagRegistry.builtin : TagRegistry where
  handlers := ⟨Handler.builtins⟩
  kinds := ⟨.ofList blockTags, .ofList verbatimTags⟩

end Stencil
