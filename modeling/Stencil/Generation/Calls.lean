import Stencil.Generation.Branches

/-!
# Mixins and blocks

The bodies of mixins and blocks are noted as ranges of tokens and generated after the main body. A
block that is written several times stands where it is written first, with the body that is written
last.
-/

namespace Stencil.Handler

/-- The first parameter that is no name. -/
def badParam? (params : List String) : Option String := params.find? (!isVariableName ·)

/-- The parameters of a mixin, between blanks and commas. -/
def paramsOf (texts : List String) : List String :=
  texts.flatMap fun text =>
    ((Text.splitAt (· == ',') text.toList).filter (!·.isEmpty)).map .ofList

/-- `mixin name params` defines a mixin. -/
def mixin : TagHandler := fun env tag d => do
  match Text.wordsOf tag.head with
  | [] => misuse env tag "a mixin name is required"
  | name :: texts =>
    if !isVariableName name then refuse env tag (.invalidIdentifier name)
    let params := paramsOf texts
    match badParam? params with
    | some param => refuse env tag (.invalidIdentifier param)
    | none =>
      let stop ← env.findTag d "endmixin"
      let d := { d with mixins := d.mixins.insert name ⟨d.idx + 1, stop, params⟩ }
      return d.skipTo (stop + 1)

/-- `+name args` calls a mixin. -/
def callMixin : TagHandler := fun env tag d => do
  let name := String.ofList (tag.name.toList.drop 1)
  let (args, d) := d.pipelines env (partsOf ' ' tag.head)
  let d := { d with calls := (name, tag.pos) :: d.calls }
  return (d.emit (.callMixin name args)).advance

/-- `block name` stands for a block. -/
def block : TagHandler := fun env tag d => do
  match blockName? tag with
  | none => misuse env tag "a block name is required"
  | some name =>
    let stop ← env.findTag d "endblock"
    let (first, last) := (env.sites.get? name).getD (d.idx, d.idx)
    let idx := d.idx
    let d := if idx = first then d.emit (.callBlock name) else d
    let d :=
      if idx = last then { d with blocks := d.blocks.insert name ⟨idx + 1, stop, []⟩ } else d
    return d.skipTo (stop + 1)

/-- `trim` drops the blanks at the start of the text that follows. -/
def trim : TagHandler := fun _ _ d => .ok { d with trimNext := true }.advance

/-- `extends` is resolved before tokens are made; one that is left is out of place. -/
def extendsTag : TagHandler := fun env tag _ =>
  misuse env tag "`extends` must be the first tag of a template compiled from a file"

/-- `include` is resolved before tokens are made; one that is left has no files to look in. -/
def includeTag : TagHandler := fun env tag _ =>
  misuse env tag "`include` needs `source_file`, `base_dir` and `includes_dir`"

end Stencil.Handler
