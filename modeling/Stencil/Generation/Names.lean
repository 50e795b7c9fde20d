import Stencil.Generation.Heads
import Stencil.Generation.Registry
import Stencil.Script

/-!
# Tags that bind names and tags that keep texts

Assignments, captures and scripts bind names; raw texts, comments and captures take the source
between two tags as it is.
-/

namespace Stencil.Handler

/-- Refuse a tag at its place. -/
def refuse {α : Type} (env : DraftEnv) (tag : Tag) (cause : Cause) : Except Error α :=
  .error (.atPos cause env.files tag.pos)

/-- Refuse the use of a tag. -/
def misuse {α : Type} (env : DraftEnv) (tag : Tag) (reason : String) : Except Error α :=
  refuse env tag (.invalidUse tag.name reason)

/-- `assign name = value`, or another sign of assignment. -/
def assign : TagHandler := fun env tag d => do
  match AssignmentHead.ofHead? tag.head with
  | none => misuse env tag "expected `name = value`"
  | some head =>
    if !isVariableName head.name then refuse env tag (.invalidIdentifier head.name)
    let (p, d) := d.pipeline env head.value tag.filters
    let (isNew, d) := d.declare head.name
    return (d.emit (.assign head.name head.op p (isNew && head.op = .set))).advance

/-- `capture name` binds the source up to its end. -/
def capture : TagHandler := fun env tag d => do
  if !isVariableName tag.head then refuse env tag (.invalidIdentifier tag.head)
  let stop ← env.verbatimEnd d tag
  let text := env.sourceBetween (d.idx + 1) stop
  let (isNew, d) := d.declare tag.head
  return (d.emit (.capture tag.head text isNew)).skipTo (stop + 1)

/-- `raw` writes the source up to its end. -/
def raw : TagHandler := fun env tag d => do
  let stop ← env.verbatimEnd d tag
  let text := env.sourceBetween (d.idx + 1) stop
  let d := if text.isEmpty then d else d.emit (.text text)
  return d.skipTo (stop + 1)

/-- `comment` drops the source up to its end. -/
def comment : TagHandler := fun env tag d => do
  let stop ← env.verbatimEnd d tag
  return d.skipTo (stop + 1)

/-- The names that a script declares; none when it cannot be read, which is reported later. -/
def declaredNames (script : String) : List String :=
  match readScript script with
  | .ok statements => (statements.filter (·.declares)).map (·.name)
  | .error _ => []

/-- `js` takes the source up to its end as a script. -/
def script : TagHandler := fun env _ d => do
  let stop ← env.findTag d "endjs"
  let text := env.sourceBetween (d.idx + 1) stop
  let d := d.withScope (·.addAll (declaredNames text))
  return (d.emit (.script text)).skipTo (stop + 1)

end Stencil.Handler
