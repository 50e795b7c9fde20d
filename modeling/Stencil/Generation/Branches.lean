import Stencil.Generation.Names
import Stencil.Text.Separator

/-!
# Tags that branch

Conditions and cases are open blocks while their bodies are generated. A branch or an arm is
complete when the next one starts or the block closes.
-/

namespace Stencil.Handler

/-- Refuse with a nesting error at the place of the draft. -/
def misplaced {α : Type} (env : DraftEnv) (d : Draft) (fault : NestingFault) : Except Error α :=
  .error (env.nestingError d fault)

/-- Refuse a tag without a head. -/
def requireHead (env : DraftEnv) (tag : Tag) (reason : String) : Except Error Unit :=
  if tag.head.isEmpty then misuse env tag reason else .ok ()

/-- Close the innermost open block for a closing tag. -/
def close (env : DraftEnv) (tag : Tag) (d : Draft) : Except Error (OpenBlock × Draft) :=
  match d.closeBlock? with
  | some closed => .ok closed
  | none => misplaced env d (.nothingOpen tag.name)

/-! ## Conditions -/

/-- Open a condition. -/
def openCondition (kind : ConditionKind) : TagHandler := fun env tag d => do
  let _ ← env.findTag d kind.closer
  requireHead env tag "a condition is required"
  let (p, d) := d.pipeline env tag.head tag.filters
  let d := d.openBlock (.condition kind [] (some (p, kind = .ifFalse)))
  return (d.withScope Scope.create).advance

/-- Complete the branch being filled and start the next one: the last one when `next` is nothing. -/
def nextBranch (env : DraftEnv) (tag : Tag) (next : Option (Pipeline × Bool))
    (allowed : List ConditionKind) (d : Draft) : Except Error Draft :=
  match d.inner with
  | ⟨.condition kind branches current, found⟩ :: outer =>
    if !allowed.contains kind then misplaced env d (.outsideIf tag.source)
    else
      match current with
      | none => misplaced env d (.afterElse tag.source)
      | some (p, negated) =>
        let branch := Branch.mk p negated found.reverse
        let d := { d with inner := ⟨.condition kind (branch :: branches) next, []⟩ :: outer }
        .ok (d.withScope fun s => s.destroy.create).advance
  | _ => misplaced env d (.outsideIf tag.source)

/-- `elseif` starts another branch of an `if`. -/
def elseIf : TagHandler := fun env tag d => do
  requireHead env tag "a condition is required"
  let (p, d) := d.pipeline env tag.head tag.filters
  nextBranch env tag (some (p, false)) [.ifTrue] d

/-- `else` starts the last branch. -/
def otherwise : TagHandler := fun env tag d => nextBranch env tag none [.ifTrue, .ifFalse] d

/-- Close a condition. -/
def closeCondition : TagHandler := fun env tag d => do
  let (block, d) ← close env tag d
  match block.kind with
  | .condition kind branches current =>
    if kind.closer ≠ tag.name then misplaced env d (.closesCondition tag.source kind.closer)
    else
      let instruction := match current with
        | some (p, negated) =>
          Instruction.choose (.mk p negated block.body :: branches).reverse none
        | none => Instruction.choose branches.reverse (some block.body)
      return ((d.withScope Scope.destroy).emit instruction).advance
  | kind => misplaced env d (.closesOther tag.source kind.describe)

/-! ## Cases -/

/-- Open a case. -/
def openCase : TagHandler := fun env tag d => do
  let _ ← env.findTag d "endcase"
  requireHead env tag "a subject is required"
  let (p, d) := d.pipeline env tag.head tag.filters
  return ((d.openBlock (.case p [] none)).withScope Scope.create).advance

/-- Whether a body writes nothing but blanks. -/
def isBlankBody (body : List Instruction) : Bool :=
  body.all fun
    | .position _ => true
    | .text s => Text.allBlank s
    | _ => false

/-- Complete the arm being filled and start the next one. -/
def nextArm (env : DraftEnv) (tag : Tag) (next : ArmLabel) (d : Draft) : Except Error Draft :=
  match d.inner with
  | ⟨.case subject arms current, found⟩ :: outer =>
    match current with
    | some label =>
      let arm := Arm.mk label found.reverse
      .ok { d with inner := ⟨.case subject (arm :: arms) (some next), []⟩ :: outer }
    | none =>
      if !isBlankBody found then misplaced env d .contentBeforeWhen
      else if next = .default then misplaced env d (.beforeWhen tag.source)
      else .ok { d with inner := ⟨.case subject arms (some next), []⟩ :: outer }
  | _ => misplaced env d (.outsideCase tag.source)

/-- The parts of a head between the separators that count, trimmed, empty ones left out. -/
def partsOf (separator : Char) (head : String) : List String :=
  (((Text.splitTop separator head.toList).map Text.trim).filter (!·.isEmpty)).map .ofList

/-- `when` starts an arm with values. -/
def armWhen : TagHandler := fun env tag d => do
  let (values, d) := d.pipelines env (partsOf ',' tag.head)
  if values.isEmpty then misuse env tag "a value is required"
  let d ← nextArm env tag (.values values) d
  return d.advance

/-- `default` starts an arm for all other values. -/
def armDefault : TagHandler := fun env tag d => do
  let d ← nextArm env tag .default d
  return d.advance

/-- Close a case. -/
def closeCase : TagHandler := fun env tag d => do
  let (block, d) ← close env tag d
  match block.kind with
  | .case subject arms (some label) =>
    let instruction := Instruction.switch subject (Arm.mk label block.body :: arms).reverse
    return ((d.withScope Scope.destroy).emit instruction).advance
  | .case _ _ none => misplaced env d .withoutWhen
  | kind => misplaced env d (.closesOther tag.source kind.describe)

end Stencil.Handler
