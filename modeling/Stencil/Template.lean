import Stencil.Render.Run

/-!
# Templates

A template is a program whose expressions and scripts have all been checked, together with the
sources it was compiled from and a toolbox. `Template.produce` checks, `Template.render` runs.
-/

namespace Stencil

/-! ## Checking -/

/-- What the check of a program knows: an evaluator and the sources. -/
structure Checker where
  evaluator : Evaluator
  files : Files

namespace Checker

/-- Refuse what cannot be compiled. -/
def refuse {α : Type} (c : Checker) (position : Option Pos) (expression reason : String) :
    Except Error α :=
  .error (.near (.uncompilable expression reason) c.files position)

/-- Check an expression. -/
def checkExpression (c : Checker) (position : Option Pos) (expression : String) :
    Except Error Unit :=
  match c.evaluator.check expression with
  | .ok () => .ok ()
  | .error reason => c.refuse position expression reason

/-- Check some expressions. -/
def checkExpressions (c : Checker) (position : Option Pos) (expressions : List String) :
    Except Error Unit :=
  expressions.forM (c.checkExpression position)

/-- The expressions of a pipeline. -/
def expressionsOf (p : Pipeline) : List String := p.base :: p.filters.flatMap FilterCall.args

/-- The pipelines that a loop evaluates before its first iteration. -/
def pipelinesOf : Iterable → List Pipeline
  | .pipeline p => [p]
  | .range start stop => [start, stop]

/-- The pipelines of the label of an arm. -/
def labelPipelines : ArmLabel → List Pipeline
  | .values ps => ps
  | .default => []

/-- Check some pipelines. -/
def checkPipelines (c : Checker) (position : Option Pos) (ps : List Pipeline) : Except Error Unit :=
  c.checkExpressions position (ps.flatMap expressionsOf)

/-- Check a script. -/
def checkScript (c : Checker) (position : Option Pos) (script : String) : Except Error Unit :=
  match readScript script with
  | .error fault => c.refuse position (Text.trimmed script) fault.describe
  | .ok statements => c.checkExpressions position (statements.map Statement.value)

mutual

/-- Check an instruction; the answer is the position behind it. -/
def checkInstruction (c : Checker) : Instruction → Option Pos → Except Error (Option Pos)
  | .position pos, _ => .ok (some pos)
  | .text _, position => .ok position
  | .capture .., position => .ok position
  | .break, position => .ok position
  | .continue, position => .ok position
  | .callBlock _, position => .ok position
  | .emit p, position => do
    c.checkPipelines position [p]
    return position
  | .assign _ _ p _, position => do
    c.checkPipelines position [p]
    return position
  | .callMixin _ args, position => do
    c.checkPipelines position args
    return position
  | .script text, position => do
    c.checkScript position text
    return position
  | .choose branches otherwise, position => do
    let position ← checkBranches c branches position
    checkOtherwise c otherwise position
  | .switch subject arms, position => do
    c.checkPipelines position [subject]
    checkArms c arms position
  | .loop _ iterable _ _ body, position => do
    c.checkPipelines position (pipelinesOf iterable)
    checkBody c body position
termination_by structural i => i

/-- Check a body. -/
def checkBody (c : Checker) : List Instruction → Option Pos → Except Error (Option Pos)
  | [], position => .ok position
  | i :: is, position => do
    let position ← checkInstruction c i position
    checkBody c is position
termination_by structural is => is

/-- Check branches. -/
def checkBranches (c : Checker) : List Branch → Option Pos → Except Error (Option Pos)
  | [], position => .ok position
  | .mk condition _ body :: bs, position => do
    c.checkPipelines position [condition]
    let position ← checkBody c body position
    checkBranches c bs position
termination_by structural bs => bs

/-- Check a last resort. -/
def checkOtherwise (c : Checker) :
    Option (List Instruction) → Option Pos → Except Error (Option Pos)
  | none, position => .ok position
  | some body, position => checkBody c body position
termination_by structural body => body

/-- Check arms. -/
def checkArms (c : Checker) : List Arm → Option Pos → Except Error (Option Pos)
  | [], position => .ok position
  | .mk label body :: arms, position => do
    c.checkPipelines position (labelPipelines label)
    let position ← checkBody c body position
    checkArms c arms position
termination_by structural arms => arms

end

/-- Check some bodies one after the other. -/
def checkBodies (c : Checker) (bodies : List (List Instruction)) : Except Error Unit := do
  let _ ← bodies.foldlM (fun position body => c.checkBody body position) none

/-- The bodies of a program: the main one, mixins, blocks. -/
def bodiesOf (program : Program) : List (List Instruction) :=
  program.body :: program.mixins.values.map Mixin.body ++ program.blocks.values

theorem forall_mem_bodiesOf {program : Program} {P : List Instruction → Prop} :
    (∀ body ∈ bodiesOf program, P body) ↔ P program.body ∧
      (∀ e ∈ program.mixins.entries, P e.2.body) ∧ ∀ e ∈ program.blocks.entries, P e.2 := by
  simp only [bodiesOf, Table.values, List.map_map, List.cons_append, List.forall_mem_cons,
    List.forall_mem_append, List.forall_mem_map, Function.comp_apply]

end Checker

/-! ## Templates -/

/-- A program that has been checked. -/
structure Template where
  program : Program
  files : Files
  toolbox : Toolbox
  /-- Whether the template carries a toolbox of its own. -/
  bundled : Bool

namespace Template

/-- Check a program and make a template of it. Without a toolbox it renders with the default one. -/
def produce (program : Program) (files : Files) (toolbox : Option Toolbox) :
    Except Error Template := do
  let chosen := toolbox.getD default
  Checker.checkBodies ⟨chosen.evaluator, files⟩ (Checker.bodiesOf program)
  return ⟨program, files, chosen, toolbox.isSome⟩

/-- The globals that bindings give: none when they are missing, otherwise the entries of a map. -/
def globalsOf (bindings : Value) : Except Error (Table Value) :=
  match bindings with
  | .undefined => .ok {}
  | .null => .ok {}
  | .map entries => .ok (.ofList (entries.map fun (key, v) => (key.text, v)))
  | v => .error ⟨.invalidBindings v.kind.name, none⟩

/-- Render with a toolbox. -/
def renderWith (t : Template) (bindings : Value) (toolbox : Toolbox) : Except Error String := do
  let globals ← globalsOf bindings
  match RenderEnv.run ⟨t.program, t.files, toolbox⟩ { globals } with
  | .ok _ s => return s.output
  | .error e _ => throw e

/-- Render with the toolbox of the template. -/
def render (t : Template) (bindings : Value) : Except Error String :=
  t.renderWith bindings t.toolbox

end Template

end Stencil
