import Stencil.Program.Listing
import Stencil.Render.State
import Stencil.Script

/-!
# Running programs

`runBody` runs the instructions of a body. It recurses on the body; the bodies of mixins and blocks
are run by a parameter, which `runCalled` supplies with one call less to spend. Mixins nest at most
`maxMixinDepth` deep and the blocks of a compiled template do not call each other in a circle, so
the calls that `callBound` allows are enough.
-/

namespace Stencil

open RenderM

/-- How deep calls of mixins may nest. -/
def maxMixinDepth : Nat := 64

/-- The number that an assignment computes from the current number and another one. -/
def AssignOp.compute (op : AssignOp) (x y : Float) : Float :=
  match op with
  | set => y
  | add => x + y
  | subtract => x - y
  | multiply => x * y
  | divide => x / y

/-- What stays the same during a rendering. -/
structure RenderEnv where
  program : Program
  files : Files
  toolbox : Toolbox

namespace RenderEnv

/-- Fail at the present position. -/
def fail {α : Type} (env : RenderEnv) (cause : Cause) : RenderM α := fun s =>
  .error (.near cause env.files s.position) s

/-! ## Values -/

/-- The value of an expression. -/
def evaluate (env : RenderEnv) (expression : String) : RenderM Value := do
  let s ← get
  match env.toolbox.evaluator.evaluate expression s.lookup with
  | .ok v => return v
  | .error reason => env.fail (.evaluation expression reason)

/-- Apply a filter to a value. -/
def applyFilter (env : RenderEnv) (v : Value) (call : FilterCall) : RenderM Value := do
  match env.toolbox.filters.get? call.name with
  | none => env.fail (.unknownFilter call.name)
  | some filter =>
    let args ← call.args.mapM env.evaluate
    match filter v args with
    | .ok v => return v
    | .error fault => env.fail (.filterFailed call.name fault.describe)

/-- The value of a pipeline. -/
def eval (env : RenderEnv) (p : Pipeline) : RenderM Value := do
  let s ← get
  match p.needed.filter fun name => (s.lookup name).isNone with
  | some name => env.fail (.undefinedVariable name)
  | none =>
    let v ← env.evaluate p.base
    p.filters.foldlM env.applyFilter v

/-! ## Assignments and scripts -/

/-- The value that an assignment stores: texts are appended, all else is computed. -/
def combine (env : RenderEnv) (op : AssignOp) (current v : Value) : RenderM Value :=
  if op = .set then return v
  else if op = .add && (current.kind == .string || v.kind == .string) then
    return .str (current.text ++ v.text)
  else
    match current.number, v.number with
    | .ok x, .ok y => return .ofNumber (op.compute x y)
    | .error fault, _ => failed fault
    | .ok _, .error fault => failed fault
where
  failed (fault : Value.NumberFault) : RenderM Value :=
    env.fail (.evaluation (current.render ++ " " ++ op.sign ++ " " ++ v.render) fault.describe)

/-- Run the assignments of a script. -/
def runScript (env : RenderEnv) (script : String) : RenderM Unit := do
  match readScript script with
  | .error fault => env.fail (.evaluation (Text.trimmed script) fault.describe)
  | .ok statements =>
    for statement in statements do
      let v ← env.evaluate statement.value
      modify (·.store statement.name v statement.declares)

/-! ## Loops -/

/-- Items with their indices. -/
def indexed (items : List Value) : List (Value × Value) :=
  items.mapIdx fun i : Nat => fun v => (.int i, v)

/-- The integers from `first` to `last`. -/
def integers (first last : Int) : List Value :=
  (List.range (last + 1 - first).toNat).map fun i : Nat => .int (first + i)

/-- Keys and items of a value, and whether it is a map. -/
def entries (env : RenderEnv) (p : Pipeline) (v : Value) : RenderM (List (Value × Value) × Bool) :=
  match v with
  | .str s => return (indexed (Value.ofChars s), false)
  | .seq items => return (indexed items, false)
  | .iter items => return (indexed items, false)
  | .map entries => return (entries, true)
  | _ => env.fail (.notIterable p.describe)

/-- A bound of a range. -/
def bound (env : RenderEnv) (p : Pipeline) : RenderM Int := do
  match (← env.eval p).integer with
  | .ok n => return n
  | .error fault => env.fail (.evaluation p.describe fault.describe)

/-- Keys and items that a loop runs over, and whether they are the entries of a map. -/
def entriesOf (env : RenderEnv) : Iterable → RenderM (List (Value × Value) × Bool)
  | .pipeline p => do
    let v ← env.eval p
    env.entries p v
  | .range start stop => do
    let first ← env.bound start
    let last ← env.bound stop
    return (indexed (integers first last), false)

/-- The frame of an iteration. -/
def frameOf (binding : LoopBinding) (key v : Value) (isMap : Bool) : Table Value :=
  match binding with
  | .item name => .ofList [(name, if isMap then key else v)]
  | .keyed keyName name => .ofList [(keyName, key), (name, v)]
  | .places names =>
    .ofList ((names.mapIdx fun i : Nat => fun name =>
      name.map fun n => (n, (v.itemOf? (.int i)).getD .undefined)).filterMap id)
  | .members names =>
    .ofList (names.map fun name =>
      match v with
      | .map entries => (name, (Value.lookupKey? entries (.str name)).getD .undefined)
      | _ => (name, .undefined))

/-- Whether the iteration at an index runs. -/
def inBounds (offset limit : Option Int) (index : Nat) : Bool :=
  offset.all (· ≤ (index : Int)) && limit.all ((index : Int) ≤ ·)

/-- Run the iterations that are in bounds until one of them breaks. -/
def iterate (runs : Nat → Bool) (step : Value × Value → RenderM Flow) :
    Nat → List (Value × Value) → RenderM Unit
  | _, [] => pure ()
  | index, entry :: rest =>
    if runs index then do
      match ← step entry with
      | .break => pure ()
      | _ => iterate runs step (index + 1) rest
    else iterate runs step (index + 1) rest

/-! ## Cases -/

/-- Whether one of the values of an arm equals the subject; those behind it are not evaluated. -/
def anyEqual (env : RenderEnv) (subject : Value) : List Pipeline → RenderM Bool
  | [] => return false
  | p :: ps => do
    if (← env.eval p) == subject then return true
    env.anyEqual subject ps

/-- The index of the first arm with a value that equals the subject. -/
def matchingArm (env : RenderEnv) (subject : Value) : Nat → List Arm → RenderM (Option Nat)
  | _, [] => return none
  | index, .mk (.values ps) _ :: arms => do
    if ← env.anyEqual subject ps then return some index
    env.matchingArm subject (index + 1) arms
  | index, .mk .default _ :: arms => env.matchingArm subject (index + 1) arms

/-- Whether an arm is a default. -/
def isDefault : Arm → Bool
  | .mk .default _ => true
  | .mk (.values _) _ => false

/-- The index of the first arm that runs. -/
def firstArm (env : RenderEnv) (subject : Value) (arms : List Arm) : RenderM (Option Nat) := do
  match ← env.matchingArm subject 0 arms with
  | some index => return some index
  | none => return arms.findIdx? isDefault

/-! ## Calls -/

/-- Call a mixin; `call` runs its body. -/
def callMixin (env : RenderEnv) (call : List Instruction → RenderM Flow) (name : String)
    (args : List Pipeline) : RenderM Unit := do
  match env.program.mixins.get? name with
  | none => env.fail (.unknownMixin name)
  | some mixin =>
    if maxMixinDepth ≤ (← get).depth then env.fail (.recursionLimit maxMixinDepth)
    let values ← args.mapM env.eval
    let frame := mixin.params.mapIdx fun i : Nat => fun param => (param, values.getD i .undefined)
    let _ ← called (within (.ofList frame) (call mixin.body))

/-- Call a mixin that is there: bind its parameters in a frame of its own, and run its body. -/
def enterMixin (env : RenderEnv) (call : List Instruction → RenderM Flow) (mixin : Mixin)
    (args : List Pipeline) : RenderM Unit := do
  let values ← args.mapM env.eval
  let frame := mixin.params.mapIdx fun i : Nat => fun param => (param, values.getD i .undefined)
  let _ ← called (within (.ofList frame) (call mixin.body))

theorem callMixin_of_none {env : RenderEnv} {name : String}
    (h : env.program.mixins.get? name = none) (call : List Instruction → RenderM Flow)
    (args : List Pipeline) : env.callMixin call name args = env.fail (.unknownMixin name) := by
  rw [callMixin, h]

/-- A mixin that is there is entered, unless too many calls are open. -/
theorem callMixin_of_some {env : RenderEnv} {name : String} {mixin : Mixin}
    (h : env.program.mixins.get? name = some mixin) (call : List Instruction → RenderM Flow)
    (args : List Pipeline) :
    env.callMixin call name args = (do
      if maxMixinDepth ≤ (← get).depth then env.fail (.recursionLimit maxMixinDepth)
      else env.enterMixin call mixin args) := by
  rw [callMixin, h]
  dsimp only
  apply bind_congr
  intro s
  split
  · rfl
  · rfl

/-- Call a block; `call` runs its body. A block that is not there is passed over. -/
def callBlock (env : RenderEnv) (call : List Instruction → RenderM Flow) (name : String) :
    RenderM Unit := do
  match env.program.blocks.get? name with
  | none => return
  | some body => let _ ← within {} (call body)

/-! ## Bodies -/

mutual

/-- Run an instruction. -/
def runInstruction (env : RenderEnv) (call : List Instruction → RenderM Flow) :
    Instruction → RenderM Flow
  | .position pos => do
    modify fun s => { s with position := some pos }
    return .normal
  | .text s => do
    modify (·.write s)
    return .normal
  | .emit p => do
    let v ← env.eval p
    modify (·.write v.render)
    return .normal
  | .assign name op p declares => do
    let v ← env.eval p
    let current := ((← get).lookup name).getD .undefined
    let v ← env.combine op current v
    modify (·.store name v declares)
    return .normal
  | .capture name text declares => do
    modify (·.store name (.str text) declares)
    return .normal
  | .choose branches otherwise => runBranches env call branches (runOtherwise env call otherwise)
  | .switch subject arms => do
    let v ← env.eval subject
    match ← env.firstArm v arms with
    | none => return .normal
    | some index =>
      let flow ← within {} (runArms env call index arms)
      return if flow = .break then .normal else flow
  | .loop binding iterable offset limit body => do
    let (entries, isMap) ← env.entriesOf iterable
    iterate (inBounds offset limit)
      (fun entry => within (frameOf binding entry.1 entry.2 isMap) (runBody env call body)) 0
      entries
    return .normal
  | .break => return .break
  | .continue => return .continue
  | .callMixin name args => do
    env.callMixin call name args
    return .normal
  | .callBlock name => do
    env.callBlock call name
    return .normal
  | .script text => do
    env.runScript text
    return .normal
termination_by structural i => i

/-- Run a body until its end or a jump. -/
def runBody (env : RenderEnv) (call : List Instruction → RenderM Flow) :
    List Instruction → RenderM Flow
  | [] => return .normal
  | i :: is => do
    match ← runInstruction env call i with
    | .normal => runBody env call is
    | flow => return flow
termination_by structural is => is

/-- Run the first branch that is taken, or the last resort. -/
def runBranches (env : RenderEnv) (call : List Instruction → RenderM Flow) :
    List Branch → RenderM Flow → RenderM Flow
  | [], otherwise => otherwise
  | .mk condition negated body :: bs, otherwise => do
    let v ← env.eval condition
    if v.isTrue != negated then within {} (runBody env call body)
    else runBranches env call bs otherwise
termination_by structural bs => bs

/-- Run a last resort. -/
def runOtherwise (env : RenderEnv) (call : List Instruction → RenderM Flow) :
    Option (List Instruction) → RenderM Flow
  | none => return .normal
  | some body => within {} (runBody env call body)
termination_by structural body => body

/-- Run the arms from an index on until a jump. -/
def runArms (env : RenderEnv) (call : List Instruction → RenderM Flow) :
    Nat → List Arm → RenderM Flow
  | _, [] => return .normal
  | skip + 1, _ :: arms => runArms env call skip arms
  | 0, .mk _ body :: arms => do
    match ← runBody env call body with
    | .normal => runArms env call 0 arms
    | flow => return flow
termination_by structural _ arms => arms

end

/-- Run a body in which at most `calls` calls of mixins and blocks may be open at once. -/
def runCalled (env : RenderEnv) : Nat → List Instruction → RenderM Flow
  | 0, _ => env.fail .endlessBlocks
  | calls + 1, body => runBody env (runCalled env calls) body

/-- How many calls of mixins and blocks may be open at once: between two calls of mixins, every
block at most once. -/
def callBound (env : RenderEnv) : Nat :=
  (maxMixinDepth + 1) * (env.program.blocks.size + 1) + 1

/-- Run the main body. -/
def run (env : RenderEnv) : RenderM Flow := env.runCalled env.callBound env.program.body

end RenderEnv

end Stencil
