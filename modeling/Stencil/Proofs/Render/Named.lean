import Stencil.Proofs.Expression.Access
import Stencil.Proofs.Expression.Name
import Stencil.Proofs.Generation.Blocks
import Stencil.Proofs.Generation.Within
import Stencil.Proofs.Render.Bound
import Stencil.Proofs.Render.Template

/-!
# Reading back what was assigned

A template assigns a value to a name and writes the name. With a name that comes back this renders
what an object of the value renders where the assignment stands.

* `ofHead_assignment`: how the head of such an assignment is read.
* `Draft.Flat`, `generate_assigned`: what a template without blocks is made into, token by token.
* `rendered_assigned`: the check and the run of the two programs.
* `name_comesBack`: which of the names that a template may bind can be read back.
-/

namespace Stencil

open Text

/-! ## Names as expressions -/

section

variable {name : String}

theorem trim_name (h : isVariableName name = true) : trim name.toList = name.toList :=
  trim_of_no_blank fun c hc => isBlank_namePart (isVariableName_all h c hc)

/-- The expression of a name reads the variable of that name. -/
theorem access_name (h : isVariableName name = true) :
    Access.ofExpression? name = some ⟨name, name⟩ := by
  have heq : name.toList = name.toList ++ [] := (List.append_nil _).symm
  rw [IsAccessPath.access_eq ⟨name, [], h, .nil, heq⟩, IsAccessPath.pathStart_eq h .nil heq]

end

/-! ## Heads of assignments -/

/-- What an assignment may write behind its sign: not empty, on one line, without blanks in front. -/
structure IsAssigned (value : String) : Prop where
  nonempty : value ≠ ""
  line : '\n' ∉ value.toList
  front : trimLeft value.toList = value.toList

instance (value : String) : Decidable (IsAssigned value) :=
  decidable_of_iff (value ≠ "" ∧ '\n' ∉ value.toList ∧ trimLeft value.toList = value.toList)
    ⟨fun h => ⟨h.1, h.2.1, h.2.2⟩, fun h => ⟨h.1, h.2, h.3⟩⟩

/-- No sign of an assignment stands inside a name. -/
theorem assignmentSign?_name {c : Char} (h : isNamePart c = true) (cs : List Char) :
    assignmentSign? (trimLeft (c :: cs)) = none := by
  have hstays : trimLeft (c :: cs) = c :: cs :=
    List.dropWhile_cons_of_neg (by simp [isBlank_namePart h])
  rw [hstays]
  unfold assignmentSign?
  split
  case h_6 => rfl
  all_goals
    rename_i heq
    obtain ⟨rfl, -⟩ := List.cons.inj heq
    exact absurd h (by decide)

theorem assignmentFrom_name {cs : List Char} (hne : cs ≠ [])
    (hcs : ∀ c ∈ cs, isNamePart c = true) {value : String} (hvalue : IsAssigned value)
    (before : List Char) :
    assignmentFrom before (cs ++ " = ".toList ++ value.toList) =
      some ⟨.ofList (before.reverse ++ cs), .set, value⟩ := by
  induction cs generalizing before with
  | nil => exact absurd rfl hne
  | cons c cs ih =>
    rw [List.forall_mem_cons] at hcs
    rw [List.cons_append, List.cons_append, assignmentFrom, isBlank_namePart hcs.1]
    cases cs with
    | nil =>
      have hempty : value.toList.isEmpty = false := by
        rw [List.isEmpty_eq_false_iff]
        exact fun h => hvalue.nonempty (String.toList_eq_nil_iff.1 h)
      have htail : assignmentTail? ([] ++ " = ".toList ++ value.toList) =
          some (.set, value.toList) := by
        have hsign : assignmentSign? (trimLeft ([] ++ " = ".toList ++ value.toList)) =
            some (.set, ' ' :: value.toList) := rfl
        have hfront : trimLeft (' ' :: value.toList) = value.toList := hvalue.front
        rw [assignmentTail?, hsign]
        simp [lineBehind?, hfront, hempty, hvalue.line]
      rw [htail]
      simp
    | cons d cs =>
      have htail : assignmentTail? (d :: cs ++ " = ".toList ++ value.toList) = none := by
        have hsign := assignmentSign?_name (hcs.2 d (.head _)) (cs ++ " = ".toList ++ value.toList)
        rw [List.cons_append, List.cons_append, assignmentTail?, hsign]
      rw [htail]
      simpa using ih (List.cons_ne_nil _ _) hcs.2 (c :: before)

/-- An assignment to a name is read as that. -/
theorem ofHead_assignment {name value : String} (h : isVariableName name = true)
    (hvalue : IsAssigned value) :
    AssignmentHead.ofHead? (name ++ " = " ++ value) = some ⟨name, .set, value⟩ := by
  have hne : name.toList ≠ [] := by
    intro hnil
    simp [isVariableName, startsLikeName, hnil] at h
  have hread := assignmentFrom_name hne (isVariableName_all h) hvalue []
  rw [AssignmentHead.ofHead?, String.toList_append, String.toList_append, hread]
  simp

/-! ## Programs -/

/-- The instructions with a position behind them, latest first, when positions are asked for. -/
def markedIn (positions : Bool) (pos : Pos) (found : List Instruction) : List Instruction :=
  if positions then Draft.markIn pos found else found

/-- A draft in which no block has been opened and no body been left behind. -/
structure Draft.Flat (d : Draft) (idx : Nat) (found : List Instruction) (σ : Scope) : Prop where
  idx : d.idx = idx
  inner : d.inner = []
  root : d.root = { kind := .root, found }
  scope : d.scope = σ
  mixins : d.mixins = {}
  blocks : d.blocks = {}

section

variable {env : DraftEnv} {d d' : Draft} {idx : Nat} {found : List Instruction} {σ : Scope}

namespace Draft.Flat

theorem notes (h : d.Flat idx found σ) (hnotes : d.Notes d') : d'.Flat idx found σ where
  idx := hnotes.idx.trans h.idx
  inner := hnotes.inner.trans h.inner
  root := hnotes.root.trans h.root
  scope := hnotes.scope.trans h.scope
  mixins := hnotes.mixins.trans h.mixins
  blocks := hnotes.blocks.trans h.blocks

theorem mark (h : d.Flat idx found σ) (env : DraftEnv) (pos : Pos) :
    (({ d with trimNext := false } : Draft).mark env pos).Flat idx
      (markedIn env.positions pos found) σ := by
  unfold Draft.mark Draft.setTop Draft.top
  cases hpositions : env.positions
  · exact ⟨h.idx, h.inner, h.root, h.scope, h.mixins, h.blocks⟩
  · simp only [if_true, h.inner, List.headD_nil, h.root]
    exact ⟨h.idx, rfl, rfl, h.scope, h.mixins, h.blocks⟩

theorem append (h : d.Flat idx found σ) (i : Instruction) : (d.emit i).Flat idx (i :: found) σ := by
  unfold Draft.emit Draft.setTop Draft.top
  simp only [h.inner, List.headD_nil, h.root]
  exact ⟨h.idx, rfl, rfl, h.scope, h.mixins, h.blocks⟩

theorem skipTo (h : d.Flat idx found σ) (stop : Nat) : (d.skipTo stop).Flat stop found σ :=
  ⟨rfl, h.inner, h.root, h.scope, h.mixins, h.blocks⟩

theorem emit (h : d.Flat idx found σ) (i : Instruction) :
    ((d.emit i).advance).Flat (idx + 1) (i :: found) σ := by
  rw [Draft.advance, (h.append i).idx]
  exact (h.append i).skipTo (idx + 1)

theorem declare (h : d.Flat idx found σ) (name : String) :
    (d.declare name).1 = !σ.has name ∧ (d.declare name).2.Flat idx found (σ.add name) := by
  refine ⟨by rw [Draft.declare, h.scope], ⟨h.idx, h.inner, h.root, ?_, h.mixins, h.blocks⟩⟩
  show d.scope.add name = _
  rw [h.scope]

theorem pipeline (h : d.Flat idx found σ) (env : DraftEnv) (base : String)
    (calls : List FilterCall) :
    ∃ d', d.pipeline env base calls = (.ofExpression σ base calls, d') ∧ d'.Flat idx found σ := by
  obtain ⟨p, d', hp, hnotes, hmakes, -⟩ := pipeline_notes env d base calls
  refine ⟨d', ?_, h.notes hnotes⟩
  rw [hp, hmakes.made, h.scope]

end Draft.Flat

namespace Generator

variable {g : Generator}

theorem step_object (h : d.Flat idx found σ) (expression source : String)
    (calls : List FilterCall) (pos : Pos) :
    ∃ d', g.step (.object expression calls source pos) d = .ok d' ∧
      d'.Flat (idx + 1)
        (.emit (.ofExpression σ expression calls) :: markedIn g.env.positions pos found) σ := by
  obtain ⟨d', hp, hd'⟩ := (h.mark g.env pos).pipeline g.env expression calls
  refine ⟨_, ?_, hd'.emit _⟩
  simp only [step, handle, Token.pos, hp]

theorem step_assign (hg : g.registry = .builtin) (h : d.Flat idx found σ) {tag : Tag}
    (htag : tag.name = "assign") {head : AssignmentHead}
    (hhead : AssignmentHead.ofHead? tag.head = some head) (hname : isVariableName head.name = true) :
    ∃ d', g.step (.tag tag) d = .ok d' ∧
      d'.Flat (idx + 1)
        (.assign head.name head.op (.ofExpression σ head.value tag.filters)
          (!σ.has head.name && decide (head.op = .set)) ::
            markedIn g.env.positions tag.pos found) (σ.add head.name) := by
  have hhandler : g.registry.get? tag.name = some Handler.assign := by
    rw [hg, htag]
    rfl
  obtain ⟨d', hp, hd'⟩ := (h.mark g.env tag.pos).pipeline g.env head.value tag.filters
  obtain ⟨hnew, hdeclared⟩ := hd'.declare head.name
  refine ⟨_, ?_, hdeclared.emit _⟩
  simp only [step, handle, Token.pos, hhandler, Handler.assign, hhead, hname, hp, hnew]
  rfl

/-- A program of tokens that leave no body behind is made from the main body. -/
theorem generate_alone (hrange : g.generateRange g.env.tokens.length {} = .ok d)
    (hinner : d.inner = []) (hmixins : d.mixins = {}) (hblocks : d.blocks = {}) :
    g.generate = .ok ⟨{ body := (g.warnCalls {} d).root.body }, (g.warnCalls {} d).locals,
      (g.warnCalls {} d).paths, (g.warnCalls {} d).filters, (g.warnCalls {} d).warnings.reverse⟩ := by
  have hmain : g.generateMain = .ok d := by
    rw [generateMain, hrange]
    show (if d.inner.isEmpty then pure d else _) = _
    rw [hinner]
    rfl
  have hdeferred : g.generateDeferred (g.env.tokens.length + 1) d {} = .ok (d, {}) := by
    rw [generateDeferred, hmixins, hblocks]
    rfl
  unfold generate
  rw [hmain]
  show (g.generateDeferred _ d {} >>= _) = _
  rw [hdeferred]
  rfl

/-- A program of tokens that leave no body behind is its main body. -/
theorem generate_flat (hrange : g.generateRange g.env.tokens.length {} = .ok d)
    (h : d.Flat idx found σ) : g.generate.map (·.program) = .ok { body := found.reverse } := by
  have hbody : (g.warnCalls {} d).root.body = found.reverse := by
    rw [(warnCalls_eq g {} d).1, h.root]
    rfl
  rw [generate_alone hrange h.inner h.mixins h.blocks, hbody]
  rfl

end Generator

end

section

variable (files : Files) (positions : Bool)

/-- The program of an object alone. -/
theorem generate_object (expression source : String) (calls : List FilterCall) (pos : Pos) :
    (generate [.object expression calls source pos] files .builtin positions).map (·.program) =
      .ok { body := (.emit (.ofExpression {} expression calls) ::
        markedIn positions pos []).reverse } := by
  have hsites : blockSites TagRegistry.builtin.kinds [.object expression calls source pos] =
      .ok {} := rfl
  rw [generate_eq hsites]
  have hstart : ({} : Draft).Flat 0 [] {} := ⟨rfl, rfl, rfl, rfl, rfl, rfl⟩
  let g := builtinGenerator [.object expression calls source pos] files positions {}
  obtain ⟨d, hstep, hd⟩ := Generator.step_object (g := g) hstart expression source calls pos
  refine Generator.generate_flat (show g.generateRange 1 {} = .ok d from ?_) hd
  rw [Generator.generateRange_next Nat.zero_lt_one rfl hstep (by rw [hd.idx]; exact Nat.zero_lt_one),
    Generator.generateRange_of_le _ hd.idx.ge]

/-- The program of an assignment and an object behind it. -/
theorem generate_assigned {tag : Tag} (htag : tag.name = "assign") {head : AssignmentHead}
    (hhead : AssignmentHead.ofHead? tag.head = some head) (hname : isVariableName head.name = true)
    (expression source : String) (calls : List FilterCall) (pos : Pos) :
    (generate [.tag tag, .object expression calls source pos] files .builtin positions).map
        (·.program) =
      .ok { body := (.emit (.ofExpression (Scope.add {} head.name) expression calls) ::
        markedIn positions pos
          (.assign head.name head.op (.ofExpression {} head.value tag.filters)
              (decide (head.op = .set)) ::
            markedIn positions tag.pos [])).reverse } := by
  have hsites : blockSites TagRegistry.builtin.kinds
      [.tag tag, .object expression calls source pos] = .ok {} := by
    have hverbatim : TagRegistry.builtin.kinds.isVerbatim "assign" = false := by decide
    simp [blockSites, sitesFrom, htag, hverbatim]
  rw [generate_eq hsites]
  have hstart : ({} : Draft).Flat 0 [] {} := ⟨rfl, rfl, rfl, rfl, rfl, rfl⟩
  let g := builtinGenerator [.tag tag, .object expression calls source pos] files positions {}
  obtain ⟨d, hstep, hd⟩ := Generator.step_assign (g := g) rfl hstart htag hhead hname
  obtain ⟨d', hstep', hd'⟩ := Generator.step_object (g := g) hd expression source calls pos
  have hfree : (!({} : Scope).has head.name) = true := rfl
  rw [hfree, Bool.true_and] at hd'
  refine Generator.generate_flat (show g.generateRange 2 {} = .ok d' from ?_) hd'
  have hnext : d.idx < d'.idx := by
    rw [hd.idx, hd'.idx]
    exact Nat.lt_succ_self _
  rw [Generator.generateRange_next Nat.zero_lt_two rfl hstep (by rw [hd.idx]; exact Nat.zero_lt_one),
    Generator.generateRange_next (by rw [hd.idx]; exact Nat.one_lt_two) (by rw [hd.idx]; rfl) hstep'
      hnext,
    Generator.generateRange_of_le _ hd'.idx.ge]

end

/-! ## Rendering -/

section

variable {env env' : RenderEnv} {name : String} {p : Pipeline}

theorem output_declare (s : RenderState) (name : String) (v : Value) :
    (s.declare name v).output = s.output := by
  unfold RenderState.declare
  split <;> rfl

/-- What was assigned to a name is what the name evaluates to. -/
theorem eval_name (henv : env.toolbox.evaluator = .standard) (hname : ReadsJust name name)
    {s : RenderState} {v : Value} (hs : s.lookup name = some v) :
    env.eval (Pipeline.ofBase name) s = .ok v s := by
  unfold RenderEnv.eval
  show EStateM.bind (env.evaluate name) _ s = _
  unfold EStateM.bind
  rw [evaluate_eq, henv, hname.value, hs]
  rfl

theorem runBody_emit (env : RenderEnv) (call : List Instruction → RenderM Flow) (p : Pipeline)
    (s : RenderState) : env.runBody call [.emit p] s =
      match env.eval p s with
      | .ok v t => .ok .normal (t.write v.render)
      | .error e t => .error e t := by
  rw [RenderEnv.runBody, RenderEnv.runInstruction]
  show EStateM.bind (EStateM.bind (env.eval p) _) _ s = _
  unfold EStateM.bind
  cases env.eval p s <;> rfl

/-- Writing a value that was assigned to a name writes the value. -/
theorem written_assigned (henv : env.toolbox.evaluator = .standard) (hname : ReadsJust name name)
    (heval : env'.eval p = env.eval p) (call call' : List Instruction → RenderM Flow)
    (positions : Bool) (pos : Pos) (s : RenderState) :
    Template.written (env.runBody call (.assign name .set p true ::
        (markedIn positions pos [] ++ [.emit (.ofBase name)])) s) =
      Template.written (env'.runBody call' [.emit p] s) := by
  have hassign : env.runBody call (.assign name .set p true ::
      (markedIn positions pos [] ++ [.emit (.ofBase name)])) s =
      match env.eval p s with
      | .ok v t => env.runBody call (markedIn positions pos [] ++ [.emit (.ofBase name)])
        (t.declare name v)
      | .error e t => .error e t := by
    rw [RenderEnv.runBody, runInstruction_assign]
    show EStateM.bind (EStateM.bind (env.eval p) _) _ s = _
    unfold EStateM.bind
    cases env.eval p s <;> rfl
  rw [hassign, runBody_emit env', heval]
  cases heval : env.eval p s with
  | error e t => rfl
  | ok v t =>
    obtain rfl := steady_eval p s v t heval
    have hwritten (u : RenderState) (hu : u.lookup name = some v) :
        env.runBody call [.emit (.ofBase name)] u = .ok .normal (u.write v.render) := by
      rw [runBody_emit, eval_name henv hname hu]
    cases positions with
    | false =>
      show Template.written (env.runBody call [.emit (.ofBase name)] (t.declare name v)) = _
      rw [hwritten _ (by simp)]
      exact congrArg (fun output => Except.ok (output ++ v.render)) (output_declare t name v)
    | true =>
      show Template.written (env.runBody call [.emit (.ofBase name)]
        { t.declare name v with position := some pos }) = _
      rw [hwritten _ (by simpa [RenderState.lookup] using RenderState.lookup_declare t name name v)]
      exact congrArg (fun output => Except.ok (output ++ v.render)) (output_declare t name v)

end

section

variable {c : Checker} {name : String} {p : Pipeline}

theorem checkBody_name (hc : c.evaluator = .standard) (hname : ReadsJust name name)
    (position : Option Pos) : c.checkBody [.emit (.ofBase name)] position = .ok position := by
  have hexpression : c.checkExpression position name = .ok () := by
    rw [Checker.checkExpression, hc, hname.checked]
  have hchecked : c.checkPipelines position [.ofBase name] = .ok () := by
    show (c.checkExpression position name >>= fun _ => pure ()) = _
    rw [hexpression]
    rfl
  rw [Checker.checkBody, Checker.checkInstruction, hchecked]
  rfl

/-- Checking the assignment of a value to a name, and the name behind it, is checking the value. -/
theorem checkBody_assigned (hc : c.evaluator = .standard) (hname : ReadsJust name name)
    (positions : Bool) (pos : Pos) (position : Option Pos) :
    (c.checkBody (.assign name .set p true ::
        (markedIn positions pos [] ++ [.emit (.ofBase name)])) position).map (fun _ => ()) =
      (c.checkBody [.emit p] position).map (fun _ => ()) := by
  rw [Checker.checkBody, Checker.checkInstruction, Checker.checkBody, Checker.checkInstruction]
  cases c.checkPipelines position [p] with
  | error e => rfl
  | ok _ =>
    cases positions with
    | false => exact congrArg (Except.map fun _ => ()) (checkBody_name hc hname position)
    | true =>
      show (c.checkBody [.emit (.ofBase name)] (some pos)).map (fun _ => ()) = _
      rw [checkBody_name hc hname]
      rfl

end

/-- What checking and rendering a program gives. -/
def rendered (program : Program) (files : Files) (toolbox : Option Toolbox) (bindings : Value) :
    Except Error String :=
  Template.produce program files toolbox >>= (·.render bindings)

/-- A program that is its main body renders what the check and the run of the body give. -/
theorem rendered_body (body : List Instruction) (files : Files) (toolbox : Option Toolbox)
    (bindings : Value) :
    rendered { body } files toolbox bindings =
      ((Checker.checkBody ⟨(toolbox.getD default).evaluator, files⟩ body none).map fun _ => ()).bind
        fun _ => (Template.globalsOf bindings).bind fun globals => Template.written
          (RenderEnv.run ⟨{ body }, files, toolbox.getD default⟩ { globals }) := by
  have hcheck : Checker.checkBodies ⟨(toolbox.getD default).evaluator, files⟩
      (Checker.bodiesOf { body }) =
      (Checker.checkBody ⟨(toolbox.getD default).evaluator, files⟩ body none).map
        fun _ => () := by
    show (Checker.checkBody _ body none >>= fun _ => pure _) >>= _ = _
    cases Checker.checkBody ⟨(toolbox.getD default).evaluator, files⟩ body none <;> rfl
  rw [rendered, Template.produce_eq, hcheck]
  cases Checker.checkBody ⟨(toolbox.getD default).evaluator, files⟩ body none with
  | error e => rfl
  | ok _ => exact Template.renderWith_eq ⟨{ body }, files, toolbox.getD default, _⟩ bindings _

/-- A body without calls runs alike, however many calls may be open. -/
theorem run_body (body : List Instruction) (files : Files) (toolbox : Toolbox) (s : RenderState) :
    RenderEnv.run ⟨{ body }, files, toolbox⟩ s =
      RenderEnv.runBody ⟨{ body }, files, toolbox⟩
        (RenderEnv.runCalled ⟨{ body }, files, toolbox⟩ (maxMixinDepth + 1)) body s := rfl

/-- An assignment to a name that comes back and an object of the name render what an object of the
value renders in the place of the assignment, whether that succeeds or not. -/
theorem rendered_assigned {name : String} (hname : ReadsJust name name) (p : Pipeline)
    (positions : Bool) (pos pos' : Pos) (files : Files) {toolbox : Option Toolbox}
    (htoolbox : (toolbox.getD default).evaluator = .standard) (bindings : Value) :
    rendered { body := (.emit (.ofBase name) :: markedIn positions pos'
        (.assign name .set p true :: markedIn positions pos [])).reverse } files toolbox bindings =
      rendered { body := (.emit p :: markedIn positions pos []).reverse } files toolbox
        bindings := by
  have hbody (last : Instruction) (before : List Instruction) :
      (last :: markedIn positions pos' (.assign name .set p true :: before)).reverse =
        before.reverse ++ .assign name .set p true :: (markedIn positions pos' [] ++ [last]) := by
    cases positions <;> simp [markedIn, Draft.markIn]
  rw [hbody, List.reverse_cons, rendered_body, rendered_body]
  simp only [run_body]
  generalize RenderEnv.runCalled _ (maxMixinDepth + 1) = call
  generalize RenderEnv.runCalled _ (maxMixinDepth + 1) = call'
  cases positions with
  | false =>
    refine congrArg₂ Except.bind (checkBody_assigned htoolbox hname false pos' none) ?_
    funext _
    refine congrArg _ (funext fun globals => ?_)
    exact written_assigned htoolbox hname rfl call call' false pos' { globals }
  | true =>
    refine congrArg₂ Except.bind (checkBody_assigned htoolbox hname true pos' (some pos)) ?_
    funext _
    refine congrArg _ (funext fun globals => ?_)
    exact written_assigned htoolbox hname rfl call call' true pos' { globals, position := some pos }

/-- What the tokens of a template come to: they are made into a program with the built-in tags, and
the program is checked and rendered. -/
def renderTokens (tokens : List Token) (files : Files) (positions : Bool) (toolbox : Option Toolbox)
    (bindings : Value) : Except Error String :=
  generate tokens files .builtin positions >>= fun made =>
    rendered made.program files toolbox bindings

theorem renderTokens_eq {tokens : List Token} {files : Files} {positions : Bool} {program : Program}
    (h : (generate tokens files .builtin positions).map (·.program) = .ok program)
    (toolbox : Option Toolbox) (bindings : Value) :
    renderTokens tokens files positions toolbox bindings =
      rendered program files toolbox bindings := by
  unfold renderTokens
  cases hmade : generate tokens files .builtin positions with
  | error e =>
    rw [hmade] at h
    cases h
  | ok made =>
    rw [hmade] at h
    rw [← Except.ok.inj h]
    rfl

/-! ## Names -/

/-- The expression of a name that is bound needs no variable. -/
theorem ofExpression_bound {name : String} (h : isVariableName name = true) :
    Pipeline.ofExpression (Scope.add {} name) name [] = .ofBase name := by
  have hbound : (Scope.add {} name).has name = true := (Scope.has_add (by decide)).2 (.inl rfl)
  simp only [Pipeline.ofExpression, Scope.needed, access_name h, Option.bind_some, hbound, if_true,
    trimmed, trim_name h, String.ofList_toList, Pipeline.ofBase]

/-- An assignment to a name that reads itself, with the name behind it, renders what the value renders
in its place. -/
theorem renderTokens_assigned {name value : String} (h : isVariableName name = true)
    (hname : ReadsJust name name) {tag : Tag} (htag : tag.name = "assign")
    (hvalue : IsAssigned value) (hhead : tag.head = name ++ " = " ++ value) (source : String)
    (pos : Pos) (files : Files) (positions : Bool) {toolbox : Option Toolbox}
    (htoolbox : (toolbox.getD default).evaluator = .standard) (bindings : Value) :
    renderTokens [.tag tag, .object name [] source pos] files positions toolbox bindings =
      renderTokens [.object value tag.filters tag.source tag.pos] files positions toolbox
        bindings := by
  have hread : AssignmentHead.ofHead? tag.head = some ⟨name, .set, value⟩ := by
    rw [hhead, ofHead_assignment h hvalue]
  have hassigned := generate_assigned files positions htag hread h name source [] pos
  dsimp only at hassigned
  rw [ofExpression_bound h] at hassigned
  rw [renderTokens_eq hassigned, renderTokens_eq (generate_object _ _ _ _ _ _)]
  exact rendered_assigned hname _ positions tag.pos pos files htoolbox bindings

end Stencil
