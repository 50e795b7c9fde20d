import Stencil.Proofs.Generation.Filters
import Stencil.Proofs.Render.Template

/-!
# Checked programs

A program is checked in the order of its text, to the depth of all its bodies.

* `Checker.checkBody_decides`: the check of a body asks about the expressions of all instructions in it.
* `produce_decides`: a template is made of a program if they are accepted and its scripts can be read,
  and is refused as uncompilable otherwise.
-/

namespace Stencil

/-! ## Expressions -/

/-- The expressions that a script assigns. -/
def scriptValues (source : String) : List String :=
  match readScript source with
  | .ok statements => statements.map Statement.value
  | .error _ => []

/-- The expressions that an instruction evaluates itself; those of its bodies are left out. -/
def Instruction.expressions : Instruction → List String
  | script source => scriptValues source
  | i => i.pipelines.flatMap Checker.expressionsOf

theorem Instruction.expressions_eq {i : Instruction} (h : ∀ source, i ≠ script source) :
    i.expressions = i.pipelines.flatMap Checker.expressionsOf := by
  cases i <;> first | rfl | exact absurd rfl (h _)

/-! ## What is checked -/

/-- A check decides a statement: it succeeds if the statement holds, and otherwise it refuses to
compile. -/
structure Decides {α : Type} (x : Except Error α) (P : Prop) : Prop where
  passes : (∃ a, x = .ok a) ↔ P
  refuses : ∀ e, x = .error e → ∃ expression reason, e.cause = .uncompilable expression reason

namespace Decides

variable {α β : Type} {P Q : Prop} {x : Except Error α}

theorem ok (a : α) (h : P) : Decides (.ok a) P := ⟨iff_of_true ⟨a, rfl⟩ h, nofun⟩

theorem refuse {c : Checker} {position : Option Pos} {expression reason : String} (h : ¬ P) :
    Decides (c.refuse position expression reason : Except Error α) P := by
  refine ⟨iff_of_false (fun ⟨a, ha⟩ => nomatch ha) h, fun e he => ?_⟩
  cases he
  exact ⟨expression, reason, rfl⟩

theorem of_iff (h : Decides x P) (hiff : P ↔ Q) : Decides x Q := ⟨h.passes.trans hiff, h.refuses⟩

/-- One check after the other. -/
theorem bind {f : α → Except Error β} (hx : Decides x P) (hf : ∀ a, Decides (f a) Q) :
    Decides (x >>= f) (P ∧ Q) := by
  cases x with
  | error e =>
    have hP : ¬ P := fun h => nomatch hx.passes.2 h
    refine ⟨iff_of_false (fun ⟨b, hb⟩ => nomatch hb) fun h => hP h.1, fun e' he => ?_⟩
    cases he
    exact hx.refuses e rfl
  | ok a =>
    have hP : P := hx.passes.1 ⟨a, rfl⟩
    exact (hf a).of_iff ⟨fun hQ => ⟨hP, hQ⟩, And.right⟩

/-- A check with nothing behind it. -/
theorem last (hx : Decides x P) (b : β) : Decides (do let _ ← x; return b) P :=
  (hx.bind fun _ => .ok b trivial).of_iff (and_iff_left trivial)

end Decides

namespace Evaluator

variable {E : Evaluator}

/-- The expressions of a pipeline are accepted. -/
def AcceptsPipeline (E : Evaluator) (p : Pipeline) : Prop :=
  ∀ x ∈ Checker.expressionsOf p, E.check x = .ok ()

/-- An instruction is accepted, its bodies aside. -/
structure Accepts (E : Evaluator) (i : Instruction) : Prop where
  expressions : ∀ x ∈ i.expressions, E.check x = .ok ()
  script : ∀ source, i = .script source → ∃ statements, readScript source = .ok statements

/-- The instructions of a body are accepted, however deep. -/
def AcceptsAll (E : Evaluator) (body : List Instruction) : Prop := ∀ i, Occurs i body → E.Accepts i

theorem accepts_iff {i : Instruction} (h : ∀ source, i ≠ .script source) :
    E.Accepts i ↔ ∀ p ∈ i.pipelines, E.AcceptsPipeline p := by
  have hexpressions : (∀ x ∈ i.expressions, E.check x = .ok ()) ↔
      ∀ p ∈ i.pipelines, E.AcceptsPipeline p := by
    rw [Instruction.expressions_eq h]
    exact List.forall_mem_flatMap
  rw [← hexpressions]
  exact ⟨Accepts.expressions, fun hall => ⟨hall, fun source hi => absurd hi (h source)⟩⟩

theorem accepts_block {x : Instruction} (h : x.isBlock = true) :
    E.Accepts x ↔ ∀ p ∈ x.pipelines, E.AcceptsPipeline p :=
  accepts_iff fun source heq => by
    subst heq
    cases h

theorem acceptsAll_nil : E.AcceptsAll [] := by
  intro i hi
  cases hi with
  | here mem => exact absurd mem List.not_mem_nil
  | inside mem => exact absurd mem List.not_mem_nil

theorem acceptsAll_singleton {i : Instruction} :
    E.AcceptsAll [i] ↔ E.Accepts i ∧ ∀ inner ∈ i.bodies, E.AcceptsAll inner := by
  constructor
  · intro h
    refine ⟨h i (.here List.mem_cons_self), fun inner hinner x hx => ?_⟩
    exact h x (.inside List.mem_cons_self hinner hx)
  · rintro ⟨hi, hinner⟩ x hx
    cases hx with
    | here mem => exact List.mem_singleton.1 mem ▸ hi
    | inside mem within occurs =>
      obtain rfl := List.mem_singleton.1 mem
      exact hinner _ within x occurs

theorem acceptsAll_cons {i : Instruction} {is : List Instruction} :
    E.AcceptsAll (i :: is) ↔ E.AcceptsAll [i] ∧ E.AcceptsAll is := by
  constructor
  · intro h
    refine ⟨fun x hx => h x (hx.mono ?_), fun x hx => h x (hx.mono ?_)⟩
    · intro y hy
      exact List.mem_singleton.1 hy ▸ List.mem_cons_self
    · exact fun y hy => List.mem_cons_of_mem i hy
  · rintro ⟨hfirst, hrest⟩ x hx
    have hsplit : Occurs x ([i] ++ is) := hx
    rcases hsplit.append with hx | hx
    · exact hfirst x hx
    · exact hrest x hx

/-- An instruction without bodies. -/
theorem acceptsAll_leaf {i : Instruction} (h : i.isBlock = false) :
    E.AcceptsAll [i] ↔ E.Accepts i := by
  rw [acceptsAll_singleton, Instruction.bodies_eq_nil h]
  exact and_iff_left fun inner hinner => absurd hinner List.not_mem_nil

end Evaluator

namespace Checker

variable {c : Checker}

theorem checkExpression_decides (position : Option Pos) (x : String) :
    Decides (c.checkExpression position x) (c.evaluator.check x = .ok ()) := by
  unfold checkExpression
  split
  · next h => exact .ok () h
  · next reason h =>
    refine .refuse fun hok => ?_
    rw [h] at hok
    cases hok

theorem checkExpressions_decides (position : Option Pos) (xs : List String) :
    Decides (c.checkExpressions position xs) (∀ x ∈ xs, c.evaluator.check x = .ok ()) := by
  unfold checkExpressions
  induction xs with
  | nil => exact .ok _ fun x hx => absurd hx List.not_mem_nil
  | cons x xs ih =>
    rw [List.forall_mem_cons]
    exact (checkExpression_decides position x).bind fun _ => ih

theorem checkPipelines_decides (position : Option Pos) (ps : List Pipeline) :
    Decides (c.checkPipelines position ps) (∀ p ∈ ps, c.evaluator.AcceptsPipeline p) :=
  (checkExpressions_decides position _).of_iff List.forall_mem_flatMap

theorem checkScript_decides (position : Option Pos) (source : String) :
    Decides (c.checkScript position source) (c.evaluator.Accepts (.script source)) := by
  unfold checkScript
  split
  · next fault hread =>
    refine .refuse fun haccepts => ?_
    obtain ⟨statements, hstatements⟩ := haccepts.script source rfl
    rw [hread] at hstatements
    cases hstatements
  · next statements hread =>
    have hvalues : (Instruction.script source).expressions = statements.map Statement.value := by
      show scriptValues source = _
      rw [scriptValues, hread]
    refine (checkExpressions_decides position _).of_iff ?_
    rw [← hvalues]
    refine ⟨fun hall => ⟨hall, ?_⟩, Evaluator.Accepts.expressions⟩
    rintro _ ⟨⟩
    exact ⟨statements, hread⟩

/-- Pipelines of an instruction that has no bodies, and nothing behind them. -/
theorem checkPipelines_leaf (position : Option Pos) {i : Instruction} (hleaf : i.isBlock = false)
    (hscript : ∀ source, i ≠ .script source) :
    Decides (do c.checkPipelines position i.pipelines; return position)
      (c.evaluator.AcceptsAll [i]) := by
  rw [Evaluator.acceptsAll_leaf hleaf, Evaluator.accepts_iff hscript]
  exact (checkPipelines_decides position i.pipelines).last position

/-- What evaluates nothing is not looked at. -/
theorem skips_leaf (position : Option Pos) {i : Instruction} (hleaf : i.isBlock = false)
    (hscript : ∀ source, i ≠ .script source) (hnone : i.pipelines = []) :
    Decides (.ok position : Except Error (Option Pos)) (c.evaluator.AcceptsAll [i]) := by
  rw [Evaluator.acceptsAll_leaf hleaf, Evaluator.accepts_iff hscript, hnone]
  exact .ok position fun p hp => absurd hp List.not_mem_nil

mutual

theorem checkInstruction_decides : ∀ (i : Instruction) (position : Option Pos),
    Decides (c.checkInstruction i position) (c.evaluator.AcceptsAll [i])
  | .position pos, position => skips_leaf (some pos) rfl nofun rfl
  | .text _, position => skips_leaf position rfl nofun rfl
  | .capture .., position => skips_leaf position rfl nofun rfl
  | .break, position => skips_leaf position rfl nofun rfl
  | .continue, position => skips_leaf position rfl nofun rfl
  | .callBlock _, position => skips_leaf position rfl nofun rfl
  | .emit p, position => checkPipelines_leaf position (i := .emit p) rfl nofun
  | .assign name op p declares, position =>
    checkPipelines_leaf position (i := .assign name op p declares) rfl nofun
  | .callMixin name args, position =>
    checkPipelines_leaf position (i := .callMixin name args) rfl nofun
  | .script source, position => by
    rw [checkInstruction, Evaluator.acceptsAll_leaf rfl]
    exact (checkScript_decides position source).last position
  | .choose branches otherwise, position => by
    rw [checkInstruction]
    refine ((checkBranches_decides branches position).bind
      fun position => checkOtherwise_decides otherwise position).of_iff ?_
    rw [Evaluator.acceptsAll_singleton,
      Evaluator.accepts_iff (i := .choose branches otherwise) nofun, and_assoc]
    refine and_congr_right fun _ => ?_
    show _ ↔ ∀ inner ∈ branches.map (fun | .mk _ _ body => body) ++ otherwise.toList, _
    rw [List.forall_mem_append]
  | .switch subject arms, position => by
    rw [checkInstruction]
    refine ((checkPipelines_decides position [subject]).bind
      fun _ => checkArms_decides arms position).of_iff ?_
    rw [Evaluator.acceptsAll_singleton, Evaluator.accepts_iff (i := .switch subject arms) nofun,
      ← and_assoc]
    refine and_congr_left fun _ => ?_
    show _ ↔ ∀ p ∈ subject :: arms.flatMap fun | .mk label _ => labelPipelines label, _
    rw [List.forall_mem_singleton, List.forall_mem_cons]
  | .loop binding iterable offset limit body, position => by
    rw [checkInstruction]
    refine ((checkPipelines_decides position (pipelinesOf iterable)).bind
      fun _ => checkBody_decides body position).of_iff ?_
    rw [Evaluator.acceptsAll_singleton,
      Evaluator.accepts_iff (i := .loop binding iterable offset limit body) nofun]
    refine and_congr_right fun _ => ?_
    show _ ↔ ∀ inner ∈ [body], _
    rw [List.forall_mem_singleton]
termination_by structural i => i

/-- The check of a body decides whether all its instructions are accepted. -/
theorem checkBody_decides : ∀ (body : List Instruction) (position : Option Pos),
    Decides (c.checkBody body position) (c.evaluator.AcceptsAll body)
  | [], position => .ok position Evaluator.acceptsAll_nil
  | i :: is, position => by
    rw [checkBody]
    exact ((checkInstruction_decides i position).bind
      fun position => checkBody_decides is position).of_iff Evaluator.acceptsAll_cons.symm
termination_by structural body => body

theorem checkBranches_decides : ∀ (branches : List Branch) (position : Option Pos),
    Decides (c.checkBranches branches position)
      ((∀ p ∈ branches.map (fun | .mk p _ _ => p), c.evaluator.AcceptsPipeline p) ∧
        ∀ inner ∈ branches.map (fun | .mk _ _ body => body), c.evaluator.AcceptsAll inner)
  | [], position =>
    .ok position ⟨fun p hp => absurd hp List.not_mem_nil,
      fun inner hinner => absurd hinner List.not_mem_nil⟩
  | .mk condition negated body :: bs, position => by
    rw [checkBranches]
    refine ((checkPipelines_decides position [condition]).bind fun _ =>
      (checkBody_decides body position).bind fun position =>
        checkBranches_decides bs position).of_iff ?_
    rw [List.map_cons, List.map_cons, List.forall_mem_singleton, List.forall_mem_cons,
      List.forall_mem_cons, and_assoc]
    exact and_congr_right fun _ => and_left_comm
termination_by structural branches => branches

theorem checkOtherwise_decides : ∀ (otherwise : Option (List Instruction)) (position : Option Pos),
    Decides (c.checkOtherwise otherwise position)
      (∀ inner ∈ otherwise.toList, c.evaluator.AcceptsAll inner)
  | none, position => .ok position fun inner hinner => absurd hinner List.not_mem_nil
  | some body, position => by
    rw [checkOtherwise]
    exact (checkBody_decides body position).of_iff List.forall_mem_singleton.symm
termination_by structural otherwise => otherwise

theorem checkArms_decides : ∀ (arms : List Arm) (position : Option Pos),
    Decides (c.checkArms arms position)
      ((∀ p ∈ arms.flatMap (fun | .mk label _ => labelPipelines label),
          c.evaluator.AcceptsPipeline p) ∧
        ∀ inner ∈ arms.map (fun | .mk _ body => body), c.evaluator.AcceptsAll inner)
  | [], position =>
    .ok position ⟨fun p hp => absurd hp List.not_mem_nil,
      fun inner hinner => absurd hinner List.not_mem_nil⟩
  | .mk label body :: arms, position => by
    rw [checkArms]
    refine ((checkPipelines_decides position (labelPipelines label)).bind fun _ =>
      (checkBody_decides body position).bind fun position =>
        checkArms_decides arms position).of_iff ?_
    rw [List.map_cons, List.flatMap_cons, List.forall_mem_append, List.forall_mem_cons, and_assoc]
    exact and_congr_right fun _ => and_left_comm
termination_by structural arms => arms

end

theorem checkBodies_decides (bodies : List (List Instruction)) :
    Decides (c.checkBodies bodies) (∀ body ∈ bodies, c.evaluator.AcceptsAll body) := by
  have hfold (position : Option Pos) :
      Decides (bodies.foldlM (fun position body => c.checkBody body position) position)
        (∀ body ∈ bodies, c.evaluator.AcceptsAll body) := by
    induction bodies generalizing position with
    | nil => exact .ok _ fun body hbody => absurd hbody List.not_mem_nil
    | cons body bodies ih =>
      rw [List.foldlM_cons]
      exact ((checkBody_decides body position).bind ih).of_iff List.forall_mem_cons.symm
  exact (hfold none).last ()

theorem acceptsAll_bodiesOf {E : Evaluator} {program : Program} :
    (∀ body ∈ bodiesOf program, E.AcceptsAll body) ↔ ∀ i, program.Holds i → E.Accepts i := by
  rw [forall_mem_bodiesOf]
  constructor
  · rintro ⟨hbody, hmixins, hblocks⟩ i hi
    cases hi with
    | body occurs => exact hbody i occurs
    | mixin mem occurs => exact hmixins _ mem i occurs
    | block mem occurs => exact hblocks _ mem i occurs
  · intro h
    exact ⟨fun i hi => h i (.body hi), fun _ he i hi => h i (.mixin he hi),
      fun _ he i hi => h i (.block he hi)⟩

end Checker

/-- Making a template of a program decides whether all its instructions are accepted, however deep. -/
theorem produce_decides (program : Program) (files : Files) (toolbox : Option Toolbox) :
    Decides (Template.produce program files toolbox)
      (∀ i, program.Holds i → (toolbox.getD default).evaluator.Accepts i) := by
  have hchecks : Decides (Checker.checkBodies ⟨(toolbox.getD default).evaluator, files⟩
      (Checker.bodiesOf program)) _ :=
    (Checker.checkBodies_decides _).of_iff Checker.acceptsAll_bodiesOf
  exact hchecks.last (⟨program, files, toolbox.getD default, toolbox.isSome⟩ : Template)

/-- Making a template of the program asks about the expression: no evaluator that refuses it lets the
program through. -/
def Program.Asks (program : Program) (files : Files) (x : String) : Prop :=
  ∀ toolbox : Toolbox, (∃ t, Template.produce program files (some toolbox) = .ok t) →
    toolbox.evaluator.check x = .ok ()

theorem Program.Holds.asks {program : Program} {i : Instruction} (h : program.Holds i)
    (files : Files) {x : String} (hx : x ∈ i.expressions) : program.Asks files x := by
  intro toolbox hpasses
  exact ((produce_decides program files (some toolbox)).passes.1 hpasses i h).expressions x hx

end Stencil
