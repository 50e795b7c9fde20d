import Stencil.Program.Listing
import Stencil.Proofs.Generation.Filters
import Stencil.Proofs.Text.Lines

/-!
# Outlines of programs

The outline of a program has a row for every line that its listing should have: for each
instruction, for the head of each branch, arm, mixin and block, and for each end of a body. What
stands in a body is one deeper than the body.

* `Program.lines_eq`: the listing is made of the rows, each behind two blanks for every body around
  it.
* `Program.length_outline`: how many rows there are depends on the shape of the program alone.
* `Program.prints_of_mem`: every row stands for something in the program.
* `Row.lineFeeds_header`: a row has no line feeds but those of files, names and expressions. All
  other texts are quoted.
* `Program.linesOf_listing_iff`: so the lines of a listing are its rows exactly if no file's name
  and no expression has a line feed, as long as no other name has one.
-/

namespace Stencil

open Text

/-! ## Rows -/

/-- What a line of a listing is for. -/
inductive Row where
  /-- An instruction, without its bodies. -/
  | instruction (i : Instruction)
  | branch (first : Bool) (condition : Pipeline) (negated : Bool)
  | otherwise
  | arm (label : ArmLabel)
  | mixin (name : String) (params : List String)
  | block (name : String)
  /-- The end of a body. -/
  | close
  | runtime (filters : List String)

/-- The word in front of a branch. -/
def branchWord (first : Bool) : String := if first then "if" else "else if"

/-- An instruction in front of its bodies. A condition starts with its first branch. -/
def Instruction.header : Instruction → String
  | position pos => "@ " ++ pos.describe
  | text s => "text " ++ quote s
  | emit p => "emit " ++ p.describe
  | assign name op p declares =>
    assignWord declares ++ " " ++ name ++ " " ++ op.sign ++ " " ++ p.describe
  | capture name source declares => assignWord declares ++ " " ++ name ++ " = " ++ quote source
  | choose .. => ""
  | switch subject _ => "switch " ++ subject.describe ++ " \x7b"
  | loop binding iterable offset limit _ =>
    "for " ++ binding.describe ++ " in " ++ iterable.describe ++ boundClause "offset" offset ++
      boundClause "limit" limit ++ " \x7b"
  | «break» => "break"
  | «continue» => "continue"
  | callMixin name args => "call " ++ name ++ "(" ++ describeAll args ++ ")"
  | callBlock name => "block " ++ name
  | script source => "script " ++ quote source

/-- The file that an instruction tells a position in. -/
def Instruction.files : Instruction → List String
  | position pos => [pos.file]
  | _ => []

/-- The names in front of the bodies of an instruction. -/
def Instruction.names : Instruction → List String
  | assign name .. => [name]
  | capture name .. => [name]
  | loop binding .. => binding.names
  | callMixin name _ => [name]
  | callBlock name => [name]
  | _ => []

/-- The pipelines in front of the bodies of an instruction. -/
def Instruction.headPipelines : Instruction → List Pipeline
  | choose .. => []
  | switch subject _ => [subject]
  | i => i.pipelines

namespace Row

/-- A row as it is written. -/
def header : Row → String
  | instruction i => i.header
  | branch first condition negated =>
    branchWord first ++ " " ++ describeCondition condition negated ++ " \x7b"
  | otherwise => "else \x7b"
  | arm label => label.describe ++ " \x7b"
  | mixin name params => "mixin " ++ name ++ "(" ++ join ", " params ++ ")" ++ " \x7b"
  | block name => "define block " ++ name ++ " \x7b"
  | close => "\x7d"
  | runtime filters => "runtime filters(" ++ join ", " filters ++ ")"

/-- The file that a row tells a position in. -/
def files : Row → List String
  | instruction i => i.files
  | _ => []

/-- The names in a row. -/
def names : Row → List String
  | instruction i => i.names
  | mixin name params => name :: params
  | block name => [name]
  | _ => []

/-- The pipelines in a row. -/
def pipelines : Row → List Pipeline
  | instruction i => i.headPipelines
  | branch _ condition _ => [condition]
  | arm label => Checker.labelPipelines label
  | _ => []

/-- The texts in a row that come from expressions and their filters. -/
def expressions : Row → List String
  | runtime filters => filters
  | row => row.pipelines.flatMap Pipeline.texts

end Row

/-- A row at its depth. -/
structure Line where
  depth : Nat := 0
  row : Row

namespace Line

/-- The line in a body. -/
def deeper (line : Line) : Line := { line with depth := line.depth + 1 }

/-- The line as it is written: two blanks for every body around it. -/
def text (line : Line) : String :=
  String.join (List.replicate line.depth "  ") ++ line.row.header

theorem text_outer (row : Row) : text { row } = row.header := String.empty_append

theorem text_deeper (line : Line) : line.deeper.text = "  " ++ line.text := by
  simp [text, deeper, List.replicate_succ, String.join_cons, String.append_assoc]

end Line

/-! ## Outlines -/

/-- A row and a body behind it. -/
def Row.around (row : Row) (body : List Line) : List Line :=
  { row } :: (body.map Line.deeper ++ [{ row := .close }])

theorem Row.text_around (row : Row) (header : String) (hheader : row.header = header ++ " \x7b")
    (body : List Line) :
    (row.around body).map Line.text = enclosed header (body.map Line.text) := by
  have hbody : (body.map Line.deeper).map Line.text = indented (body.map Line.text) := by
    rw [indented, List.map_map, List.map_map]
    exact List.map_congr_left fun line _ => line.text_deeper
  rw [around, enclosed, List.map_cons, List.map_append, hbody, List.map_singleton, Line.text_outer,
    Line.text_outer, hheader]
  rfl

mutual

/-- The outline of an instruction. -/
def Instruction.outline : Instruction → List Line
  | .choose branches otherwise => outlineOfBranches true branches ++ outlineOfOtherwise otherwise
  | .switch subject arms => (Row.instruction (.switch subject arms)).around (outlineOfArms arms)
  | .loop binding iterable offset limit body =>
    (Row.instruction (.loop binding iterable offset limit body)).around (outlineOfBody body)
  | i => [{ row := .instruction i }]
termination_by structural i => i

/-- The outline of a body. -/
def outlineOfBody : List Instruction → List Line
  | [] => []
  | i :: is => i.outline ++ outlineOfBody is
termination_by structural is => is

def outlineOfBranches (first : Bool) : List Branch → List Line
  | [] => []
  | .mk condition negated body :: bs =>
    (Row.branch first condition negated).around (outlineOfBody body) ++ outlineOfBranches false bs
termination_by structural bs => bs

def outlineOfOtherwise : Option (List Instruction) → List Line
  | none => []
  | some body => Row.otherwise.around (outlineOfBody body)
termination_by structural body => body

def outlineOfArms : List Arm → List Line
  | [] => []
  | .mk label body :: arms => (Row.arm label).around (outlineOfBody body) ++ outlineOfArms arms
termination_by structural arms => arms

end

/-- The outline of a program: its main body, mixins, blocks and bundled filters. -/
def Program.outline (program : Program) : List Line :=
  outlineOfBody program.body ++
    program.mixins.entries.flatMap (fun (name, mixin) =>
      (Row.mixin name mixin.params).around (outlineOfBody mixin.body)) ++
    program.blocks.entries.flatMap (fun (name, body) =>
      (Row.block name).around (outlineOfBody body)) ++
    match program.bundled with
    | some filters => [{ row := .runtime filters }]
    | none => []

mutual

/-- How many lines an instruction should have. -/
def Instruction.lineCount : Instruction → Nat
  | .choose branches otherwise => lineCountOfBranches branches + lineCountOfOtherwise otherwise
  | .switch _ arms => lineCountOfArms arms + 2
  | .loop _ _ _ _ body => lineCountOfBody body + 2
  | _ => 1
termination_by structural i => i

/-- How many lines a body should have. -/
def lineCountOfBody : List Instruction → Nat
  | [] => 0
  | i :: is => i.lineCount + lineCountOfBody is
termination_by structural is => is

def lineCountOfBranches : List Branch → Nat
  | [] => 0
  | .mk _ _ body :: bs => lineCountOfBody body + 2 + lineCountOfBranches bs
termination_by structural bs => bs

def lineCountOfOtherwise : Option (List Instruction) → Nat
  | none => 0
  | some body => lineCountOfBody body + 2
termination_by structural body => body

def lineCountOfArms : List Arm → Nat
  | [] => 0
  | .mk _ body :: arms => lineCountOfBody body + 2 + lineCountOfArms arms
termination_by structural arms => arms

end

/-- How many lines the listing of a program should have. -/
def Program.lineCount (program : Program) : Nat :=
  lineCountOfBody program.body +
    (program.mixins.entries.map fun e => lineCountOfBody e.2.body + 2).sum +
    (program.blocks.entries.map fun e => lineCountOfBody e.2 + 2).sum +
    if program.bundled.isSome then 1 else 0

@[simp]
theorem Row.length_around (row : Row) (body : List Line) :
    (row.around body).length = body.length + 2 := by
  simp [around]

mutual

theorem Instruction.text_outline (i : Instruction) : i.outline.map Line.text = i.lines := by
  cases i with
  | choose branches otherwise =>
    rw [Instruction.outline, Instruction.lines, List.map_append, text_outlineOfBranches,
      text_outlineOfOtherwise]
    rfl
  | switch subject arms =>
    rw [Instruction.outline, Instruction.lines,
      Row.text_around _ ("switch " ++ subject.describe) rfl, text_outlineOfArms]
  | loop binding iterable offset limit body =>
    rw [Instruction.outline, Instruction.lines, Row.text_around _ _ rfl, text_outlineOfBody]
  | _ => exact congrArg List.singleton (Line.text_outer (.instruction _))
termination_by structural i

theorem text_outlineOfBody (body : List Instruction) :
    (outlineOfBody body).map Line.text = linesOfBody body := by
  cases body with
  | nil => rfl
  | cons i is =>
    rw [outlineOfBody, linesOfBody, List.map_append, i.text_outline, text_outlineOfBody]
termination_by structural body

theorem text_outlineOfBranches (first : Bool) (branches : List Branch) :
    (outlineOfBranches first branches).map Line.text =
      linesOfBranches (branchWord first) branches := by
  cases branches with
  | nil => rfl
  | cons b bs =>
    obtain ⟨condition, negated, body⟩ := b
    rw [outlineOfBranches, linesOfBranches, Branch.lines, List.map_append,
      Row.text_around _ (branchWord first ++ " " ++ describeCondition condition negated) rfl,
      text_outlineOfBody, text_outlineOfBranches]
    rfl
termination_by structural branches

theorem text_outlineOfOtherwise (otherwise : Option (List Instruction)) :
    (outlineOfOtherwise otherwise).map Line.text = linesOfOtherwise otherwise := by
  cases otherwise with
  | none => rfl
  | some body =>
    rw [outlineOfOtherwise, linesOfOtherwise, Row.text_around _ "else" rfl, text_outlineOfBody]
termination_by structural otherwise

theorem text_outlineOfArms (arms : List Arm) :
    (outlineOfArms arms).map Line.text = linesOfArms arms := by
  cases arms with
  | nil => rfl
  | cons arm arms =>
    obtain ⟨label, body⟩ := arm
    rw [outlineOfArms, linesOfArms, Arm.lines, List.map_append,
      Row.text_around _ label.describe rfl, text_outlineOfBody, text_outlineOfArms]
termination_by structural arms

end

/-- A listing is made of the rows of the outline. -/
theorem Program.lines_eq (program : Program) : program.lines = program.outline.map Line.text := by
  unfold lines outline
  simp only [List.map_append, List.map_flatMap, text_outlineOfBody]
  congr 1
  · congr 1
    · congr 1
      refine List.flatMap_congr fun e _ => ?_
      rw [Row.text_around _ ("mixin " ++ e.1 ++ "(" ++ join ", " e.2.params ++ ")") rfl,
        text_outlineOfBody]
    · refine List.flatMap_congr fun e _ => ?_
      rw [Row.text_around _ ("define block " ++ e.1) rfl, text_outlineOfBody]
  · cases program.bundled with
    | none => rfl
    | some filters => rw [List.map_singleton, Line.text_outer]; rfl

/-! ## Shapes -/

mutual

theorem Instruction.length_outline (i : Instruction) : i.outline.length = i.lineCount := by
  cases i with
  | choose branches otherwise =>
    rw [Instruction.outline, Instruction.lineCount, List.length_append, length_outlineOfBranches,
      length_outlineOfOtherwise]
  | switch subject arms =>
    rw [Instruction.outline, Instruction.lineCount, Row.length_around, length_outlineOfArms]
  | loop binding iterable offset limit body =>
    rw [Instruction.outline, Instruction.lineCount, Row.length_around, length_outlineOfBody]
  | _ => rfl
termination_by structural i

theorem length_outlineOfBody (body : List Instruction) :
    (outlineOfBody body).length = lineCountOfBody body := by
  cases body with
  | nil => rfl
  | cons i is =>
    rw [outlineOfBody, lineCountOfBody, List.length_append, i.length_outline, length_outlineOfBody]
termination_by structural body

theorem length_outlineOfBranches (first : Bool) (branches : List Branch) :
    (outlineOfBranches first branches).length = lineCountOfBranches branches := by
  cases branches with
  | nil => rfl
  | cons b bs =>
    obtain ⟨condition, negated, body⟩ := b
    rw [outlineOfBranches, lineCountOfBranches, List.length_append, Row.length_around,
      length_outlineOfBody, length_outlineOfBranches]
termination_by structural branches

theorem length_outlineOfOtherwise (otherwise : Option (List Instruction)) :
    (outlineOfOtherwise otherwise).length = lineCountOfOtherwise otherwise := by
  cases otherwise with
  | none => rfl
  | some body =>
    rw [outlineOfOtherwise, lineCountOfOtherwise, Row.length_around, length_outlineOfBody]
termination_by structural otherwise

theorem length_outlineOfArms (arms : List Arm) :
    (outlineOfArms arms).length = lineCountOfArms arms := by
  cases arms with
  | nil => rfl
  | cons arm arms =>
    obtain ⟨label, body⟩ := arm
    rw [outlineOfArms, lineCountOfArms, List.length_append, Row.length_around,
      length_outlineOfBody, length_outlineOfArms]
termination_by structural arms

end

/-- How many rows an outline has depends on the shape of the program alone. -/
theorem Program.length_outline (program : Program) :
    program.outline.length = program.lineCount := by
  unfold outline lineCount
  simp only [List.length_append, List.length_flatMap, Row.length_around, length_outlineOfBody]
  cases program.bundled <;> rfl

/-! ## What rows stand for -/

/-- The row stands for something in the program. A condition has no row of its own. -/
inductive Program.Prints (program : Program) : Row → Prop where
  | instruction {i : Instruction} (holds : program.Holds i)
      (own : ∀ branches otherwise, i ≠ .choose branches otherwise) :
      Prints program (.instruction i)
  | branch {first : Bool} {condition : Pipeline} {negated : Bool} {body : List Instruction}
      {branches : List Branch} {otherwise : Option (List Instruction)}
      (holds : program.Holds (.choose branches otherwise))
      (mem : .mk condition negated body ∈ branches) :
      Prints program (.branch first condition negated)
  | otherwise {branches : List Branch} {body : List Instruction}
      (holds : program.Holds (.choose branches (some body))) : Prints program .otherwise
  | arm {subject : Pipeline} {label : ArmLabel} {body : List Instruction} {arms : List Arm}
      (holds : program.Holds (.switch subject arms)) (mem : .mk label body ∈ arms) :
      Prints program (.arm label)
  | mixin {e : String × Mixin} (mem : e ∈ program.mixins.entries) :
      Prints program (.mixin e.1 e.2.params)
  | block {e : String × List Instruction} (mem : e ∈ program.blocks.entries) :
      Prints program (.block e.1)
  | close : Prints program .close
  | runtime {filters : List String} (bundled : program.bundled = some filters) :
      Prints program (.runtime filters)

section

variable {program : Program}

/-- Around a body whose rows stand for something, its own row and its end are put. -/
theorem Row.prints_around {row : Row} {body : List Line} (hrow : program.Prints row)
    (hbody : ∀ line ∈ body, program.Prints line.row) :
    ∀ line ∈ row.around body, program.Prints line.row := by
  intro line hline
  simp only [around, List.mem_cons, List.mem_append, List.mem_map, List.not_mem_nil,
    or_false] at hline
  rcases hline with rfl | ⟨inner, hinner, rfl⟩ | rfl
  · exact hrow
  · exact hbody inner hinner
  · exact .close

/-- What stands in a body of a block that the program holds, the program holds too. -/
theorem Program.Holds.within {i : Instruction} {inner : List Instruction} (h : program.Holds i)
    (hinner : inner ∈ i.bodies) : ∀ x ∈ inner, program.Holds x :=
  fun _ hx => h.deeper hinner (.here hx)

mutual

theorem Instruction.prints_outline (i : Instruction) (h : program.Holds i) :
    ∀ line ∈ i.outline, program.Prints line.row := by
  cases i with
  | choose branches otherwise =>
    rw [Instruction.outline]
    refine List.forall_mem_append.2 ⟨?_, ?_⟩
    · exact prints_outlineOfBranches true h branches fun _ hb => hb
    · exact prints_outlineOfOtherwise h otherwise rfl
  | switch subject arms =>
    have hrow := Program.Prints.instruction h fun _ _ heq => by cases heq
    exact Row.prints_around hrow (prints_outlineOfArms h arms fun _ ha => ha)
  | loop binding iterable offset limit body =>
    have hbody := h.within List.mem_cons_self
    have hrow := Program.Prints.instruction h fun _ _ heq => by cases heq
    exact Row.prints_around hrow (prints_outlineOfBody body hbody)
  | _ => exact List.forall_mem_singleton.2 (.instruction h fun _ _ heq => by cases heq)
termination_by structural i

theorem prints_outlineOfBody (body : List Instruction) (h : ∀ x ∈ body, program.Holds x) :
    ∀ line ∈ outlineOfBody body, program.Prints line.row := by
  cases body with
  | nil => exact fun _ hline => absurd hline List.not_mem_nil
  | cons i is =>
    rw [List.forall_mem_cons] at h
    exact List.forall_mem_append.2 ⟨i.prints_outline h.1, prints_outlineOfBody is h.2⟩
termination_by structural body

theorem prints_outlineOfBranches (first : Bool) {all : List Branch}
    {otherwise : Option (List Instruction)} (h : program.Holds (.choose all otherwise))
    (branches : List Branch) (hall : ∀ b ∈ branches, b ∈ all) :
    ∀ line ∈ outlineOfBranches first branches, program.Prints line.row := by
  cases branches with
  | nil => exact fun _ hline => absurd hline List.not_mem_nil
  | cons b bs =>
    obtain ⟨condition, negated, body⟩ := b
    rw [List.forall_mem_cons] at hall
    have hbody := h.within (List.mem_append_left _ (List.mem_map_of_mem hall.1))
    exact List.forall_mem_append.2 ⟨Row.prints_around (.branch h hall.1)
      (prints_outlineOfBody body hbody), prints_outlineOfBranches _ h bs hall.2⟩
termination_by structural branches

theorem prints_outlineOfOtherwise {branches : List Branch}
    {all : Option (List Instruction)} (h : program.Holds (.choose branches all))
    (otherwise : Option (List Instruction)) (hall : otherwise = all) :
    ∀ line ∈ outlineOfOtherwise otherwise, program.Prints line.row := by
  cases otherwise with
  | none => exact fun _ hline => absurd hline List.not_mem_nil
  | some body =>
    subst hall
    have hbody := h.within (List.mem_append_right _ List.mem_cons_self)
    exact Row.prints_around (.otherwise h) (prints_outlineOfBody body hbody)
termination_by structural otherwise

theorem prints_outlineOfArms {subject : Pipeline} {all : List Arm}
    (h : program.Holds (.switch subject all)) (arms : List Arm) (hall : ∀ a ∈ arms, a ∈ all) :
    ∀ line ∈ outlineOfArms arms, program.Prints line.row := by
  cases arms with
  | nil => exact fun _ hline => absurd hline List.not_mem_nil
  | cons arm arms =>
    obtain ⟨label, body⟩ := arm
    rw [List.forall_mem_cons] at hall
    have hbody := h.within (List.mem_map_of_mem hall.1)
    exact List.forall_mem_append.2 ⟨Row.prints_around (.arm h hall.1)
      (prints_outlineOfBody body hbody), prints_outlineOfArms h arms hall.2⟩
termination_by structural arms

end

/-- Every row of an outline stands for something in the program. -/
theorem Program.prints_of_mem : ∀ line ∈ program.outline, program.Prints line.row := by
  intro line hline
  simp only [outline, List.mem_append, List.mem_flatMap] at hline
  rcases hline with ((hbody | ⟨e, he, hmixin⟩) | ⟨e, he, hblock⟩) | hruntime
  · exact prints_outlineOfBody _ (fun x hx => .body (.here hx)) line hbody
  · exact Row.prints_around (.mixin he)
      (prints_outlineOfBody _ fun x hx => .mixin he (.here hx)) line hmixin
  · exact Row.prints_around (.block he)
      (prints_outlineOfBody _ fun x hx => .block he (.here hx)) line hblock
  · split at hruntime
    · next filters hbundled =>
      obtain rfl := List.mem_singleton.1 hruntime
      exact .runtime hbundled
    · exact absurd hruntime List.not_mem_nil

/-- The pipelines in a row belong to an instruction. -/
theorem Program.Prints.pipelines {row : Row} {p : Pipeline} (h : program.Prints row)
    (hp : p ∈ row.pipelines) : ∃ x, program.Holds x ∧ p ∈ x.pipelines := by
  cases h with
  | @instruction i holds =>
    refine ⟨i, holds, ?_⟩
    cases i with
    | choose => exact absurd hp List.not_mem_nil
    | switch subject arms =>
      obtain rfl := List.mem_singleton.1 hp
      exact List.mem_cons_self
    | _ => exact hp
  | branch holds mem =>
    obtain rfl := List.mem_singleton.1 hp
    exact ⟨_, holds, List.mem_map.2 ⟨_, mem, rfl⟩⟩
  | arm holds mem =>
    exact ⟨_, holds, List.mem_cons_of_mem _ (List.mem_flatMap.2 ⟨_, mem, hp⟩)⟩
  | _ => exact absurd hp List.not_mem_nil

/-- An expression in a row belongs to a pipeline of an instruction, or is the name of a filter that
the program carries. -/
theorem Program.Prints.expressions {row : Row} {s : String} (h : program.Prints row)
    (hs : s ∈ row.expressions) :
    (∃ x p, program.Holds x ∧ p ∈ x.pipelines ∧ s ∈ p.texts) ∨
      ∃ names, program.bundled = some names ∧ s ∈ names := by
  have hpipelines (htexts : s ∈ row.pipelines.flatMap Pipeline.texts) :
      ∃ x p, program.Holds x ∧ p ∈ x.pipelines ∧ s ∈ p.texts := by
    obtain ⟨p, hp, hs⟩ := List.mem_flatMap.1 htexts
    obtain ⟨x, holds, hmem⟩ := h.pipelines hp
    exact ⟨x, p, holds, hmem, hs⟩
  cases row with
  | runtime names =>
    cases h with
    | runtime bundled => exact .inr ⟨names, bundled, hs⟩
  | _ => exact .inl (hpipelines hs)

/-! ## Line feeds in rows -/

/-- In a pipeline all line feeds are those of its texts. -/
@[simp]
theorem Pipeline.lineFeeds_describe (p : Pipeline) :
    lineFeeds p.describe = (p.texts.map lineFeeds).sum := by
  have hfold (calls : List FilterCall) (shown : String) :
      lineFeeds (calls.foldl (fun shown call =>
        call.name ++ "(" ++ shown ++ String.join (call.args.map (", " ++ ·)) ++ ")") shown) =
      lineFeeds shown + ((calls.flatMap FilterCall.texts).map lineFeeds).sum := by
    induction calls generalizing shown with
    | nil => rfl
    | cons call calls ih =>
      have hargs : lineFeeds (String.join (call.args.map (", " ++ ·))) =
          (call.args.map lineFeeds).sum := by
        have hone (arg : String) : lineFeeds (", " ++ arg) = lineFeeds arg := by
          rw [lineFeeds_append]
          exact Nat.zero_add _
        simp [Function.comp_def, hone]
      rw [List.foldl_cons, ih, List.flatMap_cons, sum_lineFeeds_append, FilterCall.texts,
        List.map_cons, List.sum_cons]
      simp (disch := decide) only [lineFeeds_append, lineFeeds_of_notMem, hargs]
      omega
  exact hfold p.filters p.base

@[simp]
theorem lineFeeds_describeAll (ps : List Pipeline) :
    lineFeeds (describeAll ps) = ((ps.flatMap Pipeline.texts).map lineFeeds).sum := by
  rw [describeAll, lineFeeds_join (by rfl)]
  induction ps with
  | nil => rfl
  | cons p ps ih =>
    rw [List.map_cons, List.map_cons, List.sum_cons, ih, List.flatMap_cons, sum_lineFeeds_append,
      p.lineFeeds_describe]

@[simp]
theorem lineFeeds_assignWord (declares : Bool) : lineFeeds (assignWord declares) = 0 := by
  cases declares <;> rfl

@[simp]
theorem AssignOp.lineFeeds_sign (op : AssignOp) : lineFeeds op.sign = 0 := by
  cases op <;> rfl

theorem lineFeeds_boundClause {word : String} (hword : lineFeeds word = 0) (n : Option Int) :
    lineFeeds (boundClause word n) = 0 := by
  cases n with
  | none => rfl
  | some n =>
    simp (disch := decide) only [boundClause, lineFeeds_append, lineFeeds_of_notMem, hword,
      lineFeeds_int]

@[simp]
theorem LoopBinding.lineFeeds_describe (binding : LoopBinding) :
    lineFeeds binding.describe = (binding.names.map lineFeeds).sum := by
  cases binding with
  | item name => simp [describe, names]
  | keyed key value =>
    simp (disch := decide) [describe, names, lineFeeds_of_notMem]
  | members names =>
    simp (disch := decide) only [describe, LoopBinding.names, lineFeeds_append, lineFeeds_of_notMem,
      lineFeeds_join, Nat.zero_add, Nat.add_zero]
  | places names =>
    simp (disch := decide) only [describe, LoopBinding.names, lineFeeds_append, lineFeeds_of_notMem,
      lineFeeds_join, Nat.zero_add, Nat.add_zero]
    induction names with
    | nil => rfl
    | cons name names ih => cases name <;> simp_all [lineFeeds_of_notMem]

@[simp]
theorem Iterable.lineFeeds_describe (iterable : Iterable) : lineFeeds iterable.describe =
    (((Checker.pipelinesOf iterable).flatMap Pipeline.texts).map lineFeeds).sum := by
  cases iterable <;>
    simp (disch := decide) [describe, Checker.pipelinesOf, lineFeeds_of_notMem]

/-- In front of its bodies, an instruction has the line feeds of its file, names and pipelines. -/
theorem Instruction.lineFeeds_header (i : Instruction) : lineFeeds i.header =
    (i.files.map lineFeeds).sum + (i.names.map lineFeeds).sum +
      ((i.headPipelines.flatMap Pipeline.texts).map lineFeeds).sum := by
  cases i with
  | loop binding iterable offset limit body =>
    have hoffset := lineFeeds_boundClause (show lineFeeds "offset" = 0 by rfl) offset
    have hlimit := lineFeeds_boundClause (show lineFeeds "limit" = 0 by rfl) limit
    simp (disch := decide) [header, files, names, headPipelines, pipelines, lineFeeds_of_notMem,
      hoffset, hlimit]
  | _ =>
    simp (disch := decide) [header, files, names, headPipelines, pipelines, lineFeeds_of_notMem,
      Pos.describe]

/-- A row has the line feeds of its file, names and expressions. -/
theorem Row.lineFeeds_header (row : Row) : lineFeeds row.header =
    (row.files.map lineFeeds).sum + (row.names.map lineFeeds).sum +
      (row.expressions.map lineFeeds).sum := by
  unfold header
  cases row with
  | instruction i => exact i.lineFeeds_header
  | branch first condition negated =>
    cases first <;> cases negated <;>
      simp (disch := decide) [branchWord, describeCondition, files, names, expressions, pipelines,
        lineFeeds_of_notMem]
  | arm label =>
    cases label <;>
      simp (disch := decide) [ArmLabel.describe, files, names, expressions, pipelines,
        Checker.labelPipelines, lineFeeds_of_notMem]
  | _ =>
    simp (disch := decide) [files, names, expressions, pipelines, lineFeeds_of_notMem, lineFeeds_join]

/-! ## Listings -/

/-- The blanks in front of a line are no line feeds. -/
theorem Line.lineFeeds_text (line : Line) : lineFeeds line.text = lineFeeds line.row.header := by
  have hblank : lineFeeds "  " = 0 := by rfl
  simp [text, hblank]

namespace Program

/-- The files that a program tells positions in, in the order of its listing. -/
def files (program : Program) : List String := program.outline.flatMap (·.row.files)

/-- The expressions of a program and their filters, in the order of its listing. -/
def expressions (program : Program) : List String := program.outline.flatMap (·.row.expressions)

/-- No name in a program has a line feed. -/
def NamesInLine (program : Program) : Prop :=
  ∀ row, program.Prints row → ∀ name ∈ row.names, '\n' ∉ name.toList

/-- Every row takes a line, and every line feed in a file's name or in an expression starts one
more. -/
theorem lineFeeds_listing (h : program.NamesInLine) : lineFeeds program.listing =
    program.lineCount + (program.files.map lineFeeds).sum +
      (program.expressions.map lineFeeds).sum := by
  rw [listing, lines_eq, ← length_outline, files, expressions]
  have hrows : ∀ line ∈ program.outline, lineFeeds line.text =
      (line.row.files.map lineFeeds).sum + (line.row.expressions.map lineFeeds).sum := by
    intro line hline
    have hnames := sum_lineFeeds_eq_zero.2 (h line.row (prints_of_mem line hline))
    rw [line.lineFeeds_text, line.row.lineFeeds_header, hnames, Nat.add_zero]
  -- The induction is on the rows, whatever they are rows of.
  generalize program.outline = outline at hrows ⊢
  induction outline with
  | nil => rfl
  | cons line outline ih =>
    rw [List.forall_mem_cons] at hrows
    have hfeed : lineFeeds "\n" = 1 := by rfl
    have hrest := ih hrows.2
    simp only [lineFeeds_concat, List.map_cons, List.sum_cons, lineFeeds_append, hfeed, hrows.1,
      List.length_cons, List.flatMap_cons, sum_lineFeeds_append] at hrest ⊢
    omega

/-- The lines of a listing are its rows exactly if no file's name and no expression has a line
feed. -/
theorem linesOf_listing_iff (h : program.NamesInLine) :
    linesOf program.listing.toList = program.outline.map (·.text.toList) ++ [[]] ↔
      (∀ s ∈ program.files, '\n' ∉ s.toList) ∧ ∀ s ∈ program.expressions, '\n' ∉ s.toList := by
  have hcount := lineFeeds_listing h
  rw [← sum_lineFeeds_eq_zero, ← sum_lineFeeds_eq_zero]
  constructor
  · intro hlines
    have hlength := congrArg List.length hlines
    rw [length_linesOf, List.length_append, List.length_map, length_outline,
      List.length_singleton] at hlength
    omega
  · rintro ⟨hfiles, hexpressions⟩
    rw [listing, lines_eq, linesOf_ended, List.map_map]
    · rfl
    · intro s hs
      obtain ⟨line, hline, rfl⟩ := List.mem_map.1 hs
      have hnames := h line.row (prints_of_mem line hline)
      rw [sum_lineFeeds_eq_zero, files, List.forall_mem_flatMap] at hfiles
      rw [sum_lineFeeds_eq_zero, expressions, List.forall_mem_flatMap] at hexpressions
      rw [← lineFeeds_eq_zero, line.lineFeeds_text, line.row.lineFeeds_header,
        sum_lineFeeds_eq_zero.2 hnames, sum_lineFeeds_eq_zero.2 (hfiles line hline),
        sum_lineFeeds_eq_zero.2 (hexpressions line hline)]

end Program

end

end Stencil
