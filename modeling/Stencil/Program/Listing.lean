import Stencil.Program.Basic
import Stencil.Text.Quoted
import Stencil.Text.Search

/-!
# Listings of programs

A program is shown with one line for each instruction and each end of a body, indented by two spaces
for every body around it.
-/

namespace Stencil

/-- A pipeline as nested calls. -/
def Pipeline.describe (p : Pipeline) : String :=
  p.filters.foldl (fun shown call =>
    call.name ++ "(" ++ shown ++ String.join (call.args.map (", " ++ ·)) ++ ")") p.base

/-- The names that an iteration binds, as they are written. -/
def LoopBinding.describe : LoopBinding → String
  | item name => name
  | keyed key value => key ++ ", " ++ value
  | places names => "[" ++ Text.join ", " (names.map (·.getD "")) ++ "]"
  | members names => "\x7b" ++ Text.join ", " names ++ "\x7d"

/-- What a loop runs over, as it is written. -/
def Iterable.describe : Iterable → String
  | pipeline p => p.describe
  | range start stop => start.describe ++ ".." ++ stop.describe

/-- A clause of a loop with a bound. -/
def boundClause (word : String) : Option Int → String
  | none => ""
  | some n => " | " ++ word ++ " " ++ toString n

/-- The word for an assignment. -/
def assignWord (declares : Bool) : String := if declares then "let" else "set"

/-- Some pipelines, separated by commas. -/
def describeAll (ps : List Pipeline) : String := Text.join ", " (ps.map Pipeline.describe)

/-- The condition of a branch. -/
def describeCondition (condition : Pipeline) (negated : Bool) : String :=
  if negated then "not (" ++ condition.describe ++ ")" else condition.describe

/-- What an arm stands for. -/
def ArmLabel.describe : ArmLabel → String
  | values ps => "when " ++ describeAll ps
  | default => "default"

/-- Lines moved into a body. -/
def indented (lines : List String) : List String := lines.map ("  " ++ ·)

/-- A header and the lines of its body between braces. -/
def enclosed (header : String) (body : List String) : List String :=
  (header ++ " \x7b") :: (indented body ++ ["\x7d"])

mutual

/-- The lines of an instruction. -/
def Instruction.lines : Instruction → List String
  | .position pos => ["@ " ++ pos.describe]
  | .text s => ["text " ++ Text.quote s]
  | .emit p => ["emit " ++ p.describe]
  | .assign name op p declares =>
    [assignWord declares ++ " " ++ name ++ " " ++ op.sign ++ " " ++ p.describe]
  | .capture name text declares => [assignWord declares ++ " " ++ name ++ " = " ++ Text.quote text]
  | .choose branches otherwise =>
    linesOfBranches "if" branches ++ linesOfOtherwise otherwise
  | .switch subject arms => enclosed ("switch " ++ subject.describe) (linesOfArms arms)
  | .loop binding iterable offset limit body =>
    let header := "for " ++ binding.describe ++ " in " ++ iterable.describe
    enclosed (header ++ boundClause "offset" offset ++ boundClause "limit" limit) (linesOfBody body)
  | .break => ["break"]
  | .continue => ["continue"]
  | .callMixin name args => ["call " ++ name ++ "(" ++ describeAll args ++ ")"]
  | .callBlock name => ["block " ++ name]
  | .script text => ["script " ++ Text.quote text]
termination_by structural i => i

/-- The lines of a body. -/
def linesOfBody : List Instruction → List String
  | [] => []
  | i :: is => i.lines ++ linesOfBody is
termination_by structural is => is

/-- The lines of branches, the first of which starts with `word`. -/
def linesOfBranches (word : String) : List Branch → List String
  | [] => []
  | b :: bs => Branch.lines word b ++ linesOfBranches "else if" bs
termination_by structural bs => bs

/-- The lines of a branch. -/
def Branch.lines (word : String) : Branch → List String
  | .mk condition negated body =>
    enclosed (word ++ " " ++ describeCondition condition negated) (linesOfBody body)
termination_by structural b => b

/-- The lines of a last resort. -/
def linesOfOtherwise : Option (List Instruction) → List String
  | none => []
  | some body => enclosed "else" (linesOfBody body)
termination_by structural body => body

/-- The lines of arms. -/
def linesOfArms : List Arm → List String
  | [] => []
  | a :: as => Arm.lines a ++ linesOfArms as
termination_by structural as => as

/-- The lines of an arm. -/
def Arm.lines : Arm → List String
  | .mk label body => enclosed label.describe (linesOfBody body)
termination_by structural a => a

end

namespace Program

/-- The lines of a program: its main body, mixins, blocks and bundled filters. -/
def lines (program : Program) : List String :=
  linesOfBody program.body ++
    program.mixins.entries.flatMap (fun (name, mixin) =>
      enclosed ("mixin " ++ name ++ "(" ++ Text.join ", " mixin.params ++ ")")
        (linesOfBody mixin.body)) ++
    program.blocks.entries.flatMap (fun (name, body) =>
      enclosed ("define block " ++ name) (linesOfBody body)) ++
    match program.bundled with
    | some filters => ["runtime filters(" ++ Text.join ", " filters ++ ")"]
    | none => []

/-- The listing of a program, every line ended. -/
def listing (program : Program) : String := String.join (program.lines.map (· ++ "\n"))

end Program

end Stencil
