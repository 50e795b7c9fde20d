import Stencil.Text.CaseTable
import Stencil.Text.Word

/-!
# Upper and lower case

Full case mappings: one character may become several. A capital sigma at the end of a word becomes
the final small sigma, which is the one mapping that looks at its neighbours.
-/

namespace Stencil.Text

/-- Where a code point goes under the runs, if it moves at all. -/
def CaseRun.find? (runs : List CaseRun) (point : Nat) : Option Nat :=
  (runs.find? fun run =>
      run.first ≤ point && point ≤ run.last && (point - run.first) % run.step == 0).map
    fun run => ((point : Int) + run.shift).toNat

/-- The mapping given by a table of runs and a table of expansions. -/
def mapCase (runs : List CaseRun) (expansions : List (Nat × List Nat)) (c : Char) : List Char :=
  match expansions.lookup c.toNat with
  | some points => points.map Char.ofNat
  | none =>
    match CaseRun.find? runs c.toNat with
    | some point => [Char.ofNat point]
    | none => [c]

/-- The upper case of a character. -/
def upperChar (c : Char) : List Char :=
  if c.toNat < 128 then [c.toUpper] else mapCase upperRuns upperExpansions c

/-- The lower case of a character on its own. -/
def lowerChar (c : Char) : List Char :=
  if c.toNat < 128 then [c.toLower] else mapCase lowerRuns lowerExpansions c

/-- The property Cased. -/
def isCased (c : Char) : Bool :=
  if c.toNat < 128 then isAsciiLetter c else casedRanges.has c.toNat

/-- The property Case_Ignorable. -/
def isCaseIgnorable (c : Char) : Bool :=
  if c.toNat < 128 then c == '\'' || c == '.' || c == ':' || c == '^' || c == '\x60'
  else ignorableRanges.has c.toNat

/-- Whether the nearest character that counts for case is cased. -/
def nearestIsCased (cs : List Char) : Bool :=
  match cs.dropWhile isCaseIgnorable with
  | [] => false
  | c :: _ => isCased c

/-- Lower case of a text, given the characters before it, nearest first. -/
def lowerFrom : List Char → List Char → List Char
  | _, [] => []
  | before, c :: cs =>
    let lowered :=
      if c == 'Σ' then
        if nearestIsCased before && !nearestIsCased cs then ['ς'] else ['σ']
      else lowerChar c
    lowered ++ lowerFrom (c :: before) cs

/-- The lower case of a text. -/
def lower (s : String) : String := .ofList (lowerFrom [] s.toList)

/-- The upper case of a text. -/
def upper (s : String) : String := .ofList (s.toList.flatMap upperChar)

/-- The text with its first character in upper case. -/
def capitalize (s : String) : String :=
  match s.toList with
  | [] => ""
  | c :: cs => .ofList (upperChar c ++ cs)

end Stencil.Text
