import Stencil.Generation.Branches

/-!
# Loops

A loop binds names in each of its iterations, over a pipeline or a range. The clauses `offset` and
`limit` of its filter chain bound the iterations and are no filters.
-/

namespace Stencil.Handler

/-- Whether a clause bounds the iterations. -/
def isLoopBound (call : FilterCall) : Bool :=
  ["offset", "limit"].any fun word =>
    call.name == word ||
      match Text.after? word.toList call.name.toList with
      | some (c :: _) => Text.isBlank c
      | _ => false

/-- The bound that a clause of a loop gives. -/
def loopBound (env : DraftEnv) (tag : Tag) (word : String) : Except Error (Option Int) :=
  match tag.filterArg? word with
  | none => .ok none
  | some text =>
    match decimalInteger? text with
    | some n => .ok (some n)
    | none =>
      refuse env tag (.invalidFor ("`" ++ word ++ "` must be an integer, found `" ++ text ++ "`"))

/-- The names that a loop binds. -/
def loopBinding (env : DraftEnv) (tag : Tag) (text : String) : Except Error LoopBinding :=
  match LoopBinding.ofText text with
  | .ok binding => .ok binding
  | .error (.badName name) => refuse env tag (.invalidIdentifier name)
  | .error .badShape => refuse env tag (.invalidFor "invalid identifiers in for loop")

/-- What a loop runs over: a range when the text writes one and no filter follows. -/
def loopIterable (env : DraftEnv) (d : Draft) (text : String) (calls : List FilterCall) :
    Iterable × Draft :=
  match (if calls.isEmpty then rangeBounds? text else none) with
  | some (first, second) =>
    let (start, d) := d.pipeline env first []
    let (stop, d) := d.pipeline env second []
    (.range start stop, d)
  | none =>
    let (p, d) := d.pipeline env text calls
    (.pipeline p, d)

/-- Open a loop. -/
def openLoop : TagHandler := fun env tag d => do
  let _ ← env.findTag d "endfor"
  match LoopHead.ofHead? tag.head with
  | none => refuse env tag (.invalidFor ("expected `in` or `of` in `" ++ tag.head ++ "`"))
  | some head =>
    if head.iterable.isEmpty then refuse env tag (.invalidFor "missing iterable")
    let binding ← loopBinding env tag head.binding
    let offset ← loopBound env tag "offset"
    let limit ← loopBound env tag "limit"
    let calls := tag.filters.filter (!isLoopBound ·)
    let (iterable, d) := loopIterable env d head.iterable calls
    let d := d.openBlock (.loop binding iterable offset limit)
    return (d.withScope fun s => s.create.addAll binding.names).advance

/-- Close a loop. -/
def closeLoop : TagHandler := fun env tag d => do
  let (block, d) ← close env tag d
  match block.kind with
  | .loop binding iterable offset limit =>
    let instruction := Instruction.loop binding iterable offset limit block.body
    return ((d.withScope Scope.destroy).emit instruction).advance
  | kind => misplaced env d (.closesOther tag.source kind.describe)

/-- Whether an open block is a loop. -/
def isLoop : OpenKind → Bool
  | .loop .. => true
  | _ => false

/-- Whether an open block is a loop or a case. -/
def isBreakable : OpenKind → Bool
  | .loop .. => true
  | .case .. => true
  | _ => false

/-- `break` leaves a loop or a case. -/
def breakOut : TagHandler := fun env tag d => do
  if !d.inside isBreakable then misuse env tag "only allowed inside `for` or `case`"
  return (d.emit .break).advance

/-- `continue` goes on with the next iteration. -/
def goOn : TagHandler := fun env tag d => do
  if !d.inside isLoop then misuse env tag "only allowed inside `for`"
  return (d.emit .continue).advance

end Stencil.Handler
