import Stencil.Text.Separator
import Stencil.Token.Basic

/-!
# Clauses

What stands between the delimiters of an object or a tag: a head and filter clauses, separated by
bars. A filter clause is a name, and behind a colon its arguments, separated by commas. Bars, colons
and commas count only outside quotes and brackets; blanks around parts and empty arguments are
dropped.
-/

namespace Stencil

open Text

/-- The filter call written as one clause. -/
def FilterCall.ofClause (clause : List Char) : FilterCall :=
  let clause := trim clause
  match cutTop? ':' clause with
  | none => ⟨.ofList clause, []⟩
  | some (name, args) =>
    let args := ((splitTop ',' args).map trim).filter (!·.isEmpty)
    ⟨.ofList (trim name), args.map .ofList⟩

/-- Head and filter chain of a text. -/
def headAndFilters (cs : List Char) : String × List FilterCall :=
  let (head, clauses) := topPieces '|' {} cs
  (.ofList (trim head), clauses.map FilterCall.ofClause)

/-- The tag with that content between its delimiters. -/
def Tag.ofContent (content source : List Char) (pos : Pos) : Tag :=
  let content := trim content
  let (name, rest) := cutAt isBlank content
  let args := trim rest
  let (head, filters) := headAndFilters args
  ⟨.ofList name, .ofList args, head, filters, .ofList source, pos⟩

/-- The object with that content between its delimiters. -/
def Token.objectOfContent (content source : List Char) (pos : Pos) : Token :=
  let (expression, filters) := headAndFilters (trim content)
  .object expression filters (.ofList source) pos

end Stencil
