import Stencil.Evaluator
import Stencil.Filter.Builtin

/-!
# Toolboxes

What a template renders with: filters, and an evaluator for its expressions.
-/

namespace Stencil

/-- Filters and an evaluator. -/
structure Toolbox where
  filters : FilterRegistry := .builtin
  evaluator : Evaluator := .standard

namespace Toolbox

/-- The built-in filters and the expression language. -/
def default : Toolbox := {}

instance : Inhabited Toolbox := ⟨default⟩

/-- The built-in filters with some more, which win. -/
def withFilters (extra : FilterRegistry) : Toolbox := { filters := .merged .builtin extra }

end Toolbox

end Stencil
