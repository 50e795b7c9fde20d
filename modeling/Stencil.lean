import Stencil.Config.Bindings
import Stencil.Proofs.Generation.Stacked
import Stencil.Proofs.Token.Places
import Stencil.Proofs.Generation.Filled
import Stencil.Proofs.Generation.Effect
import Stencil.Proofs.Generation.Handlers
import Stencil.Proofs.Generation.Run
import Stencil.Proofs.Generation.Blocks
import Stencil.Proofs.Expression.Path
import Stencil.Proofs.Render.Held
import Stencil.Proofs.Render.Twin
import Stencil.Proofs.Generation.Lasting
import Stencil.Proofs.Generation.Lexical
import Stencil.Proofs.Render.Locals
import Stencil.Proofs.Render.Bound
import Stencil.Proofs.Generation.Unmarked
import Stencil.Proofs.Render.Unmarked
import Stencil.Proofs.Generation.Filters
import Stencil.Proofs.Generation.Noted
import Stencil.Proofs.Render.Same
import Stencil.Proofs.Render.Bundle
import Stencil.Proofs.Generation.Sites
import Stencil.Proofs.Render.Terminates
import Stencil.Proofs.Generation.Kept
import Stencil.Proofs.Generation.Steps
import Stencil.Proofs.Render.Visits
import Stencil.Proofs.Render.Found
import Stencil.Proofs.Render.Alike
import Stencil.Proofs.Render.Checked
import Stencil.Proofs.Render.Evaluated
import Stencil.Proofs.Render.Supplied
import Stencil.Proofs.Generation.Owned
import Stencil.Proofs.Generation.Placed
import Stencil.Proofs.Generation.Aside
import Stencil.Proofs.Generation.Handled
import Stencil.Proofs.Generation.Redefined
import Stencil.Proofs.Generation.Trimmed
import Stencil.Proofs.Generation.Warned
import Stencil.Proofs.Render.Contract
import Stencil.Proofs.Render.Missing
import Stencil.Proofs.Generation.Unbound
import Stencil.Proofs.Render.Wrapped
import Stencil.Proofs.Inclusion.Cycles
import Stencil.Proofs.Inclusion.Dependencies
import Stencil.Proofs.Token.Spliced
import Stencil.Proofs.Token.Comments
import Stencil.Proofs.Token.Between
import Stencil.Proofs.Generation.Points
import Stencil.Proofs.Render.Failing
import Stencil.Proofs.Render.Reported
import Stencil.Proofs.Script
import Stencil.Proofs.Expression.Name
import Stencil.Proofs.Render.Named
import Stencil.Proofs.Generation.Attached
import Stencil.Proofs.Generation.Chained
import Stencil.Proofs.Location
import Stencil.Proofs.Render.Verbatim
import Stencil.Proofs.Render.Listing
import Stencil.Proofs.Render.Paths
import Stencil.Proofs.Render.Neutral
import Stencil.Proofs.Generation.Jumps
import Stencil.Proofs.Render.Loops
import Stencil.Proofs.Render.Cases
import Stencil.Proofs.Token.Clause
import Stencil.Proofs.Token.Limit
import Stencil.Proofs.Text.Markup
import Stencil.Proofs.Text.Search
import Stencil.Proofs.Source.Excerpt
import Stencil.Proofs.Generation.Matching
import Stencil.Proofs.Render.Plain
import Stencil.Proofs.Generation.Layered
import Stencil.Proofs.Generation.Alternating
