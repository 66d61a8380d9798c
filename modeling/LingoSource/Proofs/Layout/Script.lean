import LingoSource.Proofs.JavaScript.Layout
import LingoSource.Proofs.Lingo.Layout

/-!
The width of a level of indentation changes nothing else. In both languages a script is one list of
lines with levels, and a statement takes its levels from the blocks around it. A block that stands in an
expression has no lines of its own: it is part of the text of one.
-/
set_option autoImplicit false

namespace LingoSource

end LingoSource
