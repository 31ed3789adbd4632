import Photoplot.Composer
import Photoplot.Machine

/-!
# Compiling Programs

A program is run for a composer, whose layers then make the picture.

## Main definitions

* `compile`: the picture of a program, and the nodes that were skipped.
-/

namespace Photoplot

/-- The picture of a program, with the diagnostics of the nodes that were skipped. -/
def compile {α : Type} [Scalar α] [Legible α] (options : Options) (nodes : List (Node α)) :
    Action Unit (Picture α × List Diagnostic) :=
  Action.inside (Machine.initial Composer.initial) do
    Machine.run Composer.receiver options nodes
    let m ← Action.get
    let picture ← Action.inside m.receiver Composer.finish
    pure (picture, m.diagnostics)

end Photoplot
