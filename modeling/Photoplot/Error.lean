import Photoplot.Coordinate
import Photoplot.Expression
import Photoplot.Identifier

/-!
# Errors and Warnings

An **error** ends the command that meets it. Whether it also ends the run depends on the error
mode, except for the fatal errors, which always do. A **warning** is a remark about something
that was passed over; the run goes on.

## Main definitions

* `Error`, `Error.message`, `Error.isFatal`.
* `Warning`, `Warning.message`.
-/

namespace Photoplot

/-- Why a command cannot be carried out. -/
inductive Error where
  | coordinate (error : CoordinateError)
  | expression (error : ExpressionError)
  /-- A coordinate comes before the format is given. -/
  | formatNotSet
  /-- The format changes after coordinates were read with another one. -/
  | formatRedefined
  | apertureNotSelected
  | apertureNotFound (id : ApertureId)
  /-- The aperture has a template without geometry. -/
  | apertureNotDrawable (id : ApertureId)
  | macroNotDefined (name : String)
  /-- A contour is continued or closed outside of a region. -/
  | contourNotOpen
  /-- A layer depends on itself. -/
  | cyclicLayer (id : LayerId)
  | layerNotFound (id : LayerId)
deriving DecidableEq, Repr

/-- The message shown for an error. -/
def Error.message : Error → String
  | coordinate error => error.message
  | expression error => error.message
  | formatNotSet => "coordinate encountered before the format specification (FS) command"
  | formatRedefined =>
    "format specification changed after coordinates were unpacked with the previous one"
  | apertureNotSelected => "operation requires an aperture but none has been selected"
  | apertureNotFound ⟨name⟩ => s!"aperture {name} is not defined"
  | apertureNotDrawable ⟨name⟩ =>
    s!"aperture {name} has no geometric interpretation and cannot be flashed"
  | macroNotDefined name => s!"aperture macro '{name}' is not defined"
  | contourNotOpen => "region contour operation outside of a region (G36/G37) context"
  | cyclicLayer ⟨name⟩ => s!"layer {name} depends on itself, directly or via nested apertures"
  | layerNotFound ⟨name⟩ => s!"layer {name} is referenced but was never built"

/-- Errors that end the run in every error mode. -/
def Error.isFatal : Error → Bool
  | cyclicLayer _ | apertureNotDrawable _ => true
  | _ => false

/-- A remark about something that was passed over. -/
inductive Warning where
  | flashInRegion
  /-- A command was skipped because of an error. -/
  | skipped (code : String) (error : Error)
  /-- Blocks have no stroke. -/
  | strokeWithBlock (id : ApertureId)
  /-- Macros have no stroke. -/
  | strokeWithMacro (id : ApertureId) (name : String)
  /-- Blocks or step-and-repeats were never ended. -/
  | unterminated (count : Nat)
  | degenerateContour
  /-- A vector line of a macro has no direction. -/
  | lineWithoutLength (name : String)
  | degenerateOutline (name : String)
  | degenerateThermal (name : String)
deriving DecidableEq, Repr

/-- The text of a warning. -/
def Warning.message : Warning → String
  | flashInRegion => "flash inside a region, ignoring"
  | skipped code error => "skipping node. node: " ++ code ++ ", error: " ++ error.message
  | strokeWithBlock ⟨id⟩ => s!"aperture block {id} cannot be used to stroke, ignoring"
  | strokeWithMacro ⟨id⟩ name =>
    s!"macro aperture {id} ({name}) cannot be used to stroke, ignoring"
  | unterminated count => s!"{count} unterminated block(s) or step-repeat(s) discarded"
  | degenerateContour => "region contour with less than 3 distinct vertices, ignoring"
  | lineWithoutLength name => s!"zero length vector line in macro '{name}', ignoring"
  | degenerateOutline name =>
    s!"outline in macro '{name}' has less than 3 distinct points, ignoring"
  | degenerateThermal name => s!"degenerate thermal in macro '{name}', ignoring"

end Photoplot
