import QrRender.Command
import QrRender.Numeric

/-!
# Path data

The geometry of a vector path is a list of instructions: move, line, quadratic curve, circular arc,
close. Path steps turn into instructions one by one. A circle becomes two arcs between its ends on
the right and on the left, a rectangle its four sides, and the end of a sub-path becomes nothing:
the data simply goes on.
-/

namespace QrRender.Svg

/-- An instruction of path data. -/
inductive Instruction (α : Type) where
  | moveTo (x y : α)
  | lineTo (x y : α)
  | quadTo (cx cy x y : α)
  /-- The large arc of radius `r` in the direction of growing angles. -/
  | arcTo (r x y : α)
  | close
  deriving DecidableEq

namespace Instruction

variable {α : Type} [Add α] [Sub α]

/-- The instructions for a path step. -/
def ofStep : PathStep α → List (Instruction α)
  | .moveTo x y => [moveTo x y]
  | .lineTo x y => [lineTo x y]
  | .quadTo cx cy x y => [quadTo cx cy x y]
  | .close => [close]
  | .circle cx cy r => [moveTo (cx + r) cy, arcTo r (cx - r) cy, arcTo r (cx + r) cy, close]
  | .rect x y w h =>
    [moveTo x y, lineTo (x + w) y, lineTo (x + w) (y + h), lineTo x (y + h), close]
  | .newSubPath => []

/-- The instructions for a path. -/
def ofSteps (steps : List (PathStep α)) : List (Instruction α) := steps.flatMap ofStep

/-- Coordinates behind the letter of their instruction. -/
def joined (letter : String) [Numeric α] (coordinates : List α) : String :=
  letter ++ " ".intercalate (coordinates.map Numeric.text)

/-- The text of an instruction. -/
def text [Numeric α] : Instruction α → String
  | moveTo x y => joined "M" [x, y]
  | lineTo x y => joined "L" [x, y]
  | quadTo cx cy x y => joined "Q" [cx, cy, x, y]
  | arcTo r x y => joined "A" [r, r] ++ " 0 1 1 " ++ joined "" [x, y]
  | close => "Z"

/-- The text of a list of instructions. -/
def dataText [Numeric α] (is : List (Instruction α)) : String := " ".intercalate (is.map text)

end Instruction

end QrRender.Svg
