import QrRender.Extent
import QrRender.Numeric

/-!
# The line of a gradient

A linear gradient runs along a line. The line has the direction of the gradient, goes through the
middle of a rectangle that has a corner at the origin, and is just long enough for the rectangle:
its ends are the least and the greatest of the four corners when they are projected onto the
direction. The position of a point is its projection onto the line, zero at the first end and one
at the second.

Everything is written for any type of numbers, given the direction as a pair.
-/

namespace QrRender

/-- The two ends of the line along which a gradient runs. -/
structure GradientLine (α : Type) where
  x1 : α
  y1 : α
  x2 : α
  y2 : α

namespace GradientLine

variable {α : Type} [Add α] [Sub α] [Mul α] [Div α] [NatCast α] [LT α] [DecidableLT α]
  [LE α] [DecidableLE α]

/-- The corners of a rectangle of `w` by `h` at the origin. -/
def corners (w h : α) : List (α × α) :=
  let zero : α := (0 : Nat)
  [(zero, zero), (zero, h), (w, zero), (w, h)]

/-- The projection of a point onto a direction. -/
def along (direction point : α × α) : α := point.1 * direction.1 + point.2 * direction.2

/-- Half the extent of the rectangle along a direction. -/
def halfExtent (direction : α × α) (w h : α) : α :=
  let projections := (corners w h).map (along direction)
  let (least, greatest) := extent (along direction ((0 : Nat), (0 : Nat))) projections
  (greatest - least) / (2 : Nat)

/-- The line through the middle of a rectangle of `w` by `h`, as long as its extent along
    `direction`. -/
def project (direction : α × α) (w h : α) : GradientLine α :=
  let half := halfExtent direction w h
  let cx := w / (2 : Nat)
  let cy := h / (2 : Nat)
  { x1 := cx - half * direction.1
    y1 := cy - half * direction.2
    x2 := cx + half * direction.1
    y2 := cy + half * direction.2 }

/-- The position of a point along the line; zero for a line of no length. -/
def position (l : GradientLine α) (x y : α) : α :=
  let vx := l.x2 - l.x1
  let vy := l.y2 - l.y1
  let lengthSquared := vx * vx + vy * vy
  let zero : α := (0 : Nat)
  if lengthSquared ≤ zero ∧ zero ≤ lengthSquared then zero
  else ((x - l.x1) * vx + (y - l.y1) * vy) / lengthSquared

end GradientLine

end QrRender
