import QrRender.Fault
import QrRender.Color
import QrRender.Gradient.Line

/-!
# Linear gradients

A gradient is an angle and a list of colour stops. However the stops are given, they are kept with
positions between zero and one, a position that is no number counting as zero, and in the total
order of their positions, those of one position in the order in which they were given.

Up to the first stop a gradient has the colour of that stop, and from the last stop on the colour
of the last. In between, `colorAt` looks for the last stop at or before the position and the next
one, and moves each channel from the one to the other in proportion. A gradient without stops is
clear. A position that is no number is bracketed by no stops, and reading it is a fault.
-/

namespace QrRender

/-- A colour at a position. -/
structure ColorStop (α : Type) where
  position : α
  color : Rgba

/-- Colour stops along a direction. The angle is in degrees; zero points right, and angles grow
    counter-clockwise. -/
structure Gradient (α : Type) where
  angle : α
  stops : List (ColorStop α)

section Interpolation

variable {α : Type} [Add α] [Sub α] [Mul α] [Div α] [NatCast α] [LT α] [DecidableLT α]
  [LE α] [DecidableLE α]

/-- The byte nearest `v`, a midpoint going up and values outside the range going to its ends. It
    is built from the highest bit down: a bit stays if the byte with it, less a half, is not above
    `v`. -/
def nearestByte (v : α) : UInt8 :=
  UInt8.ofNat ([128, 64, 32, 16, 8, 4, 2, 1].foldl (fun (b bit : Nat) =>
    if ((b + bit : Nat) : α) - ((1 : Nat) : α) / ((2 : Nat) : α) ≤ v then b + bit else b) 0)

/-- The channel at a share of the way from `a` to `b`. -/
def mixChannel (share : α) (a b : UInt8) : UInt8 :=
  let ca : α := (a.toNat : Nat)
  let cb : α := (b.toNat : Nat)
  nearestByte (ca + (cb - ca) * share)

/-- The colour at a share of the way from `a` to `b`. -/
def mixColor (share : α) (a b : Rgba) : Rgba :=
  ⟨mixChannel share a.red b.red, mixChannel share a.green b.green, mixChannel share a.blue b.blue,
    mixChannel share a.alpha b.alpha⟩

/-- A position brought into the range from zero to one; what is no number becomes zero. -/
def unitPosition (t : α) : α :=
  let zero : α := (0 : Nat)
  let one : α := (1 : Nat)
  if t < zero then zero else if one < t then one else if t ≤ one then t else zero

end Interpolation

namespace Gradient

variable {α : Type} [Add α] [Sub α] [Mul α] [Div α] [NatCast α] [LT α] [DecidableLT α]
  [LE α] [DecidableLE α] [Numeric α]

/-- The stop with its position in range. -/
def unitStop (s : ColorStop α) : ColorStop α := { s with position := unitPosition s.position }

/-- The gradient of these stops, which may come in any order and with any positions. -/
def ofStops (angle : α) (stops : List (ColorStop α)) : Gradient α where
  angle := angle
  stops := (stops.map unitStop).mergeSort fun a b => Numeric.totalLe a.position b.position

/-- There are no stops. -/
def isEmpty (g : Gradient α) : Bool := g.stops.isEmpty

/-- The line along which the gradient runs across a rectangle of `w` by `h`. -/
def line (g : Gradient α) (w h : α) : GradientLine α :=
  GradientLine.project (Numeric.direction g.angle) w h

/-- The colour between two stops. -/
def between (a b : ColorStop α) (t : α) : Rgba :=
  let gap := b.position - a.position
  let share : α := if ((0 : Nat) : α) < gap then (t - a.position) / gap else (1 : Nat)
  mixColor share a.color b.color

/-- The colour at position `t`. -/
def colorAt (g : Gradient α) (t : α) : Except Fault Rgba :=
  match g.stops.head?, g.stops.getLast? with
  | some first, some last =>
    if t ≤ first.position then .ok first.color
    else if last.position ≤ t then .ok last.color
    else
      let reached := fun s : ColorStop α => decide (s.position ≤ t)
      match (g.stops.takeWhile reached).getLast?, (g.stops.dropWhile reached).head? with
      | some a, some b => .ok (between a b t)
      | _, _ => .error .noBracket
  | _, _ => .ok Rgba.transparent

end Gradient

end QrRender
