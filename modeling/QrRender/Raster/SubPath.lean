import QrRender.Command
import QrRender.Numeric

/-!
# Paths on a pixel surface

Path steps are collected into sub-paths. A sub-path has a start, segments that each go on from the
end of the one before, and may be closed.

A line or a curve continues the current sub-path only if there is a current point. There is one
after a move, a line, a curve or a close; the end of a sub-path, a circle and a rectangle take it
away, and the next line or curve then starts a new sub-path where it would have had its first
point. After a close, the next segment starts at the first point of the sub-path just closed. Of
two moves in a row the second counts.

Coordinates are kept in the precision of the surface. A circle is kept as two half turns between
its ends on the right and on the left. Circles and rectangles whose box is not finite, or has a
negative side, add nothing.
-/

namespace QrRender

/-- A point of a drawing or of a surface. -/
structure Point (α : Type) where
  x : α
  y : α
  deriving DecidableEq

/-- A piece of an outline, from the end of the one before. -/
inductive Segment (α : Type) where
  | line (target : Point α)
  | quad (control target : Point α)
  /-- Half a circle around the middle of a level diameter, on the screen in clockwise direction. -/
  | halfTurn (target : Point α)
  deriving DecidableEq

/-- A connected outline. -/
structure SubPath (α : Type) where
  start : Point α
  segments : List (Segment α)
  closed : Bool
  deriving DecidableEq

/-- The points that a segment is given by. -/
def Segment.points {α : Type} : Segment α → List (Point α)
  | line p => [p]
  | quad c p => [c, p]
  | halfTurn p => [p]

/-- The last point of a segment. -/
def Segment.target {α : Type} : Segment α → Point α
  | line p => p
  | quad _ p => p
  | halfTurn p => p

/-- The points that a sub-path is given by. -/
def SubPath.points {α : Type} (p : SubPath α) : List (Point α) :=
  p.start :: p.segments.flatMap Segment.points

/-- The collection of path steps into sub-paths. -/
structure Tracing (α : Type) where
  /-- The sub-paths that are complete. -/
  finished : List (SubPath α)
  /-- The sub-path that may go on. -/
  current : Option (SubPath α)
  /-- Where a segment after a close starts. -/
  resume : Point α
  /-- There is a current point. -/
  hasPoint : Bool

namespace Tracing

variable {α : Type} [Add α] [Sub α] [Div α] [NatCast α] [LE α] [DecidableLE α] [Numeric α]

/-- No steps yet. -/
def start : Tracing α := ⟨[], none, ⟨(0 : Nat), (0 : Nat)⟩, false⟩

/-- A point in the precision of the surface. -/
def stored (x y : α) : Point α := ⟨Numeric.single x, Numeric.single y⟩

/-- The sub-paths so far, without one that consists of a move alone. -/
def settled (t : Tracing α) : List (SubPath α) :=
  match t.current with
  | some p => if p.segments.isEmpty then t.finished else t.finished ++ [p]
  | none => t.finished

/-- A new sub-path at a point. -/
def move (t : Tracing α) (p : Point α) : Tracing α :=
  { finished := t.settled, current := some ⟨p, [], false⟩, resume := p, hasPoint := true }

/-- One more segment. -/
def extend (t : Tracing α) (s : Segment α) : Tracing α :=
  match t.current with
  | some p => { t with current := some { p with segments := p.segments ++ [s] } }
  | none => { t with current := some ⟨t.resume, [s], false⟩ }

/-- The current sub-path closed, if there is one. -/
def close (t : Tracing α) : Tracing α :=
  match t.current with
  | some p =>
    { t with finished := t.finished ++ [{ p with closed := true }], current := none
             resume := p.start }
  | none => t

/-- A closed sub-path of its own, after which there is no current point. -/
def insert (t : Tracing α) (p : SubPath α) : Tracing α :=
  { finished := t.settled ++ [p], current := none, resume := p.start, hasPoint := false }

/-- A box by its left, top, right and bottom, in the precision of the surface, if it is finite and
    none of its sides is negative. -/
def box? (x y w h : α) : Option (α × α × α × α) :=
  let left := Numeric.single x
  let top := Numeric.single y
  let right := Numeric.single (Numeric.single w + left)
  let bottom := Numeric.single (Numeric.single h + top)
  if [left, top, right, bottom].all Numeric.isFinite ∧ left ≤ right ∧ top ≤ bottom then
    some (left, top, right, bottom)
  else none

/-- The outline of a rectangle, clockwise from its top left. -/
def rectangle? (x y w h : α) : Option (SubPath α) :=
  (box? x y w h).map fun (left, top, right, bottom) =>
    ⟨⟨left, top⟩, [.line ⟨right, top⟩, .line ⟨right, bottom⟩, .line ⟨left, bottom⟩], true⟩

/-- The outline of a circle, clockwise from its right. -/
def circle? (cx cy r : α) : Option (SubPath α) :=
  let cx := Numeric.single cx
  let cy := Numeric.single cy
  let r := Numeric.single r
  let side := Numeric.single (r + r)
  (box? (cx - r) (cy - r) side side).map fun (left, top, right, bottom) =>
    let middle := Numeric.single (top / (2 : Nat) + bottom / (2 : Nat))
    ⟨⟨right, middle⟩, [.halfTurn ⟨left, middle⟩, .halfTurn ⟨right, middle⟩], true⟩

/-- One more step. -/
def step (t : Tracing α) : PathStep α → Tracing α
  | .moveTo x y => t.move (stored x y)
  | .lineTo x y => if t.hasPoint then t.extend (.line (stored x y)) else t.move (stored x y)
  | .quadTo cx cy x y =>
    if t.hasPoint then t.extend (.quad (stored cx cy) (stored x y))
    else (t.move (stored cx cy)).extend (.line (stored x y))
  | .close => t.close
  | .circle cx cy r =>
    match circle? cx cy r with
    | some p => t.insert p
    | none => { t with hasPoint := false }
  | .rect x y w h =>
    match rectangle? x y w h with
    | some p => t.insert p
    | none => { t with hasPoint := false }
  | .newSubPath => { t with hasPoint := false }

/-- The sub-paths collected. -/
def subPaths (t : Tracing α) : List (SubPath α) := t.finished ++ t.current.toList

end Tracing

namespace SubPath

variable {α : Type} [Add α] [Sub α] [Div α] [NatCast α] [LE α] [DecidableLE α] [Numeric α]

/-- The sub-paths of a list of path steps. -/
def ofSteps (steps : List (PathStep α)) : List (SubPath α) :=
  (steps.foldl Tracing.step Tracing.start).subPaths

/-- All coordinates are finite. -/
def isFinite (p : SubPath α) : Bool :=
  p.points.all fun q => Numeric.isFinite q.x && Numeric.isFinite q.y

end SubPath

end QrRender
