import QrRender.Extent
import QrRender.Raster.SubPath
import QrRender.View

/-!
# Which pixels a path covers

A pixel is covered if its centre is inside the path. What is inside is decided row by row: the line
of centres of a row crosses the outline at some places, downwards or upwards, and a centre is
inside if the crossings to its left add up to something other than zero, or to something odd,
depending on the fill rule.

A centre that lies exactly on an upright or level edge counts as lying a little to the left of it
and above it. So an edge from `y0` down to `y1` crosses the rows whose centre is above `y0` by
nothing and at most `y1`, that is `y0 < centre ≤ y1`, and a crossing counts for the centres to its
right only. A rectangle with corners on whole numbers covers exactly the pixels it spans.

Curves are replaced by chords that lie close to them; half turns are crossed where the circle is.
-/

namespace QrRender

/-- A place where a row of centres crosses an outline: a column, and one if the outline goes down
    there or minus one if it goes up. -/
abbrev Crossing (α : Type) := α × Int

/-- The inside of an outline: where rows may cross it, and how each row does. -/
structure Coverage (α : Type) where
  rule : FillRule
  top : α
  bottom : α
  crossings : α → List (Crossing α)

section Geometry

variable {α : Type} [Add α] [Sub α] [Mul α] [Div α] [NatCast α] [LT α] [DecidableLT α]

/-- Half of one. -/
def half : α := ((1 : Nat) : α) / ((2 : Nat) : α)

/-- The distance from zero. -/
def magnitude (v : α) : α :=
  let zero : α := (0 : Nat)
  if v < zero then zero - v else v

/-- The point at the share `t` of the way along a quadratic curve. -/
def quadPoint (p control q : Point α) (t : α) : Point α :=
  let s := ((1 : Nat) : α) - t
  let a := s * s
  let b := ((2 : Nat) : α) * s * t
  let c := t * t
  ⟨a * p.x + b * control.x + c * q.x, a * p.y + b * control.y + c * q.y⟩

/-- The number of chords for a quadratic curve: more for one that bends more. -/
def quadChords [Numeric α] (p control q : Point α) : Nat :=
  let bend (a b c : α) : Nat := Numeric.floor (magnitude (a - ((2 : Nat) : α) * b + c))
  min 512 (24 + 2 * (bend p.x control.x q.x + bend p.y control.y q.y))

/-- The points between the ends of a quadratic curve that `n` chords go through. -/
def quadInner (n : Nat) (p control q : Point α) : List (Point α) :=
  (List.range (n - 1)).map fun k =>
    quadPoint p control q (((k + 1 : Nat) : α) / ((n : Nat) : α))

end Geometry

/-- A piece of an outline that a row of centres crosses in a simple way. -/
inductive Edge (α : Type) where
  | line (p q : Point α)
  /-- Half a circle over the level diameter from `p` to `q`, in clockwise direction. -/
  | arc (p q : Point α)

namespace Edge

variable {α : Type} [Add α] [Sub α] [Mul α] [Div α] [NatCast α] [LT α] [DecidableLT α]
  [LE α] [DecidableLE α] [Numeric α]

/-- The radius of an arc with these ends. -/
def radius (p q : Point α) : α := magnitude (q.x - p.x) / (2 : Nat)

/-- Where the row of centres at height `y` crosses the edge. -/
def crossings (y : α) : Edge α → List (Crossing α)
  | line p q =>
    let x := p.x + (y - p.y) * (q.x - p.x) / (q.y - p.y)
    if p.y < y ∧ y ≤ q.y then [(x, 1)]
    else if q.y < y ∧ y ≤ p.y then [(x, -1)]
    else []
  | arc p q =>
    let cx := (p.x + q.x) / (2 : Nat)
    let dy := y - p.y
    let r := radius p q
    let isBelow := decide (((0 : Nat) : α) < dy)
    let goesBelow := decide (q.x < p.x)
    if isBelow = goesBelow ∧ dy * dy ≤ r * r then
      let s := Numeric.sqrt (r * r - dy * dy)
      [(cx - s, -1), (cx + s, 1)]
    else []

/-- The heights of the ends of an edge, or of the box around an arc. -/
def heights : Edge α → List α
  | line p q => [p.y, q.y]
  | arc p q => [p.y - radius p q, p.y + radius p q]

/-- The edges of segments that go on from a point. -/
def ofSegments (p : Point α) : List (Segment α) → List (Edge α)
  | [] => []
  | s :: rest =>
    let here : List (Edge α) :=
      match s with
      | .line q => [line p q]
      | .halfTurn q => [arc p q]
      | .quad control q =>
        let points := quadInner (quadChords p control q) p control q ++ [q]
        (List.zip (p :: points) points).map fun (a, b) => line a b
    here ++ ofSegments s.target rest

/-- The edges of a sub-path. One that is open is closed by a line. -/
def ofSubPath (p : SubPath α) : List (Edge α) :=
  let last := (p.segments.getLast?.map Segment.target).getD p.start
  ofSegments p.start p.segments ++ [line last p.start]

end Edge

namespace View

variable {α : Type} [Add α] [Mul α] [Numeric α]

/-- A point of the drawing on the surface. -/
def mapPoint (v : View α) (p : Point α) : Point α :=
  let coordinate (x d : α) : α :=
    Numeric.single (Numeric.single (x * Numeric.single v.scale) + Numeric.single d)
  ⟨coordinate p.x v.dx, coordinate p.y v.dy⟩

/-- A segment of the drawing on the surface. -/
def mapSegment (v : View α) : Segment α → Segment α
  | .line p => .line (v.mapPoint p)
  | .quad c p => .quad (v.mapPoint c) (v.mapPoint p)
  | .halfTurn p => .halfTurn (v.mapPoint p)

/-- A sub-path of the drawing on the surface. -/
def mapSubPath (v : View α) (p : SubPath α) : SubPath α :=
  ⟨v.mapPoint p.start, p.segments.map v.mapSegment, p.closed⟩

end View

namespace Coverage

variable {α : Type} [Add α] [Sub α] [Mul α] [Div α] [NatCast α] [LT α] [DecidableLT α]
  [LE α] [DecidableLE α] [Numeric α]

/-- The inside of a list of edges, if there are any. -/
def ofEdges? (rule : FillRule) (edges : List (Edge α)) : Option (Coverage α) :=
  (extent? (edges.flatMap Edge.heights)).map fun (top, bottom) =>
    ⟨rule, top, bottom, fun y => edges.flatMap (Edge.crossings y)⟩

/-- The inside of a path, its sub-paths already on the surface. A path with a coordinate that is
    not finite has none. -/
def ofPath? (rule : FillRule) (path : List (SubPath α)) : Option (Coverage α) :=
  if path.all SubPath.isFinite then ofEdges? rule (path.flatMap Edge.ofSubPath) else none

/-- How often the outline winds around the centre at `x` of a row with these crossings. -/
def winding (cs : List (Crossing α)) (x : α) : Int :=
  ((cs.filter fun c => decide (c.1 < x)).map Prod.snd).foldl (· + ·) 0

/-- Whether a winding number is inside. -/
def isInside (rule : FillRule) (n : Int) : Bool :=
  match rule with
  | .nonZero => n != 0
  | .evenOdd => n % 2 != 0

/-- The numbers from the whole part of `low` to that of `high`, as far as they are below
    `limit`. -/
def window (low high : α) (limit : Nat) : List Nat :=
  let first := Numeric.floor low
  (List.range (min (Numeric.floor high + 1) limit - first)).map (first + ·)

/-- The covered columns of a row. -/
def columns (c : Coverage α) (width row : Nat) : List Nat :=
  let cs := c.crossings ((row : α) + half)
  match extent? (cs.map Prod.fst) with
  | none => []
  | some (low, high) =>
    (window low high width).filter fun i => isInside c.rule (winding cs ((i : α) + half))

/-- The covered pixels of a surface, row by row. -/
def pixels (c : Coverage α) (width height : Nat) : List (Nat × Nat) :=
  (window c.top c.bottom height).flatMap fun j => (c.columns width j).map fun i => (i, j)

end Coverage

end QrRender
