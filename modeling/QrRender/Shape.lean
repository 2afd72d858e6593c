import QrRender.Command
import QrRender.Neighbours

/-!
# Shapes

A shape draws one cell: it turns the place and the size of a cell, its paint and its neighbour
mask into drawing commands, and knows nothing of where they will be drawn. Finder modules may be
drawn differently from the others.

The built-in shapes are a square, a circle, a liquid block whose free corners are rounded, a ring, a
dashed outline, and an assembly that takes one shape for finder modules and another for the rest.
Any other pair of functions from cells to commands is a custom shape.
-/

namespace QrRender

/-- The cell that a shape is asked to draw. -/
structure Cell (α : Type) where
  x : α
  y : α
  width : Nat
  height : Nat
  paint : Paint
  neighbours : Neighbours

/-- A way to draw cells. -/
structure CustomShape (α : Type) where
  draw : Cell α → List (Command α)
  drawFinder : Cell α → List (Command α) := draw

/-- The shape of the modules. -/
inductive Shape (α : Type) where
  | square
  | circle
  | liquid
  /-- A circle with a hole, whose radius is a share of the outer one. -/
  | ring (hole : α)
  | dashed
  /-- One shape for finder modules and one for the others. -/
  | assembled (finder block : Shape α)
  | custom (shape : CustomShape α)

namespace Shape

instance {α : Type} : Inhabited (Shape α) := ⟨.square⟩

variable {α : Type} [Add α] [Sub α] [Mul α] [Div α] [NatCast α] [LT α] [DecidableLT α]

/-- The shorter side of a cell. -/
def edge (c : Cell α) : α := (min c.width c.height : Nat)

/-- The whole cell. -/
def drawSquare (c : Cell α) : List (Command α) :=
  [.path (.rect c.x c.y (c.width : α) (c.height : α)), .paint c.paint, .commit .fill]

/-- The largest circle in the middle of the cell. -/
def drawCircle (c : Cell α) : List (Command α) :=
  [.path (.circle (c.x + (c.width : α) / (2 : Nat)) (c.y + (c.height : α) / (2 : Nat))
      (edge c / (2 : Nat))),
    .paint c.paint, .commit .fill]

/-- Neither of two neighbours is there. -/
def isFree (n a b : Neighbours) : Bool := !n.contains a && !n.contains b

/-- The radii of a liquid block at its top left, top right, bottom right and bottom left: half the
    shorter side where neither neighbour along the two edges is there, and zero otherwise. -/
def cornerRadii (c : Cell α) : α × α × α × α :=
  let r : α := edge c / (2 : Nat)
  let zero : α := (0 : Nat)
  let at_ (a b : Neighbours) : α := if isFree c.neighbours a b then r else zero
  (at_ .top .left, at_ .top .right, at_ .bottom .right, at_ .bottom .left)

/-- A curve around a corner, left out where the radius is zero. -/
def corner (radius cx cy x y : α) : List (Command α) :=
  if ((0 : Nat) : α) < radius then [.path (.quadTo cx cy x y)] else []

/-- The outline of a liquid block, clockwise from its top left. -/
def drawLiquid (c : Cell α) : List (Command α) :=
  let (tl, tr, br, bl) := cornerRadii c
  let x := c.x
  let y := c.y
  let w : α := (c.width : Nat)
  let h : α := (c.height : Nat)
  [.path (.moveTo (x + tl) y), .path (.lineTo (x + w - tr) y)]
    ++ corner tr (x + w) y (x + w) (y + tr)
    ++ [.path (.lineTo (x + w) (y + h - br))]
    ++ corner br (x + w) (y + h) (x + w - br) (y + h)
    ++ [.path (.lineTo (x + bl) (y + h))]
    ++ corner bl x (y + h) x (y + h - bl)
    ++ [.path (.lineTo x (y + tl))]
    ++ corner tl x y (x + tl) y
    ++ [.path .close, .paint c.paint, .commit .fill]

/-- A share brought into the range from zero to one. -/
def unitShare (v : α) : α :=
  if v < ((0 : Nat) : α) then (0 : Nat) else if ((1 : Nat) : α) < v then (1 : Nat) else v

/-- Two circles around one centre, filled between them. -/
def drawRing (hole : α) (c : Cell α) : List (Command α) :=
  let cx := c.x + (c.width : α) / (2 : Nat)
  let cy := c.y + (c.height : α) / (2 : Nat)
  let r : α := edge c / (2 : Nat)
  [.fillRule .evenOdd, .path (.circle cx cy r), .path .newSubPath,
    .path (.circle cx cy (r * unitShare hole)), .paint c.paint, .commit .fill]

/-- The width of a dashed outline: a tenth of the shorter side, and at least one. -/
def outlineWidth (c : Cell α) : α :=
  let tenth := edge c / (10 : Nat)
  if tenth < ((1 : Nat) : α) then (1 : Nat) else tenth

/-- A dashed outline that lies half its width inside the cell. -/
def drawDashed (c : Cell α) : List (Command α) :=
  let lw := outlineWidth c
  let inset := lw / (2 : Nat)
  let x := c.x
  let y := c.y
  let w : α := (c.width : Nat)
  let h : α := (c.height : Nat)
  [.lineWidth lw, .dash [edge c / (4 : Nat), edge c / (8 : Nat)], .cap .square,
    .path (.moveTo (x + inset) (y + inset)), .path (.lineTo (x + w - inset) (y + inset)),
    .path (.lineTo (x + w - inset) (y + h - inset)), .path (.lineTo (x + inset) (y + h - inset)),
    .path .close, .paint c.paint, .commit .stroke]

/-- The commands that draw a module which is no finder. -/
def draw : Shape α → Cell α → List (Command α)
  | .square, c => drawSquare c
  | .circle, c => drawCircle c
  | .liquid, c => drawLiquid c
  | .ring hole, c => drawRing hole c
  | .dashed, c => drawDashed c
  | .assembled _ block, c => block.draw c
  | .custom s, c => s.draw c

/-- The commands that draw a finder module. -/
def drawFinder : Shape α → Cell α → List (Command α)
  | .assembled finder _, c => finder.drawFinder c
  | .custom s, c => s.drawFinder c
  | s, c => s.draw c

/-- The name under which a shape is listed: only the square and the circle have one of their
    own. -/
def name : Shape α → String
  | .square => "Square"
  | .circle => "Circle"
  | _ => "Custom(..)"

end Shape

end QrRender
