import QrRender.Box
import QrRender.Occupancy
import QrRender.Options
import QrRender.View

/-!
# Rendering a grid

A renderer is a configuration together with one grid, the logo that passed the size check, and the
halftone scaled to the grid. It lays the modules out on a canvas, a block of pixels for each module
inside the border, and decides what is drawn for each of them.

Every module has exactly one outcome. It is hidden if it is behind the logo or close to it; it is
split into nine sub-cells if it carries data and there is a halftone, eight of them in the colours
of the halftone and the one in the middle in its own; otherwise it is drawn whole if it is dark and
left out if it is light. The calls on the shape, their commands and the statistics are all read off
the list of outcomes.
-/

namespace QrRender

/-- One call on the shape: a cell in pixels of the canvas, what to draw it with, and whether it is
    to be drawn as a finder module. -/
structure ShapeCall where
  x : Nat
  y : Nat
  width : Nat
  height : Nat
  paint : Paint
  neighbours : Neighbours
  finder : Bool
  deriving DecidableEq

namespace ShapeCall

variable {α : Type} [Add α] [Sub α] [Mul α] [Div α] [NatCast α] [LT α] [DecidableLT α]

/-- The pixels of the cell of a call. -/
def box (c : ShapeCall) : Box := ⟨c.x, c.y, c.width, c.height⟩

/-- The cell of a call. -/
def cell (c : ShapeCall) : Cell α :=
  ⟨(c.x : α), (c.y : α), c.width, c.height, c.paint, c.neighbours⟩

/-- The commands by which a shape answers a call. -/
def commands (shape : Shape α) (c : ShapeCall) : List (Command α) :=
  if c.finder then shape.drawFinder c.cell else shape.draw c.cell

end ShapeCall

/-- What becomes of one module. -/
inductive Outcome where
  /-- It lies in the zone around the logo. -/
  | hidden
  /-- It is light and nothing is drawn. -/
  | blank
  /-- It is drawn as a whole. -/
  | whole (call : ShapeCall)
  /-- It is drawn as those of its sub-cells that are not left out. -/
  | split (calls : List ShapeCall)
  deriving DecidableEq

/-- The calls of an outcome. -/
def Outcome.calls : Outcome → List ShapeCall
  | hidden => []
  | blank => []
  | whole call => [call]
  | split calls => calls

/-- How many modules were drawn whole, how many sub-cells were drawn, and how many modules were
    hidden. -/
structure RenderStats where
  modules : Nat
  subCells : Nat
  occluded : Nat
  deriving DecidableEq

namespace RenderStats

/-- Nothing has been counted. -/
def zero : RenderStats := ⟨0, 0, 0⟩

/-- The statistics with one more outcome. -/
def record (s : RenderStats) : Outcome → RenderStats
  | .hidden => { s with occluded := s.occluded + 1 }
  | .blank => s
  | .whole _ => { s with modules := s.modules + 1 }
  | .split calls => { s with subCells := s.subCells + calls.length }

end RenderStats

/-- A box of pixels, from its left and top up to but not including its right and bottom. -/
structure Zone where
  left : Int
  top : Int
  right : Int
  bottom : Int
  deriving DecidableEq

/-- Whether a square of side `side` at `x`, `y` has a pixel in common with the zone. -/
def Zone.touches (z : Zone) (x y side : Int) : Bool :=
  x < z.right && z.left < x + side && y < z.bottom && z.top < y + side

/-- The pixel at column `px`, row `py` is in the zone. -/
def Zone.Contains (z : Zone) (px py : Nat) : Prop :=
  (z.left ≤ px ∧ px < z.right) ∧ (z.top ≤ py ∧ py < z.bottom)

/-- A square that does not touch the zone has no pixel in it. -/
theorem Zone.not_contains_of_not_touches {z : Zone} {x y side px py : Nat}
    (h : z.touches x y side = false) (hin : (Box.mk x y side side).Contains px py) :
    ¬ z.Contains px py := by
  intro h
  obtain ⟨⟨hleft, hright⟩, htop, hbottom⟩ := h
  obtain ⟨⟨hx, hx'⟩, hy, hy'⟩ := Box.contains_mk.mp hin
  have htouches : z.touches x y side = true := by
    simp only [touches, Bool.and_eq_true, decide_eq_true_eq]
    omega
  rw [h] at htouches
  cases htouches

/-- A configuration with the grid it is applied to. -/
structure Renderer (α : Type) where
  options : Options α
  grid : Grid
  logo : Option Image
  halftone : Option Image

namespace Renderer

variable {α : Type}

/-! ## Layout -/

/-- The width of the canvas, borders included. -/
def canvasWidth (o : Options α) (g : Grid) : Nat := g.width * o.blockWidth + o.border.horizontal

/-- The height of the canvas, borders included. -/
def canvasHeight (o : Options α) (g : Grid) : Nat := g.height * o.blockWidth + o.border.vertical

/-- The width of the canvas, borders included. -/
def width (r : Renderer α) : Nat := canvasWidth r.options r.grid

/-- The height of the canvas, borders included. -/
def height (r : Renderer α) : Nat := canvasHeight r.options r.grid

/-- The size of the output: the resolution on both sides if there is one, and the canvas
    otherwise. -/
def outputSize (r : Renderer α) : Nat × Nat :=
  match r.options.resolution with
  | some side => (side, side)
  | none => (r.width, r.height)

theorem outputSize_of_resolution {r : Renderer α} {side : Nat}
    (h : r.options.resolution = some side) : r.outputSize = (side, side) := by
  unfold outputSize
  rw [h]

/-- The corner of the block of a module. -/
def blockOrigin (r : Renderer α) (x y : Nat) : Nat × Nat :=
  (x * r.options.blockWidth + r.options.border.left,
    y * r.options.blockWidth + r.options.border.top)

/-- The block of a module. -/
def block (r : Renderer α) (x y : Nat) : Box :=
  ⟨(r.blockOrigin x y).1, (r.blockOrigin x y).2, r.options.blockWidth, r.options.blockWidth⟩

/-- The canvas without its borders. -/
def interior (r : Renderer α) : Box :=
  ⟨r.options.border.left, r.options.border.top, r.width - r.options.border.horizontal,
    r.height - r.options.border.vertical⟩

/-- The corner of the logo in the middle of the canvas. -/
def logoOrigin (r : Renderer α) : Except Fault (Option (Nat × Nat)) :=
  match r.logo with
  | none => .ok none
  | some logo => do
    let marginX ← Checked.sub r.width logo.width
    let marginY ← Checked.sub r.height logo.height
    return some (marginX / 2, marginY / 2)

/-- The zone in which modules are hidden: the box of the logo, grown by two blocks on every
    side. -/
def safeZone (r : Renderer α) : Except Fault (Option Zone) := do
  if r.options.logoSafeZone then
    match r.logo, ← r.logoOrigin with
    | some logo, some (x, y) =>
      let pad : Int := 2 * r.options.blockWidth
      return some ⟨x - pad, y - pad, x + logo.width + pad, y + logo.height + pad⟩
    | _, _ => return none
  else return none

/-- Whether the block of a module touches the zone. -/
def isHidden (r : Renderer α) (zone : Option Zone) (x y : Nat) : Bool :=
  match zone with
  | none => false
  | some z =>
    let (bx, by_) := r.blockOrigin x y
    z.touches bx by_ r.options.blockWidth

/-- The dark modules that are not hidden: hidden ones count as light, so that their neighbours
    round off towards the logo. -/
def occupancy (r : Renderer α) (zone : Option Zone) : Except Fault Occupancy :=
  r.grid.cells.foldlM (fun o c =>
    if r.isHidden zone c.column c.row then o.clear c.column c.row else pure o)
    (Occupancy.ofGrid r.grid)

/-! ## Outcomes -/

/-- The paint of a module: dark ones take part in the gradient, if there is one. -/
def paint (r : Renderer α) (m : Module) : Paint :=
  let flat := r.options.moduleColor m
  if r.options.gradient.isSome && m.dark then .gradient flat else .solid flat

/-- The edges of the three sub-cells along one side of a block. The outer ones give up width
    first, so that the middle one is never empty. -/
def subCellBounds (blockWidth : Nat) : Except Fault (List Nat) := do
  let outer := blockWidth / 3
  let second ← Checked.sub blockWidth outer
  return [0, outer, second, blockWidth]

/-- The nine places of a block, row by row. -/
def subCellPlaces : List (Nat × Nat) :=
  (List.range 3).flatMap fun j => (List.range 3).map fun i => (i, j)

/-- One of the nine places of a block with these edges, as a box in the block. -/
def subCellBox (bounds : List Nat) (place : Nat × Nat) : Except Fault Box := do
  let (i, j) := place
  let x0 ← Checked.get bounds.toArray i
  let x1 ← Checked.get bounds.toArray (i + 1)
  let y0 ← Checked.get bounds.toArray j
  let y1 ← Checked.get bounds.toArray (j + 1)
  return ⟨x0, y0, ← Checked.sub x1 x0, ← Checked.sub y1 y0⟩

/-- The paint of a sub-cell: the module's own in the middle, and the halftone's around it. -/
def subCellPaint (r : Renderer α) (halftone : Image) (c : GridCell) (place : Nat × Nat) :
    Except Fault Paint :=
  if place = (1, 1) then pure (r.paint c.content)
  else Paint.solid <$> halftone.get (3 * c.column + place.1) (3 * c.row + place.2)

/-- The call for one sub-cell of a module, unless it is background or has no pixels. -/
def subCell (r : Renderer α) (halftone : Image) (bounds : List Nat) (c : GridCell)
    (neighbours : Neighbours) (place : Nat × Nat) : Except Fault (Option ShapeCall) := do
  let paint ← r.subCellPaint halftone c place
  if r.options.elision.isBackground paint.flat then return none
  let box ← subCellBox bounds place
  if box.width = 0 ∨ box.height = 0 then return none
  let (bx, by_) := r.blockOrigin c.column c.row
  return some ⟨bx + box.x, by_ + box.y, box.width, box.height, paint, neighbours, false⟩

/-- What becomes of a module. -/
def outcome (r : Renderer α) (zone : Option Zone) (occupancy : Occupancy) (c : GridCell) :
    Except Fault Outcome := do
  if r.isHidden zone c.column c.row then return .hidden
  let neighbours := occupancy.neighbours c.column c.row
  match r.halftone, c.content.kind with
  | some halftone, .data =>
    let bounds ← subCellBounds r.options.blockWidth
    let calls ← subCellPlaces.mapM (r.subCell halftone bounds c neighbours)
    return .split (calls.filterMap id)
  | _, kind =>
    if c.content.dark then
      let (x, y) := r.blockOrigin c.column c.row
      let w := r.options.blockWidth
      return .whole ⟨x, y, w, w, r.paint c.content, neighbours, kind == .finder⟩
    else return .blank

/-- What becomes of each module, row by row. -/
def outcomes (r : Renderer α) : Except Fault (List Outcome) := do
  let zone ← r.safeZone
  let occupancy ← r.occupancy zone
  r.grid.cells.mapM (r.outcome zone occupancy)

/-- The calls on the shape, in the order in which they are made. -/
def calls (r : Renderer α) : Except Fault (List ShapeCall) :=
  (·.flatMap Outcome.calls) <$> r.outcomes

/-- The statistics of a render. -/
def stats (r : Renderer α) : Except Fault RenderStats :=
  (·.foldl RenderStats.record RenderStats.zero) <$> r.outcomes

variable [Add α] [Sub α] [Mul α] [Div α] [NatCast α] [LT α] [DecidableLT α]

/-- The commands that draw the modules. -/
def commands (r : Renderer α) : Except Fault (List (Command α)) :=
  (·.flatMap (ShapeCall.commands r.options.shape)) <$> r.calls

/-- The view in which the canvas is drawn at the size of the output. -/
def view (r : Renderer α) : View α :=
  match r.options.resolution with
  | some side => View.fit side r.width r.height
  | none => View.identity

omit [Add α] [LT α] [DecidableLT α] in
theorem view_of_resolution {r : Renderer α} {side : Nat} (h : r.options.resolution = some side) :
    r.view = View.fit side r.width r.height := by
  unfold view
  rw [h]

/-- The renderer for a grid: the logo is checked against the canvas, and the halftone is scaled to
    three pixels for each module. -/
def ofOptions [Numeric α] (o : Options α) (g : Grid) : Except Fault (Renderer α) := do
  let logo ← o.logoFor (canvasWidth o g) (canvasHeight o g) (g.width * o.blockWidth)
    (g.height * o.blockWidth)
  return {
    options := o
    grid := g
    logo := logo
    halftone := o.halftone.map fun p =>
      Halftone.prepare p g.width g.height o.halftoneThreshold }

end Renderer

end QrRender
