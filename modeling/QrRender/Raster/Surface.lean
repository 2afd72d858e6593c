import QrRender.Gradient
import QrRender.Image
import QrRender.Raster.Stroke

/-!
# Drawing on pixels

A pixel surface is a view of the drawing onto an image, perhaps with a gradient that spans the
drawing area: the image without the margins of the view. A commit covers some pixels; each of them
is painted once, the colour of the paint laid over what is there. A gradient is read at the centre
of the pixel, taken back to the coordinates of the drawing.

A commit with an invisible paint, without a path, or whose path cannot be stroked changes nothing on
the image.

A drawing takes one command after the other. It holds the image and what the next commit will need,
and every commit, whatever came of it, leaves it with an empty path and the default style.
-/

namespace QrRender

/-- Where a drawing goes, and the gradient it may use. -/
structure Surface (α : Type) where
  view : View α
  gradient : Option (Gradient α)

namespace Surface

variable {α : Type} [Add α] [Sub α] [Mul α] [Div α] [NatCast α] [LT α] [DecidableLT α]
  [LE α] [DecidableLE α] [Numeric α]

/-- The inside of what a commit draws along a path, if it draws anything. -/
def coverage? (s : Surface α) (ink : Ink) (style : Style α) (path : List (SubPath α)) :
    Option (Coverage α) :=
  match ink with
  | .fill =>
    if path.all SubPath.isFinite then Coverage.ofPath? style.rule (path.map s.view.mapSubPath)
    else none
  | .stroke => Coverage.ofStroke? s.view style path

/-- The line of a gradient across the drawing area of an image of `width` by `height`. -/
def gradientLine (s : Surface α) (g : Gradient α) (width height : Nat) : GradientLine α :=
  let two : α := (2 : Nat)
  g.line (((width : α) - two * s.view.dx) / s.view.scale)
    (((height : α) - two * s.view.dy) / s.view.scale)

/-- The colour of a gradient at a pixel. -/
def gradientColor (s : Surface α) (g : Gradient α) (line : GradientLine α) (x y : Nat) :
    Except Fault Rgba :=
  let px := ((x : α) + half - s.view.dx) / s.view.scale
  let py := ((y : α) + half - s.view.dy) / s.view.scale
  g.colorAt (line.position px py)

/-- The colour that a paint puts on each pixel of an image of `width` by `height`. -/
def source (s : Surface α) (width height : Nat) : Paint → Nat → Nat → Except Fault Rgba
  | .solid c => fun _ _ => .ok c
  | .gradient fallback =>
    match s.gradient with
    | some g =>
      let line := s.gradientLine g width height
      fun x y => s.gradientColor g line x y
    | none => fun _ _ => .ok fallback

/-- Colours laid over some pixels of an image, one after the other. -/
def lay (color : Nat → Nat → Except Fault Rgba) (img : Image) (places : List (Nat × Nat)) :
    Except Fault Image :=
  places.foldlM (fun img (x, y) => do
    let c ← color x y
    return img.modify x y c.laidOver) img

/-- What is covered, painted onto an image. -/
def paint (s : Surface α) (img : Image) (paint : Paint) (coverage : Coverage α) :
    Except Fault Image :=
  if paint.isInvisible then .ok img
  else lay (s.source img.width img.height paint) img (coverage.pixels img.width img.height)

end Surface

/-- A drawing in progress on an image. -/
structure PixelDrawing (α : Type) where
  image : Image
  /-- The path since the last commit. -/
  tracing : Tracing α
  paint : Paint
  style : Style α

namespace PixelDrawing

variable {α : Type} [Add α] [Sub α] [Mul α] [Div α] [NatCast α] [LT α] [DecidableLT α]
  [LE α] [DecidableLE α] [Numeric α]

/-- Nothing has been drawn on the image yet. -/
def start (img : Image) : PixelDrawing α :=
  ⟨img, Tracing.start, .solid Rgba.black, Style.default⟩

/-- A commit. -/
def commit (s : Surface α) : PixelDrawing α → Ink → Except Fault (PixelDrawing α)
  | ⟨image, tracing, paint, style⟩, ink => do
    let image ←
      match s.coverage? ink style tracing.subPaths with
      | some coverage => s.paint image paint coverage
      | none => pure image
    return ⟨image, Tracing.start, paint, Style.default⟩

/-- One command. -/
def step (s : Surface α) (d : PixelDrawing α) : Command α → Except Fault (PixelDrawing α)
  | .path step => .ok { d with tracing := d.tracing.step step }
  | .paint paint => .ok { d with paint := paint }
  | .lineWidth w => .ok { d with style := { d.style with lineWidth := w } }
  | .dash pattern => .ok { d with style := d.style.withDash pattern }
  | .cap c => .ok { d with style := { d.style with cap := c } }
  | .fillRule r => .ok { d with style := { d.style with rule := r } }
  | .commit ink => d.commit s ink

end PixelDrawing

/-- A drawing on an image. -/
def Surface.draw {α : Type} [Add α] [Sub α] [Mul α] [Div α] [NatCast α] [LT α] [DecidableLT α]
    [LE α] [DecidableLE α] [Numeric α] (s : Surface α) (img : Image) (cs : List (Command α)) :
    Except Fault Image :=
  PixelDrawing.image <$> cs.foldlM (PixelDrawing.step s) (PixelDrawing.start img)

end QrRender
