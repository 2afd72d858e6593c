import QrRender.Raster.Surface
import QrRender.Renderer

/-!
# Output as pixels

The modules of a grid are drawn onto an image of the background, at the size of the output or at
the size of the canvas. The finished image has the logo laid over its middle, scaled as the canvas
is.
-/

namespace QrRender.Renderer

variable {α : Type} [Add α] [Sub α] [Mul α] [Div α] [NatCast α] [LT α] [DecidableLT α]
  [LE α] [DecidableLE α] [Numeric α]

/-- The background and the modules on an image of `w` by `h`, seen through a view. -/
def rasterizeIn (r : Renderer α) (w h : Nat) (view : View α) : Except Fault Image := do
  let commands ← r.commands
  Surface.draw ⟨view, r.options.gradient⟩ (Image.filled w h r.options.background) commands

/-- The background and the modules at the size of the output. -/
def rasterize (r : Renderer α) : Except Fault Image :=
  r.rasterizeIn r.outputSize.1 r.outputSize.2 r.view

/-- The background and the modules with one pixel for each unit of the canvas. -/
def rasterizeUnscaled (r : Renderer α) : Except Fault Image :=
  r.rasterizeIn r.width r.height View.identity

/-- The logo and its corner on the image, seen through a view: its size and its place are rounded
    to whole pixels, and no side becomes zero. -/
def placedLogo (view : View α) (logo : Image) (x y : Nat) : Image × Int × Int :=
  let one : α := (1 : Nat)
  let px := Numeric.round (view.dx + (x : α) * view.scale)
  let py := Numeric.round (view.dy + (y : α) * view.scale)
  if view.scale ≤ one ∧ one ≤ view.scale then (logo, px, py)
  else
    let w := max (Numeric.nearest ((logo.width : α) * view.scale)) 1
    let h := max (Numeric.nearest ((logo.height : α) * view.scale)) 1
    (logo.resize .catmullRom w h, px, py)

/-- The finished image. -/
def image (r : Renderer α) : Except Fault Image := do
  let img ← r.rasterize
  match r.logo, ← r.logoOrigin with
  | some logo, some (x, y) =>
    let (logo, px, py) := placedLogo r.view logo x y
    return img.overlay logo px py
  | _, _ => return img

end QrRender.Renderer
