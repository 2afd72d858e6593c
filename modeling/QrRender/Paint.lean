import QrRender.Color

/-!
# Paint

What a path is filled or stroked with: one colour, or the gradient of the surface it is drawn on.
A gradient paint carries a colour to fall back on where the surface has no gradient.
-/

namespace QrRender

/-- One colour, or the gradient of the surface. -/
inductive Paint where
  | solid (color : Rgba)
  | gradient (fallback : Rgba)
  deriving DecidableEq

namespace Paint

/-- The colour on a surface without a gradient. -/
def flat : Paint → Rgba
  | solid c => c
  | gradient c => c

/-- Nothing is painted: one colour, and a clear one. -/
def isInvisible : Paint → Bool
  | solid c => c.isClear
  | gradient _ => false

end Paint

end QrRender
