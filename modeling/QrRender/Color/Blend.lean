import QrRender.Color

/-!
# Blending

A colour is laid over another by its alpha. A clear colour changes nothing and an opaque one
replaces what is below; in between, the channels are combined in single precision and the result
is cut down to whole bytes.
-/

namespace QrRender.Rgba

/-- A channel as a share of its maximum. -/
def share (v : UInt8) : Float32 := v.toFloat32 / 255

/-- A share as a channel, cut down. -/
def ofShare (v : Float32) : UInt8 := (255 * v).toUInt8

/-- The mixture of a translucent colour over another. -/
def mix (top bottom : Rgba) : Rgba :=
  let ta := share top.alpha
  let ba := share bottom.alpha
  let alpha := (ba + ta) - ba * ta
  if alpha == 0 then bottom
  else
    let channel (t b : UInt8) : UInt8 :=
      ofShare ((share t * ta + (share b * ba) * (1 - ta)) / alpha)
    ⟨channel top.red bottom.red, channel top.green bottom.green, channel top.blue bottom.blue,
      ofShare alpha⟩

/-- `top` laid over `bottom`. -/
def laidOver (top bottom : Rgba) : Rgba :=
  if top.isClear then bottom
  else if top.isOpaque then top
  else mix top bottom

theorem laidOver_of_isClear {c : Rgba} (h : c.isClear = true) (below : Rgba) :
    c.laidOver below = below := by
  rw [laidOver, if_pos h]

theorem isClear_of_isOpaque {c : Rgba} (h : c.isOpaque = true) : c.isClear = false := by
  rw [isOpaque, beq_iff_eq] at h
  rw [isClear, h]
  rfl

theorem laidOver_of_isOpaque {c : Rgba} (h : c.isOpaque = true) (below : Rgba) :
    c.laidOver below = c := by
  rw [laidOver, if_neg (Bool.eq_false_iff.mp (isClear_of_isOpaque h)), if_pos h]

end QrRender.Rgba
