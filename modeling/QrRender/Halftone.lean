import QrRender.Image.Resize

/-!
# Halftones

A halftone is a picture reduced to black and white, three by three pixels for every module of a
symbol. The luma of a colour is a weighted sum of its premultiplied channels in fixed point, the
weights adding up to 65536; a pixel is white where its luma is strictly above a threshold.
-/

namespace QrRender.Halftone

/-- The threshold used unless another is given. -/
def defaultThreshold : Int := 60

/-- A channel premultiplied by alpha, cut down. -/
def premultiplied (v alpha : UInt8) : Nat := v.toNat * alpha.toNat / 255

/-- The weighted sum of the premultiplied channels, plus a half. -/
def lumaSum (c : Rgba) : Nat :=
  19595 * premultiplied c.red c.alpha + 38470 * premultiplied c.green c.alpha
    + 7471 * premultiplied c.blue c.alpha + 32768

/-- The luma of a colour; a clear colour is black. -/
def luma (c : Rgba) : UInt8 := UInt8.ofNat (lumaSum c / 65536)

/-- The picture as grey. -/
def grayscale (p : Picture) : Picture :=
  Picture.ofFn .gray p.width p.height fun x y _ => luma (p.color x y)

/-- The threshold that `t` asks for; one outside the range of luma counts as 128. -/
def effectiveThreshold (t : Int) : Nat :=
  if 0 ≤ t ∧ t ≤ 255 then t.toNat else 128

/-- White above the threshold and black elsewhere; with `preserve` the colours are kept. -/
def binarize (p : Picture) (threshold : Int) (preserve : Bool) : Picture :=
  if preserve then Picture.ofImage p.toImage
  else
    let gray := grayscale p
    let limit := effectiveThreshold threshold
    Picture.ofFn .gray p.width p.height fun x y _ =>
      if limit < (gray.sample x y 0).toNat then 255 else 0

/-- The picture at exactly `w` by `h`. -/
def scale (p : Picture) (w h : Nat) : Picture := p.resize .triangle w h

/-- The halftone for a symbol of `columns` by `rows` modules. -/
def prepare (p : Picture) (columns rows : Nat) (threshold : Int) : Image :=
  (binarize (scale p (3 * columns) (3 * rows)) threshold false).toImage

/-- A halftone has three by three pixels for every module. -/
theorem size_prepare (p : Picture) (columns rows : Nat) (threshold : Int) :
    (prepare p columns rows threshold).width = 3 * columns ∧
      (prepare p columns rows threshold).height = 3 * rows :=
  p.size_resize .triangle (3 * columns) (3 * rows)

end QrRender.Halftone
