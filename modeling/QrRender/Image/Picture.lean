import QrRender.Image

/-!
# Pictures

A picture is an image as it comes from outside: grey or coloured, with or without an alpha
channel. Its samples stand row by row, and within a pixel channel by channel. `toImage` reads it as
colours: grey fills the three channels alike, and a missing alpha is opaque.
-/

namespace QrRender

/-- The channels of a pixel. -/
inductive PixelKind where
  | gray
  | grayAlpha
  | rgb
  | rgba
  deriving DecidableEq

/-- The number of channels. -/
def PixelKind.channels : PixelKind → Nat
  | .gray => 1
  | .grayAlpha => 2
  | .rgb => 3
  | .rgba => 4

/-- Samples of one kind of pixel, row by row. -/
structure Picture where
  kind : PixelKind
  width : Nat
  height : Nat
  samples : Array UInt8
  size_samples : samples.size = width * height * kind.channels

namespace Picture

/-- The picture whose sample in channel `k` at column `x`, row `y` is `f x y k`. -/
def ofFn (kind : PixelKind) (w h : Nat) (f : Nat → Nat → Nat → UInt8) : Picture where
  kind := kind
  width := w
  height := h
  samples := Array.ofFn fun i : Fin (w * h * kind.channels) =>
    let p := i.val / kind.channels
    f (p % w) (p / w) (i.val % kind.channels)
  size_samples := Array.size_ofFn

/-- The picture with these samples, if their number is right. -/
def ofSamples? (kind : PixelKind) (w h : Nat) (samples : Array UInt8) : Option Picture :=
  if hs : samples.size = w * h * kind.channels then
    some { kind := kind, width := w, height := h, samples := samples, size_samples := hs }
  else none

/-- The sample in channel `k` at column `x`, row `y`; zero past the end. -/
def sample (p : Picture) (x y k : Nat) : UInt8 :=
  p.samples.getD ((y * p.width + x) * p.kind.channels + k) 0

/-- A picture depends on the samples inside only. -/
theorem ofFn_congr {kind : PixelKind} {w h : Nat} {f g : Nat → Nat → Nat → UInt8}
    (hfg : ∀ x y k, x < w → y < h → k < kind.channels → f x y k = g x y k) :
    ofFn kind w h f = ofFn kind w h g := by
  have hentry : ∀ i : Fin (w * h * kind.channels),
      f (i.val / kind.channels % w) (i.val / kind.channels / w) (i.val % kind.channels) =
        g (i.val / kind.channels % w) (i.val / kind.channels / w) (i.val % kind.channels) := by
    intro i
    have hi : i.val < kind.channels * (w * h) := Nat.mul_comm (w * h) _ ▸ i.isLt
    obtain ⟨hk, hp⟩ := RowMajor.mod_lt_div_lt hi
    obtain ⟨hx, hy⟩ := RowMajor.mod_lt_div_lt hp
    exact hfg _ _ _ hx hy hk
  simp only [ofFn, hentry]

theorem sample_ofFn {kind : PixelKind} {w h : Nat} (f : Nat → Nat → Nat → UInt8) {x y k : Nat}
    (hx : x < w) (hy : y < h) (hk : k < kind.channels) :
    (ofFn kind w h f).sample x y k = f x y k := by
  have hi : (y * w + x) * kind.channels + k < w * h * kind.channels := by
    rw [Nat.mul_comm (w * h)]
    exact RowMajor.place_lt hk (RowMajor.place_lt hx hy)
  simp only [sample, ofFn, Array.getD_eq_getD_getElem?, Array.getElem?_ofFn, dif_pos hi,
    Option.getD_some, RowMajor.place_mod hk, RowMajor.place_div hk, RowMajor.place_mod hx,
    RowMajor.place_div hx]

/-- The colour at column `x`, row `y`. -/
def color (p : Picture) (x y : Nat) : Rgba :=
  match p.kind with
  | .gray => Rgba.ofGray (p.sample x y 0)
  | .grayAlpha => { Rgba.ofGray (p.sample x y 0) with alpha := p.sample x y 1 }
  | .rgb => ⟨p.sample x y 0, p.sample x y 1, p.sample x y 2, 255⟩
  | .rgba => ⟨p.sample x y 0, p.sample x y 1, p.sample x y 2, p.sample x y 3⟩

theorem color_of_gray {p : Picture} (h : p.kind = .gray) (x y : Nat) :
    p.color x y = Rgba.ofGray (p.sample x y 0) := by
  unfold color
  rw [h]

/-- The picture as colours. -/
def toImage (p : Picture) : Image := Image.ofFn p.width p.height p.color

/-- The channel `k` of a colour. -/
def channel (c : Rgba) : Nat → UInt8
  | 0 => c.red
  | 1 => c.green
  | 2 => c.blue
  | _ => c.alpha

/-- The image as a picture with all four channels. -/
def ofImage (img : Image) : Picture :=
  ofFn .rgba img.width img.height fun x y k => channel ((img.pixel? x y).getD default) k

end Picture

end QrRender
