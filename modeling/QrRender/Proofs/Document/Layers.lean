import QrRender.Proofs.Document.Tiles

/-!
# What tiles show

Tiles are drawn one over the other. What a viewer sees of them at a pixel is a layer: how much light
of each channel there is, and how much of what is below it is hidden, both as shares of one. A
colour is shown at an opacity, which is its alpha unless the document says otherwise; a tile shows
its colour at the opacity that it is written with, and fully without one. How a viewer reads the
text of an opacity is left open: nothing here depends on it.

* `Layer.laidOver`, `Layer.tint`, `Layer.ofRgba`: layers over one another, and of a colour;
* `Layer.tint_one_iff`: a colour shown fully is shown as it is exactly if it is opaque;
* `Layer.white_laidOver_white`: white over white is white at every opacity;
* `Svg.shown`: what tiles show at a pixel.
-/

namespace QrRender

/-! ## 1. Layers -/

/-- Light and cover at a pixel, as shares of one. -/
@[ext] structure Layer where
  red : ℚ
  green : ℚ
  blue : ℚ
  /-- How much of what is below is hidden. -/
  cover : ℚ
  deriving DecidableEq

namespace Layer

/-- Nothing is shown. -/
def nothing : Layer := ⟨0, 0, 0, 0⟩

/-- A layer over another: what the upper one does not hide of the lower one is added to it. -/
def laidOver (top bottom : Layer) : Layer where
  red := top.red + bottom.red * (1 - top.cover)
  green := top.green + bottom.green * (1 - top.cover)
  blue := top.blue + bottom.blue * (1 - top.cover)
  cover := top.cover + bottom.cover * (1 - top.cover)

/-- The red, green and blue of a colour at an opacity. -/
def tint (c : Rgba) (opacity : ℚ) : Layer :=
  ⟨c.red.toNat / 255 * opacity, c.green.toNat / 255 * opacity, c.blue.toNat / 255 * opacity,
    opacity⟩

/-- The alpha of a colour as a share. -/
def alphaShare (c : Rgba) : ℚ := c.alpha.toNat / 255

/-- A colour as it is. -/
def ofRgba (c : Rgba) : Layer := tint c (alphaShare c)

theorem laidOver_nothing (l : Layer) : l.laidOver nothing = l := by
  ext <;> simp [laidOver, nothing]

theorem nothing_laidOver (l : Layer) : nothing.laidOver l = l := by
  ext <;> simp [laidOver, nothing]

theorem alphaShare_eq_one_iff {c : Rgba} : alphaShare c = 1 ↔ c.isOpaque = true := by
  have hcast : ((255 : Nat) : ℚ) ≠ 0 := by norm_num
  rw [Rgba.isOpaque, beq_iff_eq, ← UInt8.toNat_inj, alphaShare]
  show (c.alpha.toNat : ℚ) / ((255 : Nat) : ℚ) = 1 ↔ c.alpha.toNat = 255
  rw [div_eq_one_iff_eq hcast, Nat.cast_inj]

theorem ofRgba_solid (c : Rgba) : ofRgba c.solid = tint c 1 :=
  congrArg (tint c) (alphaShare_eq_one_iff.mpr c.isOpaque_solid)

theorem ofRgba_of_isOpaque {c : Rgba} (h : c.isOpaque = true) : ofRgba c = tint c 1 :=
  congrArg (tint c) (alphaShare_eq_one_iff.mpr h)

theorem ofRgba_of_isClear {c : Rgba} (h : c.isClear = true) : ofRgba c = nothing := by
  rw [Rgba.isClear, beq_iff_eq] at h
  have hshare : alphaShare c = 0 := by
    rw [alphaShare, h]
    exact zero_div _
  rw [ofRgba, hshare]
  simp [tint, nothing]

/-- **A colour shown fully is shown as it is exactly if it is opaque.** -/
theorem tint_one_iff {c : Rgba} : tint c 1 = ofRgba c ↔ c.isOpaque = true := by
  constructor
  · intro h
    exact alphaShare_eq_one_iff.mp (congrArg cover h).symm
  · intro h
    exact (ofRgba_of_isOpaque h).symm

/-- White over white is white at every opacity. -/
theorem white_laidOver_white {c : Rgba} (h : c.isPureWhite = true) (opacity : ℚ) :
    (tint c opacity).laidOver (ofRgba Rgba.white) = ofRgba Rgba.white := by
  have hwhite : tint c opacity = ⟨opacity, opacity, opacity, opacity⟩ := by
    simp only [Rgba.isPureWhite, Bool.and_eq_true, beq_iff_eq] at h
    obtain ⟨⟨hr, hg⟩, hb⟩ := h
    simp [tint, hr, hg, hb]
  have hone : ofRgba Rgba.white = ⟨1, 1, 1, 1⟩ := by
    rw [ofRgba_of_isOpaque rfl]
    simp [tint, Rgba.white]
  rw [hwhite, hone]
  ext <;> simp [laidOver]

end Layer

/-! ## 2. Tiles -/

namespace Svg

/-- What a tile shows, for a viewer that reads the text of an opacity as a share. -/
def Tile.layer (share : String → ℚ) (t : Tile) : Layer :=
  Layer.tint t.color (Layer.alphaShare t.color * (t.opacity.map share).getD 1)

/-- What tiles show at a pixel, drawn one over the other. -/
def shown (share : String → ℚ) (tiles : List Tile) (x y : Nat) : Layer :=
  (tiles.filter fun t => t.box.Contains x y).foldl (fun below t => (t.layer share).laidOver below)
    Layer.nothing

/-- Without an opacity a tile shows its colour as it is. -/
theorem Tile.layer_of_none (share : String → ℚ) (b : Box) (c : Rgba) :
    (Tile.mk b c none).layer share = Layer.ofRgba c :=
  congrArg (Layer.tint c) (mul_one _)

end Svg

end QrRender
