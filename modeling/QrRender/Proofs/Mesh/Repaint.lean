import QrRender.Proofs.Image.Places
import QrRender.Proofs.Mesh.Colors

/-!
# Rectangles put back on an image

The rectangles of an image, put onto a base of the same size, give the image back as far as it has
a foreground. The order does not matter, because no two of them have a pixel in common. What comes
out has the foreground of the image, and if the base had none, then nothing but that; and the
rectangles found in an image depend on its foreground only.

* `FillsRects`, `fillsRects`: what it means for rectangles to be filled, and that they are;
* `paintRect_changed`: one rectangle replaces the colours of its pixels, its numbers read with a
  sign;
* `paintRects_pixel`: of several rectangles over a pixel the last one counts;
* `decompose_congr`: images with one foreground have the same rectangles, in the same order;
* **`decompose_repaint`**: the rectangles of an image in any order, put onto a base, give the
  foreground of the image on the background of the base, and on a clear base an image with the
  same rectangles.
-/

namespace QrRender

namespace ColorRect

/-- Whether the pixel at column `px`, row `py` is covered where the rectangle is put onto an image,
    its numbers read with a sign. -/
def covers (r : ColorRect) (px py : Nat) : Bool :=
  (Mesh.signed32 r.x ≤ px && (px : Int) < Mesh.signed32 r.x + Mesh.signed32 r.width) &&
    (Mesh.signed32 r.y ≤ py && (py : Int) < Mesh.signed32 r.y + Mesh.signed32 r.height)

end ColorRect

namespace Mesh

/-! ## 1. One rectangle -/

theorem signed32_of_lt {n : Nat} (h : n < 2147483648) : signed32 n = n := by
  have hmod : n % 4294967296 = n := Nat.mod_eq_of_lt (by omega)
  simp only [signed32, hmod, if_pos h]

/-- Far from the end of the range the sign makes no difference. -/
theorem covers_eq_contains {r : ColorRect} (hx : r.x + r.width < 2147483648)
    (hy : r.y + r.height < 2147483648) (px py : Nat) : r.covers px py = r.contains px py := by
  rw [Bool.eq_iff_iff, ColorRect.contains_iff, ColorRect.covers, signed32_of_lt (by omega),
    signed32_of_lt (by omega), signed32_of_lt (by omega), signed32_of_lt (by omega)]
  simp only [Bool.and_eq_true, decide_eq_true_eq, Box.Contains, ColorRect.box]
  omega

theorem mem_clipped {start length : Int} {limit i : Nat} :
    i ∈ clipped start length limit ↔ (start ≤ i ∧ (i : Int) < start + length) ∧ i < limit := by
  simp only [clipped, List.mem_map, List.mem_range]
  constructor
  · intro h
    obtain ⟨k, hk, rfl⟩ := h
    omega
  · intro h
    exact ⟨i - start.toNat, by omega, by omega⟩

theorem nodup_clipped (start length : Int) (limit : Nat) : (clipped start length limit).Nodup :=
  List.nodup_range.map fun _ _ h => Nat.add_left_cancel h

/-- What is asked of a way to fill rectangles: the pixels from a column and a row on get the colour,
    as far as they are on the image, and nothing else changes. -/
def FillsRects (fill : Image → Int → Int → Int → Int → Rgba → Image) : Prop :=
  ∀ (img : Image) (left top width height : Int) (c : Rgba),
    img.Changed (fill img left top width height c)
      (fun px py => (left ≤ px && (px : Int) < left + width) &&
        (top ≤ py && (py : Int) < top + height)) fun _ => c

/-- **Rectangles are filled so.** -/
theorem fillsRects : FillsRects fillRect := by
  intro img left top width height c
  unfold fillRect
  rw [Image.foldl_grid fun _ => clipped left width img.width]
  refine (img.modifyAll_changed (Image.nodup_grid (nodup_clipped ..)
    fun _ => nodup_clipped ..) _).congr fun x y hx hy => ?_
  rw [Bool.eq_iff_iff, List.contains_iff_mem, Image.mem_grid, mem_clipped, mem_clipped]
  simp [hx, hy]

/-- One rectangle on an image replaces the colours of the pixels that it covers. -/
theorem paintRect_changed {r : ColorRect} (hr : r.box.Nonempty) {img : Image} (hw : 0 < img.width)
    (hh : 0 < img.height) :
    ∃ out, paintRect img r = .ok out ∧ img.Changed out r.covers fun _ => r.color := by
  have hsome : ¬(r.width = 0 ∨ r.height = 0 ∨ img.width = 0 ∨ img.height = 0) := by
    obtain ⟨hrw, hrh⟩ : 0 < r.width ∧ 0 < r.height := hr
    omega
  rw [paintRect, if_neg hsome]
  exact ⟨_, rfl, fillsRects ..⟩

/-! ## 2. Several rectangles -/

/-- Some replacements, one after the other, leave the last of them. -/
theorem foldl_replace (rects : List ColorRect) (c : Option Rgba) (hc : c.isSome = true) :
    rects.foldl (fun c r => c.map fun _ => r.color) c =
      (rects.getLast?.map ColorRect.color).or c := by
  induction rects generalizing c with
  | nil => rfl
  | cons r rects ih =>
    obtain ⟨c, rfl⟩ := Option.isSome_iff_exists.mp hc
    rw [List.foldl_cons, ih _ rfl, List.getLast?_cons]
    cases rects.getLast? <;> rfl

/-- **Of several rectangles over a pixel the last one counts**, and a pixel under none of them keeps
    its colour. -/
theorem paintRects_pixel {rects : List ColorRect} (hr : ∀ r ∈ rects, r.box.Nonempty) {base : Image}
    (hw : 0 < base.width) (hh : 0 < base.height) :
    ∃ out, paintRects base rects = .ok out ∧ out.width = base.width ∧ out.height = base.height ∧
      ∀ x y, x < base.width → y < base.height → out.pixel? x y =
        ((rects.filter (·.covers x y)).getLast?.map ColorRect.color).or (base.pixel? x y) := by
  have hone : ∀ r ∈ rects, ∀ below : Image, below.width = base.width → below.height = base.height →
      ∃ out, paintRect below r = .ok out ∧ below.Changed out r.covers fun _ => r.color :=
    fun r hmem below hbw hbh => paintRect_changed (hr r hmem) (hbw ▸ hw) (hbh ▸ hh)
  obtain ⟨out, hout, hwidth, hheight, hpixel⟩ := Image.foldlM_changed base hone
  refine ⟨out, hout, hwidth, hheight, fun x y hx hy => ?_⟩
  rw [hpixel, foldl_replace _ _ ((base.isSome_pixel? x y).mpr ⟨hx, hy⟩)]

/-! ## 3. The rectangles depend on the foreground only -/

/-- The images have one size and one foreground: a colour that is no background is at the same
    pixels of both. -/
structure SameForeground (elision : Elision) (a b : Image) : Prop where
  width : a.width = b.width
  height : a.height = b.height
  pixel : ∀ x y c, elision.isBackground c = false → (a.pixel? x y = some c ↔ b.pixel? x y = some c)

/-- All colours are kept. -/
theorem SameForeground.keepsColors {elision : Elision} {a b : Image}
    (h : SameForeground elision a b) : KeepsColors (fun _ => true) b elision a elision where
  width := h.width
  height := h.height
  pixel x y c := by
    constructor
    · intro hc
      exact ⟨(h.pixel x y c hc.2).mp hc.1, hc.2, rfl⟩
    · intro hc
      exact ⟨(h.pixel x y c hc.2.1).mpr hc.1, hc.2.1⟩

/-- **Images with one foreground have the same rectangles.** -/
theorem decompose_congr {elision : Elision} {a b : Image} (h : SameForeground elision a b) :
    decompose a elision = decompose b elision := by
  rw [decompose_of_keepsColors h.keepsColors, List.filter_true]

/-! ## 4. Round trip -/

/-- The image has alpha zero throughout. -/
def IsClear (img : Image) : Prop := ∀ x y c, img.pixel? x y = some c → c.isClear = true

variable {img : Image} {elision : Elision}

/-- Of the rectangles of an image, in any order, those over a pixel have its colour, and there are
    some exactly if it is in the foreground. -/
theorem last_color_eq {rects : List ColorRect} (hperm : rects.Perm (decompose img elision))
    {x y : Nat} {c : Rgba} (hc : img.pixel? x y = some c) :
    (rects.filter (·.contains x y)).getLast?.map ColorRect.color =
      if elision.isBackground c then none else some c := by
  cases hb : elision.isBackground c with
  | true =>
    have hnone : rects.filter (·.contains x y) = [] := by
      refine List.filter_eq_nil_iff.mpr fun r hr hp => ?_
      obtain ⟨hc', hb'⟩ := decompose_color (hperm.mem_iff.mp hr) hp
      obtain rfl := Option.some.inj (hc'.symm.trans hc)
      rw [hb] at hb'
      cases hb'
    rw [hnone]
    rfl
  | false =>
    obtain ⟨r, hr, hp⟩ := exists_rect_of_foreground hc hb
    have hmem : r ∈ rects.filter (·.contains x y) := List.mem_filter.mpr ⟨hperm.mem_iff.mpr hr, hp⟩
    obtain ⟨last, hlast⟩ : ∃ last, (rects.filter (·.contains x y)).getLast? = some last :=
      ⟨_, List.getLast?_eq_some_getLast (List.ne_nil_of_mem hmem)⟩
    obtain ⟨hin, hcontains⟩ := List.mem_filter.mp (List.mem_of_getLast? hlast)
    have hcolor := (decompose_color (hperm.mem_iff.mp hin) hcontains).1
    rw [hlast, Option.map_some, ← hcolor, hc]
    rfl

/-- An image without pixels has no rectangles. -/
theorem decompose_eq_nil (h : ¬(0 < img.width ∧ 0 < img.height)) : decompose img elision = [] := by
  refine List.eq_nil_iff_forall_not_mem.mpr fun r hr => h ?_
  obtain ⟨hw, hh⟩ : 0 < r.width ∧ 0 < r.height := decompose_nonempty hr
  obtain ⟨hx, hy⟩ := decompose_inside hr
  omega

/-- `out` has the foreground of the image, and everywhere else the colours of the base. -/
def Restores (img : Image) (elision : Elision) (base out : Image) : Prop :=
  ∀ x y c, img.pixel? x y = some c →
    out.pixel? x y = if elision.isBackground c then base.pixel? x y else some c

/-- The rectangles of an image, put onto a base of its size in any order, restore the image. -/
theorem paintRects_restores {rects : List ColorRect} {base : Image} (hw : img.width < 2147483648)
    (hh : img.height < 2147483648) (hperm : rects.Perm (decompose img elision))
    (hbw : base.width = img.width) (hbh : base.height = img.height) :
    ∃ out, paintRects base rects = .ok out ∧ out.width = img.width ∧ out.height = img.height ∧
      Restores img elision base out := by
  by_cases hsize : 0 < img.width ∧ 0 < img.height
  · obtain ⟨out, hout, howidth, hoheight, hpixel⟩ := paintRects_pixel
      (fun r hr => decompose_nonempty (hperm.mem_iff.mp hr)) (hbw ▸ hsize.1) (hbh ▸ hsize.2)
    refine ⟨out, hout, howidth.trans hbw, hoheight.trans hbh, fun x y c hc => ?_⟩
    obtain ⟨hx, hy⟩ := (img.isSome_pixel? x y).mp (by rw [hc]; rfl)
    have hfilter : rects.filter (·.covers x y) = rects.filter (·.contains x y) := by
      refine List.filter_congr fun r hr => ?_
      obtain ⟨hright, hbottom⟩ := decompose_inside (hperm.mem_iff.mp hr)
      exact covers_eq_contains (by omega) (by omega) x y
    rw [hpixel x y (hbw ▸ hx) (hbh ▸ hy), hfilter, last_color_eq hperm hc]
    split <;> rfl
  · -- there are no rectangles, and nothing is painted
    have hnone : decompose img elision = [] := decompose_eq_nil hsize
    obtain rfl : rects = [] := List.perm_nil.mp (hnone ▸ hperm)
    refine ⟨base, rfl, hbw, hbh, fun x y c hc => absurd ?_ hsize⟩
    obtain ⟨hx, hy⟩ := (img.isSome_pixel? x y).mp (by rw [hc]; rfl)
    omega

/-- What restores an image on a clear base has its foreground and no other. -/
theorem Restores.sameForeground {base out : Image} (h : Restores img elision base out)
    (hw : out.width = img.width) (hh : out.height = img.height) (hclear : IsClear base) :
    SameForeground elision out img where
  width := hw
  height := hh
  pixel x y c hc := by
    cases hx : img.pixel? x y with
    | none =>
      have hnone : ¬(x < img.width ∧ y < img.height) := fun hin => by
        have hsome := (img.isSome_pixel? x y).mpr hin
        rw [hx] at hsome
        cases hsome
      rw [Image.pixel?_eq_none (by rwa [hw, hh])]
    | some d =>
      rw [h x y d hx]
      cases hd : elision.isBackground d with
      | false => exact Iff.rfl
      | true =>
        -- the base shows, which is background, and `c` is not
        constructor
        · intro hbase
          have hback := isBackground_of_isClear (hclear x y c hbase) elision
          rw [hc] at hback
          cases hback
        · intro heq
          rw [Option.some.inj heq, hc] at hd
          cases hd

/-- **The rectangles of an image put back.** For an image with sides below `2 ^ 31`, its rectangles
    in any order, put onto a base of its size, give an image of that size which has the foreground
    of the image and everywhere else the colours of the base; and if the base is clear, the
    rectangles of what comes out are those of the image, in the same order. -/
theorem decompose_repaint {rects : List ColorRect} {base : Image} (hw : img.width < 2147483648)
    (hh : img.height < 2147483648) (hperm : rects.Perm (decompose img elision))
    (hbw : base.width = img.width) (hbh : base.height = img.height) :
    ∃ out, paintRects base rects = .ok out ∧ out.width = img.width ∧ out.height = img.height ∧
      (∀ x y c, img.pixel? x y = some c →
        out.pixel? x y = if elision.isBackground c then base.pixel? x y else some c) ∧
      (IsClear base → decompose out elision = decompose img elision) := by
  obtain ⟨out, hout, howidth, hoheight, hrestores⟩ := paintRects_restores hw hh hperm hbw hbh
  exact ⟨out, hout, howidth, hoheight, hrestores, fun hclear =>
    decompose_congr (hrestores.sameForeground howidth hoheight hclear)⟩

/-- Two rectangles around a white pixel, put back in the opposite order. -/
theorem decompose_repaint_reversed :
    let red : Rgba := ⟨255, 0, 0, 255⟩
    let img := Image.ofFn 3 1 fun x _ => if x = 0 then red else if x = 1 then .white else .black
    let base := Image.filled 3 1 Rgba.transparent
    IsClear base ∧ ∃ out,
      paintRects base (decompose img .transparentOrWhite).reverse = .ok out ∧
      out.pixel? 0 0 = some red ∧ out.pixel? 1 0 = some Rgba.transparent ∧
      decompose out .transparentOrWhite = decompose img .transparentOrWhite := by
  intro red img base
  have hclear : IsClear base := by
    intro x y c hc
    rw [Image.pixel?_filled] at hc
    obtain ⟨-, heq⟩ := Option.ite_none_right_eq_some.mp hc
    rw [← Option.some.inj heq]
    rfl
  have hsize : img.width < 2147483648 ∧ img.height < 2147483648 := by decide
  have hbase : base.width = img.width ∧ base.height = img.height := ⟨rfl, rfl⟩
  obtain ⟨out, hout, -, -, hpixel, hsame⟩ := decompose_repaint hsize.1 hsize.2
    (List.reverse_perm (decompose img .transparentOrWhite)) hbase.1 hbase.2
  exact ⟨hclear, out, hout, hpixel 0 0 red rfl, hpixel 1 0 .white rfl, hsame hclear⟩

end Mesh

end QrRender
