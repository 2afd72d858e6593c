import QrRender.Proofs.Mesh.Repaint

/-!
# Painting rectangles over one another

Rectangles are put onto an image one after the other, so that of those over a pixel the last one
shows. Their corners are read with a sign, and a rectangle may reach over any side of the image:
what lies outside is cut, and does not matter.

* `ColorRect.Spans`, `ColorRect.InRange`: the pixels of a rectangle whose corner is read with a
  sign, and the rectangles whose sides can be read so too;
* `ColorRect.AlikeOn`: rectangles that differ outside an image only;
* `getLast?_filter_split`: the last of a list for which a test holds;
* **`paintRects_last`**: the pixels of an image after any list of rectangles.
-/

namespace QrRender

namespace ColorRect

/-- The pixel at column `px`, row `py` is in the rectangle, the corner of which is read with a
    sign. -/
def Spans (r : ColorRect) (px py : Nat) : Prop :=
  (Mesh.signed32 r.x ≤ px ∧ (px : Int) < Mesh.signed32 r.x + r.width) ∧
    (Mesh.signed32 r.y ≤ py ∧ (py : Int) < Mesh.signed32 r.y + r.height)

instance decidableSpans (r : ColorRect) (px py : Nat) : Decidable (r.Spans px py) :=
  inferInstanceAs (Decidable (_ ∧ _))

/-- A rectangle with pixels, whose sides and whose right and lower ends are below `2 ^ 31`. -/
structure InRange (r : ColorRect) : Prop where
  width_pos : 0 < r.width
  height_pos : 0 < r.height
  width_lt : r.width < 2147483648
  height_lt : r.height < 2147483648
  right_lt : Mesh.signed32 r.x + r.width < 2147483648
  bottom_lt : Mesh.signed32 r.y + r.height < 2147483648

/-- The rectangles have one colour, and on an image of `w` by `h` the same pixels. -/
def AlikeOn (w h : Nat) (r r' : ColorRect) : Prop :=
  r.color = r'.color ∧ ∀ x y, x < w → y < h → (r.Spans x y ↔ r'.Spans x y)

theorem InRange.sides_pos {r : ColorRect} (h : r.InRange) : 0 < r.width ∧ 0 < r.height :=
  ⟨h.width_pos, h.height_pos⟩

/-- Sides below `2 ^ 31` are the same with a sign and without. -/
theorem InRange.covers_iff {r : ColorRect} (h : r.InRange) {px py : Nat} :
    r.covers px py = true ↔ r.Spans px py := by
  rw [covers, Mesh.signed32_of_lt h.width_lt, Mesh.signed32_of_lt h.height_lt]
  simp only [Bool.and_eq_true, decide_eq_true_eq]
  rfl

end ColorRect

/-- The image has pixels, and its sides are below `2 ^ 31`. -/
structure Image.SidesInRange (img : Image) : Prop where
  width_pos : 0 < img.width
  height_pos : 0 < img.height
  width_lt : img.width < 2147483648
  height_lt : img.height < 2147483648

namespace Mesh

/-! ## 1. The last rectangle over a pixel -/

/-- The last entry for which a test holds is the last one that the test leaves. -/
theorem getLast?_filter_split {β : Type} {p : β → Bool} (before : List β) {after : List β}
    {last : β} (hlast : p last = true) (hafter : ∀ a ∈ after, ¬p a = true) :
    ((before ++ last :: after).filter p).getLast? = some last := by
  rw [List.filter_append, List.filter_cons, if_pos hlast, List.filter_eq_nil_iff.mpr hafter,
    List.getLast?_concat]

/-- Lists of rectangles that are alike on an image have over each of its pixels the same
    colours. -/
theorem colors_of_alike {w h x y : Nat} (hx : x < w) (hy : y < h) {rects rects' : List ColorRect}
    (hr : ∀ r ∈ rects, r.InRange) (hr' : ∀ r ∈ rects', r.InRange)
    (halike : List.Forall₂ (ColorRect.AlikeOn w h) rects rects') :
    (rects.filter (·.covers x y)).map ColorRect.color =
      (rects'.filter (·.covers x y)).map ColorRect.color := by
  induction halike with
  | nil => rfl
  | @cons r r' rects rects' hhead _ ih =>
    obtain ⟨hcolor, hspans⟩ := hhead
    have hcovers : r.covers x y = r'.covers x y := by
      rw [Bool.eq_iff_iff, (hr r List.mem_cons_self).covers_iff,
        (hr' r' List.mem_cons_self).covers_iff]
      exact hspans x y hx hy
    have htail := ih (fun s hs => hr s (List.mem_cons_of_mem _ hs))
      fun s hs => hr' s (List.mem_cons_of_mem _ hs)
    rw [List.filter_cons, List.filter_cons, hcovers]
    split
    · rw [List.map_cons, List.map_cons, hcolor, htail]
    · exact htail

/-- What rectangles make of an image depends on their pixels in it and on their colours. -/
theorem paintRects_of_alike {img : Image} (hw : 0 < img.width) (hh : 0 < img.height)
    {rects rects' : List ColorRect} (hr : ∀ r ∈ rects, r.InRange) (hr' : ∀ r ∈ rects', r.InRange)
    (halike : List.Forall₂ (ColorRect.AlikeOn img.width img.height) rects rects') :
    paintRects img rects = paintRects img rects' := by
  obtain ⟨out, hout, hwidth, hheight, hpixel⟩ :=
    paintRects_pixel (fun r hmem => (hr r hmem).sides_pos) hw hh
  obtain ⟨out', hout', hwidth', hheight', hpixel'⟩ :=
    paintRects_pixel (fun r hmem => (hr' r hmem).sides_pos) hw hh
  rw [hout, hout']
  refine congrArg Except.ok (Image.ext_pixel? (hwidth.trans hwidth'.symm)
    (hheight.trans hheight'.symm) fun x y => ?_)
  by_cases hxy : x < img.width ∧ y < img.height
  · rw [hpixel x y hxy.1 hxy.2, hpixel' x y hxy.1 hxy.2, ← List.getLast?_map, ← List.getLast?_map,
      colors_of_alike hxy.1 hxy.2 hr hr' halike]
  · rw [Image.pixel?_eq_none (by rwa [hwidth, hheight]),
      Image.pixel?_eq_none (by rwa [hwidth', hheight'])]

/-! ## 2. The pixels of the result -/

/-- **The last rectangle over a pixel shows.** Rectangles with pixels whose numbers are in range can
    be put onto every image with pixels whose sides are in range. The result has the size of the
    image; each of its pixels has the colour of the last rectangle of the list that has it, and the
    colour it had if there is none; and rectangles that differ outside the image only give the same
    result. -/
theorem paintRects_last {img : Image} (himg : img.SidesInRange) {rects : List ColorRect}
    (hr : ∀ r ∈ rects, r.InRange) :
    ∃ out, paintRects img rects = .ok out ∧ out.width = img.width ∧ out.height = img.height ∧
      (∀ x y, x < img.width → y < img.height →
        (∀ before last after, rects = before ++ last :: after → last.Spans x y →
          (∀ r ∈ after, ¬r.Spans x y) → out.pixel? x y = some last.color) ∧
        ((∀ r ∈ rects, ¬r.Spans x y) → out.pixel? x y = img.pixel? x y)) ∧
      ∀ rects' : List ColorRect, (∀ r ∈ rects', r.InRange) →
        List.Forall₂ (ColorRect.AlikeOn img.width img.height) rects rects' →
        paintRects img rects' = .ok out := by
  obtain ⟨out, hout, hwidth, hheight, hpixel⟩ := paintRects_pixel
    (fun r hmem => (hr r hmem).sides_pos) himg.width_pos himg.height_pos
  refine ⟨out, hout, hwidth, hheight, fun x y hx hy => ⟨?_, ?_⟩, fun rects' hr' halike => ?_⟩
  · intro before last after heq hlast hafter
    have hin : ∀ r ∈ last :: after, r.InRange := fun r hmem =>
      hr r (heq ▸ List.mem_append_right before hmem)
    have hlast' : last.covers x y = true := (hin last List.mem_cons_self).covers_iff.mpr hlast
    have hafter' : ∀ r ∈ after, ¬r.covers x y = true := fun r hmem hcovers =>
      hafter r hmem ((hin r (List.mem_cons_of_mem last hmem)).covers_iff.mp hcovers)
    rw [hpixel x y hx hy, heq,
      getLast?_filter_split (p := fun r => r.covers x y) before hlast' hafter']
    rfl
  · intro hnone
    have hempty : rects.filter (·.covers x y) = [] := List.filter_eq_nil_iff.mpr
      fun r hmem hcovers => hnone r hmem ((hr r hmem).covers_iff.mp hcovers)
    rw [hpixel x y hx hy, hempty]
    rfl
  · rw [← paintRects_of_alike himg.width_pos himg.height_pos hr hr' halike, hout]

/-- Two rectangles that overlap, the first of which begins to the left of the image: the column
    `2 ^ 32 - 1` is the one before the first. Cut to the image it gives the same. -/
theorem paintRects_last_overlap :
    let red : Rgba := ⟨255, 0, 0, 255⟩
    let blue : Rgba := ⟨0, 0, 255, 255⟩
    let img := Image.filled 3 1 Rgba.white
    let first : ColorRect := ⟨4294967295, 0, 3, 5, red⟩
    let second : ColorRect := ⟨1, 0, 1, 1, blue⟩
    img.SidesInRange ∧ (∀ r ∈ [first, second], r.InRange) ∧
      ∃ out, paintRects img [first, second] = .ok out ∧ out.pixel? 0 0 = some red ∧
        out.pixel? 1 0 = some blue ∧ out.pixel? 2 0 = some Rgba.white ∧
        paintRects img [⟨0, 0, 2, 1, red⟩, second] = .ok out := by
  intro red blue img first second
  have himg : img.SidesInRange := ⟨by decide, by decide, by decide, by decide⟩
  have hfirst : first.InRange :=
    ⟨by decide, by decide, by decide, by decide, by decide, by decide⟩
  have hsecond : second.InRange :=
    ⟨by decide, by decide, by decide, by decide, by decide, by decide⟩
  have hcut : (ColorRect.mk 0 0 2 1 red).InRange :=
    ⟨by decide, by decide, by decide, by decide, by decide, by decide⟩
  have hr : ∀ r ∈ [first, second], r.InRange := by
    simp only [List.mem_cons, List.not_mem_nil, or_false]
    rintro r (rfl | rfl)
    · exact hfirst
    · exact hsecond
  have halike : ColorRect.AlikeOn 3 1 first ⟨0, 0, 2, 1, red⟩ := by
    have hx : signed32 4294967295 = -1 := by decide
    have hzero : signed32 0 = 0 := by decide
    refine ⟨rfl, fun x y hx' hy' => ?_⟩
    simp only [ColorRect.Spans, first, hx, hzero]
    omega
  obtain ⟨out, hout, -, -, hpixel, hcongr⟩ := paintRects_last himg hr
  refine ⟨himg, hr, out, hout, ?_, ?_, ?_, ?_⟩
  · exact (hpixel 0 0 (by decide) (by decide)).1 [] first [second] rfl (by decide) (by decide)
  · exact (hpixel 1 0 (by decide) (by decide)).1 [first] second [] rfl (by decide) (by decide)
  · exact (hpixel 2 0 (by decide) (by decide)).2 (by decide)
  · refine hcongr _ ?_ (.cons halike (.cons ⟨rfl, fun _ _ _ _ => Iff.rfl⟩ .nil))
    simp only [List.mem_cons, List.not_mem_nil, or_false]
    rintro r (rfl | rfl)
    · exact hcut
    · exact hsecond

end Mesh

end QrRender
