import QrRender.Proofs.Document.Parts
import QrRender.Proofs.Gradient.Brackets
import QrRender.Proofs.Numeric.Exact
import QrRender.Proofs.Raster.Pixels

/-!
# One line for a gradient

A gradient runs along a line across the canvas. A document writes the line down for the size of the
canvas. A surface of pixels knows the image and the view only, and gets the size of the canvas back
from them: the image without the margins, over the scale. With exact numbers that is the size
again, whatever the resolution and whether the canvas is wide or high, so that all output has the
gradient in the same place.

* `View.Fits`, `View.fits_fit`: how a view fits a canvas into a square;
* `View.Spans`, `Surface.gradientLine_eq`: the line of a surface whose view spans the canvas;
* `Svg.Element.WritesLine`: an element that defines a gradient along a line;
* `Renderer.PaintedAlong`: a picture whose gradient runs along a line;
* **`Renderer.one_gradient_line`**: the line is one for pixels and documents.
-/

namespace QrRender

/-! ## 1. Views that fit -/

namespace View

variable {α : Type} [Field α] [LinearOrder α] [IsStrictOrderedRing α]

/-- The view fits a canvas of `w` by `h` into a square of side `side`: the longer side of the canvas
    has the length of the square, and there are equal margins on both sides of the other one. -/
structure Fits (v : View α) (side w h : Nat) : Prop where
  scale_pos : 0 < v.scale
  scale_max : v.scale * ((max w h : Nat) : α) = side
  margins : 0 ≤ v.dx ∧ 0 ≤ v.dy
  columns : 2 * v.dx + w * v.scale = side
  rows : 2 * v.dy + h * v.scale = side

/-- A canvas that is not empty is fitted into any square that is not. -/
theorem fits_fit {side w h : Nat} (hside : 1 ≤ side) (hne : 1 ≤ max w h) :
    (fit side w h : View α).Fits side w h := by
  have hmax : max (max w h) 1 = max w h := Nat.max_eq_left hne
  have hpos : (0 : α) < (max w h : Nat) := Nat.cast_pos.mpr hne
  have hscale : (fit side w h : View α).scale = side / ((max w h : Nat) : α) := by
    rw [fit, hmax]
  have hscale_pos : 0 < (fit side w h : View α).scale := by
    rw [hscale]
    exact div_pos (Nat.cast_pos.mpr hside) hpos
  have hmul : (fit side w h : View α).scale * ((max w h : Nat) : α) = side := by
    rw [hscale]
    exact div_mul_cancel₀ _ hpos.ne'
  -- the longer side has the length of the square, and neither side is longer
  have hle : ∀ n : Nat, n ≤ max w h → (n : α) * (fit side w h : View α).scale ≤ side := by
    intro n hn
    rw [mul_comm, ← hmul]
    exact mul_le_mul_of_nonneg_left (Nat.cast_le.mpr hn) hscale_pos.le
  have hdx : (fit side w h : View α).dx = (side - w * (fit side w h : View α).scale) / (2 : Nat) :=
    rfl
  have hdy : (fit side w h : View α).dy = (side - h * (fit side w h : View α).scale) / (2 : Nat) :=
    rfl
  refine ⟨hscale_pos, hmul, ⟨?_, ?_⟩, ?_, ?_⟩
  · rw [hdx]
    exact div_nonneg (sub_nonneg.mpr (hle w (Nat.le_max_left w h))) (Nat.cast_nonneg _)
  · rw [hdy]
    exact div_nonneg (sub_nonneg.mpr (hle h (Nat.le_max_right w h))) (Nat.cast_nonneg _)
  · rw [hdx, Nat.cast_ofNat]
    ring
  · rw [hdy, Nat.cast_ofNat]
    ring

/-- Seen through the view, a canvas of `w` by `h` is what an image of `width` by `height` has between
    its margins. -/
structure Spans (v : View α) (width height w h : Nat) : Prop where
  scale_ne : v.scale ≠ 0
  columns : 2 * v.dx + w * v.scale = width
  rows : 2 * v.dy + h * v.scale = height

omit [IsStrictOrderedRing α] in
theorem Fits.spans {v : View α} {side w h : Nat} (hv : v.Fits side w h) : v.Spans side side w h :=
  ⟨hv.scale_pos.ne', hv.columns, hv.rows⟩

omit [LinearOrder α] [IsStrictOrderedRing α] in
/-- Without scaling there are no margins. -/
theorem spans_identity (w h : Nat) : (identity : View α).Spans w h w h := by
  constructor <;> simp [identity]

end View

/-! ## 2. The line on a surface -/

namespace Surface

variable {α : Type} [Field α] [LinearOrder α] [Numeric α]

omit [LinearOrder α] [Numeric α] in
/-- A length on the surface without its margins, over the scale, is the length on the canvas. -/
theorem area_eq {length margin scale n : α} (hscale : scale ≠ 0)
    (h : 2 * margin + n * scale = length) : (length - (2 : Nat) * margin) / scale = n := by
  rw [Nat.cast_ofNat, ← h, add_sub_cancel_left, mul_div_cancel_right₀ _ hscale]

/-- A surface gets the size of the canvas back from the view. -/
theorem gradientLine_eq {s : Surface α} (g : Gradient α) {width height w h : Nat}
    (hspans : s.view.Spans width height w h) :
    s.gradientLine g width height = g.line (w : α) (h : α) := by
  unfold gradientLine
  simp only [area_eq hspans.scale_ne hspans.columns, area_eq hspans.scale_ne hspans.rows]

omit [Numeric α] in
/-- Numbers in order compare, so that a gradient has a colour everywhere. -/
theorem exists_colorAt (g : Gradient α) (t : α) : ∃ c, g.colorAt t = .ok c :=
  Gradient.colorAt_isOk fun _ _ => le_total _ _

end Surface

/-- The colour of a paint where the gradient has the colour `c`. -/
def Paint.over (c : Rgba) : Paint → Rgba
  | .solid d => d
  | .gradient _ => c

namespace Surface

variable {α : Type} [Field α] [LinearOrder α] [Numeric α]

/-- The point of the canvas at the middle of a pixel. -/
def middle (s : Surface α) (x y : Nat) : α × α :=
  (((x : α) + half - s.view.dx) / s.view.scale, ((y : α) + half - s.view.dy) / s.view.scale)

omit [LinearOrder α] [Numeric α] in
theorem middle_eq {s : Surface α} (hscale : s.view.scale ≠ 0) (x y : Nat) :
    (s.middle x y).1 * s.view.scale + s.view.dx = x + 1 / 2 ∧
      (s.middle x y).2 * s.view.scale + s.view.dy = y + 1 / 2 := by
  have hhalf : (half : α) = 1 / 2 := by rw [half, Nat.cast_one, Nat.cast_ofNat]
  unfold middle
  rw [hhalf, div_mul_cancel₀ _ hscale, div_mul_cancel₀ _ hscale]
  exact ⟨sub_add_cancel _ _, sub_add_cancel _ _⟩

/-- The colours of a surface whose gradient runs along a line: at each pixel the gradient has that
    of the middle. -/
theorem shades_along {s : Surface α} {g : Gradient α} (hg : s.gradient = some g)
    {width height : Nat} {l : GradientLine α} (hline : s.gradientLine g width height = l)
    {color : Nat → Nat → Rgba}
    (hcolor : ∀ x y, g.colorAt (l.position (s.middle x y).1 (s.middle x y).2) = .ok (color x y)) :
    s.Shades width height fun paint x y => paint.over (color x y) := by
  intro paint x y _ _
  cases paint with
  | solid c => rfl
  | gradient fallback =>
    unfold source
    rw [hg]
    simp only [hline]
    exact hcolor x y

end Surface

/-! ## 3. Pictures and documents along a line -/

/-- The element defines a gradient whose ends are those of the line, to three decimals, in
    coordinates of the canvas. -/
def Svg.Element.WritesLine {α : Type} [Numeric α] (e : Svg.Element) (l : GradientLine α) : Prop :=
  ∃ definition, e.children = [definition] ∧ definition.name = "linearGradient" ∧
    definition.attribute? "gradientUnits" = some "userSpaceOnUse" ∧
    definition.attribute? "x1" = some (Numeric.fixedText l.x1) ∧
    definition.attribute? "y1" = some (Numeric.fixedText l.y1) ∧
    definition.attribute? "x2" = some (Numeric.fixedText l.x2) ∧
    definition.attribute? "y2" = some (Numeric.fixedText l.y2)

namespace Renderer

variable {α : Type} [Field α] [LinearOrder α] [Numeric α]

/-- The image shows the commits of the render through the view, with a gradient that runs along the
    line. Its pixels have the background and over it, in the order of the commits, the colours of
    those that cover the pixel. Where a commit is painted with the gradient, this is the colour of
    the gradient at the point of the canvas that the view brings to the middle of the pixel. -/
structure PaintedAlong (r : Renderer α) (ks : List (Commit α)) (view : View α) (g : Gradient α)
    (l : GradientLine α) (img : Image) : Prop where
  pixel : ∀ x y, x < img.width → y < img.height → ∃ px py c,
    px * view.scale + view.dx = x + 1 / 2 ∧ py * view.scale + view.dy = y + 1 / 2 ∧
    g.colorAt (l.position px py) = .ok c ∧
    img.pixel? x y = some ((ks.filter fun k =>
        (Surface.mk view (some g)).Covers k img.width img.height x y).foldl
      (fun below k => (k.paint.over c).laidOver below) r.options.background)

/-- A picture whose view spans the canvas is painted along the line of the canvas. -/
theorem paintedAlong {r : Renderer α} {g : Gradient α} (hg : r.options.gradient = some g)
    {cs : List (Command α)} (hcs : r.commands = .ok cs) {view : View α} {width height w h : Nat}
    (hspans : view.Spans width height w h) :
    ∃ img, r.rasterizeIn width height view = .ok img ∧ img.width = width ∧ img.height = height ∧
      r.PaintedAlong (Pen.initial.commits cs) view g (g.line (w : α) (h : α)) img := by
  have hline := Surface.gradientLine_eq (s := ⟨view, some g⟩) g hspans
  choose color hcolor using fun x y => Surface.exists_colorAt g
    ((g.line (w : α) (h : α)).position ((Surface.mk view (some g)).middle x y).1
      ((Surface.mk view (some g)).middle x y).2)
  have hshade := Surface.shades_along (s := ⟨view, some g⟩) rfl hline hcolor
  rw [← hg] at hshade
  obtain ⟨img, himg, hwidth, hheight, hpixel⟩ := rasterizeIn_pixel hcs hshade
  refine ⟨img, himg, hwidth, hheight, ⟨fun x y hx hy => ?_⟩⟩
  obtain ⟨hpx, hpy⟩ := Surface.middle_eq (s := ⟨view, some g⟩) hspans.scale_ne x y
  refine ⟨_, _, color x y, hpx, hpy, hcolor x y, ?_⟩
  rw [hwidth] at hx ⊢
  rw [hheight] at hy ⊢
  rw [hpixel x y hx hy, hg]

/-- A document that is not traced writes down the line of the canvas. -/
theorem exists_writesLine {r : Renderer α} {g : Gradient α} (hg : r.options.gradient = some g)
    (hformat : r.options.format ≠ .svgTraced) {codecs : Codecs} {doc : Svg.Element}
    (hdoc : r.document codecs = .ok doc) :
    ∃ e ∈ doc.children, e.WritesLine (g.line (r.width : α) (r.height : α)) := by
  obtain ⟨drawing, logo, hdrawing, -, rfl⟩ := document_eq_ok hdoc
  rw [drawingElements_vector hformat, hg] at hdrawing
  refine ⟨Svg.gradientDefinition g r.width r.height, ?_, _, rfl, rfl, rfl, rfl, rfl, rfl, rfl⟩
  cases hcs : r.commands with
  | error f =>
    rw [hcs] at hdrawing
    cases hdrawing
  | ok cs =>
    rw [hcs] at hdrawing
    obtain rfl := Except.ok.inj hdrawing
    exact List.mem_cons_self

variable [IsStrictOrderedRing α]

/-- **One line for a gradient, whatever the resolution.** With built options that set a resolution,
    every grid whose canvas is not empty is fitted into the square of that side: the scale is
    positive and makes the longer side as long as the square, and the margins are not negative and
    make up for the rest. So a gradient runs along the line of the canvas wherever it is drawn: on
    the picture at the size of the output and on that at the size of the canvas, each of whose
    pixels has the colour of the gradient at its middle taken back to the canvas, and in every
    document that is not traced; and there is one if the logo has pixels. -/
theorem one_gradient_line {files : String → Except String Picture} {b : Builder α} {o : Options α}
    (h : b.build files = .ok o) {side : Nat} (hside : o.resolution = some side) (g : Grid)
    (hne : 1 ≤ max (canvasWidth o g) (canvasHeight o g)) :
    ∃ r cs, ofOptions o g = .ok r ∧ r.commands = .ok cs ∧
      r.view.Fits side (canvasWidth o g) (canvasHeight o g) ∧
      ∀ gradient, o.gradient = some gradient →
        let l := gradient.line (canvasWidth o g : α) (canvasHeight o g : α)
        ((Surface.mk r.view o.gradient).gradientLine gradient side side = l ∧
          (Surface.mk View.identity o.gradient).gradientLine gradient (canvasWidth o g)
            (canvasHeight o g) = l) ∧
        (∃ img, r.rasterize = .ok img ∧ img.width = side ∧ img.height = side ∧
          r.PaintedAlong (Pen.initial.commits cs) r.view gradient l img) ∧
        (∃ img, r.rasterizeUnscaled = .ok img ∧ img.width = canvasWidth o g ∧
          img.height = canvasHeight o g ∧
          r.PaintedAlong (Pen.initial.commits cs) View.identity gradient l img) ∧
        (o.format ≠ .svgTraced → ∀ codecs,
          (∀ doc, o.document codecs g = .ok doc → ∃ e ∈ doc.children, e.WritesLine l) ∧
          ((∀ logo, r.logo = some logo → Codecs.hasPixels logo = true) →
            ∃ doc, o.document codecs g = .ok doc)) := by
  have hbuilt := Builder.build_sound h
  obtain ⟨r, hr, rfl, rfl, hsound⟩ := ofOptions_sound hbuilt g
  obtain ⟨cs, hcs⟩ := commands_isOk hsound
  have hfits : r.view.Fits side r.width r.height := by
    rw [view_of_resolution hside]
    exact View.fits_fit (hbuilt.resolution_pos side hside) hne
  have hidentity := View.spans_identity (α := α) r.width r.height
  refine ⟨r, cs, hr, hcs, hfits, fun gradient hgradient => ⟨⟨?_, ?_⟩, ?_, ?_, ?_⟩⟩
  · exact Surface.gradientLine_eq gradient hfits.spans
  · exact Surface.gradientLine_eq gradient hidentity
  · rw [rasterize, outputSize_of_resolution hside]
    exact paintedAlong hgradient hcs hfits.spans
  · exact paintedAlong hgradient hcs hidentity
  · intro hformat codecs
    rw [Options.document_of_renderer hr]
    exact ⟨fun doc hdoc => exists_writesLine hgradient hformat hdoc,
      fun hlogo => document_isOk hsound hlogo (fun htraced => absurd htraced hformat) codecs⟩

/-- From red to blue, on blocks of two pixels in a square of nine. -/
def redToBlue (gradient : Gradient ℚ) : Builder ℚ :=
  Builder.ofSettings [.blockWidth 2, .border [0], .gradient gradient, .resolution 9]

/-- Three modules in a row, enlarged by half. -/
theorem one_gradient_line_wide :
    let gradient : Gradient ℚ := ⟨0, [⟨0, ⟨255, 0, 0, 255⟩⟩, ⟨1, ⟨0, 0, 255, 255⟩⟩]⟩
    let g := Grid.ofFn 3 1 fun _ _ => ⟨true, .data⟩
    ∃ o, (redToBlue gradient).build (fun _ => .error "missing") = .ok o ∧ o.resolution = some 9 ∧
      1 ≤ max (canvasWidth o g) (canvasHeight o g) ∧ o.gradient = some gradient ∧
      ∃ r img, ofOptions o g = .ok r ∧ r.view.scale * 6 = 9 ∧
        (Surface.mk r.view o.gradient).gradientLine gradient 9 9 = gradient.line 6 2 ∧
        r.rasterize = .ok img ∧ img.width = 9 ∧ img.height = 9 := by
  intro gradient g
  obtain ⟨o, ho⟩ : ∃ o, (redToBlue gradient).build (fun _ => .error "missing") = .ok o := ⟨_, rfl⟩
  obtain ⟨hside, hgradient, hwidth, hheight⟩ : o.resolution = some 9 ∧ o.gradient = some gradient ∧
      canvasWidth o g = 6 ∧ canvasHeight o g = 2 := by
    obtain rfl := Except.ok.inj ho
    exact ⟨rfl, rfl, rfl, rfl⟩
  have hne : 1 ≤ max (canvasWidth o g) (canvasHeight o g) := by
    rw [hwidth, hheight]
    decide
  obtain ⟨r, cs, hr, -, hfits, hall⟩ := one_gradient_line ho hside g hne
  obtain ⟨⟨hline, -⟩, ⟨img, himg, himgWidth, himgHeight, -⟩, -⟩ := hall gradient hgradient
  rw [hwidth, hheight] at hfits hline
  exact ⟨o, ho, hside, hne, hgradient, r, img, hr, hfits.scale_max, hline, himg, himgWidth,
    himgHeight⟩

end Renderer

end QrRender
