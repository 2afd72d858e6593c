import QrRender.Proofs.Gradient.Brackets
import QrRender.Proofs.Gradient.Line
import QrRender.Proofs.Render.Safe

/-!
# Gradients and their angles

Which renders with a gradient can be painted is decided by the angle alone. The stops, the sizes of
canvas and output and the place of a pixel cannot make a position what is no number; an angle that
is not finite has no direction, and then every position is none, and reading the gradient there is a
fault.

What a cosine and a sine are to a program is a parameter here, of which `Directions` is assumed.

* `Directions`: finite angles have a direction with coordinates from minus one to one, and no others
  have one;
* `View.Bounded`: a view that scales by neither too little nor too much; the views of a render are;
* `Surface.source_noBracket`: without a direction a pixel has no colour;
* `Surface.source_isOk_iff`: one pixel;
* **`Renderer.gradient_painted_iff`**: a gradient has a colour for a pixel exactly if its angle is
  finite, and the pictures are then there.
-/

namespace QrRender

open Double

/-! ## 1. Directions -/

/-- A finite angle has a direction, whose coordinates are from minus one to one; any other angle has
    no direction. -/
structure Directions [Numeric Float] : Prop where
  finite : ∀ degrees : Float, Numeric.isFinite degrees = true →
    (-1 ≤ (Numeric.direction degrees).1 ∧ (Numeric.direction degrees).1 ≤ 1) ∧
    (-1 ≤ (Numeric.direction degrees).2 ∧ (Numeric.direction degrees).2 ≤ 1)
  absent : ∀ degrees : Float, Numeric.isFinite degrees = false →
    (Numeric.direction degrees).1.isNaN = true ∧ (Numeric.direction degrees).2.isNaN = true

theorem Directions.below [Numeric Float] (h : Directions) {degrees : Float}
    (hfinite : Numeric.isFinite degrees = true) : PairBelow 1 (Numeric.direction degrees) := by
  obtain ⟨⟨hx, hx'⟩, hy, hy'⟩ := h.finite degrees hfinite
  exact ⟨isBelow_of_le_one hx hx', isBelow_of_le_one hy hy'⟩

/-! ## 2. Views -/

/-- A view whose lengths are below `2 ^ 80`, and whose scale is not below `2 ^ (-81)`. -/
structure View.Bounded (v : View Float) : Prop where
  scale_below : IsBelow 80 v.scale
  scale_above : IsAbove 80 v.scale
  dx : IsBelow 80 v.dx
  dy : IsBelow 80 v.dy

theorem View.bounded_identity : (View.identity : View Float).Bounded where
  scale_below := (isBelow_natCast (by decide)).mono (by decide)
  scale_above := (isAbove_natCast (by decide) (by decide)).mono (by decide)
  dx := isBelow_zero 80
  dy := isBelow_zero 80

/-- The margin of a scaled length in a square. -/
theorem View.margin_below {side n : Nat} {scale : Float} (hside : side < 2 ^ 32) (hn : n < 2 ^ 32)
    (hscale : IsBelow 38 scale) :
    IsBelow 80 (((side : Float) - (n : Float) * scale) / ((2 : Nat) : Float)) :=
  ((((isBelow_natCast hside).mono (by decide)).sub ((isBelow_natCast hn).mul hscale (by decide))
    (by decide)).half (by decide)).mono (by decide)

theorem View.bounded_fit {side w h : Nat} (h0 : 0 < side) (hside : side < 2 ^ 32)
    (hw : w < 2 ^ 32) (hh : h < 2 ^ 32) : (View.fit side w h : View Float).Bounded := by
  have hmax : max (max w h) 1 ≠ 0 := by omega
  have hmax' : max (max w h) 1 < 2 ^ 32 := by omega
  have hbelow := (isBelow_natCast hside).div (isAbove_natCast hmax hmax') (by decide)
  have habove := (isAbove_natCast (Nat.ne_of_gt h0) hside).div (isBelow_natCast hside)
    (isAbove_natCast hmax hmax') (isBelow_natCast hmax') (by decide)
  exact ⟨hbelow.mono (by decide), habove.mono (by decide), margin_below hside hw hbelow,
    margin_below hside hh hbelow⟩

/-- The view of a render is bounded if its sizes have 32 bits. -/
theorem Renderer.view_bounded {r : Renderer Float} (hw : r.width < 2 ^ 32)
    (hh : r.height < 2 ^ 32)
    (hside : ∀ side, r.options.resolution = some side → 0 < side ∧ side < 2 ^ 32) :
    r.view.Bounded := by
  unfold view
  cases hresolution : r.options.resolution with
  | none => exact View.bounded_identity
  | some side =>
    obtain ⟨h0, hlt⟩ := hside side hresolution
    exact View.bounded_fit h0 hlt hw hh

/-! ## 3. Pixels -/

namespace Surface

/-- The length of the drawing area along one side. -/
theorem area_below {n : Nat} {scale margin : Float} (hn : n < 2 ^ 32) (hscale : IsAbove 80 scale)
    (hmargin : IsBelow 80 margin) :
    IsBelow 200 (((n : Float) - ((2 : Nat) : Float) * margin) / scale) :=
  (((isBelow_natCast hn).mono (by decide)).sub
    ((isBelow_natCast (by decide)).mul hmargin (by decide)) (by decide)).div hscale (by decide)

/-- The middle of a pixel along one side. -/
theorem middle_below {n : Nat} {scale margin : Float} (hn : n < 2 ^ 32) (hscale : IsAbove 80 scale)
    (hmargin : IsBelow 80 margin) : IsBelow 200 (((n : Float) + half - margin) / scale) := by
  have hhalf : IsBelow 38 (half : Float) := (isBelow_natCast (by decide)).half (by decide)
  have hsum := ((isBelow_natCast hn).mono (by decide : 35 ≤ 38)).add hhalf (by decide)
  exact (((hsum.mono (by decide)).sub hmargin (by decide)).div hscale (by decide)).mono (by decide)

/-- A surface with a gradient reads it at the position of the middle of a pixel. -/
theorem source_eq [Numeric Float] {s : Surface Float} {g : Gradient Float}
    (hgradient : s.gradient = some g) (fallback : Rgba) (width height x y : Nat) :
    s.source width height (.gradient fallback) x y =
      s.gradientColor g (s.gradientLine g width height) x y := by
  unfold source
  rw [hgradient]

/-- Without a direction a gradient has no colour for any pixel. -/
theorem source_noBracket [Numeric Float] {s : Surface Float} {g : Gradient Float}
    (hgradient : s.gradient = some g) (hne : g.isEmpty = false)
    (hangle : (Numeric.direction g.angle).1.isNaN = true ∧
      (Numeric.direction g.angle).2.isNaN = true) (fallback : Rgba) (width height x y : Nat) :
    s.source width height (.gradient fallback) x y = .error .noBracket :=
  (source_eq hgradient ..).trans
    (Gradient.colorAt_of_isNaN hne (GradientLine.isNaN_position hangle _ _))

section Bounded

variable [Numeric Float] (hdirections : Directions) {s : Surface Float} (hview : s.view.Bounded)
  {g : Gradient Float} (hgradient : s.gradient = some g) (hne : g.isEmpty = false)
  (hstops : ∀ s ∈ g.stops, s.position.isNaN = false) {width height : Nat} (hw : width < 2 ^ 32)
  (hh : height < 2 ^ 32)

include hdirections hview hgradient hne hstops hw hh

/-- **A gradient has a colour for a pixel exactly if its angle is finite.** -/
theorem source_isOk_iff {x y : Nat} (hx : x < width) (hy : y < height) (fallback : Rgba) :
    (∃ c, s.source width height (.gradient fallback) x y = .ok c) ↔
      Numeric.isFinite g.angle = true := by
  constructor
  · intro ⟨c, hc⟩
    by_contra hangle
    rw [source_noBracket hgradient hne
      (hdirections.absent g.angle (Bool.eq_false_iff.mpr hangle))] at hc
    cases hc
  · intro hangle
    obtain ⟨-, hscale, hdx, hdy⟩ := hview
    have hline := GradientLine.project_below (hdirections.below hangle)
      (area_below hw hscale hdx) (area_below hh hscale hdy) (by decide)
    rw [source_eq hgradient]
    exact (Gradient.colorAt_isOk_iff hne hstops).mpr (GradientLine.isNaN_position_eq_false hline
      ((middle_below (hx.trans hw) hscale hdx).mono (by decide))
      ((middle_below (hy.trans hh) hscale hdy).mono (by decide)) (by decide))

theorem hasColors_of_isFinite (hangle : Numeric.isFinite g.angle = true) :
    s.HasColors width height := by
  intro paint x y hx hy
  cases paint with
  | solid c => exact ⟨c, rfl⟩
  | gradient fallback =>
    exact (source_isOk_iff hdirections hview hgradient hne hstops hw hh hx hy fallback).mpr hangle

end Bounded

end Surface

/-! ## 4. Pictures -/

namespace Renderer

/-- **A gradient that was built is painted exactly if its angle is finite.** Whatever its stops were
    given as, in each of the views of a render and on an image of any size it has a colour for every
    pixel if the angle is finite, and for no pixel otherwise. With a finite angle there are all the
    pictures of the render. -/
theorem gradient_painted_iff [Numeric Float] (hdirections : Directions)
    {files : String → Except String Picture} {b : Builder Float} {o : Options Float}
    (h : b.build files = .ok o) {angle : Float} {stops : List (ColorStop Float)}
    (hgradient : o.gradient = some (Gradient.ofStops angle stops)) {g : Grid}
    (hw : canvasWidth o g < 2 ^ 32) (hh : canvasHeight o g < 2 ^ 32)
    (hside : ∀ side, o.resolution = some side → side < 2 ^ 32) :
    ∃ r, ofOptions o g = .ok r ∧ r.options = o ∧ r.grid = g ∧
      (∀ view ∈ [r.view, View.identity], ∀ width height x y fallback, width < 2 ^ 32 →
        height < 2 ^ 32 → x < width → y < height →
        ((∃ c, (Surface.mk view o.gradient).source width height (.gradient fallback) x y = .ok c) ↔
          Numeric.isFinite angle = true)) ∧
      (Numeric.isFinite angle = true → r.HasPictures) := by
  have hbuilt := Builder.build_sound h
  have hne := hbuilt.gradient_stops _ hgradient
  obtain ⟨r, hr, rfl, rfl, hsound⟩ := ofOptions_sound hbuilt g
  have hbounded : ∀ view ∈ [r.view, View.identity], view.Bounded := by
    intro view hview
    rcases List.mem_pair.mp hview with rfl | rfl
    · exact view_bounded hw hh fun side hsome =>
        ⟨hbuilt.resolution_pos side hsome, hside side hsome⟩
    · exact View.bounded_identity
  refine ⟨r, hr, rfl, rfl, ?_, fun hangle => ?_⟩
  · intro view hview width height x y fallback hwidth hheight hx hy
    exact Surface.source_isOk_iff hdirections (s := ⟨view, r.options.gradient⟩)
      (hbounded view hview) hgradient hne Gradient.isNaN_position_ofStops hwidth hheight hx hy
      fallback
  · have hcolors : ∀ view ∈ [r.view, View.identity], ∀ width height, width < 2 ^ 32 →
        height < 2 ^ 32 → (Surface.mk view r.options.gradient).HasColors width height :=
      fun view hview width height hwidth hheight => Surface.hasColors_of_isFinite hdirections
        (s := ⟨view, r.options.gradient⟩) (hbounded view hview) hgradient hne
        Gradient.isNaN_position_ofStops hwidth hheight hangle
    have hsize : r.outputSize.1 < 2 ^ 32 ∧ r.outputSize.2 < 2 ^ 32 := by
      unfold outputSize
      cases hsome : r.options.resolution with
      | none => exact ⟨hw, hh⟩
      | some side => exact ⟨hside side hsome, hside side hsome⟩
    exact hasPictures hsound (hcolors r.view List.mem_cons_self _ _ hsize.1 hsize.2)
      (hcolors View.identity (List.mem_cons_of_mem _ List.mem_cons_self) r.width r.height hw hh)

/-- Doubles for which every finite angle points right, as the angle zero does. -/
@[reducible] def rightward : Numeric Float :=
  { numericFloat with
    direction := fun degrees =>
      if (Exact.ofFloat degrees).isFinite then (1, -0) else (0.0 / 0.0, 0.0 / 0.0) }

theorem directions_rightward : @Directions rightward := by
  let numeric := rightward
  constructor
  · intro degrees hfinite
    have hdirection : Numeric.direction degrees = (1, -0) := if_pos hfinite
    rw [hdirection]
    decide +kernel
  · intro degrees hfinite
    have hdirection : Numeric.direction degrees = (0.0 / 0.0, 0.0 / 0.0) :=
      if_neg (Bool.eq_false_iff.mp hfinite)
    rw [hdirection]
    decide +kernel

/-- A gradient from red to blue at the angle zero, with stops that are given out of range and at
    what is no number, scaled to a fixed size. -/
theorem gradient_painted_iff_right :
    letI := rightward
    let stops : List (ColorStop Float) := [⟨7, ⟨0, 0, 255, 255⟩⟩, ⟨0.0 / 0.0, ⟨255, 0, 0, 255⟩⟩]
    let b : Builder Float := Builder.ofSettings
      [.blockWidth 2, .border [1], .gradient (Gradient.ofStops 0 stops), .resolution 3]
    ∃ o r img, b.build (fun _ => .error "missing") = .ok o ∧
      ofOptions o (Grid.blank 2 2) = .ok r ∧ r.image = .ok img ∧ img.width = 3 ∧
      img.height = 3 := by
  let numeric := rightward
  intro stops b
  obtain ⟨o, ho⟩ : ∃ o, b.build (fun _ => .error "missing") = .ok o := ⟨_, rfl⟩
  have hgradient : o.gradient = some (Gradient.ofStops 0 stops) :=
    Builder.build_gradient ho rfl (Gradient.isEmpty_ofStops 0 stops)
  have hresolution : o.resolution = some 3 := by
    obtain rfl := Except.ok.inj ho
    rfl
  have hcanvas : canvasWidth o (Grid.blank 2 2) = 6 ∧ canvasHeight o (Grid.blank 2 2) = 6 := by
    obtain rfl := Except.ok.inj ho
    exact ⟨rfl, rfl⟩
  obtain ⟨r, hr, hoptions, -, -, hpictures⟩ :=
    gradient_painted_iff directions_rightward ho hgradient
      (by rw [hcanvas.1]; decide) (by rw [hcanvas.2]; decide)
      (fun side hside => by rw [hresolution] at hside; cases hside; decide)
  obtain ⟨img, himg, hsize⟩ := (hpictures (by decide +kernel)).image
  have houtput : r.outputSize = (3, 3) := by
    rw [outputSize, hoptions, hresolution]
  rw [houtput] at hsize
  obtain ⟨hw, hh⟩ := Prod.mk.inj hsize
  exact ⟨o, r, img, ho, hr, himg, hw, hh⟩

/-- An angle that is no number: the builder keeps the gradient with its one stop, and the first
    pixel has no colour. -/
theorem angle_without_colors :
    let gradient : Gradient Float := Gradient.ofStops (0.0 / 0.0) [⟨0, ⟨255, 0, 0, 255⟩⟩]
    let b : Builder Float := Builder.ofSettings
      [.blockWidth 10, .border [0], .gradient gradient]
    ∃ o r, b.build (fun _ => .error "missing") = .ok o ∧ o.gradient = some gradient ∧
      ofOptions o (Grid.blank 1 1) = .ok r ∧
      (Surface.mk r.view o.gradient).source 10 10 (.gradient Rgba.black) 0 0 =
        .error .noBracket := by
  intro gradient b
  have hne : gradient.isEmpty = false := Gradient.isEmpty_ofStops _ _
  obtain ⟨o, ho⟩ : ∃ o, b.build (fun _ => .error "missing") = .ok o := ⟨_, rfl⟩
  have hgradient : o.gradient = some gradient := Builder.build_gradient ho rfl hne
  obtain ⟨r, hr, -⟩ := ofOptions_sound (Builder.build_sound ho) (Grid.blank 1 1)
  have hangle : (Numeric.direction gradient.angle).1.isNaN = true ∧
      (Numeric.direction gradient.angle).2.isNaN = true := by decide +kernel
  exact ⟨o, r, ho, hgradient, hr,
    Surface.source_noBracket (s := ⟨r.view, o.gradient⟩) hgradient hne hangle ..⟩

end Renderer

end QrRender
