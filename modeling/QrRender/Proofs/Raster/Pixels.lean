import QrRender.Proofs.Raster.Answers
import QrRender.Proofs.Raster.Kept

/-!
# The pixels of a drawing

A commit that covers a pixel lays one colour over it: that of its paint at the pixel. What a drawing
makes of a pixel is therefore the colours of the commits that cover it, laid one over the other in
the order of the commits over the colour that was there, whatever happens to other pixels.

* `Surface.Shades`, `Surface.shades_flat`: the colours of all paints at all pixels of an image;
* `Surface.lay_pixel`: colours laid over different places;
* `Surface.paintCommit_pixel`: the pixels after one commit;
* **`Surface.draw_pixel`**: the pixels after a drawing;
* `Renderer.rasterizeIn_pixel`: the pixels of a picture of a render.
-/

namespace QrRender

variable {α : Type} [Add α] [Sub α] [Mul α] [Div α] [NatCast α] [LT α] [DecidableLT α]
  [LE α] [DecidableLE α] [Numeric α]

namespace Surface

/-- The colour of every paint at every pixel of an image of `width` by `height` is that of
    `shade`. -/
def Shades (s : Surface α) (width height : Nat) (shade : Paint → Nat → Nat → Rgba) : Prop :=
  ∀ paint x y, x < width → y < height → s.source width height paint x y = .ok (shade paint x y)

instance (s : Surface α) (k : Commit α) (width height x y : Nat) :
    Decidable (s.Covers k width height x y) :=
  match h : s.coverage? k.ink k.style (SubPath.ofSteps k.steps) with
  | none => .isFalse (not_covers h width height x y)
  | some coverage => decidable_of_iff ((x, y) ∈ coverage.pixels width height) (covers_iff h).symm

omit [Add α] [Sub α] [Mul α] [Div α] [NatCast α] [LT α] [DecidableLT α] [LE α] [DecidableLE α]
  [Numeric α] in
/-- Colours laid over different places change each of them once and no other. -/
theorem lay_pixel {color : Nat → Nat → Except Fault Rgba} {shade : Nat → Nat → Rgba}
    {places : List (Nat × Nat)} (hplaces : places.Nodup)
    (hcolor : ∀ p ∈ places, color p.1 p.2 = .ok (shade p.1 p.2)) (img : Image) :
    ∃ out, lay color img places = .ok out ∧ img.SameSize out ∧ ∀ x y, out.pixel? x y =
      if (x, y) ∈ places then (img.pixel? x y).map (shade x y).laidOver else img.pixel? x y := by
  induction places generalizing img with
  | nil => exact ⟨img, rfl, ⟨rfl, rfl⟩, fun x y => (if_neg List.not_mem_nil).symm⟩
  | cons p places ih =>
    obtain ⟨px, py⟩ := p
    obtain ⟨hp, hplaces⟩ := List.nodup_cons.mp hplaces
    obtain ⟨out, hout, ⟨hw, hh⟩, hpixel⟩ := ih hplaces
      (fun q hq => hcolor q (List.mem_cons_of_mem _ hq)) (img.modify px py (shade px py).laidOver)
    rw [Image.width_modify] at hw
    rw [Image.height_modify] at hh
    refine ⟨out, ?_, ⟨hw, hh⟩, fun x y => ?_⟩
    · have hfirst : color px py = .ok (shade px py) := hcolor _ List.mem_cons_self
      unfold lay
      rw [List.foldlM_cons]
      simp only [hfirst]
      exact hout
    · rw [hpixel, Image.pixel?_modify]
      by_cases hxy : x = px ∧ y = py
      · -- the first place is not among the others, so that it is not changed again
        obtain ⟨rfl, rfl⟩ := hxy
        simp [hp]
      · have hne : (x, y) ≠ (px, py) := fun h => hxy (Prod.mk.inj h)
        rw [if_neg hxy]
        simp [hne]

variable {s : Surface α} {width height : Nat} {shade : Paint → Nat → Nat → Rgba}

/-- Without a gradient every paint has its flat colour everywhere. -/
theorem shades_flat (h : s.gradient = none) (width height : Nat) :
    s.Shades width height fun paint _ _ => paint.flat := by
  intro paint x y _ _
  cases paint with
  | solid c => rfl
  | gradient fallback =>
    unfold source
    rw [h]
    rfl

/-- The colour of an invisible paint, laid over another, leaves that one. -/
theorem laidOver_of_isInvisible {paint : Paint} (h : paint.isInvisible = true) {x y : Nat}
    {c : Rgba} (hc : s.source width height paint x y = .ok c) (below : Rgba) :
    c.laidOver below = below := by
  cases paint with
  | solid d =>
    obtain rfl := Except.ok.inj hc
    exact Rgba.laidOver_of_isClear h below
  | gradient fallback => cases h

/-- One commit lays its colours over the pixels that it covers. -/
theorem paintCommit_pixel (hshade : s.Shades width height shade) {img : Image}
    (hw : img.width = width) (hh : img.height = height) (k : Commit α) :
    ∃ out, s.paintCommit img k = .ok out ∧ img.SameSize out ∧ ∀ x y, out.pixel? x y =
      if s.Covers k width height x y then (img.pixel? x y).map (shade k.paint x y).laidOver
      else img.pixel? x y := by
  subst hw hh
  unfold paintCommit
  cases hcoverage : s.coverage? k.ink k.style (SubPath.ofSteps k.steps) with
  | none =>
    exact ⟨img, rfl, ⟨rfl, rfl⟩, fun x y => (if_neg (not_covers hcoverage _ _ x y)).symm⟩
  | some coverage =>
    have hcolor : ∀ p ∈ coverage.pixels img.width img.height,
        s.source img.width img.height k.paint p.1 p.2 = .ok (shade k.paint p.1 p.2) := by
      intro p hp
      obtain ⟨hx, hy⟩ := Coverage.lt_of_mem_pixels hp
      exact hshade k.paint p.1 p.2 hx hy
    simp only [paint, covers_iff hcoverage]
    cases hpaint : k.paint.isInvisible with
    | true =>
      -- a clear colour laid over a pixel leaves it
      refine ⟨img, rfl, ⟨rfl, rfl⟩, fun x y => ?_⟩
      split
      · rename_i hmem
        have hsame : (shade k.paint x y).laidOver = id :=
          funext (laidOver_of_isInvisible hpaint (hcolor (x, y) hmem))
        rw [hsame, Option.map_id, id]
      · rfl
    | false => exact lay_pixel (coverage.nodup_pixels ..) hcolor img

/-- **A drawing lays over each pixel the colours of the commits that cover it**, in their order. -/
theorem draw_pixel (hshade : s.Shades width height shade) {img : Image} (hw : img.width = width)
    (hh : img.height = height) (cs : List (Command α)) :
    ∃ out, s.draw img cs = .ok out ∧ img.SameSize out ∧ ∀ x y, out.pixel? x y =
      ((Pen.initial.commits cs).filter fun k => s.Covers k width height x y).foldl
        (fun c k => c.map (shade k.paint x y).laidOver) (img.pixel? x y) := by
  rw [draw_eq]
  generalize Pen.initial.commits cs = ks
  induction ks generalizing img with
  | nil => exact ⟨img, rfl, ⟨rfl, rfl⟩, fun _ _ => rfl⟩
  | cons k ks ih =>
    obtain ⟨next, hnext, ⟨hw', hh'⟩, hone⟩ := paintCommit_pixel hshade hw hh k
    obtain ⟨out, hout, ⟨hw'', hh''⟩, hrest⟩ := ih (hw'.trans hw) (hh'.trans hh)
    refine ⟨out, ?_, ⟨hw''.trans hw', hh''.trans hh'⟩, fun x y => ?_⟩
    · rw [List.foldlM_cons, hnext]
      exact hout
    · rw [hrest, hone, List.filter_cons]
      by_cases hcovers : s.Covers k width height x y
      · rw [if_pos hcovers, if_pos (decide_eq_true hcovers), List.foldl_cons]
      · rw [if_neg hcovers, if_neg (by simpa using hcovers)]

end Surface

/-- The pixels of a picture of a render: the colours of the commits over the background. -/
theorem Renderer.rasterizeIn_pixel {r : Renderer α} {cs : List (Command α)}
    (hcs : r.commands = .ok cs) {w h : Nat} {view : View α} {shade : Paint → Nat → Nat → Rgba}
    (hshade : (Surface.mk view r.options.gradient).Shades w h shade) :
    ∃ img, r.rasterizeIn w h view = .ok img ∧ img.width = w ∧ img.height = h ∧
      ∀ x y, x < w → y < h → img.pixel? x y =
        some (((Pen.initial.commits cs).filter fun k =>
            (Surface.mk view r.options.gradient).Covers k w h x y).foldl
          (fun c k => (shade k.paint x y).laidOver c) r.options.background) := by
  obtain ⟨img, himg, ⟨hwidth, hheight⟩, hpixel⟩ :=
    Surface.draw_pixel hshade
      (rfl : (Image.filled w h r.options.background).width = w) rfl cs
  refine ⟨img, ?_, hwidth, hheight, fun x y hx hy => ?_⟩
  · unfold rasterizeIn
    rw [hcs]
    exact himg
  · rw [hpixel, Image.pixel?_filled, if_pos ⟨hx, hy⟩]
    exact List.foldl_hom some fun _ _ => rfl

end QrRender
