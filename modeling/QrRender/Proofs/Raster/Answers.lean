import QrRender.Output.Picture
import QrRender.Proofs.Drawing.Rest
import QrRender.Proofs.Raster.Fill

/-!
# Drawings that cannot fail

On an image of pixels only one step of a drawing can be without an answer: reading the colour of a
paint at a pixel. A surface with a colour for every pixel of an image therefore answers every list
of commands on that image, whatever their paths, and the answer has the size of the image.

* `Coverage.lt_of_mem_pixels`: what is covered is inside the image;
* `Surface.HasColors`: there is a colour for every paint and pixel;
* `Surface.hasColors_of_none`: without a gradient there always is;
* `Surface.paintCommit_isOk`: one commit;
* **`Surface.draw_isOk`**: every list of commands;
* `Renderer.rasterizeIn_isOk`, `Renderer.image_isOk`: the pictures of a render.
-/

namespace QrRender

variable {α : Type} [Add α] [Sub α] [Mul α] [Div α] [NatCast α] [LT α] [DecidableLT α]
  [LE α] [DecidableLE α] [Numeric α]

omit [Sub α] [Mul α] [LE α] [DecidableLE α] in
/-- What is covered is inside the image. -/
theorem Coverage.lt_of_mem_pixels {c : Coverage α} {width height x y : Nat}
    (h : (x, y) ∈ c.pixels width height) : x < width ∧ y < height := by
  rw [pixels_eq_grid, Image.mem_grid] at h
  obtain ⟨hcolumn, hrow⟩ := h
  refine ⟨?_, (mem_window.mp hrow).2⟩
  unfold columns at hcolumn
  simp only at hcolumn
  split at hcolumn
  · exact absurd hcolumn List.not_mem_nil
  · exact (mem_window.mp (List.mem_filter.mp hcolumn).1).2

namespace Surface

/-! ## 1. Colours -/

/-- **There is a colour** for every paint and every pixel of an image of `width` by `height`. -/
def HasColors (s : Surface α) (width height : Nat) : Prop :=
  ∀ paint x y, x < width → y < height → ∃ c, s.source width height paint x y = .ok c

theorem hasColors_of_none {s : Surface α} (h : s.gradient = none) (width height : Nat) :
    s.HasColors width height := by
  intro paint x y _ _
  cases paint with
  | solid c => exact ⟨c, rfl⟩
  | gradient fallback =>
    refine ⟨fallback, ?_⟩
    unfold source
    rw [h]

end Surface

/-! ## 2. Drawings -/

/-- An image has the size of another. -/
def Image.SameSize (img out : Image) : Prop := out.width = img.width ∧ out.height = img.height

namespace Surface

omit [Add α] [Sub α] [Mul α] [Div α] [NatCast α] [LT α] [DecidableLT α] [LE α] [DecidableLE α]
  [Numeric α] in
/-- Colours that are there for all places can be laid over them. -/
theorem lay_isOk {color : Nat → Nat → Except Fault Rgba} {img : Image}
    {places : List (Nat × Nat)} (h : ∀ p ∈ places, ∃ c, color p.1 p.2 = .ok c) :
    ∃ out, lay color img places = .ok out ∧ img.SameSize out := by
  refine Checked.foldlM_isOk (I := img.SameSize) ?_ ⟨rfl, rfl⟩
  intro out hsize p hp
  obtain ⟨c, hc⟩ := h p hp
  obtain ⟨x, y⟩ := p
  refine ⟨out.modify x y c.laidOver, ?_, ?_⟩
  · simp only at hc ⊢
    rw [hc]
    rfl
  · rwa [Image.SameSize, Image.width_modify, Image.height_modify]

/-- One commit on a surface with colours. -/
theorem paintCommit_isOk {s : Surface α} {img : Image} (h : s.HasColors img.width img.height)
    (k : Commit α) :
    ∃ out, s.paintCommit img k = .ok out ∧ img.SameSize out := by
  unfold paintCommit
  cases s.coverage? k.ink k.style (SubPath.ofSteps k.steps) with
  | none => exact ⟨img, rfl, rfl, rfl⟩
  | some coverage =>
    simp only [paint]
    split
    · exact ⟨img, rfl, rfl, rfl⟩
    · refine lay_isOk fun p hp => ?_
      obtain ⟨hx, hy⟩ := Coverage.lt_of_mem_pixels hp
      exact h k.paint p.1 p.2 hx hy

/-- **A surface with colours answers every list of commands.** -/
theorem draw_isOk {s : Surface α} {img : Image} (h : s.HasColors img.width img.height)
    (cs : List (Command α)) :
    ∃ out, s.draw img cs = .ok out ∧ img.SameSize out := by
  rw [draw_eq]
  refine Checked.foldlM_isOk (I := img.SameSize) ?_ ⟨rfl, rfl⟩
  intro out hsize k _
  obtain ⟨hw, hh⟩ := hsize
  rw [← hw, ← hh] at h
  obtain ⟨next, hnext, hw', hh'⟩ := paintCommit_isOk h k
  exact ⟨next, hnext, hw'.trans hw, hh'.trans hh⟩

end Surface

/-! ## 3. Pictures -/

/-- Laying one image over another keeps its size. -/
theorem Image.size_overlay (img top : Image) (x y : Int) :
    img.SameSize (img.overlay top x y) := by
  unfold overlay
  refine List.foldlRecOn (motive := img.SameSize) _ _ ⟨rfl, rfl⟩ ?_
  intro acc hacc p _
  obtain ⟨i, j⟩ := p
  simp only
  split
  · split
    · rwa [SameSize, width_modify, height_modify]
    · exact hacc
  · exact hacc

namespace Renderer

/-- A render whose modules can be told is drawn on a surface with colours. -/
theorem rasterizeIn_isOk {r : Renderer α} {cs : List (Command α)} (hcs : r.commands = .ok cs)
    {w h : Nat} {view : View α} (hcolors : (Surface.mk view r.options.gradient).HasColors w h) :
    ∃ img, r.rasterizeIn w h view = .ok img ∧ img.width = w ∧ img.height = h := by
  unfold rasterizeIn
  rw [hcs]
  have hsize : (Surface.mk view r.options.gradient).HasColors
      (Image.filled w h r.options.background).width
      (Image.filled w h r.options.background).height := hcolors
  exact Surface.draw_isOk hsize cs

/-- A picture with its logo. -/
theorem image_isOk {r : Renderer α} {img : Image} (himg : r.rasterize = .ok img)
    {origin : Option (Nat × Nat)} (horigin : r.logoOrigin = .ok origin) :
    ∃ out, r.image = .ok out ∧ out.width = img.width ∧ out.height = img.height := by
  unfold image
  rw [himg, horigin]
  cases r.logo with
  | none => exact ⟨img, rfl, rfl, rfl⟩
  | some logo =>
    cases origin with
    | none => exact ⟨img, rfl, rfl, rfl⟩
    | some corner => exact ⟨_, rfl, Image.size_overlay ..⟩

end Renderer

end QrRender
