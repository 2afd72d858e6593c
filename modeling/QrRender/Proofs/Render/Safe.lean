import QrRender.Proofs.Raster.Answers
import QrRender.Proofs.Render.Tiling

/-!
# Renders without a fault

Without a gradient nothing on the way from built options to a picture is without an answer, for any
grid, also one without columns or rows. Each partial step has its answer because of what an earlier
one has made sure of: the builder, that lengths to divide by are not zero; the size check, that the
logo is no larger than the canvas; the halftone, that it has three by three pixels for every module.

* `Renderer.HalftoneFits`: every module has pixels of the halftone of its own, and reads only those;
* `Renderer.LogoCentred`: the logo is inside the canvas, as near to its middle as can be;
* `Renderer.view_scale`: the view divides by a positive length;
* `Renderer.hasPictures`: where there are colours there are pictures;
* **`Renderer.pictures_isOk`**: with built options every grid is rendered and drawn.
-/

namespace QrRender

variable {α : Type}

namespace Renderer

/-! ## 1. The halftone -/

/-- The three by three pixels of a halftone for one module. -/
def halftoneSquare (c : GridCell) : Box := ⟨3 * c.column, 3 * c.row, 3, 3⟩

/-- The squares of the modules tile the halftone, and the nine samples of a module are there and
    lie in its own square. -/
structure HalftoneFits (r : Renderer α) (halftone : Image) : Prop where
  tiles : Box.Tiles (r.grid.cells.map halftoneSquare) ⟨0, 0, halftone.width, halftone.height⟩
  inSquare : ∀ c ∈ r.grid.cells, ∀ place ∈ subCellPlaces,
    (halftoneSquare c).Contains (3 * c.column + place.1) (3 * c.row + place.2)
  sampled : ∀ c ∈ r.grid.cells, ∀ place ∈ subCellPlaces,
    ∃ sample, halftone.get (3 * c.column + place.1) (3 * c.row + place.2) = .ok sample

theorem halftoneFits {r : Renderer α} (hr : r.Sound) {halftone : Image}
    (hhalftone : r.halftone = some halftone) : r.HalftoneFits halftone := by
  obtain ⟨hwidth, hheight⟩ := hr.halftone_size halftone hhalftone
  constructor
  · have hsquare : halftoneSquare = fun c => ⟨c.column * 3 + 0, c.row * 3 + 0, 3, 3⟩ := by
      funext c
      rw [halftoneSquare, Nat.mul_comm, Nat.mul_comm 3 c.row]
      rfl
    rw [hwidth, hheight, Nat.mul_comm, Nat.mul_comm 3 r.grid.height, hsquare]
    exact tiles_squares r.grid (by decide)
  · intro c _ place hplace
    obtain ⟨hi, hj⟩ := mem_subCellPlaces.mp hplace
    exact Box.contains_mk.mpr ⟨⟨by omega, by omega⟩, by omega, by omega⟩
  · intro c hc place hplace
    obtain ⟨hx, hy⟩ := hr.sample_lt hhalftone hc hplace
    exact ⟨_, Image.get_eq_ok hx hy⟩

/-! ## 2. The logo -/

/-- The logo has its corner at column `x`, row `y`: it is inside the canvas, and its margins on
    opposite sides differ by one pixel at most. -/
structure LogoCentred (r : Renderer α) (logo : Image) (x y : Nat) : Prop where
  origin : r.logoOrigin = .ok (some (x, y))
  columns : ∃ right, x + logo.width + right = r.width ∧ x ≤ right ∧ right ≤ x + 1
  rows : ∃ bottom, y + logo.height + bottom = r.height ∧ y ≤ bottom ∧ bottom ≤ y + 1

/-- What is left of a length on both sides of a shorter one in its middle. -/
theorem exists_margin {part whole : Nat} (h : part ≤ whole) :
    ∃ rest, (whole - part) / 2 + part + rest = whole ∧ (whole - part) / 2 ≤ rest ∧
      rest ≤ (whole - part) / 2 + 1 :=
  ⟨whole - part - (whole - part) / 2, by omega, by omega, by omega⟩

theorem logoCentred {r : Renderer α} (hr : r.Sound) {logo : Image} (hlogo : r.logo = some logo) :
    r.LogoCentred logo (r.logoCorner logo).1 (r.logoCorner logo).2 := by
  obtain ⟨hw, hh⟩ := hr.logo_fits logo hlogo
  have hm := hr.options.logoMultiplier_pos
  constructor
  · rw [logoOrigin_eq hr, hlogo]
    rfl
  · exact exists_margin (Nat.le_trans (Nat.le_mul_of_pos_right _ hm) hw)
  · exact exists_margin (Nat.le_trans (Nat.le_mul_of_pos_right _ hm) hh)

/-! ## 3. Lengths to divide by -/

/-- The view divides by a positive length. -/
theorem view_scale [Add α] [Sub α] [Mul α] [Div α] [NatCast α] {r : Renderer α} {side : Nat}
    (h : r.options.resolution = some side) :
    ∃ n, 0 < n ∧ r.view.scale = (side : α) / ((n : Nat) : α) := by
  refine ⟨max (max r.width r.height) 1, Nat.lt_of_lt_of_le Nat.one_pos (Nat.le_max_right ..), ?_⟩
  rw [view_of_resolution h]
  rfl

end Renderer

/-- A logo is scaled only if it has pixels, so that both sides can be divided by. -/
theorem Options.fitLogo_ne [Mul α] [Div α] [NatCast α] [LT α] [DecidableLT α] [Numeric α]
    {logo : Image} {maxW maxH : Nat} (h : fitLogo α logo maxW maxH ≠ logo) :
    0 < logo.width ∧ 0 < logo.height := by
  by_contra hnot
  have hempty : logo.width = 0 ∨ logo.height = 0 := by omega
  exact h (if_pos hempty)

/-! ## 4. Pictures -/

namespace Renderer

variable [Add α] [Sub α] [Mul α] [Div α] [NatCast α] [LT α] [DecidableLT α]
  [LE α] [DecidableLE α] [Numeric α]

/-- Every part of a render has an answer: the zone around the logo, the bits, the outcomes, the
    calls, the commands and the statistics. -/
structure Answers (r : Renderer α) : Prop where
  bits : ∃ zone occupancy, r.safeZone = .ok zone ∧ r.occupancy zone = .ok occupancy
  outcomes : ∃ outcomes, r.outcomes = .ok outcomes
  calls : ∃ calls, r.calls = .ok calls
  commands : ∃ commands, r.commands = .ok commands
  stats : ∃ stats, r.stats = .ok stats

omit [LE α] [DecidableLE α] [Numeric α] in
theorem answers {r : Renderer α} (hr : r.Sound) : r.Answers := by
  obtain ⟨zone, occupancy, hzone, hoccupancy, houtcomes⟩ := outcomes_eq hr
  have hcalls := calls_eq_of_outcomes houtcomes
  refine ⟨⟨zone, occupancy, hzone, hoccupancy⟩, ⟨_, houtcomes⟩, ⟨_, hcalls⟩, ?_,
    ⟨_, stats_eq_of_outcomes houtcomes⟩⟩
  rw [Renderer.commands, hcalls]
  exact ⟨_, rfl⟩

/-- The pictures of a render are there: at the size of the output, without and with the logo, and
    at the size of the canvas. -/
structure HasPictures (r : Renderer α) : Prop where
  modules : ∃ img, r.rasterize = .ok img ∧ (img.width, img.height) = r.outputSize
  unscaled : ∃ img, r.rasterizeUnscaled = .ok img ∧ (img.width, img.height) = (r.width, r.height)
  image : ∃ img, r.image = .ok img ∧ (img.width, img.height) = r.outputSize

/-- There are pictures as soon as there are colours. -/
theorem hasPictures {r : Renderer α} (hr : r.Sound)
    (hcolors : (Surface.mk r.view r.options.gradient).HasColors r.outputSize.1 r.outputSize.2)
    (hunscaled : (Surface.mk View.identity r.options.gradient).HasColors r.width r.height) :
    r.HasPictures := by
  obtain ⟨cs, hcs⟩ := (answers hr).commands
  obtain ⟨img, himg, hw, hh⟩ := rasterizeIn_isOk hcs hcolors
  obtain ⟨img', himg', hw', hh'⟩ := rasterizeIn_isOk hcs hunscaled
  obtain ⟨out, hout, hwout, hhout⟩ := image_isOk himg (logoOrigin_eq hr)
  exact ⟨⟨img, himg, Prod.ext hw hh⟩, ⟨img', himg', Prod.ext hw' hh'⟩,
    ⟨out, hout, Prod.ext (hwout.trans hw) (hhout.trans hh)⟩⟩

/-- **Without a gradient nothing fails.** With built options every grid has a renderer, and every
    part of its render and all of its pictures have an answer. The view, the size check and the
    scaling of a logo divide by positive lengths only, the edges and the boxes of the sub-cells are
    there, every module reads pixels of the halftone that no other module reads, and the logo lies
    in the middle of the canvas. -/
theorem pictures_isOk {files : String → Except String Picture} {b : Builder α} {o : Options α}
    (h : b.build files = .ok o) (hgradient : o.gradient = none) (g : Grid) :
    ∃ r, ofOptions o g = .ok r ∧ r.options = o ∧ r.grid = g ∧ r.Answers ∧ r.HasPictures ∧
      (0 < o.blockWidth ∧ 0 < o.logoMultiplier) ∧
      (∀ side, o.resolution = some side →
        0 < side ∧ ∃ n, 0 < n ∧ r.view.scale = (side : α) / ((n : Nat) : α)) ∧
      (∀ logo maxW maxH, Options.fitLogo α logo maxW maxH ≠ logo →
        0 < logo.width ∧ 0 < logo.height) ∧
      (∃ bounds, subCellBounds o.blockWidth = .ok bounds ∧
        ∀ place ∈ subCellPlaces, ∃ box, subCellBox bounds place = .ok box) ∧
      (∀ halftone, r.halftone = some halftone → r.HalftoneFits halftone) ∧
      ∃ origin, r.logoOrigin = .ok origin ∧
        ∀ logo, r.logo = some logo → ∃ x y, origin = some (x, y) ∧ r.LogoCentred logo x y := by
  obtain ⟨r, hr, rfl, rfl, hsound⟩ := ofOptions_sound (Builder.build_sound h) g
  have hcolors : ∀ view w h, (Surface.mk view r.options.gradient).HasColors w h :=
    fun view w h => Surface.hasColors_of_none (s := ⟨view, r.options.gradient⟩) hgradient w h
  refine ⟨r, hr, rfl, rfl, answers hsound, hasPictures hsound (hcolors _ _ _) (hcolors _ _ _),
    ⟨hsound.options.blockWidth_pos, hsound.options.logoMultiplier_pos⟩,
    fun side hside => ⟨hsound.options.resolution_pos side hside, view_scale hside⟩,
    fun _ _ _ => Options.fitLogo_ne, ⟨_, subCellBounds_eq _, fun place hplace =>
      ⟨_, subCellBox_eq _ hplace⟩⟩, fun _ => halftoneFits hsound, _, logoOrigin_eq hsound, ?_⟩
  intro logo hlogo
  exact ⟨_, _, by rw [hlogo]; rfl, logoCentred hsound hlogo⟩

/-- Blocks of one pixel without a border, at a fixed size, with a logo and a halftone. -/
theorem pictures_isOk_small :
    let p := Picture.ofFn .gray 1 1 fun _ _ _ => 0
    let b : Builder Float := Builder.ofSettings
      [.blockWidth 1, .border [0], .logo p, .logoFit true, .logoMultiplier 0, .logoSafeZone true,
        .halftone p, .resolution 3]
    ∃ o, b.build (fun _ => .error "missing") = .ok o ∧ o.gradient = none ∧
      ∃ r img, ofOptions o (Grid.blank 7 2) = .ok r ∧ r.image = .ok img ∧ img.width = 3 ∧
        img.height = 3 := by
  intro p b
  obtain ⟨o, ho⟩ : ∃ o, b.build (fun _ => .error "missing") = .ok o := ⟨_, rfl⟩
  have hgradient : o.gradient = none := by
    obtain rfl := Except.ok.inj ho
    rfl
  obtain ⟨r, hr, hoptions, -, -, hpictures, -⟩ :=
    pictures_isOk ho hgradient (Grid.blank 7 2)
  have houtput : r.outputSize = (3, 3) := by
    obtain rfl := Except.ok.inj ho
    rw [outputSize, hoptions]
    rfl
  obtain ⟨img, himg, hsize⟩ := hpictures.image
  rw [houtput] at hsize
  obtain ⟨hw, hh⟩ := Prod.mk.inj hsize
  exact ⟨o, ho, hgradient, r, img, hr, himg, hw, hh⟩

end Renderer

end QrRender
