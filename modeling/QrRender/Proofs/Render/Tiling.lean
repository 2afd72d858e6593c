import Mathlib.Data.List.Forall2
import QrRender.Proofs.Render.Total

/-!
# Cells without overlap

A render hands one cell after the other to the shape: whole modules, and sub-cells of modules that
are split. The cells of one module stay in its block, and the blocks of different modules are
disjoint, so that no two cells of a render have a pixel in common.

* `Renderer.Placed`: what the calls of one module have to do with its block;
* `Renderer.outcomeOf_placed`: the calls of every outcome are placed in the block of their module;
* `Renderer.LaidOut`: the same of a whole render, and of its calls among each other;
* **`Renderer.render_tiles`**: with built options every grid is rendered, its calls are laid out
  without overlap, and both the blocks of the modules and the sub-cells of a block tile.
-/

namespace QrRender.Renderer

variable {α : Type}

/-! ## 1. The calls of one module -/

/-- The calls are cells with pixels inside the block of the module, no two with a pixel in
    common. -/
structure Placed (r : Renderer α) (c : GridCell) (calls : List ShapeCall) : Prop where
  nonempty : ∀ call ∈ calls, call.box.Nonempty
  inside : ∀ call ∈ calls, call.box.Within (r.block c.column c.row)
  disjoint : calls.Pairwise fun a b => a.box.Disjoint b.box

theorem placed_nil (r : Renderer α) (c : GridCell) : r.Placed c [] where
  nonempty _ h := absurd h List.not_mem_nil
  inside _ h := absurd h List.not_mem_nil
  disjoint := List.Pairwise.nil

/-- A module drawn whole fills its block. -/
theorem placed_whole {r : Renderer α} (hb : 0 < r.options.blockWidth) {c : GridCell}
    {call : ShapeCall} (hcall : call.box = r.block c.column c.row) : r.Placed c [call] where
  nonempty d hd := by
    rw [List.mem_singleton.mp hd, hcall]
    exact block_nonempty hb c.column c.row
  inside d hd := by
    rw [List.mem_singleton.mp hd, hcall]
    exact fun _ _ h => h
  disjoint := List.pairwise_singleton _ _

/-- The call for a sub-cell has pixels, and they are those of its place in the block. -/
theorem box_of_subCellCall? {r : Renderer α} {halftone : Image} {c : GridCell}
    {neighbours : Neighbours} {place : Nat × Nat} {call : ShapeCall}
    (h : r.subCellCall? halftone c neighbours place = some call) :
    call.box.Nonempty ∧ call.box = (subCellBlock r.options.blockWidth place).translate
      (r.blockOrigin c.column c.row).1 (r.blockOrigin c.column c.row).2 := by
  simp only [subCellCall?, Option.ite_none_left_eq_some, Option.some.injEq, not_or] at h
  obtain ⟨-, ⟨hwidth, hheight⟩, rfl⟩ := h
  exact ⟨⟨Nat.pos_of_ne_zero hwidth, Nat.pos_of_ne_zero hheight⟩, rfl⟩

/-- The call for a sub-cell is drawn with the paint of its place. -/
theorem paint_of_subCellCall? {r : Renderer α} {halftone : Image} {c : GridCell}
    {neighbours : Neighbours} {place : Nat × Nat} {call : ShapeCall}
    (h : r.subCellCall? halftone c neighbours place = some call) :
    call.paint = r.paintAt halftone c place := by
  simp only [subCellCall?, Option.ite_none_left_eq_some, Option.some.injEq] at h
  obtain ⟨-, -, rfl⟩ := h
  rfl

/-- The sub-cells of a module are placed in its block. -/
theorem placed_split (r : Renderer α) (halftone : Image) (c : GridCell) (neighbours : Neighbours) :
    r.Placed c (subCellPlaces.filterMap (r.subCellCall? halftone c neighbours)) where
  nonempty call hcall := by
    obtain ⟨place, -, hsome⟩ := List.mem_filterMap.mp hcall
    exact (box_of_subCellCall? hsome).1
  inside call hcall := by
    obtain ⟨place, hplace, hsome⟩ := List.mem_filterMap.mp hcall
    intro px py h
    rw [(box_of_subCellCall? hsome).2, Box.contains_translate] at h
    obtain ⟨hx, hy, hin⟩ := h
    exact Box.contains_translate.mpr ⟨hx, hy, subCellBlock_within hplace _ _ hin⟩
  disjoint := by
    have hnodup : subCellPlaces.Nodup := by decide
    rw [List.pairwise_filterMap]
    refine List.Pairwise.imp_of_mem ?_ hnodup
    intro place place' hplace hplace' hne a ha b hb
    rw [(box_of_subCellCall? ha).2, (box_of_subCellCall? hb).2]
    exact (subCellBlock_disjoint hplace hplace' hne).translate _ _

/-- **The calls of every outcome are placed in the block of their module.** -/
theorem outcomeOf_placed {r : Renderer α} (hb : 0 < r.options.blockWidth) (zone : Option Zone)
    (occupancy : Occupancy) (c : GridCell) :
    r.Placed c (r.outcomeOf zone occupancy c).calls := by
  obtain ⟨-, h⟩ | ⟨-, halftone, -, -, h⟩ | ⟨-, -, ⟨-, h⟩ | ⟨-, h⟩⟩ :=
    outcomeOf_cases r zone occupancy c
  · rw [h]
    exact placed_nil r c
  · rw [h]
    exact placed_split r halftone c _
  · rw [h]
    exact placed_whole hb rfl
  · rw [h]
    exact placed_nil r c

/-- A hidden module has no calls. -/
theorem not_hidden_of_mem {r : Renderer α} {zone : Option Zone} {occupancy : Occupancy}
    {c : GridCell} {call : ShapeCall} (h : call ∈ (r.outcomeOf zone occupancy c).calls) :
    r.isHidden zone c.column c.row = false := by
  obtain ⟨-, houtcome⟩ | ⟨hshown, -⟩ | ⟨hshown, -⟩ := outcomeOf_cases r zone occupancy c
  · rw [houtcome] at h
    exact absurd h List.not_mem_nil
  · exact hshown
  · exact hshown

/-! ## 2. The calls of a render -/

/-- The calls of a render are laid out without overlap: they have pixels, no two have one in
    common, each is inside the block of its own module and inside the borders, and none is in the
    box of the logo grown by two blocks, where there is a logo to be kept clear of. -/
structure LaidOut (r : Renderer α) (outcomes : List Outcome) : Prop where
  nonempty : ∀ call ∈ outcomes.flatMap Outcome.calls, call.box.Nonempty
  disjoint : (outcomes.flatMap Outcome.calls).Pairwise fun a b => a.box.Disjoint b.box
  inBlock : List.Forall₂
    (fun c outcome => ∀ call ∈ outcome.calls, call.box.Within (r.block c.column c.row))
    r.grid.cells outcomes
  inInterior : ∀ call ∈ outcomes.flatMap Outcome.calls, call.box.Within r.interior
  offLogo : r.options.logoSafeZone = true → ∀ logo, r.logo = some logo →
    ∃ x y, r.logoOrigin = .ok (some (x, y)) ∧
      ∀ call ∈ outcomes.flatMap Outcome.calls, ∀ px py, call.box.Contains px py →
        ¬ (Zone.mk (x - 2 * r.options.blockWidth) (y - 2 * r.options.blockWidth)
            (x + logo.width + 2 * r.options.blockWidth)
            (y + logo.height + 2 * r.options.blockWidth)).Contains px py

/-- The calls of a render are on the canvas. -/
theorem LaidOut.inCanvas {r : Renderer α} {outcomes : List Outcome} (h : r.LaidOut outcomes) :
    ∀ call ∈ outcomes.flatMap Outcome.calls, call.box.Within ⟨0, 0, r.width, r.height⟩ :=
  fun call hcall => (h.inInterior call hcall).trans r.interior_within

/-- The outcomes of the cells are laid out without overlap. -/
theorem laidOut_outcomes {r : Renderer α} (hr : r.Sound) (occupancy : Occupancy) {zone : Option Zone}
    (hzone : r.safeZone = .ok zone) :
    r.LaidOut (r.grid.cells.map (r.outcomeOf zone occupancy)) := by
  have hb := hr.options.blockWidth_pos
  have hplaced := outcomeOf_placed hb zone occupancy
  have hmem : ∀ call, call ∈ (r.grid.cells.map (r.outcomeOf zone occupancy)).flatMap Outcome.calls →
      ∃ c ∈ r.grid.cells, call ∈ (r.outcomeOf zone occupancy c).calls := by
    intro call hcall
    rw [List.flatMap_map] at hcall
    exact List.mem_flatMap.mp hcall
  refine ⟨?_, ?_, ?_, ?_, ?_⟩
  · intro call hcall
    obtain ⟨c, -, hc⟩ := hmem call hcall
    exact (hplaced c).nonempty call hc
  · rw [List.flatMap_map, List.pairwise_flatMap]
    refine ⟨fun c _ => (hplaced c).disjoint, (List.pairwise_map.mp r.grid.nodup_places).imp ?_⟩
    intro c c' hne a ha b hb'
    exact (block_disjoint hb hne).mono ((hplaced c).inside a ha) ((hplaced c').inside b hb')
  · rw [List.forall₂_map_right_iff, List.forall₂_same]
    exact fun c _ => (hplaced c).inside
  · intro call hcall
    obtain ⟨c, hc, hin⟩ := hmem call hcall
    exact ((hplaced c).inside call hin).trans (block_within hb hc)
  · intro hsafe logo hlogo
    refine ⟨_, _, by rw [logoOrigin_eq hr, hlogo]; rfl, ?_⟩
    intro call hcall px py hpixel
    obtain ⟨c, -, hin⟩ := hmem call hcall
    have hhidden := not_hidden_of_mem hin
    rw [safeZone_eq hr, if_pos hsafe, hlogo] at hzone
    cases hzone
    exact Zone.not_contains_of_not_touches hhidden ((hplaced c).inside call hin px py hpixel)

/-! ## 3. Renders of built options -/

variable [Mul α] [Div α] [NatCast α] [LT α] [DecidableLT α] [Numeric α]

/-- **The cells of one render tile without overlap.** With built options every grid has a renderer
    whose render has an answer and whose calls are laid out without overlap; the blocks of the
    modules tile the canvas without its borders; and the sub-cells of a block of any width that have
    pixels tile the block, the one in the middle among them. -/
theorem render_tiles {files : String → Except String Picture} {b : Builder α} {o : Options α}
    (h : b.build files = .ok o) (g : Grid) :
    (∃ r outcomes, ofOptions o g = .ok r ∧ r.options = o ∧ r.grid = g ∧
      r.outcomes = .ok outcomes ∧ r.calls = .ok (outcomes.flatMap Outcome.calls) ∧
      r.LaidOut outcomes ∧
      (∀ px py, r.interior.Contains px py ↔
        (o.border.left ≤ px ∧ px < r.width - o.border.right) ∧
          (o.border.top ≤ py ∧ py < r.height - o.border.bottom)) ∧
      Box.Tiles (g.cells.map fun c => r.block c.column c.row) r.interior) ∧
    ∀ w, 0 < w → ∃ bounds boxes centre, subCellBounds w = .ok bounds ∧
      subCellPlaces.mapM (subCellBox bounds) = .ok boxes ∧
      Box.Tiles (boxes.filter fun b => b.Nonempty) ⟨0, 0, w, w⟩ ∧
      subCellBox bounds (1, 1) = .ok centre ∧ centre.Nonempty := by
  constructor
  · obtain ⟨r, hr, rfl, rfl, hsound⟩ := ofOptions_sound (Builder.build_sound h) g
    obtain ⟨zone, occupancy, hzone, -, houtcomes⟩ := outcomes_eq hsound
    refine ⟨r, _, hr, rfl, rfl, houtcomes, ?_, laidOut_outcomes hsound occupancy hzone,
      fun px py => contains_interior, tiles_blocks hsound.options.blockWidth_pos⟩
    rw [calls, houtcomes]
    rfl
  · intro w hw
    exact ⟨_, _, _, subCellBounds_eq w, Checked.mapM_eq_ok fun _ => subCellBox_eq w,
      tiles_subCells w, subCellBox_eq w (by decide), subCellBlock_centre hw⟩

/-- Blocks of four pixels, a halftone, and a logo to be kept clear of. -/
theorem render_tiles_with_logo :
    let p := Picture.ofFn .gray 1 1 fun _ _ _ => 0
    let b : Builder Float :=
      Builder.ofSettings [.blockWidth 4, .logo p, .logoSafeZone true, .halftone p]
    ∃ o, b.build (fun _ => .error "missing") = .ok o ∧ o.logoSafeZone = true ∧
      ∃ r outcomes, ofOptions o (Grid.blank 9 9) = .ok r ∧ r.outcomes = .ok outcomes ∧
        r.LaidOut outcomes := by
  intro p b
  obtain ⟨o, ho⟩ : ∃ o, b.build (fun _ => .error "missing") = .ok o := ⟨_, rfl⟩
  obtain ⟨⟨r, outcomes, hr, -, -, houtcomes, -, hlaid, -⟩, -⟩ := render_tiles ho (Grid.blank 9 9)
  have hsafe : o.logoSafeZone = true := by
    obtain ⟨-, _, _, _, _, -, -, -, -, rfl⟩ := Builder.build_eq_ok ho
    rfl
  exact ⟨o, ho, hsafe, r, outcomes, hr, houtcomes, hlaid⟩

end QrRender.Renderer
