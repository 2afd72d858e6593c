import QrRender.Proofs.Occupancy.Cleared
import QrRender.Proofs.Options.Built
import QrRender.Proofs.Render.Blocks

/-!
# Renders that cannot fail

With sound options every grid has a renderer, and no step of a render is without an answer: the
logo is not larger than the canvas, every module has its bit and its three by three pixels of the
halftone, and every sub-cell has its edges. A render is then a function of its cells:

* `Renderer.Sound`: what a renderer says of its logo and its halftone;
* `Renderer.ofOptions_sound`: with sound options there is a renderer, and it is sound;
* `Renderer.safeZone_eq`, `Renderer.occupancy_spec`: the zone around the logo, and the bits of the
  dark modules that are not hidden in it;
* `Renderer.outcomeOf`: what becomes of a module, without the answers that are never missing;
* **`Renderer.outcomes_eq`**: the outcomes of a sound renderer are those of its cells;
* `RenderStats.foldl_record`: statistics as counts of outcomes.
-/

namespace QrRender

variable {α : Type}

/-! ## 1. Sound renderers -/

/-- A logo that fits the canvas as often as the options ask, and three by three pixels of the
    halftone for every module. -/
structure Renderer.Sound (r : Renderer α) : Prop where
  options : r.options.Sound
  logo_fits : ∀ logo, r.logo = some logo →
    logo.width * r.options.logoMultiplier ≤ r.width ∧
      logo.height * r.options.logoMultiplier ≤ r.height
  halftone_size : ∀ halftone, r.halftone = some halftone →
    halftone.width = 3 * r.grid.width ∧ halftone.height = 3 * r.grid.height

/-- A halftone is opaque. -/
theorem Halftone.isOpaque_prepare {p : Picture} {columns rows : Nat} {threshold : Int}
    {x y : Nat} {c : Rgba} (h : (prepare p columns rows threshold).pixel? x y = some c) :
    c.isOpaque = true := by
  rw [prepare, Picture.toImage, Image.pixel?_ofFn] at h
  split at h
  · rw [← Option.some.inj h]
    rfl
  · cases h

section OfOptions

variable [Mul α] [Div α] [NatCast α] [LT α] [DecidableLT α] [Numeric α]

theorem Options.scaledLogo_isOk {o : Options α} (ho : o.Sound) (logo : Image)
    (symbolW symbolH : Nat) : ∃ scaled, o.scaledLogo logo symbolW symbolH = .ok scaled := by
  have hm : o.logoMultiplier ≠ 0 := Nat.ne_of_gt ho.logoMultiplier_pos
  unfold scaledLogo
  rw [Checked.div_eq_ok hm, Checked.div_eq_ok hm]
  split <;> exact ⟨_, rfl⟩

/-- The size check of a logo has an answer, and what passes it fits. -/
theorem Options.logoFor_isOk {o : Options α} (ho : o.Sound) (w h symbolW symbolH : Nat) :
    ∃ logo, o.logoFor w h symbolW symbolH = .ok logo ∧
      ∀ l, logo = some l → l.width * o.logoMultiplier ≤ w ∧ l.height * o.logoMultiplier ≤ h := by
  unfold logoFor
  cases o.logo with
  | none => exact ⟨none, rfl, fun l hl => nomatch hl⟩
  | some given =>
    obtain ⟨scaled, hscaled⟩ := scaledLogo_isOk ho given symbolW symbolH
    simp only [hscaled]
    by_cases hlarge : scaled.width * o.logoMultiplier > w ∨ scaled.height * o.logoMultiplier > h
    · exact ⟨none, if_pos hlarge, fun l hl => nomatch hl⟩
    · refine ⟨some scaled, if_neg hlarge, fun l hl => ?_⟩
      cases hl
      omega

/-- **With sound options every grid has a renderer.** -/
theorem Renderer.ofOptions_sound {o : Options α} (ho : o.Sound) (g : Grid) :
    ∃ r, Renderer.ofOptions o g = .ok r ∧ r.options = o ∧ r.grid = g ∧ r.Sound := by
  obtain ⟨logo, hlogo, hfits⟩ := Options.logoFor_isOk ho (canvasWidth o g) (canvasHeight o g)
    (g.width * o.blockWidth) (g.height * o.blockWidth)
  unfold Renderer.ofOptions
  simp only [hlogo]
  refine ⟨_, rfl, rfl, rfl, ho, hfits, fun halftone hhalftone => ?_⟩
  obtain ⟨p, -, rfl⟩ := Option.map_eq_some_iff.mp hhalftone
  exact Halftone.size_prepare p g.width g.height o.halftoneThreshold

/-- Without a halftone in the options there is none in the renderer. -/
theorem Renderer.halftone_eq_none {o : Options α} {g : Grid} {r : Renderer α}
    (h : Renderer.ofOptions o g = .ok r) (hnone : o.halftone = none) : r.halftone = none := by
  obtain ⟨logo, -, h⟩ := Checked.bind_eq_ok h
  rw [← Except.ok.inj h, hnone]
  rfl

/-- The halftone of a renderer is opaque. -/
theorem Renderer.isOpaque_halftone {o : Options α} {g : Grid} {r : Renderer α}
    (h : Renderer.ofOptions o g = .ok r) {halftone : Image} (hhalftone : r.halftone = some halftone)
    {x y : Nat} {c : Rgba} (hc : halftone.pixel? x y = some c) : c.isOpaque = true := by
  obtain ⟨logo, -, h⟩ := Checked.bind_eq_ok h
  obtain rfl := Except.ok.inj h
  obtain ⟨p, -, rfl⟩ := Option.map_eq_some_iff.mp hhalftone
  exact Halftone.isOpaque_prepare hc

end OfOptions

namespace Renderer

/-! ## 2. The zone around the logo -/

/-- The corner of a logo in the middle of the canvas. -/
def logoCorner (r : Renderer α) (logo : Image) : Nat × Nat :=
  ((r.width - logo.width) / 2, (r.height - logo.height) / 2)

/-- The box of a logo, grown by two blocks on every side. -/
def zoneAround (r : Renderer α) (logo : Image) : Zone :=
  let (x, y) := r.logoCorner logo
  let pad : Int := 2 * r.options.blockWidth
  ⟨x - pad, y - pad, x + logo.width + pad, y + logo.height + pad⟩

theorem logoOrigin_eq {r : Renderer α} (hr : r.Sound) :
    r.logoOrigin = .ok (r.logo.map r.logoCorner) := by
  unfold logoOrigin
  cases hlogo : r.logo with
  | none => rfl
  | some logo =>
    obtain ⟨hw, hh⟩ := hr.logo_fits logo hlogo
    have hm := hr.options.logoMultiplier_pos
    have hwidth : logo.width ≤ r.width := Nat.le_trans (Nat.le_mul_of_pos_right _ hm) hw
    have hheight : logo.height ≤ r.height := Nat.le_trans (Nat.le_mul_of_pos_right _ hm) hh
    show (do
      let marginX ← Checked.sub r.width logo.width
      let marginY ← Checked.sub r.height logo.height
      return some (marginX / 2, marginY / 2)) = _
    rw [Checked.sub_eq_ok hwidth, Checked.sub_eq_ok hheight]
    rfl

theorem safeZone_eq {r : Renderer α} (hr : r.Sound) :
    r.safeZone =
      .ok (if r.options.logoSafeZone then r.logo.map r.zoneAround else none) := by
  unfold safeZone
  rw [logoOrigin_eq hr]
  cases r.options.logoSafeZone with
  | false => rfl
  | true =>
    cases hlogo : r.logo with
    | none => rfl
    | some logo => rfl

/-! ## 3. Bits -/

/-- The columns and rows of the modules that are hidden. -/
def hiddenPlaces (r : Renderer α) (zone : Option Zone) : List (Nat × Nat) :=
  (r.grid.cells.filter fun c => r.isHidden zone c.column c.row).map fun c => (c.column, c.row)

theorem occupancy_eq_clearAll (r : Renderer α) (zone : Option Zone) :
    r.occupancy zone = (Occupancy.ofGrid r.grid).clearAll (r.hiddenPlaces zone) := by
  simp only [occupancy, Occupancy.clearAll, hiddenPlaces, List.foldlM_map, List.foldlM_filter]

theorem mem_hiddenPlaces {r : Renderer α} {zone : Option Zone} {c : GridCell}
    (hc : c ∈ r.grid.cells) :
    (c.column, c.row) ∈ r.hiddenPlaces zone ↔ r.isHidden zone c.column c.row = true := by
  simp only [hiddenPlaces, List.mem_map, List.mem_filter, Prod.mk.injEq]
  constructor
  · intro h
    obtain ⟨d, ⟨-, hd⟩, hx, hy⟩ := h
    rwa [hx, hy] at hd
  · intro h
    exact ⟨c, ⟨hc, h⟩, rfl, rfl⟩

theorem hiddenPlaces_lt (r : Renderer α) {zone : Option Zone} :
    ∀ p ∈ r.hiddenPlaces zone, p.1 < r.grid.width ∧ p.2 < r.grid.height := by
  intro p hp
  obtain ⟨c, hc, rfl⟩ := List.mem_map.mp hp
  exact (Grid.mem_cells.mp (List.mem_filter.mp hc).1).1

/-- The bits of a render are those of the dark modules that are not hidden. -/
theorem occupancy_spec (r : Renderer α) (zone : Option Zone) :
    ∃ occupancy, r.occupancy zone = .ok occupancy ∧
      occupancy.width = r.grid.width ∧ occupancy.height = r.grid.height ∧
      ∀ c ∈ r.grid.cells, occupancy.isSet c.column c.row =
        (c.content.dark && !r.isHidden zone c.column c.row) := by
  obtain ⟨occupancy, hoccupancy, hw, hh, hbits⟩ :=
    Occupancy.clearAll_spec (o := Occupancy.ofGrid r.grid) r.hiddenPlaces_lt
  refine ⟨occupancy, (r.occupancy_eq_clearAll zone).trans hoccupancy, hw, hh, fun c hc => ?_⟩
  obtain ⟨⟨hx, hy⟩, hm⟩ := Grid.mem_cells.mp hc
  have hcontains : (r.hiddenPlaces zone).contains (c.column, c.row) =
      r.isHidden zone c.column c.row := by
    rw [Bool.eq_iff_iff, List.contains_iff_mem, mem_hiddenPlaces hc]
  rw [hbits _ _ hx hy, Occupancy.isSet_ofGrid hx hy hm, hcontains]

/-! ## 4. Outcomes -/

/-- The paint of a sub-cell. -/
def paintAt (r : Renderer α) (halftone : Image) (c : GridCell) (place : Nat × Nat) : Paint :=
  if place = (1, 1) then r.paint c.content
  else .solid
    ((halftone.pixel? (3 * c.column + place.1) (3 * c.row + place.2)).getD default)

/-- The call for one sub-cell, unless it is background or has no pixels. -/
def subCellCall? (r : Renderer α) (halftone : Image) (c : GridCell) (neighbours : Neighbours)
    (place : Nat × Nat) : Option ShapeCall :=
  let paint := r.paintAt halftone c place
  let box := subCellBlock r.options.blockWidth place
  if r.options.elision.isBackground paint.flat then none
  else if box.width = 0 ∨ box.height = 0 then none
  else
    let (bx, by_) := r.blockOrigin c.column c.row
    some ⟨bx + box.x, by_ + box.y, box.width, box.height, paint, neighbours, false⟩

/-- The call for a whole module. -/
def wholeCall (r : Renderer α) (occupancy : Occupancy) (c : GridCell) : ShapeCall :=
  let (x, y) := r.blockOrigin c.column c.row
  let w := r.options.blockWidth
  ⟨x, y, w, w, r.paint c.content, occupancy.neighbours c.column c.row, c.content.kind == .finder⟩

/-- What becomes of a module. -/
def outcomeOf (r : Renderer α) (zone : Option Zone) (occupancy : Occupancy) (c : GridCell) :
    Outcome :=
  let neighbours := occupancy.neighbours c.column c.row
  if r.isHidden zone c.column c.row then .hidden
  else
    match r.halftone, c.content.kind with
    | some halftone, .data =>
      .split (subCellPlaces.filterMap (r.subCellCall? halftone c neighbours))
    | _, kind =>
      if c.content.dark then
        let (x, y) := r.blockOrigin c.column c.row
        let w := r.options.blockWidth
        .whole ⟨x, y, w, w, r.paint c.content, neighbours, kind == .finder⟩
      else .blank

/-- **Every module has one of four outcomes**: it is hidden, split into sub-cells, drawn whole or
    left out. -/
theorem outcomeOf_cases (r : Renderer α) (zone : Option Zone) (occupancy : Occupancy)
    (c : GridCell) :
    (r.isHidden zone c.column c.row = true ∧ r.outcomeOf zone occupancy c = .hidden) ∨
    (r.isHidden zone c.column c.row = false ∧ ∃ halftone, r.halftone = some halftone ∧
      c.content.kind = .data ∧ r.outcomeOf zone occupancy c = .split (subCellPlaces.filterMap
        (r.subCellCall? halftone c (occupancy.neighbours c.column c.row)))) ∨
    (r.isHidden zone c.column c.row = false ∧ ¬(r.halftone.isSome ∧ c.content.kind = .data) ∧
      (c.content.dark = true ∧ r.outcomeOf zone occupancy c = .whole (r.wholeCall occupancy c) ∨
        c.content.dark = false ∧ r.outcomeOf zone occupancy c = .blank)) := by
  unfold outcomeOf
  simp only
  split
  · rename_i hhidden
    exact .inl ⟨hhidden, rfl⟩
  rename_i hhidden
  have hshown := Bool.eq_false_iff.mpr hhidden
  split
  · rename_i halftone hhalftone hdata
    exact .inr (.inl ⟨hshown, halftone, hhalftone, hdata, rfl⟩)
  rename_i hnot
  have hwhole : ¬(r.halftone.isSome ∧ c.content.kind = .data) := by
    intro h
    obtain ⟨halftone, hhalftone⟩ := Option.isSome_iff_exists.mp h.1
    exact hnot halftone hhalftone h.2
  refine .inr (.inr ⟨hshown, hwhole, ?_⟩)
  split
  · rename_i hdark
    exact .inl ⟨hdark, rfl⟩
  · rename_i hlight
    exact .inr ⟨Bool.eq_false_iff.mpr hlight, rfl⟩

/-- Every place of a module has its pixel in the halftone. -/
theorem Sound.sample_lt {r : Renderer α} (hr : r.Sound) {halftone : Image}
    (hhalftone : r.halftone = some halftone) {c : GridCell} (hc : c ∈ r.grid.cells)
    {place : Nat × Nat} (hplace : place ∈ subCellPlaces) :
    3 * c.column + place.1 < halftone.width ∧ 3 * c.row + place.2 < halftone.height := by
  obtain ⟨⟨hx, hy⟩, -⟩ := Grid.mem_cells.mp hc
  obtain ⟨hwidth, hheight⟩ := hr.halftone_size halftone hhalftone
  obtain ⟨hi, hj⟩ := mem_subCellPlaces.mp hplace
  omega

theorem subCellPaint_eq {r : Renderer α} (hr : r.Sound) {halftone : Image}
    (hhalftone : r.halftone = some halftone) {c : GridCell} (hc : c ∈ r.grid.cells)
    {place : Nat × Nat} (hplace : place ∈ subCellPlaces) :
    r.subCellPaint halftone c place = .ok (r.paintAt halftone c place) := by
  obtain ⟨hx, hy⟩ := hr.sample_lt hhalftone hc hplace
  unfold subCellPaint paintAt
  by_cases hcentre : place = (1, 1)
  · rw [if_pos hcentre, if_pos hcentre]
    rfl
  · rw [if_neg hcentre, if_neg hcentre, Image.get_eq_ok hx hy]
    rfl

theorem subCell_eq {r : Renderer α} (hr : r.Sound) {halftone : Image}
    (hhalftone : r.halftone = some halftone) {c : GridCell} (hc : c ∈ r.grid.cells)
    (neighbours : Neighbours) {place : Nat × Nat} (hplace : place ∈ subCellPlaces) :
    r.subCell halftone ((List.range 4).map (subCellEdge r.options.blockWidth)) c neighbours place =
      .ok (r.subCellCall? halftone c neighbours place) := by
  unfold subCell subCellCall?
  rw [subCellPaint_eq hr hhalftone hc hplace, subCellBox_eq _ hplace]
  by_cases hback : r.options.elision.isBackground (r.paintAt halftone c place).flat = true
  · rw [if_pos hback]
    exact if_pos hback
  rw [if_neg hback]
  refine (if_neg hback).trans ?_
  by_cases hempty : (subCellBlock r.options.blockWidth place).width = 0 ∨
      (subCellBlock r.options.blockWidth place).height = 0
  · rw [if_pos hempty]
    exact if_pos hempty
  · rw [if_neg hempty]
    exact if_neg hempty

theorem outcome_eq {r : Renderer α} (hr : r.Sound) (zone : Option Zone) (occupancy : Occupancy)
    {c : GridCell} (hc : c ∈ r.grid.cells) :
    r.outcome zone occupancy c = .ok (r.outcomeOf zone occupancy c) := by
  unfold outcome outcomeOf
  by_cases hhidden : r.isHidden zone c.column c.row = true
  · rw [if_pos hhidden, if_pos hhidden]
    rfl
  rw [if_neg hhidden, if_neg hhidden]
  have hwhole : ∀ (x y w : Nat) (finder : Bool),
      (if c.content.dark then
        return .whole ⟨x, y, w, w, r.paint c.content, occupancy.neighbours c.column c.row, finder⟩
      else return .blank : Except Fault Outcome) =
      .ok (if c.content.dark then
        .whole ⟨x, y, w, w, r.paint c.content, occupancy.neighbours c.column c.row, finder⟩
      else .blank) := by
    intro x y w finder
    split <;> rfl
  cases hhalftone : r.halftone with
  | none => exact hwhole _ _ _ _
  | some halftone =>
    cases hkind : c.content.kind with
    | data =>
      have hcalls := Checked.mapM_eq_ok fun place (hplace : place ∈ subCellPlaces) =>
        subCell_eq hr hhalftone hc (occupancy.neighbours c.column c.row) hplace
      simp only [subCellBounds_eq]
      show (do
        let calls ← subCellPlaces.mapM (r.subCell halftone _ c _)
        return Outcome.split (calls.filterMap id)) = _
      rw [hcalls]
      show Except.ok (Outcome.split (List.filterMap id (List.map _ _))) = _
      rw [List.filterMap_map]
      rfl
    | _ => exact hwhole _ _ _ _

/-- **The outcomes of a sound renderer are those of its cells**, with the zone around the logo and
    some bits of the size of the grid. -/
theorem outcomes_eq {r : Renderer α} (hr : r.Sound) :
    ∃ zone occupancy, r.safeZone = .ok zone ∧ r.occupancy zone = .ok occupancy ∧
      r.outcomes = .ok (r.grid.cells.map (r.outcomeOf zone occupancy)) := by
  obtain ⟨occupancy, hoccupancy, -⟩ := r.occupancy_spec
    (if r.options.logoSafeZone then r.logo.map r.zoneAround else none)
  refine ⟨_, occupancy, safeZone_eq hr, hoccupancy, ?_⟩
  unfold outcomes
  rw [safeZone_eq hr]
  show (do
    let occupancy ← r.occupancy _
    r.grid.cells.mapM (r.outcome _ occupancy)) = _
  rw [hoccupancy]
  exact Checked.mapM_eq_ok fun c hc => outcome_eq hr _ occupancy hc

end Renderer

/-! ## 5. Calls and statistics -/

/-- The module was hidden. -/
def Outcome.isHidden : Outcome → Bool
  | hidden => true
  | _ => false

/-- The module was drawn whole. -/
def Outcome.isWhole : Outcome → Bool
  | whole _ => true
  | _ => false

/-- The calls for sub-cells. -/
def Outcome.subCells : Outcome → List ShapeCall
  | split calls => calls
  | _ => []

/-- Statistics count the modules drawn whole, the calls for sub-cells and the hidden modules. -/
theorem RenderStats.foldl_record (s : RenderStats) (outcomes : List Outcome) :
    outcomes.foldl record s =
      ⟨s.modules + outcomes.countP Outcome.isWhole,
        s.subCells + (outcomes.flatMap Outcome.subCells).length,
        s.occluded + outcomes.countP Outcome.isHidden⟩ := by
  induction outcomes generalizing s with
  | nil => rfl
  | cons outcome outcomes ih =>
    rw [List.foldl_cons, ih, List.countP_cons, List.countP_cons, List.flatMap_cons,
      List.length_append]
    simp only [record, Outcome.isHidden, Outcome.isWhole, Outcome.subCells]
    cases outcome <;> simp <;> omega

namespace Renderer

/-- The calls of a render are those of its outcomes. -/
theorem calls_eq_of_outcomes {r : Renderer α} {outcomes : List Outcome}
    (h : r.outcomes = .ok outcomes) : r.calls = .ok (outcomes.flatMap Outcome.calls) := by
  rw [Renderer.calls, h]
  rfl

/-- The statistics of a render are those of its outcomes. -/
theorem stats_eq_of_outcomes {r : Renderer α} {outcomes : List Outcome}
    (h : r.outcomes = .ok outcomes) :
    r.stats = .ok (outcomes.foldl RenderStats.record RenderStats.zero) := by
  rw [Renderer.stats, h]
  rfl

/-- A module is hidden exactly if it is in the zone. -/
theorem isHidden_outcomeOf (r : Renderer α) (zone : Option Zone) (occupancy : Occupancy)
    (c : GridCell) :
    (r.outcomeOf zone occupancy c).isHidden = r.isHidden zone c.column c.row := by
  obtain ⟨hhidden, h⟩ | ⟨hhidden, halftone, -, -, h⟩ | ⟨hhidden, -, ⟨-, h⟩ | ⟨-, h⟩⟩ :=
    outcomeOf_cases r zone occupancy c
  all_goals
    rw [h, hhidden]
    rfl

end Renderer

end QrRender
