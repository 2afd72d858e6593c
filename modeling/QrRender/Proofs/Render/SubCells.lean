import QrRender.Proofs.Render.Squares

/-!
# The sub-cells of a render

With a halftone every module that carries data and is not hidden is drawn in nine sub-cells. Over a
pixel of a sub-cell there is the call for it and no other, unless its colour counts as background:
then there is none. For the eight outer ones this is the colour of the halftone, so that it may show
the background there. In the middle it is the flat colour of the module, and a dark module whose
colour counts as background has no middle, although drawn whole it would be there.

* `Renderer.subCellArea`: the pixels of a sub-cell on the canvas;
* `Renderer.subCellCall?_eq`: a sub-cell with pixels has a call exactly if it is not background;
* `Renderer.filter_calls_subCell`: the calls over a pixel of a sub-cell;
* **`Renderer.centre_drawn_iff`**: with built options the middle of a module is drawn once, in the
  paint of the module, exactly if its colour does not count as background, and the sub-cells around
  it are drawn in the colours of the halftone that do not;
* `Renderer.dark_centre_missing`: a dark module that is left without its middle.
-/

namespace QrRender

/-- The call that fills a box as part of a module. -/
def Box.part (b : Box) (paint : Paint) (neighbours : Neighbours) : ShapeCall :=
  ⟨b.x, b.y, b.width, b.height, paint, neighbours, false⟩

namespace Renderer

variable {α : Type}

/-! ## 1. The pixels of a sub-cell -/

/-- The pixels of a sub-cell of a module on the canvas. -/
def subCellArea (r : Renderer α) (c : GridCell) (place : Nat × Nat) : Box :=
  (subCellBlock r.options.blockWidth place).translate (r.blockOrigin c.column c.row).1
    (r.blockOrigin c.column c.row).2

/-- A sub-cell is in the block of its module. -/
theorem subCellArea_within (r : Renderer α) (c : GridCell) {place : Nat × Nat}
    (hplace : place ∈ subCellPlaces) : (r.subCellArea c place).Within (r.block c.column c.row) := by
  intro px py h
  obtain ⟨hx, hy, hin⟩ := Box.contains_translate.mp h
  exact Box.contains_translate.mpr ⟨hx, hy, subCellBlock_within hplace _ _ hin⟩

/-- Two sub-cells of a module with one pixel are the same. -/
theorem place_eq_of_contains {r : Renderer α} {c : GridCell} {place place' : Nat × Nat}
    (hplace : place ∈ subCellPlaces) (hplace' : place' ∈ subCellPlaces) {px py : Nat}
    (h : (r.subCellArea c place).Contains px py) (h' : (r.subCellArea c place').Contains px py) :
    place = place' := by
  by_contra hne
  exact (subCellBlock_disjoint hplace hplace' hne).translate _ _ _ _ h h'

/-! ## 2. The calls over a sub-cell -/

/-- A sub-cell with pixels has a call exactly if it is not background. -/
theorem subCellCall?_eq {r : Renderer α} {c : GridCell} {place : Nat × Nat}
    (hne : (r.subCellArea c place).Nonempty) (halftone : Image) (neighbours : Neighbours) :
    r.subCellCall? halftone c neighbours place =
      if r.options.elision.isBackground (r.paintAt halftone c place).flat then none
      else some ((r.subCellArea c place).part (r.paintAt halftone c place) neighbours) := by
  have hsize : ¬((subCellBlock r.options.blockWidth place).width = 0 ∨
      (subCellBlock r.options.blockWidth place).height = 0) :=
    fun h => h.elim (Nat.ne_of_gt hne.1) (Nat.ne_of_gt hne.2)
  unfold subCellCall?
  simp only [if_neg hsize]
  rfl

/-- The outcome of a module that carries data and is not hidden. -/
theorem outcomeOf_data {r : Renderer α} {halftone : Image} (hhalftone : r.halftone = some halftone)
    {zone : Option Zone} (occupancy : Occupancy) {c : GridCell} (hdata : c.content.kind = .data)
    (hhidden : r.isHidden zone c.column c.row = false) :
    r.outcomeOf zone occupancy c =
      .split (subCellPlaces.filterMap
        (r.subCellCall? halftone c (occupancy.neighbours c.column c.row))) := by
  simp only [outcomeOf, hhidden, hhalftone, hdata]
  rfl

/-- A call over a pixel of a sub-cell is the call for that sub-cell. -/
theorem subCellCall?_of_contains {r : Renderer α} (hr : r.Sound) {halftone : Image}
    (hhalftone : r.halftone = some halftone) {zone : Option Zone} {occupancy : Occupancy}
    {c : GridCell} (hc : c ∈ r.grid.cells) (hdata : c.content.kind = .data)
    (hhidden : r.isHidden zone c.column c.row = false) {place : Nat × Nat}
    (hplace : place ∈ subCellPlaces) {px py : Nat}
    (h : (r.subCellArea c place).Contains px py) {call : ShapeCall}
    (hcall : call ∈ (r.grid.cells.map (r.outcomeOf zone occupancy)).flatMap Outcome.calls)
    (hin : call.box.Contains px py) :
    r.subCellCall? halftone c (occupancy.neighbours c.column c.row) place = some call := by
  have hb := hr.options.blockWidth_pos
  rw [List.flatMap_map] at hcall
  obtain ⟨c', hc', hmem⟩ := List.mem_flatMap.mp hcall
  -- the call is one of the module in whose block the pixel is
  have hblock := (outcomeOf_placed hb zone occupancy c').inside call hmem px py hin
  obtain rfl := cell_eq_of_contains hb hc hc' (subCellArea_within r c hplace px py h) hblock
  rw [outcomeOf_data hhalftone occupancy hdata hhidden] at hmem
  obtain ⟨place', hplace', hsome⟩ := List.mem_filterMap.mp hmem
  -- and of its sub-cells, of the one in which the pixel is
  rw [(box_of_subCellCall? hsome).2] at hin
  have hin' : (r.subCellArea c place').Contains px py := hin
  rwa [place_eq_of_contains hplace hplace' h hin']

/-- **Over a pixel of a sub-cell there is its call and no other**, and none if it is background. -/
theorem filter_calls_subCell {r : Renderer α} (hr : r.Sound) {halftone : Image}
    (hhalftone : r.halftone = some halftone) {zone : Option Zone} (hzone : r.safeZone = .ok zone)
    (occupancy : Occupancy) {c : GridCell} (hc : c ∈ r.grid.cells)
    (hdata : c.content.kind = .data) (hhidden : r.isHidden zone c.column c.row = false)
    {place : Nat × Nat} (hplace : place ∈ subCellPlaces) {px py : Nat}
    (h : (r.subCellArea c place).Contains px py) :
    (((r.grid.cells.map (r.outcomeOf zone occupancy)).flatMap Outcome.calls).filter
        fun call => call.box.Contains px py) =
      if r.options.elision.isBackground (r.paintAt halftone c place).flat then []
      else [(r.subCellArea c place).part (r.paintAt halftone c place)
        (occupancy.neighbours c.column c.row)] := by
  have hcall := subCellCall?_eq (Box.nonempty_of_contains h) halftone
    (occupancy.neighbours c.column c.row)
  by_cases hback : r.options.elision.isBackground (r.paintAt halftone c place).flat = true
  · rw [if_pos hback] at hcall ⊢
    refine List.filter_eq_nil_iff.mpr fun call hmem hp => ?_
    have hsome := subCellCall?_of_contains hr hhalftone hc hdata hhidden hplace h hmem
      (of_decide_eq_true hp)
    rw [hcall] at hsome
    cases hsome
  · rw [if_neg hback] at hcall ⊢
    refine Box.filter_contains_eq_singleton (laidOut_outcomes hr occupancy hzone).disjoint ?_ h
    rw [List.flatMap_map]
    refine List.mem_flatMap.mpr ⟨c, hc, ?_⟩
    rw [outcomeOf_data hhalftone occupancy hdata hhidden]
    exact List.mem_filterMap.mpr ⟨place, hplace, hcall⟩

theorem paint_flat (r : Renderer α) (m : Module) :
    (r.paint m).flat = r.options.moduleColor m := by
  unfold paint
  simp only
  split <;> rfl

/-! ## 3. The middle of a module -/

section OfOptions

variable [Mul α] [Div α] [NatCast α] [LT α] [DecidableLT α] [Numeric α]

/-- With a halftone in the options there is one in the renderer. -/
theorem halftone_eq_prepare {o : Options α} {g : Grid} {r : Renderer α}
    (h : ofOptions o g = .ok r) {p : Picture} (hp : o.halftone = some p) :
    r.halftone = some (Halftone.prepare p g.width g.height o.halftoneThreshold) := by
  obtain ⟨logo, -, h⟩ := Checked.bind_eq_ok h
  rw [← Except.ok.inj h, hp]
  rfl

/-- **The middle of a module is drawn exactly if its colour does not count as background.** With
    built options and a halftone every grid is rendered. The middle of a module that carries data
    and is not hidden has pixels; over each of them there is one call, for the middle of the module
    and with its own paint, unless the flat colour of the module counts as background, and then
    there is none, whether the module is dark or light. Over the pixels of another sub-cell there is
    one call with the colour of the halftone, unless that counts as background. -/
theorem centre_drawn_iff {files : String → Except String Picture} {b : Builder α} {o : Options α}
    (h : b.build files = .ok o) {p : Picture} (hp : o.halftone = some p) (g : Grid) :
    let halftone := Halftone.prepare p g.width g.height o.halftoneThreshold
    ∃ r zone occupancy calls, ofOptions o g = .ok r ∧ r.safeZone = .ok zone ∧
      r.occupancy zone = .ok occupancy ∧ r.calls = .ok calls ∧
      ∀ c ∈ g.cells, c.content.kind = .data → r.isHidden zone c.column c.row = false →
        let neighbours := occupancy.neighbours c.column c.row
        (r.subCellArea c (1, 1)).Nonempty ∧
        (∀ px py, (r.subCellArea c (1, 1)).Contains px py →
          (calls.filter fun call => call.box.Contains px py) =
            if o.elision.isBackground (o.moduleColor c.content) then []
            else [(r.subCellArea c (1, 1)).part (r.paint c.content) neighbours]) ∧
        ∀ place ∈ subCellPlaces, place ≠ (1, 1) →
          ∃ sample, halftone.get (3 * c.column + place.1) (3 * c.row + place.2) = .ok sample ∧
            ∀ px py, (r.subCellArea c place).Contains px py →
              (calls.filter fun call => call.box.Contains px py) =
                if o.elision.isBackground sample then []
                else [(r.subCellArea c place).part (.solid sample) neighbours] := by
  intro halftone
  obtain ⟨r, hr, rfl, rfl, hsound⟩ := ofOptions_sound (Builder.build_sound h) g
  have hhalftone : r.halftone = some halftone := halftone_eq_prepare hr hp
  obtain ⟨zone, occupancy, hzone, hoccupancy, houtcomes⟩ := outcomes_eq hsound
  refine ⟨r, zone, occupancy, _, hr, hzone, hoccupancy, calls_eq_of_outcomes houtcomes, ?_⟩
  intro c hc hdata hhidden neighbours
  have hfilter := fun (place : Nat × Nat) hplace (px py : Nat) =>
    @filter_calls_subCell _ r hsound halftone hhalftone zone hzone occupancy c hc hdata hhidden
      place hplace px py
  refine ⟨subCellBlock_centre hsound.options.blockWidth_pos, fun px py hin => ?_,
    fun place hplace hne => ?_⟩
  · have hpaint : r.paintAt halftone c (1, 1) = r.paint c.content := if_pos rfl
    rw [hfilter (1, 1) (by decide) px py hin, hpaint, paint_flat]
  · obtain ⟨⟨hx, hy⟩, -⟩ := Grid.mem_cells.mp hc
    obtain ⟨hwidth, hheight⟩ := hsound.halftone_size halftone hhalftone
    obtain ⟨hi, hj⟩ := mem_subCellPlaces.mp hplace
    refine ⟨_, Image.get_eq_ok (by omega) (by omega), fun px py hin => ?_⟩
    rw [hfilter place hplace px py hin]
    simp only [paintAt, if_neg hne, Paint.flat]
    rfl

/-- Blocks of three pixels in a given colour on black, and a black halftone. -/
def onBlack (foreground : Rgba) : Builder ℚ :=
  Builder.ofSettings [.blockWidth 3, .border [0], .background .black, .foreground foreground,
    .halftone (Picture.ofFn .gray 3 3 fun _ _ _ => 0)]

/-- A red module keeps its middle. -/
theorem centre_drawn_iff_red :
    let red : Rgba := ⟨255, 0, 0, 255⟩
    ∃ o, (onBlack red).build (fun _ => .error "missing") = .ok o ∧
      o.halftone = some (Picture.ofFn .gray 3 3 fun _ _ _ => 0) ∧
      ∃ r calls call, ofOptions o (Grid.ofFn 1 1 fun _ _ => ⟨true, .data⟩) = .ok r ∧
        r.calls = .ok calls ∧ (calls.filter fun call => call.box.Contains 1 1) = [call] ∧
        call.paint = .solid red := by
  intro red
  obtain ⟨o, ho⟩ : ∃ o, (onBlack red).build (fun _ => .error "missing") = .ok o := ⟨_, rfl⟩
  have hp : o.halftone = some (Picture.ofFn .gray 3 3 fun _ _ _ => 0) := by
    obtain rfl := Except.ok.inj ho
    rfl
  obtain ⟨r, zone, occupancy, calls, hr, hzone, -, hcalls, hcells⟩ :=
    centre_drawn_iff ho hp (Grid.ofFn 1 1 fun _ _ => ⟨true, .data⟩)
  obtain rfl := Except.ok.inj ho
  obtain rfl := Except.ok.inj hr
  obtain rfl := Except.ok.inj hzone
  obtain ⟨-, hcentre, -⟩ := hcells ⟨0, 0, true, .data⟩ (by decide) rfl (by decide)
  have hcall := (hcentre 1 1 (by decide)).trans (if_neg (by decide))
  exact ⟨_, ho, hp, _, calls, _, hr, hcalls, hcall, rfl⟩

/-- **A dark module without its middle.** A white module on black is left without its middle in
    front of a halftone, although white is not the background; drawn whole it would be there. -/
theorem dark_centre_missing :
    ∃ o r calls, (onBlack .white).build (fun _ => .error "missing") = .ok o ∧
      ofOptions o (Grid.ofFn 1 1 fun _ _ => ⟨true, .data⟩) = .ok r ∧
      r.safeZone = .ok none ∧ r.calls = .ok calls ∧
      o.background = .black ∧ o.moduleColor ⟨true, .data⟩ = .white ∧
      (r.subCellArea ⟨0, 0, true, .data⟩ (1, 1)).Contains 1 1 ∧ calls.length = 8 ∧
      (calls.filter fun call => call.box.Contains 1 1) = [] := by
  refine ⟨_, _, _, rfl, rfl, rfl, rfl, rfl, rfl, ?_, ?_, ?_⟩
  all_goals decide +kernel

end OfOptions

end Renderer

end QrRender
