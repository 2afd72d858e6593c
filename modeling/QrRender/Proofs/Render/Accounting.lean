import QrRender.Proofs.Render.Elements
import QrRender.Proofs.Render.SubCells

/-!
# What a render counts

Every module of a grid falls into one of four kinds: it is hidden, it is drawn in sub-cells, it is
drawn whole, or it is light and left out. So the modules of a grid are those that the statistics
count and those of the two kinds that they do not count by themselves; and a call on the shape is
made for each module that is drawn whole and for each sub-cell, which is what the statistics add up
to.

The calls come module by module, from left to right and row by row. Which of them belong to a module
can be told from where they start, since no two blocks have a pixel in common. The calls that ask
for a finder are those of the dark finder modules, one each. A module in sub-cells has nine calls at
most. It has all nine where every sub-cell has pixels and nothing but clear colours is left out, as
the colours of a halftone are opaque; and a block of one or two pixels has no room for any sub-cell
but the one in the middle.

* `Grid.cells_sorted`: the modules of a grid come row by row;
* `Outcome.length_eq`, `Renderer.cells_counted`: each module is of one kind;
* `Renderer.callsIn_block`: the calls in the block of a module are its own;
* `Renderer.filter_finder_calls`: the calls that ask for a finder;
* `Renderer.length_subCells_full`, `Renderer.length_subCells_narrow`: how many sub-cells are drawn;
* **`Renderer.render_accounts`**: the calls and the statistics of every render.
-/

namespace QrRender

/-! ## 1. Modules in order -/

/-- The one cell comes before the other: it is in an earlier row, or farther left in the same. -/
def GridCell.Before (c c' : GridCell) : Prop :=
  c.row < c'.row ∨ c.row = c'.row ∧ c.column < c'.column

/-- The modules of a grid come row by row, each row from left to right. -/
theorem Grid.cells_sorted (g : Grid) : g.cells.Pairwise GridCell.Before := by
  have hplaces : g.modules.toList.zipIdx.Pairwise fun a b => a.2 < b.2 := by
    rw [← List.pairwise_map (f := Prod.snd) (R := (· < ·)), List.zipIdx_map_snd]
    exact List.pairwise_lt_range'
  refine List.pairwise_map.mpr (hplaces.imp ?_)
  intro a b hlt
  have hrow : a.2 / g.width ≤ b.2 / g.width := Nat.div_le_div_right hlt.le
  rcases Nat.lt_or_eq_of_le hrow with hrow | hrow
  · exact .inl hrow
  · refine .inr ⟨hrow, ?_⟩
    have ha := RowMajor.place_mod_div g.width a.2
    have hb := RowMajor.place_mod_div g.width b.2
    rw [← hrow] at hb
    show a.2 % g.width < b.2 % g.width
    omega

theorem Grid.nodup_cells (g : Grid) : g.cells.Nodup := g.nodup_places.of_map _

/-- A test that only the part of one entry passes leaves that part of a concatenation. -/
theorem filter_flatMap_of_key {β γ : Type} {f : β → List γ} {p : γ → Bool} {xs : List β}
    (hnodup : xs.Nodup) {x : β} (hx : x ∈ xs)
    (h : ∀ x' ∈ xs, ∀ y ∈ f x', p y = true ↔ x' = x) : (xs.flatMap f).filter p = f x := by
  induction xs with
  | nil => exact absurd hx List.not_mem_nil
  | cons a xs ih =>
    obtain ⟨ha, hnodup⟩ := List.nodup_cons.mp hnodup
    have hhead := h a List.mem_cons_self
    have htail := fun x' hx' => h x' (List.mem_cons_of_mem a hx')
    rw [List.flatMap_cons, List.filter_append]
    rcases List.mem_cons.mp hx with rfl | hx
    · have hrest : (xs.flatMap f).filter p = [] := by
        refine List.filter_eq_nil_iff.mpr fun y hy hp => ha ?_
        obtain ⟨x', hx', hmem⟩ := List.mem_flatMap.mp hy
        exact (htail x' hx' y hmem).mp hp ▸ hx'
      rw [hrest, List.append_nil]
      exact List.filter_eq_self.mpr fun y hy => (hhead y hy).mpr rfl
    · have hnone : (f a).filter p = [] :=
        List.filter_eq_nil_iff.mpr fun y hy hp => ha ((hhead y hy).mp hp ▸ hx)
      rw [hnone, List.nil_append]
      exact ih hnodup hx htail

/-- A concatenation of single entries and empty lists. -/
theorem flatMap_ite_singleton {β γ : Type} (q : β → Bool) (f : β → γ) (xs : List β) :
    (xs.flatMap fun x => if q x then [f x] else []) = (xs.filter q).map f := by
  induction xs with
  | nil => rfl
  | cons x xs ih =>
    rw [List.flatMap_cons, ih, List.filter_cons]
    split <;> rfl

/-! ## 2. Kinds of outcomes -/

namespace Outcome

/-- The module was left out. -/
def isBlank : Outcome → Bool
  | blank => true
  | _ => false

/-- The module was drawn in sub-cells. -/
def isSplit : Outcome → Bool
  | split _ => true
  | _ => false

/-- Every outcome is of one kind. -/
theorem length_eq (outcomes : List Outcome) :
    outcomes.length = outcomes.countP isHidden + outcomes.countP isWhole +
      outcomes.countP isBlank + outcomes.countP isSplit := by
  induction outcomes with
  | nil => rfl
  | cons outcome outcomes ih =>
    simp only [List.length_cons, List.countP_cons]
    cases outcome <;> simp [isHidden, isWhole, isBlank, isSplit] <;> omega

end Outcome

namespace Renderer

variable {α : Type}

/-- There is a halftone and the module carries data. -/
def takesHalftone (r : Renderer α) (c : GridCell) : Bool :=
  r.options.halftone.isSome && c.content.kind == .data

/-- The module is drawn in sub-cells: it takes the halftone and is not hidden. -/
def isHalftoned (r : Renderer α) (zone : Option Zone) (c : GridCell) : Bool :=
  r.takesHalftone c && !r.isHidden zone c.column c.row

/-- The module is not drawn because it is light: it is not hidden, and does not take a halftone. -/
def isLeftOut (r : Renderer α) (zone : Option Zone) (c : GridCell) : Bool :=
  !c.content.dark && !r.takesHalftone c && !r.isHidden zone c.column c.row

/-- The module is drawn as a finder: it is a dark one and not hidden. -/
def isDrawnFinder (r : Renderer α) (zone : Option Zone) (c : GridCell) : Bool :=
  c.content.dark && c.content.kind == .finder && !r.isHidden zone c.column c.row

theorem takesHalftone_iff {r : Renderer α} (h : r.halftone.isSome = r.options.halftone.isSome)
    {c : GridCell} :
    r.takesHalftone c = true ↔ r.halftone.isSome = true ∧ c.content.kind = .data := by
  rw [takesHalftone, ← h, Bool.and_eq_true, beq_iff_eq]

/-- A module is in sub-cells exactly if it takes the halftone and is not hidden, and left out
    exactly if it is light and neither. -/
theorem kinds_outcomeOf {r : Renderer α} (h : r.halftone.isSome = r.options.halftone.isSome)
    (zone : Option Zone) (occupancy : Occupancy) (c : GridCell) :
    (r.outcomeOf zone occupancy c).isSplit = r.isHalftoned zone c ∧
      (r.outcomeOf zone occupancy c).isBlank = r.isLeftOut zone c := by
  unfold isHalftoned isLeftOut
  obtain ⟨hhidden, hout⟩ | ⟨hshown, halftone, hhalftone, hdata, hout⟩ |
      ⟨hshown, hnot, ⟨hdark, hout⟩ | ⟨hlight, hout⟩⟩ := r.outcomeOf_cases zone occupancy c
  · rw [hout, hhidden, Bool.not_true, Bool.and_false, Bool.and_false]
    exact ⟨rfl, rfl⟩
  · have htakes : r.takesHalftone c = true :=
      (takesHalftone_iff h).mpr ⟨Option.isSome_iff_exists.mpr ⟨halftone, hhalftone⟩, hdata⟩
    rw [hout, hshown, htakes, Bool.not_true, Bool.and_false, Bool.false_and]
    exact ⟨rfl, rfl⟩
  · have htakes : r.takesHalftone c = false :=
      Bool.eq_false_iff.mpr (hnot ∘ (takesHalftone_iff h).mp)
    rw [hout, htakes, hdark]
    exact ⟨rfl, rfl⟩
  · have htakes : r.takesHalftone c = false :=
      Bool.eq_false_iff.mpr (hnot ∘ (takesHalftone_iff h).mp)
    rw [hout, hshown, htakes, hlight]
    exact ⟨rfl, rfl⟩

/-- **Each module is of one kind**: it is hidden, drawn whole, light and left out, or in
    sub-cells. -/
theorem cells_counted {r : Renderer α} (h : r.halftone.isSome = r.options.halftone.isSome)
    (zone : Option Zone) (occupancy : Occupancy) :
    let stats := (r.grid.cells.map (r.outcomeOf zone occupancy)).foldl RenderStats.record .zero
    stats.occluded = r.grid.cells.countP (fun c => r.isHidden zone c.column c.row) ∧
      r.grid.width * r.grid.height = stats.occluded + stats.modules +
        r.grid.cells.countP (r.isLeftOut zone) + r.grid.cells.countP (r.isHalftoned zone) := by
  have hkinds := kinds_outcomeOf h zone occupancy
  have hsplit : Outcome.isSplit ∘ r.outcomeOf zone occupancy = r.isHalftoned zone :=
    funext fun c => (hkinds c).1
  have hblank : Outcome.isBlank ∘ r.outcomeOf zone occupancy = r.isLeftOut zone :=
    funext fun c => (hkinds c).2
  have hhidden : Outcome.isHidden ∘ r.outcomeOf zone occupancy =
      fun c => r.isHidden zone c.column c.row :=
    funext fun c => r.isHidden_outcomeOf zone occupancy c
  have hlength := Outcome.length_eq (r.grid.cells.map (r.outcomeOf zone occupancy))
  rw [List.length_map, Grid.length_cells] at hlength
  simp only [RenderStats.foldl_record, RenderStats.zero, Nat.zero_add]
  refine ⟨?_, ?_⟩
  · rw [List.countP_map, hhidden]
  · rw [← hblank, ← hsplit, ← List.countP_map, ← List.countP_map]
    exact hlength

/-! ## 3. The calls of a module -/

/-- Those of some calls that start in a box. -/
def callsIn (b : Box) (calls : List ShapeCall) : List ShapeCall :=
  calls.filter fun call => b.Contains call.x call.y

/-- **The calls of a render that start in the block of a module are its own.** -/
theorem callsIn_block {r : Renderer α} (hb : 0 < r.options.blockWidth) (zone : Option Zone)
    (occupancy : Occupancy) {c : GridCell} (hc : c ∈ r.grid.cells) :
    callsIn (r.block c.column c.row)
        ((r.grid.cells.map (r.outcomeOf zone occupancy)).flatMap Outcome.calls) =
      (r.outcomeOf zone occupancy c).calls := by
  rw [List.flatMap_map]
  refine filter_flatMap_of_key r.grid.nodup_cells hc fun c' hc' call hcall => ?_
  have hplaced := outcomeOf_placed hb zone occupancy c'
  have hin := hplaced.inside call hcall _ _ (Box.contains_corner (hplaced.nonempty call hcall))
  rw [decide_eq_true_iff]
  constructor
  · intro h
    exact (cell_eq_of_contains hb hc hc' h hin).symm
  · intro h
    exact h ▸ hin

/-- The call for a sub-cell asks for no finder. -/
theorem finder_of_subCellCall? {r : Renderer α} {halftone : Image} {c : GridCell}
    {neighbours : Neighbours} {place : Nat × Nat} {call : ShapeCall}
    (h : r.subCellCall? halftone c neighbours place = some call) : call.finder = false := by
  simp only [subCellCall?, Option.ite_none_left_eq_some, Option.some.injEq] at h
  obtain ⟨-, -, rfl⟩ := h
  rfl

/-- A module asks for a finder once if it is a dark finder module, and not otherwise. -/
theorem filter_finder_outcomeOf (r : Renderer α) (zone : Option Zone) (occupancy : Occupancy)
    (c : GridCell) :
    (r.outcomeOf zone occupancy c).calls.filter (·.finder) =
      if r.isDrawnFinder zone c then [r.wholeCall occupancy c] else [] := by
  unfold isDrawnFinder
  obtain ⟨hhidden, hout⟩ | ⟨-, halftone, -, hdata, hout⟩ |
    ⟨hshown, -, ⟨hdark, hout⟩ | ⟨hlight, hout⟩⟩ := r.outcomeOf_cases zone occupancy c
  · rw [hout, hhidden, Bool.not_true, Bool.and_false]
    rfl
  · rw [hout, hdata, if_neg (by simp)]
    refine List.filter_eq_nil_iff.mpr fun call hcall => ?_
    obtain ⟨place, -, hsome⟩ := List.mem_filterMap.mp hcall
    rw [finder_of_subCellCall? hsome]
    exact Bool.false_ne_true
  · have hfinder : (r.wholeCall occupancy c).finder = (c.content.kind == .finder) := rfl
    rw [hout, hshown, hdark, Bool.true_and, Bool.not_false, Bool.and_true, Outcome.calls,
      List.filter_singleton, hfinder]
    cases c.content.kind == .finder <;> rfl
  · rw [hout, hlight, Bool.false_and, Bool.false_and]
    rfl

/-- **The calls that ask for a finder are those of the dark finder modules, one each.** -/
theorem filter_finder_calls (r : Renderer α) (zone : Option Zone) (occupancy : Occupancy) :
    ((r.grid.cells.map (r.outcomeOf zone occupancy)).flatMap Outcome.calls).filter (·.finder) =
      (r.grid.cells.filter (r.isDrawnFinder zone)).map (r.wholeCall occupancy) := by
  rw [List.flatMap_map, List.filter_flatMap, ← flatMap_ite_singleton]
  simp only [filter_finder_outcomeOf]

/-! ## 4. Sub-cells -/

/-- In a block of three pixels or more every sub-cell has pixels. -/
theorem subCellBlock_nonempty {w : Nat} (hw : 3 ≤ w) {place : Nat × Nat}
    (hplace : place ∈ subCellPlaces) : (subCellBlock w place).Nonempty := by
  have hedge : ∀ k < 3, 0 < subCellEdge w (k + 1) - subCellEdge w k := by
    intro k hk
    match k, hk with
    | 0, _ =>
      show 0 < w / 3 - 0
      omega
    | 1, _ =>
      show 0 < w - w / 3 - w / 3
      omega
    | 2, _ =>
      show 0 < w - (w - w / 3)
      omega
  obtain ⟨hi, hj⟩ := mem_subCellPlaces.mp hplace
  exact ⟨hedge _ hi, hedge _ hj⟩

/-- In a block of one or two pixels no sub-cell but the one in the middle has pixels. -/
theorem subCellBlock_empty {w : Nat} (hw : w < 3) {place : Nat × Nat}
    (hplace : place ∈ subCellPlaces) (hne : place ≠ (1, 1)) :
    (subCellBlock w place).width = 0 ∨ (subCellBlock w place).height = 0 := by
  have hthird : w / 3 = 0 := Nat.div_eq_of_lt hw
  have hedge : ∀ k < 3, k ≠ 1 → subCellEdge w (k + 1) - subCellEdge w k = 0 := by
    intro k hk hk1
    match k, hk, hk1 with
    | 0, _, _ =>
      show w / 3 - 0 = 0
      omega
    | 2, _, _ =>
      show w - (w - w / 3) = 0
      omega
  obtain ⟨hi, hj⟩ := mem_subCellPlaces.mp hplace
  by_cases hcolumn : place.1 = 1
  · exact .inr (hedge _ hj fun hrow => hne (Prod.ext hcolumn hrow))
  · exact .inl (hedge _ hi hcolumn)

variable {r : Renderer α} {halftone : Image} {c : GridCell} {neighbours : Neighbours}

/-- Where only clear colours are left out and every sub-cell has pixels, all nine are drawn if the
    colour of the module is not clear, as those of the halftone are not. -/
theorem length_subCells_full (hr : r.Sound) (hhalftone : r.halftone = some halftone)
    (hsolid : ∀ x y color, halftone.pixel? x y = some color → color.isOpaque = true)
    (hc : c ∈ r.grid.cells) (hw : 3 ≤ r.options.blockWidth)
    (helision : r.options.elision = .transparentOnly)
    (halpha : (r.options.moduleColor c.content).alpha ≠ 0) :
    (subCellPlaces.filterMap (r.subCellCall? halftone c neighbours)).length = 9 := by
  have hshown : ∀ place ∈ subCellPlaces,
      r.options.elision.isBackground (r.paintAt halftone c place).flat = false := by
    intro place hplace
    rw [helision]
    unfold paintAt
    split
    · rw [paint_flat]
      simpa [Elision.isBackground, Rgba.isClear] using halpha
    · obtain ⟨color, hcolor⟩ := Option.isSome_iff_exists.mp
        ((halftone.isSome_pixel? _ _).mpr (hr.sample_lt hhalftone hc hplace))
      rw [hcolor]
      exact Rgba.isClear_of_isOpaque (hsolid _ _ _ hcolor)
  have hall : ∀ place ∈ subCellPlaces,
      (r.subCellCall? halftone c neighbours place).isSome = true := by
    intro place hplace
    rw [subCellCall?_eq (subCellBlock_nonempty hw hplace), hshown place hplace]
    rfl
  rw [List.length_filterMap_eq_countP, List.countP_eq_length.mpr hall]
  rfl

/-- In a block of one or two pixels there is room for the sub-cell in the middle only. -/
theorem length_subCells_narrow (hw : r.options.blockWidth < 3) :
    (subCellPlaces.filterMap (r.subCellCall? halftone c neighbours)).length ≤ 1 := by
  have houter : ∀ place ∈ subCellPlaces, place ≠ (1, 1) →
      (r.subCellCall? halftone c neighbours place).isSome = false := by
    intro place hplace hne
    have hempty := subCellBlock_empty hw hplace hne
    unfold subCellCall?
    simp only [if_pos hempty, ite_self, Option.isSome_none]
  rw [List.length_filterMap_eq_countP]
  refine (List.countP_mono_left (q := fun place => place == (1, 1))
    fun place hplace hsome => ?_).trans (by decide)
  rw [beq_iff_eq]
  by_contra hne
  rw [houter place hplace hne] at hsome
  cases hsome

/-! ## 5. Whole renders -/

/-- What the calls and the statistics of a render have to do with the modules of its grid. -/
structure Accounts (r : Renderer α) (zone : Option Zone) (occupancy : Occupancy)
    (calls : List ShapeCall) (stats : RenderStats) : Prop where
  /-- There is a call for every module drawn whole and for every sub-cell. -/
  total : calls.length = stats.modules + stats.subCells
  occluded : stats.occluded = r.grid.cells.countP fun c => r.isHidden zone c.column c.row
  /-- Each module is hidden, drawn whole, light and left out, or in sub-cells. -/
  modules : r.grid.width * r.grid.height = stats.occluded + stats.modules +
    r.grid.cells.countP (r.isLeftOut zone) + r.grid.cells.countP (r.isHalftoned zone)
  /-- Finders are asked for by the dark finder modules that are not hidden, once each. -/
  finders : calls.filter (·.finder) =
    (r.grid.cells.filter (r.isDrawnFinder zone)).map (r.wholeCall occupancy)
  /-- The modules come row by row, -/
  sorted : r.grid.cells.Pairwise GridCell.Before
  /-- and the calls module by module. -/
  inOrder : calls = r.grid.cells.flatMap fun c => callsIn (r.block c.column c.row) calls
  /-- A module in sub-cells has nine calls at most: all of them where blocks have three pixels or
      more, only clear colours are left out and its own is not clear; and one at most in narrower
      blocks. -/
  subCells : ∀ c ∈ r.grid.cells, r.isHalftoned zone c = true →
    let own := callsIn (r.block c.column c.row) calls
    own.length ≤ 9 ∧
      (3 ≤ r.options.blockWidth → r.options.elision = .transparentOnly →
        (r.options.moduleColor c.content).alpha ≠ 0 → own.length = 9) ∧
      (r.options.blockWidth < 3 → own.length ≤ 1)

section OfOptions

variable [Mul α] [Div α] [NatCast α] [LT α] [DecidableLT α] [Numeric α]

/-- There is a halftone in the renderer exactly if there is one in the options. -/
theorem isSome_halftone {o : Options α} {g : Grid} {r : Renderer α} (h : ofOptions o g = .ok r) :
    r.halftone.isSome = r.options.halftone.isSome := by
  obtain ⟨logo, -, h⟩ := Checked.bind_eq_ok h
  rw [← Except.ok.inj h]
  exact Option.isSome_map

theorem accounts {o : Options α} {g : Grid} {r : Renderer α} (h : ofOptions o g = .ok r)
    (hr : r.Sound) (zone : Option Zone) (occupancy : Occupancy) :
    let outcomes := r.grid.cells.map (r.outcomeOf zone occupancy)
    r.Accounts zone occupancy (outcomes.flatMap Outcome.calls)
      (outcomes.foldl RenderStats.record .zero) := by
  have hb := hr.options.blockWidth_pos
  obtain ⟨hoccluded, hmodules⟩ := cells_counted (isSome_halftone h) zone occupancy
  refine ⟨RenderStats.length_calls _, hoccluded, hmodules, r.filter_finder_calls zone occupancy,
    r.grid.cells_sorted, ?_, fun c hc hhalftoned => ?_⟩
  · rw [List.flatMap_congr fun c hc => callsIn_block hb zone occupancy hc, List.flatMap_map]
  · obtain ⟨htakes, hshown⟩ := Bool.and_eq_true_iff.mp hhalftoned
    obtain ⟨hsome, hdata⟩ := (takesHalftone_iff (isSome_halftone h)).mp htakes
    obtain ⟨halftone, hhalftone⟩ := Option.isSome_iff_exists.mp hsome
    have hsolid := fun x y color => isOpaque_halftone h hhalftone (x := x) (y := y) (c := color)
    rw [Bool.not_eq_true'] at hshown
    simp only [callsIn_block hb zone occupancy hc, outcomeOf_data hhalftone occupancy hdata hshown,
      Outcome.calls]
    exact ⟨List.length_filterMap_le _ subCellPlaces,
      length_subCells_full hr hhalftone hsolid hc, length_subCells_narrow⟩

end OfOptions

variable [Add α] [Sub α] [Mul α] [Div α] [NatCast α] [LT α] [DecidableLT α] [Numeric α]

/-- **Every module of a render is accounted for.** With built options and any shape every grid is
    rendered. The shape answers one call after the other, as a finder where the call asks for one;
    there is one call for every module drawn whole and for every sub-cell, the statistics and the
    modules that they do not count make up the grid, the calls come module by module, and each
    module has the calls that its kind allows. -/
theorem render_accounts {files : String → Except String Picture} {b : Builder α} {o : Options α}
    (h : b.build files = .ok o) (g : Grid) :
    ∃ r zone occupancy calls stats, ofOptions o g = .ok r ∧ r.options = o ∧ r.grid = g ∧
      r.safeZone = .ok zone ∧ r.occupancy zone = .ok occupancy ∧ r.calls = .ok calls ∧
      r.stats = .ok stats ∧
      r.commands = .ok (calls.flatMap fun call =>
        if call.finder then o.shape.drawFinder call.cell else o.shape.draw call.cell) ∧
      r.Accounts zone occupancy calls stats := by
  obtain ⟨r, hr, rfl, rfl, hsound⟩ := ofOptions_sound (Builder.build_sound h) g
  obtain ⟨zone, occupancy, hzone, hoccupancy, houtcomes⟩ := outcomes_eq hsound
  have hcalls := calls_eq_of_outcomes houtcomes
  refine ⟨r, zone, occupancy, _, _, hr, rfl, rfl, hzone, hoccupancy, hcalls,
    stats_eq_of_outcomes houtcomes, ?_, accounts hr hsound zone occupancy⟩
  rw [commands, hcalls]
  rfl

/-- A dark finder module and a light one that carries data, before a halftone and with only clear
    colours left out: one call for the finder and nine for the other. -/
theorem render_accounts_for_two :
    let b : Builder ℚ := Builder.ofSettings [.blockWidth 3, .border [0],
      .elision .transparentOnly, .halftone (Picture.ofFn .gray 6 3 fun _ _ _ => 255)]
    let g := Grid.ofFn 2 1 fun x _ => if x = 0 then ⟨true, .finder⟩ else ⟨false, .data⟩
    ∃ o, b.build (fun _ => .error "missing") = .ok o ∧
      ∃ r calls stats, ofOptions o g = .ok r ∧ r.calls = .ok calls ∧ r.stats = .ok stats ∧
        stats.modules = 1 ∧ (calls.filter (·.finder)).length = 1 ∧
        (callsIn (r.block 1 0) calls).length = 9 := by
  intro b g
  obtain ⟨o, ho⟩ : ∃ o, b.build (fun _ => .error "missing") = .ok o := ⟨_, rfl⟩
  obtain ⟨r, zone, occupancy, calls, stats, hr, -, -, hzone, -, hcalls, hstats, -, haccounts⟩ :=
    render_accounts ho g
  obtain rfl := Except.ok.inj ho
  obtain rfl := Except.ok.inj hr
  obtain rfl := Except.ok.inj hzone
  have hoccluded : stats.occluded = 0 := haccounts.occluded
  have hmodules : 2 = stats.occluded + stats.modules + 0 + 1 := haccounts.modules
  have hfinders : (calls.filter (·.finder)).length = 1 := by
    rw [haccounts.finders]
    rfl
  have hnine := (haccounts.subCells ⟨1, 0, false, .data⟩ (by decide) rfl).2.1
    (Nat.le_refl 3) rfl (by decide)
  exact ⟨_, ho, _, calls, stats, hr, hcalls, hstats, by omega, hfinders, hnine⟩

end Renderer

end QrRender
