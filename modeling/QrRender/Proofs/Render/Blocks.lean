import QrRender.Renderer

/-!
# Blocks and their sub-cells

The blocks of the modules lie side by side inside the border, and the nine sub-cells of a block lie
side by side inside it. Both are boxes that belong to the values of a function of the pixels: the
module in whose block a pixel is, and the third of the block in which it is on either side.

* `Renderer.tiles_squares`: squares of one side for the cells of a grid tile a box;
* **`Renderer.tiles_blocks`**: the blocks of a grid tile the canvas without its borders;
* **`Renderer.tiles_subCells`**: those of the nine sub-cells that have pixels tile their block,
  whatever its width, and the one in the middle is always among them;
* `Renderer.subCellBounds_eq`, `Renderer.subCellBox_eq`: the edges and the boxes of the sub-cells
  are never missing.
-/

namespace QrRender.Renderer

variable {α : Type}

/-! ## 1. Blocks -/

/-- A place on one side, block by block from the border on. -/
theorem mem_block_iff {b l x p : Nat} (hb : 0 < b) :
    x * b + l ≤ p ∧ p < x * b + l + b ↔ l ≤ p ∧ (p - l) / b = x := by
  constructor
  · intro h
    obtain ⟨hlo, hhi⟩ := h
    refine ⟨by omega, ?_⟩
    rw [Nat.div_eq_iff hb]
    omega
  · intro h
    obtain ⟨hl, hx⟩ := h
    rw [Nat.div_eq_iff hb] at hx
    omega

/-- The column and the row of the block in which a pixel is. -/
def moduleAt (r : Renderer α) (px py : Nat) : Nat × Nat :=
  ((px - r.options.border.left) / r.options.blockWidth,
    (py - r.options.border.top) / r.options.blockWidth)

theorem contains_block {r : Renderer α} (hb : 0 < r.options.blockWidth) {x y px py : Nat} :
    (r.block x y).Contains px py ↔
      (r.options.border.left ≤ px ∧ r.options.border.top ≤ py) ∧ r.moduleAt px py = (x, y) := by
  have hcolumn := mem_block_iff (l := r.options.border.left) (x := x) (p := px) hb
  have hrow := mem_block_iff (l := r.options.border.top) (x := y) (p := py) hb
  rw [block, blockOrigin, Box.contains_mk, moduleAt, Prod.mk.injEq, hcolumn, hrow,
    and_and_and_comm]

/-- The canvas without its borders, in the sizes of the canvas. -/
theorem contains_interior {r : Renderer α} {px py : Nat} :
    r.interior.Contains px py ↔
      (r.options.border.left ≤ px ∧ px < r.width - r.options.border.right) ∧
        (r.options.border.top ≤ py ∧ py < r.height - r.options.border.bottom) := by
  rw [interior, Box.contains_mk]
  unfold width height canvasWidth canvasHeight Border.horizontal Border.vertical
  omega

/-- The interior is part of the canvas. -/
theorem interior_within (r : Renderer α) : r.interior.Within ⟨0, 0, r.width, r.height⟩ := by
  intro px py h
  obtain ⟨hx, hy⟩ := contains_interior.mp h
  exact Box.contains_mk.mpr ⟨by omega, by omega⟩

/-- The pixels of the interior are those whose module the grid has. -/
theorem contains_interior_iff_moduleAt {r : Renderer α} (hb : 0 < r.options.blockWidth)
    {px py : Nat} :
    r.interior.Contains px py ↔
      (r.options.border.left ≤ px ∧ r.options.border.top ≤ py) ∧
        (r.moduleAt px py).1 < r.grid.width ∧ (r.moduleAt px py).2 < r.grid.height := by
  rw [interior, Box.contains_mk, moduleAt, Nat.div_lt_iff_lt_mul hb, Nat.div_lt_iff_lt_mul hb]
  unfold width height canvasWidth canvasHeight
  omega

theorem block_nonempty {r : Renderer α} (hb : 0 < r.options.blockWidth) (x y : Nat) :
    (r.block x y).Nonempty :=
  ⟨hb, hb⟩

theorem block_disjoint {r : Renderer α} (hb : 0 < r.options.blockWidth) {x y x' y' : Nat}
    (hne : (x, y) ≠ (x', y')) : (r.block x y).Disjoint (r.block x' y') :=
  Box.Disjoint.of_key r.moduleAt hne (fun _ _ h => ((contains_block hb).mp h).2)
    fun _ _ h => ((contains_block hb).mp h).2

theorem block_within {r : Renderer α} (hb : 0 < r.options.blockWidth) {c : GridCell}
    (hc : c ∈ r.grid.cells) : (r.block c.column c.row).Within r.interior := by
  intro px py h
  rw [contains_block hb] at h
  rw [contains_interior_iff_moduleAt hb, h.2]
  exact ⟨h.1, (Grid.mem_cells.mp hc).1⟩

/-- **Squares of one side, one for each cell of a grid and side by side, tile a box.** -/
theorem tiles_squares (g : Grid) {l t b : Nat} (hb : 0 < b) :
    Box.Tiles (g.cells.map fun c => ⟨c.column * b + l, c.row * b + t, b, b⟩)
      ⟨l, t, g.width * b, g.height * b⟩ := by
  have hplaces : Box.Tiles (((g.cells.map fun c => (c.column, c.row)).map
      fun k => (⟨k.1 * b + l, k.2 * b + t, b, b⟩ : Box)).filter fun b => b.Nonempty)
      ⟨l, t, g.width * b, g.height * b⟩ := by
    refine Box.Tiles.of_key (fun px py => ((px - l) / b, (py - t) / b)) g.nodup_places ?_ ?_
    · intro k hk px py
      obtain ⟨c, hc, rfl⟩ := List.mem_map.mp hk
      obtain ⟨⟨hcolumn, hrow⟩, -⟩ := Grid.mem_cells.mp hc
      rw [Box.contains_mk, Box.contains_mk, mem_block_iff hb, mem_block_iff hb, Prod.mk.injEq]
      constructor
      · intro h
        obtain ⟨⟨hl, hx⟩, ht, hy⟩ := h
        have hx' := (Nat.div_lt_iff_lt_mul hb).mp (Nat.lt_of_le_of_lt (Nat.le_of_eq hx) hcolumn)
        have hy' := (Nat.div_lt_iff_lt_mul hb).mp (Nat.lt_of_le_of_lt (Nat.le_of_eq hy) hrow)
        exact ⟨⟨⟨hl, by omega⟩, ht, by omega⟩, hx, hy⟩
      · intro h
        obtain ⟨⟨⟨hl, -⟩, ht, -⟩, hx, hy⟩ := h
        exact ⟨⟨hl, hx⟩, ht, hy⟩
    · intro px py h
      obtain ⟨⟨hl, hx⟩, ht, hy⟩ := Box.contains_mk.mp h
      have hx' : (px - l) / b < g.width := (Nat.div_lt_iff_lt_mul hb).mpr (by omega)
      have hy' : (py - t) / b < g.height := (Nat.div_lt_iff_lt_mul hb).mpr (by omega)
      obtain ⟨m, hm⟩ := Grid.exists_mem_cells hx' hy'
      exact List.mem_map.mpr ⟨_, hm, rfl⟩
  -- no square is empty, so that none is left out
  have hall : (g.cells.map fun c => (⟨c.column * b + l, c.row * b + t, b, b⟩ : Box)).filter
      (fun b => decide b.Nonempty) =
        g.cells.map fun c => ⟨c.column * b + l, c.row * b + t, b, b⟩ := by
    rw [List.filter_eq_self]
    intro square hmem
    obtain ⟨c, -, rfl⟩ := List.mem_map.mp hmem
    exact decide_eq_true ⟨hb, hb⟩
  rw [List.map_map] at hplaces
  exact hall ▸ hplaces

/-- **The blocks of a grid tile the canvas without its borders.** -/
theorem tiles_blocks {r : Renderer α} (hb : 0 < r.options.blockWidth) :
    Box.Tiles (r.grid.cells.map fun c => r.block c.column c.row) r.interior := by
  have hwidth : r.width - r.options.border.horizontal = r.grid.width * r.options.blockWidth :=
    Nat.add_sub_cancel ..
  have hheight : r.height - r.options.border.vertical = r.grid.height * r.options.blockWidth :=
    Nat.add_sub_cancel ..
  rw [interior, hwidth, hheight]
  exact tiles_squares r.grid hb

/-! ## 2. Sub-cells -/

/-- The edges of the thirds of a block. -/
def subCellEdge (w : Nat) : Nat → Nat
  | 0 => 0
  | 1 => w / 3
  | 2 => w - w / 3
  | _ => w

/-- The third in which a place of a block is. -/
def thirdAt (w p : Nat) : Nat := if p < w / 3 then 0 else if p < w - w / 3 then 1 else 2

theorem subCellEdge_mono (w k : Nat) : subCellEdge w k ≤ subCellEdge w (k + 1) := by
  match k with
  | 0 => exact Nat.zero_le _
  | 1 =>
    show w / 3 ≤ w - w / 3
    omega
  | 2 => exact Nat.sub_le w (w / 3)
  | _ + 3 => exact Nat.le_refl w

theorem mem_third_iff {w k p : Nat} (hk : k < 3) :
    subCellEdge w k ≤ p ∧ p < subCellEdge w (k + 1) ↔ p < w ∧ thirdAt w p = k := by
  unfold thirdAt
  match k, hk with
  | 0, _ =>
    show 0 ≤ p ∧ p < w / 3 ↔ _
    split
    · omega
    split <;> omega
  | 1, _ =>
    show w / 3 ≤ p ∧ p < w - w / 3 ↔ _
    split
    · omega
    split <;> omega
  | 2, _ =>
    show w - w / 3 ≤ p ∧ p < w ↔ _
    split
    · omega
    split <;> omega

/-- The box of a sub-cell in its block. -/
def subCellBlock (w : Nat) (place : Nat × Nat) : Box :=
  ⟨subCellEdge w place.1, subCellEdge w place.2,
    subCellEdge w (place.1 + 1) - subCellEdge w place.1,
    subCellEdge w (place.2 + 1) - subCellEdge w place.2⟩

theorem mem_subCellPlaces {place : Nat × Nat} :
    place ∈ subCellPlaces ↔ place.1 < 3 ∧ place.2 < 3 := by
  unfold subCellPlaces
  simp only [List.mem_flatMap, List.mem_map, List.mem_range]
  constructor
  · intro h
    obtain ⟨j, hj, i, hi, rfl⟩ := h
    exact ⟨hi, hj⟩
  · intro h
    obtain ⟨hi, hj⟩ := h
    exact ⟨place.2, hj, place.1, hi, rfl⟩

theorem contains_subCellBlock {w : Nat} {place : Nat × Nat} (hplace : place ∈ subCellPlaces)
    {px py : Nat} :
    (subCellBlock w place).Contains px py ↔
      (Box.mk 0 0 w w).Contains px py ∧ (thirdAt w px, thirdAt w py) = place := by
  obtain ⟨hi, hj⟩ := mem_subCellPlaces.mp hplace
  have hcolumn := mem_third_iff (w := w) (p := px) hi
  have hrow := mem_third_iff (w := w) (p := py) hj
  have hwidth := Nat.add_sub_of_le (subCellEdge_mono w place.1)
  have hheight := Nat.add_sub_of_le (subCellEdge_mono w place.2)
  rw [subCellBlock, Box.contains_mk, Box.contains_mk, hwidth, hheight, hcolumn, hrow,
    and_and_and_comm, ← Prod.mk.injEq]
  simp only [Nat.zero_add, Nat.zero_le, true_and]

theorem subCellBlock_within {w : Nat} {place : Nat × Nat} (hplace : place ∈ subCellPlaces) :
    (subCellBlock w place).Within ⟨0, 0, w, w⟩ :=
  fun _ _ h => ((contains_subCellBlock hplace).mp h).1

theorem subCellBlock_disjoint {w : Nat} {place place' : Nat × Nat} (hplace : place ∈ subCellPlaces)
    (hplace' : place' ∈ subCellPlaces) (hne : place ≠ place') :
    (subCellBlock w place).Disjoint (subCellBlock w place') :=
  Box.Disjoint.of_key (fun px py => (thirdAt w px, thirdAt w py)) hne
    (fun _ _ h => ((contains_subCellBlock hplace).mp h).2)
    fun _ _ h => ((contains_subCellBlock hplace').mp h).2

/-- The edges of the sub-cells are never missing. -/
theorem subCellBounds_eq (w : Nat) :
    subCellBounds w = .ok ((List.range 4).map (subCellEdge w)) := by
  have hle : w / 3 ≤ w := Nat.div_le_self w 3
  unfold subCellBounds
  simp only [Checked.sub_eq_ok hle]
  rfl

/-- The boxes of the sub-cells are never missing. -/
theorem subCellBox_eq (w : Nat) {place : Nat × Nat} (hplace : place ∈ subCellPlaces) :
    subCellBox ((List.range 4).map (subCellEdge w)) place = .ok (subCellBlock w place) := by
  have hedge : ∀ k < 4,
      Checked.get ((List.range 4).map (subCellEdge w)).toArray k = .ok (subCellEdge w k) := by
    intro k hk
    match k, hk with
    | 0, _ => rfl
    | 1, _ => rfl
    | 2, _ => rfl
    | 3, _ => rfl
  obtain ⟨i, j⟩ := place
  obtain ⟨hi, hj⟩ : i < 3 ∧ j < 3 := mem_subCellPlaces.mp hplace
  simp only [subCellBox, hedge i (by omega), hedge (i + 1) (by omega), hedge j (by omega),
    hedge (j + 1) (by omega)]
  show (do
    return Box.mk _ _ (← Checked.sub (subCellEdge w (i + 1)) (subCellEdge w i))
      (← Checked.sub (subCellEdge w (j + 1)) (subCellEdge w j)) : Except Fault Box) = _
  rw [Checked.sub_eq_ok (subCellEdge_mono w i), Checked.sub_eq_ok (subCellEdge_mono w j)]
  rfl

/-- **The sub-cells with pixels tile their block.** -/
theorem tiles_subCells (w : Nat) :
    Box.Tiles ((subCellPlaces.map (subCellBlock w)).filter fun b => b.Nonempty) ⟨0, 0, w, w⟩ := by
  refine Box.Tiles.of_key (fun px py => (thirdAt w px, thirdAt w py)) (by decide)
    (fun place hplace px py => contains_subCellBlock hplace) fun px py _ => ?_
  have hthird : ∀ p, thirdAt w p < 3 := by
    intro p
    unfold thirdAt
    split
    · omega
    split <;> omega
  exact mem_subCellPlaces.mpr ⟨hthird px, hthird py⟩

/-- The sub-cell in the middle of a block of any width has pixels. -/
theorem subCellBlock_centre {w : Nat} (hw : 0 < w) : (subCellBlock w (1, 1)).Nonempty := by
  have hside : 0 < (w - w / 3) - w / 3 := by omega
  exact ⟨hside, hside⟩

end QrRender.Renderer
