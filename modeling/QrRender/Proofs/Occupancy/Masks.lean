import QrRender.Proofs.Occupancy.Cleared

/-!
# Masks bit by bit

The mask of a cell says of each of the nine cells around it and of itself whether it is occupied.
Which bit stands for which of them is fixed by the step from the one to the other, and what a bit
says is known from the grid and the cells that have been cleared: at the edges of the grid nothing
is occupied outside, and no row runs on into the next.

* `Neighbours.IsStep`, `Neighbours.place`: the steps of a neighbourhood and their bits;
* `Neighbours.testBit_ofOffsets`, `Neighbours.contains_ofOffsets`: the bits of a mask;
* `Grid.Remains`: what is left of the dark modules after some cells have been cleared;
* `Occupancy.exists_clearAll`: and that is what an occupancy says after they have been;
* **`Occupancy.masks_after_clearing`**: each bit of each mask, and masks of cells next to one
  another agree.
-/

namespace QrRender

/-! ## 1. The bits of a mask -/

namespace Neighbours

/-- A step from a cell to one of its neighbourhood, or to itself. -/
def IsStep (dx dy : Int) : Prop := (-1 ≤ dx ∧ dx ≤ 1) ∧ -1 ≤ dy ∧ dy ≤ 1

/-- The bit for a step. -/
def place (dx dy : Int) : Nat := (3 * (dy + 1) + (dx + 1)).toNat

theorem place_lt {dx dy : Int} (h : IsStep dx dy) : place dx dy < 9 := by
  obtain ⟨hx, hy⟩ := h
  unfold place
  omega

/-- The steps stand in the order of their bits. -/
theorem getElem?_offsets {k : Nat} {dx dy : Int} :
    offsets[k]? = some (dx, dy) ↔ IsStep dx dy ∧ k = place dx dy := by
  have hrows : offsets =
      (List.range 9).map fun k => (((k % 3 : Nat) : Int) - 1, ((k / 3 : Nat) : Int) - 1) := by
    decide
  rw [hrows, List.getElem?_map, Option.map_eq_some_iff]
  simp only [List.getElem?_eq_some_iff, List.length_range, List.getElem_range, Prod.mk.injEq,
    IsStep, place]
  constructor
  · intro h
    obtain ⟨i, ⟨hk, rfl⟩, hx, hy⟩ := h
    omega
  · intro h
    exact ⟨k, ⟨by omega, rfl⟩, by omega, by omega⟩

/-- A bit of a mask is set exactly if it is the bit of a step on which `p` holds. -/
theorem testBit_ofOffsets {p : Int → Int → Bool} {k : Nat} :
    (ofOffsets p).toNat.testBit k = true ↔
      ∃ dx dy, IsStep dx dy ∧ k = place dx dy ∧ p dx dy = true := by
  have hbit : (ofOffsets p).toNat.testBit k =
      ((offsets.map fun step => p step.1 step.2)[k]?).getD false := by
    rw [toNat, BitVec.testBit_toNat, ← List.getD_eq_getElem?_getD]
    exact BitVec.getLsbD_ofBoolListLE
  rw [hbit, List.getElem?_map]
  constructor
  · intro h
    cases hk : offsets[k]? with
    | none =>
      rw [hk] at h
      cases h
    | some step =>
      obtain ⟨dx, dy⟩ := step
      obtain ⟨hstep, hplace⟩ := getElem?_offsets.mp hk
      rw [hk] at h
      exact ⟨dx, dy, hstep, hplace, h⟩
  · intro h
    obtain ⟨dx, dy, hstep, hplace, hp⟩ := h
    rw [getElem?_offsets.mpr ⟨hstep, hplace⟩]
    exact hp

/-- A mask contains one of the nine bits exactly if it is set. -/
theorem contains_bit (n : Neighbours) {k : Nat} (hk : k < 9) :
    n.contains (bit k) = n.toNat.testBit k := by
  have hpow : (bit k).mask = BitVec.twoPow 9 k := by
    apply BitVec.eq_of_toNat_eq
    rw [BitVec.toNat_twoPow]
    rfl
  have hset : (BitVec.twoPow 9 k).getLsbD k = true := by simp [hk]
  rw [contains, hpow, BitVec.and_twoPow, toNat, BitVec.testBit_toNat]
  cases n.mask.getLsbD k with
  | true => simp
  | false =>
    have hne : ¬0#9 = BitVec.twoPow 9 k := by
      intro h
      rw [← h] at hset
      simp at hset
    simpa using hne

/-- The bit of a step says whether `p` holds on it. -/
theorem contains_ofOffsets {p : Int → Int → Bool} {dx dy : Int} (h : IsStep dx dy) :
    (ofOffsets p).contains (bit (place dx dy)) = p dx dy := by
  rw [contains_bit _ (place_lt h), Bool.eq_iff_iff, testBit_ofOffsets]
  constructor
  · intro hbit
    obtain ⟨dx', dy', hstep, hplace, hp⟩ := hbit
    -- a bit belongs to one step only
    have hsame := getElem?_offsets.mpr ⟨hstep, hplace⟩
    rw [getElem?_offsets.mpr ⟨h, rfl⟩] at hsame
    obtain ⟨rfl, rfl⟩ := Prod.mk.inj (Option.some.inj hsame)
    exact hp
  · intro hp
    exact ⟨dx, dy, h, rfl, hp⟩

end Neighbours

/-! ## 2. What is left of a grid -/

/-- The place is one of the grid, its module is dark, and it has not been cleared. -/
def Grid.Remains (g : Grid) (cleared : List (Nat × Nat)) (x y : Int) : Prop :=
  ∃ c ∈ g.cells, ((c.column : Int) = x ∧ (c.row : Int) = y) ∧ c.content.dark = true ∧
    (c.column, c.row) ∉ cleared

namespace Occupancy

/-- **After some cells have been cleared**, in any order and however often, those are occupied that
    are left of the dark modules. -/
theorem exists_clearAll {g : Grid} {cleared : List (Nat × Nat)}
    (h : ∀ p ∈ cleared, p.1 < g.width ∧ p.2 < g.height) :
    ∃ o, (ofGrid g).clearAll cleared = .ok o ∧ o.width = g.width ∧ o.height = g.height ∧
      ∀ x y : Int, o.isSet x y = true ↔ g.Remains cleared x y := by
  obtain ⟨o, ho, hw, hh, hbits⟩ := clearAll_spec (o := ofGrid g) h
  have hw : o.width = g.width := hw
  have hh : o.height = g.height := hh
  refine ⟨o, ho, hw, hh, fun x y => ⟨fun hset => ?_, fun hleft => ?_⟩⟩
  · by_cases hin : 0 ≤ x ∧ x.toNat < o.width ∧ 0 ≤ y ∧ y.toNat < o.height
    · obtain ⟨hx, hxw, hy, hyh⟩ := hin
      rw [hw] at hxw
      rw [hh] at hyh
      obtain ⟨m, hm⟩ := Grid.exists_mem_cells hxw hyh
      have hbit := hbits x.toNat y.toNat hxw hyh
      rw [isSet_ofGrid hxw hyh (Grid.mem_cells.mp hm).2, Int.toNat_of_nonneg hx,
        Int.toNat_of_nonneg hy, hset] at hbit
      obtain ⟨hdark, hnot⟩ := Bool.and_eq_true_iff.mp hbit.symm
      exact ⟨_, hm, ⟨Int.toNat_of_nonneg hx, Int.toNat_of_nonneg hy⟩, hdark,
        by simpa using hnot⟩
    · rw [isSet_eq_false hin] at hset
      cases hset
  · obtain ⟨c, hc, ⟨rfl, rfl⟩, hdark, hnot⟩ := hleft
    obtain ⟨⟨hx, hy⟩, hm⟩ := Grid.mem_cells.mp hc
    rw [hbits _ _ hx hy, isSet_ofGrid hx hy hm, hdark]
    simpa using hnot

/-- A mask contains the bit of a step exactly if the cell there is occupied. -/
theorem contains_neighbours (o : Occupancy) (x y : Nat) {dx dy : Int}
    (h : Neighbours.IsStep dx dy) :
    (o.neighbours x y).contains (.bit (Neighbours.place dx dy)) = o.isSet (x + dx) (y + dy) :=
  Neighbours.contains_ofOffsets h

/-- A mask has the bit of its own cell exactly if that is occupied. -/
theorem contains_self (o : Occupancy) (x y : Nat) :
    (o.neighbours x y).contains .self = o.isSet x y := by
  have hstep : Neighbours.IsStep 0 0 := ⟨by decide, by decide⟩
  have hself := o.contains_neighbours x y hstep
  rwa [Int.add_zero, Int.add_zero] at hself

/-- **Masks after any clearing.** After any cells of the grid have been cleared, the mask of a cell
    has the bit `3 * (dy + 1) + (dx + 1)` for each step to a cell that is left, and no other. So the
    masks of cells next to one another agree: a mask has the bit for a step exactly if there is a
    cell of the grid whose own mask has the bit for itself. -/
theorem masks_after_clearing {g : Grid} {cleared : List (Nat × Nat)}
    (h : ∀ p ∈ cleared, p.1 < g.width ∧ p.2 < g.height) :
    ∃ o, (ofGrid g).clearAll cleared = .ok o ∧ ∀ x y : Nat,
      (∀ k : Nat, (o.neighbours x y).toNat.testBit k = true ↔
        ∃ dx dy : Int, Neighbours.IsStep dx dy ∧ (k : Int) = 3 * (dy + 1) + (dx + 1) ∧
          g.Remains cleared (x + dx) (y + dy)) ∧
      ∀ dx dy : Int, Neighbours.IsStep dx dy →
        ((o.neighbours x y).contains (.bit (Neighbours.place dx dy)) = true ↔
          ∃ x' y' : Nat, (x' < g.width ∧ y' < g.height) ∧
            ((x' : Int) = x + dx ∧ (y' : Int) = y + dy) ∧
            (o.neighbours x' y').contains .self = true) := by
  obtain ⟨o, ho, -, -, hset⟩ := exists_clearAll h
  refine ⟨o, ho, fun x y => ⟨fun k => ?_, fun dx dy hstep => ?_⟩⟩
  · have hplace : ∀ {dx dy : Int}, Neighbours.IsStep dx dy →
        (k = Neighbours.place dx dy ↔ (k : Int) = 3 * (dy + 1) + (dx + 1)) := by
      intro dx dy hstep
      obtain ⟨hx, hy⟩ := hstep
      unfold Neighbours.place
      omega
    rw [neighbours, Neighbours.testBit_ofOffsets]
    constructor
    · intro hbit
      obtain ⟨dx, dy, hstep, hk, hdark⟩ := hbit
      exact ⟨dx, dy, hstep, (hplace hstep).mp hk, (hset _ _).mp hdark⟩
    · intro hbit
      obtain ⟨dx, dy, hstep, hk, hleft⟩ := hbit
      exact ⟨dx, dy, hstep, (hplace hstep).mpr hk, (hset _ _).mpr hleft⟩
  · rw [o.contains_neighbours x y hstep]
    constructor
    · intro hdark
      obtain ⟨c, hc, ⟨hx, hy⟩, -⟩ := (hset _ _).mp hdark
      refine ⟨c.column, c.row, (Grid.mem_cells.mp hc).1, ⟨hx, hy⟩, ?_⟩
      rw [contains_self, hx, hy]
      exact hdark
    · intro hself
      obtain ⟨x', y', -, ⟨hx, hy⟩, hdark⟩ := hself
      rwa [contains_self, hx, hy] at hdark

/-- In two rows of three dark modules, the middle one below cleared, the upper right cell sees the
    one below it, but not the cleared one. -/
theorem masks_after_clearing_corner :
    let g := Grid.ofFn 3 2 fun _ _ => ⟨true, .data⟩
    (∀ p ∈ [(1, 1)], p.1 < g.width ∧ p.2 < g.height) ∧
      ∃ o, (ofGrid g).clearAll [(1, 1)] = .ok o ∧
        (o.neighbours 2 0).toNat.testBit 7 = true ∧ (o.neighbours 2 0).toNat.testBit 6 = false := by
  intro g
  have hcleared : ∀ p ∈ [(1, 1)], p.1 < g.width ∧ p.2 < g.height := by decide
  obtain ⟨o, ho, hmasks⟩ := masks_after_clearing hcleared
  obtain ⟨hbits, -⟩ := hmasks 2 0
  refine ⟨hcleared, o, ho, (hbits 7).mpr ?_, Bool.eq_false_iff.mpr fun hbit => ?_⟩
  · exact ⟨0, 1, ⟨by decide, by decide⟩, rfl, ⟨2, 1, ⟨true, .data⟩⟩, by decide, ⟨rfl, rfl⟩, rfl,
      by decide⟩
  · obtain ⟨dx, dy, ⟨hx, hy⟩, hk, c, -, ⟨hcolumn, hrow⟩, -, hnot⟩ := (hbits 6).mp hbit
    obtain ⟨hc, hr⟩ : c.column = 1 ∧ c.row = 1 := by omega
    rw [hc, hr] at hnot
    exact hnot List.mem_cons_self

end Occupancy

end QrRender
