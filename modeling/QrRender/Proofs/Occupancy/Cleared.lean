import QrRender.Occupancy

/-!
# Cleared cells

What an occupancy says of a cell, and so what its masks say, can be read off the grid and the cells
that have been cleared since.

* `Occupancy.isSet_ofGrid`: at first the dark modules are occupied;
* `Occupancy.clear_spec`: clearing a cell of the grid has an answer, and changes that cell only;
* **`Occupancy.clearAll_spec`**: after any cells have been cleared, those that were occupied and are
  not among them still are;
* `Occupancy.neighbours_congr`: occupancies that agree on the grid have the same masks.
-/

namespace QrRender.Occupancy

/-- At first a cell is occupied exactly if its module is dark. -/
theorem isSet_ofGrid {g : Grid} {x y : Nat} (hx : x < g.width) (hy : y < g.height) {m : Module}
    (hm : g.get x y = .ok m) : (ofGrid g).isSet x y = m.dark := by
  have hi : y * g.width + x < g.modules.size := Grid.index_lt_size hx hy
  obtain rfl : g.modules[y * g.width + x] = m := by
    rw [Grid.get, Grid.index, Checked.get_eq_ok hi] at hm
    exact Except.ok.inj hm
  rw [isSet_natCast (o := ofGrid g) hx hy]
  simp [ofGrid, hi]

/-- Clearing a cell of the grid has an answer, and changes that cell only. -/
theorem clear_spec {o : Occupancy} {x y : Nat} (hx : x < o.width) (hy : y < o.height) :
    ∃ o', o.clear x y = .ok o' ∧ o'.width = o.width ∧ o'.height = o.height ∧
      ∀ px py : Nat, px < o.width → py < o.height →
        o'.isSet px py = (o.isSet px py && !decide (px = x ∧ py = y)) := by
  have hi : y * o.width + x < o.bits.size := by
    rw [o.size_bits]
    exact RowMajor.place_lt hx hy
  refine ⟨_, dif_pos hi, rfl, rfl, fun px py hpx hpy => ?_⟩
  have hplace : y * o.width + x = py * o.width + px ↔ px = x ∧ py = y := by
    rw [RowMajor.place_inj hx hpx]
    exact ⟨fun h => ⟨h.1.symm, h.2.symm⟩, fun h => ⟨h.1.symm, h.2.symm⟩⟩
  refine (isSet_natCast (o := ⟨o.width, o.height, o.bits.set (y * o.width + x) false, _⟩)
    hpx hpy).trans ?_
  rw [isSet_natCast hpx hpy]
  by_cases hxy : px = x ∧ py = y
  · obtain ⟨rfl, rfl⟩ := hxy
    simp [hi]
  · have hne : ¬ y * o.width + x = py * o.width + px := fun h => hxy (hplace.mp h)
    simp [hne, hxy]

/-- The occupancy with some cells cleared, one after the other. -/
def clearAll (o : Occupancy) (places : List (Nat × Nat)) : Except Fault Occupancy :=
  places.foldlM (fun o p => o.clear p.1 p.2) o

/-- **After any cells of the grid have been cleared**, a cell is occupied exactly if it was and is
    not one of them. -/
theorem clearAll_spec {places : List (Nat × Nat)} {o : Occupancy}
    (h : ∀ p ∈ places, p.1 < o.width ∧ p.2 < o.height) :
    ∃ o', o.clearAll places = .ok o' ∧ o'.width = o.width ∧ o'.height = o.height ∧
      ∀ x y : Nat, x < o.width → y < o.height →
        o'.isSet x y = (o.isSet x y && !places.contains (x, y)) := by
  induction places generalizing o with
  | nil => exact ⟨o, rfl, rfl, rfl, fun x y _ _ => (Bool.and_true _).symm⟩
  | cons p places ih =>
    obtain ⟨hx, hy⟩ := h p List.mem_cons_self
    obtain ⟨next, hnext, hw, hh, hbit⟩ := clear_spec hx hy
    have hrest : ∀ q ∈ places, q.1 < next.width ∧ q.2 < next.height := by
      rw [hw, hh]
      exact fun q hq => h q (List.mem_cons_of_mem p hq)
    obtain ⟨o', ho', hw', hh', hbits⟩ := ih hrest
    refine ⟨o', ?_, hw'.trans hw, hh'.trans hh, fun x y hx hy => ?_⟩
    · rw [clearAll, List.foldlM_cons, hnext]
      exact ho'
    · have hfirst : ((x, y) == p) = decide (x = p.1 ∧ y = p.2) := by
        rw [Bool.eq_iff_iff, beq_iff_eq, decide_eq_true_eq, Prod.ext_iff]
      rw [hbits x y (hw ▸ hx) (hh ▸ hy), hbit x y hx hy, List.contains_cons, hfirst, Bool.not_or,
        Bool.and_assoc]

/-- Occupancies that agree on the grid agree everywhere. -/
theorem isSet_congr {a b : Occupancy} (hw : a.width = b.width) (hh : a.height = b.height)
    (h : ∀ x y : Nat, x < b.width → y < b.height → a.isSet x y = b.isSet x y) (x y : Int) :
    a.isSet x y = b.isSet x y := by
  by_cases hin : 0 ≤ x ∧ x.toNat < b.width ∧ 0 ≤ y ∧ y.toNat < b.height
  · obtain ⟨hx, hxw, hy, hyh⟩ := hin
    have hbit := h x.toNat y.toNat hxw hyh
    rwa [Int.toNat_of_nonneg hx, Int.toNat_of_nonneg hy] at hbit
  · rw [isSet_eq_false hin, isSet_eq_false (by rwa [hw, hh])]

/-- Occupancies that agree on the grid have the same masks. -/
theorem neighbours_congr {a b : Occupancy} (hw : a.width = b.width) (hh : a.height = b.height)
    (h : ∀ x y : Nat, x < b.width → y < b.height → a.isSet x y = b.isSet x y) (x y : Nat) :
    a.neighbours x y = b.neighbours x y := by
  simp only [neighbours, isSet_congr hw hh h]

end QrRender.Occupancy
