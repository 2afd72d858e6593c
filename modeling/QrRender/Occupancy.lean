import QrRender.Grid
import QrRender.Neighbours
import QrRender.RowMajor

/-!
# Occupancy

Which modules are dark, taken from a grid once before it is drawn. Cells can be cleared
afterwards, so that modules which will not be drawn count as light in the masks of the cells
around them.
-/

namespace QrRender

/-- One bit a cell, row by row. -/
structure Occupancy where
  width : Nat
  height : Nat
  bits : Array Bool
  size_bits : bits.size = width * height

namespace Occupancy

/-- The dark modules of a grid. -/
def ofGrid (g : Grid) : Occupancy where
  width := g.width
  height := g.height
  bits := g.modules.map Module.dark
  size_bits := by rw [Array.size_map]; exact g.size_modules

/-- The occupancy with the cell at column `x`, row `y` cleared. Like the modules of a grid, the
    cells are reached by their place in the array. -/
def clear (o : Occupancy) (x y : Nat) : Except Fault Occupancy :=
  if h : y * o.width + x < o.bits.size then
    .ok { o with bits := o.bits.set (y * o.width + x) false
                 size_bits := by rw [Array.size_set]; exact o.size_bits }
  else .error .outOfRange

/-- Whether the cell at column `x`, row `y` is occupied; no cell outside the grid is. -/
def isSet (o : Occupancy) (x y : Int) : Bool :=
  if h : 0 ≤ x ∧ x.toNat < o.width ∧ 0 ≤ y ∧ y.toNat < o.height then
    have : y.toNat * o.width + x.toNat < o.bits.size := by
      rw [o.size_bits]; exact RowMajor.place_lt h.2.1 h.2.2.2
    o.bits[y.toNat * o.width + x.toNat]
  else false

theorem isSet_eq_false {o : Occupancy} {x y : Int}
    (h : ¬(0 ≤ x ∧ x.toNat < o.width ∧ 0 ≤ y ∧ y.toNat < o.height)) : o.isSet x y = false :=
  dif_neg h

theorem isSet_natCast {o : Occupancy} {x y : Nat} (hx : x < o.width) (hy : y < o.height) :
    o.isSet x y = (o.bits[y * o.width + x]?.getD false) := by
  have hi : y * o.width + x < o.bits.size := by
    rw [o.size_bits]; exact RowMajor.place_lt hx hy
  simp [isSet, hx, hy, Array.getElem?_eq_getElem hi]

/-- The mask of the cell at column `x`, row `y`. -/
def neighbours (o : Occupancy) (x y : Nat) : Neighbours :=
  Neighbours.ofOffsets fun dx dy => o.isSet (x + dx) (y + dy)

end Occupancy

end QrRender
