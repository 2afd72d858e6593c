/-!
# Neighbour masks

A mask has one bit for each cell of the three by three neighbourhood of a module, row by row from
the top left, lowest bit first:

    0 1 2
    3 4 5
    6 7 8

Bit four is the module itself. A mask built from a larger number keeps its lowest nine bits.
-/

namespace QrRender

/-- Which cells around a module, and the module's own, are occupied. -/
structure Neighbours where
  mask : BitVec 9
  deriving DecidableEq

namespace Neighbours

/-- The mask in the lowest nine bits of a number. -/
def ofNat (n : Nat) : Neighbours := ⟨BitVec.ofNat 9 n⟩

/-- The mask as a number below 512. -/
def toNat (n : Neighbours) : Nat := n.mask.toNat

/-- The mask with the one bit `k`. -/
def bit (k : Nat) : Neighbours := ofNat (Nat.pow 2 k)

def none : Neighbours := ofNat 0
def topLeft : Neighbours := bit 0
def top : Neighbours := bit 1
def topRight : Neighbours := bit 2
def left : Neighbours := bit 3
def self : Neighbours := bit 4
def right : Neighbours := bit 5
def bottomLeft : Neighbours := bit 6
def bottom : Neighbours := bit 7
def bottomRight : Neighbours := bit 8

instance : Inhabited Neighbours := ⟨none⟩

/-- Every bit of `other` is set. -/
def contains (n other : Neighbours) : Bool := (n.mask &&& other.mask) == other.mask

/-- The bits set in either. -/
def union (a b : Neighbours) : Neighbours := ⟨a.mask ||| b.mask⟩

/-- The steps from a module to the nine cells of its neighbourhood, in the order of the bits. -/
def offsets : List (Int × Int) :=
  [(-1, -1), (0, -1), (1, -1), (-1, 0), (0, 0), (1, 0), (-1, 1), (0, 1), (1, 1)]

/-- The mask whose bit for each step is whether `p` holds there. -/
def ofOffsets (p : Int → Int → Bool) : Neighbours :=
  ⟨BitVec.ofBoolListLE (offsets.map fun (dx, dy) => p dx dy)⟩

end Neighbours

end QrRender
