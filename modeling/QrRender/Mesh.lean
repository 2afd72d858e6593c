import QrRender.Box
import QrRender.Image

/-!
# Rectangle meshes

`decompose` covers the foreground of an image with rectangles of one colour each. It goes through
the pixels row by row. At a foreground pixel that no rectangle covers yet, a rectangle grows to the
right as long as the next pixel is free and has exactly the same colour, and then downwards as long
as the whole next row of it is free and of that colour.

`paintRects` goes the other way: it puts rectangles onto an image, later ones over earlier ones.
-/

namespace QrRender

/-- A rectangle of one colour. -/
structure ColorRect where
  x : Nat
  y : Nat
  width : Nat
  height : Nat
  color : Rgba
  deriving DecidableEq

namespace ColorRect

/-- The number of pixels. -/
def area (r : ColorRect) : Nat := r.width * r.height

/-- Whether the pixel at column `px`, row `py` is covered. -/
def contains (r : ColorRect) (px py : Nat) : Bool :=
  r.x ≤ px && px < r.x + r.width && r.y ≤ py && py < r.y + r.height

/-- The pixels of a rectangle. -/
def box (r : ColorRect) : Box := ⟨r.x, r.y, r.width, r.height⟩

theorem contains_iff {r : ColorRect} {px py : Nat} :
    r.contains px py = true ↔ r.box.Contains px py := by
  simp [contains, box, Box.Contains, and_assoc]

end ColorRect

namespace Mesh

/-- How many of the `n` numbers from `i` on satisfy `p`, up to the first that does not. -/
def runLength (p : Nat → Bool) : Nat → Nat → Nat
  | 0, _ => 0
  | n + 1, i => if p i then runLength p n (i + 1) + 1 else 0

theorem runLength_le (p : Nat → Bool) (n i : Nat) : runLength p n i ≤ n := by
  induction n generalizing i with
  | zero => exact Nat.le_refl 0
  | succ n ih =>
    simp only [runLength]
    split
    · exact Nat.succ_le_succ (ih (i + 1))
    · exact Nat.zero_le _

/-- Every number of the run satisfies `p`. -/
theorem runLength_holds {p : Nat → Bool} {n i k : Nat} (hk : k < runLength p n i) :
    p (i + k) = true := by
  induction n generalizing i k with
  | zero => exact absurd hk (Nat.not_lt_zero k)
  | succ n ih =>
    simp only [runLength] at hk
    split at hk
    · rename_i hp
      cases k with
      | zero => exact hp
      | succ k =>
        have hrest := ih (Nat.lt_of_succ_lt_succ hk)
        rwa [Nat.add_right_comm] at hrest
    · exact absurd hk (Nat.not_lt_zero k)

/-- A run that ends early ends at a number that does not satisfy `p`. -/
theorem runLength_ends {p : Nat → Bool} {n i : Nat} (h : runLength p n i < n) :
    p (i + runLength p n i) = false := by
  induction n generalizing i with
  | zero => exact absurd h (Nat.not_lt_zero _)
  | succ n ih =>
    simp only [runLength] at h ⊢
    split at h
    · rename_i hp
      have hrest := ih (Nat.lt_of_succ_lt_succ h)
      rw [if_pos hp]
      rwa [Nat.add_right_comm] at hrest
    · rename_i hp
      rw [if_neg hp]
      simpa using hp

/-- The rectangles found so far, latest first, and the pixels they cover. -/
structure Progress where
  covered : Array Bool
  rects : List ColorRect

namespace Progress

/-- Nothing found yet in an image of this size. -/
def start (img : Image) : Progress := ⟨Array.replicate (img.width * img.height) false, []⟩

/-- Whether the pixel at column `x`, row `y` is covered. -/
def isCovered (s : Progress) (img : Image) (x y : Nat) : Bool :=
  s.covered.getD (y * img.width + x) true

/-- Whether the pixel at column `x`, row `y` is free and has the colour `c`. -/
def isOpen (s : Progress) (img : Image) (c : Rgba) (x y : Nat) : Bool :=
  !s.isCovered img x y && img.pixel? x y == some c

/-- The rectangle that grows from column `x`, row `y`. -/
def grow (s : Progress) (img : Image) (x y : Nat) (c : Rgba) : ColorRect :=
  let w := 1 + runLength (fun i => s.isOpen img c i y) (img.width - (x + 1)) (x + 1)
  let h := 1 + runLength (fun j => (List.range w).all fun k => s.isOpen img c (x + k) j)
    (img.height - (y + 1)) (y + 1)
  ⟨x, y, w, h, c⟩

/-- One more rectangle, its pixels covered. -/
def add (s : Progress) (img : Image) (r : ColorRect) : Progress where
  covered := (List.range r.height).foldl (fun acc j =>
    (List.range r.width).foldl (fun acc i =>
      acc.setIfInBounds ((r.y + j) * img.width + (r.x + i)) true) acc) s.covered
  rects := r :: s.rects

/-- The step at one pixel. -/
def visit (img : Image) (elision : Elision) (s : Progress) (position : Nat × Nat) : Progress :=
  let (x, y) := position
  match img.pixel? x y with
  | none => s
  | some c =>
    if s.isCovered img x y || elision.isBackground c then s
    else s.add img (s.grow img x y c)

end Progress

/-- The rectangles that cover the foreground of an image. -/
def decompose (img : Image) (elision : Elision) : List ColorRect :=
  (img.positions.foldl (Progress.visit img elision) (Progress.start img)).rects.reverse

/-- A number of 32 bits read with a sign: the upper half stands for the negative numbers. -/
def signed32 (n : Nat) : Int :=
  let low := n % 4294967296
  if low < 2147483648 then low else (low : Int) - 4294967296

/-- The numbers from `start` to before `start + length` that lie in `0 .. limit - 1`. -/
def clipped (start length : Int) (limit : Nat) : List Nat :=
  let first := start.toNat
  let last := min (start + length).toNat limit
  (List.range (last - first)).map (first + ·)

/-- The pixels of a rectangle in the colour, from a column and a row on. What lies outside of the
    image is cut. -/
def fillRect (img : Image) (left top width height : Int) (c : Rgba) : Image :=
  (clipped top height img.height).foldl (fun acc py =>
    (clipped left width img.width).foldl (fun acc px => acc.modify px py fun _ => c) acc) img

/-- One rectangle on the image, its four numbers read with a sign. A rectangle without pixels is a
    fault, and so is an image without pixels. -/
def paintRect (img : Image) (r : ColorRect) : Except Fault Image :=
  if r.width = 0 ∨ r.height = 0 ∨ img.width = 0 ∨ img.height = 0 then .error .emptyRectangle
  else
    .ok (fillRect img (signed32 r.x) (signed32 r.y) (signed32 r.width) (signed32 r.height) r.color)

/-- The rectangles on the image, one after the other and without blending. -/
def paintRects (img : Image) (rects : List ColorRect) : Except Fault Image :=
  rects.foldlM paintRect img

end Mesh

end QrRender
