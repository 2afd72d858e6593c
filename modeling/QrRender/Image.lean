import QrRender.Color.Blend
import QrRender.Fault
import QrRender.RowMajor

/-!
# Images

An image is a rectangle of colours, row by row, whose array has as many entries as the sides say.
It is seen through `pixel?`, the colour at a column and a row if both are inside; every operation
below is described by what it does to that view.
-/

namespace QrRender

/-- A rectangle of colours, row by row. -/
structure Image where
  width : Nat
  height : Nat
  pixels : Array Rgba
  size_pixels : pixels.size = width * height
  deriving DecidableEq

namespace Image

/-- The image whose pixel at column `x`, row `y` is `f x y`. -/
def ofFn (w h : Nat) (f : Nat → Nat → Rgba) : Image where
  width := w
  height := h
  pixels := Array.ofFn fun i : Fin (w * h) => f (i.val % w) (i.val / w)
  size_pixels := Array.size_ofFn

/-- One colour throughout. -/
def filled (w h : Nat) (c : Rgba) : Image where
  width := w
  height := h
  pixels := Array.replicate (w * h) c
  size_pixels := Array.size_replicate

/-- The colour at column `x`, row `y`, if they are inside. -/
def pixel? (img : Image) (x y : Nat) : Option Rgba :=
  if x < img.width ∧ y < img.height then img.pixels[y * img.width + x]? else none

/-- The colour at column `x`, row `y`, or a fault outside. -/
def get (img : Image) (x y : Nat) : Except Fault Rgba :=
  match img.pixel? x y with
  | some c => .ok c
  | none => .error .outOfRange

/-- The image with the colour at column `x`, row `y` replaced by its value under `f`; nothing
    changes outside. -/
def modify (img : Image) (x y : Nat) (f : Rgba → Rgba) : Image :=
  if x < img.width ∧ y < img.height then
    { img with pixels := img.pixels.modify (y * img.width + x) f
               size_pixels := by rw [Array.size_modify]; exact img.size_pixels }
  else img

/-! ## What each operation does to the view -/

/-- Colours are seen exactly inside the image. -/
theorem isSome_pixel? (img : Image) (x y : Nat) :
    (img.pixel? x y).isSome = true ↔ x < img.width ∧ y < img.height := by
  unfold pixel?
  split
  · rename_i h
    have hi : y * img.width + x < img.pixels.size := by
      rw [img.size_pixels]; exact RowMajor.place_lt h.1 h.2
    simp [Array.getElem?_eq_getElem hi, h]
  · rename_i h
    simp [h]

theorem get_eq_ok {img : Image} {x y : Nat} (hx : x < img.width) (hy : y < img.height) :
    img.get x y = .ok ((img.pixel? x y).getD default) := by
  have hsome := (img.isSome_pixel? x y).mpr ⟨hx, hy⟩
  obtain ⟨c, hc⟩ := Option.isSome_iff_exists.mp hsome
  rw [get, hc]
  rfl

theorem pixel?_eq_none {img : Image} {x y : Nat} (h : ¬(x < img.width ∧ y < img.height)) :
    img.pixel? x y = none :=
  if_neg h

theorem pixel?_eq_getElem? {img : Image} {x y : Nat} (h : x < img.width ∧ y < img.height) :
    img.pixel? x y = img.pixels[y * img.width + x]? :=
  if_pos h

theorem pixel?_ofFn (w h : Nat) (f : Nat → Nat → Rgba) (x y : Nat) :
    (ofFn w h f).pixel? x y = if x < w ∧ y < h then some (f x y) else none := by
  by_cases hxy : x < w ∧ y < h
  · have hi : y * w + x < w * h := RowMajor.place_lt hxy.1 hxy.2
    rw [if_pos hxy]
    refine (pixel?_eq_getElem? hxy).trans ?_
    simp only [ofFn, Array.getElem?_ofFn, hi, dite_true, RowMajor.place_mod hxy.1,
      RowMajor.place_div hxy.1]
  · rw [if_neg hxy]
    exact pixel?_eq_none hxy

theorem pixel?_filled (w h : Nat) (c : Rgba) (x y : Nat) :
    (filled w h c).pixel? x y = if x < w ∧ y < h then some c else none := by
  by_cases hxy : x < w ∧ y < h
  · have hi : y * w + x < w * h := RowMajor.place_lt hxy.1 hxy.2
    rw [if_pos hxy]
    refine (pixel?_eq_getElem? hxy).trans ?_
    simp only [filled, Array.getElem?_replicate, hi, if_true]
  · rw [if_neg hxy]
    exact pixel?_eq_none hxy

@[simp] theorem width_modify (img : Image) (x y : Nat) (f : Rgba → Rgba) :
    (img.modify x y f).width = img.width := by
  unfold modify
  split <;> rfl

@[simp] theorem height_modify (img : Image) (x y : Nat) (f : Rgba → Rgba) :
    (img.modify x y f).height = img.height := by
  unfold modify
  split <;> rfl

/-- `modify` changes the one colour and no other. -/
theorem pixel?_modify (img : Image) (x y : Nat) (f : Rgba → Rgba) (px py : Nat) :
    (img.modify x y f).pixel? px py =
      if px = x ∧ py = y then (img.pixel? px py).map f else img.pixel? px py := by
  by_cases hp : px < img.width ∧ py < img.height
  · have hp' : px < (img.modify x y f).width ∧ py < (img.modify x y f).height := by simpa using hp
    rw [pixel?_eq_getElem? hp', pixel?_eq_getElem? hp, width_modify]
    by_cases hin : x < img.width ∧ y < img.height
    · have hplace : y * img.width + x = py * img.width + px ↔ px = x ∧ py = y := by
        rw [RowMajor.place_inj hin.1 hp.1]
        exact ⟨fun h => ⟨h.1.symm, h.2.symm⟩, fun h => ⟨h.1.symm, h.2.symm⟩⟩
      simp only [modify, if_pos hin, Array.getElem?_modify, hplace]
    · have hne : ¬(px = x ∧ py = y) := by
        rintro ⟨rfl, rfl⟩
        exact hin hp
      simp only [modify, if_neg hin, if_neg hne]
  · have hp' : ¬(px < (img.modify x y f).width ∧ py < (img.modify x y f).height) := by
      simpa using hp
    rw [pixel?_eq_none hp', pixel?_eq_none hp]
    simp

/-! ## All pixels -/

/-- The columns and rows of an image, row by row. -/
def positions (img : Image) : List (Nat × Nat) :=
  (List.range img.height).flatMap fun y => (List.range img.width).map fun x => (x, y)

theorem mem_positions (img : Image) (x y : Nat) :
    (x, y) ∈ img.positions ↔ x < img.width ∧ y < img.height := by
  simp only [positions, List.mem_flatMap, List.mem_map, List.mem_range, Prod.mk.injEq]
  constructor
  · rintro ⟨j, hj, i, hi, rfl, rfl⟩
    exact ⟨hi, hj⟩
  · rintro ⟨hx, hy⟩
    exact ⟨y, hy, x, hx, rfl, rfl⟩

/-- The image with the pixels of `top`, its corner at column `x`, row `y`, laid over it. What
    lies outside is cut. -/
def overlay (img top : Image) (x y : Int) : Image :=
  (positions top).foldl (fun acc (i, j) =>
    let px := x + i
    let py := y + j
    if 0 ≤ px ∧ 0 ≤ py then
      match top.pixel? i j with
      | some c => acc.modify px.toNat py.toNat fun below => c.laidOver below
      | none => acc
    else acc) img

end Image

end QrRender
