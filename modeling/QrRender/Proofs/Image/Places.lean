import Mathlib.Data.List.Nodup
import QrRender.Image

/-!
# Changing the colours of some places

Everything that is painted on an image changes the colours of some places and leaves all others as
they were. This file says so once for all painters:

* `Image.Changed`: what it is for one image to differ from another at some places only;
* `Image.modifyAll_changed`: changing the colours of a list of places, one after the other;
* `Image.nodup_grid`: the places of some rows, as painters go through them, are all different;
* **`Image.foldlM_changed`**: a run of painters gives every pixel the changes of those that reach
  it, in their order.
-/

namespace QrRender.Image

/-- Images of one size with the same colours are the same. -/
theorem ext_pixel? {img img' : Image} (hw : img.width = img'.width)
    (hh : img.height = img'.height) (h : ∀ x y, img.pixel? x y = img'.pixel? x y) : img = img' := by
  obtain ⟨w, h', pixels, hsize⟩ := img
  obtain ⟨w', h'', pixels', hsize'⟩ := img'
  obtain rfl : w = w' := hw
  obtain rfl : h' = h'' := hh
  suffices pixels = pixels' by
    subst this
    rfl
  refine Array.ext (hsize.trans hsize'.symm) fun i hi hi' => ?_
  obtain ⟨hx, hy⟩ := RowMajor.mod_lt_div_lt (hsize ▸ hi)
  have hpixel := h (i % w) (i / w)
  simp only [pixel?, if_pos (And.intro hx hy), RowMajor.place_mod_div] at hpixel
  rw [Array.getElem?_eq_getElem hi, Array.getElem?_eq_getElem hi'] at hpixel
  exact Option.some.inj hpixel

/-- `out` is the image `img` with the colours of the places of `p` replaced by their values under
    `f`. -/
structure Changed (img out : Image) (p : Nat → Nat → Bool) (f : Rgba → Rgba) : Prop where
  width : out.width = img.width
  height : out.height = img.height
  pixel : ∀ x y, out.pixel? x y = if p x y then (img.pixel? x y).map f else img.pixel? x y

/-- What is changed outside the image does not matter. -/
theorem Changed.congr {img out : Image} {p q : Nat → Nat → Bool} {f : Rgba → Rgba}
    (h : img.Changed out p f)
    (hpq : ∀ x y, x < img.width → y < img.height → p x y = q x y) : img.Changed out q f where
  width := h.width
  height := h.height
  pixel x y := by
    rw [h.pixel]
    by_cases hxy : x < img.width ∧ y < img.height
    · rw [hpq x y hxy.1 hxy.2]
    · rw [pixel?_eq_none hxy]
      simp

/-! ## 1. Lists of places -/

/-- The image with the colours of some places changed, one place after the other. -/
def modifyAll (img : Image) (places : List (Nat × Nat)) (f : Rgba → Rgba) : Image :=
  places.foldl (fun acc p => acc.modify p.1 p.2 f) img

/-- Changing the colours of different places changes each of them once and no other. -/
theorem modifyAll_changed (img : Image) {places : List (Nat × Nat)} (h : places.Nodup)
    (f : Rgba → Rgba) :
    img.Changed (img.modifyAll places f) (fun x y => places.contains (x, y)) f := by
  induction places generalizing img with
  | nil => exact ⟨rfl, rfl, fun x y => rfl⟩
  | cons p places ih =>
    obtain ⟨hp, hplaces⟩ := List.nodup_cons.mp h
    have hrest := ih (img.modify p.1 p.2 f) hplaces
    refine ⟨hrest.width.trans (width_modify ..), hrest.height.trans (height_modify ..), ?_⟩
    intro x y
    refine (hrest.pixel x y).trans ?_
    rw [pixel?_modify]
    by_cases hxy : (x, y) = p
    · -- the first place is not among the others, so that it is not changed again
      subst hxy
      simp [hp]
    · have hne : ¬(x = p.1 ∧ y = p.2) := fun h => hxy (Prod.ext h.1 h.2)
      rw [if_neg hne]
      simp [hxy]

/-- Places row by row, the columns of a row depending on the row. -/
def grid (columns : Nat → List Nat) (rows : List Nat) : List (Nat × Nat) :=
  rows.flatMap fun y => (columns y).map fun x => (x, y)

theorem mem_grid {columns : Nat → List Nat} {rows : List Nat} {x y : Nat} :
    (x, y) ∈ grid columns rows ↔ x ∈ columns y ∧ y ∈ rows := by
  simp only [grid, List.mem_flatMap, List.mem_map, Prod.mk.injEq]
  constructor
  · intro h
    obtain ⟨y', hy, x', hx, rfl, rfl⟩ := h
    exact ⟨hx, hy⟩
  · intro h
    exact ⟨y, h.2, x, h.1, rfl, rfl⟩

/-- Different rows, with different columns each, have different places. -/
theorem nodup_grid {columns : Nat → List Nat} {rows : List Nat} (hrows : rows.Nodup)
    (hcolumns : ∀ y, (columns y).Nodup) : (grid columns rows).Nodup := by
  refine List.nodup_flatMap.mpr ⟨fun y _ => ?_, hrows.imp ?_⟩
  · exact (hcolumns y).map fun _ _ h => (Prod.mk.inj h).1
  · intro y y' hne p hp hp'
    obtain ⟨x, -, rfl⟩ := List.mem_map.mp hp
    obtain ⟨x', -, h⟩ := List.mem_map.mp hp'
    exact hne (Prod.mk.inj h).2.symm

theorem foldl_grid (columns : Nat → List Nat) (rows : List Nat) (img : Image) (f : Rgba → Rgba) :
    rows.foldl (fun acc y => (columns y).foldl (fun acc x => acc.modify x y f) acc) img =
      img.modifyAll (grid columns rows) f := by
  simp only [modifyAll, grid, List.foldl_flatMap, List.foldl_map]

/-! ## 2. Runs of painters -/

/-- **A run of painters.** Each of them has an answer on images of the given size and changes the
    places that it covers. Then so does the run, and it gives every pixel the changes of those that
    cover it, in their order. -/
theorem foldlM_changed {β : Type} {paint : Image → β → Except Fault Image}
    {covers : β → Nat → Nat → Bool} {f : β → Rgba → Rgba} {xs : List β} (img : Image)
    (h : ∀ a ∈ xs, ∀ below : Image, below.width = img.width → below.height = img.height →
      ∃ out, paint below a = .ok out ∧ below.Changed out (covers a) (f a)) :
    ∃ out, xs.foldlM paint img = .ok out ∧ out.width = img.width ∧ out.height = img.height ∧
      ∀ x y, out.pixel? x y =
        (xs.filter (covers · x y)).foldl (fun c a => c.map (f a)) (img.pixel? x y) := by
  induction xs generalizing img with
  | nil => exact ⟨img, rfl, rfl, rfl, fun x y => rfl⟩
  | cons a xs ih =>
    obtain ⟨next, hnext, hchanged⟩ := h a List.mem_cons_self img rfl rfl
    have hrest : ∀ b ∈ xs, ∀ below : Image, below.width = next.width → below.height = next.height →
        ∃ out, paint below b = .ok out ∧ below.Changed out (covers b) (f b) :=
      fun b hb below hw hh => h b (List.mem_cons_of_mem a hb) below (hw.trans hchanged.width)
        (hh.trans hchanged.height)
    obtain ⟨out, hout, hw, hh, hpixel⟩ := ih next hrest
    refine ⟨out, ?_, hw.trans hchanged.width, hh.trans hchanged.height, fun x y => ?_⟩
    · rw [List.foldlM_cons, hnext]
      exact hout
    · rw [hpixel, hchanged.pixel, List.filter_cons]
      by_cases hc : covers a x y = true
      · rw [if_pos hc, if_pos hc, List.foldl_cons]
      · rw [if_neg hc, if_neg hc]

end QrRender.Image
