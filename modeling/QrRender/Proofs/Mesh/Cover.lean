import Mathlib.Data.Finset.Prod
import Mathlib.Order.Interval.Finset.Nat
import QrRender.Mesh

/-!
# Meshes cover the foreground exactly

`decompose` goes through the pixels once, and at each of them asks a bitmap whether a rectangle
lies there already. This file ties the bitmap to the rectangles and draws the consequence:

* `Progress.Valid`: the invariant. After the pixels `seen`, the bitmap holds exactly the pixels of
  the rectangles found, these have one foreground colour each and are pairwise disjoint, and every
  foreground pixel of `seen` lies in one of them;
* `Progress.isOpen_of_grow`: a rectangle that grows from an open pixel has open pixels only;
* `Progress.visit_cases`: what happens at a pixel;
* `Progress.Valid.visit`: one pixel keeps the invariant; `Progress.Valid.foldl`: so do all of them;
* **`decompose_exactCover`**: at the end every foreground pixel lies in exactly one rectangle, of its
  own colour, and no background pixel lies in any; so the areas add up to the number of foreground
  pixels.
-/

namespace QrRender

/-! ## 1. Boxes as sets of pixels -/

namespace Box

/-- The pixels of a box. -/
def pixels (b : Box) : Finset (Nat × Nat) :=
  Finset.Ico b.x (b.x + b.width) ×ˢ Finset.Ico b.y (b.y + b.height)

theorem mem_pixels {b : Box} {px py : Nat} : (px, py) ∈ b.pixels ↔ b.Contains px py := by
  simp only [pixels, Finset.mem_product, Finset.mem_Ico, Contains]

theorem card_pixels (b : Box) : b.pixels.card = b.width * b.height := by
  simp only [pixels, Finset.card_product, Nat.card_Ico, Nat.add_sub_cancel_left]

/-- The pixels of a list of boxes. -/
def union (bs : List Box) : Finset (Nat × Nat) := bs.foldr (fun b acc => b.pixels ∪ acc) ∅

theorem mem_union {bs : List Box} {px py : Nat} :
    (px, py) ∈ union bs ↔ ∃ b ∈ bs, b.Contains px py := by
  induction bs with
  | nil => simp [union]
  | cons b bs ih =>
    have hcons : union (b :: bs) = b.pixels ∪ union bs := rfl
    simp only [hcons, Finset.mem_union, mem_pixels, ih, List.mem_cons, exists_eq_or_imp]

/-- Disjoint boxes have as many pixels together as one by one. -/
theorem card_union {bs : List Box} (h : bs.Pairwise Disjoint) :
    (union bs).card = bs.foldr (fun b n => b.width * b.height + n) 0 := by
  induction bs with
  | nil => rfl
  | cons b bs ih =>
    obtain ⟨hb, hbs⟩ := List.pairwise_cons.mp h
    have hcons : union (b :: bs) = b.pixels ∪ union bs := rfl
    have hdis : ∀ ⦃p⦄, p ∈ b.pixels → p ∉ union bs := by
      intro p hp hq
      obtain ⟨px, py⟩ := p
      obtain ⟨b', hb', hc⟩ := mem_union.mp hq
      exact hb b' hb' px py (mem_pixels.mp hp) hc
    rw [hcons, Finset.card_union_of_disjoint (Finset.disjoint_left.mpr hdis), card_pixels, ih hbs,
      List.foldr_cons]

end Box

/-- The foreground of an image. -/
def Image.foreground (img : Image) (elision : Elision) : Finset (Nat × Nat) :=
  (Finset.range img.width ×ˢ Finset.range img.height).filter fun p =>
    (img.pixel? p.1 p.2).any fun c => !elision.isBackground c

theorem Image.mem_foreground {img : Image} {elision : Elision} {x y : Nat} :
    (x, y) ∈ img.foreground elision ↔
      ∃ c, img.pixel? x y = some c ∧ elision.isBackground c = false := by
  simp only [foreground, Finset.mem_filter, Finset.mem_product, Finset.mem_range,
    Option.any_eq_true, Bool.not_eq_true']
  constructor
  · intro h
    obtain ⟨-, c, hc, hb⟩ := h
    exact ⟨c, hc, hb⟩
  · intro h
    obtain ⟨c, hc, hb⟩ := h
    exact ⟨(img.isSome_pixel? x y).mp (by rw [hc]; rfl), c, hc, hb⟩

namespace Mesh

/-! ## 2. The bitmap -/

/-- Marking some places of a bitmap: a place is marked if it was, or is one of them. -/
theorem getD_foldl_mark (places : List Nat) (bits : Array Bool) (k : Nat) (hk : k < bits.size) :
    (places.foldl (fun acc i => acc.setIfInBounds i true) bits).getD k true =
      (bits.getD k true || places.contains k) := by
  induction places generalizing bits with
  | nil => simp
  | cons i places ih =>
    have hsize : k < (bits.setIfInBounds i true).size := by simpa using hk
    rw [List.foldl_cons, ih _ hsize]
    by_cases hik : i = k
    · subst hik
      simp [hk]
    · have hki : ¬ k = i := fun h => hik h.symm
      simp [hk, hik, hki]

theorem size_foldl_mark (places : List Nat) (bits : Array Bool) :
    (places.foldl (fun acc i => acc.setIfInBounds i true) bits).size = bits.size := by
  induction places generalizing bits with
  | nil => rfl
  | cons i places ih => rw [List.foldl_cons, ih, Array.size_setIfInBounds]

/-- The places of the pixels of a rectangle. -/
def places (img : Image) (r : ColorRect) : List Nat :=
  (List.range r.height).flatMap fun j =>
    (List.range r.width).map fun i => (r.y + j) * img.width + (r.x + i)

namespace Progress

theorem covered_add (s : Progress) (img : Image) (r : ColorRect) :
    (s.add img r).covered =
      (places img r).foldl (fun acc i => acc.setIfInBounds i true) s.covered := by
  simp only [add, places, List.foldl_flatMap, List.foldl_map]

end Progress

/-- The place of a pixel is among those of a rectangle inside the image exactly if the pixel is
    in the rectangle. -/
theorem mem_places {img : Image} {r : ColorRect} (hr : r.x + r.width ≤ img.width) {x y : Nat}
    (hx : x < img.width) : y * img.width + x ∈ places img r ↔ r.contains x y = true := by
  simp only [places, List.mem_flatMap, List.mem_map, List.mem_range, ColorRect.contains_iff,
    Box.Contains, ColorRect.box]
  constructor
  · intro h
    obtain ⟨j, hj, i, hi, h⟩ := h
    obtain ⟨rfl, rfl⟩ := (RowMajor.place_inj (by omega) hx).mp h
    omega
  · intro h
    obtain ⟨⟨hx1, hx2⟩, hy1, hy2⟩ := h
    refine ⟨y - r.y, by omega, x - r.x, by omega, ?_⟩
    rw [Nat.add_sub_cancel' hy1, Nat.add_sub_cancel' hx1]

namespace Progress

/-- One more rectangle covers its own pixels and leaves all others as they were. -/
theorem isCovered_add {s : Progress} {img : Image} {r : ColorRect}
    (hs : s.covered.size = img.width * img.height) (hr : r.x + r.width ≤ img.width) {x y : Nat}
    (hx : x < img.width) (hy : y < img.height) :
    (s.add img r).isCovered img x y = (s.isCovered img x y || r.contains x y) := by
  have hk : y * img.width + x < s.covered.size := by rw [hs]; exact RowMajor.place_lt hx hy
  have hplaces : (places img r).contains (y * img.width + x) = r.contains x y := by
    rw [Bool.eq_iff_iff, List.contains_iff_mem, mem_places hr hx]
  rw [isCovered, covered_add, getD_foldl_mark _ _ _ hk, hplaces, isCovered]

/-! ## 3. Growth -/

theorem isOpen_iff {s : Progress} {img : Image} {c : Rgba} {x y : Nat} :
    s.isOpen img c x y = true ↔ s.isCovered img x y = false ∧ img.pixel? x y = some c := by
  simp [isOpen]

theorem isOpen_row {s : Progress} {img : Image} {c : Rgba} {x y : Nat}
    (hxy : s.isOpen img c x y = true) {k : Nat} (hk : k < (s.grow img x y c).width) :
    s.isOpen img c (x + k) y = true := by
  cases k with
  | zero => exact hxy
  | succ k =>
    have hrun : k < runLength (fun i => s.isOpen img c i y) (img.width - (x + 1)) (x + 1) := by
      simp only [grow] at hk
      omega
    have hnext := runLength_holds hrun
    rwa [Nat.add_assoc, Nat.add_comm 1 k] at hnext

/-- A rectangle that grows from an open pixel has open pixels only. -/
theorem isOpen_of_grow {s : Progress} {img : Image} {c : Rgba} {x y : Nat}
    (hxy : s.isOpen img c x y = true) {px py : Nat}
    (hp : (s.grow img x y c).contains px py = true) : s.isOpen img c px py = true := by
  obtain ⟨⟨hx1, hx2⟩, hy1, hy2⟩ : (x ≤ px ∧ px < x + (s.grow img x y c).width) ∧
      y ≤ py ∧ py < y + (s.grow img x y c).height := ColorRect.contains_iff.mp hp
  obtain ⟨k, rfl⟩ := Nat.exists_eq_add_of_le hx1
  obtain ⟨j, rfl⟩ := Nat.exists_eq_add_of_le hy1
  have hk : k < (s.grow img x y c).width := by omega
  cases j with
  | zero => exact isOpen_row hxy hk
  | succ j =>
    have hrun : j < runLength (fun j => (List.range (s.grow img x y c).width).all fun k =>
        s.isOpen img c (x + k) j) (img.height - (y + 1)) (y + 1) := by
      have hheight : (s.grow img x y c).height = 1 + runLength (fun j =>
          (List.range (s.grow img x y c).width).all fun k => s.isOpen img c (x + k) j)
          (img.height - (y + 1)) (y + 1) := rfl
      omega
    have hall := List.all_eq_true.mp (runLength_holds hrun) k (List.mem_range.mpr hk)
    rwa [Nat.add_assoc, Nat.add_comm 1 j] at hall

theorem grow_nonempty (s : Progress) (img : Image) (x y : Nat) (c : Rgba) :
    (s.grow img x y c).box.Nonempty :=
  ⟨Nat.add_pos_left Nat.one_pos _, Nat.add_pos_left Nat.one_pos _⟩

/-- A rectangle that grows from a pixel of the image stays in the image. -/
theorem grow_inside {s : Progress} {img : Image} {c : Rgba} {x y : Nat} (hx : x < img.width)
    (hy : y < img.height) :
    x + (s.grow img x y c).width ≤ img.width ∧ y + (s.grow img x y c).height ≤ img.height := by
  have hw := runLength_le (fun i => s.isOpen img c i y) (img.width - (x + 1)) (x + 1)
  have hh := runLength_le (fun j => (List.range (s.grow img x y c).width).all fun k =>
    s.isOpen img c (x + k) j) (img.height - (y + 1)) (y + 1)
  constructor
  · simp only [grow]
    omega
  · show y + (1 + runLength (fun j => (List.range (s.grow img x y c).width).all fun k =>
      s.isOpen img c (x + k) j) (img.height - (y + 1)) (y + 1)) ≤ img.height
    omega

/-! ## 4. The invariant -/

/-- **The invariant**: what holds after the pixels `seen` have been visited. -/
structure Valid (img : Image) (elision : Elision) (s : Progress) (seen : List (Nat × Nat)) :
    Prop where
  size : s.covered.size = img.width * img.height
  /-- The bitmap holds the pixels of the rectangles. -/
  covered : ∀ x y, x < img.width → y < img.height →
    (s.isCovered img x y = true ↔ ∃ r ∈ s.rects, r.contains x y = true)
  nonempty : ∀ r ∈ s.rects, r.box.Nonempty
  inside : ∀ r ∈ s.rects, r.x + r.width ≤ img.width ∧ r.y + r.height ≤ img.height
  /-- Every rectangle has the colour of its pixels. -/
  color : ∀ r ∈ s.rects, ∀ x y, r.contains x y = true → img.pixel? x y = some r.color
  foreground : ∀ r ∈ s.rects, elision.isBackground r.color = false
  disjoint : s.rects.Pairwise fun a b => a.box.Disjoint b.box
  /-- Every foreground pixel that was visited is covered. -/
  seen : ∀ x y c, (x, y) ∈ seen → img.pixel? x y = some c → elision.isBackground c = false →
    s.isCovered img x y = true

theorem valid_start (img : Image) (elision : Elision) : Valid img elision (start img) [] where
  size := Array.size_replicate
  covered x y hx hy := by
    have hi : y * img.width + x < img.width * img.height := RowMajor.place_lt hx hy
    simp [isCovered, start, hi]
  nonempty r hr := absurd hr List.not_mem_nil
  inside r hr := absurd hr List.not_mem_nil
  color r hr := absurd hr List.not_mem_nil
  foreground r hr := absurd hr List.not_mem_nil
  disjoint := List.Pairwise.nil
  seen x y c h := absurd h List.not_mem_nil

variable {img : Image} {elision : Elision} {s : Progress} {seen : List (Nat × Nat)}

/-- A visited pixel that is covered, background or outside changes nothing. -/
theorem Valid.skip (h : Valid img elision s seen) {x y : Nat}
    (hskip : ∀ c, img.pixel? x y = some c → elision.isBackground c = false →
      s.isCovered img x y = true) : Valid img elision s (seen ++ [(x, y)]) where
  __ := h
  seen px py c hp hc hb := by
    rcases List.mem_append.mp hp with hp | hp
    · exact h.seen px py c hp hc hb
    · obtain ⟨rfl, rfl⟩ := Prod.mk.inj (List.mem_singleton.mp hp)
      exact hskip c hc hb

/-- A rectangle that grows from an open foreground pixel keeps the invariant. -/
theorem Valid.add_grow (h : Valid img elision s seen) {x y : Nat} {c : Rgba}
    (hc : img.pixel? x y = some c) (hfree : s.isCovered img x y = false)
    (hb : elision.isBackground c = false) :
    Valid img elision (s.add img (s.grow img x y c)) (seen ++ [(x, y)]) := by
  obtain ⟨hx, hy⟩ := (img.isSome_pixel? x y).mp (by rw [hc]; rfl)
  have hopen : s.isOpen img c x y = true := isOpen_iff.mpr ⟨hfree, hc⟩
  obtain ⟨hright, hbottom⟩ := grow_inside (s := s) (c := c) hx hy
  have hcorner : (s.grow img x y c).contains x y = true :=
    ColorRect.contains_iff.mpr (Box.contains_corner (grow_nonempty s img x y c))
  have hcov : ∀ px py, px < img.width → py < img.height →
      (s.add img (s.grow img x y c)).isCovered img px py =
        (s.isCovered img px py || (s.grow img x y c).contains px py) :=
    fun px py hpx hpy => isCovered_add h.size hright hpx hpy
  refine ⟨?_, ?_, ?_, ?_, ?_, ?_, ?_, ?_⟩
  · rw [covered_add, size_foldl_mark, h.size]
  · intro px py hpx hpy
    rw [hcov px py hpx hpy, Bool.or_eq_true, h.covered px py hpx hpy]
    simp only [add, List.mem_cons, exists_eq_or_imp]
    exact or_comm
  · intro r hr
    rcases List.mem_cons.mp hr with rfl | hr
    · exact grow_nonempty s img x y c
    · exact h.nonempty r hr
  · intro r hr
    rcases List.mem_cons.mp hr with rfl | hr
    · exact ⟨hright, hbottom⟩
    · exact h.inside r hr
  · intro r hr px py hp
    rcases List.mem_cons.mp hr with rfl | hr
    · exact (isOpen_iff.mp (isOpen_of_grow hopen hp)).2
    · exact h.color r hr px py hp
  · intro r hr
    rcases List.mem_cons.mp hr with rfl | hr
    · exact hb
    · exact h.foreground r hr
  · refine List.pairwise_cons.mpr ⟨fun r hr px py hp hq => ?_, h.disjoint⟩
    -- a common pixel would be open for the new rectangle and covered by the old one
    have hfree' := isOpen_iff.mp (isOpen_of_grow hopen (ColorRect.contains_iff.mpr hp))
    have hin := (img.isSome_pixel? px py).mp (by rw [hfree'.2]; rfl)
    have hold := (h.covered px py hin.1 hin.2).mpr ⟨r, hr, ColorRect.contains_iff.mpr hq⟩
    rw [hfree'.1] at hold
    cases hold
  · intro px py c' hp hc' hb'
    have hin := (img.isSome_pixel? px py).mp (by rw [hc']; rfl)
    rw [hcov px py hin.1 hin.2, Bool.or_eq_true]
    rcases List.mem_append.mp hp with hp | hp
    · exact Or.inl (h.seen px py c' hp hc' hb')
    · obtain ⟨rfl, rfl⟩ := Prod.mk.inj (List.mem_singleton.mp hp)
      exact Or.inr hcorner

/-- A rectangle is found at an open foreground pixel. -/
theorem visit_of_open {x y : Nat} {c : Rgba} (hc : img.pixel? x y = some c)
    (hfree : s.isCovered img x y = false) (hb : elision.isBackground c = false) :
    s.visit img elision (x, y) = s.add img (s.grow img x y c) := by
  simp only [visit, hc, hfree, hb, Bool.or_self, Bool.false_eq_true, if_false]

/-- **What happens at a pixel**: a rectangle is found, or the pixel is covered, background or outside
    and nothing changes. -/
theorem visit_cases (img : Image) (elision : Elision) (s : Progress) (x y : Nat) :
    (∃ c, img.pixel? x y = some c ∧ s.isCovered img x y = false ∧ elision.isBackground c = false ∧
        s.visit img elision (x, y) = s.add img (s.grow img x y c)) ∨
      (∀ c, img.pixel? x y = some c → elision.isBackground c = false →
        s.isCovered img x y = true) ∧ s.visit img elision (x, y) = s := by
  cases hc : img.pixel? x y with
  | none =>
    refine .inr ⟨nofun, ?_⟩
    simp only [visit, hc]
  | some c =>
    by_cases hskip : (s.isCovered img x y || elision.isBackground c) = true
    · refine .inr ⟨fun c' hc' hb => ?_, ?_⟩
      · obtain rfl := Option.some.inj hc'
        simpa [hb] using hskip
      · simp only [visit, hc, if_pos hskip]
    · rw [Bool.or_eq_true, not_or] at hskip
      have hfree := Bool.eq_false_iff.mpr hskip.1
      have hb := Bool.eq_false_iff.mpr hskip.2
      exact .inl ⟨c, rfl, hfree, hb, visit_of_open hc hfree hb⟩

/-- **One pixel keeps the invariant.** -/
theorem Valid.visit (h : Valid img elision s seen) (p : Nat × Nat) :
    Valid img elision (s.visit img elision p) (seen ++ [p]) := by
  obtain ⟨x, y⟩ := p
  rcases visit_cases img elision s x y with ⟨c, hc, hfree, hb, hvisit⟩ | ⟨hskip, hvisit⟩
  · rw [hvisit]
    exact h.add_grow hc hfree hb
  · rw [hvisit]
    exact h.skip hskip

/-- A run over some pixels keeps the invariant. -/
theorem Valid.foldl (h : Valid img elision s seen) (ps : List (Nat × Nat)) :
    Valid img elision (ps.foldl (Progress.visit img elision) s) (seen ++ ps) := by
  induction ps generalizing s seen with
  | nil => rwa [List.append_nil]
  | cons p ps ih =>
    have hrest := ih (h.visit p)
    rwa [List.append_assoc] at hrest

end Progress

/-! ## 5. The rectangles of an image -/

variable {img : Image} {elision : Elision}

/-- The invariant at the end of a run over the whole image. -/
theorem valid_decompose (img : Image) (elision : Elision) :
    Progress.Valid img elision
      (img.positions.foldl (Progress.visit img elision) (Progress.start img)) img.positions :=
  (Progress.valid_start img elision).foldl img.positions

theorem mem_decompose {r : ColorRect} :
    r ∈ decompose img elision ↔
      r ∈ (img.positions.foldl (Progress.visit img elision) (Progress.start img)).rects := by
  rw [decompose, List.mem_reverse]

theorem decompose_nonempty {r : ColorRect} (hr : r ∈ decompose img elision) : r.box.Nonempty :=
  (valid_decompose img elision).nonempty r (mem_decompose.mp hr)

theorem decompose_inside {r : ColorRect} (hr : r ∈ decompose img elision) :
    r.x + r.width ≤ img.width ∧ r.y + r.height ≤ img.height :=
  (valid_decompose img elision).inside r (mem_decompose.mp hr)

/-- A rectangle has the colour of each of its pixels, and that is no background. -/
theorem decompose_color {r : ColorRect} (hr : r ∈ decompose img elision) {x y : Nat}
    (hp : r.contains x y = true) :
    img.pixel? x y = some r.color ∧ elision.isBackground r.color = false :=
  ⟨(valid_decompose img elision).color r (mem_decompose.mp hr) x y hp,
    (valid_decompose img elision).foreground r (mem_decompose.mp hr)⟩

theorem decompose_disjoint (img : Image) (elision : Elision) :
    (decompose img elision).Pairwise fun a b => a.box.Disjoint b.box := by
  rw [decompose, List.pairwise_reverse]
  exact (valid_decompose img elision).disjoint.imp Box.Disjoint.symm

/-- Every foreground pixel lies in a rectangle. -/
theorem exists_rect_of_foreground {x y : Nat} {c : Rgba} (hc : img.pixel? x y = some c)
    (hb : elision.isBackground c = false) : ∃ r ∈ decompose img elision, r.contains x y = true := by
  obtain ⟨hx, hy⟩ := (img.isSome_pixel? x y).mp (by rw [hc]; rfl)
  have hcov := (valid_decompose img elision).seen x y c ((img.mem_positions x y).mpr ⟨hx, hy⟩) hc hb
  obtain ⟨r, hr, hp⟩ := ((valid_decompose img elision).covered x y hx hy).mp hcov
  exact ⟨r, mem_decompose.mpr hr, hp⟩

/-- Of disjoint rectangles, those that contain a pixel of one are that one alone. -/
theorem filter_contains_eq_singleton {rects : List ColorRect}
    (h : rects.Pairwise fun a b => a.box.Disjoint b.box) {r : ColorRect} (hr : r ∈ rects)
    {x y : Nat} (hp : r.contains x y = true) : rects.filter (·.contains x y) = [r] := by
  have hcontains : ∀ q : ColorRect, q.contains x y = decide (q.box.Contains x y) := by
    intro q
    rw [Bool.eq_iff_iff, ColorRect.contains_iff, decide_eq_true_eq]
  rw [List.filter_congr fun q _ => hcontains q]
  exact Box.filter_contains_eq_singleton h hr (ColorRect.contains_iff.mp hp)

/-- The pixels of the rectangles are the foreground. -/
theorem union_decompose (img : Image) (elision : Elision) :
    Box.union ((decompose img elision).map ColorRect.box) = img.foreground elision := by
  ext ⟨x, y⟩
  rw [Box.mem_union, Image.mem_foreground]
  constructor
  · intro h
    obtain ⟨b, hb, hp⟩ := h
    obtain ⟨r, hr, rfl⟩ := List.mem_map.mp hb
    exact ⟨r.color, decompose_color hr (ColorRect.contains_iff.mpr hp)⟩
  · intro h
    obtain ⟨c, hc, hb⟩ := h
    obtain ⟨r, hr, hp⟩ := exists_rect_of_foreground hc hb
    exact ⟨r.box, List.mem_map_of_mem hr, ColorRect.contains_iff.mp hp⟩

/-- The sum of the areas of some rectangles. -/
def totalArea (rects : List ColorRect) : Nat := rects.foldr (fun r n => r.area + n) 0

/-- What it is for rectangles to cover the foreground of an image exactly. -/
structure ExactCover (img : Image) (elision : Elision) (rects : List ColorRect) : Prop where
  nonempty : ∀ r ∈ rects, 0 < r.width ∧ 0 < r.height
  inside : ∀ r ∈ rects, r.x + r.width ≤ img.width ∧ r.y + r.height ≤ img.height
  /-- A foreground pixel lies in exactly one rectangle, and has its colour. -/
  foreground : ∀ x y c, img.pixel? x y = some c → elision.isBackground c = false →
    ∃ r, rects.filter (·.contains x y) = [r] ∧ r.color = c
  /-- A background pixel lies in none. -/
  background : ∀ x y c, img.pixel? x y = some c → elision.isBackground c = true →
    ∀ r ∈ rects, r.contains x y = false
  disjoint : rects.Pairwise fun a b => ∀ x y, ¬ (a.contains x y = true ∧ b.contains x y = true)
  area : totalArea rects = (img.foreground elision).card

/-- **The rectangles of an image cover its foreground exactly.** -/
theorem decompose_exactCover (img : Image) (elision : Elision) :
    ExactCover img elision (decompose img elision) where
  nonempty _ hr := decompose_nonempty hr
  inside _ hr := decompose_inside hr
  foreground x y c hc hb := by
    obtain ⟨r, hr, hp⟩ := exists_rect_of_foreground hc hb
    have hone := filter_contains_eq_singleton (decompose_disjoint img elision) hr hp
    exact ⟨r, hone, Option.some.inj ((decompose_color hr hp).1.symm.trans hc)⟩
  background x y c hc hb r hr := by
    refine Bool.eq_false_iff.mpr fun hp => ?_
    obtain ⟨hc', hb'⟩ := decompose_color hr hp
    obtain rfl := Option.some.inj (hc'.symm.trans hc)
    rw [hb] at hb'
    cases hb'
  disjoint := (decompose_disjoint img elision).imp fun h x y ⟨ha, hb⟩ =>
    h x y (ColorRect.contains_iff.mp ha) (ColorRect.contains_iff.mp hb)
  area := by
    have hdis : ((decompose img elision).map ColorRect.box).Pairwise Box.Disjoint :=
      List.pairwise_map.mpr (decompose_disjoint img elision)
    rw [← union_decompose, Box.card_union hdis, List.foldr_map]
    rfl

end Mesh

end QrRender
