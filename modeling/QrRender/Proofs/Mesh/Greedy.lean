import QrRender.Proofs.Mesh.Cover

/-!
# Meshes are greedy

The rectangles of an image stand in the order of their upper left pixels, row by row. Each is as
wide as it can be beside those before it, and as high as it can be with that width. Going down, a
rectangle is never stopped by another one alone: one that covers a pixel of the row below started
earlier, so it would cover the pixel above as well. This makes the list canonical. Of the lists that
cover an image exactly it is the only greedy one, and no two of its rectangles could be joined.

* `Image.Before`: the order of the pixels;
* `Maximal`, `Greedy`: rectangles that could not be larger, and lists of them;
* `Progress.Canonical`: the invariant, `Progress.Canonical.visit` for one pixel and
  `Progress.Canonical.foldl` for a run;
* `GreedyPartition.rest_eq`: two greedy lists for one image are the same;
* **`decompose_canonical`**: the rectangles of an image are the greedy list, and no two of one
  colour form a rectangle.
-/

namespace QrRender

/-! ## 1. The order of the pixels -/

/-- The pixel comes first when an image is read row by row. -/
def Image.Before (p q : Nat × Nat) : Prop := p.2 < q.2 ∨ (p.2 = q.2 ∧ p.1 < q.1)

theorem Image.Before.trichotomy {p q : Nat × Nat} (h : ¬Before p q) (h' : ¬Before q p) : p = q := by
  unfold Before at h h'
  exact Prod.ext (by omega) (by omega)

/-- The pixels of an image are read row by row. -/
theorem Image.positions_sorted (img : Image) : img.positions.Pairwise Before := by
  refine List.pairwise_flatMap.mpr ⟨fun y _ => ?_, ?_⟩
  · rw [List.pairwise_map]
    exact List.pairwise_lt_range.imp fun hlt => .inr ⟨rfl, hlt⟩
  · refine List.pairwise_lt_range.imp fun hlt p hp q hq => ?_
    obtain ⟨x, -, rfl⟩ := List.mem_map.mp hp
    obtain ⟨x', -, rfl⟩ := List.mem_map.mp hq
    exact .inl hlt

/-- If two boxes are one, and the second goes on neither to the right of the first nor below it in
    all its columns, then the first is all of it. -/
theorem Box.within_first {a b box : Box}
    (hbox : ∀ x y, box.Contains x y ↔ a.Contains x y ∨ b.Contains x y) (ha : a.Nonempty)
    (hfirst : Image.Before (a.x, a.y) (b.x, b.y))
    (hright : ¬b.Contains (a.x + a.width) a.y) {k : Nat} (hk : a.x ≤ k ∧ k < a.x + a.width)
    (hbelow : ¬b.Contains k (a.y + a.height)) : box.Within a := by
  have hin := (hbox a.x a.y).mpr (.inl (Box.contains_corner ha))
  obtain ⟨hx, hy⟩ : box.x = a.x ∧ box.y = a.y := by
    have hcorner := (hbox box.x box.y).mp (Box.contains_corner (Box.nonempty_of_contains hin))
    simp only [Box.Contains, Image.Before] at hin hcorner hfirst
    omega
  have hwidth : box.width ≤ a.width := by
    refine Nat.le_of_not_lt fun hlt => ?_
    have hside : box.Contains (a.x + a.width) a.y := by
      simp only [Box.Contains] at hin ⊢
      omega
    obtain ⟨⟨-, hself⟩, -⟩ := ((hbox _ _).mp hside).resolve_right hright
    exact Nat.lt_irrefl _ hself
  have hheight : box.height ≤ a.height := by
    refine Nat.le_of_not_lt fun hlt => ?_
    have hside : box.Contains k (a.y + a.height) := by
      have habove := (hbox k a.y).mpr (.inl ⟨hk, Nat.le_refl _, Nat.lt_add_of_pos_right ha.2⟩)
      simp only [Box.Contains] at habove ⊢
      omega
    obtain ⟨-, -, hself⟩ := ((hbox _ _).mp hside).resolve_right hbelow
    exact Nat.lt_irrefl _ hself
  intro x y hxy
  simp only [Box.Contains] at hxy ⊢
  omega

attribute [ext] ColorRect

namespace ColorRect

/-- The upper left pixel. -/
def origin (r : ColorRect) : Nat × Nat := (r.x, r.y)

theorem contains_box {r : ColorRect} {x y : Nat} :
    r.box.Contains x y ↔ (r.x ≤ x ∧ x < r.x + r.width) ∧ (r.y ≤ y ∧ y < r.y + r.height) := Iff.rfl

end ColorRect

namespace Mesh

open Image (Before)

/-! ## 2. Rectangles that could not be larger -/

/-- The image has a pixel there, of another colour than `c`. -/
def Differs (img : Image) (c : Rgba) (x y : Nat) : Prop := ∃ c', img.pixel? x y = some c' ∧ c' ≠ c

/-- A rectangle that could not be larger after those before it: on its right the image ends, or the
    first pixel has another colour or is in one of those; and below it the image ends, or some pixel
    has another colour. -/
structure Maximal (img : Image) (before : List ColorRect) (r : ColorRect) : Prop where
  right : r.x + r.width = img.width ∨ Differs img r.color (r.x + r.width) r.y ∨
    ∃ q ∈ before, q.box.Contains (r.x + r.width) r.y
  below : r.y + r.height = img.height ∨
    ∃ k, (r.x ≤ k ∧ k < r.x + r.width) ∧ Differs img r.color k (r.y + r.height)

/-- A list of rectangles in the order of their upper left pixels, none of which could be larger
    after those before it. -/
structure Greedy (img : Image) (rects : List ColorRect) : Prop where
  sorted : rects.Pairwise fun a b => Before a.origin b.origin
  maximal : ∀ before r after, rects = before ++ r :: after → Maximal img before r

/-- Two rectangles have one colour, and together they are a rectangle. -/
def Joinable (a b : ColorRect) : Prop :=
  a.color = b.color ∧
    ∃ box : Box, ∀ x y, box.Contains x y ↔ a.box.Contains x y ∨ b.box.Contains x y

theorem Greedy.nil (img : Image) : Greedy img [] where
  sorted := .nil
  maximal before r after h := by simp at h

/-- One more rectangle at the end of a greedy list. -/
theorem Greedy.concat {img : Image} {rects : List ColorRect} (h : Greedy img rects) {r : ColorRect}
    (hbefore : ∀ q ∈ rects, Before q.origin r.origin) (hr : Maximal img rects r) :
    Greedy img (rects ++ [r]) where
  sorted := by
    rw [List.pairwise_append]
    refine ⟨h.sorted, List.pairwise_singleton .., fun q hq r' hr' => ?_⟩
    obtain rfl := List.mem_singleton.mp hr'
    exact hbefore q hq
  maximal before r' after heq := by
    rcases List.eq_nil_or_concat after with rfl | ⟨after, last, rfl⟩
    · obtain ⟨rfl, hsame⟩ := List.append_inj' heq rfl
      obtain rfl := List.singleton_inj.mp hsame
      exact hr
    · rw [List.concat_eq_append, ← List.cons_append, ← List.append_assoc] at heq
      obtain ⟨rfl, -⟩ := List.append_inj' heq rfl
      exact h.maximal before r' after rfl

/-- A rectangle of the same colour that is disjoint from those before a maximal one does not go on
    to the right of it. -/
theorem Maximal.not_contains_right {img : Image} {before : List ColorRect} {r r' : ColorRect}
    (h : Maximal img before r)
    (hcolor : ∀ x y, r'.box.Contains x y → img.pixel? x y = some r.color)
    (hdisjoint : ∀ q ∈ before, q.box.Disjoint r'.box) :
    ¬r'.box.Contains (r.x + r.width) r.y := by
  intro hin
  have hc := hcolor _ _ hin
  rcases h.right with hend | ⟨c', hc', hne⟩ | ⟨q, hq, hqin⟩
  · have hlt := ((img.isSome_pixel? _ _).mp (by rw [hc]; rfl)).1
    exact absurd hend (Nat.ne_of_lt hlt)
  · exact hne (Option.some.inj (hc'.symm.trans hc))
  · exact hdisjoint q hq _ _ hqin hin

/-- A rectangle of the same colour does not go on below a maximal one in all its columns. -/
theorem Maximal.exists_not_contains_below {img : Image} {before : List ColorRect}
    {r r' : ColorRect} (h : Maximal img before r) (hr : r.box.Nonempty)
    (hcolor : ∀ x y, r'.box.Contains x y → img.pixel? x y = some r.color) :
    ∃ k, (r.x ≤ k ∧ k < r.x + r.width) ∧ ¬r'.box.Contains k (r.y + r.height) := by
  rcases h.below with hend | ⟨k, hk, c', hc', hne⟩
  · refine ⟨r.x, ⟨Nat.le_refl _, Nat.lt_add_of_pos_right hr.1⟩, fun hin => ?_⟩
    have hlt := ((img.isSome_pixel? _ _).mp (by rw [hcolor _ _ hin]; rfl)).2
    exact absurd hend (Nat.ne_of_lt hlt)
  · exact ⟨k, hk, fun hin => hne (Option.some.inj (hc'.symm.trans (hcolor _ _ hin)))⟩

/-! ## 3. Growth -/

namespace Progress

variable {img : Image} {elision : Elision} {s : Progress} {seen : List (Nat × Nat)}

/-- A pixel at which growth stops has another colour or is covered. -/
theorem Valid.differs_or_covered (h : Valid img elision s seen) {c : Rgba} {x y : Nat}
    (hx : x < img.width) (hy : y < img.height) (hclosed : s.isOpen img c x y = false) :
    Differs img c x y ∨ ∃ q ∈ s.rects, q.box.Contains x y := by
  by_cases hcovered : s.isCovered img x y = true
  · obtain ⟨q, hq, hin⟩ := (h.covered x y hx hy).mp hcovered
    exact .inr ⟨q, hq, ColorRect.contains_iff.mp hin⟩
  · obtain ⟨c', hc'⟩ := Option.isSome_iff_exists.mp ((img.isSome_pixel? x y).mpr ⟨hx, hy⟩)
    refine .inl ⟨c', hc', fun heq => ?_⟩
    rw [← Bool.not_eq_true, isOpen_iff, hc', heq] at hclosed
    exact hclosed ⟨Bool.eq_false_iff.mpr hcovered, rfl⟩

/-- Growth to the right stops at the end of the image or at a pixel that is not open. -/
theorem grow_right (s : Progress) {img : Image} (c : Rgba) {x : Nat} (y : Nat) (hx : x < img.width) :
    x + (s.grow img x y c).width = img.width ∨
      x + (s.grow img x y c).width < img.width ∧
        s.isOpen img c (x + (s.grow img x y c).width) y = false := by
  have hle := runLength_le (fun i => s.isOpen img c i y) (img.width - (x + 1)) (x + 1)
  have hwidth : x + (s.grow img x y c).width =
      x + 1 + runLength (fun i => s.isOpen img c i y) (img.width - (x + 1)) (x + 1) :=
    (Nat.add_assoc ..).symm
  rw [hwidth]
  by_cases hlt : runLength (fun i => s.isOpen img c i y) (img.width - (x + 1)) (x + 1) <
      img.width - (x + 1)
  · exact .inr ⟨by omega, runLength_ends hlt⟩
  · exact .inl (by omega)

/-- Growth downwards stops at the end of the image or at a row with a pixel that is not open. -/
theorem grow_below (s : Progress) {img : Image} (c : Rgba) (x : Nat) {y : Nat}
    (hy : y < img.height) :
    y + (s.grow img x y c).height = img.height ∨
      y + (s.grow img x y c).height < img.height ∧
        ∃ k < (s.grow img x y c).width,
          s.isOpen img c (x + k) (y + (s.grow img x y c).height) = false := by
  let row j := (List.range (s.grow img x y c).width).all fun k => s.isOpen img c (x + k) j
  have hle := runLength_le row (img.height - (y + 1)) (y + 1)
  have hheight : y + (s.grow img x y c).height =
      y + 1 + runLength row (img.height - (y + 1)) (y + 1) := (Nat.add_assoc ..).symm
  rw [hheight]
  by_cases hlt : runLength row (img.height - (y + 1)) (y + 1) < img.height - (y + 1)
  · obtain ⟨k, hk, hclosed⟩ := List.all_eq_false.mp (runLength_ends hlt)
    exact .inr ⟨by omega, k, List.mem_range.mp hk, Bool.eq_false_iff.mpr hclosed⟩
  · exact .inl (by omega)

/-- **A rectangle that grows from an open pixel could not be larger**, if those found before it
    started before. -/
theorem Valid.maximal_grow (h : Valid img elision s seen) {x y : Nat} {c : Rgba}
    (hc : img.pixel? x y = some c) (hfree : s.isCovered img x y = false)
    (hbefore : ∀ q ∈ s.rects, Before q.origin (x, y)) :
    Maximal img s.rects.reverse (s.grow img x y c) := by
  obtain ⟨hx, hy⟩ := (img.isSome_pixel? x y).mp (by rw [hc]; rfl)
  constructor
  · rcases s.grow_right c y hx with hend | ⟨hlt, hclosed⟩
    · exact .inl hend
    · rcases h.differs_or_covered hlt hy hclosed with hdiffers | ⟨q, hq, hin⟩
      · exact .inr (.inl hdiffers)
      · exact .inr (.inr ⟨q, List.mem_reverse.mpr hq, hin⟩)
  · rcases s.grow_below c x hy with hend | ⟨hlt, k, hk, hclosed⟩
    · exact .inl hend
    · have hopen := isOpen_iff.mp (isOpen_row (isOpen_iff.mpr ⟨hfree, hc⟩) hk)
      have hxk := ((img.isSome_pixel? (x + k) y).mp (by rw [hopen.2]; rfl)).1
      refine .inr ⟨x + k, ⟨Nat.le_add_right x k, Nat.add_lt_add_left hk x⟩, ?_⟩
      refine (h.differs_or_covered hxk hlt hclosed).resolve_right ?_
      rintro ⟨q, hq, hin⟩
      -- it started above, so it covers the pixel of the row where the new one grows as well
      have habove : q.box.Contains (x + k) y := by
        obtain ⟨hcolumns, hrows⟩ := hin
        have hstart : q.y < y ∨ q.y = y ∧ q.x < x := hbefore q hq
        refine ⟨hcolumns, ?_, by omega⟩
        show q.y ≤ y
        omega
      have hcovered := (h.covered (x + k) y hxk hy).mpr ⟨q, hq, ColorRect.contains_iff.mpr habove⟩
      rw [hopen.1] at hcovered
      cases hcovered

/-! ## 4. Runs -/

/-- The invariant: the rectangles found so far are greedy, and started at pixels that were seen. -/
structure Canonical (img : Image) (s : Progress) (seen : List (Nat × Nat)) : Prop where
  greedy : Greedy img s.rects.reverse
  origins : ∀ r ∈ s.rects, r.origin ∈ seen

theorem canonical_start (img : Image) : Canonical img (start img) [] where
  greedy := Greedy.nil img
  origins _ hr := absurd hr List.not_mem_nil

/-- **One pixel keeps the invariant**, if it comes after those that were seen. -/
theorem Canonical.visit (h : Canonical img s seen) (hvalid : Valid img elision s seen)
    {p : Nat × Nat} (hp : ∀ q ∈ seen, Before q p) :
    Canonical img (s.visit img elision p) (seen ++ [p]) := by
  obtain ⟨x, y⟩ := p
  have horigins : ∀ r ∈ s.rects, r.origin ∈ seen ++ [(x, y)] :=
    fun r hr => List.mem_append_left _ (h.origins r hr)
  rcases visit_cases img elision s x y with ⟨c, hc, hfree, -, hvisit⟩ | ⟨-, hvisit⟩
  · rw [hvisit]
    have hbefore : ∀ q ∈ s.rects, Before q.origin (x, y) := fun q hq => hp _ (h.origins q hq)
    constructor
    · rw [add, List.reverse_cons]
      exact h.greedy.concat (fun q hq => hbefore q (List.mem_reverse.mp hq))
        (hvalid.maximal_grow hc hfree hbefore)
    · intro r hr
      rcases List.mem_cons.mp hr with rfl | hr
      · exact List.mem_append_right _ (List.mem_singleton.mpr rfl)
      · exact horigins r hr
  · rw [hvisit]
    exact ⟨h.greedy, horigins⟩

/-- A run over pixels in order keeps the invariant. -/
theorem Canonical.foldl (h : Canonical img s seen) (hvalid : Valid img elision s seen)
    {ps : List (Nat × Nat)} (hsorted : (seen ++ ps).Pairwise Before) :
    Canonical img (ps.foldl (Progress.visit img elision) s) (seen ++ ps) := by
  induction ps generalizing s seen with
  | nil => rwa [List.append_nil]
  | cons p ps ih =>
    have hp : ∀ q ∈ seen, Before q p := fun q hq =>
      (List.pairwise_append.mp hsorted).2.2 q hq p List.mem_cons_self
    rw [List.append_cons] at hsorted ⊢
    exact ih (h.visit hvalid hp) (hvalid.visit p) hsorted

end Progress

/-- The rectangles of an image are greedy. -/
theorem decompose_greedy (img : Image) (elision : Elision) : Greedy img (decompose img elision) :=
  ((Progress.canonical_start img).foldl (Progress.valid_start img elision)
    img.positions_sorted).greedy

/-! ## 5. Uniqueness -/

/-- The rectangles are disjoint and together the foreground, and each has the colour of its
    pixels. -/
structure Partition (img : Image) (elision : Elision) (rects : List ColorRect) : Prop where
  nonempty : ∀ r ∈ rects, r.box.Nonempty
  color : ∀ r ∈ rects, ∀ x y, r.box.Contains x y →
    img.pixel? x y = some r.color ∧ elision.isBackground r.color = false
  foreground : ∀ x y c, img.pixel? x y = some c → elision.isBackground c = false →
    ∃ r ∈ rects, r.box.Contains x y
  disjoint : rects.Pairwise fun a b => a.box.Disjoint b.box

theorem partition_decompose (img : Image) (elision : Elision) :
    Partition img elision (decompose img elision) where
  nonempty _ hr := decompose_nonempty hr
  color _ hr _ _ hin := decompose_color hr (ColorRect.contains_iff.mpr hin)
  foreground x y c hc hb := by
    obtain ⟨r, hr, hin⟩ := exists_rect_of_foreground hc hb
    exact ⟨r, hr, ColorRect.contains_iff.mp hin⟩
  disjoint := decompose_disjoint img elision

theorem ExactCover.partition {img : Image} {elision : Elision} {rects : List ColorRect}
    (h : ExactCover img elision rects) : Partition img elision rects where
  nonempty := h.nonempty
  color r hr x y hin := by
    have hlt : x < img.width ∧ y < img.height := by
      obtain ⟨⟨-, hx⟩, -, hy⟩ := hin
      obtain ⟨hright, hbottom⟩ := h.inside r hr
      exact ⟨Nat.lt_of_lt_of_le hx hright, Nat.lt_of_lt_of_le hy hbottom⟩
    obtain ⟨c, hc⟩ := Option.isSome_iff_exists.mp ((img.isSome_pixel? x y).mpr hlt)
    cases hb : elision.isBackground c with
    | true =>
      have hout := h.background x y c hc hb r hr
      rw [ColorRect.contains_iff.mpr hin] at hout
      cases hout
    | false =>
      obtain ⟨r', hone, rfl⟩ := h.foreground x y c hc hb
      have hmem : r ∈ rects.filter (·.contains x y) :=
        List.mem_filter.mpr ⟨hr, ColorRect.contains_iff.mpr hin⟩
      obtain rfl := List.mem_singleton.mp (hone ▸ hmem)
      exact ⟨hc, hb⟩
  foreground x y c hc hb := by
    obtain ⟨r, hone, -⟩ := h.foreground x y c hc hb
    obtain ⟨hr, hin⟩ := List.mem_filter.mp (hone ▸ List.mem_singleton_self r)
    exact ⟨r, hr, ColorRect.contains_iff.mp hin⟩
  disjoint := h.disjoint.imp fun hdis x y ha hb =>
    hdis x y ⟨ColorRect.contains_iff.mpr ha, ColorRect.contains_iff.mpr hb⟩

/-- A greedy list of rectangles for an image. -/
structure GreedyPartition (img : Image) (elision : Elision) (rects : List ColorRect) : Prop
    extends Partition img elision rects, Greedy img rects

namespace GreedyPartition

variable {img : Image} {elision : Elision} {before rest rest' : List ColorRect} {r r' : ColorRect}

theorem mem_head (before : List ColorRect) (r : ColorRect) (rest : List ColorRect) :
    r ∈ before ++ r :: rest :=
  List.mem_append_right _ List.mem_cons_self

theorem nonempty_head (h : GreedyPartition img elision (before ++ r :: rest)) : r.box.Nonempty :=
  h.nonempty r (mem_head before r rest)

theorem contains_head (h : GreedyPartition img elision (before ++ r :: rest)) :
    r.box.Contains r.x r.y :=
  Box.contains_corner h.nonempty_head

theorem color_head (h : GreedyPartition img elision (before ++ r :: rest)) {x y : Nat}
    (hin : r.box.Contains x y) : img.pixel? x y = some r.color :=
  (h.color r (mem_head before r rest) x y hin).1

theorem disjoint_head (h : GreedyPartition img elision (before ++ r :: rest)) :
    ∀ q ∈ before, q.box.Disjoint r.box :=
  fun q hq => (List.pairwise_append.mp h.disjoint).2.2 q hq r List.mem_cons_self

theorem before_rest (h : GreedyPartition img elision (before ++ r :: rest)) :
    ∀ q ∈ rest, Before r.origin q.origin :=
  (List.pairwise_cons.mp (List.pairwise_append.mp h.sorted).2.1).1

/-- Where two lists begin alike, what one has next is covered by the rest of the other. -/
theorem exists_rest (h : GreedyPartition img elision (before ++ rest))
    (h' : GreedyPartition img elision (before ++ r' :: rest')) {x y : Nat}
    (hin : r'.box.Contains x y) : ∃ q ∈ rest, q.box.Contains x y := by
  obtain ⟨hc, hb⟩ := h'.color r' (mem_head before r' rest') x y hin
  obtain ⟨q, hq, hqin⟩ := h.foreground x y _ hc hb
  rcases List.mem_append.mp hq with hq | hq
  · exact absurd hin (h'.disjoint_head q hq x y hqin)
  · exact ⟨q, hq, hqin⟩

/-- What one list has next does not come before what the other has next. -/
theorem not_before (h : GreedyPartition img elision (before ++ r :: rest))
    (h' : GreedyPartition img elision (before ++ r' :: rest')) :
    ¬Before r'.origin r.origin := by
  intro hbefore
  obtain ⟨q, hq, ⟨hx, -⟩, hy, -⟩ := exists_rest h h' h'.contains_head
  have hfirst : q = r ∨ Before r.origin q.origin :=
    (List.mem_cons.mp hq).imp_right (h.before_rest q)
  simp only [Before, ColorRect.origin, ColorRect.box] at hbefore hfirst hx hy
  rcases hfirst with rfl | hfirst
  · omega
  · omega

/-- From the same pixel, what one list has next is no wider than what the other has next. -/
theorem width_le (h : GreedyPartition img elision (before ++ r :: rest))
    (h' : GreedyPartition img elision (before ++ r' :: rest')) (horigin : r.origin = r'.origin)
    (hcolor : r.color = r'.color) : r'.width ≤ r.width := by
  obtain ⟨hx, hy⟩ := Prod.mk.inj horigin
  have hmaximal := h.maximal before r rest rfl
  have hpixels : ∀ x y, r'.box.Contains x y → img.pixel? x y = some r.color :=
    fun _ _ hin => hcolor ▸ h'.color_head hin
  have hout := hmaximal.not_contains_right hpixels h'.disjoint_head
  have hheight : 0 < r'.height := h'.nonempty_head.2
  refine Nat.le_of_not_lt fun hlt => hout (ColorRect.contains_box.mpr ?_)
  omega

/-- And where they are as wide, it is no higher. -/
theorem height_le (h : GreedyPartition img elision (before ++ r :: rest))
    (h' : GreedyPartition img elision (before ++ r' :: rest')) (horigin : r.origin = r'.origin)
    (hcolor : r.color = r'.color) (hwidth : r.width = r'.width) : r'.height ≤ r.height := by
  obtain ⟨hx, hy⟩ := Prod.mk.inj horigin
  have hmaximal := h.maximal before r rest rfl
  have hpixels : ∀ x y, r'.box.Contains x y → img.pixel? x y = some r.color :=
    fun _ _ hin => hcolor ▸ h'.color_head hin
  obtain ⟨k, hk, hout⟩ := hmaximal.exists_not_contains_below h.nonempty_head hpixels
  refine Nat.le_of_not_lt fun hlt => hout (ColorRect.contains_box.mpr ?_)
  omega

/-- **Where two lists begin alike, they have the same rectangle next.** -/
theorem head_eq (h : GreedyPartition img elision (before ++ r :: rest))
    (h' : GreedyPartition img elision (before ++ r' :: rest')) : r = r' := by
  have horigin : r.origin = r'.origin :=
    Image.Before.trichotomy (h'.not_before h) (h.not_before h')
  have hcolor : r.color = r'.color := by
    obtain ⟨hx, hy⟩ := Prod.mk.inj horigin
    have hc := h.color_head h.contains_head
    rw [hx, hy, h'.color_head h'.contains_head] at hc
    exact (Option.some.inj hc).symm
  have hwidth := Nat.le_antisymm (h'.width_le h horigin.symm hcolor.symm)
    (h.width_le h' horigin hcolor)
  have hheight := Nat.le_antisymm (h'.height_le h horigin.symm hcolor.symm hwidth.symm)
    (h.height_le h' horigin hcolor hwidth)
  obtain ⟨hx, hy⟩ := Prod.mk.inj horigin
  exact ColorRect.ext hx hy hwidth hheight hcolor

/-- So they are alike to the end. -/
theorem rest_eq (before : List ColorRect) (h : GreedyPartition img elision (before ++ rest))
    (h' : GreedyPartition img elision (before ++ rest')) : rest = rest' := by
  induction rest generalizing before rest' with
  | nil =>
    cases rest' with
    | nil => rfl
    | cons r' rest' =>
      obtain ⟨q, hq, -⟩ := exists_rest h h' h'.contains_head
      cases hq
  | cons r rest ih =>
    cases rest' with
    | nil =>
      obtain ⟨q, hq, -⟩ := exists_rest h' h h.contains_head
      cases hq
    | cons r' rest' =>
      obtain rfl := head_eq h h'
      rw [List.append_cons] at h h'
      rw [ih _ h h']

/-! ## 6. Joins -/

/-- **No rectangle could be joined with a later one.** -/
theorem not_joinable (h : GreedyPartition img elision (before ++ r :: rest)) (hr' : r' ∈ rest) :
    ¬Joinable r r' := by
  rintro ⟨hcolor, box, hbox⟩
  have hmem : r' ∈ before ++ r :: rest := List.mem_append_right _ (List.mem_cons_of_mem _ hr')
  have hmaximal := h.maximal before r rest rfl
  have hpixels : ∀ x y, r'.box.Contains x y → img.pixel? x y = some r.color :=
    fun x y hin => hcolor ▸ (h.color r' hmem x y hin).1
  obtain ⟨-, htail, hearlier⟩ := List.pairwise_append.mp h.disjoint
  have hright := hmaximal.not_contains_right hpixels fun q hq =>
    hearlier q hq r' (List.mem_cons_of_mem _ hr')
  obtain ⟨k, hk, hbelow⟩ := hmaximal.exists_not_contains_below h.nonempty_head hpixels
  have hwithin := Box.within_first hbox h.nonempty_head (h.before_rest r' hr') hright hk hbelow
  -- then the corner of the later one is in the earlier one
  have hcorner := Box.contains_corner (h.nonempty r' hmem)
  exact (List.pairwise_cons.mp htail).1 r' hr' _ _
    (hwithin _ _ ((hbox _ _).mpr (.inr hcorner))) hcorner

theorem pairwise_not_joinable (before : List ColorRect)
    (h : GreedyPartition img elision (before ++ rest)) :
    rest.Pairwise fun a b => ¬Joinable a b := by
  induction rest generalizing before with
  | nil => exact .nil
  | cons r rest ih =>
    refine List.pairwise_cons.mpr ⟨fun r' hr' => h.not_joinable hr', ?_⟩
    rw [List.append_cons] at h
    exact ih _ h

end GreedyPartition

/-- **The rectangles of an image are its greedy list.** They stand in the order of their upper left
    pixels, each could not be larger after those before it, and no two of them could be joined. Of
    the lists that cover the foreground exactly there is no other like this. -/
theorem decompose_canonical (img : Image) (elision : Elision) :
    Greedy img (decompose img elision) ∧
      (decompose img elision).Pairwise (fun a b => ¬Joinable a b) ∧
      ∀ rects, ExactCover img elision rects → Greedy img rects →
        rects = decompose img elision := by
  have hdecompose : GreedyPartition img elision (decompose img elision) :=
    ⟨partition_decompose img elision, decompose_greedy img elision⟩
  refine ⟨decompose_greedy img elision, GreedyPartition.pairwise_not_joinable [] hdecompose, ?_⟩
  intro rects hcover hgreedy
  exact GreedyPartition.rest_eq [] ⟨hcover.partition, hgreedy⟩ hdecompose

/-- A black T is two rectangles: the top row as wide as it can be, and the stem below it. -/
theorem decompose_canonical_tee :
    let img := Image.ofFn 3 3 fun x y => if y = 0 ∨ x = 1 then Rgba.black else Rgba.white
    let rects : List ColorRect := [⟨0, 0, 3, 1, Rgba.black⟩, ⟨1, 1, 1, 2, Rgba.black⟩]
    ExactCover img default rects ∧ Greedy img rects ∧ rects = decompose img default := by
  intro img rects
  have hpixel : ∀ x y c, img.pixel? x y = some c → (x < 3 ∧ y < 3) ∧
      c = if y = 0 ∨ x = 1 then Rgba.black else Rgba.white := by
    intro x y c hc
    rw [Image.pixel?_ofFn] at hc
    split at hc
    · rename_i hin
      exact ⟨hin, (Option.some.inj hc).symm⟩
    · cases hc
  have hblack : ∀ x < 3, ∀ y < 3, (y = 0 ∨ x = 1) →
      ∃ r ∈ rects, rects.filter (·.contains x y) = [r] ∧ r.color = Rgba.black := by
    decide
  have hwhite : ∀ x < 3, ∀ y < 3, ¬(y = 0 ∨ x = 1) → ∀ r ∈ rects, r.contains x y = false := by
    decide
  have hcover : ExactCover img default rects := by
    refine ⟨by decide, by decide, ?_, ?_, List.pairwise_pair.mpr ?_, by decide⟩
    · intro x y c hc hb
      obtain ⟨⟨hx, hy⟩, rfl⟩ := hpixel x y c hc
      split at hb
      · rename_i hin
        obtain ⟨r, -, hr, hcolor⟩ := hblack x hx y hy hin
        rw [if_pos hin]
        exact ⟨r, hr, hcolor⟩
      · cases hb
    · intro x y c hc hb
      obtain ⟨⟨hx, hy⟩, rfl⟩ := hpixel x y c hc
      split at hb
      · cases hb
      · rename_i hout
        exact hwhite x hx y hy hout
    · rintro x y ⟨htop, hstem⟩
      have hrow := (ColorRect.contains_iff.mp htop).2.2
      have hrow' := (ColorRect.contains_iff.mp hstem).2.1
      exact absurd hrow (Nat.not_lt.mpr hrow')
  have htop : Maximal img [] ⟨0, 0, 3, 1, Rgba.black⟩ :=
    ⟨.inl rfl, .inr ⟨0, by decide, Rgba.white, by decide, by decide⟩⟩
  have hstem : Maximal img [⟨0, 0, 3, 1, Rgba.black⟩] ⟨1, 1, 1, 2, Rgba.black⟩ :=
    ⟨.inr (.inl ⟨Rgba.white, by decide, by decide⟩), .inl rfl⟩
  have hgreedy : Greedy img rects := by
    refine ((Greedy.nil img).concat (fun q hq => absurd hq List.not_mem_nil) htop).concat ?_ hstem
    intro q hq
    obtain rfl := List.mem_singleton.mp hq
    exact .inl (by decide)
  exact ⟨hcover, hgreedy, (decompose_canonical img default).2.2 rects hcover hgreedy⟩

end Mesh

end QrRender
