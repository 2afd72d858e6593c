import QrRender.Box
import QrRender.Proofs.Image.Places
import QrRender.Proofs.Numeric.Exact
import QrRender.Raster.Surface

/-!
# Filled boxes

A box of whole pixels is drawn as a rectangle with its corners on whole numbers. Filled without
scaling it covers exactly its pixels, each of them once; and filled through a view that puts its
corners on whole numbers again, it covers exactly the pixels between these.

* `Coverage.nodup_pixels`: whatever is drawn, no pixel is covered twice;
* `Surface.FillsBoxes`: what it means for boxes to be filled exactly;
* `View.Maps`, `Surface.FillsMapped`: where a view puts the corners of a box, and what it means for
  boxes to be filled exactly through it;
* `Box.crossings_outline`: with exact numbers a row of centres crosses the outline of a box at its
  right and at its left, or not at all;
* `Box.winding_crossings`: the centres between the two are inside;
* **`Surface.fillsMapped`**, `Surface.fillsBoxes`: with exact numbers boxes are filled exactly,
  through any view and without one, on images of any size.
-/

namespace QrRender

/-! ## 1. Covered pixels -/

namespace Coverage

theorem mem_window {α : Type} [Numeric α] {low high : α} {limit i : Nat} :
    i ∈ window low high limit ↔
      (Numeric.floor low ≤ i ∧ i ≤ Numeric.floor high) ∧ i < limit := by
  simp only [window, List.mem_map, List.mem_range]
  constructor
  · intro h
    obtain ⟨k, hk, rfl⟩ := h
    omega
  · intro h
    exact ⟨i - Numeric.floor low, by omega, by omega⟩

theorem nodup_window {α : Type} [Numeric α] (low high : α) (limit : Nat) :
    (window low high limit).Nodup :=
  List.nodup_range.map fun _ _ h => Nat.add_left_cancel h

section

variable {α : Type} [Add α] [Div α] [NatCast α] [LT α] [DecidableLT α] [Numeric α]

/-- The covered pixels are the covered columns of some rows. -/
theorem pixels_eq_grid (c : Coverage α) (width height : Nat) :
    c.pixels width height = Image.grid (c.columns width) (window c.top c.bottom height) := rfl

/-- No pixel is covered twice. -/
theorem nodup_pixels (c : Coverage α) (width height : Nat) : (c.pixels width height).Nodup := by
  rw [pixels_eq_grid]
  refine Image.nodup_grid (nodup_window ..) fun y => ?_
  unfold columns
  simp only
  split
  · exact List.nodup_nil
  · exact (nodup_window ..).filter _

end

end Coverage

/-! ## 2. Boxes -/

/-- The rectangle that draws a box. -/
def Box.step {α : Type} [NatCast α] (b : Box) : PathStep α :=
  .rect (b.x : α) (b.y : α) (b.width : α) (b.height : α)

/-- **Boxes are filled exactly**: a box inside an image of `width` by `height`, filled on its own
    and without scaling, covers its own pixels and no others. -/
def Surface.FillsBoxes (α : Type) [Add α] [Sub α] [Mul α] [Div α] [NatCast α] [LT α]
    [DecidableLT α] [LE α] [DecidableLE α] [Numeric α] (width height : Nat) : Prop :=
  ∀ b : Box, b.Nonempty → b.Within ⟨0, 0, width, height⟩ →
    ∃ c, (Surface.mk (α := α) View.identity none).coverage? .fill Style.default
        (SubPath.ofSteps [b.step]) = some c ∧
      ∀ px py, (px, py) ∈ c.pixels width height ↔ b.Contains px py

/-- The corners of the box `b`, scaled and moved by the view, are those of the box `b'`. -/
structure View.Maps {α : Type} [Add α] [Mul α] [NatCast α] (v : View α) (b b' : Box) : Prop where
  left : (b.x : α) * v.scale + v.dx = b'.x
  top : (b.y : α) * v.scale + v.dy = b'.y
  right : ((b.x + b.width : Nat) : α) * v.scale + v.dx = (b'.x + b'.width : Nat)
  bottom : ((b.y + b.height : Nat) : α) * v.scale + v.dy = (b'.y + b'.height : Nat)

section

variable {α : Type} [Add α] [Sub α] [Mul α] [Div α] [NatCast α] [LT α] [DecidableLT α] [LE α]
  [DecidableLE α] [Numeric α]

/-- The box `b`, filled on its own, covers on an image of `width` by `height` the pixels of the box
    `b'` and no others. -/
def Surface.FillsAs (s : Surface α) (width height : Nat) (b b' : Box) : Prop :=
  ∃ c, s.coverage? .fill Style.default (SubPath.ofSteps [b.step]) = some c ∧
    ∀ px py, (px, py) ∈ c.pixels width height ↔ b'.Contains px py

/-- **Boxes are filled exactly through a view**: where a box of a canvas of `w` by `h` has its
    corners put on those of a box inside an image of `width` by `height`, it covers the pixels of
    that box and no others. -/
def Surface.FillsMapped (v : View α) (w h width height : Nat) : Prop :=
  ∀ b b' : Box, b.Nonempty → b.Within ⟨0, 0, w, h⟩ → b'.Nonempty →
    b'.Within ⟨0, 0, width, height⟩ → v.Maps b b' → (Surface.mk v none).FillsAs width height b b'

end

/-! ## 3. Crossings -/

section Edges

variable {α : Type} [Field α] [LinearOrder α] [Numeric α]

/-- No row of centres crosses a level edge. -/
theorem Edge.crossings_level (y : α) {p q : Point α} (h : p.y = q.y) :
    (line p q).crossings y = [] := by
  have hnone : ¬(q.y < y ∧ y ≤ q.y) := fun hy => absurd hy.1 (not_lt.mpr hy.2)
  simp only [crossings, h, if_neg hnone]

/-- An upright edge is crossed where it is. -/
theorem Edge.crossings_upright (y : α) {p q : Point α} (h : p.x = q.x) :
    (line p q).crossings y =
      if p.y < y ∧ y ≤ q.y then [(p.x, 1)] else if q.y < y ∧ y ≤ p.y then [(p.x, -1)] else [] := by
  simp [crossings, h]

end Edges

namespace Box

variable {α : Type} [Field α] [LinearOrder α]

/-- The outline of a box, clockwise from its top left. -/
def outline (b : Box) : SubPath α :=
  ⟨⟨b.x, b.y⟩, [.line ⟨b.x + b.width, b.y⟩, .line ⟨b.x + b.width, b.y + b.height⟩,
    .line ⟨b.x, b.y + b.height⟩], true⟩

/-- Where the row of centres at height `y` crosses the outline of a box: on the right downwards,
    and on the left upwards. -/
def crossings (b : Box) (y : α) : List (Crossing α) :=
  if (b.y : α) < y ∧ y ≤ b.y + b.height then [((b.x : α) + b.width, 1), ((b.x : α), -1)] else []

/-- The inside of a box. -/
def coverage (b : Box) : Coverage α := ⟨.nonZero, b.y, b.y + b.height, b.crossings⟩

variable [IsStrictOrderedRing α]

theorem cast_lt_cast_add {n m : Nat} (h : 0 < m) : (n : α) < n + m :=
  lt_add_of_pos_right _ (Nat.cast_pos.mpr h)

/-- A whole number is to the left of a centre exactly if it is at most its pixel. -/
theorem lt_centre_iff {n i : Nat} : (n : α) < i + half ↔ n ≤ i := by
  have hhalf : (half : α) = 1 / 2 := by simp [half]
  rw [hhalf]
  constructor
  · intro h
    by_contra hlt
    have hcast : (i : α) + 1 ≤ n := by exact_mod_cast not_le.mp hlt
    linarith
  · intro h
    have hcast : (n : α) ≤ i := by exact_mod_cast h
    linarith

theorem centre_le_iff {n i : Nat} : (i : α) + half ≤ n ↔ i < n := by
  rw [← not_lt, lt_centre_iff, not_le]

/-- Between the two sides of a box the crossings on the left add up to something else than zero. -/
theorem winding_crossings (b : Box) (i : Nat) :
    Coverage.isInside .nonZero
        (Coverage.winding [((b.x : α) + b.width, 1), ((b.x : α), -1)] (i + half)) = true ↔
      b.x ≤ i ∧ i < b.x + b.width := by
  have hleft : (b.x : α) < i + half ↔ b.x ≤ i := lt_centre_iff
  have hright : (b.x : α) + b.width < i + half ↔ b.x + b.width ≤ i := by
    rw [← Nat.cast_add, lt_centre_iff]
  simp only [Coverage.winding, List.filter_cons, List.filter_nil, hleft, hright, decide_eq_true_eq]
  by_cases hl : b.x ≤ i
  · by_cases hr : b.x + b.width ≤ i
    · simp [hl, hr, Coverage.isInside]
    · simp [hl, hr, Coverage.isInside, not_le.mp hr]
  · have hr : ¬b.x + b.width ≤ i := by omega
    simp [hl, hr, Coverage.isInside]

variable [Numeric α]

/-- The level sides of the outline are not crossed, and of the others each row crosses
    both or none. -/
theorem crossings_outline {b : Box} (h : b.Nonempty) (y : α) :
    (Edge.ofSubPath b.outline).flatMap (Edge.crossings y) = b.crossings y := by
  have hlt : (b.y : α) < b.y + b.height := cast_lt_cast_add h.2
  have hnot : ¬((b.y : α) + b.height < y ∧ y ≤ b.y) := fun hy =>
    absurd (lt_of_lt_of_le hy.1 hy.2) (not_lt.mpr hlt.le)
  have hedges : Edge.ofSubPath (α := α) b.outline =
      [.line ⟨b.x, b.y⟩ ⟨b.x + b.width, b.y⟩,
        .line ⟨b.x + b.width, b.y⟩ ⟨b.x + b.width, b.y + b.height⟩,
        .line ⟨b.x + b.width, b.y + b.height⟩ ⟨b.x, b.y + b.height⟩,
        .line ⟨b.x, b.y + b.height⟩ ⟨b.x, b.y⟩] := rfl
  rw [hedges]
  simp only [List.flatMap_cons, List.flatMap_nil, Edge.crossings_level, Edge.crossings_upright,
    if_neg hnot, crossings, List.nil_append, List.append_nil]
  split <;> rfl

theorem extent_outline {b : Box} (h : b.Nonempty) :
    extent? ((Edge.ofSubPath b.outline).flatMap Edge.heights) =
      some ((b.y : α), (b.y : α) + b.height) := by
  have hlt : (b.y : α) < b.y + b.height := cast_lt_cast_add h.2
  show some (extent (b.y : α) [(b.y : α), b.y, b.y + b.height, b.y + b.height, b.y + b.height,
    b.y + b.height, b.y]) = _
  simp only [extent, List.foldl_cons, List.foldl_nil, lt_irrefl, if_false, if_pos hlt,
    if_neg (not_lt.mpr hlt.le)]

end Box

/-! ## 4. Exact numbers -/

/-- Without scaling nothing moves. -/
theorem View.maps_identity {α : Type} [Field α] (b : Box) : (View.identity (α := α)).Maps b b := by
  constructor <;> simp [View.identity]

/-- Where the corners of a box are put, its outline goes. -/
theorem View.mapSubPath_outline {α : Type} [Field α] [Numeric α] [ExactNumbers α] {v : View α}
    {b b' : Box} (h : v.Maps b b') : v.mapSubPath b.outline = b'.outline := by
  have hright : ((b.x : α) + b.width) * v.scale + v.dx = b'.x + b'.width := by
    exact_mod_cast h.right
  have hbottom : ((b.y : α) + b.height) * v.scale + v.dy = b'.y + b'.height := by
    exact_mod_cast h.bottom
  simp only [View.mapSubPath, Box.outline, List.map_cons, List.map_nil, View.mapSegment,
    View.mapPoint, ExactNumbers.single_eq, h.left, h.top, hright, hbottom]

namespace Box

variable {α : Type} [Field α] [LinearOrder α] [IsStrictOrderedRing α] [Numeric α] [ExactNumbers α]

/-- The covered columns of a row. -/
theorem mem_columns {b : Box} (h : b.Nonempty) {width i j : Nat} :
    i ∈ (b.coverage (α := α)).columns width j ↔ b.Contains i j ∧ i < width := by
  have hlt : (b.x : α) < b.x + b.width := cast_lt_cast_add h.1
  have hrow : (b.y : α) < j + half ∧ (j : α) + half ≤ b.y + b.height ↔
      b.y ≤ j ∧ j < b.y + b.height := by
    rw [← Nat.cast_add, lt_centre_iff, centre_le_iff]
  simp only [Coverage.columns, coverage, crossings, hrow]
  by_cases hj : b.y ≤ j ∧ j < b.y + b.height
  · have hextent : extent? [(b.x : α) + b.width, (b.x : α)] =
        some ((b.x : α), (b.x : α) + b.width) := by
      simp [extent?, extent, hlt, not_lt.mpr hlt.le]
    simp only [if_pos hj, List.map_cons, List.map_nil, hextent]
    rw [List.mem_filter, winding_crossings, Coverage.mem_window, ← Nat.cast_add,
      ExactNumbers.floor_natCast, ExactNumbers.floor_natCast, Contains]
    omega
  · simp [Contains, extent?, hj]

/-- A pixel is covered exactly if it is in the box. -/
theorem mem_pixels_coverage {b : Box} (h : b.Nonempty) {width height : Nat}
    (hin : b.Within ⟨0, 0, width, height⟩) (px py : Nat) :
    (px, py) ∈ (b.coverage (α := α)).pixels width height ↔ b.Contains px py := by
  rw [Coverage.pixels_eq_grid, Image.mem_grid, mem_columns h, Coverage.mem_window, coverage,
    ← Nat.cast_add, ExactNumbers.floor_natCast, ExactNumbers.floor_natCast]
  constructor
  · intro hcovered
    exact hcovered.1.1
  · intro hpixel
    obtain ⟨hx, hy⟩ := Box.contains_mk.mp (hin px py hpixel)
    have hrow : b.y ≤ py ∧ py < b.y + b.height := hpixel.2
    exact ⟨⟨hpixel, by omega⟩, ⟨hrow.1, by omega⟩, by omega⟩

theorem ofSteps_step (b : Box) : SubPath.ofSteps [b.step] = [b.outline (α := α)] := by
  show (Tracing.start.step (.rect (b.x : α) (b.y : α) b.width b.height)).subPaths = _
  rw [Tracing.step, Tracing.rectangle?_eq _ _ (Nat.cast_nonneg _) (Nat.cast_nonneg _)]
  rfl

/-- Filled through a view, the rectangle of a box covers the inside of the box that it is put on. -/
theorem coverage?_step {v : View α} {b b' : Box} (h : b'.Nonempty) (hmaps : v.Maps b b') :
    (Surface.mk v none).coverage? .fill Style.default (SubPath.ofSteps [b.step]) =
      some b'.coverage := by
  have hfinite : ∀ p : SubPath α, p.isFinite = true := by
    intro p
    simp [SubPath.isFinite, ExactNumbers.isFinite_eq]
  rw [ofSteps_step]
  simp only [Surface.coverage?, Coverage.ofPath?, Coverage.ofEdges?, List.map_cons, List.map_nil,
    View.mapSubPath_outline hmaps, List.all_cons, List.all_nil, hfinite, List.flatMap_cons,
    List.flatMap_nil, List.append_nil, extent_outline h, crossings_outline h]
  rfl

end Box

variable (α : Type) [Field α] [LinearOrder α] [IsStrictOrderedRing α] [Numeric α] [ExactNumbers α]

variable {α} in
/-- **With exact numbers boxes are filled exactly through any view.** -/
theorem Surface.fillsMapped (v : View α) (w h width height : Nat) :
    FillsMapped v w h width height :=
  fun _ b' _ _ hb' hin' hmaps =>
    ⟨b'.coverage, Box.coverage?_step hb' hmaps, Box.mem_pixels_coverage hb' hin'⟩

/-- **With exact numbers boxes are filled exactly.** -/
theorem Surface.fillsBoxes (width height : Nat) : FillsBoxes α width height :=
  fun b hb hin => fillsMapped View.identity width height width height b b hb hin hb hin
    (View.maps_identity b)

end QrRender
