import Mathlib.Algebra.Order.Field.Basic
import Mathlib.Algebra.Order.Field.Rat
import Mathlib.Tactic.FieldSimp
import Mathlib.Tactic.Linarith
import Mathlib.Tactic.LinearCombination
import QrRender.Proofs.Gradient.Line

/-!
# The line of a gradient spans its rectangle

In exact arithmetic, with a direction of length one in place of a cosine and a sine. The line goes
through the middle of the rectangle and is as long as the four corners are apart along the
direction. A rectangle is the same seen from the opposite corner, so that the middle of the extent
is the projection of the middle of the rectangle, and the line begins and ends level with the
outermost corners. The position of a point is therefore where its projection lies between the least
and the greatest, as a share: zero and one at the outermost corners, in between for all that is
between the corners, and the same for points that are level with each other.

The extent is not zero: all four corners are level only with a direction across both sides, and
there is none.

* `extent_bounds`: the least and the greatest bound all;
* `GradientLine.along_bounds`: so do the projections of the corners all of the rectangle;
* `GradientLine.least_add_greatest`: the rectangle from the opposite corner;
* `GradientLine.least_lt_greatest`: the extent is not zero;
* `GradientLine.position_project`: positions as shares of the extent;
* **`GradientLine.project_spans`**: the line of every direction spans every rectangle.
-/

namespace QrRender

/-- The least and the greatest bound all the numbers they are taken of. -/
theorem extent_bounds {α : Type} [LinearOrder α] {first : α} {more : List α} :
    ∀ v ∈ more, (extent first more).1 ≤ v ∧ v ≤ (extent first more).2 := by
  induction more using List.reverseRecOn with
  | nil => exact fun v hv => absurd hv List.not_mem_nil
  | append_singleton more last ih =>
    have hstep : extent first (more ++ [last]) =
        (min last (extent first more).1, max (extent first more).2 last) := by
      simp only [extent, List.foldl_append, List.foldl_cons, List.foldl_nil, min_def_lt, max_def_lt]
    intro v hv
    rw [hstep]
    rcases List.mem_append.mp hv with hv | hv
    · obtain ⟨hleast, hgreatest⟩ := ih v hv
      exact ⟨(min_le_right _ _).trans hleast, hgreatest.trans (le_max_left _ _)⟩
    · obtain rfl := List.mem_singleton.mp hv
      exact ⟨min_le_left _ _, le_max_right _ _⟩

namespace GradientLine

variable {K : Type} [Field K] [LinearOrder K]

/-! ## 1. Projections -/

/-- The least projection of a corner onto a direction. -/
def least (direction : K × K) (w h : K) : K :=
  (extent (along direction ((0 : Nat), (0 : Nat))) ((corners w h).map (along direction))).1

/-- The greatest projection of a corner onto a direction. -/
def greatest (direction : K × K) (w h : K) : K :=
  (extent (along direction ((0 : Nat), (0 : Nat))) ((corners w h).map (along direction))).2

theorem halfExtent_eq (direction : K × K) (w h : K) :
    halfExtent direction w h = (greatest direction w h - least direction w h) / 2 :=
  congrArg (_ / ·) Nat.cast_ofNat

theorem mem_corners {w h : K} {p : K × K} :
    p ∈ corners w h ↔ (p.1 = 0 ∨ p.1 = w) ∧ (p.2 = 0 ∨ p.2 = h) := by
  obtain ⟨x, y⟩ := p
  simp only [corners, Nat.cast_zero, List.mem_cons, List.not_mem_nil, or_false, Prod.mk.injEq]
  tauto

variable {direction : K × K} {w h : K}

/-- Some corners are at the least and at the greatest projection. -/
theorem exists_corners (direction : K × K) (w h : K) :
    (∃ p ∈ corners w h, along direction p = least direction w h) ∧
      ∃ p ∈ corners w h, along direction p = greatest direction w h := by
  refine extent_mem (P := fun v => ∃ p ∈ corners w h, along direction p = v) ?_ ?_
  · exact ⟨_, List.mem_cons_self, rfl⟩
  · intro v hv
    exact List.mem_map.mp hv

/-- The projections of the corners bound those of the corners. -/
theorem corner_bounds (direction : K × K) {p : K × K} (hp : p ∈ corners w h) :
    least direction w h ≤ along direction p ∧ along direction p ≤ greatest direction w h :=
  extent_bounds _ (List.mem_map_of_mem hp)

variable [IsStrictOrderedRing K]

/-- Along one side, one end or the other is as far back as any point between. -/
theorem exists_end_le {d x w : K} (hx : 0 ≤ x) (hxw : x ≤ w) :
    ∃ e, (e = 0 ∨ e = w) ∧ e * d ≤ x * d := by
  rcases le_total 0 d with hd | hd
  · exact ⟨0, .inl rfl, mul_le_mul_of_nonneg_right hx hd⟩
  · exact ⟨w, .inr rfl, mul_le_mul_of_nonpos_right hxw hd⟩

/-- **The projections of the corners bound those of all of the rectangle.** -/
theorem along_bounds (direction : K × K) {x y : K} (hx : 0 ≤ x) (hxw : x ≤ w) (hy : 0 ≤ y)
    (hyh : y ≤ h) :
    least direction w h ≤ along direction (x, y) ∧
      along direction (x, y) ≤ greatest direction w h := by
  obtain ⟨dx, dy⟩ := direction
  constructor
  · obtain ⟨a, ha, hxa⟩ := exists_end_le (d := dx) hx hxw
    obtain ⟨b, hb, hyb⟩ := exists_end_le (d := dy) hy hyh
    have hcorner : (a, b) ∈ corners w h := mem_corners.mpr ⟨ha, hb⟩
    exact (corner_bounds (dx, dy) hcorner).1.trans (add_le_add hxa hyb)
  · -- what is farthest ahead is farthest back in the opposite direction
    obtain ⟨a, ha, hxa⟩ := exists_end_le (d := -dx) hx hxw
    obtain ⟨b, hb, hyb⟩ := exists_end_le (d := -dy) hy hyh
    rw [mul_neg, mul_neg, neg_le_neg_iff] at hxa hyb
    have hcorner : (a, b) ∈ corners w h := mem_corners.mpr ⟨ha, hb⟩
    exact (add_le_add hxa hyb).trans (corner_bounds (dx, dy) hcorner).2

omit [LinearOrder K] [IsStrictOrderedRing K] in
/-- The projection of a point seen from the opposite corner. -/
theorem along_opposite (direction : K × K) (w h x y : K) :
    along direction (w - x, h - y) = along direction (w, h) - along direction (x, y) := by
  unfold along
  ring

omit [IsStrictOrderedRing K] in
theorem opposite_mem_corners {p : K × K} (hp : p ∈ corners w h) :
    (w - p.1, h - p.2) ∈ corners w h := by
  obtain ⟨hx, hy⟩ := mem_corners.mp hp
  refine mem_corners.mpr ⟨?_, ?_⟩
  · exact hx.symm.imp (fun hx => sub_eq_zero.mpr hx.symm) fun hx => by rw [hx, sub_zero]
  · exact hy.symm.imp (fun hy => sub_eq_zero.mpr hy.symm) fun hy => by rw [hy, sub_zero]

/-- The rectangle has the same extent seen from the opposite corner. -/
theorem least_add_greatest (direction : K × K) (w h : K) :
    least direction w h + greatest direction w h = along direction (w, h) := by
  obtain ⟨⟨p, hp, hleast⟩, q, hq, hgreatest⟩ := exists_corners direction w h
  have hp' := (corner_bounds direction (opposite_mem_corners hp)).2
  have hq' := (corner_bounds direction (opposite_mem_corners hq)).1
  rw [along_opposite, hleast] at hp'
  rw [along_opposite, hgreatest] at hq'
  linarith

/-- **The extent is not zero** unless there is no direction. -/
theorem least_lt_greatest (hd : direction ≠ 0) (hw : 0 < w) (hh : 0 < h) :
    least direction w h < greatest direction w h := by
  by_contra hnot
  -- all corners are level, and so the direction is across both sides
  have hlevel : ∀ p ∈ corners w h, along direction p = least direction w h := fun p hp =>
    le_antisymm ((corner_bounds direction hp).2.trans (not_lt.mp hnot))
      (corner_bounds direction hp).1
  have horigin := hlevel (0, 0) (mem_corners.mpr ⟨.inl rfl, .inl rfl⟩)
  have hright := hlevel (w, 0) (mem_corners.mpr ⟨.inr rfl, .inl rfl⟩)
  have hbottom := hlevel (0, h) (mem_corners.mpr ⟨.inl rfl, .inr rfl⟩)
  rw [← horigin] at hright hbottom
  have hx : w * direction.1 = 0 := by simpa [along] using hright
  have hy : h * direction.2 = 0 := by simpa [along] using hbottom
  exact hd (Prod.ext ((mul_eq_zero.mp hx).resolve_left hw.ne')
    ((mul_eq_zero.mp hy).resolve_left hh.ne'))

/-! ## 2. Positions -/

/-- The line through the middle of the rectangle. -/
theorem middle_project (direction : K × K) (w h : K) :
    ((project direction w h).x1 + (project direction w h).x2) / 2 = w / 2 ∧
      ((project direction w h).y1 + (project direction w h).y2) / 2 = h / 2 := by
  simp only [project, Nat.cast_ofNat]
  constructor <;> ring

omit [IsStrictOrderedRing K] in
/-- A position is a projection onto the line, from its start and over its length. -/
theorem position_eq_div {l : GradientLine K} {x y : K}
    (hlength : (l.x2 - l.x1) * (l.x2 - l.x1) + (l.y2 - l.y1) * (l.y2 - l.y1) ≠ 0) :
    l.position x y = ((x - l.x1) * (l.x2 - l.x1) + (y - l.y1) * (l.y2 - l.y1)) /
      ((l.x2 - l.x1) * (l.x2 - l.x1) + (l.y2 - l.y1) * (l.y2 - l.y1)) := by
  unfold position
  simp only [Nat.cast_zero]
  exact if_neg fun hzero => hlength (le_antisymm hzero.1 hzero.2)

/-- **A position is where the projection lies between the least and the greatest**, as a share. -/
theorem position_project (hunit : direction.1 * direction.1 + direction.2 * direction.2 = 1)
    (hextent : least direction w h < greatest direction w h) (x y : K) :
    (project direction w h).position x y =
      (along direction (x, y) - least direction w h) /
        (greatest direction w h - least direction w h) := by
  have hhalf := halfExtent_eq direction w h
  have hsum := least_add_greatest direction w h
  have hlong : 0 < greatest direction w h - least direction w h := sub_pos.mpr hextent
  -- the line is the direction, as long as the extent
  have hvx : (project direction w h).x2 - (project direction w h).x1 =
      (greatest direction w h - least direction w h) * direction.1 := by
    simp only [project, hhalf]
    ring
  have hvy : (project direction w h).y2 - (project direction w h).y1 =
      (greatest direction w h - least direction w h) * direction.2 := by
    simp only [project, hhalf]
    ring
  have hlength : ((project direction w h).x2 - (project direction w h).x1) *
        ((project direction w h).x2 - (project direction w h).x1) +
      ((project direction w h).y2 - (project direction w h).y1) *
        ((project direction w h).y2 - (project direction w h).y1) =
      (greatest direction w h - least direction w h) *
        (greatest direction w h - least direction w h) := by
    rw [hvx, hvy]
    linear_combination (greatest direction w h - least direction w h) *
      (greatest direction w h - least direction w h) * hunit
  -- and it starts level with the least
  have hstart : (x - (project direction w h).x1) * direction.1 +
      (y - (project direction w h).y1) * direction.2 =
      along direction (x, y) - least direction w h := by
    unfold along at hsum ⊢
    simp only [project, hhalf, Nat.cast_ofNat] at hsum ⊢
    linear_combination (greatest direction w h - least direction w h) / 2 * hunit + hsum / 2
  rw [position_eq_div (by rw [hlength]; exact (mul_pos hlong hlong).ne'), hlength, hvx, hvy,
    div_eq_div_iff (mul_pos hlong hlong).ne' hlong.ne', ← hstart]
  ring

/-! ## 3. The rectangle -/

/-- The line spans a rectangle of `w` by `h` at the origin, along a direction. -/
structure Spans (l : GradientLine K) (direction : K × K) (w h : K) : Prop where
  /-- Its middle is the middle of the rectangle. -/
  middle : (l.x1 + l.x2) / 2 = w / 2 ∧ (l.y1 + l.y2) / 2 = h / 2
  /-- The rectangle is between its ends, -/
  inside : ∀ x y, 0 ≤ x → x ≤ w → 0 ≤ y → y ≤ h → 0 ≤ l.position x y ∧ l.position x y ≤ 1
  /-- and reaches its first end -/
  start : ∃ p ∈ corners w h, l.position p.1 p.2 = 0
  /-- and its second. -/
  finish : ∃ p ∈ corners w h, l.position p.1 p.2 = 1
  /-- From the opposite corner positions are counted from the other end. -/
  opposite : ∀ x y, l.position (w - x) (h - y) = 1 - l.position x y
  /-- Positions stay the same across the direction, and only there. -/
  across : ∀ x y u v, l.position (x + u) (y + v) = l.position x y ↔ along direction (u, v) = 0

/-- **The line of a gradient spans its rectangle**, whatever numbers with squares that add up to one
    stand for the cosine and the sine of its angle. -/
theorem project_spans {c s : K} (hunit : c * c + s * s = 1) {w h : K} (hw : 0 < w) (hh : 0 < h) :
    (project (c, -s) w h).Spans (c, -s) w h := by
  have hunit' : (c, -s).1 * (c, -s).1 + (c, -s).2 * (c, -s).2 = 1 := by
    linear_combination hunit
  have hd : (c, -s) ≠ 0 := by
    intro h0
    rw [h0, Prod.fst_zero, Prod.snd_zero, mul_zero, add_zero] at hunit'
    exact zero_ne_one hunit'
  have hextent := least_lt_greatest hd hw hh
  have hlong : 0 < greatest (c, -s) w h - least (c, -s) w h := sub_pos.mpr hextent
  have hposition := position_project hunit' hextent
  obtain ⟨⟨p, hp, hleast⟩, q, hq, hgreatest⟩ := exists_corners (c, -s) w h
  refine ⟨middle_project _ w h, ?_, ⟨p, hp, ?_⟩, ⟨q, hq, ?_⟩, ?_, ?_⟩
  · intro x y hx hxw hy hyh
    obtain ⟨hlow, hhigh⟩ := along_bounds (c, -s) hx hxw hy hyh
    rw [hposition, div_le_one hlong]
    exact ⟨div_nonneg (sub_nonneg.mpr hlow) hlong.le, sub_le_sub_right hhigh _⟩
  · rw [hposition, hleast, sub_self, zero_div]
  · rw [hposition, hgreatest, div_self hlong.ne']
  · intro x y
    rw [hposition, hposition, along_opposite, ← least_add_greatest, eq_sub_iff_add_eq,
      ← add_div, div_eq_one_iff_eq hlong.ne']
    ring
  · intro x y u v
    have hadd : along (c, -s) (x + u, y + v) = along (c, -s) (x, y) + along (c, -s) (u, v) := by
      unfold along
      ring
    rw [hposition, hposition, div_left_inj' hlong.ne', sub_left_inj, hadd, add_eq_left]

/-- A line across a wide rectangle, up and to the left. -/
theorem project_spans_wide :
    (-3 / 5 * (-3 / 5) + 4 / 5 * (4 / 5) = (1 : ℚ) ∧ (0 : ℚ) < 40 ∧ (0 : ℚ) < 10) ∧
      (project (-3 / 5, -(4 / 5)) 40 10 : GradientLine ℚ).Spans (-3 / 5, -(4 / 5)) 40 10 := by
  have hunit : -3 / 5 * (-3 / 5) + 4 / 5 * (4 / 5) = (1 : ℚ) := by norm_num
  exact ⟨⟨hunit, by norm_num, by norm_num⟩, project_spans hunit (by norm_num) (by norm_num)⟩

end GradientLine

end QrRender
