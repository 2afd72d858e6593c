/-!
# Row-major places

A rectangle of `w` columns and `h` rows is kept row by row in one array: column `x` of row `y` is
at the place `y * w + x`. Inside the rectangle a place is below `w * h`, column and row can be read
off it again, and so different cells have different places.
-/

namespace QrRender.RowMajor

/-- A cell inside the rectangle has its place inside the array. -/
theorem place_lt {w h x y : Nat} (hx : x < w) (hy : y < h) : y * w + x < w * h := by
  have hrows : (y + 1) * w ≤ h * w := Nat.mul_le_mul_right _ hy
  rw [Nat.succ_mul, Nat.mul_comm h w] at hrows
  omega

/-- The column of a place. -/
theorem place_mod {w x : Nat} (hx : x < w) (y : Nat) : (y * w + x) % w = x := by
  rw [Nat.mul_comm, Nat.mul_add_mod, Nat.mod_eq_of_lt hx]

/-- The row of a place. -/
theorem place_div {w x : Nat} (hx : x < w) (y : Nat) : (y * w + x) / w = y := by
  have hw : 0 < w := Nat.zero_lt_of_lt hx
  rw [Nat.mul_comm, Nat.mul_add_div hw, Nat.div_eq_of_lt hx, Nat.add_zero]

/-- Different cells have different places. -/
theorem place_inj {w x x' y y' : Nat} (hx : x < w) (hx' : x' < w) :
    y * w + x = y' * w + x' ↔ x = x' ∧ y = y' := by
  constructor
  · intro h
    have hmod : (y * w + x) % w = (y' * w + x') % w := by rw [h]
    have hdiv : (y * w + x) / w = (y' * w + x') / w := by rw [h]
    rw [place_mod hx, place_mod hx'] at hmod
    rw [place_div hx, place_div hx'] at hdiv
    exact ⟨hmod, hdiv⟩
  · rintro ⟨rfl, rfl⟩
    rfl

/-- Every place of the array is the place of a cell. -/
theorem mod_lt_div_lt {w h i : Nat} (hi : i < w * h) : i % w < w ∧ i / w < h := by
  have hw : 0 < w := by
    rcases Nat.eq_zero_or_pos w with rfl | hw
    · simp at hi
    · exact hw
  exact ⟨Nat.mod_lt i hw, Nat.div_lt_of_lt_mul hi⟩

/-- A place is put together from its column and its row. -/
theorem place_mod_div (w i : Nat) : i / w * w + i % w = i := Nat.div_add_mod' i w

end QrRender.RowMajor
