import Mathlib.Algebra.Order.Field.Basic
import Mathlib.Algebra.Order.Field.Rat
import Mathlib.Data.Rat.Floor
import Mathlib.Tactic.FieldSimp
import Mathlib.Tactic.Linarith
import QrRender.Raster.SubPath

/-!
# Exact numbers

Doubles are rounded at every step. What a drawing would be without that is stated over exact
numbers: an ordered field each of whose numbers is the fraction that its exact value says, and is
kept as it is by the precision of a surface. The rational numbers are one.

* `ExactNumbers`: the two laws;
* `ExactNumbers.exact_natCast`, `ExactNumbers.floor_natCast`: the exact value and the whole part of
  a whole number;
* `Tracing.rectangle?_eq`, `Tracing.circle?_eq`: rectangles and circles have the corners and the
  ends that they are given by;
* `exactNumbersRat`: the rational numbers are exact.
-/

namespace QrRender

/-- Numbers without rounding. -/
class ExactNumbers (α : Type) [Field α] [Numeric α] : Prop where
  exact_eq (x : α) : ∃ negative num den, Numeric.exact x = .finite negative num den ∧ 0 < den ∧
    x = if negative then -((num : α) / den) else (num : α) / den
  single_eq (x : α) : Numeric.single x = x

namespace ExactNumbers

variable {α : Type} [Field α] [Numeric α] [ExactNumbers α]

theorem isFinite_eq (x : α) : Numeric.isFinite x = true := by
  obtain ⟨negative, num, den, hexact, -⟩ := exact_eq x
  rw [Numeric.isFinite, hexact]
  rfl

/-- The exact value of a whole number is the number, over some denominator; only zero may carry a
    sign. -/
theorem exact_natCast [LinearOrder α] [IsStrictOrderedRing α] (n : Nat) :
    ∃ negative d, 0 < d ∧ Numeric.exact (n : α) = .finite negative (n * d) d ∧
      (negative = true → n = 0) := by
  obtain ⟨negative, num, den, hexact, hden, hn⟩ := exact_eq (n : α)
  have hden' : (den : α) ≠ 0 := Nat.cast_ne_zero.mpr (Nat.ne_of_gt hden)
  cases negative with
  | false =>
    have hnum : (n : α) * den = num := by
      rw [hn]
      exact div_mul_cancel₀ _ hden'
    have hnum' : n * den = num := by exact_mod_cast hnum
    exact ⟨false, den, hden, hnum' ▸ hexact, Bool.noConfusion⟩
  | true =>
    have hsum : (n : α) * den + num = 0 := by
      rw [hn, if_pos rfl, neg_mul, div_mul_cancel₀ _ hden']
      exact neg_add_cancel _
    have hsum' : n * den + num = 0 := by exact_mod_cast hsum
    obtain ⟨hprod, rfl⟩ := Nat.add_eq_zero_iff.mp hsum'
    obtain rfl : n = 0 := (Nat.mul_eq_zero.mp hprod).resolve_right hden.ne'
    exact ⟨true, den, hden, (Nat.zero_mul den).symm ▸ hexact, fun _ => rfl⟩

/-- A whole number is its own whole part. -/
theorem floor_natCast [LinearOrder α] [IsStrictOrderedRing α] (n : Nat) :
    Numeric.floor (n : α) = n := by
  obtain ⟨negative, d, hd, hexact, hsign⟩ := exact_natCast (α := α) n
  rw [Numeric.floor, hexact]
  cases negative with
  | false => exact Nat.mul_div_cancel n hd
  | true => exact (hsign rfl).symm

end ExactNumbers

/-! ## Outlines -/

namespace Tracing

variable {α : Type} [Field α] [Numeric α] [ExactNumbers α]

theorem stored_eq (x y : α) : stored x y = ⟨x, y⟩ := by
  simp only [stored, ExactNumbers.single_eq]

variable [LinearOrder α] [IsStrictOrderedRing α]

theorem box?_eq {w h : α} (x y : α) (hw : 0 ≤ w) (hh : 0 ≤ h) :
    box? x y w h = some (x, y, w + x, h + y) := by
  simp [box?, ExactNumbers.single_eq, ExactNumbers.isFinite_eq, hw, hh]

/-- The outline of a rectangle goes through its corners. -/
theorem rectangle?_eq {w h : α} (x y : α) (hw : 0 ≤ w) (hh : 0 ≤ h) :
    rectangle? x y w h =
      some ⟨⟨x, y⟩, [.line ⟨x + w, y⟩, .line ⟨x + w, y + h⟩, .line ⟨x, y + h⟩], true⟩ := by
  rw [rectangle?, box?_eq x y hw hh, add_comm w, add_comm h]
  rfl

/-- The outline of a circle goes through its ends on the right and on the left. -/
theorem circle?_eq {r : α} (cx cy : α) (hr : 0 ≤ r) :
    circle? cx cy r =
      some ⟨⟨cx + r, cy⟩, [.halfTurn ⟨cx - r, cy⟩, .halfTurn ⟨cx + r, cy⟩], true⟩ := by
  have hright : r + r + (cx - r) = cx + r := by ring
  have hmiddle : (cy - r) / ((2 : Nat) : α) + (r + r + (cy - r)) / ((2 : Nat) : α) = cy := by
    push_cast
    ring
  have hside : 0 ≤ r + r := add_nonneg hr hr
  simp only [circle?, ExactNumbers.single_eq, box?_eq (cx - r) (cy - r) hside hside,
    Option.map_some, hright, hmiddle]

end Tracing

/-! ## Rational numbers -/

/-- The rational numbers. Square roots are cut down to the denominator, and directions to quarter
    turns. -/
instance numericRat : Numeric ℚ where
  exact x := .finite (x.num < 0) x.num.natAbs x.den
  single x := x
  sqrt x := (Nat.sqrt (x.num.natAbs * x.den) : ℚ) / x.den
  direction degrees :=
    match (⌊degrees / 90⌋ % 4).toNat with
    | 0 => (1, 0)
    | 1 => (0, -1)
    | 2 => (-1, 0)
    | _ => (0, 1)
  totalLe a b := a ≤ b

instance exactNumbersRat : ExactNumbers ℚ where
  single_eq _ := rfl
  exact_eq x := by
    refine ⟨_, _, _, rfl, x.den_pos, ?_⟩
    have hx : (x.num : ℚ) / x.den = x := Rat.num_div_den x
    have habs : ((x.num.natAbs : ℤ) : ℚ) = |(x.num : ℚ)| := by
      rw [Int.natCast_natAbs, Int.cast_abs]
    rw [← Int.cast_natCast x.num.natAbs, habs]
    by_cases hneg : x.num < 0
    · have hcast : (x.num : ℚ) < 0 := by exact_mod_cast hneg
      rw [if_pos (decide_eq_true hneg), abs_of_neg hcast, neg_div, neg_neg, hx]
    · have hcast : 0 ≤ (x.num : ℚ) := by exact_mod_cast not_lt.mp hneg
      rw [if_neg (by simpa using hneg), abs_of_nonneg hcast, hx]

end QrRender
