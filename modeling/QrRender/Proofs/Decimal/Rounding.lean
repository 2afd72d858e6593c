import Mathlib.Algebra.Order.Field.Basic
import Mathlib.Algebra.Order.Field.Rat
import Mathlib.Algebra.Ring.Int.Parity
import Mathlib.Tactic.FieldSimp
import Mathlib.Tactic.Linarith
import Mathlib.Tactic.Ring
import QrRender.Decimal.Fixed

/-!
# Rounding to the nearest, and to the even of two

A decimal with so many places is a whole number of units of its last place. Which one it is for a
value is said without the way it is computed: it is a nearest whole number, and an even one where
two are equally near. There is at most one such number, and it grows with the value. A value that is
nearer to it than the one that was rounded is rounded to it again.

* `Rounds`: the integer to which a rational number is rounded;
* `Rounds.le_of_le`, `Rounds.unique`: it grows with the number, and there is one at most;
* `Rounds.of_nearer`: what is nearer is rounded alike;
* `rounds_roundEven`: fractions are rounded so;
* `Exact.value`, **`Exact.rounds_units`**: and so is the exact value of a number in units of a
  place.
-/

namespace QrRender

/-! ## 1. The nearest integer -/

/-- The number is rounded to the integer: none is nearer, and of two that are equally near it is the
    even one. -/
structure Rounds (q : ℚ) (k : ℤ) : Prop where
  near : |q - k| ≤ 1 / 2
  even : |q - k| = 1 / 2 → Even k

namespace Rounds

variable {q r : ℚ} {k l : ℤ}

theorem neg (h : Rounds q k) : Rounds (-q) (-k) := by
  have hdist : |-q - (-k : ℤ)| = |q - k| := by
    rw [Int.cast_neg, ← abs_neg]
    ring_nf
  exact ⟨hdist ▸ h.near, fun htie => (h.even (hdist ▸ htie)).neg⟩

theorem of_int (k : ℤ) : Rounds k k := by
  have hdist : |(k : ℚ) - k| = 0 := by rw [sub_self, abs_zero]
  constructor
  · rw [hdist]
    norm_num
  · rw [hdist]
    norm_num

/-- What is at least as near to the integer is rounded to it as well. -/
theorem of_nearer (h : Rounds q k) (hnear : |r - k| ≤ |q - k|) : Rounds r k where
  near := hnear.trans h.near
  even htie := h.even (le_antisymm h.near (htie ▸ hnear))

/-- Up to the midpoint behind an integer a number is rounded down. -/
theorem down {c : ℚ} (hc : 0 ≤ c) (hhalf : c ≤ 1 / 2) (heven : c = 1 / 2 → Even k) :
    Rounds (k + c) k := by
  have hdist : |(k : ℚ) + c - k| = c := by rw [add_sub_cancel_left, abs_of_nonneg hc]
  constructor
  · rwa [hdist]
  · rwa [hdist]

/-- From the midpoint on it is rounded up. -/
theorem up {c : ℚ} (hhalf : 1 / 2 ≤ c) (hc : c ≤ 1) (heven : c = 1 / 2 → Even (k + 1)) :
    Rounds (k + c) (k + 1 : ℤ) := by
  have hdist : |(k : ℚ) + c - (k + 1 : ℤ)| = 1 - c := by
    push_cast
    rw [abs_of_nonpos (by linarith)]
    ring
  constructor
  · rw [hdist]
    linarith
  · intro htie
    rw [hdist] at htie
    exact heven (by linarith)

/-- A greater number is rounded to a greater integer, or to the same. -/
theorem le_of_le (hq : Rounds q k) (hr : Rounds r l) (hle : q ≤ r) : k ≤ l := by
  by_contra hlt
  have hnext : (l : ℚ) + 1 ≤ k := by exact_mod_cast not_le.mp hlt
  have hlow := (abs_le.mp hq.near).1
  have hhigh := (abs_le.mp hr.near).2
  -- both numbers are the midpoint between the two integers, which cannot both be even
  have hk : (k : ℚ) = l + 1 := by linarith
  have hqk : |q - k| = 1 / 2 := by
    rw [abs_of_nonpos (by linarith)]
    linarith
  have hrl : |r - l| = 1 / 2 := by
    rw [abs_of_nonneg (by linarith)]
    linarith
  have heven := hq.even hqk
  have heven' := hr.even hrl
  have hsucc : k = l + 1 := by exact_mod_cast hk
  rw [hsucc, Int.even_add_one] at heven
  exact heven heven'

/-- **There is one integer at most to which a number is rounded.** -/
theorem unique (h : Rounds q k) (h' : Rounds q l) : k = l :=
  le_antisymm (h.le_of_le h' le_rfl) (h'.le_of_le h le_rfl)

end Rounds

/-! ## 2. Fractions -/

/-- **A fraction is rounded to the nearest natural number, a midpoint to the even one.** -/
theorem rounds_roundEven (num : Nat) {den : Nat} (hden : 0 < den) :
    Rounds ((num : ℚ) / den) (Exact.roundEven num den : Nat) := by
  have hpos : (0 : ℚ) < den := Nat.cast_pos.mpr hden
  have hparts : (num : ℚ) = den * (num / den : Nat) + (num % den : Nat) := by
    exact_mod_cast (Nat.div_add_mod num den).symm
  have hvalue : (num : ℚ) / den = ((num / den : Nat) : ℤ) + ((num % den : Nat) : ℚ) / den := by
    rw [hparts, Int.cast_natCast]
    field_simp
  have hrest := Nat.mod_lt num hden
  rw [hvalue]
  unfold Exact.roundEven
  simp only
  generalize num / den = q
  generalize num % den = r at hrest ⊢
  have hnonneg : (0 : ℚ) ≤ r / den := div_nonneg (Nat.cast_nonneg r) hpos.le
  have htie : (r : ℚ) / den = 1 / 2 → 2 * r = den := by
    intro h
    rw [div_eq_iff hpos.ne'] at h
    have hcast : (2 : ℚ) * r = den := by linarith
    exact_mod_cast hcast
  split
  · rename_i hup
    have htwice : (den : ℚ) ≤ 2 * r := by
      have htwice : den ≤ 2 * r := by omega
      exact_mod_cast htwice
    have hlt : (r : ℚ) ≤ den := by exact_mod_cast hrest.le
    refine Rounds.up ?_ ?_ fun h => ?_
    · rw [le_div_iff₀ hpos]
      linarith
    · rwa [div_le_one hpos]
    · have hmid := htie h
      rw [Int.even_iff]
      omega
  · rename_i hdown
    have htwice : (2 : ℚ) * r ≤ den := by
      have htwice : 2 * r ≤ den := by omega
      exact_mod_cast htwice
    refine Rounds.down hnonneg ?_ fun h => ?_
    · rw [div_le_iff₀ hpos]
      linarith
    · have hmid := htie h
      rw [Int.even_iff]
      omega

namespace Exact

/-- The rational number that is the value, if it is finite. -/
def value : Exact → ℚ
  | .finite negative num den => if negative then -((num : ℚ) / den) else (num : ℚ) / den
  | _ => 0

/-- **The units of a place to which a value is rounded.** -/
theorem rounds_units (negative : Bool) (num : Nat) {den : Nat} (hden : 0 < den) (places : Nat) :
    Rounds (10 ^ places * (Exact.finite negative num den).value)
      (if negative then -(units places num den : ℤ) else units places num den) := by
  have hscaled : (10 : ℚ) ^ places * (num / den) = (num * Nat.pow 10 places : Nat) / den := by
    rw [Nat.pow_eq]
    push_cast
    ring
  have h := rounds_roundEven (num * Nat.pow 10 places) hden
  rw [← hscaled] at h
  cases negative with
  | false => exact h
  | true =>
    rw [value, if_pos rfl, if_pos rfl, mul_neg]
    exact h.neg

end Exact

end QrRender
