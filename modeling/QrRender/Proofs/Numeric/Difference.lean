import QrRender.Proofs.Numeric.Half
import QrRender.Proofs.Numeric.Order

/-!
# Differences of doubles

Doubles have numbers down to the place of the least of them, so that no difference is rounded to
zero: two numbers differ in a place that the format has, and rounding a number from such a place up
does not lose it. What is below something else therefore has a distance above zero, and only what
compares equal has none.

A difference of zero stays one on the way to a mix of two whole numbers: divided by a positive
number, multiplied by a finite one and added to the first of the two, it changes nothing, whatever
sign it has.

* `Double.roundWithAccuracy_finite`: what rounding does not lose;
* **`Double.sub_pos`**: what is less has a distance above zero;
* `Double.IsZero`, `Double.isZero_sub`: what compares equal has none;
* `Double.isZero_div`, `Double.isZero_mul`, `Double.natCast_add_isZero`: what becomes of a zero.
-/

namespace QrRender.Double

open Float.Model (Format totalExponent UnpackedFloat)
open Float.Model.UnpackedFloat

/-! ## 1. Rounding -/

/-- **A number in the places of the format is not rounded to zero.** -/
theorem roundWithAccuracy_finite (s : Sign) {m : Nat} {e : Int} (hm : 0 < m) (he : -1074 ≤ e)
    (a : Accuracy) : ∃ r e' h, roundWithAccuracy .binary64 s m e a = .finite s r e' h ∧
      r < 2 ^ 53 ∧ -1074 ≤ e' := by
  obtain ⟨r, n, n', hn, hr, -, hn', hround⟩ := roundWithAccuracy_cases s m e a
  unfold places totalExponent at hn hn'
  have hlog0 : Nat.log2 0 = 0 := by decide
  -- the places that are cut off are never all of them
  have hpos : 0 < r := by
    refine Nat.lt_of_lt_of_le ?_ hr
    rw [Nat.div_pos_iff, ← Nat.le_log2 hm.ne']
    exact ⟨Nat.two_pow_pos n, by omega⟩
  have hpos' : 0 < r / 2 ^ n' := by
    rw [Nat.div_pos_iff, ← Nat.le_log2 hpos.ne']
    exact ⟨Nat.two_pow_pos n', by omega⟩
  have hlog := log2_div_pow r n'
  rcases hround with ⟨-, hzero⟩ | ⟨h, hfinite⟩
  · exact absurd hzero hpos'.ne'
  · refine ⟨_, _, h, hfinite, ?_, by omega⟩
    rw [← Nat.log2_lt hpos'.ne']
    omega

theorem round_finite (s : Sign) {m : Nat} {e : Int} (hm : 0 < m) (he : -1074 ≤ e) :
    ∃ r e' h, UnpackedFloat.round .binary64 s m e = .finite s r e' h ∧ r < 2 ^ 53 ∧
      -1074 ≤ e' := by
  refine roundWithAccuracy_finite s ?_ ?_ .exact
  · exact Nat.pos_of_ne_zero (totalExponent_decreaseExponent hm.ne' e _).1
  · show -1074 ≤ e - ((e - max (totalExponent m e - 53) (-1074)).toNat : Int)
    omega

/-! ## 2. Distances -/

/-- The lesser of two numbers is the lesser also in the places of both. -/
theorem mul_pow_lt_mul_pow {m m' k k' : Nat} (hlt : m < 2 ^ 53) (hlt' : m' < 2 ^ 53)
    (hfull : 2 ^ 52 ≤ m ∨ k = 0) (hfull' : 2 ^ 52 ≤ m' ∨ k' = 0)
    (h : k * 2 ^ 52 + m < k' * 2 ^ 52 + m') :
    m * 2 ^ (k - min k k') < m' * 2 ^ (k' - min k k') := by
  rcases Nat.lt_or_ge k k' with hk | hk
  · have hpow : 2 ^ 1 ≤ 2 ^ (k' - k) := Nat.pow_le_pow_right Nat.two_pos (by omega)
    have hm' : 2 ^ 52 ≤ m' := by omega
    rw [Nat.min_eq_left hk.le, Nat.sub_self, Nat.pow_zero, Nat.mul_one]
    calc m < 2 ^ 52 * 2 ^ 1 := hlt
      _ ≤ m' * 2 ^ (k' - k) := Nat.mul_le_mul hm' hpow
  · have hk' : k = k' := by omega
    subst hk'
    rw [Nat.min_self, Nat.sub_self, Nat.pow_zero]
    omega

theorem decreaseExponent_fst {m k l : Nat} (h : l ≤ k) :
    (decreaseExponent m ((k : Int) - 1074) ((l : Int) - 1074)).1 = m * 2 ^ (k - l) := by
  have hshift : ((k : Int) - 1074 - ((l : Int) - 1074)).toNat = k - l := by omega
  simp only [decreaseExponent]
  rw [hshift, Nat.shiftLeft_eq]

theorem sub_finite (s s' : Sign) {m m' k k' : Nat} (hm : 0 < m) (hm' : 0 < m') :
    UnpackedFloat.sub .binary64 (.finite s m (k - 1074) hm) (.finite s' m' (k' - 1074) hm') =
      UnpackedFloat.normalize .binary64
        (s.apply (m * 2 ^ (k - min k k') : Nat) - s'.apply (m' * 2 ^ (k' - min k k') : Nat))
        ((min k k' : Nat) - 1074) .positive := by
  have hmin : min ((k : Int) - 1074) ((k' : Int) - 1074) = ((min k k' : Nat) : Int) - 1074 := by
    omega
  simp only [UnpackedFloat.sub, hmin, decreaseExponent_fst (Nat.min_le_left k k'),
    decreaseExponent_fst (Nat.min_le_right k k')]

theorem isPositive_normalize {d : Int} {k : Nat} (hd : 0 < d) (s : Sign) :
    IsPositive (UnpackedFloat.unpack .binary64 (UnpackedFloat.pack .binary64
      (UnpackedFloat.normalize .binary64 d (k - 1074) s))) := by
  obtain ⟨r, e, hr, hround, hlt, he⟩ :=
    round_finite .positive (m := d.toNat) (e := k - 1074) (by omega) (by omega)
  rw [normalize_of_pos hd, hround]
  exact isPositive_pack_finite hr hlt he

/-- Two finite numbers differ in a place that both of them have. -/
theorem isPositive_sub_finite {s s' : Sign} {m m' k k' : Nat} (hm : 0 < m) (hm' : 0 < m')
    (hlt : m < 2 ^ 53) (hlt' : m' < 2 ^ 53) (hfull : 2 ^ 52 ≤ m ∨ k = 0)
    (hfull' : 2 ^ 52 ≤ m' ∨ k' = 0)
    (h : s.apply (k * 2 ^ 52 + m : Nat) < s'.apply (k' * 2 ^ 52 + m' : Nat)) :
    IsPositive (UnpackedFloat.unpack .binary64 (UnpackedFloat.pack .binary64
      (UnpackedFloat.sub .binary64 (.finite s' m' (k' - 1074) hm')
        (.finite s m (k - 1074) hm)))) := by
  have hpos : 0 < m * 2 ^ (k - min k k') := Nat.mul_pos hm (Nat.two_pow_pos _)
  have hpos' : 0 < m' * 2 ^ (k' - min k k') := Nat.mul_pos hm' (Nat.two_pow_pos _)
  rw [sub_finite, Nat.min_comm k' k]
  refine isPositive_normalize (Int.sub_pos.mpr ?_) .positive
  cases s with
  | positive =>
    cases s' with
    | positive =>
      exact Int.ofNat_lt.mpr (mul_pow_lt_mul_pow hlt hlt' hfull hfull' (Int.ofNat_lt.mp h))
    | negative =>
      simp only [apply_positive, apply_negative] at h
      omega
  | negative =>
    cases s' with
    | positive =>
      simp only [apply_positive, apply_negative]
      omega
    | negative =>
      have hplaces := mul_pow_lt_mul_pow hlt' hlt hfull' hfull
        (Int.ofNat_lt.mp (Int.neg_lt_neg_iff.mp h))
      rw [Nat.min_comm] at hplaces
      exact Int.neg_lt_neg (Int.ofNat_lt.mpr hplaces)

/-- No magnitude is greater than that of an infinity. -/
theorem HasMagnitude.bounds {u : UnpackedFloat} {v : Int} (h : HasMagnitude u v) :
    -(2047 * 2 ^ 52) ≤ v ∧ v ≤ 2047 * 2 ^ 52 := by
  cases h with
  | zero s => decide
  | infinity s => cases s <;> decide
  | finite s hm hlt hk he hfull =>
    cases s <;> simp only [apply_positive, apply_negative] <;> omega

/-- What is taken from the positive infinity leaves it, and so does the negative one taken from a
    number. -/
theorem isPositive_sub_infinity {u v : UnpackedFloat} {i j : Int} (hu : HasMagnitude u i)
    (hv : HasMagnitude v j) (h : i < j) (hinfinite : v = .infinity .positive ∨
      u = .infinity .negative) : IsPositive (UnpackedFloat.unpack .binary64
        (UnpackedFloat.pack .binary64 (UnpackedFloat.sub .binary64 v u))) := by
  have hsub : UnpackedFloat.sub .binary64 v u = .infinity .positive := by
    rcases hinfinite with rfl | rfl
    · cases hv
      cases hu with
      | infinity s =>
        cases s with
        | positive => exact absurd h (Int.lt_irrefl _)
        | negative => rfl
      | _ => rfl
    · cases hu
      cases hv with
      | infinity s =>
        cases s with
        | positive => rfl
        | negative => exact absurd h (Int.lt_irrefl _)
      | _ => rfl
  rw [hsub]
  trivial

/-- A number taken from a greater one leaves a positive one. -/
theorem isPositive_sub {u v : UnpackedFloat} {i j : Int} (hu : HasMagnitude u i)
    (hv : HasMagnitude v j) (h : i < j) : IsPositive (UnpackedFloat.unpack .binary64
      (UnpackedFloat.pack .binary64 (UnpackedFloat.sub .binary64 v u))) := by
  obtain ⟨hlow, -⟩ := hu.bounds
  obtain ⟨-, hhigh⟩ := hv.bounds
  cases hu with
  | infinity s =>
    cases s with
    | positive => exact absurd (h.trans_le hhigh) (Int.lt_irrefl _)
    | negative => exact isPositive_sub_infinity (.infinity .negative) hv h (.inr rfl)
  | zero s =>
    cases hv with
    | zero s' => exact absurd h (Int.lt_irrefl 0)
    | infinity s' =>
      cases s' with
      | positive => exact isPositive_sub_infinity (.zero s) (.infinity .positive) h (.inl rfl)
      | negative => exact absurd h (by decide)
    | finite s' hm' hlt' hk' he' hfull' =>
      cases s' with
      | positive => exact isPositive_pack_finite hm' hlt' (by omega)
      | negative => rw [apply_negative] at h; omega
  | finite s hm hlt hk he hfull =>
    cases hv with
    | zero s' =>
      cases s with
      | positive => rw [apply_positive] at h; omega
      | negative => exact isPositive_pack_finite hm hlt (by omega)
    | infinity s' =>
      cases s' with
      | positive =>
        exact isPositive_sub_infinity (.finite s hm hlt hk he hfull) (.infinity .positive) h
          (.inl rfl)
      | negative => exact absurd (hlow.trans_lt h) (Int.lt_irrefl _)
    | finite s' hm' hlt' hk' he' hfull' =>
      subst he he'
      exact isPositive_sub_finite hm hm' hlt hlt' hfull hfull' h

variable {x y : Float} {k n : Nat}

/-- **What is below a double has a distance above zero to it.** -/
theorem sub_pos (h : x < y) : ((0 : Nat) : Float) < y - x := by
  obtain ⟨hx, hy⟩ := isNaN_eq_false_of_lt h
  rw [lt_iff_signedBits hx hy] at h
  exact pos_iff.mpr (isPositive_sub (hasMagnitude_of_number hx) (hasMagnitude_of_number hy) h)

/-! ## 3. Zeros -/

/-- The double is a zero, of either sign. -/
def IsZero (x : Float) : Prop := ∃ s, x.toModel.unpack = .zero s

/-- What is computed to be a zero is one when it is packed. -/
theorem isZero_of_unpack {u : UnpackedFloat} {s : Sign} (h : x.toModel.unpack =
    UnpackedFloat.unpack .binary64 (UnpackedFloat.pack .binary64 u)) (hu : u = .zero s) :
    IsZero x := by
  refine ⟨s, ?_⟩
  rw [h, hu]
  cases s <;> rfl

/-- A signed magnitude says the sign, the exponent and the mantissa. -/
theorem parts_eq {s s' : Sign} {m m' k k' : Nat} (hm : 0 < m) (hm' : 0 < m') (hlt : m < 2 ^ 53)
    (hlt' : m' < 2 ^ 53) (hfull : 2 ^ 52 ≤ m ∨ k = 0) (hfull' : 2 ^ 52 ≤ m' ∨ k' = 0)
    (h : s.apply (k * 2 ^ 52 + m : Nat) = s'.apply (k' * 2 ^ 52 + m' : Nat)) :
    s = s' ∧ m = m' ∧ k = k' := by
  cases s <;> cases s' <;> simp only [apply_positive, apply_negative] at h <;>
    simp only [reduceCtorEq, true_and, false_and] <;> omega

/-- Unpacked numbers of one magnitude have no difference, unless they are infinite. -/
theorem sub_eq_zero {u u' : UnpackedFloat} {v v' : Int} (hu : HasMagnitude u v)
    (hu' : HasMagnitude u' v') (hbelow : Below k u) (h : v = v') :
    ∃ s, UnpackedFloat.sub .binary64 u u' = .zero s := by
  cases hu with
  | infinity s => cases hbelow
  | zero s =>
    cases hu' with
    | zero s' =>
      show ∃ t, (if s == -s' then UnpackedFloat.zero s else .zero .positive) = .zero t
      split <;> exact ⟨_, rfl⟩
    | infinity s' => cases s' <;> exact absurd h (by decide)
    | finite s' hm' hlt' hk' he' hfull' =>
      cases s' <;> simp only [apply_positive, apply_negative] at h <;> omega
  | finite s hm hlt hk he hfull =>
    cases hu' with
    | zero s' => cases s <;> simp only [apply_positive, apply_negative] at h <;> omega
    | infinity s' =>
      cases s <;> cases s' <;> simp only [apply_positive, apply_negative] at h <;> omega
    | finite s' hm' hlt' hk' he' hfull' =>
      obtain ⟨rfl, rfl, rfl⟩ := parts_eq hm hm' hlt hlt' hfull hfull' h
      subst he he'
      rw [sub_finite, Int.sub_self]
      exact ⟨.positive, rfl⟩

/-- **What compares equal has no distance**, unless it is infinite. -/
theorem isZero_sub (hx : IsBelow k x) (hxy : x ≤ y) (hyx : y ≤ x) : IsZero (x - y) := by
  obtain ⟨hnx, hny⟩ := isNaN_eq_false_of_le hxy
  rw [le_iff_signedBits hnx hny] at hxy
  rw [le_iff_signedBits hny hnx] at hyx
  obtain ⟨s, hs⟩ := sub_eq_zero (hasMagnitude_of_number hnx) (hasMagnitude_of_number hny) hx
    (Int.le_antisymm hxy hyx)
  exact isZero_of_unpack rfl hs

/-- A zero by a positive number is a zero, -/
theorem isZero_div (hx : IsZero x) (hy : ((0 : Nat) : Float) < y) : IsZero (x / y) := by
  obtain ⟨s, hs⟩ := hx
  have hpos := pos_iff.mp hy
  have hdiv : (x / y).toModel.unpack = UnpackedFloat.unpack .binary64 (UnpackedFloat.pack .binary64
    (UnpackedFloat.div .binary64 x.toModel.unpack y.toModel.unpack)) := rfl
  rw [hs] at hdiv
  generalize y.toModel.unpack = v at hpos hdiv
  cases v with
  | infinity s' => exact isZero_of_unpack hdiv rfl
  | finite s' m e hm => exact isZero_of_unpack hdiv rfl
  | _ => cases hpos

/-- and so is a finite number times a zero. -/
theorem isZero_mul (hx : IsBelow k x) (hy : IsZero y) : IsZero (x * y) := by
  obtain ⟨s, hs⟩ := hy
  have hmul : (x * y).toModel.unpack = UnpackedFloat.unpack .binary64 (UnpackedFloat.pack .binary64
    (UnpackedFloat.mul .binary64 x.toModel.unpack y.toModel.unpack)) := rfl
  rw [hs] at hmul
  obtain ⟨s', hx'⟩ | ⟨s', m, e, hm, hx', -⟩ := below_cases hx
  · rw [hx'] at hmul
    exact isZero_of_unpack hmul rfl
  · rw [hx'] at hmul
    exact isZero_of_unpack hmul rfl

/-- A zero added to a whole number leaves it, whatever the sign of the zero. -/
theorem natCast_add_isZero (hn : n < 2 ^ 53) (hx : IsZero x) : (n : Float) + x = n := by
  obtain ⟨s, hs⟩ := hx
  have hadd : UnpackedFloat.add .binary64 (ofWhole n) (.zero s) = ofWhole n := by
    unfold ofWhole
    split
    · cases s <;> rfl
    · rfl
  apply eq_of_unpack_eq
  show UnpackedFloat.unpack .binary64 (UnpackedFloat.pack .binary64 (UnpackedFloat.add .binary64
    (n : Float).toModel.unpack x.toModel.unpack)) = _
  rw [unpack_natCast hn, hs, hadd, unpack_pack_ofWhole hn]

end QrRender.Double
