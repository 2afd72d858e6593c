import Mathlib
import QrRender.Numeric

/-!
# Magnitudes of doubles

Doubles are computed with in the model of them that the language gives: they are unpacked into a
sign, a mantissa and an exponent, the operation is done there and rounded, and the result is packed
again. This file bounds how large and how small a result can be. The bounds are coarse, powers of
two that lose a place with every rounding; that is enough to tell that a computation with numbers of
32 bits stays far away from infinity, where what follows would be no number.

* `Double.roundWithAccuracy_cases`: what rounding does to a mantissa;
* `Double.Below`, `Double.Above`: a number below a power of two, and one not below a power of two;
* `Double.below_pack`, `Double.above_pack`: packing keeps both;
* **`Double.below_add`**, `Double.below_sub`, `Double.below_mul`, `Double.below_div`: the operations
  on numbers below powers of two;
* `Double.pack_ne_notANumber`, `Double.div_ne_notANumber`: where no number comes out, no number went
  in, and a quotient of numbers is one unless the divisor is zero.
-/

namespace QrRender.Double

open Float.Model (Format totalExponent UnpackedFloat)
open Float.Model.UnpackedFloat

/-! ## 1. Binary places of whole numbers -/

theorem log2_div_pow (m n : Nat) : (m / 2 ^ n).log2 = m.log2 - n := by
  rw [Nat.log2_eq_log_two, Nat.log2_eq_log_two, Nat.log_div_base_pow]

theorem log2_shiftLeft {m : Nat} (hm : m ≠ 0) (n : Nat) : (m <<< n).log2 = m.log2 + n := by
  induction n with
  | zero => rfl
  | succ n ih =>
    have hne : m <<< n ≠ 0 := by
      rw [Nat.shiftLeft_eq]
      exact Nat.mul_ne_zero hm (Nat.two_pow_pos n).ne'
    rw [Nat.shiftLeft_succ, Nat.log2_two_mul hne, ih, Nat.add_assoc]

theorem log2_mono {m n : Nat} (h : m ≤ n) : m.log2 ≤ n.log2 := by
  rw [Nat.log2_eq_log_two, Nat.log2_eq_log_two]
  exact Nat.log_mono_right h

theorem log2_add_le (m n : Nat) : (m + n).log2 ≤ max m.log2 n.log2 + 1 := by
  by_cases hzero : m + n = 0
  · rw [hzero]
    exact Nat.zero_le _
  rw [← Nat.lt_succ_iff, Nat.log2_lt hzero, Nat.pow_succ]
  have hm : m < 2 ^ (max m.log2 n.log2 + 1) :=
    Nat.lt_of_lt_of_le Nat.lt_log2_self (Nat.pow_le_pow_right Nat.two_pos (by omega))
  have hn : n < 2 ^ (max m.log2 n.log2 + 1) :=
    Nat.lt_of_lt_of_le Nat.lt_log2_self (Nat.pow_le_pow_right Nat.two_pos (by omega))
  omega

theorem log2_succ_le (m : Nat) : (m + 1).log2 ≤ m.log2 + 1 :=
  (log2_add_le m 1).trans_eq (congrArg (· + 1) (Nat.max_eq_left (Nat.zero_le _)))

theorem log2_mul_bounds {m n : Nat} (hm : m ≠ 0) (hn : n ≠ 0) :
    m.log2 + n.log2 ≤ (m * n).log2 ∧ (m * n).log2 ≤ m.log2 + n.log2 + 1 := by
  have hmn : m * n ≠ 0 := Nat.mul_ne_zero hm hn
  constructor
  · rw [Nat.le_log2 hmn, Nat.pow_add]
    exact Nat.mul_le_mul (Nat.log2_self_le hm) (Nat.log2_self_le hn)
  · rw [← Nat.lt_succ_iff, Nat.log2_lt hmn]
    calc m * n < 2 ^ (m.log2 + 1) * 2 ^ (n.log2 + 1) :=
          Nat.mul_lt_mul'' Nat.lt_log2_self Nat.lt_log2_self
      _ = 2 ^ (m.log2 + n.log2 + 1 + 1) := by
          rw [← Nat.pow_add]
          congr 1
          omega

theorem log2_div_bounds (m : Nat) {n : Nat} (hn : n ≠ 0) :
    m.log2 - (n.log2 + 1) ≤ (m / n).log2 ∧ (m / n).log2 ≤ m.log2 - n.log2 := by
  rw [← log2_div_pow, ← log2_div_pow]
  have hpos : 0 < n := Nat.pos_of_ne_zero hn
  exact ⟨log2_mono (Nat.div_le_div_left (Nat.le_of_lt Nat.lt_log2_self) hpos),
    log2_mono (Nat.div_le_div_left (Nat.log2_self_le hn) (Nat.two_pow_pos _))⟩

/-! ## 2. Rounding -/

theorem mantissa_shiftRight (em : ExtendedMantissa) (n : Nat) :
    (em >>> n).mantissa = em.mantissa / 2 ^ n := by
  induction n with
  | zero => exact (Nat.div_one _).symm
  | succ n ih =>
    show (em >>> n).mantissa / 2 = _
    rw [ih, Nat.div_div_eq_div_mul, Nat.pow_succ]

theorem mantissa_ofMantissaAndAccuracy (m : Nat) (a : Accuracy) :
    (ExtendedMantissa.ofMantissaAndAccuracy m a).mantissa = m := by
  cases a with
  | exact => rfl
  | inexact o => cases o <;> rfl

theorem roundedMantissa_bounds (em : ExtendedMantissa) :
    em.mantissa ≤ em.roundedMantissa ∧ em.roundedMantissa ≤ em.mantissa + 1 := by
  obtain ⟨m, r, s⟩ := em
  cases r <;> cases s <;>
    simp only [ExtendedMantissa.roundedMantissa, ExtendedMantissa.accuracy,
      Accuracy.roundToNearestEven] <;> omega

/-- By how many places a mantissa is shifted before it is rounded. -/
def places (m : Nat) (e : Int) : Nat := (max (totalExponent m e - 53) (-1074) - e).toNat

theorem shiftToTargetExponent_eq (m : Nat) (e : Int) (a : Accuracy) :
    shiftToTargetExponent .binary64 m e a =
      (ExtendedMantissa.ofMantissaAndAccuracy m a >>> places m e, e + places m e) := rfl

/-- Rounding cuts the mantissa, adds one or nothing, and cuts it again. -/
theorem roundWithAccuracy_cases (s : Sign) (m : Nat) (e : Int) (a : Accuracy) :
    ∃ r n n', n = places m e ∧ m / 2 ^ n ≤ r ∧ r ≤ m / 2 ^ n + 1 ∧ n' = places r (e + n) ∧
      (roundWithAccuracy .binary64 s m e a = .zero s ∧ r / 2 ^ n' = 0 ∨
        ∃ h, roundWithAccuracy .binary64 s m e a = .finite s (r / 2 ^ n') (e + n + n') h) := by
  obtain ⟨hlow, hhigh⟩ := roundedMantissa_bounds
    (ExtendedMantissa.ofMantissaAndAccuracy m a >>> places m e)
  rw [mantissa_shiftRight, mantissa_ofMantissaAndAccuracy] at hlow hhigh
  refine ⟨_, _, _, rfl, hlow, hhigh, rfl, ?_⟩
  simp only [roundWithAccuracy, shiftToTargetExponent_eq, mantissa_shiftRight,
    mantissa_ofMantissaAndAccuracy]
  split
  · rename_i hzero
    exact .inl ⟨rfl, hzero⟩
  · rename_i hne
    exact .inr ⟨Nat.pos_of_ne_zero hne, rfl⟩

/-! ## 3. Bounds -/

/-- The number is finite, and its magnitude is below `2 ^ k`. -/
def Below (k : Nat) : UnpackedFloat → Prop
  | .zero _ => True
  | .finite _ m e _ => totalExponent m e ≤ k
  | _ => False

/-- The number is finite with a full mantissa, and `2` times its magnitude is at least
    `2 ^ (-k)`. -/
def Above (k : Nat) : UnpackedFloat → Prop
  | .finite _ m e _ => m.log2 = 52 ∧ -(k : Int) ≤ totalExponent m e
  | _ => False

theorem below_cases {k : Nat} {x : UnpackedFloat} (h : Below k x) :
    (∃ s, x = .zero s) ∨ ∃ s m e hm, x = .finite s m e hm ∧ totalExponent m e ≤ k := by
  cases x with
  | infinity s => cases h
  | notANumber => cases h
  | zero s => exact .inl ⟨s, rfl⟩
  | finite s m e hm => exact .inr ⟨s, m, e, hm, rfl, h⟩

theorem above_cases {k : Nat} {x : UnpackedFloat} (h : Above k x) :
    ∃ s m e hm, x = .finite s m e hm ∧ m.log2 = 52 ∧ -(k : Int) ≤ totalExponent m e := by
  cases x with
  | infinity s => cases h
  | notANumber => cases h
  | zero s => cases h
  | finite s m e hm => exact ⟨s, m, e, hm, rfl, h⟩

theorem below_mono {j k : Nat} (hjk : j ≤ k) {x : UnpackedFloat} (h : Below j x) : Below k x := by
  obtain ⟨s, rfl⟩ | ⟨s, m, e, hm, rfl, hbound⟩ := below_cases h
  · trivial
  · exact hbound.trans (by exact_mod_cast hjk)

theorem above_mono {j k : Nat} (hjk : j ≤ k) {x : UnpackedFloat} (h : Above j x) : Above k x := by
  obtain ⟨s, m, e, hm, rfl, hlog, hbound⟩ := above_cases h
  exact ⟨hlog, by omega⟩

theorem below_roundWithAccuracy {m : Nat} {e : Int} {k : Nat} (h : totalExponent m e ≤ k)
    (s : Sign) (a : Accuracy) : Below (k + 1) (roundWithAccuracy .binary64 s m e a) := by
  obtain ⟨r, n, n', hn, -, hr, -, hround⟩ := roundWithAccuracy_cases s m e a
  rcases hround with ⟨hzero, -⟩ | ⟨hpos, hfinite⟩
  · rw [hzero]
    trivial
  rw [hfinite]
  show totalExponent (r / 2 ^ n') (e + n + n') ≤ (k + 1 : Nat)
  unfold places totalExponent at *
  have hn' : n' ≤ r.log2 := by
    have hle : 2 ^ n' ≤ r := (Nat.one_le_div_iff (Nat.two_pow_pos n')).mp hpos
    rwa [Nat.le_log2 (Nat.ne_of_gt (Nat.lt_of_lt_of_le (Nat.two_pow_pos n') hle))]
  rw [log2_div_pow]
  by_cases hq : m / 2 ^ n = 0
  · -- nothing is left of the mantissa, so that it is shifted to the least exponent
    rw [hq] at hr
    have hlog : r.log2 ≤ 0 := log2_mono hr
    by_cases hm : m = 0
    · subst hm
      have hlog0 : Nat.log2 0 = 0 := by decide
      rw [hlog0] at h hn
      omega
    · have hlt : m.log2 < n := by
        rw [Nat.log2_lt hm]
        exact (Nat.div_eq_zero_iff_lt (Nat.two_pow_pos n)).mp hq
      omega
  · have hlog : r.log2 ≤ (m / 2 ^ n).log2 + 1 := Nat.le_trans (log2_mono hr) (log2_succ_le _)
    have hle : n ≤ m.log2 := by
      have hle : 2 ^ n ≤ m := (Nat.one_le_div_iff (Nat.two_pow_pos n)).mp (Nat.pos_of_ne_zero hq)
      rwa [Nat.le_log2 (Nat.ne_of_gt (Nat.lt_of_lt_of_le (Nat.two_pow_pos n) hle))]
    rw [log2_div_pow] at hlog
    omega

theorem above_roundWithAccuracy {m : Nat} {e : Int} {k : Nat} (hm : 52 ≤ m.log2)
    (h : -(k : Int) ≤ totalExponent m e) (hk : k ≤ 1021) (s : Sign) (a : Accuracy) :
    Above k (roundWithAccuracy .binary64 s m e a) := by
  obtain ⟨r, n, n', hn, hr, hr', hn', hround⟩ := roundWithAccuracy_cases s m e a
  unfold places totalExponent at *
  have hcut : (m / 2 ^ n).log2 = m.log2 - n := log2_div_pow m n
  have hlow : (m / 2 ^ n).log2 ≤ r.log2 := log2_mono hr
  have hhigh : r.log2 ≤ (m / 2 ^ n).log2 + 1 := Nat.le_trans (log2_mono hr') (log2_succ_le _)
  have hlog : (r / 2 ^ n').log2 = r.log2 - n' := log2_div_pow r n'
  rcases hround with ⟨-, hzero⟩ | ⟨hpos, hfinite⟩
  · rw [hzero] at hlog
    have hlog0 : Nat.log2 0 = 0 := by decide
    omega
  · rw [hfinite]
    refine ⟨by omega, ?_⟩
    show -(k : Int) ≤ totalExponent (r / 2 ^ n') (e + n + n')
    unfold totalExponent
    omega

theorem totalExponent_decreaseExponent {m : Nat} (hm : m ≠ 0) (e t : Int) :
    let d := decreaseExponent m e t
    d.1 ≠ 0 ∧ d.1.log2 = m.log2 + (e - t).toNat ∧ totalExponent d.1 d.2 = totalExponent m e := by
  have hlog := log2_shiftLeft hm (e - t).toNat
  refine ⟨?_, hlog, ?_⟩
  · show m <<< (e - t).toNat ≠ 0
    rw [Nat.shiftLeft_eq]
    exact Nat.mul_ne_zero hm (Nat.two_pow_pos _).ne'
  · show totalExponent (m <<< (e - t).toNat) (e - (e - t).toNat) = _
    unfold totalExponent
    omega

theorem below_round {m : Nat} (hm : m ≠ 0) {e : Int} {k : Nat} (h : totalExponent m e ≤ k)
    (s : Sign) : Below (k + 1) (UnpackedFloat.round .binary64 s m e) := by
  obtain ⟨-, -, hexp⟩ := totalExponent_decreaseExponent hm e
    (Format.binary64.targetExponent (totalExponent m e))
  exact below_roundWithAccuracy (hexp.trans_le h) s .exact

theorem above_round {m : Nat} (hm : m ≠ 0) {e : Int} {k : Nat} (h : -(k : Int) ≤ totalExponent m e)
    (hk : k ≤ 1021) (s : Sign) : Above k (UnpackedFloat.round .binary64 s m e) := by
  obtain ⟨-, hlog, hexp⟩ := totalExponent_decreaseExponent hm e
    (max (totalExponent m e - 53) (-1074))
  refine above_roundWithAccuracy ?_ (h.trans_eq hexp.symm) hk s .exact
  show 52 ≤ (decreaseExponent m e (max (totalExponent m e - 53) (-1074))).1.log2
  unfold totalExponent at *
  omega

theorem normalize_of_pos {m : Int} (hm : 0 < m) (e : Int) (s : Sign) :
    UnpackedFloat.normalize .binary64 m e s =
      UnpackedFloat.round .binary64 .positive m.toNat e := by
  unfold UnpackedFloat.normalize
  rw [compare_gt_iff_gt.mpr hm]

theorem below_normalize {m e : Int} {k : Nat} (h : totalExponent m.natAbs e ≤ k) (s : Sign) :
    Below (k + 1) (UnpackedFloat.normalize .binary64 m e s) := by
  unfold UnpackedFloat.normalize
  rcases lt_trichotomy m 0 with hlt | heq | hgt
  · rw [compare_lt_iff_lt.mpr hlt]
    have habs : (-m).toNat = m.natAbs := by omega
    exact below_round (by omega) (habs ▸ h) .negative
  · rw [compare_eq_iff_eq.mpr heq]
    trivial
  · rw [compare_gt_iff_gt.mpr hgt]
    have habs : m.toNat = m.natAbs := by omega
    exact below_round (by omega) (habs ▸ h) .positive

theorem above_normalize {n : Nat} (h0 : n ≠ 0) (s : Sign) :
    Above 0 (UnpackedFloat.normalize .binary64 n 0 s) := by
  have hpos : (0 : Int) < n := by omega
  rw [normalize_of_pos hpos]
  refine above_round h0 ?_ (Nat.zero_le _) .positive
  unfold totalExponent
  omega

/-! ## 4. Packing -/

theorem implicitBit (m : BitVec 52) : (1#1 ++ m).toNat = 2 ^ 52 + m.toNat := by
  rw [BitVec.toNat_append, ← Nat.shiftLeft_add_eq_or_of_lt m.isLt]
  simp [Nat.shiftLeft_eq]

/-- Bits whose exponent is not the greatest are those of a number. -/
theorem unpack_packComponents (s : Sign) {e : BitVec 11} (m : BitVec 52) (he : e.toNat < 2047) :
    let x := UnpackedFloat.unpack .binary64 (packComponents .binary64 s e m)
    ∃ s', (e.toNat = 0 ∧ x = .zero s') ∨ (∃ h, e.toNat = 0 ∧ x = .finite s' m.toNat (-1074) h) ∨
      ∃ h, 0 < e.toNat ∧ x = .finite s' (2 ^ 52 + m.toNat) (e.toNat - 1075) h := by
  have hne : e ≠ -1#11 := by
    intro h
    rw [h] at he
    exact absurd he (by decide)
  refine ⟨Sign.ofBitVec (unpackSign (packComponents .binary64 s e m)), ?_⟩
  simp only [UnpackedFloat.unpack, unpackMantissa_packComponents, unpackExponent_packComponents,
    if_neg hne]
  by_cases hzero : e = 0#11
  · rw [if_pos hzero]
    subst hzero
    by_cases hm : m = 0#52
    · rw [dif_pos hm]
      exact .inl ⟨rfl, rfl⟩
    · rw [dif_neg hm]
      exact .inr (.inl ⟨Nat.pos_of_ne_zero fun h => hm (BitVec.eq_of_toNat_eq h), rfl, rfl⟩)
  · rw [if_neg hzero]
    have hpos : 0 < e.toNat := Nat.pos_of_ne_zero fun h => hzero (BitVec.eq_of_toNat_eq h)
    refine .inr (.inr ⟨by omega, hpos, ?_⟩)
    simp only [implicitBit]
    rfl

theorem below_packComponents {k : Nat} (s : Sign) {e : BitVec 11} (m : BitVec 52)
    (he : e.toNat ≤ k + 1022) (hk : k ≤ 900) :
    Below k (UnpackedFloat.unpack .binary64 (packComponents .binary64 s e m)) := by
  have hlog : (2 ^ 52 + m.toNat).log2 < 53 := by
    rw [Nat.log2_lt (by omega)]
    omega
  obtain ⟨s', ⟨-, h⟩ | ⟨hpos, -, h⟩ | ⟨hpos, -, h⟩⟩ :=
    unpack_packComponents s m (by omega : e.toNat < 2047)
  · rw [h]
    trivial
  · have hlog' : m.toNat.log2 < 53 := Nat.lt_of_le_of_lt (log2_mono (by omega)) hlog
    rw [h]
    show totalExponent _ _ ≤ (k : Int)
    unfold totalExponent
    omega
  · rw [h]
    show totalExponent _ _ ≤ (k : Int)
    unfold totalExponent
    omega

/-- What is packed for a number with a mantissa and an exponent. -/
theorem pack_finite (s : Sign) {m : Nat} {e : Int} (hm : 0 < m) :
    UnpackedFloat.pack .binary64 (.finite s m e hm) =
      if 2 ^ 11 ≤ (e + 1075).toNat + 1 then packedInfinity .binary64 s
      else packComponents .binary64 s
        (if m.log2 + 1 = 53 then BitVec.ofNat 11 (e + 1075).toNat else 0#11)
        (BitVec.ofNat 52 m) := by
  have hbias : e + (1023 : Nat) + (52 : Nat) = e + 1075 := by omega
  show (if 2 ^ 11 ≤ (e + (1023 : Nat) + (52 : Nat)).toNat + 1 then _ else if m.log2 + 1 = 53 then
    packComponents .binary64 s (BitVec.ofNat 11 (e + (1023 : Nat) + (52 : Nat)).toNat) _ else _) = _
  rw [hbias]
  split
  · rfl
  · split <;> rfl

/-- A number that is packed and unpacked is still below its bound. -/
theorem below_pack {x : UnpackedFloat} {k : Nat} (h : Below k x) (hk : k ≤ 900) :
    Below k (UnpackedFloat.unpack .binary64 (UnpackedFloat.pack .binary64 x)) := by
  obtain ⟨s, rfl⟩ | ⟨s, m, e, hm, rfl, hbound⟩ := below_cases h
  · exact below_packComponents s 0#52 (Nat.zero_le _) hk
  · unfold totalExponent at hbound
    rw [pack_finite, if_neg (by omega)]
    refine below_packComponents s _ ?_ hk
    split
    · rw [BitVec.toNat_ofNat]
      omega
    · exact Nat.zero_le _

/-- A number with a full mantissa keeps its bounds when it is packed and unpacked. -/
theorem above_pack {x : UnpackedFloat} {j k : Nat} (hlow : Above j x) (hj : j ≤ 1021)
    (hhigh : Below k x) (hk : k ≤ 900) :
    Above j (UnpackedFloat.unpack .binary64 (UnpackedFloat.pack .binary64 x)) := by
  obtain ⟨s, m, e, hm, rfl, hlog, hbound⟩ := above_cases hlow
  have hbound' : totalExponent m e ≤ k := hhigh
  unfold totalExponent at hbound hbound'
  have he : (BitVec.ofNat 11 (e + 1075).toNat).toNat = (e + 1075).toNat := by
    rw [BitVec.toNat_ofNat]
    omega
  rw [pack_finite, if_neg (by omega), if_pos (by omega)]
  obtain ⟨s', ⟨hzero, -⟩ | ⟨-, hzero, -⟩ | ⟨hpos, -, h⟩⟩ :=
    unpack_packComponents s (e := BitVec.ofNat 11 (e + 1075).toNat) (BitVec.ofNat 52 m) (by omega)
  · omega
  · omega
  · have hlog' : (2 ^ 52 + (BitVec.ofNat 52 m).toNat).log2 = 52 := by
      rw [Nat.log2_eq_iff (by omega)]
      omega
    rw [h]
    refine ⟨hlog', ?_⟩
    show -(j : Int) ≤ totalExponent _ _
    unfold totalExponent
    omega

/-- Only what is no number is packed as no number. -/
theorem pack_ne_notANumber {x : UnpackedFloat} (h : x ≠ .notANumber) :
    UnpackedFloat.unpack .binary64 (UnpackedFloat.pack .binary64 x) ≠ .notANumber := by
  have hcomponents : ∀ s (e : BitVec 11) m, e.toNat < 2047 →
      UnpackedFloat.unpack .binary64 (packComponents .binary64 s e m) ≠ .notANumber := by
    intro s e m he hnan
    obtain ⟨s', ⟨-, h⟩ | ⟨hpos, -, h⟩ | ⟨hpos, -, h⟩⟩ := unpack_packComponents s m he
    all_goals
      rw [hnan] at h
      cases h
  have hinfinity : ∀ s, UnpackedFloat.unpack .binary64 (packedInfinity .binary64 s) ≠
      .notANumber := by
    intro s hnan
    simp [UnpackedFloat.unpack, packedInfinity] at hnan
  cases x with
  | infinity s => exact hinfinity s
  | notANumber => exact absurd rfl h
  | zero s => exact hcomponents s 0#11 0#52 (by decide)
  | finite s m e hm =>
    rw [pack_finite]
    split
    · exact hinfinity s
    · refine hcomponents s _ _ ?_
      split
      · rw [BitVec.toNat_ofNat]
        omega
      · decide

/-! ## 5. Operations -/

theorem below_neg {k : Nat} {x : UnpackedFloat} (h : Below k x) : Below k x.neg := by
  cases x <;> exact h

theorem sub_eq_add_neg (x y : UnpackedFloat) :
    UnpackedFloat.sub .binary64 x y = UnpackedFloat.add .binary64 x y.neg := by
  cases x with
  | finite s m e hm =>
    cases y with
    | finite s' m' e' hm' =>
      cases s' with
      | negative =>
        show UnpackedFloat.normalize .binary64 (_ - -_) _ _ =
          UnpackedFloat.normalize .binary64 (_ + _) _ _
        rw [Int.sub_neg]
        rfl
      | positive => rfl
    | _ => rfl
  | _ => cases y <;> rfl

theorem natAbs_apply (s : Sign) (m : Nat) : (s.apply m).natAbs = m := by
  cases s with
  | negative => exact Int.natAbs_neg m
  | positive => rfl

theorem below_add {x y : UnpackedFloat} {k : Nat} (hx : Below k x) (hy : Below k y) :
    Below (k + 2) (UnpackedFloat.add .binary64 x y) := by
  obtain ⟨s, rfl⟩ | ⟨s, m, e, hm, rfl, hbound⟩ := below_cases hx
  · obtain ⟨s', rfl⟩ | ⟨s', m', e', hm', rfl, -⟩ := below_cases hy
    · show Below (k + 2) (if s == s' then .zero s else .zero .positive)
      split <;> trivial
    · exact below_mono (Nat.le_add_right k 2) hy
  · obtain ⟨s', rfl⟩ | ⟨s', m', e', hm', rfl, hbound'⟩ := below_cases hy
    · exact below_mono (Nat.le_add_right k 2) hx
    · -- both mantissas are brought to the lesser exponent and added with their signs
      obtain ⟨-, hlog, -⟩ := totalExponent_decreaseExponent hm.ne' e (min e e')
      obtain ⟨-, hlog', -⟩ := totalExponent_decreaseExponent hm'.ne' e' (min e e')
      refine below_normalize (k := k + 1) (m := s.apply (decreaseExponent m e (min e e')).1 +
        s'.apply (decreaseExponent m' e' (min e e')).1) ?_ .positive
      have habs := Int.natAbs_add_le (s.apply (decreaseExponent m e (min e e')).1)
        (s'.apply (decreaseExponent m' e' (min e e')).1)
      rw [natAbs_apply, natAbs_apply] at habs
      have hsum := (log2_mono habs).trans (log2_add_le _ _)
      unfold totalExponent at *
      omega

theorem below_sub {x y : UnpackedFloat} {k : Nat} (hx : Below k x) (hy : Below k y) :
    Below (k + 2) (UnpackedFloat.sub .binary64 x y) := by
  rw [sub_eq_add_neg]
  exact below_add hx (below_neg hy)

theorem below_mul {x y : UnpackedFloat} {j k : Nat} (hx : Below j x) (hy : Below k y) :
    Below (j + k + 1) (UnpackedFloat.mul .binary64 x y) := by
  obtain ⟨s, rfl⟩ | ⟨s, m, e, hm, rfl, hbound⟩ := below_cases hx
  · obtain ⟨s', rfl⟩ | ⟨s', m', e', hm', rfl, -⟩ := below_cases hy <;> trivial
  · obtain ⟨s', rfl⟩ | ⟨s', m', e', hm', rfl, hbound'⟩ := below_cases hy
    · trivial
    · have hlog := (log2_mul_bounds hm.ne' hm'.ne').2
      refine below_roundWithAccuracy ?_ _ _
      unfold totalExponent at *
      omega

theorem above_mul {x y : UnpackedFloat} {j k : Nat} (hx : Above j x) (hy : Above k y)
    (hjk : j + k + 1 ≤ 1021) : Above (j + k + 1) (UnpackedFloat.mul .binary64 x y) := by
  obtain ⟨s, m, e, hm, rfl, hfull, hbound⟩ := above_cases hx
  obtain ⟨s', m', e', hm', rfl, hfull', hbound'⟩ := above_cases hy
  have hlog := (log2_mul_bounds hm.ne' hm'.ne').1
  refine above_roundWithAccuracy (by omega) ?_ hjk _ _
  unfold totalExponent at *
  omega

/-- A quotient of mantissas, before it is rounded: by how much the first is shifted, and how many
    places there are. -/
theorem divCore_bounds {m m' : Nat} (hm : m ≠ 0) (hm' : m' ≠ 0) (e e' : Int) :
    let d := divCore .binary64 m e m' e'
    let n := (e - e' - d.2.1).toNat
    d.2.1 = min (e - e') (max (totalExponent m e - totalExponent m' e' - 53) (-1074)) ∧
      m.log2 + n - (m'.log2 + 1) ≤ d.1.log2 ∧ d.1.log2 ≤ m.log2 + n - m'.log2 := by
  intro d n
  obtain ⟨hlow, hhigh⟩ := log2_div_bounds (m <<< n) hm'
  rw [log2_shiftLeft hm] at hlow hhigh
  exact ⟨rfl, hlow, hhigh⟩

theorem below_div {x y : UnpackedFloat} {j k : Nat} (hx : Below j x) (hy : Above k y) :
    Below (j + k + 2) (UnpackedFloat.div .binary64 x y) := by
  obtain ⟨s', m', e', hm', rfl, -, hbound'⟩ := above_cases hy
  obtain ⟨s, rfl⟩ | ⟨s, m, e, hm, rfl, hbound⟩ := below_cases hx
  · trivial
  · -- the places by which the dividend is shifted are taken off the exponent again
    obtain ⟨hexp, -, hlog⟩ := divCore_bounds hm.ne' hm'.ne' e e'
    refine below_roundWithAccuracy (k := j + k + 1) ?_ _ _
    show totalExponent (divCore .binary64 m e m' e').1 (divCore .binary64 m e m' e').2.1 ≤ _
    unfold totalExponent at *
    omega

theorem above_div {x y : UnpackedFloat} {j k : Nat} (hx : Above j x) (hy : Above j y)
    (hy' : Below k y) (hjk : j + k ≤ 1021) :
    Above (j + k) (UnpackedFloat.div .binary64 x y) := by
  obtain ⟨s, m, e, hm, rfl, hfull, hbound⟩ := above_cases hx
  obtain ⟨s', m', e', hm', rfl, hfull', -⟩ := above_cases hy
  have hbound' : totalExponent m' e' ≤ k := hy'
  obtain ⟨hexp, hlog, -⟩ := divCore_bounds hm.ne' hm'.ne' e e'
  unfold totalExponent at *
  refine above_roundWithAccuracy (k := j + k) ?_ ?_ hjk _ _
  · show 52 ≤ (divCore .binary64 m e m' e').1.log2
    omega
  · show _ ≤ totalExponent (divCore .binary64 m e m' e').1 (divCore .binary64 m e m' e').2.1
    unfold totalExponent
    omega

/-! ## 6. No number -/

theorem add_notANumber {x y : UnpackedFloat} (h : x = .notANumber ∨ y = .notANumber) :
    UnpackedFloat.add .binary64 x y = .notANumber := by
  rcases h with rfl | rfl
  · cases y <;> rfl
  · cases x <;> rfl

theorem sub_notANumber {x y : UnpackedFloat} (h : x = .notANumber ∨ y = .notANumber) :
    UnpackedFloat.sub .binary64 x y = .notANumber := by
  rw [sub_eq_add_neg]
  exact add_notANumber (h.imp_right (congrArg UnpackedFloat.neg))

theorem mul_notANumber {x y : UnpackedFloat} (h : x = .notANumber ∨ y = .notANumber) :
    UnpackedFloat.mul .binary64 x y = .notANumber := by
  rcases h with rfl | rfl
  · cases y <;> rfl
  · cases x <;> rfl

theorem div_notANumber {x y : UnpackedFloat} (h : x = .notANumber ∨ y = .notANumber) :
    UnpackedFloat.div .binary64 x y = .notANumber := by
  rcases h with rfl | rfl
  · cases y <;> rfl
  · cases x <;> rfl

/-- A quotient of numbers is a number unless the divisor is zero. -/
theorem div_ne_notANumber {x y : UnpackedFloat} {j k : Nat} (hx : Below j x) (hy : Below k y)
    (hne : ∀ s, y ≠ .zero s) : UnpackedFloat.div .binary64 x y ≠ .notANumber := by
  obtain ⟨s', rfl⟩ | ⟨s', m', e', hm', rfl, -⟩ := below_cases hy
  · exact absurd rfl (hne s')
  obtain ⟨s, rfl⟩ | ⟨s, m, e, hm, rfl, -⟩ := below_cases hx
  · exact fun h => nomatch h
  · obtain ⟨r, n, n', -, -, -, -, ⟨h, -⟩ | ⟨hpos, h⟩⟩ := roundWithAccuracy_cases (s / s')
      (divCore .binary64 m e m' e').1 (divCore .binary64 m e m' e').2.1
      (divCore .binary64 m e m' e').2.2
    · exact fun hnan => nomatch h.symm.trans hnan
    · exact fun hnan => nomatch h.symm.trans hnan

end QrRender.Double
