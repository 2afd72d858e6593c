import QrRender.Proofs.Decimal.Plain
import QrRender.Proofs.Numeric.Double
import QrRender.Proofs.Numeric.Exact

/-!
# Whole numbers are exact

The corners of squares are whole numbers, and a drawing adds them and writes them down. As long as
they have a place in a mantissa, doubles do this without rounding: a whole number is unpacked to
itself with a full mantissa, sums stay whole, and the text of a whole number is its digits. Exact
numbers do the same without a bound. Both are said at once by a class of laws.

* `Double.roundWithAccuracy_exact`, `Double.round_scaled`: rounding changes no mantissa that fits;
* `Double.add_ofWhole`, `Double.mul_ofWhole`: unpacked sums and products of whole numbers;
* `Double.unpack_natCast`, `Double.natCast_add`: whole numbers as doubles, and their sums;
* `Double.ofFloat_eq`: the exact value of a double is that of the number it is unpacked to;
* `Exact.trimmed_whole`: the text of a whole value;
* **`WholeNumbers`**: whole numbers are added and written as they are, in doubles and in exact
  numbers.
-/

namespace QrRender

/-! ## 1. Text -/

/-- A fraction that is a whole number is not rounded. -/
theorem Exact.roundEven_mul {d : Nat} (hd : 0 < d) (n : Nat) : roundEven (n * d) d = n := by
  have hrest : ¬(2 * (n * d % d) > d ∨ 2 * (n * d % d) = d ∧ n * d / d % 2 = 1) := by
    rw [Nat.mul_mod_left]
    omega
  rw [roundEven, if_neg hrest, Nat.mul_div_cancel n hd]

/-- The text of a whole value is its digits: there is no fraction, and a zero has no sign. -/
theorem Exact.trimmed_whole {negative : Bool} {n d : Nat} (hd : 0 < d)
    (hsign : negative = true → n = 0) (places : Nat) :
    (Exact.finite negative (n * d) d).trimmed places = String.ofList (Decimal.digits n) := by
  have hunits : units places (n * d) d = n * Nat.pow 10 places := by
    rw [units, Nat.mul_right_comm, roundEven_mul hd]
  have hnone : ¬(negative && n != 0) = true := by
    intro h
    obtain ⟨hneg, hne⟩ := Bool.and_eq_true_iff.mp h
    exact bne_iff_ne.mp hne (hsign hneg)
  rw [trimmed, hunits, Decimal.trimmedChars_mul, if_neg hnone, List.nil_append]

namespace Double

open Float.Model (Format totalExponent UnpackedFloat)
open Float.Model.UnpackedFloat

/-! ## 2. Rounding -/

theorem apply_positive (n : Int) : Sign.positive.apply n = n := rfl

theorem apply_negative (n : Int) : Sign.negative.apply n = -n := rfl

/-- Places of a mantissa that hold nothing are cut off without a trace. -/
theorem shiftRight_exact (m n : Nat) :
    (⟨m * 2 ^ n, false, false⟩ : ExtendedMantissa) >>> n = ⟨m, false, false⟩ := by
  induction n generalizing m with
  | zero =>
    rw [Nat.pow_zero, Nat.mul_one]
    rfl
  | succ n ih =>
    have hm : m * 2 ^ (n + 1) = (m * 2) * 2 ^ n := by rw [Nat.pow_succ]; ring
    rw [hm]
    show ((⟨m * 2 * 2 ^ n, false, false⟩ : ExtendedMantissa) >>> n).shiftRightOne = _
    rw [ih]
    simp [ExtendedMantissa.shiftRightOne]

/-- A mantissa that fits after empty places are cut off is not rounded. -/
theorem roundWithAccuracy_exact (s : Sign) {m n : Nat} {e : Int} (hm : m.log2 = 52)
    (he : -1074 ≤ e) (hpos : 0 < m) :
    roundWithAccuracy .binary64 s (m * 2 ^ n) (e - n) .exact = .finite s m e hpos := by
  have hlog : (m * 2 ^ n).log2 = 52 + n := by
    rw [← Nat.shiftLeft_eq, log2_shiftLeft hpos.ne', hm]
  have hplaces : places (m * 2 ^ n) (e - n) = n := by
    unfold places totalExponent
    omega
  have hplaces' : places m e = 0 := by
    unfold places totalExponent
    omega
  have he' : e - n + (n : Int) = e := by omega
  simp only [roundWithAccuracy, shiftToTargetExponent_eq, hplaces,
    ExtendedMantissa.ofMantissaAndAccuracy, shiftRight_exact, ExtendedMantissa.roundedMantissa,
    ExtendedMantissa.accuracy, Accuracy.roundToNearestEven, he', hplaces']
  have hzero : ((⟨m, false, false⟩ : ExtendedMantissa) >>> 0).mantissa = m := rfl
  simp only [hzero]
  rw [dif_neg hpos.ne']
  simp

/-! ## 3. Unpacked whole numbers -/

/-- The unpacked double of a whole number: its mantissa is full. -/
def ofWhole (n : Nat) : UnpackedFloat :=
  if h : n = 0 then .zero .positive
  else .finite .positive (n * 2 ^ (52 - n.log2)) (-(52 - n.log2 : Nat))
    (Nat.mul_pos (Nat.pos_of_ne_zero h) (Nat.two_pow_pos _))

theorem ofWhole_zero : ofWhole 0 = .zero .positive := rfl

theorem ofWhole_pos {n : Nat} (h : 0 < n) : ofWhole n =
    .finite .positive (n * 2 ^ (52 - n.log2)) (-(52 - n.log2 : Nat))
      (Nat.mul_pos h (Nat.two_pow_pos _)) :=
  dif_neg h.ne'

theorem log2_lt_places {n : Nat} (hn : n < 2 ^ 53) : n.log2 < 53 := by
  by_cases h : n = 0
  · rw [h]
    decide
  · rwa [Nat.log2_lt h]

theorem log2_full {n : Nat} (h : 0 < n) (hn : n < 2 ^ 53) :
    (n * 2 ^ (52 - n.log2)).log2 = 52 := by
  have hlog := log2_lt_places hn
  rw [← Nat.shiftLeft_eq, log2_shiftLeft h.ne']
  omega

theorem mul_pow_mul_pow {n i j k : Nat} (h : i + j = k) : n * 2 ^ i * 2 ^ j = n * 2 ^ k := by
  rw [Nat.mul_assoc, ← Nat.pow_add, h]

/-- Rounding finds a whole number of binary places again, however many places its mantissa has. -/
theorem round_scaled {n k i : Nat} (h : 0 < n) (hn : n < 2 ^ 53) (hk : k + i ≤ 1022) :
    UnpackedFloat.round .binary64 .positive (n * 2 ^ k) (-(k + i : Nat)) =
      .finite .positive (n * 2 ^ (52 - n.log2)) (-(52 - n.log2 + i : Nat))
        (Nat.mul_pos h (Nat.two_pow_pos _)) := by
  have hlog := log2_lt_places hn
  have hlogk : (n * 2 ^ k).log2 = n.log2 + k := by
    rw [← Nat.shiftLeft_eq, log2_shiftLeft h.ne']
  have htarget : Format.binary64.targetExponent (totalExponent (n * 2 ^ k) (-(k + i : Nat))) =
      -((52 - n.log2 + i : Nat) : Int) := by
    show max (totalExponent (n * 2 ^ k) (-(k + i : Nat)) - 53) (-1074) = _
    unfold totalExponent
    rw [hlogk]
    omega
  unfold UnpackedFloat.round
  simp only [htarget, decreaseExponent]
  -- the mantissa is too short or too long for its places
  by_cases hle : k ≤ 52 - n.log2
  · have hshift : (-((k + i : Nat) : Int) - -((52 - n.log2 + i : Nat) : Int)).toNat =
        52 - n.log2 - k := by omega
    have hm : n * 2 ^ k * 2 ^ (52 - n.log2 - k) = n * 2 ^ (52 - n.log2) * 2 ^ 0 := by
      rw [Nat.pow_zero, Nat.mul_one]
      exact mul_pow_mul_pow (by omega)
    have he : -((k + i : Nat) : Int) - ((52 - n.log2 - k : Nat) : Int) =
        -((52 - n.log2 + i : Nat) : Int) - (0 : Nat) := by omega
    rw [hshift, Nat.shiftLeft_eq, hm, he]
    exact roundWithAccuracy_exact .positive (log2_full h hn) (by omega) _
  · have hshift : (-((k + i : Nat) : Int) - -((52 - n.log2 + i : Nat) : Int)).toNat = 0 := by omega
    have hm : n * 2 ^ k = n * 2 ^ (52 - n.log2) * 2 ^ (k - (52 - n.log2)) :=
      (mul_pow_mul_pow (by omega)).symm
    have he : -((k + i : Nat) : Int) - ((0 : Nat) : Int) =
        -((52 - n.log2 + i : Nat) : Int) - (k - (52 - n.log2) : Nat) := by omega
    rw [hshift, Nat.shiftLeft_zero, hm, he]
    exact roundWithAccuracy_exact .positive (log2_full h hn) (by omega) _

/-- Rounding finds a whole number again. -/
theorem round_whole {n k : Nat} (h : 0 < n) (hn : n < 2 ^ 53) (hk : k ≤ 1022) :
    UnpackedFloat.round .binary64 .positive (n * 2 ^ k) (-k) = ofWhole n := by
  rw [ofWhole_pos h]
  exact round_scaled (i := 0) h hn hk

/-- A whole number with any number of empty places in its mantissa is normalised to itself. -/
theorem normalize_whole {n k : Nat} (hn : n < 2 ^ 53) (hk : k ≤ 1022) :
    UnpackedFloat.normalize .binary64 ((n * 2 ^ k : Nat) : Int) (-k) .positive = ofWhole n := by
  by_cases h : n = 0
  · subst h
    rw [Nat.zero_mul]
    rfl
  · have hpos : 0 < n * 2 ^ k := Nat.mul_pos (Nat.pos_of_ne_zero h) (Nat.two_pow_pos k)
    have hcast : (0 : Int) < ((n * 2 ^ k : Nat) : Int) := by exact_mod_cast hpos
    rw [normalize_of_pos hcast]
    exact round_whole (Nat.pos_of_ne_zero h) hn hk

/-- **Whole numbers are added without rounding.** -/
theorem add_ofWhole {a b : Nat} (h : a + b < 2 ^ 53) :
    UnpackedFloat.add .binary64 (ofWhole a) (ofWhole b) = ofWhole (a + b) := by
  by_cases ha : a = 0
  · subst ha
    rw [ofWhole_zero, Nat.zero_add]
    by_cases hb : b = 0
    · subst hb
      rfl
    · rw [ofWhole_pos (Nat.pos_of_ne_zero hb)]
      rfl
  by_cases hb : b = 0
  · subst hb
    rw [ofWhole_zero, Nat.add_zero, ofWhole_pos (Nat.pos_of_ne_zero ha)]
    rfl
  have hloga := log2_lt_places (by omega : a < 2 ^ 53)
  have hlogb := log2_lt_places (by omega : b < 2 ^ 53)
  -- the summand with the lesser exponent says how many places the sum has
  obtain ⟨k, hk, hka, hkb, hmin⟩ : ∃ k, k ≤ 52 ∧ 52 - a.log2 ≤ k ∧ 52 - b.log2 ≤ k ∧
      min (-((52 - a.log2 : Nat) : Int)) (-((52 - b.log2 : Nat) : Int)) = -(k : Int) :=
    ⟨max (52 - a.log2) (52 - b.log2), by omega, by omega, by omega, by omega⟩
  have hdecrease : ∀ n : Nat, 52 - n.log2 ≤ k →
      (decreaseExponent (n * 2 ^ (52 - n.log2)) (-((52 - n.log2 : Nat) : Int)) (-(k : Int))).1 =
        n * 2 ^ k := by
    intro n hle
    have hshift : (-((52 - n.log2 : Nat) : Int) - -(k : Int)).toNat = k - (52 - n.log2) := by
      omega
    simp only [decreaseExponent]
    rw [hshift, Nat.shiftLeft_eq]
    exact mul_pow_mul_pow (by omega)
  rw [ofWhole_pos (Nat.pos_of_ne_zero ha), ofWhole_pos (Nat.pos_of_ne_zero hb),
    ← normalize_whole h (by omega : k ≤ 1022)]
  simp only [UnpackedFloat.add, hmin, hdecrease a hka, hdecrease b hkb]
  congr 1
  show ((a * 2 ^ k : Nat) : Int) + ((b * 2 ^ k : Nat) : Int) = _
  rw [Nat.add_mul]
  push_cast
  rfl

theorem mul_mul_mul_pow (a b i j : Nat) : a * 2 ^ i * (b * 2 ^ j) = a * b * 2 ^ (i + j) := by
  rw [Nat.pow_add]
  ring

/-- **Whole numbers are multiplied without rounding.** -/
theorem mul_ofWhole {a b : Nat} (ha : a < 2 ^ 53) (hb : b < 2 ^ 53) (h : a * b < 2 ^ 53) :
    UnpackedFloat.mul .binary64 (ofWhole a) (ofWhole b) = ofWhole (a * b) := by
  rcases Nat.eq_zero_or_pos a with rfl | ha'
  · rw [Nat.zero_mul, ofWhole_zero]
    rcases Nat.eq_zero_or_pos b with rfl | hb'
    · rfl
    · rw [ofWhole_pos hb']
      rfl
  rcases Nat.eq_zero_or_pos b with rfl | hb'
  · rw [Nat.mul_zero, ofWhole_zero, ofWhole_pos ha']
    rfl
  have hab : 0 < a * b := Nat.mul_pos ha' hb'
  have hloga := log2_lt_places ha
  have hlogb := log2_lt_places hb
  have hlog := log2_lt_places h
  have hbound := (log2_mul_bounds ha'.ne' hb'.ne').1
  -- the product of the mantissas has the full mantissa of the product before empty places
  have hm : a * 2 ^ (52 - a.log2) * (b * 2 ^ (52 - b.log2)) =
      a * b * 2 ^ (52 - (a * b).log2) * 2 ^ (52 + (a * b).log2 - a.log2 - b.log2) := by
    rw [mul_mul_mul_pow]
    exact (mul_pow_mul_pow (by omega)).symm
  have he : -((52 - a.log2 : Nat) : Int) + -((52 - b.log2 : Nat) : Int) =
      -((52 - (a * b).log2 : Nat) : Int) - (52 + (a * b).log2 - a.log2 - b.log2 : Nat) := by omega
  rw [ofWhole_pos ha', ofWhole_pos hb', ofWhole_pos hab]
  simp only [UnpackedFloat.mul, hm, he]
  exact roundWithAccuracy_exact .positive (log2_full hab h) (by omega) _

theorem finite_congr {s : Sign} {m m' : Nat} {e e' : Int} {hm : 0 < m} {hm' : 0 < m'} (h : m = m')
    (h' : e = e') : UnpackedFloat.finite s m e hm = .finite s m' e' hm' := by
  subst h h'
  rfl

/-- A number with a full mantissa is packed and unpacked without loss. -/
theorem unpack_pack_full {s : Sign} {m : Nat} {e : Int} {hm : 0 < m} (hfull : m.log2 = 52)
    (he : -1074 ≤ e) (he' : e ≤ 971) : UnpackedFloat.unpack .binary64
      (UnpackedFloat.pack .binary64 (.finite s m e hm)) = .finite s m e hm := by
  obtain ⟨hlow, hhigh⟩ := (Nat.log2_eq_iff hm.ne').mp hfull
  have hexp : (BitVec.ofNat 11 (e + 1075).toNat).toNat = (e + 1075).toNat := by
    rw [BitVec.toNat_ofNat]
    omega
  -- the exponent is that of a number, neither too small nor too large for one
  have hvalue : ∀ v : BitVec 11, v.toNat ≠ (e + 1075).toNat →
      BitVec.ofNat 11 (e + 1075).toNat ≠ v :=
    fun v hne heq => hne ((congrArg BitVec.toNat heq).symm.trans hexp)
  have hmax := hvalue (-1#11) fun h => absurd ((by decide : (-1#11).toNat = 2047).symm.trans h)
    (by omega)
  have hmin := hvalue 0#11 fun h => absurd ((by decide : (0#11).toNat = 0).symm.trans h) (by omega)
  have hman : 2 ^ 52 + (BitVec.ofNat 52 m).toNat = m := by
    rw [BitVec.toNat_ofNat]
    omega
  have hbias : ((e + 1075).toNat : Int) - ((1023 : Nat) + (52 : Nat)) = e := by omega
  rw [pack_finite, if_neg (by omega), if_pos (by omega)]
  simp only [UnpackedFloat.unpack, unpackMantissa_packComponents, unpackExponent_packComponents,
    unpackSign_packComponents, if_neg hmax, if_neg hmin, Sign.ofBitVec_toBitVec]
  refine finite_congr ((implicitBit _).trans hman) ?_
  rw [hexp]
  exact hbias

/-- A whole number is packed and unpacked without loss. -/
theorem unpack_pack_ofWhole {n : Nat} (hn : n < 2 ^ 53) :
    UnpackedFloat.unpack .binary64 (UnpackedFloat.pack .binary64 (ofWhole n)) = ofWhole n := by
  by_cases h : n = 0
  · subst h
    rfl
  have hpos := Nat.pos_of_ne_zero h
  rw [ofWhole_pos hpos]
  exact unpack_pack_full (log2_full hpos hn) (by omega) (by omega)

/-! ## 4. Exact values -/

section

variable (b : BitVec 64)

theorem toNat_unpackMantissa :
    (@unpackMantissa .binary64 b).toNat = b.toNat % Nat.pow 2 52 := by
  simp [unpackMantissa, BitVec.extractLsb, BitVec.extractLsb']

theorem toNat_unpackExponent :
    (@unpackExponent .binary64 b).toNat = b.toNat / Nat.pow 2 52 % 2048 := by
  simp [unpackExponent, BitVec.extractLsb, BitVec.extractLsb', Nat.shiftRight_eq_div_pow]

theorem toNat_unpackSign :
    (@unpackSign .binary64 b).toNat = b.toNat / Nat.pow 2 63 := by
  have h := b.isLt
  simp [unpackSign, BitVec.extractLsb, BitVec.extractLsb', Nat.shiftRight_eq_div_pow]
  omega

end

/-- The value of an unpacked double. -/
def exactOf : UnpackedFloat → Exact
  | .notANumber => .nan
  | .infinity s => .infinite (s == .negative)
  | .zero s => .finite (s == .negative) 0 (Nat.pow 2 1074)
  | .finite s m e _ =>
    if 0 ≤ e then .finite (s == .negative) (m * Nat.pow 2 e.toNat) 1
    else .finite (s == .negative) m (Nat.pow 2 (-e).toNat)

theorem toNat_sign (v : BitVec 1) : (v.toNat == 1) = (Sign.ofBitVec v == .negative) := by
  revert v
  decide

/-- **The exact value of a double is that of the number it is unpacked to.** -/
theorem ofFloat_eq (x : Float) : Exact.ofFloat x = exactOf x.toModel.unpack := by
  let b : BitVec 64 := x.toModel.toBits.toBitVec
  have hbits : x.toBits.toNat = b.toNat := rfl
  have hmax : @unpackExponent .binary64 b = -1#11 ↔
      (@unpackExponent .binary64 b).toNat = 2047 := BitVec.toNat_inj.symm
  have hmin : @unpackExponent .binary64 b = 0#11 ↔
      (@unpackExponent .binary64 b).toNat = 0 := BitVec.toNat_inj.symm
  have hm : @unpackMantissa .binary64 b = 0#52 ↔
      (@unpackMantissa .binary64 b).toNat = 0 := BitVec.toNat_inj.symm
  have hbias : ((Format.binary64.exponentBias : Nat) : Int) + (52 : Nat) = 1075 := by decide
  show _ = exactOf (UnpackedFloat.unpack .binary64 b)
  simp only [Exact.ofFloat, hbits, ← toNat_unpackSign, toNat_sign, ← toNat_unpackMantissa,
    ← toNat_unpackExponent, UnpackedFloat.unpack, ← hmax, ← hmin, ← hm, hbias]
  split
  · split <;> rfl
  split
  · rename_i hzero
    split
    · rename_i hnone
      rw [hnone]
      rfl
    · obtain ⟨k, hk, hneg, hden⟩ : ∃ k : Nat, 1074 = k ∧ ¬0 ≤ ((0#11).toNat : Int) - 1075 + 1 ∧
          (-(((0#11).toNat : Int) - 1075 + 1)).toNat = k := ⟨_, rfl, by decide, by decide⟩
      rw [hk, exactOf, hzero, if_neg hneg, hden]
  · have himplicit : (1#1 ++ @unpackMantissa .binary64 b).toNat =
        Nat.pow 2 52 + (@unpackMantissa .binary64 b).toNat := implicitBit _
    rw [exactOf, himplicit, Nat.add_comm]
    by_cases he : 1075 ≤ (@unpackExponent .binary64 b).toNat
    · have hexp : (((@unpackExponent .binary64 b).toNat : Int) - 1075).toNat =
          (@unpackExponent .binary64 b).toNat - 1075 := by omega
      rw [if_pos he, if_pos (by omega), hexp]
    · have hexp : (-(((@unpackExponent .binary64 b).toNat : Int) - 1075)).toNat =
          1075 - (@unpackExponent .binary64 b).toNat := by omega
      rw [if_neg he, if_neg (by omega), hexp]

/-! ## 5. Whole numbers as doubles -/

/-- Doubles that are unpacked alike are the same. -/
theorem eq_of_unpack_eq {x y : Float} (h : x.toModel.unpack = y.toModel.unpack) : x = y := by
  obtain ⟨⟨bits, hvalid⟩⟩ := x
  obtain ⟨⟨bits', hvalid'⟩⟩ := y
  obtain rfl : bits = bits' := UInt64.toBitVec_inj.mp ((unpack_inj_of_valid hvalid hvalid').mp h)
  rfl

/-- A whole number is a double with a full mantissa. -/
theorem unpack_natCast {n : Nat} (hn : n < 2 ^ 53) : (n : Float).toModel.unpack = ofWhole n := by
  have hword : n.toUInt64.toFloat.toModel.unpack = ofWhole n := by
    have hnormalize := normalize_whole (k := 0) hn (by decide)
    rw [Nat.pow_zero, Nat.mul_one] at hnormalize
    rw [unpack_toFloat (by omega)]
    exact (congrArg _ (congrArg _ hnormalize)).trans (unpack_pack_ofWhole hn)
  rw [natCast_eq hn]
  show UnpackedFloat.unpack .binary64 (UnpackedFloat.pack .binary64 (UnpackedFloat.mul .binary64
    n.toUInt64.toFloat.toModel.unpack (Float.exactlyRepresentablePowersOfTen[0]).toModel.unpack)) = _
  rw [hword]
  have hmul : UnpackedFloat.mul .binary64 (ofWhole n) (ofWhole 1) = ofWhole n := by
    rw [mul_ofWhole hn (by decide) (by omega), Nat.mul_one]
  exact (congrArg _ (congrArg _ hmul)).trans (unpack_pack_ofWhole hn)

theorem natCast_add {a b : Nat} (h : a + b < 2 ^ 53) :
    (a : Float) + (b : Float) = ((a + b : Nat) : Float) := by
  apply eq_of_unpack_eq
  show UnpackedFloat.unpack .binary64 (UnpackedFloat.pack .binary64 (UnpackedFloat.add .binary64
    (a : Float).toModel.unpack (b : Float).toModel.unpack)) = _
  rw [unpack_natCast (by omega), unpack_natCast (by omega), unpack_natCast h, add_ofWhole h,
    unpack_pack_ofWhole h]

/-- The exact value of a whole number is the number, over some denominator. -/
theorem exact_natCast {n : Nat} (hn : n < 2 ^ 53) :
    ∃ d, 0 < d ∧ Exact.ofFloat (n : Float) = .finite false (n * d) d := by
  have hpos : ∀ k, 0 < Nat.pow 2 k := Nat.two_pow_pos
  rw [ofFloat_eq, unpack_natCast hn]
  by_cases h : n = 0
  · subst h
    have hden := hpos 1074
    rw [ofWhole_zero, exactOf]
    generalize Nat.pow 2 1074 = d at hden ⊢
    refine ⟨d, hden, ?_⟩
    rw [Nat.zero_mul]
    rfl
  rw [ofWhole_pos (Nat.pos_of_ne_zero h), exactOf]
  split
  · rename_i he
    have hplaces : 52 - n.log2 = 0 := by omega
    refine ⟨1, Nat.one_pos, ?_⟩
    rw [hplaces]
    simp
  · have he : (- -((52 - n.log2 : Nat) : Int)).toNat = 52 - n.log2 := by omega
    rw [he]
    exact ⟨_, hpos _, rfl⟩

end Double

/-! ## 6. The laws -/

/-- Numbers among which whole numbers with a place in a mantissa are added without rounding and
    written as their digits. -/
class WholeNumbers (α : Type) [Add α] [NatCast α] [Numeric α] : Prop where
  natCast_add {a b : Nat} (h : a + b < 2 ^ 53) : (a : α) + (b : α) = ((a + b : Nat) : α)
  text_natCast {n : Nat} (h : n < 2 ^ 53) :
    Numeric.text (n : α) = String.ofList (Decimal.digits n)

instance wholeNumbersFloat : WholeNumbers Float where
  natCast_add := Double.natCast_add
  text_natCast {n} h := by
    obtain ⟨d, hd, hexact⟩ := Double.exact_natCast h
    show (Exact.ofFloat (n : Float)).trimmed 2 = _
    rw [hexact]
    exact Exact.trimmed_whole hd Bool.noConfusion 2

instance wholeNumbersExact {α : Type} [Field α] [LinearOrder α] [IsStrictOrderedRing α] [Numeric α]
    [ExactNumbers α] : WholeNumbers α where
  natCast_add {a b} _ := (Nat.cast_add a b).symm
  text_natCast {n} _ := by
    obtain ⟨negative, d, hd, hexact, hsign⟩ := ExactNumbers.exact_natCast (α := α) n
    rw [Numeric.text, hexact]
    exact Exact.trimmed_whole hd hsign 2

end QrRender
