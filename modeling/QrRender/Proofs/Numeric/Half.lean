import QrRender.Proofs.Numeric.Single

/-!
# Halves of whole numbers

A rounded corner takes away half a cell, and a corner that is not rounded takes away nothing. In
doubles both are as they should be: half of a whole number that is not zero is above zero, and zero
taken from a whole number leaves it. Together with the laws of whole numbers this is what outlines
between whole numbers and their halves rely on. The midpoints between whole numbers are exact as
well, and so the byte nearest a whole number is that number.

* `Double.natCast_half_pos`, `Double.natCast_sub_zero`: halves, and zero taken away;
* `Double.natCast_sub_half_le_iff`: comparing whole numbers by the midpoints below them;
* **`HalvedNumbers`**: the laws of whole numbers and their halves, for doubles and for exact
  numbers.
-/

namespace QrRender

namespace Double

open Float.Model (totalExponent UnpackedFloat)
open Float.Model.UnpackedFloat

/-! ## 1. Positive quotients -/

/-- The quotient of two positive numbers is a zero or positive. -/
theorem div_positive {m m' : Nat} {e e' : Int} {hm : 0 < m} {hm' : 0 < m'} :
    let x := UnpackedFloat.div .binary64 (.finite .positive m e hm) (.finite .positive m' e' hm')
    x = .zero .positive ∨ ∃ m'' e'' hm'', x = .finite .positive m'' e'' hm'' := by
  obtain ⟨r, n, n', -, -, -, -, ⟨h, -⟩ | ⟨hpos, h⟩⟩ := roundWithAccuracy_cases
    (.positive / .positive) (divCore .binary64 m e m' e').1 (divCore .binary64 m e m' e').2.1
    (divCore .binary64 m e m' e').2.2
  · exact .inl h
  · exact .inr ⟨_, _, hpos, h⟩

/-- **Half of a whole number that is not zero is above zero.** -/
theorem natCast_half_pos {n : Nat} (h : 0 < n) (hn : n < 2 ^ 32) :
    ((0 : Nat) : Float) < (n : Float) / ((2 : Nat) : Float) := by
  have htwo : IsAbove 1 ((2 : Nat) : Float) := isAbove_natCast (by decide) (by decide)
  have hlow := above_div (isAbove_natCast h.ne' hn) htwo (isBelow_natCast (by decide)) (by decide)
  rw [pos_iff]
  show IsPositive (UnpackedFloat.unpack .binary64 (UnpackedFloat.pack .binary64
    (UnpackedFloat.div .binary64 (n : Float).toModel.unpack ((2 : Nat) : Float).toModel.unpack)))
  rw [unpack_natCast (by omega), unpack_natCast (by decide), ofWhole_pos h,
    ofWhole_pos (by decide)] at hlow ⊢
  obtain hdiv | ⟨m, e, hm, hdiv⟩ := div_positive
  · rw [hdiv] at hlow
    cases hlow
  · rw [hdiv] at hlow ⊢
    obtain ⟨hfull, hbound⟩ : m.log2 = 52 ∧ -((1 + 35 : Nat) : Int) ≤ totalExponent m e := hlow
    unfold totalExponent at hbound
    exact isPositive_pack_finite hm ((Nat.log2_lt hm.ne').mp (by omega)) (by omega)

/-! ## 2. Zero taken away -/

theorem sub_zero (x : UnpackedFloat) : UnpackedFloat.sub .binary64 x (.zero .positive) = x := by
  cases x with
  | zero s => cases s <;> rfl
  | _ => rfl

/-- **Zero taken from a whole number leaves it.** -/
theorem natCast_sub_zero {n : Nat} (hn : n < 2 ^ 53) :
    (n : Float) - ((0 : Nat) : Float) = n := by
  apply eq_of_unpack_eq
  show UnpackedFloat.unpack .binary64 (UnpackedFloat.pack .binary64 (UnpackedFloat.sub .binary64
    (n : Float).toModel.unpack (.zero .positive))) = _
  rw [sub_zero, unpack_natCast hn, unpack_pack_ofWhole hn]

/-! ## 3. Midpoints -/

theorem unpack_half : (((1 : Nat) : Float) / ((2 : Nat) : Float)).toModel.unpack =
    .finite .positive (2 ^ 52) (-53) (by decide) := by
  have hbits : (((1 : Nat) : Float) / ((2 : Nat) : Float)).toModel.toBits =
      0x3fe0000000000000 := by decide +kernel
  show UnpackedFloat.unpack .binary64
    (((1 : Nat) : Float) / ((2 : Nat) : Float)).toModel.toBits.toBitVec = _
  rw [hbits]
  rfl

/-- A whole number less a half is an odd number of halves, and its mantissa is full. -/
theorem unpack_natCast_sub_half {n : Nat} (h : 0 < n) (hn : n < 2 ^ 52) :
    ((n : Float) - ((1 : Nat) : Float) / ((2 : Nat) : Float)).toModel.unpack =
      .finite .positive ((2 * n - 1) * 2 ^ (52 - (2 * n - 1).log2))
        (-(52 - (2 * n - 1).log2 + 1 : Nat))
        (Nat.mul_pos (by omega) (Nat.two_pow_pos _)) := by
  have hlog := log2_lt_places (by omega : n < 2 ^ 53)
  have hlog' := log2_lt_places (by omega : 2 * n - 1 < 2 ^ 53)
  have hmin : min (-((52 - n.log2 : Nat) : Int)) (-53) = -53 := by omega
  have hshift : (-((52 - n.log2 : Nat) : Int) - -53).toNat = n.log2 + 1 := by omega
  have hself : ((-53 : Int) - -53).toNat = 0 := by decide
  have hexp : -((52 + 1 : Nat) : Int) = -53 := by decide
  -- both mantissas have fifty-three places, and the difference is a whole number of halves
  have hdiff : ((n * 2 ^ (52 - n.log2) * 2 ^ (n.log2 + 1) : Nat) : Int) - ((2 ^ 52 : Nat) : Int) =
      (((2 * n - 1) * 2 ^ 52 : Nat) : Int) := by
    rw [mul_pow_mul_pow (by omega : 52 - n.log2 + (n.log2 + 1) = 53)]
    omega
  have hsub : UnpackedFloat.sub .binary64 (ofWhole n)
      (.finite .positive (2 ^ 52) (-53) (by decide)) =
      .finite .positive ((2 * n - 1) * 2 ^ (52 - (2 * n - 1).log2))
        (-(52 - (2 * n - 1).log2 + 1 : Nat)) (Nat.mul_pos (by omega) (Nat.two_pow_pos _)) := by
    have hpos : (0 : Int) < (((2 * n - 1) * 2 ^ 52 : Nat) : Int) := by omega
    rw [ofWhole_pos h]
    simp only [UnpackedFloat.sub, hmin, decreaseExponent, hshift, hself, Nat.shiftLeft_eq,
      Nat.pow_zero, Nat.mul_one, apply_positive, hdiff]
    rw [normalize_of_pos hpos, Int.toNat_natCast]
    have hround := round_scaled (n := 2 * n - 1) (k := 52) (i := 1) (by omega) (by omega)
      (by decide)
    rw [hexp] at hround
    exact hround
  show UnpackedFloat.unpack .binary64 (UnpackedFloat.pack .binary64 (UnpackedFloat.sub .binary64
    (n : Float).toModel.unpack
    (((1 : Nat) : Float) / ((2 : Nat) : Float)).toModel.unpack)) = _
  rw [unpack_natCast (n := n) (by omega), unpack_half, hsub]
  exact unpack_pack_full (log2_full (by omega) (by omega)) (by omega) (by omega)

/-- Full mantissas compare as what they are made of. -/
theorem isLE_scaled_iff {a b : Nat} (ha : a < 2 ^ 53) (hb : b < 2 ^ 53) (i : Nat) :
    ((compare (-((52 - a.log2 + i : Nat) : Int)) (-((52 - b.log2 + i : Nat) : Int))).then
      (compare (a * 2 ^ (52 - a.log2)) (b * 2 ^ (52 - b.log2)))).isLE = true ↔ a ≤ b := by
  have hloga := log2_lt_places ha
  have hlogb := log2_lt_places hb
  rw [isLE_magnitude]
  rcases lt_trichotomy a.log2 b.log2 with hlt | heq | hgt
  · have hle : a ≤ b := by
      by_contra h
      have := log2_mono (Nat.le_of_lt (Nat.lt_of_not_le h))
      omega
    exact iff_of_true (.inl (by omega)) hle
  · rw [heq]
    have hmul : a * 2 ^ (52 - b.log2) ≤ b * 2 ^ (52 - b.log2) ↔ a ≤ b :=
      Nat.mul_le_mul_right_iff (Nat.two_pow_pos _)
    constructor
    · rintro (h | ⟨-, h⟩)
      · omega
      · exact hmul.mp h
    · exact fun h => .inr ⟨rfl, hmul.mpr h⟩
  · have hle : ¬a ≤ b := fun h => by
      have := log2_mono h
      omega
    exact iff_of_false (by omega) hle

/-- **A whole number less a half is not above another exactly if the whole number is not.** -/
theorem natCast_sub_half_le_iff {m n : Nat} (hm : 0 < m) (hm' : m < 2 ^ 52) (hn : n < 2 ^ 52) :
    (m : Float) - ((1 : Nat) : Float) / ((2 : Nat) : Float) ≤ (n : Float) ↔ m ≤ n := by
  rw [le_iff, unpack_natCast_sub_half hm hm', unpack_natCast (n := n) (by omega)]
  by_cases h : n = 0
  · subst h
    exact iff_of_false Bool.false_ne_true (by omega)
  · have hpos := Nat.pos_of_ne_zero h
    have hlog : (2 * n).log2 = n.log2 + 1 := Nat.log2_two_mul h
    have hplaces := log2_lt_places (by omega : 2 * n < 2 ^ 53)
    -- among halves the whole number is twice itself
    have hmantissa : n * 2 ^ (52 - n.log2) = 2 * n * 2 ^ (52 - (2 * n).log2) := by
      have hsucc : 52 - n.log2 = 52 - (2 * n).log2 + 1 := by omega
      rw [hsucc, Nat.pow_succ]
      ring
    have htwice : ofWhole n = .finite .positive (2 * n * 2 ^ (52 - (2 * n).log2))
        (-(52 - (2 * n).log2 + 1 : Nat)) (Nat.mul_pos (by omega) (Nat.two_pow_pos _)) :=
      (ofWhole_pos hpos).trans (finite_congr hmantissa (by omega))
    have htwo : 2 * m - 1 ≤ 2 * n ↔ m ≤ n := by omega
    rw [htwice, ← htwo, ← isLE_scaled_iff (by omega) (by omega) 1]
    rfl

end Double

/-! ## 4. The laws -/

/-- Numbers among which whole numbers are as they should be, also where zero is taken from them, and
    those of 32 bits that are not zero have halves above zero. -/
class HalvedNumbers (α : Type) [Add α] [Sub α] [Div α] [NatCast α] [LT α] [Numeric α] : Prop
    extends WholeNumbers α where
  natCast_sub_zero {n : Nat} (h : n < 2 ^ 53) : (n : α) - ((0 : Nat) : α) = n
  half_pos {n : Nat} (h : 0 < n) (hn : n < 2 ^ 32) : ((0 : Nat) : α) < (n : α) / ((2 : Nat) : α)
  zero_not_pos : ¬((0 : Nat) : α) < ((0 : Nat) : α)

instance halvedNumbersFloat : HalvedNumbers Float where
  natCast_sub_zero := Double.natCast_sub_zero
  half_pos := Double.natCast_half_pos
  zero_not_pos := by decide +kernel

instance halvedNumbersExact {α : Type} [Field α] [LinearOrder α] [IsStrictOrderedRing α]
    [Numeric α] [ExactNumbers α] : HalvedNumbers α where
  natCast_sub_zero {n} _ := by rw [Nat.cast_zero, sub_zero]
  half_pos {n} h _ := by
    rw [Nat.cast_zero, Nat.cast_ofNat]
    exact half_pos (Nat.cast_pos.mpr h)
  zero_not_pos := lt_irrefl _

end QrRender
