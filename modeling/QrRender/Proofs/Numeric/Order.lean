import QrRender.Proofs.Numeric.Whole

/-!
# The order of doubles

Doubles compare by their unpacked form: sign, exponent, mantissa. The format is made so that this is
the order of their bits, read as a sign and a magnitude: a greater exponent outweighs every
mantissa, and the numbers without an implicit bit come right below those with it. So comparison of
numbers is that of integers, and is as transitive as theirs.

The total order ranks the same magnitudes, with the negative zero one below the positive. What it
puts in order is therefore in order when it compares.

* `Double.signedBits`: the bits of a double as a signed magnitude;
* `Double.HasMagnitude`, `Double.hasMagnitude_unpack`: the unpacked form has it;
* `Double.isLE_compare_iff`: unpacked forms compare by it;
* **`Double.le_iff_signedBits`**, `Double.lt_iff_signedBits`: and so do the doubles that are
  numbers;
* `Double.le_trans`: comparison is transitive;
* **`Double.le_of_rank_le`**: what is in the total order compares;
* `Double.floatRank_inj`, **`Double.rank_le_iff`**: the total order tells all doubles apart, and of
  numbers it is comparison with the two zeros ranked.
-/

namespace QrRender.Double

open Float.Model (Format UnpackedFloat)
open Float.Model.UnpackedFloat

/-! ## 1. Magnitudes -/

/-- Sixty-four bits as a sign and a magnitude. -/
def signedMagnitude (bits : Nat) : Int :=
  if bits < 2 ^ 63 then bits else -((bits - 2 ^ 63 : Nat) : Int)

/-- The bits of a double as a sign and a magnitude. -/
def signedBits (x : Float) : Int := signedMagnitude x.toBits.toNat

/-- The unpacked double has this signed magnitude. A finite one has an exponent of the format, and
    an implicit bit unless the exponent is the least. -/
inductive HasMagnitude : UnpackedFloat → Int → Prop
  | zero (s : Sign) : HasMagnitude (.zero s) 0
  | infinity (s : Sign) : HasMagnitude (.infinity s) (s.apply (2047 * 2 ^ 52 : Nat))
  | finite (s : Sign) {m k : Nat} {e : Int} (hm : 0 < m) (hlt : m < 2 ^ 53) (hk : k < 2046)
      (he : e = k - 1074) (hfull : 2 ^ 52 ≤ m ∨ k = 0) :
      HasMagnitude (.finite s m e hm) (s.apply (k * 2 ^ 52 + m : Nat))

theorem signedMagnitude_eq {b : BitVec 64} {s : Sign}
    (hs : Sign.ofBitVec (@unpackSign .binary64 b) = s) :
    signedMagnitude b.toNat = s.apply (b.toNat % 2 ^ 63 : Nat) := by
  have hlt := b.isLt
  have hbit := toNat_sign (@unpackSign .binary64 b)
  rw [toNat_unpackSign, hs] at hbit
  unfold signedMagnitude
  cases s with
  | positive =>
    have hzero : b.toNat / 2 ^ 63 ≠ 1 := ne_of_beq_false hbit
    have hsmall : b.toNat < 2 ^ 63 := by omega
    rw [if_pos hsmall, Nat.mod_eq_of_lt hsmall, apply_positive]
  | negative =>
    have hone : b.toNat / 2 ^ 63 = 1 := eq_of_beq hbit
    have hlarge : ¬b.toNat < 2 ^ 63 ∧ b.toNat % 2 ^ 63 = b.toNat - 2 ^ 63 := by omega
    rw [if_neg hlarge.1, hlarge.2, apply_negative]

/-- **The unpacked form of bits has their signed magnitude**, unless they are those of no number. -/
theorem hasMagnitude_unpack (b : BitVec 64) :
    UnpackedFloat.unpack .binary64 b = .notANumber ∨
      HasMagnitude (UnpackedFloat.unpack .binary64 b) (signedMagnitude b.toNat) := by
  have hmax : @unpackExponent .binary64 b = -1#11 ↔
      (@unpackExponent .binary64 b).toNat = 2047 := BitVec.toNat_inj.symm
  have hmin : @unpackExponent .binary64 b = 0#11 ↔
      (@unpackExponent .binary64 b).toNat = 0 := BitVec.toNat_inj.symm
  have hm : @unpackMantissa .binary64 b = 0#52 ↔
      (@unpackMantissa .binary64 b).toNat = 0 := BitVec.toNat_inj.symm
  have hexp : (@unpackExponent .binary64 b).toNat < 2048 := (@unpackExponent .binary64 b).isLt
  have hman : (@unpackMantissa .binary64 b).toNat < 2 ^ 52 := (@unpackMantissa .binary64 b).isLt
  have hbias : ((Format.binary64.exponentBias : Nat) : Int) + (52 : Nat) = 1075 := by decide
  -- the bits below the sign are those of the exponent and those of the mantissa
  have hparts : b.toNat % 2 ^ 63 = (@unpackExponent .binary64 b).toNat * 2 ^ 52 +
      (@unpackMantissa .binary64 b).toNat := by
    rw [toNat_unpackExponent, toNat_unpackMantissa]
    show b.toNat % 2 ^ 63 = b.toNat / 2 ^ 52 % 2048 * 2 ^ 52 + b.toNat % 2 ^ 52
    omega
  rw [signedMagnitude_eq rfl, hparts]
  simp only [UnpackedFloat.unpack, hmax, hmin, hbias]
  generalize Sign.ofBitVec (@unpackSign .binary64 b) = s
  split
  · rename_i hlast
    split
    · rename_i hnone
      rw [hlast, hm.mp hnone]
      exact .inr (.infinity s)
    · exact .inl rfl
  · right
    split
    · rename_i hzero
      rw [hzero]
      split
      · rename_i hnone
        rw [hm.mp hnone]
        cases s <;> exact .zero _
      · exact .finite s (k := 0) _ (by omega) (by decide) rfl (.inr rfl)
    · rename_i hlast hzero
      have himplicit : (1#1 ++ @unpackMantissa .binary64 b).toNat =
          2 ^ 52 + (@unpackMantissa .binary64 b).toNat := implicitBit _
      obtain ⟨k, hk⟩ : ∃ k, (@unpackExponent .binary64 b).toNat = k + 1 :=
        Nat.exists_eq_succ_of_ne_zero hzero
      have hsum : (k + 1) * 2 ^ 52 + (@unpackMantissa .binary64 b).toNat =
          k * 2 ^ 52 + (1#1 ++ @unpackMantissa .binary64 b).toNat := by
        rw [himplicit]
        ring
      rw [hk, hsum]
      exact .finite s (k := k) _ (by rw [himplicit]; omega) (by omega) (by omega)
        (.inl (by rw [himplicit]; omega))

/-! ## 2. Comparison -/

/-- Exponents and mantissas compare as what they make together. -/
theorem isLE_then_iff {m m' k k' : Nat} (hlt : m < 2 ^ 53) (hlt' : m' < 2 ^ 53)
    (hfull : 2 ^ 52 ≤ m ∨ k = 0) (hfull' : 2 ^ 52 ≤ m' ∨ k' = 0) :
    ((compare ((k : Int) - 1074) (k' - 1074)).then (compare m m')).isLE = true ↔
      k * 2 ^ 52 + m ≤ k' * 2 ^ 52 + m' := by
  rw [isLE_magnitude]
  omega

/-- **Unpacked numbers compare by their signed magnitudes.** -/
theorem isLE_compare_iff {u u' : UnpackedFloat} {v v' : Int} (hu : HasMagnitude u v)
    (hu' : HasMagnitude u' v') : (u.compare u').any (·.isLE) = true ↔ v ≤ v' := by
  cases hu with
  | zero s =>
    cases hu' with
    | zero s' => simp [UnpackedFloat.compare]
    | infinity s' => cases s' <;> simp [UnpackedFloat.compare, apply_positive, apply_negative]
    | finite s' hm' hlt' hk' he' hfull' =>
      cases s' <;> simp [UnpackedFloat.compare, apply_positive, apply_negative] <;> omega
  | infinity s =>
    cases hu' with
    | zero s' => cases s <;> simp [UnpackedFloat.compare, apply_positive, apply_negative]
    | infinity s' => cases s <;> cases s' <;> decide
    | finite s' hm' hlt' hk' he' hfull' =>
      cases s <;> cases s' <;>
        simp [UnpackedFloat.compare, apply_positive, apply_negative] <;> omega
  | @finite s m k _ hm hlt hk he hfull =>
    cases hu' with
    | zero s' => cases s <;> simp [UnpackedFloat.compare, apply_positive, apply_negative] <;> omega
    | infinity s' =>
      cases s <;> cases s' <;>
        simp [UnpackedFloat.compare, apply_positive, apply_negative] <;> omega
    | @finite s' m' k' _ hm' hlt' hk' he' hfull' =>
      subst he he'
      have hle := isLE_then_iff hlt hlt' hfull hfull'
      have hge := isLE_then_iff hlt' hlt hfull' hfull
      cases s with
      | positive =>
        cases s' with
        | positive => exact hle.trans Int.ofNat_le.symm
        | negative => simp [UnpackedFloat.compare, apply_positive, apply_negative]; omega
      | negative =>
        cases s' with
        | positive => simp [UnpackedFloat.compare, apply_positive, apply_negative]; omega
        | negative =>
          rw [← swap_magnitude] at hge
          exact hge.trans (Int.ofNat_le.symm.trans Int.neg_le_neg_iff.symm)

/-! ## 3. Numbers -/

variable {x y z : Float}

theorem hasMagnitude_of_number (hx : x.isNaN = false) :
    HasMagnitude x.toModel.unpack (signedBits x) := by
  refine (hasMagnitude_unpack x.toModel.toBits.toBitVec).resolve_left fun h => ?_
  exact Bool.eq_false_iff.mp hx (isNaN_iff.mpr h)

/-- **Numbers compare by their signed bits.** -/
theorem le_iff_signedBits (hx : x.isNaN = false) (hy : y.isNaN = false) :
    x ≤ y ↔ signedBits x ≤ signedBits y :=
  le_iff.trans (isLE_compare_iff (hasMagnitude_of_number hx) (hasMagnitude_of_number hy))

/-- What is below something else does so as a number. -/
theorem isNaN_eq_false_of_lt (h : x < y) : x.isNaN = false ∧ y.isNaN = false := by
  refine (isSome_compare _ _).mp ?_
  rw [lt_iff, beq_iff_eq] at h
  rw [h]
  rfl

/-- Of two numbers one is below the other exactly if it is not at least as great. -/
theorem lt_iff_not_le (hx : x.isNaN = false) (hy : y.isNaN = false) : x < y ↔ ¬y ≤ x := by
  obtain ⟨o, ho⟩ := Option.isSome_iff_exists.mp ((isSome_compare _ _).mpr ⟨hx, hy⟩)
  rw [lt_iff, le_iff, compare_comm y.toModel.unpack, ho]
  cases o <;> decide

theorem lt_iff_signedBits (hx : x.isNaN = false) (hy : y.isNaN = false) :
    x < y ↔ signedBits x < signedBits y := by
  rw [lt_iff_not_le hx hy, le_iff_signedBits hy hx, Int.not_le]

theorem le_trans (hxy : x ≤ y) (hyz : y ≤ z) : x ≤ z := by
  obtain ⟨hx, hy⟩ := isNaN_eq_false_of_le hxy
  obtain ⟨-, hz⟩ := isNaN_eq_false_of_le hyz
  rw [le_iff_signedBits hx hy] at hxy
  rw [le_iff_signedBits hy hz] at hyz
  exact (le_iff_signedBits hx hz).mpr (Int.le_trans hxy hyz)

/-! ## 4. The total order -/

/-- The rank is the signed magnitude, but for one place between the numbers with a sign and those
    without. -/
theorem floatRank_eq (x : Float) :
    floatRank x = signedBits x ∧ 0 ≤ signedBits x ∨
      floatRank x = signedBits x - 1 ∧ signedBits x ≤ 0 := by
  unfold floatRank signedBits signedMagnitude
  simp only
  change (if x.toBits.toNat < 2 ^ 63 then _ else _) = _ ∧ _ ∨
    (if x.toBits.toNat < 2 ^ 63 then _ else _) = _ ∧ _
  split
  · omega
  · right
    change ((2 ^ 63 : Nat) : Int) - 1 - _ = _ ∧ _
    omega

/-- **Numbers that are in the total order compare.** -/
theorem le_of_rank_le (hx : x.isNaN = false) (hy : y.isNaN = false)
    (h : floatRank x ≤ floatRank y) : x ≤ y := by
  rw [le_iff_signedBits hx hy]
  have hx' := floatRank_eq x
  have hy' := floatRank_eq y
  omega

theorem eq_of_toBits_eq (h : x.toBits = y.toBits) : x = y := by
  obtain ⟨⟨bits, hvalid⟩⟩ := x
  obtain ⟨⟨bits', hvalid'⟩⟩ := y
  obtain rfl : bits = bits' := h
  rfl

/-- Different doubles have different ranks. -/
theorem floatRank_inj (h : floatRank x = floatRank y) : x = y := by
  refine eq_of_toBits_eq (UInt64.toNat_inj.mp ?_)
  have hhalf : (Nat.pow 2 63 : Nat) = 9223372036854775808 := rfl
  unfold floatRank at h
  simp only [hhalf] at h
  split at h <;> split at h <;> omega

/-- The total order of numbers: the lower one first, and of the two zeros the negative one. -/
def TotalLe (x y : Float) : Prop :=
  x < y ∨ x = y ∨ x = -((0 : Nat) : Float) ∧ y = ((0 : Nat) : Float)

/-- The zeros are the numbers whose bits have no magnitude. -/
theorem eq_zero_of_signedBits (h : signedBits x = 0) :
    x = ((0 : Nat) : Float) ∧ floatRank x = 0 ∨ x = -((0 : Nat) : Float) ∧ floatRank x = -1 := by
  have hzero : floatRank ((0 : Nat) : Float) = 0 := by decide +kernel
  have hminus : floatRank (-((0 : Nat) : Float)) = -1 := by decide +kernel
  rcases floatRank_eq x with ⟨hrank, -⟩ | ⟨hrank, -⟩
  · have hrank : floatRank x = 0 := hrank.trans h
    exact .inl ⟨floatRank_inj (hrank.trans hzero.symm), hrank⟩
  · have hrank : floatRank x = -1 := by omega
    exact .inr ⟨floatRank_inj (hrank.trans hminus.symm), hrank⟩

/-- **Numbers are ranked in their total order.** -/
theorem rank_le_iff (hx : x.isNaN = false) (hy : y.isNaN = false) :
    floatRank x ≤ floatRank y ↔ TotalLe x y := by
  have hx' := floatRank_eq x
  have hy' := floatRank_eq y
  rw [TotalLe, lt_iff_signedBits hx hy]
  constructor
  · intro h
    rcases Int.lt_trichotomy (signedBits x) (signedBits y) with hlt | heq | hgt
    · exact .inl hlt
    · by_cases hzero : signedBits x = 0
      · -- two zeros: a negative one is not ranked behind a positive one
        rcases eq_zero_of_signedBits hzero with ⟨rfl, hrank⟩ | ⟨rfl, hrank⟩ <;>
          rcases eq_zero_of_signedBits (heq ▸ hzero) with ⟨rfl, hrank'⟩ | ⟨rfl, hrank'⟩
        · exact .inr (.inl rfl)
        · omega
        · exact .inr (.inr ⟨rfl, rfl⟩)
        · exact .inr (.inl rfl)
      · exact .inr (.inl (floatRank_inj (by omega)))
    · omega
  · rintro (h | rfl | ⟨rfl, rfl⟩)
    · omega
    · exact Int.le_refl _
    · decide +kernel

end QrRender.Double
