import QrRender.Proofs.Numeric.Whole

/-!
# Products of whole numbers

A view that enlarges a canvas a whole number of times divides the one side by the other, multiplies
by the quotient, and takes what comes out from the side again. With whole numbers that have a place
in a mantissa doubles do all this without rounding: the product is the product, a product divided
by one of its factors is the other, and what is left at the end is the positive zero.

* `Double.div_ofWhole`, `Double.sub_ofWhole_self`: unpacked quotients, and differences of nothing;
* `Double.natCast_mul`, `Double.natCast_mul_div`, `Double.natCast_sub_self`: the same for doubles;
* **`WholeProducts`**: the laws, for doubles and for exact numbers.
-/

namespace QrRender

namespace Double

open Float.Model (totalExponent UnpackedFloat)
open Float.Model.UnpackedFloat

/-- The quotient of mantissas that leaves nothing over, before it is rounded. -/
theorem divCore_exact {m k q : Nat} {e f : Int} {n : Nat} (hk : 0 < k)
    (he : min (e - f) (max (totalExponent m e - totalExponent k f - 53) (-1074)) = e - f - n)
    (hq : m * 2 ^ n = q * k) : divCore .binary64 m e k f = (q, e - f - n, .exact) := by
  have htarget : min (e - f) (Float.Model.Format.binary64.targetExponent
      (totalExponent m e - totalExponent k f)) = e - f - n := he
  have hshift : (e - f - (e - f - (n : Int))).toNat = n := by omega
  simp only [divCore, htarget, hshift, Nat.shiftLeft_eq, hq, Nat.mul_div_cancel _ hk,
    Nat.mul_mod_left, accuracyOfFraction, if_true]

/-- **A product of whole numbers is divided by a factor without rounding.** -/
theorem div_ofWhole {a b : Nat} (hb : 0 < b) (h : a * b < 2 ^ 53) :
    UnpackedFloat.div .binary64 (ofWhole (a * b)) (ofWhole b) = ofWhole a := by
  rcases Nat.eq_zero_or_pos a with rfl | ha
  · rw [Nat.zero_mul, ofWhole_zero, ofWhole_pos hb]
    rfl
  have hab : 0 < a * b := Nat.mul_pos ha hb
  have ha' : a < 2 ^ 53 := Nat.lt_of_le_of_lt (Nat.le_mul_of_pos_right a hb) h
  have hloga := log2_lt_places ha'
  have hlog := log2_lt_places h
  obtain ⟨hlow, hhigh⟩ := log2_mul_bounds ha.ne' hb.ne'
  have hfull := log2_full hab h
  have hfull' := log2_full hb (Nat.lt_of_le_of_lt (Nat.le_mul_of_pos_left b ha) h)
  -- the dividend is shifted by fifty-three places, and the quotient keeps those of the factor
  have hq : a * b * 2 ^ (52 - (a * b).log2) * 2 ^ 53 =
      a * 2 ^ (52 - a.log2) * 2 ^ (a.log2 + b.log2 + 1 - (a * b).log2) *
        (b * 2 ^ (52 - b.log2)) := by
    rw [mul_pow_mul_pow rfl, mul_pow_mul_pow rfl, mul_mul_mul_pow]
    congr 2
    omega
  have hcore := divCore_exact (n := 53) (e := -((52 - (a * b).log2 : Nat) : Int))
    (f := -((52 - b.log2 : Nat) : Int)) (Nat.mul_pos hb (Nat.two_pow_pos _))
    (by unfold totalExponent; omega) hq
  have he : -((52 - (a * b).log2 : Nat) : Int) - -((52 - b.log2 : Nat) : Int) - (53 : Nat) =
      -((52 - a.log2 : Nat) : Int) - (a.log2 + b.log2 + 1 - (a * b).log2 : Nat) := by omega
  rw [ofWhole_pos hab, ofWhole_pos hb, ofWhole_pos ha]
  simp only [UnpackedFloat.div, hcore, he]
  exact roundWithAccuracy_exact .positive (log2_full ha ha') (by omega) _

/-- A whole number taken from itself leaves the positive zero. -/
theorem sub_ofWhole_self (a : Nat) :
    UnpackedFloat.sub .binary64 (ofWhole a) (ofWhole a) = ofWhole 0 := by
  rcases Nat.eq_zero_or_pos a with rfl | ha
  · rfl
  · rw [ofWhole_pos ha]
    simp only [UnpackedFloat.sub, sub_self]
    rfl

theorem natCast_mul {a b : Nat} (ha : a < 2 ^ 53) (hb : b < 2 ^ 53) (h : a * b < 2 ^ 53) :
    (a : Float) * (b : Float) = ((a * b : Nat) : Float) := by
  apply eq_of_unpack_eq
  show UnpackedFloat.unpack .binary64 (UnpackedFloat.pack .binary64 (UnpackedFloat.mul .binary64
    (a : Float).toModel.unpack (b : Float).toModel.unpack)) = _
  rw [unpack_natCast ha, unpack_natCast hb, unpack_natCast h, mul_ofWhole ha hb h,
    unpack_pack_ofWhole h]

theorem natCast_mul_div {a b : Nat} (ha : a < 2 ^ 53) (hb : b < 2 ^ 53) (hpos : 0 < b)
    (h : a * b < 2 ^ 53) : ((a * b : Nat) : Float) / (b : Float) = a := by
  apply eq_of_unpack_eq
  show UnpackedFloat.unpack .binary64 (UnpackedFloat.pack .binary64 (UnpackedFloat.div .binary64
    ((a * b : Nat) : Float).toModel.unpack (b : Float).toModel.unpack)) = _
  rw [unpack_natCast h, unpack_natCast hb, unpack_natCast ha, div_ofWhole hpos h,
    unpack_pack_ofWhole ha]

theorem natCast_sub_self {a : Nat} (ha : a < 2 ^ 53) :
    (a : Float) - (a : Float) = ((0 : Nat) : Float) := by
  apply eq_of_unpack_eq
  show UnpackedFloat.unpack .binary64 (UnpackedFloat.pack .binary64 (UnpackedFloat.sub .binary64
    (a : Float).toModel.unpack (a : Float).toModel.unpack)) = _
  rw [unpack_natCast ha, unpack_natCast (by decide), sub_ofWhole_self,
    unpack_pack_ofWhole (by decide)]

end Double

/-- Numbers among which whole numbers with a place in a mantissa are added and multiplied, products
    divided by their factors, and numbers taken from themselves, all without rounding. -/
class WholeProducts (α : Type) [Add α] [Sub α] [Mul α] [Div α] [NatCast α] [Numeric α] : Prop
    extends WholeNumbers α where
  natCast_mul {a b : Nat} (ha : a < 2 ^ 53) (hb : b < 2 ^ 53) (h : a * b < 2 ^ 53) :
    (a : α) * (b : α) = ((a * b : Nat) : α)
  natCast_mul_div {a b : Nat} (ha : a < 2 ^ 53) (hb : b < 2 ^ 53) (hpos : 0 < b)
    (h : a * b < 2 ^ 53) : ((a * b : Nat) : α) / (b : α) = a
  natCast_sub_self {a : Nat} (ha : a < 2 ^ 53) : (a : α) - (a : α) = ((0 : Nat) : α)

instance wholeProductsFloat : WholeProducts Float where
  natCast_mul := Double.natCast_mul
  natCast_mul_div := Double.natCast_mul_div
  natCast_sub_self := Double.natCast_sub_self

instance wholeProductsExact {α : Type} [Field α] [LinearOrder α] [IsStrictOrderedRing α]
    [Numeric α] [ExactNumbers α] : WholeProducts α where
  natCast_mul {a b} _ _ _ := (Nat.cast_mul a b).symm
  natCast_mul_div {a b} _ _ hpos _ := by
    rw [Nat.cast_mul]
    exact mul_div_cancel_right₀ _ (Nat.cast_ne_zero.mpr hpos.ne')
  natCast_sub_self {a} _ := by rw [sub_self, Nat.cast_zero]

end QrRender
