import QrRender.Proofs.Numeric.Whole

/-!
# Signs in single precision

A double that is rounded to single precision may become zero or an infinity, but it never changes
sides: what is above zero then was above zero before. The bit for the sign is carried over, and zero
stays zero.

* `Double.IsPositive`: an unpacked number above zero, and `Double.pos_iff`, such doubles;
* `Double.isPositive_of_pack`: packing makes nothing positive;
* `Double.isPositive_pack_finite`: and does not lose a positive number;
* `Double.msb_of_isPositive`, `Double.unpack_of_msb`: positive numbers and the bit for the sign;
* **`Double.pos_of_floatSingle`**: a double that is above zero in single precision is above zero.
-/

namespace QrRender.Double

open Float.Model (UnpackedFloat)
open Float.Model.UnpackedFloat

/-! ## 1. Positive numbers -/

/-- The number is above zero, and not no number. -/
def IsPositive : UnpackedFloat → Prop
  | .infinity .positive => True
  | .finite .positive _ _ _ => True
  | _ => False

theorem pos_iff {x : Float} : ((0 : Nat) : Float) < x ↔ IsPositive x.toModel.unpack := by
  have hzero : ((0 : Nat) : Float).toModel.unpack = .zero .positive := rfl
  rw [lt_iff, hzero]
  generalize x.toModel.unpack = u
  cases u with
  | notANumber => exact ⟨nofun, nofun⟩
  | zero s => exact ⟨nofun, nofun⟩
  | infinity s =>
    cases s with
    | negative => exact ⟨nofun, nofun⟩
    | positive => exact ⟨fun _ => trivial, fun _ => rfl⟩
  | finite s m e hm =>
    cases s with
    | negative => exact ⟨nofun, nofun⟩
    | positive => exact ⟨fun _ => trivial, fun _ => rfl⟩

/-! ## 2. The bit for the sign -/

theorem ofBitVec_unpackSign (b : BitVec 64) :
    Sign.ofBitVec (@unpackSign .binary64 b) = if b.msb then .negative else .positive := by
  have hsign := toNat_sign (@unpackSign .binary64 b)
  have hlt := b.isLt
  rw [toNat_unpackSign] at hsign
  rw [BitVec.msb_eq_decide]
  generalize Sign.ofBitVec (@unpackSign .binary64 b) = s at hsign ⊢
  by_cases hb : 2 ^ 63 ≤ b.toNat
  · have hone : b.toNat / Nat.pow 2 63 = 1 := by
      show b.toNat / 2 ^ 63 = 1
      omega
    rw [hone] at hsign
    rw [if_pos (decide_eq_true hb)]
    exact eq_of_beq hsign.symm
  · have hzero : b.toNat / Nat.pow 2 63 = 0 := Nat.div_eq_of_lt (Nat.not_le.mp hb)
    rw [hzero] at hsign
    rw [if_neg (by simpa using hb)]
    cases s with
    | negative => cases hsign
    | positive => rfl

/-- A number is unpacked with the sign that its bit says. -/
theorem unpack_form {b : BitVec 64} {s : Sign}
    (hs : Sign.ofBitVec (@unpackSign .binary64 b) = s) :
    let u := UnpackedFloat.unpack .binary64 b
    u = .notANumber ∨ u = .zero s ∨ u = .infinity s ∨ ∃ m e hm, u = .finite s m e hm := by
  unfold UnpackedFloat.unpack
  simp only [hs]
  split
  · split
    · exact .inr (.inr (.inl rfl))
    · exact .inl rfl
  · split
    · split
      · exact .inr (.inl rfl)
      · rename_i hm
        have hpos : 0 < (@unpackMantissa .binary64 b).toNat :=
          Nat.pos_of_ne_zero fun h => hm (BitVec.eq_of_toNat_eq h)
        exact .inr (.inr (.inr ⟨_, _, hpos, rfl⟩))
    · have hpos : 0 < (1#1 ++ @unpackMantissa .binary64 b).toNat := by
        rw [implicitBit]
        omega
      exact .inr (.inr (.inr ⟨_, _, hpos, rfl⟩))

/-- **What is unpacked as positive does not have the bit for the sign.** -/
theorem msb_of_isPositive {b : BitVec 64} (h : IsPositive (UnpackedFloat.unpack .binary64 b)) :
    b.msb = false := by
  cases hmsb : b.msb with
  | false => rfl
  | true =>
    have hs := ofBitVec_unpackSign b
    rw [hmsb, if_pos rfl] at hs
    obtain hu | hu | hu | ⟨m, e, hm, hu⟩ := unpack_form hs
    all_goals
      rw [hu] at h
      cases h

/-- What does not have it is no number, zero or positive. -/
theorem unpack_of_msb {b : BitVec 64} (h : b.msb = false) :
    UnpackedFloat.unpack .binary64 b = .notANumber ∨
      UnpackedFloat.unpack .binary64 b = .zero .positive ∨
      IsPositive (UnpackedFloat.unpack .binary64 b) := by
  have hs := ofBitVec_unpackSign b
  rw [h, if_neg (by decide)] at hs
  obtain hu | hu | hu | ⟨m, e, hm, hu⟩ := unpack_form hs
  · exact .inl hu
  · exact .inr (.inl hu)
  · rw [hu]
    exact .inr (.inr trivial)
  · rw [hu]
    exact .inr (.inr trivial)

/-! ## 3. Packing and rounding -/

/-- **What is positive after packing was positive before.** -/
theorem isPositive_of_pack {u : UnpackedFloat}
    (h : IsPositive (UnpackedFloat.unpack .binary64 (UnpackedFloat.pack .binary64 u))) :
    IsPositive u := by
  have hnegative : ∀ (e : BitVec 11) (m : BitVec 52),
      ¬IsPositive (UnpackedFloat.unpack .binary64 (packComponents .binary64 .negative e m)) := by
    intro e m hpos
    have hs := ofBitVec_unpackSign (packComponents .binary64 .negative e m)
    rw [msb_of_isPositive hpos, unpackSign_packComponents, Sign.ofBitVec_toBitVec] at hs
    cases hs
  cases u with
  | notANumber => exact h
  | zero s =>
    cases s with
    | negative => exact absurd h (hnegative _ _)
    | positive => exact h
  | infinity s =>
    cases s with
    | negative => exact absurd h (hnegative _ _)
    | positive => trivial
  | finite s m e hm =>
    cases s with
    | negative =>
      rw [pack_finite] at h
      split at h <;> exact absurd h (hnegative _ _)
    | positive => trivial

theorem unpackSign_pack_finite (s : Sign) {m : Nat} {e : Int} (hm : 0 < m) :
    Sign.ofBitVec (@unpackSign .binary64
      (UnpackedFloat.pack .binary64 (.finite s m e hm))) = s := by
  rw [pack_finite]
  split
  · rw [packedInfinity, unpackSign_packComponents, Sign.ofBitVec_toBitVec]
  · rw [unpackSign_packComponents, Sign.ofBitVec_toBitVec]

/-- Bits that are unpacked as zero have no exponent and no mantissa. -/
theorem fields_of_unpack_zero {b : BitVec 64} {s : Sign}
    (h : UnpackedFloat.unpack .binary64 b = .zero s) :
    @unpackExponent .binary64 b = 0#11 ∧ @unpackMantissa .binary64 b = 0#52 := by
  unfold UnpackedFloat.unpack at h
  simp only at h
  split at h
  · split at h <;> cases h
  split at h
  · rename_i hexp
    split at h
    · rename_i hman
      exact ⟨hexp, hman⟩
    · cases h
  · cases h

theorem pack_finite_ne_zero {m : Nat} {e : Int} (hm : 0 < m) (hlt : m < 2 ^ 53) (he : -1074 ≤ e)
    (s s' : Sign) : UnpackedFloat.unpack .binary64
      (UnpackedFloat.pack .binary64 (.finite s m e hm)) ≠ .zero s' := by
  intro h
  obtain ⟨hexp, hman⟩ := fields_of_unpack_zero h
  have hlog := (Nat.log2_lt hm.ne').mpr hlt
  rw [pack_finite] at hexp hman
  split at hexp
  · rw [packedInfinity, unpackExponent_packComponents] at hexp
    exact absurd hexp (by decide)
  rename_i hfits
  rw [if_neg hfits, unpackMantissa_packComponents] at hman
  rw [unpackExponent_packComponents] at hexp
  have hkept := congrArg BitVec.toNat hman
  rw [BitVec.toNat_ofNat, BitVec.toNat_ofNat] at hkept
  split at hexp
  · -- with an implicit bit the exponent is not zero
    have hbiased := congrArg BitVec.toNat hexp
    rw [BitVec.toNat_ofNat, BitVec.toNat_ofNat] at hbiased
    omega
  · -- without one the mantissa is kept as a whole
    have hsmall : m < 2 ^ 52 := by
      rw [← Nat.log2_lt hm.ne']
      omega
    omega

/-- **Packing does not lose a positive number** whose mantissa fits. -/
theorem isPositive_pack_finite {m : Nat} {e : Int} (hm : 0 < m) (hlt : m < 2 ^ 53)
    (he : -1074 ≤ e) : IsPositive (UnpackedFloat.unpack .binary64
      (UnpackedFloat.pack .binary64 (.finite .positive m e hm))) := by
  obtain h | h | h | ⟨m', e', hm', h⟩ := unpack_form (unpackSign_pack_finite .positive hm)
  · exact absurd h (pack_ne_notANumber nofun)
  · exact absurd h (pack_finite_ne_zero hm hlt he .positive .positive)
  · rw [h]
    trivial
  · rw [h]
    trivial

/-- **A double that is above zero in single precision is above zero.** -/
theorem pos_of_floatSingle {x : Float} (h : ((0 : Nat) : Float) < floatSingle x) :
    ((0 : Nat) : Float) < x := by
  by_cases hnan : x.isNaN = true
  · rwa [floatSingle, if_pos hnan] at h
  have hsign : x.toBits.toBitVec.msb = false := by
    rw [pos_iff, floatSingle, if_neg hnan] at h
    have hmsb := msb_of_isPositive (isPositive_of_pack h)
    rw [UInt64.toBitVec_or, UInt64.toBitVec_and, BitVec.msb_or, BitVec.msb_and,
      Bool.or_eq_false_iff] at hmsb
    have hbit : signBit.toBitVec.msb = true := rfl
    rw [hbit, Bool.and_true] at hmsb
    exact hmsb.2
  obtain hu | hu | hu := unpack_of_msb hsign
  · exact absurd (isNaN_iff.mpr hu) hnan
  · obtain rfl : x = ((0 : Nat) : Float) := eq_of_unpack_eq hu
    exact absurd h (by decide +kernel)
  · exact pos_iff.mpr hu

end QrRender.Double
