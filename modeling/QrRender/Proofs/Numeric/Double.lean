import QrRender.Proofs.Numeric.Magnitude

/-!
# Doubles within bounds

The bounds of the model of doubles, for doubles as programs use them: a double below a power of two
is finite, and so is what the four operations make of such doubles. Whole numbers of 32 bits are
below bounds, and so are the numbers from minus one to one.

Comparison is no order, since no number compares with what is no number. Among numbers it is total,
and what compares at all is a number.

* `Double.IsBelow`, `Double.IsAbove`: a double below a power of two, and one not below a power of
  two;
* `Double.IsBelow.add`, `Double.IsBelow.sub`, `Double.IsBelow.mul`, `Double.IsBelow.div`: the
  operations;
* `Double.isBelow_natCast`, `Double.isAbove_natCast`: whole numbers;
* `Double.le_or_le`, `Double.le_of_not_lt`: two numbers compare one way or the other;
* **`Double.isNaN_div_eq_false`**: the quotient of doubles below bounds is a number unless the
  divisor is zero.
-/

namespace QrRender.Double

open Float.Model (totalExponent UnpackedFloat)
open Float.Model.UnpackedFloat

/-! ## 1. Operations -/

/-- The double is finite, and its magnitude is below `2 ^ k`. -/
def IsBelow (k : Nat) (x : Float) : Prop := Below k x.toModel.unpack

/-- The double is finite with a full mantissa, and twice its magnitude is at least `2 ^ (-k)`. -/
def IsAbove (k : Nat) (x : Float) : Prop := Above k x.toModel.unpack

variable {x y : Float} {j k : Nat}

theorem IsBelow.mono (h : IsBelow j x) (hjk : j ≤ k) : IsBelow k x := below_mono hjk h

theorem IsAbove.mono (h : IsAbove j x) (hjk : j ≤ k) : IsAbove k x := above_mono hjk h

theorem IsBelow.add (hx : IsBelow k x) (hy : IsBelow k y) (hk : k + 2 ≤ 900) :
    IsBelow (k + 2) (x + y) :=
  below_pack (below_add hx hy) hk

theorem IsBelow.sub (hx : IsBelow k x) (hy : IsBelow k y) (hk : k + 2 ≤ 900) :
    IsBelow (k + 2) (x - y) :=
  below_pack (below_sub hx hy) hk

theorem IsBelow.mul (hx : IsBelow j x) (hy : IsBelow k y) (hjk : j + k + 1 ≤ 900) :
    IsBelow (j + k + 1) (x * y) :=
  below_pack (below_mul hx hy) hjk

theorem IsBelow.div (hx : IsBelow j x) (hy : IsAbove k y) (hjk : j + k + 2 ≤ 900) :
    IsBelow (j + k + 2) (x / y) :=
  below_pack (below_div hx hy) hjk

theorem IsAbove.mul (hx : IsAbove j x) (hx' : IsBelow k x) (hy : IsAbove j y) (hy' : IsBelow k y)
    (hjk : j + j + k + k + 1 ≤ 900) : IsAbove (j + j + 1) (x * y) :=
  above_pack (above_mul hx hy (by omega)) (by omega) (below_mul hx' hy') (by omega)

theorem IsAbove.div (hx : IsAbove j x) (hx' : IsBelow k x) (hy : IsAbove j y) (hy' : IsBelow k y)
    (hjk : j + k + 2 ≤ 900) : IsAbove (j + k) (x / y) :=
  above_pack (above_div hx hy hy' (by omega)) (by omega)
    (below_mono (by omega) (below_div hx' hy)) hjk

/-! ## 2. Whole numbers -/

/-- A whole number with a mantissa for it is made of a machine word and the power zero of ten. -/
theorem natCast_eq {n : Nat} (hn : n < 2 ^ 53) :
    (n : Float) = n.toUInt64.toFloat * Float.exactlyRepresentablePowersOfTen[0] := by
  show Float.ofScientific n false 0 = _
  unfold Float.ofScientific
  rw [dif_pos ⟨hn, by decide⟩]
  rfl

theorem unpack_power_zero : (Float.exactlyRepresentablePowersOfTen[0]).toModel.unpack =
    .finite .positive (2 ^ 52) (-52) (by decide) := rfl

theorem bounds_power_zero : IsAbove 0 Float.exactlyRepresentablePowersOfTen[0] ∧
    IsBelow 1 Float.exactlyRepresentablePowersOfTen[0] := by
  unfold IsAbove IsBelow
  rw [unpack_power_zero]
  refine ⟨⟨Nat.log2_two_pow, ?_⟩, ?_⟩
  · show (-0 : Int) ≤ totalExponent (2 ^ 52) (-52)
    decide
  · show totalExponent (2 ^ 52) (-52) ≤ (1 : Nat)
    decide

theorem unpack_toFloat {n : Nat} (hn : n < 2 ^ 64) :
    n.toUInt64.toFloat.toModel.unpack = UnpackedFloat.unpack .binary64
      (UnpackedFloat.pack .binary64 (UnpackedFloat.normalize .binary64 n 0 .positive)) := by
  have hcast : n.toUInt64.toNat = n := Nat.mod_eq_of_lt hn
  show UnpackedFloat.unpack .binary64 (UnpackedFloat.pack .binary64
    (UnpackedFloat.normalize .binary64 n.toUInt64.toNat 0 .positive)) = _
  rw [hcast]

theorem below_normalize_natCast {n : Nat} (hn : n < 2 ^ 32) (s : Sign) :
    Below 33 (UnpackedFloat.normalize .binary64 n 0 s) := by
  refine below_normalize (k := 32) ?_ s
  have hlog : n.log2 < 32 := by
    by_cases h0 : n = 0
    · rw [h0]
      decide
    · rwa [Nat.log2_lt h0]
  show totalExponent n 0 ≤ (32 : Nat)
  unfold totalExponent
  omega

theorem isBelow_toFloat {n : Nat} (hn : n < 2 ^ 32) : IsBelow 33 n.toUInt64.toFloat := by
  unfold IsBelow
  rw [unpack_toFloat (by omega)]
  exact below_pack (below_normalize_natCast hn .positive) (by decide)

/-- A whole number of 32 bits is finite. -/
theorem isBelow_natCast {n : Nat} (hn : n < 2 ^ 32) : IsBelow 35 (n : Float) := by
  rw [natCast_eq (by omega)]
  exact (isBelow_toFloat hn).mul bounds_power_zero.2 (by decide)

/-- A whole number of 32 bits that is not zero is not small. -/
theorem isAbove_natCast {n : Nat} (h0 : n ≠ 0) (hn : n < 2 ^ 32) : IsAbove 1 (n : Float) := by
  have habove : IsAbove 0 n.toUInt64.toFloat := by
    unfold IsAbove
    rw [unpack_toFloat (by omega)]
    exact above_pack (above_normalize h0 .positive) (by decide)
      (below_normalize_natCast hn .positive) (by decide)
  rw [natCast_eq (by omega)]
  exact habove.mul (isBelow_toFloat hn) bounds_power_zero.1
    (bounds_power_zero.2.mono (by decide)) (by decide)

theorem isBelow_zero (k : Nat) : IsBelow k ((0 : Nat) : Float) := trivial

theorem IsBelow.half (h : IsBelow k x) (hk : k + 3 ≤ 900) :
    IsBelow (k + 3) (x / ((2 : Nat) : Float)) :=
  h.div (isAbove_natCast (by decide) (by decide)) hk

/-! ## 3. Comparison -/

theorem le_iff : x ≤ y ↔ (x.toModel.unpack.compare y.toModel.unpack).any (·.isLE) = true := by
  show Float.le x y = true ↔ _
  unfold Float.le
  rw [decide_eq_true_iff]
  rfl

/-- Magnitudes compare first by exponent and then by mantissa. -/
theorem isLE_magnitude {m m' : Nat} {e e' : Int} :
    ((compare e e').then (compare m m')).isLE = true ↔ e < e' ∨ e = e' ∧ m ≤ m' := by
  rw [Ordering.isLE_then_iff_or, compare_lt_iff_lt, compare_eq_iff_eq, Nat.isLE_compare]

theorem swap_magnitude {m m' : Nat} {e e' : Int} :
    ((compare e e').then (compare m m')).swap = (compare e' e).then (compare m' m) := by
  rw [Ordering.swap_then, Int.compare_swap, Nat.compare_swap]

theorem compare_comm (u v : UnpackedFloat) : u.compare v = (v.compare u).map Ordering.swap := by
  cases u with
  | notANumber => cases v <;> rfl
  | infinity s =>
    cases v with
    | infinity s' => cases s <;> cases s' <;> rfl
    | _ => cases s <;> rfl
  | zero s =>
    cases v with
    | infinity s' => cases s' <;> rfl
    | finite s' m' e' hm' => cases s' <;> rfl
    | _ => rfl
  | finite s m e hm =>
    cases v with
    | infinity s' => cases s' <;> rfl
    | notANumber => rfl
    | zero s' => cases s <;> rfl
    | finite s' m' e' hm' =>
      cases s with
      | negative =>
        cases s' with
        | negative => exact congrArg (fun o => some o.swap) swap_magnitude.symm
        | positive => rfl
      | positive =>
        cases s' with
        | negative => rfl
        | positive => exact congrArg some swap_magnitude.symm

/-- Numbers compare, and what compares are numbers. -/
theorem isSome_compare (u v : UnpackedFloat) :
    (u.compare v).isSome = true ↔ u.isNaN = false ∧ v.isNaN = false := by
  cases u with
  | notANumber => simp [UnpackedFloat.compare, UnpackedFloat.isNaN]
  | infinity s => cases s <;> cases v <;> simp [UnpackedFloat.compare, UnpackedFloat.isNaN]
  | zero s =>
    cases v with
    | infinity s' => cases s' <;> simp [UnpackedFloat.compare, UnpackedFloat.isNaN]
    | finite s' m' e' hm' => cases s' <;> simp [UnpackedFloat.compare, UnpackedFloat.isNaN]
    | _ => simp [UnpackedFloat.compare, UnpackedFloat.isNaN]
  | finite s m e hm =>
    cases v with
    | infinity s' => cases s' <;> simp [UnpackedFloat.compare, UnpackedFloat.isNaN]
    | finite s' m' e' hm' =>
      cases s <;> cases s' <;> simp [UnpackedFloat.compare, UnpackedFloat.isNaN]
    | _ => cases s <;> simp [UnpackedFloat.compare, UnpackedFloat.isNaN]

/-- **Two numbers compare one way or the other.** -/
theorem le_or_le (hx : x.isNaN = false) (hy : y.isNaN = false) : x ≤ y ∨ y ≤ x := by
  obtain ⟨o, ho⟩ := Option.isSome_iff_exists.mp ((isSome_compare _ _).mpr ⟨hx, hy⟩)
  rw [le_iff, le_iff, compare_comm y.toModel.unpack, ho]
  cases o with
  | gt => exact .inr rfl
  | _ => exact .inl rfl

theorem lt_iff : x < y ↔ (x.toModel.unpack.compare y.toModel.unpack == some .lt) = true := by
  show Float.lt x y = true ↔ _
  unfold Float.lt
  rw [decide_eq_true_iff]
  rfl

/-- A number that is not below another is at least as great. -/
theorem le_of_not_lt (hx : x.isNaN = false) (hy : y.isNaN = false) (h : ¬x < y) : y ≤ x := by
  obtain ⟨o, ho⟩ := Option.isSome_iff_exists.mp ((isSome_compare _ _).mpr ⟨hx, hy⟩)
  rw [lt_iff, ho] at h
  rw [le_iff, compare_comm y.toModel.unpack, ho]
  cases o with
  | lt => exact absurd rfl h
  | _ => rfl

/-- What compares are numbers. -/
theorem isNaN_eq_false_of_le (h : x ≤ y) : x.isNaN = false ∧ y.isNaN = false := by
  refine (isSome_compare _ _).mp ?_
  rw [le_iff] at h
  cases hcompare : x.toModel.unpack.compare y.toModel.unpack with
  | none => rw [hcompare] at h; cases h
  | some o => rfl

theorem mantissa_lt {b : BitVec 64} {s : Sign} {m : Nat} {e : Int} {hm : 0 < m}
    (h : UnpackedFloat.unpack .binary64 b = .finite s m e hm) : m < 2 ^ 53 := by
  unfold UnpackedFloat.unpack at h
  simp only at h
  split at h
  · split at h <;> cases h
  split at h
  · split at h
    · cases h
    · injection h with _ h
      rw [← h]
      have hlt := (@unpackMantissa .binary64 b).isLt
      omega
  · injection h with _ h
    rw [← h, implicitBit]
    omega

/-- A number from minus one to one is below two. -/
theorem isBelow_of_le_one (h : -1 ≤ x) (h' : x ≤ 1) : IsBelow 1 x := by
  have hone : (1 : Float).toModel.unpack = .finite .positive (2 ^ 52) (-52) (by decide) := rfl
  have hneg : (-1 : Float).toModel.unpack = .finite .negative (2 ^ 52) (-52) (by decide) := rfl
  have hmantissa : ∀ s m e hm, x.toModel.unpack = .finite s m e hm → m < 2 ^ 53 :=
    fun s m e hm => mantissa_lt
  rw [le_iff, hneg] at h
  rw [le_iff, hone] at h'
  unfold IsBelow
  generalize x.toModel.unpack = u at *
  cases u with
  | infinity s =>
    cases s with
    | negative => exact absurd h (by decide)
    | positive => exact absurd h' (by decide)
  | notANumber => exact absurd h (by decide)
  | zero s => trivial
  | finite s m e hm =>
    have hlog : m.log2 < 53 := (Nat.log2_lt hm.ne').mpr (hmantissa s m e hm rfl)
    -- which of the two hypotheses bounds the magnitude depends on the sign
    have hmagnitude : e < -52 ∨ e = -52 ∧ m ≤ 2 ^ 52 := by
      cases s with
      | negative =>
        rw [← isLE_magnitude, ← swap_magnitude]
        exact h
      | positive => exact isLE_magnitude.mp h'
    show totalExponent m e ≤ (1 : Nat)
    unfold totalExponent
    rcases hmagnitude with hlt | ⟨heq, hle⟩
    · omega
    · have hlog' := log2_mono hle
      rw [Nat.log2_two_pow] at hlog'
      omega

/-! ## 4. No number -/

theorem isNaN_iff : x.isNaN = true ↔ x.toModel.unpack = .notANumber :=
  UnpackedFloat.isNaN_iff

/-- What is computed to be no number is none when it is packed. -/
theorem isNaN_of_unpack {u : UnpackedFloat} (h : x.toModel.unpack =
    UnpackedFloat.unpack .binary64 (UnpackedFloat.pack .binary64 u)) (hu : u = .notANumber) :
    x.isNaN = true := by
  rw [isNaN_iff, h, hu]
  rfl

theorem isNaN_add (h : x.isNaN = true ∨ y.isNaN = true) : (x + y).isNaN = true :=
  isNaN_of_unpack rfl (add_notANumber (h.imp isNaN_iff.mp isNaN_iff.mp))

theorem isNaN_sub (h : x.isNaN = true ∨ y.isNaN = true) : (x - y).isNaN = true :=
  isNaN_of_unpack rfl (sub_notANumber (h.imp isNaN_iff.mp isNaN_iff.mp))

theorem isNaN_mul (h : x.isNaN = true ∨ y.isNaN = true) : (x * y).isNaN = true :=
  isNaN_of_unpack rfl (mul_notANumber (h.imp isNaN_iff.mp isNaN_iff.mp))

theorem isNaN_div (h : x.isNaN = true ∨ y.isNaN = true) : (x / y).isNaN = true :=
  isNaN_of_unpack rfl (div_notANumber (h.imp isNaN_iff.mp isNaN_iff.mp))

/-- **A quotient is a number** if the dividend and the divisor are below bounds and the divisor is
    not zero. -/
theorem isNaN_div_eq_false (hx : IsBelow j x) (hy : IsBelow k y)
    (hne : ¬(y ≤ ((0 : Nat) : Float) ∧ ((0 : Nat) : Float) ≤ y)) : (x / y).isNaN = false := by
  have hzero : ∀ s, y.toModel.unpack ≠ .zero s := by
    intro s h
    refine hne ⟨?_, ?_⟩
    · rw [le_iff, h]
      rfl
    · rw [le_iff, h]
      rfl
  have hdiv : (x / y).toModel.unpack = UnpackedFloat.unpack .binary64
      (UnpackedFloat.pack .binary64
        (UnpackedFloat.div .binary64 x.toModel.unpack y.toModel.unpack)) := rfl
  rw [Bool.eq_false_iff, ne_eq, isNaN_iff, hdiv]
  exact pack_ne_notANumber (div_ne_notANumber hx hy hzero)

end QrRender.Double
