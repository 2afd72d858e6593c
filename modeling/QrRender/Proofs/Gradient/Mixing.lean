import Mathlib.Algebra.Order.Field.Rat
import Mathlib.Tactic.Linarith
import QrRender.Gradient
import QrRender.Proofs.Numeric.Extended

/-!
# Mixing two colours

The byte nearest a number is found bit by bit, from the highest down. Which numbers pass a test is
found so whenever the numbers that pass come before those that do not: the numbers up to the result
pass, and those behind it do not. For the nearest byte the test is that the number less a half is
not above the value, so a byte is at most the nearest one exactly if it passes. That one fact makes
the nearest byte grow with the value, and makes it a whole number where the value is one. Which
midpoints are not above the value decides the nearest byte among any numbers.

A channel is the byte nearest a value that moves in a straight line from one channel to the other,
up or down. So it starts at the first, never turns back, and does not leave the two. All of this is
in exact arithmetic; a share that is a number among the extended numbers gives the same channel.

* `le_greedy_iff`: building a number from its bits;
* `le_nearestByte_iff`: the bytes that are not above the nearest one;
* `nearestByte_of_iff`: the nearest byte by its midpoints, for any numbers;
* `nearestByte_mono`, `nearestByte_natCast`: order and whole numbers;
* `Between`, `Toward`: from one byte towards another;
* **`mixColor_toward`**: growing shares move every channel from the one colour to the other;
* `mixColor_small`: shares too small to be seen;
* `mixColor_finite`: the extended numbers.
-/

namespace QrRender

/-! ## 1. The nearest byte -/

/-- The bits of numbers below `2 ^ k`, the highest first. -/
def bits : Nat → List Nat
  | 0 => []
  | k + 1 => 2 ^ k :: bits k

/-- Bits tried from the highest down, on top of `base`; one stays if the number with it passes. -/
def greedy (P : Nat → Prop) [DecidablePred P] (k base : Nat) : Nat :=
  (bits k).foldl (fun b bit => if P (b + bit) then b + bit else b) base

section Greedy

variable {P : Nat → Prop} [DecidablePred P]

theorem greedy_succ (k base : Nat) :
    greedy P (k + 1) base = greedy P k (if P (base + 2 ^ k) then base + 2 ^ k else base) := rfl

theorem greedy_bounds (k base : Nat) :
    base ≤ greedy P k base ∧ greedy P k base < base + 2 ^ k := by
  induction k generalizing base with
  | zero => exact ⟨Nat.le_refl _, Nat.lt_succ_self _⟩
  | succ k ih =>
    rw [greedy_succ, Nat.pow_succ]
    split
    · have h := ih (base + 2 ^ k)
      omega
    · have h := ih base
      omega

/-- **If the numbers that pass come first, the result is the last of them**, as far as the bits
    reach. -/
theorem le_greedy_iff (hP : ∀ m n, m ≤ n → P n → P m) {k base n : Nat} (hn : base < n)
    (hn' : n < base + 2 ^ k) : n ≤ greedy P k base ↔ P n := by
  induction k generalizing base with
  | zero => omega
  | succ k ih =>
    rw [Nat.pow_succ] at hn'
    rw [greedy_succ]
    split
    · rename_i hbit
      rcases Nat.lt_or_ge (base + 2 ^ k) n with hlt | hge
      · exact ih hlt (by omega)
      · exact iff_of_true (hge.trans (greedy_bounds k _).1) (hP n _ hge hbit)
    · rename_i hbit
      rcases Nat.lt_or_ge n (base + 2 ^ k) with hlt | hge
      · exact ih hn hlt
      · have hbounds := greedy_bounds (P := P) k base
        exact iff_of_false (by omega) fun h => hbit (hP _ n hge h)

/-- Only the numbers that the bits reach are tried. -/
theorem greedy_congr {Q : Nat → Prop} [DecidablePred Q] {k base : Nat}
    (h : ∀ n, base < n → n < base + 2 ^ k → (P n ↔ Q n)) : greedy P k base = greedy Q k base := by
  induction k generalizing base with
  | zero => rfl
  | succ k ih =>
    have hpos := Nat.two_pow_pos k
    rw [Nat.pow_succ] at h
    rw [greedy_succ, greedy_succ, if_congr (h (base + 2 ^ k) (by omega) (by omega)) rfl rfl]
    refine ih fun n hn hn' => ?_
    split at hn <;> split at hn' <;> exact h n (by omega) (by omega)

theorem greedy_le {b k : Nat} (hb : b < 2 ^ k) : greedy (· ≤ b) k 0 = b := by
  have hmono : ∀ m n, m ≤ n → n ≤ b → m ≤ b := fun m n => Nat.le_trans
  obtain ⟨-, hlt⟩ := greedy_bounds (P := (· ≤ b)) k 0
  apply Nat.le_antisymm
  · rcases Nat.eq_zero_or_pos (greedy (· ≤ b) k 0) with hzero | hpos
    · rw [hzero]
      exact Nat.zero_le b
    · exact (le_greedy_iff hmono hpos hlt).mp (Nat.le_refl _)
  · rcases Nat.eq_zero_or_pos b with hzero | hpos
    · rw [hzero]
      exact Nat.zero_le _
    · exact (le_greedy_iff hmono hpos (by omega)).mpr (Nat.le_refl b)

end Greedy

/-- **A byte is the nearest one if the midpoints up to it are those not above the value**, whatever
    the numbers are. -/
theorem nearestByte_of_iff {α : Type} [Sub α] [Div α] [NatCast α] [LE α] [DecidableLE α] {v : α}
    {b : UInt8} (h : ∀ n : Nat, 0 < n → n < 256 →
      ((n : α) - ((1 : Nat) : α) / ((2 : Nat) : α) ≤ v ↔ n ≤ b.toNat)) : nearestByte v = b := by
  have hgreedy : greedy (fun n : Nat => (n : α) - ((1 : Nat) : α) / ((2 : Nat) : α) ≤ v) 8 0 =
      b.toNat := by
    rw [greedy_congr (Q := (· ≤ b.toNat)) fun n hn hn' => h n hn (by omega)]
    exact greedy_le b.toNat_lt
  exact (congrArg UInt8.ofNat hgreedy).trans UInt8.ofNat_toNat

variable {K : Type} [Field K] [LinearOrder K] {v w : K}

/-- The number less a half is not above the value. -/
def Reached (v : K) (n : Nat) : Prop := (n : K) - ((1 : Nat) : K) / ((2 : Nat) : K) ≤ v

instance : DecidablePred (Reached v) := fun n =>
  inferInstanceAs (Decidable ((n : K) - ((1 : Nat) : K) / ((2 : Nat) : K) ≤ v))

theorem toNat_nearestByte : (nearestByte v).toNat = greedy (Reached v) 8 0 := by
  have hlt : greedy (Reached v) 8 0 < 256 := (greedy_bounds 8 0).2
  exact UInt8.toNat_ofNat_of_lt' hlt

section Exact

variable [IsStrictOrderedRing K]

/-- **A byte is at most the nearest one exactly if it less a half is not above the value**, or if it
    is zero. -/
theorem le_nearestByte_iff {b : UInt8} :
    b ≤ nearestByte v ↔ b.toNat = 0 ∨ (b.toNat : K) - 1 / 2 ≤ v := by
  have hmono : ∀ m n : Nat, m ≤ n → Reached v n → Reached v m := by
    intro m n hmn h
    have hcast : (m : K) ≤ n := Nat.cast_le.mpr hmn
    exact (sub_le_sub_right hcast _).trans h
  rw [UInt8.le_iff_toNat_le, toNat_nearestByte]
  rcases Nat.eq_zero_or_pos b.toNat with hzero | hpos
  · rw [hzero]
    exact iff_of_true (Nat.zero_le _) (.inl rfl)
  · have hlt : b.toNat < 0 + 2 ^ 8 := (Nat.zero_add _).symm ▸ b.toNat_lt
    rw [le_greedy_iff hmono hpos hlt, Reached, Nat.cast_one, Nat.cast_ofNat]
    exact (or_iff_right hpos.ne').symm

theorem nearestByte_mono (h : v ≤ w) : nearestByte v ≤ nearestByte w :=
  le_nearestByte_iff.mpr ((le_nearestByte_iff.mp (UInt8.le_refl _)).imp_right fun hv => hv.trans h)

/-- The byte nearest a number is that from which it is less than a half away. -/
theorem nearestByte_eq {b : UInt8} (hlow : (b.toNat : K) - 1 / 2 ≤ v)
    (hhigh : v < b.toNat + 1 / 2) : nearestByte v = b := by
  refine nearestByte_of_iff fun n _ _ => ?_
  rw [Nat.cast_one, Nat.cast_ofNat]
  constructor
  · intro h
    have hlt : (n : K) < (b.toNat + 1 : Nat) := by
      push_cast
      linarith
    exact Nat.lt_succ_iff.mp (Nat.cast_lt.mp hlt)
  · intro h
    have hcast : (n : K) ≤ b.toNat := Nat.cast_le.mpr h
    linarith

theorem nearestByte_natCast (b : UInt8) : nearestByte (b.toNat : K) = b :=
  nearestByte_eq (by linarith) (by linarith)

/-! ## 2. Channels -/

/-- On the way from `a` to `b`, up or down, `x` comes first and then `y`. -/
def Toward (a b x y : UInt8) : Prop := a ≤ x ∧ x ≤ y ∧ y ≤ b ∨ b ≤ y ∧ y ≤ x ∧ x ≤ a

/-- Every channel moves so. -/
structure Rgba.Toward (a b x y : Rgba) : Prop where
  red : QrRender.Toward a.red b.red x.red y.red
  green : QrRender.Toward a.green b.green x.green y.green
  blue : QrRender.Toward a.blue b.blue x.blue y.blue
  alpha : QrRender.Toward a.alpha b.alpha x.alpha y.alpha

/-- From `a` to `b` at most, up or down. -/
def Between (a b x : UInt8) : Prop := a ≤ x ∧ x ≤ b ∨ b ≤ x ∧ x ≤ a

/-- Every channel lies so. -/
structure Rgba.Between (a b x : Rgba) : Prop where
  red : QrRender.Between a.red b.red x.red
  green : QrRender.Between a.green b.green x.green
  blue : QrRender.Between a.blue b.blue x.blue
  alpha : QrRender.Between a.alpha b.alpha x.alpha

theorem Toward.between {a b x y : UInt8} (h : Toward a b x y) : Between a b x :=
  h.imp (fun ⟨hax, hxy, hyb⟩ => ⟨hax, UInt8.le_trans hxy hyb⟩)
    (fun ⟨hby, hyx, hxa⟩ => ⟨UInt8.le_trans hby hyx, hxa⟩)

theorem Rgba.Toward.between {a b x y : Rgba} (h : Rgba.Toward a b x y) : Rgba.Between a b x :=
  ⟨h.red.between, h.green.between, h.blue.between, h.alpha.between⟩

/-- At the start there is the first channel. -/
theorem mixChannel_zero (a b : UInt8) : mixChannel (0 : K) a b = a := by
  unfold mixChannel
  simp only [mul_zero, add_zero]
  exact nearestByte_natCast a

/-- A share too small to move a channel by a half leaves it. -/
theorem mixChannel_small (hv : 0 ≤ v) (h : 512 * v < 1) (a b : UInt8) : mixChannel v a b = a := by
  have hbyte : ∀ c : UInt8, (0 : K) ≤ c.toNat ∧ (c.toNat : K) ≤ 255 := by
    intro c
    have hle : c.toNat ≤ 255 := Nat.lt_succ_iff.mp c.toNat_lt
    exact ⟨Nat.cast_nonneg _, by exact_mod_cast hle⟩
  obtain ⟨ha, ha'⟩ := hbyte a
  obtain ⟨hb, hb'⟩ := hbyte b
  have hhigh : ((b.toNat : K) - a.toNat) * v ≤ 255 * v :=
    mul_le_mul_of_nonneg_right (by linarith) hv
  have hlow : -255 * v ≤ ((b.toNat : K) - a.toNat) * v :=
    mul_le_mul_of_nonneg_right (by linarith) hv
  exact nearestByte_eq (by linarith) (by linarith)

/-- At the end there is the second. -/
theorem mixChannel_one (a b : UInt8) : mixChannel (1 : K) a b = b := by
  unfold mixChannel
  simp only [mul_one, add_sub_cancel]
  exact nearestByte_natCast b

theorem mixChannel_mono {a b : UInt8} (hab : a ≤ b) (h : v ≤ w) :
    mixChannel v a b ≤ mixChannel w a b := by
  have hcast : (a.toNat : K) ≤ b.toNat := Nat.cast_le.mpr (UInt8.le_iff_toNat_le.mp hab)
  have hprod : ((b.toNat : K) - a.toNat) * v ≤ ((b.toNat : K) - a.toNat) * w :=
    mul_le_mul_of_nonneg_left h (by linarith)
  exact nearestByte_mono (by linarith)

theorem mixChannel_anti {a b : UInt8} (hba : b ≤ a) (h : v ≤ w) :
    mixChannel w a b ≤ mixChannel v a b := by
  have hcast : (b.toNat : K) ≤ a.toNat := Nat.cast_le.mpr (UInt8.le_iff_toNat_le.mp hba)
  have hprod : ((b.toNat : K) - a.toNat) * w ≤ ((b.toNat : K) - a.toNat) * v :=
    mul_le_mul_of_nonpos_left h (by linarith)
  exact nearestByte_mono (by linarith)

/-- Growing shares move a channel from the one to the other. -/
theorem mixChannel_toward (a b : UInt8) (hv : 0 ≤ v) (h : v ≤ w) (hw : w ≤ 1) :
    Toward a b (mixChannel v a b) (mixChannel w a b) := by
  have hstart := mixChannel_zero (K := K) a b
  have hend := mixChannel_one (K := K) a b
  rcases Nat.le_total a.toNat b.toNat with hle | hle
  · have hab : a ≤ b := UInt8.le_iff_toNat_le.mpr hle
    have hfirst := mixChannel_mono hab hv
    have hlast := mixChannel_mono hab hw
    rw [hstart] at hfirst
    rw [hend] at hlast
    exact .inl ⟨hfirst, mixChannel_mono hab h, hlast⟩
  · have hba : b ≤ a := UInt8.le_iff_toNat_le.mpr hle
    have hfirst := mixChannel_anti hba hv
    have hlast := mixChannel_anti hba hw
    rw [hstart] at hfirst
    rw [hend] at hlast
    exact .inr ⟨hlast, mixChannel_anti hba h, hfirst⟩

/-! ## 3. Colours -/

theorem mixColor_zero (a b : Rgba) : mixColor (0 : K) a b = a := by
  unfold mixColor
  simp only [mixChannel_zero]

theorem mixColor_small (hv : 0 ≤ v) (h : 512 * v < 1) (a b : Rgba) : mixColor v a b = a := by
  unfold mixColor
  simp only [mixChannel_small hv h]

/-- **Growing shares move every channel from the one colour to the other.** -/
theorem mixColor_toward (a b : Rgba) (hv : 0 ≤ v) (h : v ≤ w) (hw : w ≤ 1) :
    Rgba.Toward a b (mixColor v a b) (mixColor w a b) where
  red := mixChannel_toward a.red b.red hv h hw
  green := mixChannel_toward a.green b.green hv h hw
  blue := mixChannel_toward a.blue b.blue hv h hw
  alpha := mixChannel_toward a.alpha b.alpha hv h hw

/-- Half way, where the byte nearest to a midpoint is the one above. -/
example : mixColor (1 / 2 : ℚ) ⟨255, 0, 0, 255⟩ ⟨0, 0, 255, 255⟩ = ⟨128, 0, 128, 255⟩ := by
  decide +kernel

/-! ## 4. The extended numbers -/

open Extended

theorem nearestByte_finite : nearestByte (finite v) = nearestByte v := by
  have htwo : ((2 : Nat) : K) ≠ 0 := Nat.cast_ne_zero.mpr (Nat.succ_ne_zero 1)
  have hreached : ∀ n : Nat, (n : Extended K) - ((1 : Nat) : Extended K) / ((2 : Nat) : Extended K)
      ≤ finite v ↔ (n : K) - ((1 : Nat) : K) / ((2 : Nat) : K) ≤ v := by
    intro n
    rw [natCast_eq, natCast_eq, natCast_eq, finite_div htwo, finite_sub, finite_le]
  unfold nearestByte
  simp only [hreached]

theorem mixChannel_finite (a b : UInt8) : mixChannel (finite v) a b = mixChannel v a b := by
  unfold mixChannel
  simp only [natCast_eq, finite_sub, finite_mul, finite_add, nearestByte_finite]

/-- A share that is a number gives the same colour. -/
theorem mixColor_finite (a b : Rgba) : mixColor (finite v) a b = mixColor v a b := by
  unfold mixColor
  simp only [mixChannel_finite]

end Exact

end QrRender
