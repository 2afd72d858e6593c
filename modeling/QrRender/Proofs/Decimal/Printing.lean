import Mathlib.Data.Finite.Defs
import Mathlib.Data.Fintype.Lattice
import QrRender.Proofs.Decimal.Rounding
import QrRender.Proofs.Numeric.Order

/-!
# Numbers as they are printed

A drawing writes its numbers with two places at most. What is written is a plain decimal, and it
denotes the hundredth to which the exact value of the number is rounded. It says no more than that:
two numbers are written alike if and only if they are rounded to the same hundredth.

Who reads the text gets a number that is nearest what it denotes, which need not be the one that was
written. But no number is nearer to the hundredth than that one, so it is rounded to it as well, and
is written as the text that it was read from.

* `Double.value`: the rational number that a double is;
* `Double.text_of_rounds`: the text from the hundredth;
* `Double.IsReading`, `Double.exists_isReading`: the numbers as which a rational number is read;
* `Double.text_eq_text_iff`, `Double.text_of_isReading`: what is written alike;
* **`Double.numbers_printed`**: what is printed, for every finite number.
-/

namespace QrRender

/-- The text of a value is that of the units to which it is rounded. -/
theorem Exact.trimmed_of_rounds {negative : Bool} {num den places : Nat} {k : ℤ} (hden : 0 < den)
    (h : Rounds (10 ^ places * (Exact.finite negative num den).value) k) :
    (Exact.finite negative num den).trimmed places =
      String.ofList (Decimal.trimmedChars places (k < 0) k.natAbs) := by
  have hunits := (rounds_units negative num hden places).unique h
  rw [trimmed, Decimal.trimmedChars_natAbs negative _ hunits]

namespace Double

/-! ## 1. Values -/

/-- The rational number that a double is, if it is finite. -/
def value (x : Float) : ℚ := (Exact.ofFloat x).value

variable {x y : Float}

/-- A finite double is a fraction. -/
theorem exact_of_isFinite (hx : x.isFinite = true) :
    ∃ negative num den, 0 < den ∧ Exact.ofFloat x = .finite negative num den := by
  have hpos : ∀ k, 0 < Nat.pow 2 k := Nat.two_pow_pos
  have hunpacked : x.toModel.unpack.isFinite = true := hx
  rw [ofFloat_eq]
  generalize x.toModel.unpack = u at hunpacked
  cases u with
  | notANumber => exact absurd hunpacked (by decide)
  | infinity s => exact absurd hunpacked Bool.false_ne_true
  | zero s => exact ⟨_, _, _, hpos 1074, rfl⟩
  | finite s m e hm =>
    rw [exactOf]
    split
    · exact ⟨_, _, _, Nat.one_pos, rfl⟩
    · exact ⟨_, _, _, hpos _, rfl⟩

/-! ## 2. The hundredth -/

theorem ten_pow_two : (10 : ℚ) ^ 2 = 100 := by norm_num

/-- Every finite double is rounded to a hundredth. -/
theorem exists_rounds (hx : x.isFinite = true) : ∃ k, Rounds (100 * value x) k := by
  obtain ⟨negative, num, den, hden, hexact⟩ := exact_of_isFinite hx
  have h := Exact.rounds_units negative num hden 2
  rw [← hexact, ten_pow_two] at h
  exact ⟨_, h⟩

/-- **The text of a finite double is that of the hundredth to which it is rounded.** -/
theorem text_of_rounds {k : ℤ} (hx : x.isFinite = true) (h : Rounds (100 * value x) k) :
    Numeric.text x = String.ofList (Decimal.trimmedChars 2 (k < 0) k.natAbs) := by
  obtain ⟨negative, num, den, hden, hexact⟩ := exact_of_isFinite hx
  rw [value, hexact] at h
  show (Exact.ofFloat x).trimmed 2 = _
  rw [hexact]
  refine Exact.trimmed_of_rounds hden ?_
  rwa [ten_pow_two]

/-- The text of a finite double denotes the hundredth. -/
theorem denoted_text {k : ℤ} (hx : x.isFinite = true) (h : Rounds (100 * value x) k) :
    Decimal.denoted (Numeric.text x).toList = k / 100 := by
  have hk : (if k < 0 then -(k.natAbs : ℤ) else k.natAbs) = k := by omega
  rw [text_of_rounds hx h, String.toList_ofList, Decimal.denoted_trimmedChars _ _ (by decide)]
  simp only [decide_eq_true_eq]
  rw [hk, ten_pow_two]

/-- **Two finite doubles are written alike if and only if they are rounded to the same
    hundredth.** -/
theorem text_eq_text_iff (hx : x.isFinite = true) (hy : y.isFinite = true) :
    Numeric.text x = Numeric.text y ↔
      ∃ k, Rounds (100 * value x) k ∧ Rounds (100 * value y) k := by
  constructor
  · intro htext
    obtain ⟨k, hk⟩ := exists_rounds hx
    obtain ⟨l, hl⟩ := exists_rounds hy
    have hdenoted : (k : ℚ) / 100 = l / 100 := by
      rw [← denoted_text hx hk, ← denoted_text hy hl, htext]
    have hkl : k = l := by
      rw [div_left_inj' (by norm_num)] at hdenoted
      exact_mod_cast hdenoted
    exact ⟨k, hk, hkl ▸ hl⟩
  · rintro ⟨k, hk, hl⟩
    rw [text_of_rounds hx hk, text_of_rounds hy hl]

/-- An integer is written as its digits. -/
theorem text_int {n : ℤ} (hx : x.isFinite = true) (h : value x = n) : Numeric.text x = n.repr := by
  have hrounds : Rounds (100 * value x) (n * 10 ^ 2) := by
    have hcast : 100 * value x = (n * 10 ^ 2 : ℤ) := by
      rw [h]
      push_cast
      ring
    rw [hcast]
    exact Rounds.of_int _
  rw [text_of_rounds hx hrounds, Decimal.trimmedChars_int, String.ofList_toList]

/-! ## 3. Reading -/

/-- The double is a reading of the rational number: none that is finite is nearer. -/
structure IsReading (q : ℚ) (y : Float) : Prop where
  isFinite : y.isFinite = true
  nearest : ∀ z : Float, z.isFinite = true → |value y - q| ≤ |value z - q|

instance finiteFloat : Finite Float :=
  Finite.of_injective (fun x : Float => x.toBits.toBitVec.toFin) fun _ _ h =>
    eq_of_toBits_eq (UInt64.toBitVec_inj.mp (BitVec.toFin_inj.mp h))

/-- Every rational number has a reading. -/
theorem exists_isReading (q : ℚ) : ∃ y, IsReading q y := by
  have hzero : (0 : Float).isFinite = true := by decide +kernel
  have : Nonempty {z : Float // z.isFinite = true} := ⟨⟨0, hzero⟩⟩
  obtain ⟨⟨y, hy⟩, hnearest⟩ :=
    Finite.exists_min fun z : {z : Float // z.isFinite = true} => |value z - q|
  exact ⟨y, hy, fun z hz => hnearest ⟨z, hz⟩⟩

/-- **Every reading of a text is written as the text.** -/
theorem text_of_isReading (hx : x.isFinite = true)
    (hy : IsReading (Decimal.denoted (Numeric.text x).toList) y) :
    Numeric.text y = Numeric.text x := by
  obtain ⟨k, hk⟩ := exists_rounds hx
  have hnear := hy.nearest x hx
  rw [denoted_text hx hk] at hnear
  have hscale : ∀ q : ℚ, |100 * q - k| = 100 * |q - k / 100| := by
    intro q
    have hfactor : 100 * q - k = 100 * (q - k / 100) := by ring
    rw [hfactor, abs_mul, abs_of_pos (by norm_num : (0 : ℚ) < 100)]
  have hscaled : |100 * value y - k| ≤ |100 * value x - k| := by
    rw [hscale, hscale]
    linarith
  rw [text_of_rounds hy.isFinite (hk.of_nearer hscaled), text_of_rounds hx hk]

/-! ## 4. All that is printed -/

/-- **A finite number is printed as a plain decimal with two places at most, which denotes the
    hundredth that it is rounded to.** There is a reading of the text, and every reading is printed
    as the text again. Numbers are printed alike if and only if they are rounded to the same
    hundredth, and integers as their digits. -/
theorem numbers_printed (hx : x.isFinite = true) :
    Decimal.IsPlain 2 (Numeric.text x).toList ∧
      (∃ k : ℤ, Rounds (100 * value x) k ∧
        Decimal.denoted (Numeric.text x).toList = k / 100) ∧
      (∃ y, IsReading (Decimal.denoted (Numeric.text x).toList) y) ∧
      (∀ y, IsReading (Decimal.denoted (Numeric.text x).toList) y →
        Numeric.text y = Numeric.text x) ∧
      (∀ y : Float, y.isFinite = true → (Numeric.text x = Numeric.text y ↔
        ∃ k, Rounds (100 * value x) k ∧ Rounds (100 * value y) k)) ∧
      ∀ n : ℤ, value x = n → Numeric.text x = n.repr := by
  obtain ⟨k, hk⟩ := exists_rounds hx
  refine ⟨?plain, ⟨k, hk, denoted_text hx hk⟩, exists_isReading _, fun _ => text_of_isReading hx,
    fun _ => text_eq_text_iff hx, fun _ => text_int hx⟩
  case plain =>
    rw [text_of_rounds hx hk, String.toList_ofList]
    exact Decimal.isPlain_trimmedChars _ _ (by decide)

/-- The eighth is the midpoint of two hundredths, of which the even one is printed. -/
theorem numbers_printed_eighth : ((1 : Float) / 8).isFinite = true ∧
    Numeric.text ((1 : Float) / 8) = "0.12" ∧
      Decimal.IsPlain 2 (Numeric.text ((1 : Float) / 8)).toList :=
  ⟨by decide +kernel, by decide +kernel, (numbers_printed (by decide +kernel)).1⟩

end Double

end QrRender
