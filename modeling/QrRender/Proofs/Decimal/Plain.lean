import Mathlib.Algebra.Order.Field.Basic
import Mathlib.Algebra.Order.Field.Rat
import Mathlib.Data.List.TakeWhile
import Mathlib.Tactic.FieldSimp
import Mathlib.Tactic.Ring
import QrRender.Decimal.Fixed

/-!
# Plain decimals

A plain decimal is a minus or nothing, digits, and maybe a point with digits behind it. It has no
exponent, and it is as short as it can be: no zero stands in front of other digits before the point,
none at the end behind it, no point without digits behind it, and no minus in front of a zero. This
is said of a text by its parts. What a decimal denotes is read off the text, without knowing how it
was written.

Trimming a fraction takes away what does not count: the zeros at its end, and all of it if it is
zeros only. The zeros of the part before the point are not touched, since it is written by itself.

* `Decimal.Plain`, `Decimal.IsPlain`: plain decimals with so many places at most;
* `Decimal.denoted`: the number that a decimal denotes;
* `Decimal.head?_digits`, `Decimal.trimZeros_spec`: digits and what is left of them;
* **`Decimal.isPlain_trimmedChars`**, **`Decimal.denoted_trimmedChars`**: trimmed decimals are plain,
  and denote what was to be written;
* `Decimal.trimmedChars_natAbs`, `Decimal.trimmedChars_int`: signs, and integers.
-/

namespace QrRender.Decimal

/-! ## 1. Plain decimals and what they denote -/

/-- The characters of a decimal from its parts. -/
def written (negative : Bool) (whole fraction : List Char) : List Char :=
  (if negative then ['-'] else []) ++ whole ++ (if fraction = [] then [] else '.' :: fraction)

/-- The parts of a plain decimal with so many places at most. -/
structure Plain (places : Nat) (negative : Bool) (whole fraction : List Char) : Prop where
  whole_ne_nil : whole ≠ []
  isDigit_whole : ∀ c ∈ whole, c.isDigit = true
  /-- A zero stands before the point only where nothing else does. -/
  leading : whole.head? = some '0' → whole = ['0']
  isDigit_fraction : ∀ c ∈ fraction, c.isDigit = true
  length_fraction : fraction.length ≤ places
  trailing : fraction.getLast? ≠ some '0'
  /-- Zero has no sign. -/
  sign : negative = true → whole ≠ ['0'] ∨ fraction ≠ []

/-- The characters are those of a plain decimal with so many places at most. -/
def IsPlain (places : Nat) (cs : List Char) : Prop :=
  ∃ negative whole fraction, cs = written negative whole fraction ∧
    Plain places negative whole fraction

/-- The natural number that a row of digits denotes. -/
def numeral (cs : List Char) : Nat := Nat.ofDigitChars 10 cs 0

/-- The number that a decimal without a sign denotes: that of its digits before the point, and that
    of its digits behind it in units of the last place. -/
def magnitude (cs : List Char) : ℚ :=
  let whole := cs.takeWhile (· ≠ '.')
  let fraction := (cs.dropWhile (· ≠ '.')).tail
  numeral whole + numeral fraction / 10 ^ fraction.length

/-- The number that a decimal denotes. -/
def denoted : List Char → ℚ
  | '-' :: cs => -magnitude cs
  | cs => magnitude cs

/-- A digit is no other character. -/
theorem ne_of_isDigit {c d : Char} (hc : c.isDigit = true) (hd : d.isDigit = false) : c ≠ d := by
  rintro rfl
  exact absurd (hc.symm.trans hd) (by decide)

theorem magnitude_written {whole fraction : List Char} (hwhole : ∀ c ∈ whole, c.isDigit = true) :
    magnitude (written false whole fraction) =
      numeral whole + numeral fraction / 10 ^ fraction.length := by
  have hpoint : ∀ c ∈ whole, decide (c ≠ '.') = true :=
    fun c hc => decide_eq_true (ne_of_isDigit (hwhole c hc) rfl)
  unfold magnitude written
  simp only [Bool.false_eq_true, if_false, List.nil_append]
  split
  · rename_i hnone
    have hwhole' : whole.takeWhile (fun c => decide (c ≠ '.')) = whole :=
      List.takeWhile_eq_self_iff.mpr hpoint
    have hrest : whole.dropWhile (fun c => decide (c ≠ '.')) = [] :=
      List.dropWhile_eq_nil_iff.mpr hpoint
    rw [List.append_nil, hwhole', hrest, hnone]
    rfl
  · rw [List.takeWhile_append_of_pos hpoint, List.dropWhile_append_of_pos hpoint,
      List.takeWhile_cons_of_neg (by decide), List.dropWhile_cons_of_neg (by decide),
      List.append_nil, List.tail_cons]

theorem denoted_written {negative : Bool} {whole fraction : List Char} (hne : whole ≠ [])
    (hwhole : ∀ c ∈ whole, c.isDigit = true) :
    denoted (written negative whole fraction) =
      if negative then -magnitude (written false whole fraction)
      else magnitude (written false whole fraction) := by
  cases negative with
  | true => rfl
  | false =>
    obtain ⟨c, rest, rfl⟩ := List.exists_cons_of_ne_nil hne
    have hc : c ≠ '-' := ne_of_isDigit (hwhole c List.mem_cons_self) rfl
    show denoted (c :: (rest ++ _)) = magnitude (c :: (rest ++ _))
    rw [denoted]
    rintro cs heq
    exact hc (List.cons_eq_cons.mp heq).1

/-! ## 2. Digits -/

theorem isDigit_of_mem_digits {n : Nat} {c : Char} (h : c ∈ digits n) : c.isDigit = true :=
  Nat.isDigit_of_mem_toDigits (by decide) (by decide) h

theorem digits_ne_nil {n : Nat} : digits n ≠ [] := Nat.toDigits_ne_nil

theorem numeral_digits (n : Nat) : numeral (digits n) = n := Nat.ofDigitChars_ten_toDigits

/-- No number but zero begins with a zero. -/
theorem head?_digits {n : Nat} (hn : n ≠ 0) : (digits n).head? ≠ some '0' := by
  induction n using Nat.strongRecOn with
  | ind n ih =>
    rw [digits, Nat.toDigits_eq_if (by decide)]
    split
    · rename_i hlt
      rw [List.head?_cons, ne_eq, Option.some_inj, Nat.digitChar_eq_zero]
      exact hn
    · rename_i hge
      have hhigh : n / 10 ≠ 0 := by omega
      rw [List.head?_append_of_ne_nil _ Nat.toDigits_ne_nil]
      exact ih (n / 10) (by omega) hhigh

theorem numeral_append (cs ds : List Char) :
    numeral (cs ++ ds) = 10 ^ ds.length * numeral cs + numeral ds := by
  rw [numeral, Nat.ofDigitChars_append, Nat.ofDigitChars_eq_ofDigitChars_zero]
  rfl

/-- What is cut off by trimming are zeros, and there is no zero at the end of what is left. -/
theorem trimZeros_spec (cs : List Char) :
    (∃ n, cs = trimZeros cs ++ List.replicate n '0') ∧ (trimZeros cs).getLast? ≠ some '0' := by
  induction cs with
  | nil => exact ⟨⟨0, rfl⟩, nofun⟩
  | cons c cs ih =>
    obtain ⟨⟨n, hn⟩, hlast⟩ := ih
    rw [trimZeros]
    split
    · rename_i hzero
      refine ⟨⟨n + 1, ?_⟩, nofun⟩
      rw [hzero.2, List.nil_append] at hn
      rw [hn, hzero.1]
      rfl
    · rename_i hkept
      refine ⟨⟨n, by rw [List.cons_append, ← hn]⟩, ?_⟩
      intro hend
      by_cases hnone : trimZeros cs = []
      · rw [hnone] at hend
        exact hkept ⟨Option.some_inj.mp hend, hnone⟩
      · rw [List.getLast?_cons_of_ne_nil hnone] at hend
        exact hlast hend

theorem isDigit_trimZeros {cs : List Char} (h : ∀ c ∈ cs, c.isDigit = true) :
    ∀ c ∈ trimZeros cs, c.isDigit = true := by
  obtain ⟨⟨n, hn⟩, -⟩ := trimZeros_spec cs
  intro c hc
  exact h c (hn ▸ List.mem_append_left _ hc)

theorem length_trimZeros_le (cs : List Char) : (trimZeros cs).length ≤ cs.length := by
  obtain ⟨⟨n, hn⟩, -⟩ := trimZeros_spec cs
  calc (trimZeros cs).length ≤ (trimZeros cs ++ List.replicate n '0').length := by
        rw [List.length_append]
        exact Nat.le_add_right ..
    _ = cs.length := congrArg List.length hn.symm

/-- Trimming a fraction does not change what it denotes. -/
theorem numeral_trimZeros (cs : List Char) :
    (numeral (trimZeros cs) : ℚ) / 10 ^ (trimZeros cs).length = numeral cs / 10 ^ cs.length := by
  obtain ⟨⟨n, hn⟩, -⟩ := trimZeros_spec cs
  have hzeros : numeral (List.replicate n '0') = 0 := Nat.ofDigitChars_replicate_zero
  generalize trimZeros cs = kept at hn ⊢
  subst hn
  rw [numeral_append, hzeros, Nat.add_zero, List.length_append, List.length_replicate, pow_add]
  push_cast
  field_simp

section

variable {places n : Nat}

theorem isDigit_of_mem_padded {c : Char} (h : c ∈ padded places n) : c.isDigit = true := by
  rcases List.mem_append.mp h with h | h
  · rw [List.eq_of_mem_replicate h]
    rfl
  · exact isDigit_of_mem_digits h

/-- A fraction below one has as many places as it is given. -/
theorem length_padded (hplaces : 0 < places) (hn : n < 10 ^ places) :
    (padded places n).length = places := by
  have hdigits : (digits n).length ≤ places :=
    (Nat.length_toDigits_le_iff (by decide) hplaces).mpr hn
  rw [padded, List.length_append, List.length_replicate]
  omega

theorem numeral_padded : numeral (padded places n) = n := by
  have hzeros : numeral (List.replicate (places - (digits n).length) '0') = 0 :=
    Nat.ofDigitChars_replicate_zero
  rw [padded, numeral_append, hzeros, Nat.mul_zero, Nat.zero_add, numeral_digits]

end

/-- Zeros are trimmed away, as long as nothing else stands behind them. -/
theorem trimZeros_eq_nil {cs : List Char} (h : ∀ c ∈ cs, c = '0') : trimZeros cs = [] := by
  induction cs with
  | nil => rfl
  | cons c cs ih =>
    rw [trimZeros, if_pos ⟨h c List.mem_cons_self, ih fun c hc => h c (List.mem_cons_of_mem _ hc)⟩]

/-- Zero is written in zeros. -/
theorem eq_zero_of_mem_padded {places : Nat} {c : Char} (h : c ∈ padded places 0) : c = '0' := by
  rcases List.mem_append.mp h with h | h
  · exact List.eq_of_mem_replicate h
  · exact List.mem_singleton.mp h

/-! ## 3. Trimmed decimals -/

section

variable (places : Nat) (negative : Bool) (units : Nat)

/-- The digits of a trimmed decimal behind the point. -/
def fraction : List Char := trimZeros (padded places (units % Nat.pow 10 places))

theorem trimmedChars_eq_written : trimmedChars places negative units =
    written (negative && units != 0) (digits (units / Nat.pow 10 places)) (fraction places units) :=
  rfl

variable {places}

/-- Nothing but zero has neither digits behind the point nor another digit than zero before it. -/
theorem eq_zero_of_digits_eq (hwhole : digits (units / Nat.pow 10 places) = ['0'])
    (hfraction : fraction places units = []) : units = 0 := by
  have hhigh : units / Nat.pow 10 places = 0 := by
    rw [← numeral_digits (units / Nat.pow 10 places), hwhole]
    rfl
  have hlow : units % Nat.pow 10 places = 0 := by
    have hvalue := numeral_trimZeros (padded places (units % Nat.pow 10 places))
    rw [← fraction, hfraction, numeral_padded] at hvalue
    have hzero : (0 : ℚ) = (units % Nat.pow 10 places : Nat) := by
      simpa [numeral, eq_div_iff] using hvalue
    exact_mod_cast hzero.symm
  rw [← Nat.div_add_mod units (Nat.pow 10 places), hhigh, hlow, Nat.mul_zero]

/-- **A trimmed decimal is plain.** -/
theorem isPlain_trimmedChars (hplaces : 0 < places) :
    IsPlain places (trimmedChars places negative units) := by
  have hpow : 0 < Nat.pow 10 places := Nat.pow_pos (by decide)
  refine ⟨_, _, _, trimmedChars_eq_written places negative units, ?_⟩
  constructor
  case whole_ne_nil => exact digits_ne_nil
  case isDigit_whole => exact fun _ => isDigit_of_mem_digits
  case leading =>
    intro hzero
    by_cases hhigh : units / Nat.pow 10 places = 0
    · rw [hhigh]
      rfl
    · exact absurd hzero (head?_digits hhigh)
  case isDigit_fraction => exact isDigit_trimZeros fun _ => isDigit_of_mem_padded
  case length_fraction =>
    exact (length_trimZeros_le _).trans (length_padded hplaces (Nat.mod_lt units hpow)).le
  case trailing => exact (trimZeros_spec _).2
  case sign =>
    intro hsign
    by_contra hnone
    obtain ⟨hwhole, hfraction⟩ := not_or.mp hnone
    have hzero := eq_zero_of_digits_eq units (not_not.mp hwhole) (not_not.mp hfraction)
    rw [hzero, Bool.and_comm] at hsign
    exact absurd hsign Bool.false_ne_true

/-- **A trimmed decimal denotes what was to be written.** -/
theorem denoted_trimmedChars (hplaces : 0 < places) :
    denoted (trimmedChars places negative units) =
      (if negative then -(units : ℤ) else units : ℤ) / 10 ^ places := by
  have hpow : 0 < Nat.pow 10 places := Nat.pow_pos (by decide)
  have hlength : (padded places (units % Nat.pow 10 places)).length = places :=
    length_padded hplaces (Nat.mod_lt units hpow)
  have hparts : (units : ℚ) =
      10 ^ places * (units / Nat.pow 10 places : Nat) + (units % Nat.pow 10 places : Nat) := by
    exact_mod_cast (Nat.div_add_mod units (Nat.pow 10 places)).symm
  have hmagnitude : magnitude (written false (digits (units / Nat.pow 10 places))
      (fraction places units)) = units / 10 ^ places := by
    rw [magnitude_written fun _ => isDigit_of_mem_digits, fraction, numeral_trimZeros,
      numeral_padded, numeral_digits, hlength, hparts]
    field_simp
  rw [trimmedChars_eq_written, denoted_written digits_ne_nil fun _ => isDigit_of_mem_digits,
    hmagnitude]
  cases negative with
  | false => rfl
  | true =>
    rw [Bool.true_and, if_pos rfl]
    split
    · push_cast
      ring
    · rename_i hzero
      have hunits : units = 0 := by simpa using hzero
      rw [hunits]
      simp

/-- A number of whole units has no digits behind the point. -/
theorem trimmedChars_mul (n : Nat) : trimmedChars places negative (n * Nat.pow 10 places) =
    (if negative && n != 0 then ['-'] else []) ++ digits n := by
  have hpow : 0 < Nat.pow 10 places := Nat.pow_pos (by decide)
  have hfraction : fraction places (n * Nat.pow 10 places) = [] := by
    rw [fraction, Nat.mul_mod_left]
    exact trimZeros_eq_nil fun _ => eq_zero_of_mem_padded
  have hsign : (n * Nat.pow 10 places != 0) = (n != 0) := by
    rw [Bool.eq_iff_iff, bne_iff_ne, bne_iff_ne]
    exact ⟨fun h hn => h (by rw [hn, Nat.zero_mul]), fun h => Nat.mul_ne_zero h hpow.ne'⟩
  rw [trimmedChars_eq_written, hfraction, hsign, Nat.mul_div_cancel n hpow, written, if_pos rfl,
    List.append_nil]

/-- It does not matter how the sign is kept beside the units. -/
theorem trimmedChars_natAbs {k : ℤ} (hk : (if negative then -(units : ℤ) else units) = k) :
    trimmedChars places negative units = trimmedChars places (k < 0) k.natAbs := by
  subst hk
  cases negative with
  | false => simp [trimmedChars]
  | true =>
    have hsign : (units != 0) = (decide (-(units : ℤ) < 0) && units != 0) := by
      rw [Bool.eq_iff_iff]
      simp
      omega
    rw [if_pos rfl, Int.natAbs_neg, Int.natAbs_natCast, trimmedChars_eq_written,
      trimmedChars_eq_written, Bool.true_and, ← hsign]

/-- **An integer is written as its digits, with a minus in front if it is negative.** -/
theorem trimmedChars_int (n : ℤ) :
    trimmedChars places (n * 10 ^ places < 0) (n * 10 ^ places).natAbs = n.repr.toList := by
  have habs : (n * 10 ^ places).natAbs = n.natAbs * Nat.pow 10 places := by
    rw [Int.natAbs_mul, Int.natAbs_pow]
    rfl
  have hpow : (0 : ℤ) < 10 ^ places := Int.pow_pos (by decide)
  have hneg : n * 10 ^ places < 0 ↔ n < 0 := by
    rw [← not_le, mul_nonneg_iff_of_pos_right hpow, not_le]
  rw [habs, trimmedChars_mul, Int.repr_eq_if]
  by_cases hsign : 0 ≤ n
  · have hnat : n.natAbs = n.toNat := by omega
    have hplus : ¬(decide (n * 10 ^ places < 0) && n.natAbs != 0) = true := by
      rw [Bool.and_eq_true, decide_eq_true_iff, hneg]
      exact fun h => absurd h.1 (not_lt.mpr hsign)
    rw [if_neg hplus, if_pos hsign, hnat, Nat.toList_repr]
    rfl
  · have hnat : n.natAbs = (-n).toNat := by omega
    have hminus : (decide (n * 10 ^ places < 0) && n.natAbs != 0) = true := by
      rw [Bool.and_eq_true, decide_eq_true_iff, bne_iff_ne, hneg]
      omega
    rw [if_pos hminus, if_neg hsign, hnat, String.toList_append, Nat.toList_repr]
    rfl

end

end QrRender.Decimal
