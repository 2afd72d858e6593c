import Mathlib.Algebra.Order.Field.Basic
import Mathlib.Data.Prod.Lex
import QrRender.Numeric

/-!
# Exact numbers with infinities

Doubles hold more than numbers: two infinities, and values that are no numbers. `Extended K` adds
them to the numbers of an ordered field, so that laws of exact arithmetic can be stated for all that
can be given to a program. Where both arguments are numbers, the operations are those of the field;
otherwise they follow the rules that doubles follow: what is no number stays none and compares with
nothing, and an infinity outweighs every number. There is one zero, without a sign.

The order is read off a rank: the kind of the value, then the number. The total order is that of
ranks; comparison is the same on all that is a number or an infinity.

* `Extended.finite_sub`, `Extended.finite_div`, `Extended.finite_le` and the like: numbers;
* `Extended.le_trans`, `Extended.le_or_le`, `Extended.not_le_iff`: comparison;
* `Extended.totalLe_trans`, `Extended.totalLe_total`: the total order.
-/

namespace QrRender

/-- A number of `K`, an infinity, or no number. -/
inductive Extended (K : Type) where
  | nan
  | infinite (negative : Bool)
  | finite (x : K)

namespace Extended

variable {K : Type}

/-- The value is a number or an infinity. -/
def compares : Extended K → Bool
  | nan => false
  | _ => true

theorem compares_iff {a : Extended K} : a.compares = true ↔ a ≠ nan := by
  cases a with
  | nan => exact iff_of_false Bool.false_ne_true fun h => h rfl
  | infinite negative => exact iff_of_true rfl nofun
  | finite x => exact iff_of_true rfl nofun

theorem finite_ne_nan {x : K} : finite x ≠ nan := nofun

/-! ## 1. Operations -/

section Operations

variable [Field K] [LinearOrder K]

/-- The number with the other sign. -/
def neg : Extended K → Extended K
  | nan => nan
  | infinite negative => infinite (!negative)
  | finite x => finite (-x)

/-- The sum; opposite infinities have none. -/
def add : Extended K → Extended K → Extended K
  | finite x, finite y => finite (x + y)
  | infinite m, infinite n => if m = n then infinite m else nan
  | infinite m, finite _ => infinite m
  | finite _, infinite n => infinite n
  | _, _ => nan

/-- The value is below zero. -/
def isNegative : Extended K → Bool
  | nan => false
  | infinite negative => negative
  | finite x => x < 0

/-- The value is zero. -/
def isZero : Extended K → Bool
  | finite x => x = 0
  | _ => false

/-- The product; an infinity times zero has none. -/
def mul : Extended K → Extended K → Extended K
  | finite x, finite y => finite (x * y)
  | nan, _ => nan
  | _, nan => nan
  | a, b => if a.isZero || b.isZero then nan else infinite (a.isNegative != b.isNegative)

/-- The quotient; zero by zero and infinity by infinity have none. -/
def div : Extended K → Extended K → Extended K
  | finite x, finite y =>
    if y = 0 then if x = 0 then nan else infinite (x < 0) else finite (x / y)
  | infinite m, finite y => infinite (m != decide (y < 0))
  | finite _, infinite _ => finite 0
  | _, _ => nan

/-- The rank in the total order: the kind of the value, then the number. -/
def rank : Extended K → Nat ×ₗ K
  | infinite true => toLex (0, 0)
  | finite x => toLex (1, x)
  | infinite false => toLex (2, 0)
  | nan => toLex (3, 0)

instance : Add (Extended K) := ⟨add⟩
instance : Sub (Extended K) := ⟨fun a b => add a (neg b)⟩
instance : Mul (Extended K) := ⟨mul⟩
instance : Div (Extended K) := ⟨div⟩
instance : NatCast (Extended K) := ⟨fun n => finite n⟩
instance : LE (Extended K) := ⟨fun a b => a.compares ∧ b.compares ∧ a.rank ≤ b.rank⟩
instance : LT (Extended K) := ⟨fun a b => a.compares ∧ b.compares ∧ a.rank < b.rank⟩
instance : DecidableLE (Extended K) := fun a b =>
  inferInstanceAs (Decidable (a.compares ∧ b.compares ∧ a.rank ≤ b.rank))
instance : DecidableLT (Extended K) := fun a b =>
  inferInstanceAs (Decidable (a.compares ∧ b.compares ∧ a.rank < b.rank))

/-- The total order: as compared, and behind everything what is no number. -/
def totalLe (a b : Extended K) : Bool := a.rank ≤ b.rank

instance numericExtended [Numeric K] : Numeric (Extended K) where
  exact
    | nan => .nan
    | infinite negative => .infinite negative
    | finite x => Numeric.exact x
  single
    | finite x => finite (Numeric.single x)
    | a => a
  sqrt
    | finite x => if x < 0 then nan else finite (Numeric.sqrt x)
    | infinite false => infinite false
    | _ => nan
  direction
    | finite x => (finite (Numeric.direction x).1, finite (Numeric.direction x).2)
    | _ => (nan, nan)
  totalLe := totalLe

end Operations

/-! ## 2. Numbers -/

section Arithmetic

variable [Field K] (x y : K)

theorem natCast_eq (n : Nat) : (n : Extended K) = finite (n : K) := rfl

theorem finite_add : (finite x + finite y : Extended K) = finite (x + y) := rfl

theorem finite_sub : (finite x - finite y : Extended K) = finite (x - y) :=
  congrArg finite (sub_eq_add_neg x y).symm

variable [LinearOrder K]

theorem finite_mul : (finite x * finite y : Extended K) = finite (x * y) := rfl

variable {x y}

theorem finite_div (hy : y ≠ 0) : (finite x / finite y : Extended K) = finite (x / y) :=
  if_neg hy

theorem rank_finite_le : (finite x).rank ≤ (finite y).rank ↔ x ≤ y := by
  simp only [rank, Prod.Lex.toLex_le_toLex, lt_irrefl, true_and, false_or]

theorem finite_le : (finite x : Extended K) ≤ finite y ↔ x ≤ y :=
  (and_iff_right rfl).trans ((and_iff_right rfl).trans rank_finite_le)

theorem finite_lt : (finite x : Extended K) < finite y ↔ x < y := by
  rw [← not_le, ← rank_finite_le, not_le]
  exact (and_iff_right rfl).trans (and_iff_right rfl)

end Arithmetic

/-! ## 3. Order -/

section Order

variable [Field K] [LinearOrder K] {a b c : Extended K}

theorem le_trans (hab : a ≤ b) (hbc : b ≤ c) : a ≤ c :=
  ⟨hab.1, hbc.2.1, hab.2.2.trans hbc.2.2⟩

theorem le_of_lt (h : a < b) : a ≤ b := ⟨h.1, h.2.1, h.2.2.le⟩

theorem lt_of_lt_of_le (hab : a < b) (hbc : b ≤ c) : a < c :=
  ⟨hab.1, hbc.2.1, hab.2.2.trans_le hbc.2.2⟩

theorem lt_of_le_of_lt (hab : a ≤ b) (hbc : b < c) : a < c :=
  ⟨hab.1, hbc.2.1, hab.2.2.trans_lt hbc.2.2⟩

/-- What compares does so one way or the other. -/
theorem le_or_le (ha : a ≠ nan) (hb : b ≠ nan) : a ≤ b ∨ b ≤ a := by
  have ha' := compares_iff.mpr ha
  have hb' := compares_iff.mpr hb
  exact (le_total a.rank b.rank).imp (fun h => ⟨ha', hb', h⟩) (fun h => ⟨hb', ha', h⟩)

theorem not_le_iff (ha : a ≠ nan) (hb : b ≠ nan) : ¬a ≤ b ↔ b < a := by
  have ha' := compares_iff.mpr ha
  have hb' := compares_iff.mpr hb
  constructor
  · intro h
    exact ⟨hb', ha', lt_of_not_ge fun hle => h ⟨ha', hb', hle⟩⟩
  · intro h hle
    exact not_le_of_gt h.2.2 hle.2.2

theorem not_le_of_lt (h : b < a) : ¬a ≤ b := fun hle => not_le_of_gt h.2.2 hle.2.2

/-- What compares is a number or an infinity. -/
theorem ne_nan_of_lt (h : a < b) : a ≠ nan ∧ b ≠ nan :=
  ⟨compares_iff.mp h.1, compares_iff.mp h.2.1⟩

theorem ne_nan_of_le (h : a ≤ b) : a ≠ nan ∧ b ≠ nan :=
  ⟨compares_iff.mp h.1, compares_iff.mp h.2.1⟩

/-- What lies between two numbers is a number. -/
theorem eq_finite_of_le_of_le {x y : K} (hx : finite x ≤ a) (hy : a ≤ finite y) :
    ∃ z, a = finite z := by
  cases a with
  | nan => exact absurd hx.2.1 Bool.false_ne_true
  | finite z => exact ⟨z, rfl⟩
  | infinite negative =>
    cases negative with
    | true => exact absurd hx.2.2 (by simp [rank, Prod.Lex.toLex_le_toLex])
    | false => exact absurd hy.2.2 (by simp [rank, Prod.Lex.toLex_le_toLex])

theorem totalLe_trans (hab : totalLe a b = true) (hbc : totalLe b c = true) :
    totalLe a c = true :=
  decide_eq_true ((of_decide_eq_true hab).trans (of_decide_eq_true hbc))

theorem totalLe_total (a b : Extended K) : (totalLe a b || totalLe b a) = true := by
  rw [Bool.or_eq_true, totalLe, totalLe, decide_eq_true_iff, decide_eq_true_iff]
  exact le_total a.rank b.rank

end Order

end Extended

end QrRender
