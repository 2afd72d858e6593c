/-!
# The exact value of a number

Text and pixel positions are decided from the exact value of a number and not from a second
rounding of it. `Exact` is that value: a fraction of natural numbers with a sign, an infinity, or
no number at all. The sign is kept beside the fraction, because a zero can carry one.

`Exact.ofFloat` reads the value off the 64 bits of a double: with a biased exponent `e` and a
fraction `m`, the magnitude is `m * 2 ^ -1074` if `e` is zero and `(2 ^ 52 + m) * 2 ^ (e - 1075)`
otherwise; the largest exponent is kept for the infinities and for what is no number.

The two ways to round a fraction to a natural number differ only at the midpoint.
-/

namespace QrRender

/-- The exact value of a number. A finite one is `num / den`, negated if `negative`. -/
inductive Exact where
  | nan
  | infinite (negative : Bool)
  | finite (negative : Bool) (num den : Nat)
  deriving DecidableEq

namespace Exact

/-- The value that the bits of a double denote. -/
def ofFloat (x : Float) : Exact :=
  let bits := x.toBits.toNat
  let negative := bits / Nat.pow 2 63 == 1
  let e := bits / Nat.pow 2 52 % 2048
  let m := bits % Nat.pow 2 52
  if e = 2047 then
    if m = 0 then .infinite negative else .nan
  else if e = 0 then .finite negative m (Nat.pow 2 1074)
  else if 1075 ≤ e then .finite negative ((m + Nat.pow 2 52) * Nat.pow 2 (e - 1075)) 1
  else .finite negative (m + Nat.pow 2 52) (Nat.pow 2 (1075 - e))

/-- The natural number nearest `num / den`; a midpoint goes to the even one. -/
def roundEven (num den : Nat) : Nat :=
  let q := num / den
  let twice := 2 * (num % den)
  if twice > den ∨ (twice = den ∧ q % 2 = 1) then q + 1 else q

/-- The natural number nearest `num / den`; a midpoint goes up. -/
def roundUp (num den : Nat) : Nat := (2 * num + den) / (2 * den)

/-- The number is finite. -/
def isFinite : Exact → Bool
  | .finite _ _ _ => true
  | _ => false

/-- The greatest natural number not above the value; zero where there is none. -/
def floor : Exact → Nat
  | .finite false num den => num / den
  | _ => 0

/-- The natural number nearest the value, a midpoint going up; zero for a negative value and for
    one that is not finite. -/
def nearest : Exact → Nat
  | .finite false num den => roundUp num den
  | _ => 0

/-- The integer nearest the value, a midpoint going away from zero; zero for a value that is not
    finite. -/
def round : Exact → Int
  | .finite false num den => roundUp num den
  | .finite true num den => -(roundUp num den : Int)
  | _ => 0

end Exact

end QrRender
