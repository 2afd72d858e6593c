import QrRender.Decimal.Exact

/-!
# Decimal text with a fixed number of places

`fixed` writes a value with exactly `places` digits after the point: the exact value is rounded to
that many places, a midpoint to the even neighbour, and a negative sign is kept even where the
rounded value is zero. `trimmed` writes the same rounded value without trailing zeros, without a
point that nothing follows, and without the sign of a zero.
-/

namespace QrRender.Decimal

/-- The decimal digits of a number. -/
def digits (n : Nat) : List Char := Nat.toDigits 10 n

/-- The digits of `n` with zeros in front up to `places` characters. -/
def padded (places n : Nat) : List Char :=
  List.replicate (places - (digits n).length) '0' ++ digits n

/-- The characters without the zeros at their end. -/
def trimZeros : List Char → List Char
  | [] => []
  | c :: cs => if c = '0' ∧ trimZeros cs = [] then [] else c :: trimZeros cs

/-- The characters of `units / 10 ^ places` with all places. -/
def fixedChars (places : Nat) (negative : Bool) (units : Nat) : List Char :=
  (if negative then ['-'] else []) ++ digits (units / Nat.pow 10 places)
    ++ '.' :: padded places (units % Nat.pow 10 places)

/-- The characters of `units / 10 ^ places` with no more places than it needs. -/
def trimmedChars (places : Nat) (negative : Bool) (units : Nat) : List Char :=
  let fraction := trimZeros (padded places (units % Nat.pow 10 places))
  (if negative && units != 0 then ['-'] else []) ++ digits (units / Nat.pow 10 places)
    ++ (if fraction = [] then [] else '.' :: fraction)

/-- The characters of a value that is not finite. -/
def infiniteChars (negative : Bool) : List Char :=
  (if negative then ['-'] else []) ++ ['i', 'n', 'f']

end QrRender.Decimal

namespace QrRender.Exact

open Decimal

/-- The magnitude in units of the last of `places` places, a midpoint going to the even one. -/
def units (places num den : Nat) : Nat := roundEven (num * Nat.pow 10 places) den

/-- The value with exactly `places` places. -/
def fixed (places : Nat) : Exact → String
  | .nan => "NaN"
  | .infinite negative => String.ofList (infiniteChars negative)
  | .finite negative num den => String.ofList (fixedChars places negative (units places num den))

/-- The value with at most `places` places. -/
def trimmed (places : Nat) : Exact → String
  | .nan => "NaN"
  | .infinite negative => String.ofList (infiniteChars negative)
  | .finite negative num den => String.ofList (trimmedChars places negative (units places num den))

end QrRender.Exact
