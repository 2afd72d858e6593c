import QrRender.Color

/-!
# Colours in hexadecimal

A colour is written `#rrggbb`, in lower case and without its alpha. It is read from three, six or
eight places: one digit a channel (each standing for itself twice), two digits a channel, or two
digits a channel with alpha last. A single `#` in front is optional.

Reading works on the list of characters, so that no question of byte boundaries arises: a
character outside the sixteen digits is refused wherever it stands.

A place of one or two characters holds an unsigned number, and a number may carry a plus sign: the
place `+f` reads as fifteen. A plus sign alone is no number.
-/

namespace QrRender.Hex

/-- The lower-case digit of a number below sixteen. -/
def digit (n : Nat) : Char :=
  if n < 10 then Char.ofNat (48 + n) else Char.ofNat (87 + n)

/-- The value of a digit of either case. -/
def value? (c : Char) : Option Nat :=
  let n := c.toNat
  if 48 ≤ n ∧ n ≤ 57 then some (n - 48)
  else if 97 ≤ n ∧ n ≤ 102 then some (n - 87)
  else if 65 ≤ n ∧ n ≤ 70 then some (n - 55)
  else none

/-- The number that the digits write, most significant first, on top of `acc`. -/
def digits? : Nat → List Char → Option Nat
  | acc, [] => some acc
  | acc, c :: cs =>
    match value? c with
    | some d => digits? (16 * acc + d) cs
    | none => none

/-- The number in one place: at least one digit, after an optional plus sign. -/
def number? : List Char → Option Nat
  | [] => none
  | ['+'] => none
  | '+' :: cs => digits? 0 cs
  | cs => digits? 0 cs

/-- The two digits of a byte. -/
def byteChars (b : UInt8) : List Char := [digit (b.toNat / 16), digit (b.toNat % 16)]

end QrRender.Hex

namespace QrRender.Rgba

open Hex

/-- The characters of `#rrggbb`. Alpha is dropped. -/
def hexChars (c : Rgba) : List Char :=
  '#' :: (byteChars c.red ++ byteChars c.green ++ byteChars c.blue)

/-- The colour as `#rrggbb`. Alpha is dropped. -/
def toHex (c : Rgba) : String := String.ofList c.hexChars

/-- The characters after an optional `#`. -/
def stripHash : List Char → List Char
  | '#' :: cs => cs
  | cs => cs

/-- The colour written in the places that follow the `#`. -/
def ofPlaces? : List Char → Option Rgba
  | [r, g, b] => do
    let r ← number? [r]
    let g ← number? [g]
    let b ← number? [b]
    return ⟨UInt8.ofNat (17 * r), UInt8.ofNat (17 * g), UInt8.ofNat (17 * b), 255⟩
  | [r, r', g, g', b, b'] => do
    let r ← number? [r, r']
    let g ← number? [g, g']
    let b ← number? [b, b']
    return ⟨UInt8.ofNat r, UInt8.ofNat g, UInt8.ofNat b, 255⟩
  | [r, r', g, g', b, b', a, a'] => do
    let r ← number? [r, r']
    let g ← number? [g, g']
    let b ← number? [b, b']
    let a ← number? [a, a']
    return ⟨UInt8.ofNat r, UInt8.ofNat g, UInt8.ofNat b, UInt8.ofNat a⟩
  | _ => none

/-- The colour that the characters write. -/
def ofHexChars? (cs : List Char) : Option Rgba := ofPlaces? (stripHash cs)

/-- The colour that the text writes, or `none`. -/
def ofHex? (s : String) : Option Rgba := ofHexChars? s.toList

end QrRender.Rgba
