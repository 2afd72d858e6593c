import QrRender.Color.Hex

/-!
# Hexadecimal colours, read back

What is written of a colour can be read back, but for its alpha: a colour without one is read as
opaque.

* `Hex.value?_digit`, `Hex.number?_byteChars`: digits and bytes;
* `Rgba.solid`: the opaque colour with the same three channels;
* **`Rgba.ofHex?_toHex`**: a written colour is read as its opaque version;
* `Rgba.toHex_inj`: two colours are written alike exactly if they differ in alpha at most.
-/

namespace QrRender

namespace Hex

theorem value?_digit {n : Nat} (h : n < 16) : value? (digit n) = some n := by
  revert n
  decide

/-- No digit is a sign. -/
theorem digit_ne_plus {n : Nat} (h : n < 16) : digit n ≠ '+' := by
  revert n
  decide

/-- Without a sign in front, all of a place is digits. -/
theorem number?_of_ne_plus {c : Char} {cs : List Char} (h : c ≠ '+') :
    number? (c :: cs) = digits? 0 (c :: cs) := by
  unfold number?
  split
  · rename_i heq
    cases heq
  · rename_i heq
    exact absurd (List.cons.inj heq).1 h
  · rename_i heq
    exact absurd (List.cons.inj heq).1 h
  · rfl

theorem number?_digits {m n : Nat} (hm : m < 16) (hn : n < 16) :
    number? [digit m, digit n] = some (16 * m + n) := by
  rw [number?_of_ne_plus (digit_ne_plus hm)]
  simp only [digits?, value?_digit hm, value?_digit hn]
  rw [Nat.mul_zero, Nat.zero_add]

/-- A byte is read as it was written. -/
theorem number?_byteChars (b : UInt8) : number? (byteChars b) = some b.toNat := by
  have hb := b.toNat_lt
  rw [byteChars, number?_digits (by omega) (by omega), Nat.div_add_mod]

end Hex

namespace Rgba

open Hex

/-- The opaque colour with the same red, green and blue. -/
def solid (c : Rgba) : Rgba := { c with alpha := 255 }

theorem solid_eq_self {c : Rgba} : c.solid = c ↔ c.isOpaque = true := by
  rw [isOpaque, beq_iff_eq]
  constructor
  · intro h
    exact congrArg alpha h.symm
  · intro h
    rw [solid, ← h]

theorem isOpaque_solid (c : Rgba) : c.solid.isOpaque = true := rfl

theorem ofHexChars?_hexChars (c : Rgba) : ofHexChars? c.hexChars = some c.solid := by
  show (do
    let r ← number? (byteChars c.red)
    let g ← number? (byteChars c.green)
    let b ← number? (byteChars c.blue)
    return (⟨UInt8.ofNat r, UInt8.ofNat g, UInt8.ofNat b, 255⟩ : Rgba)) = _
  rw [number?_byteChars, number?_byteChars, number?_byteChars]
  simp only [Option.pure_def, Option.bind_eq_bind, Option.bind_some, UInt8.ofNat_toNat]
  rfl

/-- **A colour is read back without its alpha.** -/
theorem ofHex?_toHex (c : Rgba) : ofHex? c.toHex = some c.solid := by
  rw [ofHex?, toHex, String.toList_ofList, ofHexChars?_hexChars]

/-- Colours that are written alike differ in alpha at most. -/
theorem toHex_inj {c d : Rgba} : c.toHex = d.toHex ↔ c.solid = d.solid := by
  constructor
  · intro h
    have hread := ofHex?_toHex c
    rw [h, ofHex?_toHex d] at hread
    exact (Option.some.inj hread).symm
  · intro h
    show c.solid.toHex = d.solid.toHex
    rw [h]

end Rgba

end QrRender
