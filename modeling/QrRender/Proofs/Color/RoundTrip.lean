import Mathlib.Data.List.Basic
import QrRender.Proofs.Color.Grammar

/-!
# Colours written and read back

A written colour is read as itself, made opaque. In the other direction a text of six digits is
written back as it was, but in lower case and with a `#` in front, whether it had one or not. Two
digits more are an alpha, and an alpha is all that they change.

What is read is settled by the grammar of colours, so that nothing here opens the reader: six digits
are three places, each place is a byte, and a byte is written with the two digits of its place.

* `Hex.alphabet`, `Hex.mem_alphabet_iff`: the characters that are digits;
* `Hex.IsDigit.toLower_eq`, `Hex.Place.byteChars_eq`: digits and places, written back;
* `Rgba.exists_places`, `Rgba.Places.hexChars_eq`: six digits are places, and are written back;
* `Rgba.Places.append`: six places and two more;
* **`Rgba.hex_round_trip`**: both directions.
-/

namespace QrRender

namespace Hex

/-! ## 1. Digits -/

/-- The characters that are digits. -/
def alphabet : List Char := "0123456789abcdefABCDEF".toList

/-- So many characters, all of them digits. -/
def AreDigits (n : Nat) (s : String) : Prop := s.length = n ∧ ∀ d ∈ s.toList, d ∈ alphabet

instance {n : Nat} {s : String} : Decidable (AreDigits n s) :=
  decidable_of_iff (s.length = n ∧ s.toList.Forall (· ∈ alphabet))
    (and_congr_right' List.forall_iff_forall_mem)

theorem exists_isDigit_of_mem : ∀ d ∈ alphabet, ∃ v < 16, IsDigit d v :=
  List.forall_iff_forall_mem.mp (by decide)

theorem digit_mem : ∀ v < 16, digit v ∈ alphabet ∧ (digit v).toUpper ∈ alphabet := by
  decide

/-- The digits are the characters that are the digit of some number. -/
theorem mem_alphabet_iff {d : Char} : d ∈ alphabet ↔ ∃ v, IsDigit d v := by
  constructor
  · intro h
    obtain ⟨v, -, hv⟩ := exists_isDigit_of_mem d h
    exact ⟨v, hv⟩
  · rintro ⟨v, hv, rfl | rfl⟩
    · exact (digit_mem v hv).1
    · exact (digit_mem v hv).2

theorem toLower_digit : ∀ v < 16, (digit v).toLower = digit v ∧
    (digit v).toUpper.toLower = digit v := by
  decide

/-- In lower case a digit is the one that is written for its number. -/
theorem IsDigit.toLower_eq {c : Char} {v : Nat} (h : IsDigit c v) : c.toLower = digit v := by
  obtain ⟨hv, rfl | rfl⟩ := h
  · exact (toLower_digit v hv).1
  · exact (toLower_digit v hv).2

/-! ## 2. Places -/

section

variable {c d : Char}

/-- Two digits are the place of a byte. -/
theorem exists_place (signs : Prop) (hc : c ∈ alphabet) (hd : d ∈ alphabet) :
    ∃ v, Place signs c d v := by
  obtain ⟨m, hm⟩ := mem_alphabet_iff.mp hc
  obtain ⟨n, hn⟩ := mem_alphabet_iff.mp hd
  have hlt : 16 * m + n < 256 := by
    have hm' := hm.1
    have hn' := hn.1
    omega
  exact ⟨UInt8.ofNat (16 * m + n), .digits hm hn (UInt8.toNat_ofNat_of_lt' hlt)⟩

/-- A byte is written with the digits of its place, in lower case. -/
theorem Place.byteChars_eq {v : UInt8} (h : Place False c d v) :
    byteChars v = [c.toLower, d.toLower] := by
  cases h with
  | @digits _ _ m n _ hc hd hv =>
    have hm := hc.1
    have hn := hd.1
    have hhigh : v.toNat / 16 = m := by omega
    have hlow : v.toNat % 16 = n := by omega
    rw [byteChars, hhigh, hlow, hc.toLower_eq, hd.toLower_eq]
  | plus h _ => exact h.elim

end

end Hex

namespace Rgba

open Hex

variable {signs : Prop} {cs : List Char} {c : Rgba}

/-! ## 3. Colours -/

/-- Six digits are the places of an opaque colour. -/
theorem exists_places (signs : Prop) :
    ∀ {cs : List Char}, cs.length = 6 → (∀ d ∈ cs, d ∈ alphabet) →
      ∃ c : Rgba, c.alpha = 255 ∧ Places signs cs c
  | [r, r', g, g', b, b'], _, hcs => by
    simp only [List.forall_mem_cons] at hcs
    obtain ⟨hr, hr', hg, hg', hb, hb', -⟩ := hcs
    obtain ⟨red, hred⟩ := exists_place signs hr hr'
    obtain ⟨green, hgreen⟩ := exists_place signs hg hg'
    obtain ⟨blue, hblue⟩ := exists_place signs hb hb'
    exact ⟨⟨red, green, blue, 255⟩, rfl, .long hred hgreen hblue rfl⟩

/-- A colour is written with the digits of its places, in lower case. -/
theorem Places.hexChars_eq (h : Places False cs c) (hlength : cs.length = 6) :
    c.hexChars = '#' :: cs.map Char.toLower := by
  cases h with
  | short => cases hlength
  | long hr hg hb halpha =>
    rw [hexChars, hr.byteChars_eq, hg.byteChars_eq, hb.byteChars_eq]
    rfl
  | withAlpha => cases hlength

/-- Two digits more are the alpha of the same colour. -/
theorem Places.append (h : Places signs cs c) (hlength : cs.length = 6) :
    ∀ {more : List Char}, more.length = 2 → (∀ d ∈ more, d ∈ alphabet) →
      ∃ alpha, Places signs (cs ++ more) { c with alpha := alpha }
  | [a, a'], _, hmore => by
    simp only [List.forall_mem_cons] at hmore
    obtain ⟨ha, ha', -⟩ := hmore
    obtain ⟨alpha, hplace⟩ := exists_place signs ha ha'
    cases h with
    | short => cases hlength
    | long hr hg hb _ => exact ⟨alpha, .withAlpha hr hg hb hplace⟩
    | withAlpha => cases hlength

/-- Places are read with a `#` in front and without. -/
theorem Places.ofHex?_eq (h : Places False cs c) {s : String}
    (hs : s.toList = cs ∨ s.toList = '#' :: cs) : ofHex? s = some c := by
  refine ofHex?_eq_some_iff.mpr ?_
  have hsigns := (places_false_iff.mp h).1
  rcases hs with hs | hs
  · exact hs ▸ .inl hsigns
  · exact hs ▸ .inr ⟨cs, rfl, hsigns⟩

/-! ## 4. Round trips -/

/-- **Colours and their texts.** A written colour is read as the same colour with full alpha. A text
    of six digits in either case, with a `#` in front or without, is read as a colour that is
    written with the same digits in lower case behind a `#`; and with any two digits behind it, the
    text is read as that colour with some alpha. -/
theorem hex_round_trip :
    (∀ c : Rgba, ofHex? c.toHex = some { c with alpha := 255 }) ∧
      ∀ digits s : String, AreDigits 6 digits → s = digits ∨ s = "#" ++ digits →
        ∃ c : Rgba, ofHex? s = some c ∧ c.alpha = 255 ∧ c.toHex = "#" ++ digits.toLower ∧
          ∀ more : String, AreDigits 2 more →
            ∃ alpha, ofHex? (s ++ more) = some { c with alpha := alpha } := by
  refine ⟨ofHex?_toHex, fun digits s hdigits hs => ?_⟩
  obtain ⟨hlength, hmem⟩ := hdigits
  obtain ⟨c, halpha, hc⟩ := exists_places False hlength hmem
  have hhash : s.toList = digits.toList ∨ s.toList = '#' :: digits.toList := by
    rcases hs with rfl | rfl
    · exact .inl rfl
    · exact .inr String.toList_append
  refine ⟨c, hc.ofHex?_eq hhash, halpha, ?_, fun more hmore => ?_⟩
  · rw [toHex, hc.hexChars_eq hlength, String.ofList_cons, ← String.toList_map,
      String.ofList_toList]
    rfl
  · obtain ⟨alpha, hplaces⟩ := hc.append hlength hmore.1 hmore.2
    refine ⟨alpha, hplaces.ofHex?_eq ?_⟩
    rw [String.toList_append]
    exact hhash.imp (fun h => by rw [h]) fun h => by rw [h, List.cons_append]

/-- Digits of both cases behind a `#`, and an alpha behind them. -/
theorem hex_round_trip_mixed_case :
    ∃ c : Rgba, ofHex? "#aB09fE" = some c ∧ c.toHex = "#ab09fe" ∧
      ∃ alpha, ofHex? "#aB09fE7C" = some { c with alpha := alpha } := by
  obtain ⟨c, hread, -, hwritten, hmore⟩ :=
    hex_round_trip.2 "aB09fE" "#aB09fE" (by decide) (.inr rfl)
  have hlower : "#" ++ "aB09fE".toLower = "#ab09fe" := by decide +kernel
  exact ⟨c, hread, hwritten.trans hlower, hmore "7C" (by decide)⟩

end Rgba

end QrRender
