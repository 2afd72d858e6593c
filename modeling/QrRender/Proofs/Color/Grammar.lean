import QrRender.Options.Builder
import QrRender.Proofs.Color.Hex

/-!
# Which texts are colours

The written forms of a colour, said without the reader: after an optional `#` three digits, each
for a channel, or three or four places of two digits, in digits of either case. A text that has one of
these forms is read as the colour it writes.

The reader takes a little more. A place is read as a number, and a number may have a plus sign in
front, so that `+f` passes for `0f`. `Written` says both grammars, with signs and without; they differ
on texts with a plus sign only. Whatever has no form with signs either is refused, and the refusal
names the text.

Reading characters and reading bytes is the same here. Cut by bytes, a place could end inside a
character or behind the end of the text, but a text is cut only if all its characters have one byte.

* `Hex.IsDigit`, `Hex.Place`, `Rgba.Places`, `Rgba.Written`: the grammar;
* `Rgba.ofHex?_eq_some_iff`: the reader takes the grammar with signs;
* `Rgba.written_false_iff`: the grammar without signs;
* `Rgba.ofHexBytes?_eq`: reading by bytes;
* **`ColorSource.resolve_hex_outcome`**: what becomes of a text that is given for a colour;
* `ColorSource.plus_sign_accepted`: a text that is a colour with signs only.
-/

namespace QrRender

namespace Hex

/-! ## 1. Digits -/

/-- A digit and its value, in lower case or in upper case. -/
def IsDigit (c : Char) (v : Nat) : Prop := v < 16 ∧ (c = digit v ∨ c = (digit v).toUpper)

instance (c : Char) (v : Nat) : Decidable (IsDigit c v) :=
  inferInstanceAs (Decidable (_ ∧ (_ ∨ _)))

theorem value?_of_lt : ∀ n < 128, ∀ v < 16,
    value? (Char.ofNat n) = some v ↔ IsDigit (Char.ofNat n) v := by
  decide +kernel

theorem digit_lt : ∀ v < 16, (digit v).toNat < 128 ∧ (digit v).toUpper.toNat < 128 := by
  decide

/-- The digits are characters of seven bits. -/
theorem IsDigit.lt {c : Char} {v : Nat} (h : IsDigit c v) : c.toNat < 128 := by
  obtain ⟨hv, rfl | rfl⟩ := h
  · exact (digit_lt v hv).1
  · exact (digit_lt v hv).2

theorem value?_bounds {c : Char} {v : Nat} (h : value? c = some v) : v < 16 ∧ c.toNat < 128 := by
  unfold value? at h
  simp only at h
  split at h
  · cases h
    omega
  split at h
  · cases h
    omega
  split at h
  · cases h
    omega
  · cases h

/-- **The digits are the characters that have a value.** -/
theorem value?_eq_some_iff {c : Char} {v : Nat} : value? c = some v ↔ IsDigit c v := by
  constructor
  · intro h
    obtain ⟨hv, hc⟩ := value?_bounds h
    have hiff := value?_of_lt c.toNat hc v hv
    rw [Char.ofNat_toNat] at hiff
    exact hiff.mp h
  · intro h
    have hiff := value?_of_lt c.toNat h.lt v h.1
    rw [Char.ofNat_toNat] at hiff
    exact hiff.mpr h

/-- A character without a value is no digit. -/
theorem IsDigit.ne {c d : Char} {v : Nat} (h : IsDigit c v) (hd : value? d = none) : c ≠ d := by
  rintro rfl
  rw [value?_eq_some_iff.mpr h] at hd
  cases hd

theorem IsDigit.ne_plus {c : Char} {v : Nat} (h : IsDigit c v) : c ≠ '+' := h.ne rfl

/-! ## 2. Places -/

/-- Two characters in the place of a channel: two digits, and where signs are let through also a plus
    sign and one digit. -/
inductive Place (signs : Prop) : Char → Char → UInt8 → Prop where
  | digits {c d : Char} {m n : Nat} {v : UInt8} (hc : IsDigit c m) (hd : IsDigit d n)
      (hv : v.toNat = 16 * m + n) : Place signs c d v
  | plus {d : Char} {v : UInt8} (h : signs) (hd : IsDigit d v.toNat) : Place signs '+' d v

theorem digits?_single (c : Char) : digits? 0 [c] = value? c := by
  rw [digits?]
  cases value? c with
  | none => rfl
  | some n => simp only [digits?, Nat.mul_zero, Nat.zero_add]

theorem number?_single (c : Char) : number? [c] = value? c := by
  by_cases hc : c = '+'
  · rw [hc]
    rfl
  · rw [number?_of_ne_plus hc, digits?_single]

theorem number?_pair {c d : Char} (hc : c ≠ '+') :
    number? [c, d] = (value? c).bind fun m => (value? d).map fun n => 16 * m + n := by
  rw [number?_of_ne_plus hc]
  cases hm : value? c with
  | none => simp [digits?, hm]
  | some m => cases hn : value? d <;> simp [digits?, hm, hn]

theorem number?_plus (d : Char) : number? ['+', d] = value? d := digits?_single d

/-- **The reader of places lets signs through.** -/
theorem number?_eq_some_iff {c d : Char} {k : Nat} :
    number? [c, d] = some k ↔ ∃ v : UInt8, v.toNat = k ∧ Place True c d v := by
  constructor
  · intro h
    by_cases hc : c = '+'
    · subst hc
      rw [number?_plus, value?_eq_some_iff] at h
      have hk : k < 256 := Nat.lt_trans h.1 (by decide)
      have hv : (UInt8.ofNat k).toNat = k := UInt8.toNat_ofNat_of_lt' hk
      exact ⟨UInt8.ofNat k, hv, .plus trivial (hv.symm ▸ h)⟩
    · rw [number?_pair hc] at h
      obtain ⟨m, hm, h⟩ := Option.bind_eq_some_iff.mp h
      obtain ⟨n, hn, rfl⟩ := Option.map_eq_some_iff.mp h
      rw [value?_eq_some_iff] at hm hn
      have hk : 16 * m + n < 256 := by
        have hm' := hm.1
        have hn' := hn.1
        omega
      have hv : (UInt8.ofNat (16 * m + n)).toNat = 16 * m + n := UInt8.toNat_ofNat_of_lt' hk
      exact ⟨UInt8.ofNat (16 * m + n), hv, .digits hm hn hv⟩
  · rintro ⟨v, rfl, ⟨hc, hd, hv⟩ | ⟨-, hd⟩⟩
    · rw [number?_pair hc.ne_plus, value?_eq_some_iff.mpr hc, value?_eq_some_iff.mpr hd, hv]
      rfl
    · rw [number?_plus, value?_eq_some_iff.mpr hd]

section

variable {signs : Prop} {c d : Char} {v : UInt8}

theorem Place.number?_eq (h : Place True c d v) : number? [c, d] = some v.toNat :=
  number?_eq_some_iff.mpr ⟨v, rfl, h⟩

/-- The characters of a place are of seven bits. -/
theorem Place.lt (h : Place signs c d v) : c.toNat < 128 ∧ d.toNat < 128 := by
  cases h with
  | digits hc hd hv => exact ⟨hc.lt, hd.lt⟩
  | plus _ hd => exact ⟨by decide, hd.lt⟩

theorem Place.ne_hash (h : Place signs c d v) : c ≠ '#' := by
  cases h with
  | digits hc hd hv => exact hc.ne rfl
  | plus _ hd => decide

/-- Without plus signs there are no signs. -/
theorem place_false_iff : Place False c d v ↔ Place True c d v ∧ c ≠ '+' ∧ d ≠ '+' := by
  constructor
  · rintro (⟨hc, hd, hv⟩ | ⟨h, -⟩)
    · exact ⟨.digits hc hd hv, hc.ne_plus, hd.ne_plus⟩
    · exact h.elim
  · rintro ⟨⟨hc, hd, hv⟩ | ⟨-, -⟩, hplus, -⟩
    · exact .digits hc hd hv
    · exact absurd rfl hplus

end

end Hex

namespace Rgba

open Hex

/-! ## 3. Colours -/

/-- What stands for a colour behind the `#`: a digit for each of red, green and blue, which counts
    twice, or a place for each, and maybe one for alpha. -/
inductive Places (signs : Prop) : List Char → Rgba → Prop where
  | short {r g b : Char} {k m n : Nat} {c : Rgba} (hr : IsDigit r k) (hg : IsDigit g m)
      (hb : IsDigit b n) (hred : c.red.toNat = 17 * k) (hgreen : c.green.toNat = 17 * m)
      (hblue : c.blue.toNat = 17 * n) (halpha : c.alpha = 255) : Places signs [r, g, b] c
  | long {r r' g g' b b' : Char} {c : Rgba} (hr : Place signs r r' c.red)
      (hg : Place signs g g' c.green) (hb : Place signs b b' c.blue) (halpha : c.alpha = 255) :
      Places signs [r, r', g, g', b, b'] c
  | withAlpha {r r' g g' b b' a a' : Char} {c : Rgba} (hr : Place signs r r' c.red)
      (hg : Place signs g g' c.green) (hb : Place signs b b' c.blue)
      (ha : Place signs a a' c.alpha) : Places signs [r, r', g, g', b, b', a, a'] c

/-- The characters write a colour, with or without a `#` in front. -/
def Written (signs : Prop) (cs : List Char) (c : Rgba) : Prop :=
  Places signs cs c ∨ ∃ places, cs = '#' :: places ∧ Places signs places c

theorem ofPlaces?_of_places {cs : List Char} {c : Rgba} (h : Places True cs c) :
    ofPlaces? cs = some c := by
  cases h with
  | short hr hg hb hred hgreen hblue halpha =>
    simp only [ofPlaces?, number?_single, value?_eq_some_iff.mpr hr, value?_eq_some_iff.mpr hg,
      value?_eq_some_iff.mpr hb, Option.pure_def, Option.bind_eq_bind, Option.bind_some]
    rw [← hred, ← hgreen, ← hblue, ← halpha]
    simp only [UInt8.ofNat_toNat]
  | long hr hg hb halpha =>
    simp only [ofPlaces?, hr.number?_eq, hg.number?_eq, hb.number?_eq, Option.pure_def,
      Option.bind_eq_bind, Option.bind_some, UInt8.ofNat_toNat, ← halpha]
  | withAlpha hr hg hb ha =>
    simp only [ofPlaces?, hr.number?_eq, hg.number?_eq, hb.number?_eq, ha.number?_eq,
      Option.pure_def, Option.bind_eq_bind, Option.bind_some, UInt8.ofNat_toNat]

theorem toNat_ofNat_seventeen {d : Char} {v : Nat} (h : IsDigit d v) :
    (UInt8.ofNat (17 * v)).toNat = 17 * v := by
  have hv := h.1
  have hlt : 17 * v < 256 := by omega
  exact UInt8.toNat_ofNat_of_lt' hlt

theorem places_of_ofPlaces? {cs : List Char} {c : Rgba} (h : ofPlaces? cs = some c) :
    Places True cs c := by
  unfold ofPlaces? at h
  split at h
  · simp only [number?_single, Option.bind_eq_bind, Option.pure_def, Option.bind_eq_some_iff,
      Option.some.injEq, value?_eq_some_iff] at h
    obtain ⟨k, hr, m, hg, n, hb, rfl⟩ := h
    exact .short hr hg hb (toNat_ofNat_seventeen hr) (toNat_ofNat_seventeen hg)
      (toNat_ofNat_seventeen hb) rfl
  · simp only [Option.bind_eq_bind, Option.pure_def, Option.bind_eq_some_iff,
      Option.some.injEq, number?_eq_some_iff] at h
    obtain ⟨_, ⟨r, rfl, hr⟩, _, ⟨g, rfl, hg⟩, _, ⟨b, rfl, hb⟩, rfl⟩ := h
    simp only [UInt8.ofNat_toNat]
    exact .long hr hg hb rfl
  · simp only [Option.bind_eq_bind, Option.pure_def, Option.bind_eq_some_iff,
      Option.some.injEq, number?_eq_some_iff] at h
    obtain ⟨_, ⟨r, rfl, hr⟩, _, ⟨g, rfl, hg⟩, _, ⟨b, rfl, hb⟩, _, ⟨a, rfl, ha⟩, rfl⟩ := h
    simp only [UInt8.ofNat_toNat]
    exact .withAlpha hr hg hb ha
  · cases h

theorem ofPlaces?_eq_some_iff {cs : List Char} {c : Rgba} :
    ofPlaces? cs = some c ↔ Places True cs c :=
  ⟨places_of_ofPlaces?, ofPlaces?_of_places⟩

variable {signs : Prop} {cs : List Char} {c : Rgba}

/-- The places do not begin with another `#`. -/
theorem Places.head_ne_hash (h : Places signs cs c) : cs.head? ≠ some '#' := by
  cases h with
  | short hr hg hb hred hgreen hblue halpha => simpa using hr.ne rfl
  | long hr hg hb halpha => simpa using hr.ne_hash
  | withAlpha hr hg hb ha => simpa using hr.ne_hash

/-- All characters of the places are of seven bits. -/
theorem Places.forall_lt (h : Places signs cs c) : ∀ d ∈ cs, d.toNat < 128 := by
  cases h with
  | short hr hg hb hred hgreen hblue halpha => simp [hr.lt, hg.lt, hb.lt]
  | long hr hg hb halpha => simp [hr.lt, hg.lt, hb.lt]
  | withAlpha hr hg hb ha => simp [hr.lt, hg.lt, hb.lt, ha.lt]

/-- There are three, six or eight characters. -/
theorem Places.length_eq (h : Places signs cs c) :
    cs.length = 3 ∨ cs.length = 6 ∨ cs.length = 8 := by
  cases h with
  | short hr hg hb hred hgreen hblue halpha => exact .inl rfl
  | long hr hg hb halpha => exact .inr (.inl rfl)
  | withAlpha hr hg hb ha => exact .inr (.inr rfl)

/-- Without plus signs there are no signs. -/
theorem places_false_iff : Places False cs c ↔ Places True cs c ∧ '+' ∉ cs := by
  constructor
  · intro h
    cases h with
    | short hr hg hb hred hgreen hblue halpha =>
      refine ⟨.short hr hg hb hred hgreen hblue halpha, ?_⟩
      simp [hr.ne_plus.symm, hg.ne_plus.symm, hb.ne_plus.symm]
    | long hr hg hb halpha =>
      rw [place_false_iff] at hr hg hb
      refine ⟨.long hr.1 hg.1 hb.1 halpha, ?_⟩
      simp [hr.2.1.symm, hr.2.2.symm, hg.2.1.symm, hg.2.2.symm, hb.2.1.symm, hb.2.2.symm]
    | withAlpha hr hg hb ha =>
      rw [place_false_iff] at hr hg hb ha
      refine ⟨.withAlpha hr.1 hg.1 hb.1 ha.1, ?_⟩
      simp [hr.2.1.symm, hr.2.2.symm, hg.2.1.symm, hg.2.2.symm, hb.2.1.symm, hb.2.2.symm,
        ha.2.1.symm, ha.2.2.symm]
  · rintro ⟨h, hplus⟩
    have hne : ∀ d ∈ cs, d ≠ '+' := fun d hd heq => hplus (heq ▸ hd)
    cases h with
    | short hr hg hb hred hgreen hblue halpha => exact .short hr hg hb hred hgreen hblue halpha
    | long hr hg hb halpha =>
      exact .long (place_false_iff.mpr ⟨hr, hne _ (by simp), hne _ (by simp)⟩)
        (place_false_iff.mpr ⟨hg, hne _ (by simp), hne _ (by simp)⟩)
        (place_false_iff.mpr ⟨hb, hne _ (by simp), hne _ (by simp)⟩) halpha
    | withAlpha hr hg hb ha =>
      exact .withAlpha (place_false_iff.mpr ⟨hr, hne _ (by simp), hne _ (by simp)⟩)
        (place_false_iff.mpr ⟨hg, hne _ (by simp), hne _ (by simp)⟩)
        (place_false_iff.mpr ⟨hb, hne _ (by simp), hne _ (by simp)⟩)
        (place_false_iff.mpr ⟨ha, hne _ (by simp), hne _ (by simp)⟩)

/-! ## 4. Texts -/

theorem stripHash_of_head_ne (h : cs.head? ≠ some '#') : stripHash cs = cs := by
  unfold stripHash
  split
  · exact absurd rfl h
  · rfl

theorem written_iff_places : Written signs cs c ↔ Places signs (stripHash cs) c := by
  constructor
  · rintro (h | ⟨places, rfl, h⟩)
    · rw [stripHash_of_head_ne h.head_ne_hash]
      exact h
    · exact h
  · intro h
    by_cases hhash : cs.head? = some '#'
    · obtain ⟨places, rfl⟩ := List.head?_eq_some_iff.mp hhash
      exact .inr ⟨places, rfl, h⟩
    · rw [stripHash_of_head_ne hhash] at h
      exact .inl h

/-- **The reader takes the grammar with signs.** -/
theorem ofHex?_eq_some_iff {s : String} : ofHex? s = some c ↔ Written True s.toList c := by
  rw [ofHex?, ofHexChars?, ofPlaces?_eq_some_iff, written_iff_places]

/-- The grammar without signs is what is left without plus signs. -/
theorem written_false_iff : Written False cs c ↔ Written True cs c ∧ '+' ∉ cs := by
  have hplus : '+' ∉ stripHash cs ↔ '+' ∉ cs := by
    unfold stripHash
    split
    · simp
    · rfl
  rw [written_iff_places, written_iff_places, places_false_iff, hplus]

/-! ## 5. Bytes -/

/-- The characters of the first `n` bytes, and the rest. It is a fault if the text ends before them,
    or if they end inside a character. -/
def splitBytes : Nat → List Char → Except Fault (List Char × List Char)
  | 0, cs => .ok ([], cs)
  | _ + 1, [] => .error .outOfRange
  | n + 1, c :: cs =>
    if c.utf8Size ≤ n + 1 then
      (splitBytes (n + 1 - c.utf8Size) cs).map fun parts => (c :: parts.1, parts.2)
    else .error .outOfRange

/-- The characters of `n` bytes from byte `start` on. -/
def bytesAt (cs : List Char) (start n : Nat) : Except Fault (List Char) := do
  let parts ← splitBytes start cs
  let place ← splitBytes n parts.2
  return place.1

/-- The number of bytes of a text. -/
def byteLength : List Char → Nat
  | [] => 0
  | c :: cs => c.utf8Size + byteLength cs

/-- The numbers in places of `n` bytes that follow each other, `k` of them. -/
def numbersAt (cs : List Char) (n k : Nat) : Except Fault (List (Option Nat)) :=
  (List.range k).mapM fun i => (bytesAt cs (i * n) n).map number?

/-- The colour of the numbers in its places, each so many times over. -/
def ofNumbers? (times : Nat) : List (Option Nat) → Option Rgba
  | [some r, some g, some b] =>
    some ⟨UInt8.ofNat (times * r), UInt8.ofNat (times * g), UInt8.ofNat (times * b), 255⟩
  | [some r, some g, some b, some a] =>
    some ⟨UInt8.ofNat (times * r), UInt8.ofNat (times * g), UInt8.ofNat (times * b),
      UInt8.ofNat (times * a)⟩
  | _ => none

/-- The colour that a text writes, read by bytes: a text of characters that have one byte each is cut
    into places by the number of its bytes. -/
def ofHexBytes? (s : String) : Except Fault (Option Rgba) :=
  let cs := stripHash s.toList
  if cs.all fun c => c.toNat < 128 then
    match byteLength cs with
    | 3 => (numbersAt cs 1 3).map (ofNumbers? 17)
    | 6 => (numbersAt cs 2 3).map (ofNumbers? 1)
    | 8 => (numbersAt cs 2 4).map (ofNumbers? 1)
    | _ => .ok none
  else .ok none

theorem utf8Size_eq_one {d : Char} (h : d.toNat < 128) : d.utf8Size = 1 := by
  have hle : d.val ≤ 127 := Nat.le_of_lt_succ h
  unfold Char.utf8Size
  exact if_pos hle

/-- Where every character has one byte, bytes are characters. -/
theorem splitBytes_eq (hcs : ∀ d ∈ cs, d.toNat < 128) {n : Nat} (hn : n ≤ cs.length) :
    splitBytes n cs = .ok (cs.take n, cs.drop n) := by
  induction cs generalizing n with
  | nil =>
    obtain rfl : n = 0 := Nat.le_zero.mp hn
    rfl
  | cons d cs ih =>
    obtain ⟨hd, hcs⟩ := List.forall_mem_cons.mp hcs
    cases n with
    | zero => rfl
    | succ n =>
      rw [splitBytes, utf8Size_eq_one hd, if_pos (Nat.le_add_left 1 n), Nat.add_sub_cancel,
        ih hcs (Nat.le_of_succ_le_succ hn)]
      rfl

theorem byteLength_eq (hcs : ∀ d ∈ cs, d.toNat < 128) : byteLength cs = cs.length := by
  induction cs with
  | nil => rfl
  | cons d cs ih =>
    obtain ⟨hd, hcs⟩ := List.forall_mem_cons.mp hcs
    rw [byteLength, utf8Size_eq_one hd, ih hcs, List.length_cons, Nat.add_comm]

theorem bytesAt_eq (hcs : ∀ d ∈ cs, d.toNat < 128) {start n : Nat} (hn : start + n ≤ cs.length) :
    bytesAt cs start n = .ok ((cs.drop start).take n) := by
  have hrest : ∀ d ∈ cs.drop start, d.toNat < 128 := fun d hd => hcs d (List.mem_of_mem_drop hd)
  have hlength : n ≤ (cs.drop start).length := by
    rw [List.length_drop]
    omega
  rw [bytesAt, splitBytes_eq hcs (by omega)]
  show (splitBytes n (cs.drop start)).map Prod.fst = _
  rw [splitBytes_eq hrest hlength]
  rfl

/-- **No place is cut off or cut apart** in a text of characters of one byte. -/
theorem numbersAt_eq (hcs : ∀ d ∈ cs, d.toNat < 128) {n k : Nat} (hk : k * n ≤ cs.length) :
    numbersAt cs n k = .ok ((List.range k).map fun i => number? ((cs.drop (i * n)).take n)) := by
  refine Checked.mapM_eq_ok fun i hi => ?_
  have hend : (i + 1) * n ≤ k * n := Nat.mul_le_mul_right n (List.mem_range.mp hi)
  rw [Nat.succ_mul] at hend
  rw [bytesAt_eq hcs (Nat.le_trans hend hk)]
  rfl

theorem numbersAt_short : ∀ {cs : List Char}, (∀ d ∈ cs, d.toNat < 128) → cs.length = 3 →
    (numbersAt cs 1 3).map (ofNumbers? 17) = .ok (ofPlaces? cs)
  | [r, g, b], hcs, _ => by
    have hnumbers : numbersAt [r, g, b] 1 3 = .ok [number? [r], number? [g], number? [b]] :=
      numbersAt_eq hcs (Nat.le_refl 3)
    rw [hnumbers, ofPlaces?]
    cases number? [r] <;> cases number? [g] <;> cases number? [b] <;> rfl

theorem numbersAt_long : ∀ {cs : List Char}, (∀ d ∈ cs, d.toNat < 128) → cs.length = 6 →
    (numbersAt cs 2 3).map (ofNumbers? 1) = .ok (ofPlaces? cs)
  | [r, r', g, g', b, b'], hcs, _ => by
    have hnumbers : numbersAt [r, r', g, g', b, b'] 2 3 =
        .ok [number? [r, r'], number? [g, g'], number? [b, b']] :=
      numbersAt_eq hcs (Nat.le_refl 6)
    rw [hnumbers, ofPlaces?]
    cases number? [r, r'] <;> cases number? [g, g'] <;> cases number? [b, b'] <;>
      simp [Except.map, ofNumbers?]

theorem numbersAt_withAlpha : ∀ {cs : List Char}, (∀ d ∈ cs, d.toNat < 128) → cs.length = 8 →
    (numbersAt cs 2 4).map (ofNumbers? 1) = .ok (ofPlaces? cs)
  | [r, r', g, g', b, b', a, a'], hcs, _ => by
    have hnumbers : numbersAt [r, r', g, g', b, b', a, a'] 2 4 =
        .ok [number? [r, r'], number? [g, g'], number? [b, b'], number? [a, a']] :=
      numbersAt_eq hcs (Nat.le_refl 8)
    rw [hnumbers, ofPlaces?]
    cases number? [r, r'] <;> cases number? [g, g'] <;> cases number? [b, b'] <;>
      cases number? [a, a'] <;> simp [Except.map, ofNumbers?]

/-- **Reading by bytes is reading**, and it meets no fault. -/
theorem ofHexBytes?_eq (s : String) : ofHexBytes? s = .ok (ofHex? s) := by
  rw [ofHex?, ofHexChars?]
  unfold ofHexBytes?
  simp only
  generalize stripHash s.toList = cs
  by_cases hascii : cs.all (fun c => decide (c.toNat < 128)) = true
  · have hcs : ∀ d ∈ cs, d.toNat < 128 := by simpa using hascii
    rw [if_pos hascii, byteLength_eq hcs]
    -- one case for each number of bytes that a colour can have, and one for all others
    split
    · rename_i h
      exact numbersAt_short hcs h
    · rename_i h
      exact numbersAt_long hcs h
    · rename_i h
      exact numbersAt_withAlpha hcs h
    · rename_i h3 h6 h8
      cases hread : ofPlaces? cs with
      | none => rfl
      | some c =>
        rcases (ofPlaces?_eq_some_iff.mp hread).length_eq with h | h | h
        · exact absurd h h3
        · exact absurd h h6
        · exact absurd h h8
  · rw [if_neg hascii]
    cases hread : ofPlaces? cs with
    | none => rfl
    | some c =>
      refine absurd (List.all_eq_true.mpr fun d hd => ?_) hascii
      exact decide_eq_true ((ofPlaces?_eq_some_iff.mp hread).forall_lt d hd)

/-- Cut by bytes, a character of two bytes comes apart. -/
example : bytesAt ['é', 'é', 'é'] 0 1 = .error .outOfRange := by rfl

end Rgba

/-! ## 6. Outcomes -/

namespace ColorSource

open Rgba

/-- **What becomes of a text that is given for a colour.** It is the colour that the text writes by
    the grammar with signs; if the text writes none, it is refused, and the refusal names the text.
    Of the texts that write a colour, those without a plus sign are the ones that the grammar without
    signs has. Read by bytes, the text meets no fault and writes the same. -/
theorem resolve_hex_outcome (s : String) :
    (∀ c, (ColorSource.hex s).resolve = .ok c ↔ Written True s.toList c) ∧
      ((ColorSource.hex s).resolve = .error (.invalidColor s) ↔
        ∀ c, ¬Written True s.toList c) ∧
      (∀ c, Written False s.toList c ↔ Written True s.toList c ∧ '+' ∉ s.toList) ∧
      ofHexBytes? s = .ok (ofHex? s) := by
  refine ⟨fun c => ?_, ?_, fun c => written_false_iff, ofHexBytes?_eq s⟩
  · rw [← ofHex?_eq_some_iff, resolve]
    cases ofHex? s <;> simp
  · have hnone : ofHex? s = none ↔ ∀ c, ¬Written True s.toList c := by
      simp only [← ofHex?_eq_some_iff, Option.eq_none_iff_forall_ne_some, ne_eq]
    rw [← hnone, resolve]
    cases ofHex? s <;> simp

/-- **A plus sign is let through**: the text is no colour by the grammar without signs, and it is read
    as one. -/
theorem plus_sign_accepted :
    (ColorSource.hex "+f+f+f").resolve = .ok ⟨15, 15, 15, 255⟩ ∧
      ∀ c, ¬Written False "+f+f+f".toList c := by
  have hread : ofHex? "+f+f+f" = some ⟨15, 15, 15, 255⟩ := by decide +kernel
  refine ⟨?_, fun c h => ?_⟩
  · rw [resolve, hread]
  · exact (written_false_iff.mp h).2 (by decide)

end ColorSource

end QrRender
