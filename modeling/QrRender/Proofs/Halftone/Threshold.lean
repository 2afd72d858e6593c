import QrRender.Proofs.Halftone.Luma

/-!
# Black and white

A picture reduced to black and white is decided pixel by pixel: a pixel is white where its luma is
above the threshold. A higher threshold leaves fewer white pixels, and since the luma of white is
255 and that of black is zero, a second reduction finds the two as they are, unless its threshold
is 255 and nothing can be above it.

* `color_binarize`: the colour of a pixel;
* `ShowsWhite`, `showsWhite_anti`: the white pixels, and their order by the threshold;
* `binarize_binarize`: a second reduction;
* `pixel?_prepare`: the pixels of a halftone;
* **`binarize_laws`**: the laws of the reduction, and what they say of halftones.
-/

namespace QrRender.Halftone

/-! ## 1. One reduction -/

variable (p : Picture) (t : Int)

/-- A threshold outside the range of luma counts as 128, and any other one as itself. -/
theorem effectiveThreshold_eq :
    (0 ≤ t → t ≤ 255 → (effectiveThreshold t : Int) = t) ∧
      (¬(0 ≤ t ∧ t ≤ 255) → effectiveThreshold t = 128) := by
  constructor
  · intro hlow hhigh
    rw [effectiveThreshold, if_pos ⟨hlow, hhigh⟩]
    exact Int.toNat_of_nonneg hlow
  · intro h
    rw [effectiveThreshold, if_neg h]

theorem effectiveThreshold_le : effectiveThreshold t ≤ 255 := by
  unfold effectiveThreshold
  split <;> omega

theorem binarize_eq : binarize p t false = Picture.ofFn .gray p.width p.height fun x y _ =>
    if effectiveThreshold t < ((grayscale p).sample x y 0).toNat then 255 else 0 := rfl

theorem size_binarize :
    (binarize p t false).width = p.width ∧ (binarize p t false).height = p.height := ⟨rfl, rfl⟩

variable {p} {x y : Nat}

theorem sample_binarize (hx : x < p.width) (hy : y < p.height) :
    (binarize p t false).sample x y 0 =
      if effectiveThreshold t < (luma (p.color x y)).toNat then 255 else 0 := by
  rw [binarize_eq, Picture.sample_ofFn _ hx hy (by decide), sample_grayscale p hx hy]

/-- **A pixel is white where its luma is above the threshold, and black elsewhere.** -/
theorem color_binarize (hx : x < p.width) (hy : y < p.height) :
    (binarize p t false).color x y =
      if effectiveThreshold t < (luma (p.color x y)).toNat then Rgba.white else Rgba.black := by
  have hgray : (binarize p t false).kind = .gray := rfl
  rw [Picture.color_of_gray hgray, sample_binarize t hx hy]
  split <;> rfl

/-! ## 2. Two reductions -/

/-- The picture has a white pixel at column `x`, row `y`. -/
def ShowsWhite (p : Picture) (x y : Nat) : Prop :=
  x < p.width ∧ y < p.height ∧ p.color x y = Rgba.white

theorem showsWhite_binarize : ShowsWhite (binarize p t false) x y ↔
    (x < p.width ∧ y < p.height) ∧ effectiveThreshold t < (luma (p.color x y)).toNat := by
  unfold ShowsWhite
  rw [(size_binarize p t).1, (size_binarize p t).2]
  constructor
  · intro h
    obtain ⟨hx, hy, hcolor⟩ := h
    rw [color_binarize t hx hy] at hcolor
    split at hcolor
    · rename_i hlt
      exact ⟨⟨hx, hy⟩, hlt⟩
    · exact absurd hcolor (by decide)
  · intro h
    obtain ⟨⟨hx, hy⟩, hlt⟩ := h
    exact ⟨hx, hy, by rw [color_binarize t hx hy, if_pos hlt]⟩

variable {t}

/-- With a higher threshold no other pixels are white. -/
theorem showsWhite_anti {u : Int} (h : effectiveThreshold t ≤ effectiveThreshold u)
    (hwhite : ShowsWhite (binarize p u false) x y) : ShowsWhite (binarize p t false) x y := by
  obtain ⟨hin, hlt⟩ := (showsWhite_binarize u).mp hwhite
  exact (showsWhite_binarize t).mpr ⟨hin, Nat.lt_of_le_of_lt h hlt⟩

/-- **A second reduction changes nothing**, unless no luma is above its threshold. -/
theorem binarize_binarize {u : Int} (h : effectiveThreshold u ≠ 255) :
    binarize (binarize p t false) u false = binarize p t false := by
  have hu : effectiveThreshold u < 255 := Nat.lt_of_le_of_ne (effectiveThreshold_le u) h
  have hwhite : (luma Rgba.white).toNat = 255 := by decide
  have hblack : (luma Rgba.black).toNat = 0 := by decide
  rw [binarize_eq, (size_binarize p t).1, (size_binarize p t).2]
  refine (Picture.ofFn_congr fun x y k hx hy hk => ?_).trans (binarize_eq p t).symm
  rw [sample_grayscale p hx hy, sample_grayscale (binarize p t false) hx hy,
    color_binarize t hx hy]
  split
  · rw [hwhite, if_pos hu]
  · rw [hblack, if_neg (Nat.not_lt_zero _)]

/-! ## 3. Halftones -/

/-- The pixels of a halftone are white and black. -/
theorem pixel?_prepare (p : Picture) (t : Int) {columns rows x y : Nat} (hx : x < 3 * columns)
    (hy : y < 3 * rows) : (prepare p columns rows t).pixel? x y = some Rgba.white ∨
      (prepare p columns rows t).pixel? x y = some Rgba.black := by
  obtain ⟨hw, hh⟩ := p.size_resize .triangle (3 * columns) (3 * rows)
  have hx' : x < (scale p (3 * columns) (3 * rows)).width := hw.symm ▸ hx
  have hy' : y < (scale p (3 * columns) (3 * rows)).height := hh.symm ▸ hy
  have hpixel : (prepare p columns rows t).pixel? x y =
      some ((binarize (scale p (3 * columns) (3 * rows)) t false).color x y) := by
    rw [prepare, Picture.toImage, Image.pixel?_ofFn, if_pos ⟨hx', hy'⟩]
  rw [hpixel, color_binarize t hx' hy']
  split
  · exact .inl rfl
  · exact .inr rfl

/-- **The laws of black and white.** For any picture and any threshold, where one outside the range
    of luma counts as 128, the reduced picture has the size of the picture; a pixel is white if its
    luma is above the threshold, and black otherwise; a higher threshold leaves no other white
    pixels; and another reduction changes nothing, unless its threshold is 255. A halftone has three
    by three pixels for every module, each of them opaque and white or black. -/
theorem binarize_laws (p : Picture) (t : Int) :
    let reduced := binarize p t false
    ((0 ≤ t → t ≤ 255 → (effectiveThreshold t : Int) = t) ∧
        (¬(0 ≤ t ∧ t ≤ 255) → effectiveThreshold t = 128)) ∧
      reduced.width = p.width ∧ reduced.height = p.height ∧
      (∀ x y, x < p.width → y < p.height → reduced.color x y =
        if effectiveThreshold t < (luma (p.color x y)).toNat then Rgba.white else Rgba.black) ∧
      (∀ u, effectiveThreshold t ≤ effectiveThreshold u →
        ∀ x y, ShowsWhite (binarize p u false) x y → ShowsWhite reduced x y) ∧
      (∀ u, effectiveThreshold u ≠ 255 → binarize reduced u false = reduced) ∧
      ∀ columns rows,
        let halftone := prepare p columns rows t
        halftone.width = 3 * columns ∧ halftone.height = 3 * rows ∧
          ∀ x y, x < halftone.width → y < halftone.height →
            ∃ c, halftone.pixel? x y = some c ∧ c.isOpaque = true ∧
              (c = Rgba.white ∨ c = Rgba.black) := by
  intro reduced
  refine ⟨effectiveThreshold_eq t, rfl, rfl, fun x y hx hy => color_binarize t hx hy,
    fun u hu x y hwhite => showsWhite_anti hu hwhite, fun u hu => binarize_binarize hu,
    fun columns rows => ?_⟩
  obtain ⟨hw, hh⟩ := size_prepare p columns rows t
  refine ⟨hw, hh, fun x y hx hy => ?_⟩
  rcases pixel?_prepare p t (hw ▸ hx) (hh ▸ hy) with h | h
  · exact ⟨_, h, rfl, .inl rfl⟩
  · exact ⟨_, h, rfl, .inr rfl⟩

/-- A grey of 100 beside one of 200, with a threshold between them that counts as 128 because it is
    out of range, and with a lower one. -/
theorem binarize_laws_fallback :
    let p := Picture.ofFn .gray 2 1 fun x _ _ => if x = 0 then 100 else 200
    (binarize p 300 false).color 0 0 = Rgba.black ∧ (binarize p 300 false).color 1 0 = Rgba.white ∧
      ShowsWhite (binarize p 60 false) 1 0 ∧
      binarize (binarize p 300 false) (-1) false = binarize p 300 false := by
  intro p
  have hsize : p.width = 2 ∧ p.height = 1 := ⟨rfl, rfl⟩
  have hdark : p.color 0 0 = Rgba.ofGray 100 := by decide
  have hlight : p.color 1 0 = Rgba.ofGray 200 := by decide
  have hlimit : effectiveThreshold 300 = 128 := by decide
  obtain ⟨-, -, -, hcolor, -, hagain, -⟩ := binarize_laws p 300
  obtain ⟨-, -, -, -, hanti, -, -⟩ := binarize_laws p 60
  have hwhite : (binarize p 300 false).color 1 0 = Rgba.white := by
    rw [hcolor 1 0 (by decide) (by decide), hlimit, hlight]
    decide
  refine ⟨?_, hwhite, ?_, hagain (-1) (by decide)⟩
  · rw [hcolor 0 0 (by decide) (by decide), hlimit, hdark]
    decide
  · exact hanti 300 (by decide) 1 0 ⟨by decide, by decide, hwhite⟩

end QrRender.Halftone
