import QrRender.Proofs.Numeric.Exact
import QrRender.Proofs.Render.Total

/-!
# Logos that are scaled to fit

A logo that is to be scaled gets the largest size with its proportions that fits into the share of
the symbol that the multiplier leaves it. In exact arithmetic the side that limits the ratio comes
out as long as it may be, and the other is rounded from a length that is no longer than it may be.
Neither rounding nor the pixel that every side keeps makes a side too long, since the limits are
whole numbers and not zero. So the check against the canvas, which is no smaller than the symbol,
lets every scaled logo pass, in both directions of scaling.

* `IsNearest`, `ExactNumbers.isNearest_nearest`: the natural number nearest a length;
* `IsNearest.le`, `IsNearest.eq`: it does not pass a whole number, and is the length if that is one;
* `Options.fittedSide_spec`: one side of a scaled logo;
* `Options.FitsInto`, `Options.fitLogo_fitsInto`: the whole of it;
* **`Options.logoFor_fitted`**: a logo with pixels is scaled and kept, for every canvas around the
  symbol and in the renderer of every grid.
-/

namespace QrRender

variable {K : Type} [Field K] [LinearOrder K]

/-! ## 1. Rounding to the nearest number -/

/-- `n` is the natural number nearest `v`, a midpoint going up. -/
def IsNearest (v : K) (n : Nat) : Prop :=
  (n : K) - ((1 : Nat) : K) / ((2 : Nat) : K) ≤ v ∧ v < (n : K) + ((1 : Nat) : K) / ((2 : Nat) : K)

theorem isNearest_iff {v : K} {n : Nat} :
    IsNearest v n ↔ (n : K) - 1 / 2 ≤ v ∧ v < n + 1 / 2 := by
  rw [IsNearest, Nat.cast_one, Nat.cast_ofNat]

section Nearest

variable [IsStrictOrderedRing K] {v : K} {m n : Nat}

/-- A length up to a whole number is not rounded past it. -/
theorem IsNearest.le (h : IsNearest v n) (hv : v ≤ m) : n ≤ m := by
  have hlt : (n : K) < (m + 1 : Nat) := by
    push_cast
    linarith [(isNearest_iff.mp h).1]
  exact Nat.lt_succ_iff.mp (Nat.cast_lt.mp hlt)

/-- A whole number is rounded to itself. -/
theorem IsNearest.eq (h : IsNearest (m : K) n) : n = m := by
  refine Nat.le_antisymm (h.le le_rfl) ?_
  have hlt : (m : K) < (n + 1 : Nat) := by
    push_cast
    linarith [(isNearest_iff.mp h).2]
  exact Nat.lt_succ_iff.mp (Nat.cast_lt.mp hlt)

/-- A fraction is rounded to the natural number nearest it. -/
theorem isNearest_roundUp (num : Nat) {den : Nat} (hden : 0 < den) :
    IsNearest ((num : K) / den) (Exact.roundUp num den) := by
  have hpos : (0 : K) < den := Nat.cast_pos.mpr hden
  have hdiv := Nat.div_add_mod (2 * num + den) (2 * den)
  have hmod := Nat.mod_lt (2 * num + den) (Nat.mul_pos Nat.two_pos hden)
  have hlow : 2 * den * Exact.roundUp num den ≤ 2 * num + den := by
    unfold Exact.roundUp
    omega
  have hhigh : 2 * num + den < 2 * den * Exact.roundUp num den + 2 * den := by
    unfold Exact.roundUp
    omega
  have hlow' : 2 * (den : K) * Exact.roundUp num den ≤ 2 * num + den := by exact_mod_cast hlow
  have hhigh' : 2 * (num : K) + den < 2 * den * Exact.roundUp num den + 2 * den := by
    exact_mod_cast hhigh
  refine isNearest_iff.mpr ⟨?_, ?_⟩
  · rw [le_div_iff₀ hpos]
    linarith
  · rw [div_lt_iff₀ hpos]
    linarith

/-- With exact numbers, what is nearest a length is nearest its value. -/
theorem ExactNumbers.isNearest_nearest [Numeric K] [ExactNumbers K] (hv : 0 ≤ v) :
    IsNearest v (Numeric.nearest v) := by
  obtain ⟨negative, num, den, hexact, hden, hvalue⟩ := exact_eq v
  rw [Numeric.nearest, hexact]
  cases negative with
  | false =>
    rw [if_neg Bool.false_ne_true] at hvalue
    rw [hvalue]
    exact isNearest_roundUp num hden
  | true =>
    -- a length with a sign is zero
    have hle : (num : K) / den ≤ 0 := by
      rw [if_pos rfl] at hvalue
      linarith
    have hge : 0 ≤ (num : K) / den := div_nonneg (Nat.cast_nonneg _) (Nat.cast_nonneg _)
    have hzero : v = 0 := by
      rw [hvalue, if_pos rfl, le_antisymm hle hge, neg_zero]
    rw [hzero]
    show IsNearest (0 : K) 0
    rw [isNearest_iff]
    constructor <;> norm_num

end Nearest

namespace Options

/-! ## 2. One side -/

/-- A side scaled by a ratio, rounded to the nearest number and at least one. -/
def ScaledSide (ratio : K) (side scaled : Nat) : Prop :=
  ∃ n, IsNearest ((side : K) * ratio) n ∧ scaled = max n 1

variable [IsStrictOrderedRing K] [Numeric K] [ExactNumbers K]

/-- One side of a scaled logo is scaled by the ratio, has a pixel, and is no longer than its limit;
    it is as long as that if it limits the ratio. -/
theorem fittedSide_spec {ratio : K} {side limit : Nat} (hside : 0 < side) (hlimit : 1 ≤ limit)
    (hratio : 0 ≤ ratio) (hle : ratio ≤ limit / side) :
    let scaled := max (Numeric.nearest ((side : K) * ratio)) 1
    ScaledSide ratio side scaled ∧ 1 ≤ scaled ∧ scaled ≤ limit ∧
      (ratio = limit / side → scaled = limit) := by
  have hpos : (0 : K) < side := Nat.cast_pos.mpr hside
  have hnearest : IsNearest ((side : K) * ratio) (Numeric.nearest ((side : K) * ratio)) :=
    ExactNumbers.isNearest_nearest (mul_nonneg hpos.le hratio)
  have hlength : (side : K) * ratio ≤ limit := by
    rw [mul_comm]
    exact (le_div_iff₀ hpos).mp hle
  refine ⟨⟨_, hnearest, rfl⟩, Nat.le_max_right _ _, Nat.max_le.mpr ⟨hnearest.le hlength, hlimit⟩,
    fun heq => ?_⟩
  rw [heq, mul_div_cancel₀ _ hpos.ne'] at hnearest ⊢
  rw [hnearest.eq]
  exact Nat.max_eq_left hlimit

/-! ## 3. The logo -/

/-- The logo scaled to fit into `maxW` by `maxH`: both sides by the one ratio that the tighter limit
    allows, with at least a pixel and within the limits, and as long as one of them. -/
structure FitsInto (K : Type) [Field K] [LinearOrder K] (maxW maxH : Nat) (logo fitted : Image) :
    Prop where
  scaled : ∃ ratio : K, ratio = min ((maxW : K) / logo.width) ((maxH : K) / logo.height) ∧
    ScaledSide ratio logo.width fitted.width ∧ ScaledSide ratio logo.height fitted.height
  width : 1 ≤ fitted.width ∧ fitted.width ≤ maxW
  height : 1 ≤ fitted.height ∧ fitted.height ≤ maxH
  touches : fitted.width = maxW ∨ fitted.height = maxH
  resized : fitted = logo.resize .catmullRom fitted.width fitted.height

/-- **A logo with pixels is scaled to fit.** -/
theorem fitLogo_fitsInto {logo : Image} (hne : 0 < logo.width ∧ 0 < logo.height) {maxW maxH : Nat}
    (hw : 1 ≤ maxW) (hh : 1 ≤ maxH) : FitsInto K maxW maxH logo (fitLogo K logo maxW maxH) := by
  have hratioW : (0 : K) ≤ maxW / logo.width := div_nonneg (Nat.cast_nonneg _) (Nat.cast_nonneg _)
  have hratioH : (0 : K) ≤ maxH / logo.height := div_nonneg (Nat.cast_nonneg _) (Nat.cast_nonneg _)
  obtain ⟨ratio, hratio⟩ :
      ∃ ratio : K, ratio = min ((maxW : K) / logo.width) ((maxH : K) / logo.height) := ⟨_, rfl⟩
  have hmin : ratio = if (maxH : K) / logo.height < maxW / logo.width then
      (maxH : K) / logo.height else maxW / logo.width := by
    rw [hratio, min_comm, min_def_lt]
  have hfitted : fitLogo K logo maxW maxH =
      logo.resize .catmullRom (max (Numeric.nearest ((logo.width : K) * ratio)) 1)
        (max (Numeric.nearest ((logo.height : K) * ratio)) 1) := by
    rw [fitLogo, if_neg (by omega), hmin]
    rfl
  have hnonneg : 0 ≤ ratio := hratio ▸ le_min hratioW hratioH
  obtain ⟨hscaledW, honeW, hleW, hfullW⟩ :=
    fittedSide_spec hne.1 hw hnonneg (hratio ▸ min_le_left _ _)
  obtain ⟨hscaledH, honeH, hleH, hfullH⟩ :=
    fittedSide_spec hne.2 hh hnonneg (hratio ▸ min_le_right _ _)
  -- the resized image has the size asked for
  obtain ⟨hwidth, hheight⟩ := (Picture.ofImage logo).size_resize .catmullRom
    (max (Numeric.nearest ((logo.width : K) * ratio)) 1)
    (max (Numeric.nearest ((logo.height : K) * ratio)) 1)
  have hwidth' : (fitLogo K logo maxW maxH).width =
      max (Numeric.nearest ((logo.width : K) * ratio)) 1 := by
    rw [hfitted]
    exact hwidth
  have hheight' : (fitLogo K logo maxW maxH).height =
      max (Numeric.nearest ((logo.height : K) * ratio)) 1 := by
    rw [hfitted]
    exact hheight
  constructor
  · rw [hwidth', hheight']
    exact ⟨ratio, hratio, hscaledW, hscaledH⟩
  · rw [hwidth']
    exact ⟨honeW, hleW⟩
  · rw [hheight']
    exact ⟨honeH, hleH⟩
  · rw [hwidth', hheight']
    rcases min_choice ((maxW : K) / logo.width) ((maxH : K) / logo.height) with hchoice | hchoice
    · exact .inl (hfullW (hratio.trans hchoice))
    · exact .inr (hfullH (hratio.trans hchoice))
  · rw [hwidth', hheight']
    exact hfitted

/-- A scaled logo passes the check against every canvas that is no smaller than the symbol. -/
theorem logoFor_of_fit {o : Options K} {logo : Image} (hlogo : o.logo = some logo)
    (hfit : o.logoFit = true) (hne : 0 < logo.width ∧ 0 < logo.height) {w h symbolW symbolH : Nat}
    (hm : 1 ≤ o.logoMultiplier) (hsymbolW : o.logoMultiplier ≤ symbolW)
    (hsymbolH : o.logoMultiplier ≤ symbolH) (hw : symbolW ≤ w) (hh : symbolH ≤ h) :
    ∃ fitted, o.logoFor w h symbolW symbolH = .ok (some fitted) ∧
      FitsInto K (symbolW / o.logoMultiplier) (symbolH / o.logoMultiplier) logo fitted := by
  have hne0 : o.logoMultiplier ≠ 0 := Nat.ne_of_gt hm
  have hfits := fitLogo_fitsInto (K := K) hne (Nat.div_pos hsymbolW hm) (Nat.div_pos hsymbolH hm)
  refine ⟨_, ?_, hfits⟩
  have hscaled : o.scaledLogo logo symbolW symbolH =
      .ok (fitLogo K logo (symbolW / o.logoMultiplier) (symbolH / o.logoMultiplier)) := by
    rw [scaledLogo, if_pos hfit, Checked.div_eq_ok hne0, Checked.div_eq_ok hne0]
    rfl
  have hwidth := (Nat.mul_le_mul_right o.logoMultiplier hfits.width.2).trans
    (Nat.div_mul_le_self symbolW o.logoMultiplier)
  have hheight := (Nat.mul_le_mul_right o.logoMultiplier hfits.height.2).trans
    (Nat.div_mul_le_self symbolH o.logoMultiplier)
  simp only [logoFor, hlogo, hscaled]
  exact if_neg (by omega)

/-- **Logos that are scaled to fit are never left out.** A logo with pixels is scaled and kept,
    whatever the multiplier, for every symbol that is not smaller than it and every canvas that is
    not smaller than the symbol; so it is in the renderer of every such grid. -/
theorem logoFor_fitted {o : Options K} {logo : Image} (hlogo : o.logo = some logo)
    (hfit : o.logoFit = true) (hne : 0 < logo.width ∧ 0 < logo.height)
    (hm : 1 ≤ o.logoMultiplier) :
    (∀ w h symbolW symbolH, o.logoMultiplier ≤ symbolW → o.logoMultiplier ≤ symbolH →
      symbolW ≤ w → symbolH ≤ h →
      ∃ fitted, o.logoFor w h symbolW symbolH = .ok (some fitted) ∧
        FitsInto K (symbolW / o.logoMultiplier) (symbolH / o.logoMultiplier) logo fitted) ∧
    ∀ g : Grid, o.logoMultiplier ≤ g.width * o.blockWidth →
      o.logoMultiplier ≤ g.height * o.blockWidth →
      ∃ r fitted, Renderer.ofOptions o g = .ok r ∧ r.logo = some fitted ∧
        FitsInto K (g.width * o.blockWidth / o.logoMultiplier)
          (g.height * o.blockWidth / o.logoMultiplier) logo fitted := by
  constructor
  · intro w h symbolW symbolH hsymbolW hsymbolH hw hh
    exact logoFor_of_fit hlogo hfit hne hm hsymbolW hsymbolH hw hh
  · intro g hsymbolW hsymbolH
    obtain ⟨fitted, hfitted, hfits⟩ := logoFor_of_fit hlogo hfit hne hm hsymbolW hsymbolH
      (w := Renderer.canvasWidth o g) (h := Renderer.canvasHeight o g) (Nat.le_add_right _ _)
      (Nat.le_add_right _ _)
    have hrenderer : Renderer.ofOptions o g = .ok ⟨o, g, some fitted, o.halftone.map fun p =>
        Halftone.prepare p g.width g.height o.halftoneThreshold⟩ := by
      rw [Renderer.ofOptions, hfitted]
      rfl
    exact ⟨_, fitted, hrenderer, rfl, hfits⟩

/-- Options with a wide logo that is to be scaled up into a narrow share. -/
def withWideLogo : Options ℚ :=
  (Builder.ofSettings [.logoFit true, .logoMultiplier 7]).assemble
    (some (Picture.ofFn .gray 9 2 fun _ _ _ => 0)) none .white .black

/-- A logo of nine by two pixels in a symbol of a hundred by ninety. -/
theorem logoFor_fitted_wide :
    let logo := (Picture.ofFn .gray 9 2 fun _ _ _ => 0).toImage
    (withWideLogo.logo = some logo ∧ withWideLogo.logoFit = true ∧
      (0 < logo.width ∧ 0 < logo.height) ∧ 1 ≤ withWideLogo.logoMultiplier) ∧
    ∃ fitted, withWideLogo.logoFor 120 110 100 90 = .ok (some fitted) ∧
      FitsInto ℚ 14 12 logo fitted := by
  intro logo
  have hne : 0 < logo.width ∧ 0 < logo.height := by decide
  have hm : 1 ≤ withWideLogo.logoMultiplier := by decide
  obtain ⟨hfitted, -⟩ := logoFor_fitted (o := withWideLogo) rfl rfl hne hm
  exact ⟨⟨rfl, rfl, hne, hm⟩,
    hfitted 120 110 100 90 (by decide) (by decide) (by decide) (by decide)⟩

end Options

end QrRender
