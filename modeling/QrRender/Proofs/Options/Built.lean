import QrRender.Options.Builder

/-!
# Built options

Building turns settings into options or says what is wrong with them. The options it returns are
`Options.Sound`: the lengths by which a render divides are not zero, and a gradient has a stop.

* `Builder.build_eq_ok`: everything that a successful build says;
* **`Builder.build_sound`**: built options are sound;
* `Builder.build_gradient`: a gradient with a stop is kept;
* `Builder.build_resolution`: a resolution that is set replaces the one before, and nothing else.
-/

namespace QrRender

variable {α : Type}

/-- Options with which nothing is divided by zero and no gradient is without stops. -/
structure Options.Sound (o : Options α) : Prop where
  blockWidth_pos : 0 < o.blockWidth
  logoMultiplier_pos : 0 < o.logoMultiplier
  gradient_stops : ∀ g, o.gradient = some g → g.isEmpty = false
  resolution_pos : ∀ side, o.resolution = some side → 0 < side

namespace Builder

/-- A successful build: the modules have a width, everything given as text or in a file could be
    read, and the options are assembled from it. -/
theorem build_eq_ok {files : String → Except String Picture} {b : Builder α} {o : Options α}
    (h : b.build files = .ok o) :
    b.blockWidth ≠ 0 ∧ ∃ logo halftone background foreground,
      loadOptional files b.logo = .ok logo ∧ loadOptional files b.halftone = .ok halftone ∧
      b.background.resolve = .ok background ∧ b.foreground.resolve = .ok foreground ∧
      o = b.assemble logo halftone background foreground := by
  unfold build at h
  by_cases hw : b.blockWidth = 0
  · rw [if_pos hw] at h
    cases h
  rw [if_neg hw] at h
  obtain ⟨logo, hlogo, h⟩ := Checked.bind_eq_ok h
  obtain ⟨halftone, hhalftone, h⟩ := Checked.bind_eq_ok h
  obtain ⟨background, hbackground, h⟩ := Checked.bind_eq_ok h
  obtain ⟨foreground, hforeground, h⟩ := Checked.bind_eq_ok h
  cases h
  exact ⟨hw, logo, halftone, background, foreground, hlogo, hhalftone, hbackground, hforeground,
    rfl⟩

/-- A build that reads everything answers with what is assembled from it. -/
theorem build_eq_assemble {files : String → Except String Picture} {b : Builder α}
    {logo halftone : Option Picture} {background foreground : Rgba} (hw : b.blockWidth ≠ 0)
    (hlogo : loadOptional files b.logo = .ok logo)
    (hhalftone : loadOptional files b.halftone = .ok halftone)
    (hbackground : b.background.resolve = .ok background)
    (hforeground : b.foreground.resolve = .ok foreground) :
    b.build files = .ok (b.assemble logo halftone background foreground) := by
  unfold build
  rw [if_neg hw, hlogo, hhalftone, hbackground, hforeground]
  rfl

/-- **Built options are sound.** -/
theorem build_sound {files : String → Except String Picture} {b : Builder α} {o : Options α}
    (h : b.build files = .ok o) : o.Sound := by
  obtain ⟨hw, logo, halftone, background, foreground, -, -, -, -, rfl⟩ := build_eq_ok h
  constructor
  · exact Nat.pos_of_ne_zero hw
  · show 0 < if b.logoMultiplier = 0 then Options.defaultLogoMultiplier else b.logoMultiplier
    split
    · decide
    · rename_i hm
      exact Nat.pos_of_ne_zero hm
  · intro g hg
    have hstops := (Option.filter_eq_some_iff.mp hg).2
    simpa using hstops
  · intro side hside
    have hne := (Option.filter_eq_some_iff.mp hside).2
    exact Nat.pos_of_ne_zero (by simpa using hne)

/-- A gradient is kept if it has a stop. -/
theorem build_gradient {files : String → Except String Picture} {b : Builder α} {o : Options α}
    (h : b.build files = .ok o) {g : Gradient α} (hset : b.gradient = some g)
    (hne : g.isEmpty = false) : o.gradient = some g := by
  obtain ⟨-, logo, halftone, background, foreground, -, -, -, -, rfl⟩ := build_eq_ok h
  exact Option.filter_eq_some_iff.mpr ⟨hset, by rw [hne]; rfl⟩

/-- Setting a resolution changes nothing else in the options. -/
theorem build_resolution {files : String → Except String Picture} {b : Builder α} {o : Options α}
    (h : b.build files = .ok o) {side : Nat} (hside : side ≠ 0) :
    (b.apply (.resolution side)).build files = .ok { o with resolution := some side } := by
  obtain ⟨hw, logo, halftone, background, foreground, hlogo, hhalftone, hbackground, hforeground,
    rfl⟩ := build_eq_ok h
  have hkept : (some side).filter (fun r => r != 0) = some side :=
    Option.filter_eq_some_iff.mpr ⟨rfl, by simpa using hside⟩
  rw [build_eq_assemble (b := b.apply (.resolution side)) hw hlogo hhalftone hbackground
    hforeground]
  exact congrArg (fun kept => Except.ok
    { b.assemble logo halftone background foreground with resolution := kept }) hkept

end Builder

end QrRender
