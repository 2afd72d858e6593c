import QrRender.Proofs.Options.Built

/-!
# What comes of settings

A builder holds for each thing that can be set what the last setting of it gave. Two settings may
be of one thing, as a colour is given by its numbers or as text, and one setting may be of two, as
the colours of the roles are. What a build answers is said here by these last values alone: which
of them is to blame for an error, and what the options are if none is.

* `Slot`: the things that can be set, each with the type of its values;
* `Builder.ofSettings_eq`: a builder holds the last value of each;
* `First`: the first of several complaints;
* `Builder.Yields`: the options that some settings stand for;
* **`Builder.build_outcome`**: the answer of a build, for any settings.
-/

namespace QrRender

/-! ## 1. Last values -/

/-- A thing that can be set, with the type of its values. -/
inductive Slot (α : Type) : Type → Type where
  | border : Slot α Border
  | blockWidth : Slot α Nat
  | background : Slot α ColorSource
  | clearBackground : Slot α Bool
  | foreground : Slot α ColorSource
  | dataColor : Slot α (Option Rgba)
  | finderColor : Slot α (Option Rgba)
  | gradient : Slot α (Option (Gradient α))
  | shape : Slot α (Shape α)
  | logo : Slot α (Option ImageSource)
  | logoMultiplier : Slot α Nat
  | logoSafeZone : Slot α Bool
  | logoFit : Slot α Bool
  | halftone : Slot α (Option ImageSource)
  | halftoneThreshold : Slot α Int
  | format : Slot α OutputFormat
  | elision : Slot α Elision
  | resolution : Slot α (Option Nat)
  | encoder : Slot α (Option Encoder)

variable {α : Type}

namespace Slot

/-- What a setting gives to a slot, if it is a setting of it. -/
def value? : {β : Type} → Slot α β → Setting α → Option β
  | _, border, .border widths => some (Border.ofShorthand widths)
  | _, blockWidth, .blockWidth w => some w
  | _, background, .background c => some (.color c)
  | _, background, .backgroundHex text => some (.hex text)
  | _, clearBackground, .clearBackground v => some v
  | _, foreground, .foreground c => some (.color c)
  | _, foreground, .foregroundHex text => some (.hex text)
  | _, dataColor, .dataColor c => some (some c)
  | _, finderColor, .finderColor c => some (some c)
  | _, dataColor, .colors roles => some roles.data
  | _, finderColor, .colors roles => some roles.finder
  | _, gradient, .gradient g => some (some g)
  | _, shape, .shape s => some s
  | _, logo, .logo p => some (some (.picture p))
  | _, logo, .logoFile path => some (some (.file path))
  | _, logoMultiplier, .logoMultiplier n => some n
  | _, logoSafeZone, .logoSafeZone v => some v
  | _, logoFit, .logoFit v => some v
  | _, halftone, .halftone p => some (some (.picture p))
  | _, halftone, .halftoneFile path => some (some (.file path))
  | _, halftoneThreshold, .halftoneThreshold t => some t
  | _, format, .format f => some f
  | _, elision, .elision e => some e
  | _, resolution, .resolution n => some (some n)
  | _, encoder, .encoder e => some (some e)
  | _, _, _ => none

/-- What a builder holds in a slot. -/
def get : {β : Type} → Slot α β → Builder α → β
  | _, border, b => b.border
  | _, blockWidth, b => b.blockWidth
  | _, background, b => b.background
  | _, clearBackground, b => b.clearBackground
  | _, foreground, b => b.foreground
  | _, dataColor, b => b.colors.data
  | _, finderColor, b => b.colors.finder
  | _, gradient, b => b.gradient
  | _, shape, b => b.shape
  | _, logo, b => b.logo
  | _, logoMultiplier, b => b.logoMultiplier
  | _, logoSafeZone, b => b.logoSafeZone
  | _, logoFit, b => b.logoFit
  | _, halftone, b => b.halftone
  | _, halftoneThreshold, b => b.halftoneThreshold
  | _, format, b => b.format
  | _, elision, b => b.elision
  | _, resolution, b => b.resolution
  | _, encoder, b => b.encoder

variable {β : Type}

/-- The value that a slot was given last, or the default if it was given none. -/
def last (slot : Slot α β) (settings : List (Setting α)) : β :=
  (settings.filterMap slot.value?).getLast?.getD (slot.get Builder.initial)

/-- A setting changes the slots that it gives a value, and no others. -/
theorem get_apply (slot : Slot α β) (b : Builder α) (s : Setting α) :
    slot.get (b.apply s) = (slot.value? s).getD (slot.get b) := by
  cases s <;> cases slot <;> rfl

/-- Of several settings the last one of a slot counts. -/
theorem get_foldl_apply (slot : Slot α β) (settings : List (Setting α)) (b : Builder α) :
    slot.get (settings.foldl Builder.apply b) =
      (settings.filterMap slot.value?).getLast?.getD (slot.get b) := by
  induction settings generalizing b with
  | nil => rfl
  | cons s settings ih =>
    rw [List.foldl_cons, ih, get_apply]
    cases hs : slot.value? s with
    | none => rw [List.filterMap_cons_none hs]; rfl
    | some v =>
      rw [List.filterMap_cons_some hs, List.getLast?_cons]
      rfl

end Slot

/-- The builder that holds the last value of each slot. -/
def Builder.ofLast (settings : List (Setting α)) : Builder α where
  border := Slot.border.last settings
  blockWidth := Slot.blockWidth.last settings
  background := Slot.background.last settings
  clearBackground := Slot.clearBackground.last settings
  foreground := Slot.foreground.last settings
  colors := ⟨Slot.dataColor.last settings, Slot.finderColor.last settings⟩
  gradient := Slot.gradient.last settings
  shape := Slot.shape.last settings
  logo := Slot.logo.last settings
  logoMultiplier := Slot.logoMultiplier.last settings
  logoSafeZone := Slot.logoSafeZone.last settings
  logoFit := Slot.logoFit.last settings
  halftone := Slot.halftone.last settings
  halftoneThreshold := Slot.halftoneThreshold.last settings
  format := Slot.format.last settings
  elision := Slot.elision.last settings
  resolution := Slot.resolution.last settings
  encoder := Slot.encoder.last settings

/-- **A builder holds in each slot the value that it was given last.** -/
theorem Builder.ofSettings_eq (settings : List (Setting α)) :
    ofSettings settings = ofLast settings := by
  have hlast : ∀ {β : Type} (slot : Slot α β),
      slot.last settings = slot.get (ofSettings settings) := fun slot =>
    (slot.get_foldl_apply settings initial).symm
  unfold ofLast
  simp only [hlast]
  rfl

/-! ## 2. Sources -/

/-- The answers of an operation are known if some are, and there is always one of them. -/
theorem Checked.answer_iff {ε β : Type} {x : Except ε β} {good : β → Prop} {bad : ε → Prop}
    (hgood : ∀ v, good v → x = .ok v) (hbad : ∀ e, bad e → x = .error e)
    (htotal : (∃ v, good v) ∨ ∃ e, bad e) :
    (∀ v, x = .ok v ↔ good v) ∧ ∀ e, x = .error e ↔ bad e := by
  refine ⟨fun v => ⟨fun h => ?_, hgood v⟩, fun e => ⟨fun h => ?_, hbad e⟩⟩
  · obtain ⟨w, hw⟩ | ⟨e, he⟩ := htotal
    · obtain rfl := Except.ok.inj (h.symm.trans (hgood w hw))
      exact hw
    · cases h.symm.trans (hbad e he)
  · obtain ⟨v, hv⟩ | ⟨e', he'⟩ := htotal
    · cases h.symm.trans (hgood v hv)
    · obtain rfl := Except.error.inj (h.symm.trans (hbad e' he'))
      exact he'

namespace ImageSource

variable {files : String → Except String Picture}

/-- The picture that an optional image stands for: none for none, a picture for itself, and a file
    for what is read from it. -/
inductive Loads (files : String → Except String Picture) :
    Option ImageSource → Option Picture → Prop where
  | absent : Loads files none none
  | picture (p : Picture) : Loads files (some (.picture p)) (some p)
  | file {path : String} {p : Picture} (h : files path = .ok p) :
    Loads files (some (.file path)) (some p)

/-- The error of an image that is a file and cannot be read. -/
inductive Unreadable (files : String → Except String Picture) :
    Option ImageSource → Error → Prop where
  | file {path cause : String} (h : files path = .error cause) :
    Unreadable files (some (.file path)) (.imageRead path cause)

theorem exists_unreadable {source : Option ImageSource} :
    (∃ e, Unreadable files source e) ↔
      ∃ path cause, source = some (.file path) ∧ files path = .error cause := by
  constructor
  · rintro ⟨_, ⟨h⟩⟩
    exact ⟨_, _, rfl, h⟩
  · rintro ⟨path, cause, rfl, h⟩
    exact ⟨_, .file h⟩

theorem loads_or_unreadable (source : Option ImageSource) :
    (∃ p, Loads files source p) ∨ ∃ e, Unreadable files source e := by
  cases source with
  | none => exact .inl ⟨_, .absent⟩
  | some source =>
    cases source with
    | picture p => exact .inl ⟨_, .picture p⟩
    | file path =>
      cases h : files path with
      | ok p => exact .inl ⟨_, .file h⟩
      | error cause => exact .inr ⟨_, .file h⟩

/-- **What becomes of an optional image.** -/
theorem loadOptional_iff (files : String → Except String Picture) (source : Option ImageSource) :
    (∀ p, Builder.loadOptional files source = .ok p ↔ Loads files source p) ∧
      ∀ e, Builder.loadOptional files source = .error e ↔ Unreadable files source e := by
  refine Checked.answer_iff ?_ ?_ (loads_or_unreadable source)
  · intro p hp
    cases hp with
    | absent => rfl
    | picture p => rfl
    | file h =>
      rw [Builder.loadOptional, load, h]
      rfl
  · rintro _ ⟨h⟩
    rw [Builder.loadOptional, load, h]
    rfl

end ImageSource

namespace ColorSource

/-- The colour that a source stands for. -/
inductive Resolves : ColorSource → Rgba → Prop where
  | color (c : Rgba) : Resolves (.color c) c
  | hex {text : String} {c : Rgba} (h : Rgba.ofHex? text = some c) : Resolves (.hex text) c

/-- The error of a colour that is a text and cannot be read. -/
inductive Rejected : ColorSource → Error → Prop where
  | hex {text : String} (h : Rgba.ofHex? text = none) : Rejected (.hex text) (.invalidColor text)

theorem exists_rejected {source : ColorSource} :
    (∃ e, Rejected source e) ↔ ∃ text, source = .hex text ∧ Rgba.ofHex? text = none := by
  constructor
  · rintro ⟨_, ⟨h⟩⟩
    exact ⟨_, rfl, h⟩
  · rintro ⟨text, rfl, h⟩
    exact ⟨_, .hex h⟩

theorem resolves_or_rejected (source : ColorSource) :
    (∃ c, Resolves source c) ∨ ∃ e, Rejected source e := by
  cases source with
  | color c => exact .inl ⟨_, .color c⟩
  | hex text =>
    cases h : Rgba.ofHex? text with
    | some c => exact .inl ⟨_, .hex h⟩
    | none => exact .inr ⟨_, .hex h⟩

/-- **What becomes of a colour.** -/
theorem resolve_iff (source : ColorSource) :
    (∀ c, source.resolve = .ok c ↔ Resolves source c) ∧
      ∀ e, source.resolve = .error e ↔ Rejected source e := by
  refine Checked.answer_iff ?_ ?_ (resolves_or_rejected source)
  · intro c hc
    cases hc with
    | color c => rfl
    | hex h => rw [resolve, h]
  · rintro _ ⟨h⟩
    rw [resolve, h]

end ColorSource

/-! ## 3. Complaints -/

/-- The error of the first of several complaints that there is an error of. -/
inductive First : List (Error → Prop) → Error → Prop where
  | here {p : Error → Prop} {ps : List (Error → Prop)} {e : Error} (h : p e) : First (p :: ps) e
  | there {p : Error → Prop} {ps : List (Error → Prop)} {e : Error} (hnone : ¬∃ e, p e)
    (h : First ps e) : First (p :: ps) e

namespace First

variable {β γ : Type} {p : Error → Prop} {ps : List (Error → Prop)} {e : Error}

theorem cons_iff : First (p :: ps) e ↔ p e ∨ (¬∃ e, p e) ∧ First ps e := by
  constructor
  · intro h
    cases h with
    | here h => exact .inl h
    | there hnone h => exact .inr ⟨hnone, h⟩
  · rintro (h | ⟨hnone, h⟩)
    · exact .here h
    · exact .there hnone h

/-- There is a first complaint if there is one at all. -/
theorem exists_iff : (∃ e, First ps e) ↔ ∃ p ∈ ps, ∃ e, p e := by
  induction ps with
  | nil =>
    constructor
    · rintro ⟨e, ⟨⟩⟩
    · rintro ⟨p, hp, -⟩
      cases hp
  | cons p ps ih =>
    simp only [List.mem_cons, exists_eq_or_imp, ← ih]
    by_cases hp : ∃ e, p e
    · obtain ⟨e, he⟩ := hp
      exact iff_of_true ⟨e, .here he⟩ (.inl ⟨e, he⟩)
    · simp only [cons_iff, hp, not_false_eq_true, true_and, false_or]
      exact ⟨fun ⟨e, h⟩ => ⟨e, h.resolve_left fun he => hp ⟨e, he⟩⟩,
        fun ⟨e, h⟩ => ⟨e, .inr h⟩⟩

/-- The error of two operations in a row is that of the first, or of the second if the first has an
    answer. -/
theorem bind_iff {x : Except Error β} {good : β → Prop} {f : β → Except Error γ}
    (hx : (∀ v, x = .ok v ↔ good v) ∧ ∀ e, x = .error e ↔ p e)
    (hf : ∀ v, good v → (f v = .error e ↔ First ps e)) :
    x >>= f = .error e ↔ First (p :: ps) e := by
  rw [cons_iff]
  cases hanswer : x with
  | ok v =>
    have hnone : ¬∃ e, p e := by
      rintro ⟨e, he⟩
      cases hanswer.symm.trans ((hx.2 e).mpr he)
    rw [or_iff_right fun he => hnone ⟨e, he⟩, and_iff_right hnone]
    exact hf v ((hx.1 v).mp hanswer)
  | error e' =>
    have he' := (hx.2 e').mp hanswer
    rw [or_iff_left fun hnone => hnone.1 ⟨e', he'⟩, ← hx.2, hanswer, Except.error.injEq]
    exact Iff.of_eq (Except.error.injEq e' e)

end First

/-! ## 4. Builds -/

namespace Builder

variable {files : String → Except String Picture} {settings : List (Setting α)}

/-- What there may be to complain of in some settings: no width, a logo or a halftone that cannot be
    read, a background or a foreground that is no colour. -/
def complaints (files : String → Except String Picture) (settings : List (Setting α)) :
    List (Error → Prop) :=
  [fun e => Slot.blockWidth.last settings = 0 ∧ e = .invalidBlockWidth,
    ImageSource.Unreadable files (Slot.logo.last settings),
    ImageSource.Unreadable files (Slot.halftone.last settings),
    ColorSource.Rejected (Slot.background.last settings),
    ColorSource.Rejected (Slot.foreground.last settings)]

/-- **A build fails with the first complaint.** -/
theorem build_eq_error_iff (e : Error) :
    (ofSettings settings).build files = .error e ↔ First (complaints files settings) e := by
  rw [ofSettings_eq, complaints]
  unfold build
  by_cases hwidth : (ofLast settings).blockWidth = 0
  · have hcomplaint : ∃ e, Slot.blockWidth.last settings = 0 ∧ e = Error.invalidBlockWidth :=
      ⟨_, hwidth, rfl⟩
    rw [if_pos hwidth, First.cons_iff, or_iff_left fun hnone => hnone.1 hcomplaint]
    exact (Iff.of_eq (Except.error.injEq _ _)).trans
      ⟨fun h => ⟨hwidth, h.symm⟩, fun h => h.2.symm⟩
  · have hnone : ¬∃ e, Slot.blockWidth.last settings = 0 ∧ e = Error.invalidBlockWidth :=
      fun hzero => hwidth hzero.choose_spec.1
    rw [if_neg hwidth, First.cons_iff, or_iff_right fun he => hnone ⟨e, he⟩, and_iff_right hnone]
    refine First.bind_iff (ImageSource.loadOptional_iff files _) fun logo _ => ?_
    refine First.bind_iff (ImageSource.loadOptional_iff files _) fun halftone _ => ?_
    refine First.bind_iff (ColorSource.resolve_iff _) fun background _ => ?_
    refine First.bind_iff (ColorSource.resolve_iff _) fun foreground _ => ?_
    constructor <;> rintro ⟨⟩

/-- The options that some settings stand for: each field is the last value of its slot, with what
    was given as text or in files read, a multiplier of zero replaced by five, and a resolution of
    zero and a gradient without stops left out. -/
structure Yields (files : String → Except String Picture) (settings : List (Setting α))
    (o : Options α) : Prop where
  sound : o.Sound
  border : o.border = Slot.border.last settings
  blockWidth : o.blockWidth = Slot.blockWidth.last settings
  backgroundColor : (Slot.background.last settings).Resolves o.backgroundColor
  clearBackground : o.clearBackground = Slot.clearBackground.last settings
  foreground : (Slot.foreground.last settings).Resolves o.foreground
  colors : o.colors = ⟨Slot.dataColor.last settings, Slot.finderColor.last settings⟩
  gradient : ∀ g, o.gradient = some g ↔ Slot.gradient.last settings = some g ∧ g.stops ≠ []
  shape : o.shape = Slot.shape.last settings
  logo : ∃ p, ImageSource.Loads files (Slot.logo.last settings) p ∧ o.logo = p.map Picture.toImage
  logoMultiplier : o.logoMultiplier =
    if Slot.logoMultiplier.last settings = 0 then 5 else Slot.logoMultiplier.last settings
  logoSafeZone : o.logoSafeZone = Slot.logoSafeZone.last settings
  logoFit : o.logoFit = Slot.logoFit.last settings
  halftone : ImageSource.Loads files (Slot.halftone.last settings) o.halftone
  halftoneThreshold : o.halftoneThreshold = Slot.halftoneThreshold.last settings
  format : o.format = Slot.format.last settings
  elision : o.elision = Slot.elision.last settings
  resolution : ∀ n, o.resolution = some n ↔ Slot.resolution.last settings = some n ∧ 0 < n
  encoder : o.encoder = Slot.encoder.last settings

theorem filter_gradient {gradient : Option (Gradient α)} (g : Gradient α) :
    gradient.filter (fun g => !g.isEmpty) = some g ↔ gradient = some g ∧ g.stops ≠ [] := by
  rw [Option.filter_eq_some_iff, Gradient.isEmpty, Bool.not_eq_true', List.isEmpty_eq_false_iff]

theorem filter_resolution {resolution : Option Nat} (n : Nat) :
    resolution.filter (fun r => r != 0) = some n ↔ resolution = some n ∧ 0 < n := by
  rw [Option.filter_eq_some_iff, bne_iff_ne, Nat.pos_iff_ne_zero]

attribute [ext] Options

/-- **A build answers with the options that the settings stand for.** -/
theorem build_eq_ok_iff (o : Options α) :
    (ofSettings settings).build files = .ok o ↔ Yields files settings o := by
  have hload := fun source p => (ImageSource.loadOptional_iff files source).1 p
  have hresolve := fun source c => (ColorSource.resolve_iff source).1 c
  rw [ofSettings_eq]
  constructor
  · intro h
    have hsound := build_sound h
    obtain ⟨-, logo, halftone, background, foreground, hlogo, hhalftone, hbackground, hforeground,
      rfl⟩ := build_eq_ok h
    constructor
    case sound => exact hsound
    case backgroundColor => exact (hresolve _ _).mp hbackground
    case foreground => exact (hresolve _ _).mp hforeground
    case logo => exact ⟨logo, (hload _ _).mp hlogo, rfl⟩
    case halftone => exact (hload _ _).mp hhalftone
    case gradient => exact filter_gradient
    case resolution => exact filter_resolution
    all_goals rfl
  · intro h
    obtain ⟨logo, hlogo, himage⟩ := h.logo
    have hwidth : (ofLast settings).blockWidth ≠ 0 := by
      have hpos := h.sound.blockWidth_pos
      rw [h.blockWidth] at hpos
      exact Nat.pos_iff_ne_zero.mp hpos
    rw [build_eq_assemble hwidth ((hload _ _).mpr hlogo) ((hload _ _).mpr h.halftone)
      ((hresolve _ _).mpr h.backgroundColor) ((hresolve _ _).mpr h.foreground)]
    refine congrArg Except.ok (Options.ext h.border.symm h.blockWidth.symm rfl
      h.clearBackground.symm rfl h.colors.symm ?_ h.shape.symm himage.symm h.logoMultiplier.symm
      h.logoSafeZone.symm h.logoFit.symm rfl h.halftoneThreshold.symm h.format.symm
      h.elision.symm ?_ h.encoder.symm)
    · exact Option.ext fun g => (filter_gradient g).trans (h.gradient g).symm
    · exact Option.ext fun n => (filter_resolution n).trans (h.resolution n).symm

/-- **The answer of a build.** By the last value of each slot, a build fails exactly if the modules
    have no width, the logo or the halftone is a file that cannot be read, or the text of the
    background or of the foreground is no colour; the error is that of the first of these in this
    order. Otherwise it answers with the options that the settings stand for. -/
theorem build_outcome (files : String → Except String Picture) (settings : List (Setting α)) :
    ((∃ e, (ofSettings settings).build files = .error e) ↔
      Slot.blockWidth.last settings = 0 ∨
      (∃ path cause, Slot.logo.last settings = some (.file path) ∧ files path = .error cause) ∨
      (∃ path cause, Slot.halftone.last settings = some (.file path) ∧
        files path = .error cause) ∨
      (∃ text, Slot.background.last settings = .hex text ∧ Rgba.ofHex? text = none) ∨
      ∃ text, Slot.foreground.last settings = .hex text ∧ Rgba.ofHex? text = none) ∧
    (∀ e, (ofSettings settings).build files = .error e ↔ First (complaints files settings) e) ∧
    ∀ o, (ofSettings settings).build files = .ok o ↔ Yields files settings o := by
  refine ⟨?_, build_eq_error_iff, build_eq_ok_iff⟩
  simp only [build_eq_error_iff, First.exists_iff, complaints, List.mem_cons, List.not_mem_nil,
    or_false, exists_eq_or_imp, exists_eq_left, exists_and_left, exists_eq, and_true,
    ImageSource.exists_unreadable, ColorSource.exists_rejected]

/-- Colours of the roles replace both colours before them, and are replaced one by one after
    them. -/
example : let settings : List (Setting Nat) :=
      [.dataColor Rgba.black, .colors ⟨none, some Rgba.black⟩, .finderColor Rgba.white]
    Slot.dataColor.last settings = none ∧ Slot.finderColor.last settings = some Rgba.white := by
  exact ⟨rfl, rfl⟩

end Builder

end QrRender
