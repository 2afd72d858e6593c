import QrRender.Proofs.Mesh.Cover

/-!
# The colours of a mesh one by one

A rectangle stops growing at a pixel of another colour and at a covered one, and a covered pixel has
the colour of its rectangle. So the rectangles of one colour are found as if there were no other:
where some colours are taken out of an image, the bitmap is another one from then on, but it differs
only where no rectangle of the remaining colours could go.

* `KeepsColors`: an image that has, of the foreground of another, the pixels of some colours and
  nothing else;
* `InStep`: the invariant of two runs, one over each of the images; `InStep.visit` keeps it at one
  pixel, and `InStep.foldl` over all;
* `decompose_of_keepsColors`: the rectangles of the second image are those of the first in the
  colours that are kept;
* **`decompose_without`**: colours replaced by clear ones, and white taken for background, remove
  rectangles and change none.
-/

namespace QrRender

/-- The clear colour with the same red, green and blue. -/
def Rgba.cleared (c : Rgba) : Rgba := { c with alpha := 0 }

/-- The image with all pixels of some colours replaced by clear ones, whose red, green and blue are
    those of `behind`. -/
def Image.without (img : Image) (colors : Rgba → Bool) (behind : Nat → Nat → Rgba) : Image :=
  ofFn img.width img.height fun x y =>
    let c := (img.pixel? x y).getD default
    if colors c then (behind x y).cleared else c

theorem Image.pixel?_without (img : Image) (colors : Rgba → Bool) (behind : Nat → Nat → Rgba)
    (x y : Nat) : (img.without colors behind).pixel? x y =
      (img.pixel? x y).map fun c => if colors c then (behind x y).cleared else c := by
  rw [without, pixel?_ofFn]
  by_cases hin : x < img.width ∧ y < img.height
  · obtain ⟨c, hc⟩ := Option.isSome_iff_exists.mp ((img.isSome_pixel? x y).mpr hin)
    rw [if_pos hin, hc]
    rfl
  · rw [if_neg hin, pixel?_eq_none hin]
    rfl

namespace Mesh

theorem isBackground_of_isClear {c : Rgba} (h : c.isClear = true) (elision : Elision) :
    elision.isBackground c = true := by
  cases elision with
  | transparentOrWhite =>
    rw [Elision.isBackground, h]
    rfl
  | transparentOnly => exact h

/-! ## 1. Images that keep some colours -/

/-- Under its elision, the image `img'` has those foreground pixels of `img` whose colours are kept,
    and no other. -/
structure KeepsColors (keep : Rgba → Bool) (img : Image) (elision : Elision) (img' : Image)
    (elision' : Elision) : Prop where
  width : img'.width = img.width
  height : img'.height = img.height
  pixel : ∀ x y c, img'.pixel? x y = some c ∧ elision'.isBackground c = false ↔
    img.pixel? x y = some c ∧ elision.isBackground c = false ∧ keep c = true

/-- Some colours are replaced by clear ones, and the others are kept. -/
theorem keepsColors_without (img : Image) (elision : Elision) (colors : Rgba → Bool)
    (behind : Nat → Nat → Rgba) :
    KeepsColors (fun c => !colors c) img elision (img.without colors behind) elision where
  width := rfl
  height := rfl
  pixel x y c := by
    rw [Image.pixel?_without]
    constructor
    · intro h
      obtain ⟨hc, hb⟩ := h
      obtain ⟨d, hd, hdc⟩ := Option.map_eq_some_iff.mp hc
      by_cases hcolors : colors d = true
      · -- what it is replaced by is background
        rw [if_pos hcolors] at hdc
        rw [← hdc, isBackground_of_isClear rfl] at hb
        cases hb
      · rw [if_neg hcolors] at hdc
        rw [hdc] at hd hcolors
        exact ⟨hd, hb, by simpa using hcolors⟩
    · intro h
      obtain ⟨hc, hb, hkeep⟩ := h
      have hcolors : ¬colors c = true := by simpa using hkeep
      rw [hc, Option.map_some, if_neg hcolors]
      exact ⟨rfl, hb⟩

/-- Where white is background as well, the other colours are kept. -/
theorem keepsColors_white (img : Image) :
    KeepsColors (fun c => !c.isPureWhite) img .transparentOnly img .transparentOrWhite where
  width := rfl
  height := rfl
  pixel x y c := by
    simp only [Elision.isBackground, Bool.or_eq_false_iff, Bool.not_eq_true']

/-! ## 2. Two runs -/

variable {keep : Rgba → Bool} {img img' : Image} {elision elision' : Elision} {s s' : Progress}
  {seen : List (Nat × Nat)}

/-- **Two runs in step**, over an image and over one that keeps some of its colours: the second has
    found the rectangles of the first in these colours. -/
structure InStep (keep : Rgba → Bool) (img : Image) (elision : Elision) (img' : Image)
    (elision' : Elision) (s s' : Progress) (seen : List (Nat × Nat)) : Prop where
  valid : s.Valid img elision seen
  valid' : s'.Valid img' elision' seen
  rects : s'.rects = s.rects.filter fun r => keep r.color

namespace InStep

/-- A foreground pixel that is kept is covered in both runs or in neither: what covers it has its
    colour, and is kept with it. -/
theorem isCovered_eq (hs : InStep keep img elision img' elision' s s' seen)
    (h : KeepsColors keep img elision img' elision') {x y : Nat} {c : Rgba}
    (hc' : img'.pixel? x y = some c) (hb' : elision'.isBackground c = false) :
    s'.isCovered img' x y = s.isCovered img x y := by
  obtain ⟨hc, -, hkeep⟩ := (h.pixel x y c).mp ⟨hc', hb'⟩
  obtain ⟨hx, hy⟩ := (img.isSome_pixel? x y).mp (by rw [hc]; rfl)
  rw [Bool.eq_iff_iff, hs.valid'.covered x y (h.width ▸ hx) (h.height ▸ hy),
    hs.valid.covered x y hx hy, hs.rects]
  constructor
  · intro hex
    obtain ⟨r, hr, hp⟩ := hex
    exact ⟨r, List.mem_of_mem_filter hr, hp⟩
  · intro hex
    obtain ⟨r, hr, hp⟩ := hex
    obtain rfl := Option.some.inj (hc.symm.trans (hs.valid.color r hr x y hp))
    exact ⟨r, List.mem_filter.mpr ⟨hr, hkeep⟩, hp⟩

/-- A colour that is kept finds the same pixels open in both runs. -/
theorem isOpen_eq (hs : InStep keep img elision img' elision' s s' seen)
    (h : KeepsColors keep img elision img' elision') {c : Rgba}
    (hb : elision.isBackground c = false) (hkeep : keep c = true)
    (hb' : elision'.isBackground c = false) : s'.isOpen img' c = s.isOpen img c := by
  funext x y
  rw [Bool.eq_iff_iff, Progress.isOpen_iff, Progress.isOpen_iff]
  constructor
  · intro hopen
    obtain ⟨hfree, hc'⟩ := hopen
    exact ⟨(hs.isCovered_eq h hc' hb').symm.trans hfree, ((h.pixel x y c).mp ⟨hc', hb'⟩).1⟩
  · intro hopen
    obtain ⟨hfree, hc⟩ := hopen
    have hc' := ((h.pixel x y c).mpr ⟨hc, hb, hkeep⟩).1
    exact ⟨(hs.isCovered_eq h hc' hb').trans hfree, hc'⟩

/-- So the same rectangle grows from a pixel of such a colour. -/
theorem grow_eq (hs : InStep keep img elision img' elision' s s' seen)
    (h : KeepsColors keep img elision img' elision') {c : Rgba}
    (hb : elision.isBackground c = false) (hkeep : keep c = true)
    (hb' : elision'.isBackground c = false) (x y : Nat) :
    s'.grow img' x y c = s.grow img x y c := by
  simp only [Progress.grow, hs.isOpen_eq h hb hkeep hb', h.width, h.height]

theorem start (keep : Rgba → Bool) (img : Image) (elision : Elision) (img' : Image)
    (elision' : Elision) :
    InStep keep img elision img' elision' (Progress.start img) (Progress.start img') [] where
  valid := Progress.valid_start img elision
  valid' := Progress.valid_start img' elision'
  rects := rfl

/-- **One pixel keeps the runs in step.** -/
theorem visit (hs : InStep keep img elision img' elision' s s' seen)
    (h : KeepsColors keep img elision img' elision') (p : Nat × Nat) :
    InStep keep img elision img' elision' (s.visit img elision p) (s'.visit img' elision' p)
      (seen ++ [p]) where
  valid := hs.valid.visit p
  valid' := hs.valid'.visit p
  rects := by
    obtain ⟨x, y⟩ := p
    rcases s'.visit_cases img' elision' x y with ⟨c, hc', hfree', hb', hvisit'⟩ | ⟨hskip', hvisit'⟩
    · -- a rectangle of the second run is one of the first
      obtain ⟨hc, hb, hkeep⟩ := (h.pixel x y c).mp ⟨hc', hb'⟩
      have hfree : s.isCovered img x y = false := (hs.isCovered_eq h hc' hb').symm.trans hfree'
      rw [hvisit', Progress.visit_of_open hc hfree hb]
      show _ :: s'.rects = List.filter _ (s.grow img x y c :: s.rects)
      rw [List.filter_cons_of_pos (p := fun r : ColorRect => keep r.color) hkeep, hs.rects,
        hs.grow_eq h hb hkeep hb']
    · rw [hvisit', hs.rects]
      rcases s.visit_cases img elision x y with ⟨c, hc, hfree, hb, hvisit⟩ | ⟨-, hvisit⟩
      · -- a rectangle of the first run alone has a colour that is not kept
        have hlost : ¬keep c = true := by
          intro hkeep
          obtain ⟨hc', hb'⟩ := (h.pixel x y c).mpr ⟨hc, hb, hkeep⟩
          have hcovered := hs.isCovered_eq h hc' hb'
          rw [hskip' c hc' hb', hfree] at hcovered
          cases hcovered
        rw [hvisit]
        show _ = List.filter _ (s.grow img x y c :: s.rects)
        rw [List.filter_cons_of_neg (p := fun r : ColorRect => keep r.color) hlost]
      · rw [hvisit]

/-- A run over some pixels keeps the runs in step. -/
theorem foldl (hs : InStep keep img elision img' elision' s s' seen)
    (h : KeepsColors keep img elision img' elision') (ps : List (Nat × Nat)) :
    InStep keep img elision img' elision' (ps.foldl (Progress.visit img elision) s)
      (ps.foldl (Progress.visit img' elision') s') (seen ++ ps) := by
  induction ps generalizing s s' seen with
  | nil => rwa [List.append_nil]
  | cons p ps ih =>
    have hrest := ih (hs.visit h p)
    rwa [List.append_assoc] at hrest

end InStep

/-! ## 3. The rectangles in some colours -/

/-- **The rectangles of an image that keeps some colours of another** are the other's rectangles in
    these colours, in the same order. -/
theorem decompose_of_keepsColors (h : KeepsColors keep img elision img' elision') :
    decompose img' elision' = (decompose img elision).filter fun r => keep r.color := by
  have hpositions : img'.positions = img.positions := by
    rw [Image.positions, Image.positions, h.width, h.height]
  have hrects := ((InStep.start keep img elision img' elision').foldl h img.positions).rects
  rw [decompose, decompose, hpositions, hrects, List.filter_reverse]

/-- **The colours of a mesh do not depend on one another.** Replacing all pixels of some colours by
    clear ones leaves the rectangles of all other colours as they are and in their order, and
    there are no others; and where white counts as background the rectangles are those that there
    are without it, but for the purely white ones. -/
theorem decompose_without (img : Image) (elision : Elision) (colors : Rgba → Bool)
    (behind : Nat → Nat → Rgba) :
    decompose (img.without colors behind) elision =
        (decompose img elision).filter (fun r => !colors r.color) ∧
      decompose img .transparentOrWhite =
        (decompose img .transparentOnly).filter fun r => !r.color.isPureWhite :=
  ⟨decompose_of_keepsColors (keepsColors_without img elision colors behind),
    decompose_of_keepsColors (keepsColors_white img)⟩

end Mesh

end QrRender
