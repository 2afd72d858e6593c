import QrRender.Output.Picture
import QrRender.Proofs.Drawing.Rest

/-!
# What a drawing leaves as it is

Whatever is drawn on an image, its size stays, and so does the colour of every pixel that no commit
covers. In a picture of a render such a pixel has the background.

* `Surface.Covers`: a pixel is covered by a commit;
* `Image.KeptOutside`: an image with the same size and the same colours outside of some places;
* `Surface.paintCommit_kept`: one commit keeps what it does not cover;
* **`Surface.draw_kept`**: so does a drawing;
* `Renderer.rasterizeIn_kept`: pictures of a render.
-/

namespace QrRender

/-! ## 1. Runs -/

/-- A run of operations keeps what each of them keeps. -/
theorem Checked.foldlM_keeps {β σ : Type} {f : σ → β → Except Fault σ} {I : σ → Prop} {xs : List β}
    (h : ∀ s, I s → ∀ x ∈ xs, ∀ t, f s x = .ok t → I t) {s t : σ} (hs : I s)
    (ht : xs.foldlM f s = .ok t) : I t := by
  induction xs generalizing s with
  | nil =>
    obtain rfl := Except.ok.inj ht
    exact hs
  | cons x xs ih =>
    rw [List.foldlM_cons] at ht
    obtain ⟨u, hu, ht⟩ := Checked.bind_eq_ok ht
    exact ih (fun s hs y hy => h s hs y (List.mem_cons_of_mem x hy))
      (h s hs x List.mem_cons_self u hu) ht

/-- `out` has the size of the image `img`, and its colours outside the places of `p`. -/
structure Image.KeptOutside (p : Nat → Nat → Prop) (img out : Image) : Prop where
  width : out.width = img.width
  height : out.height = img.height
  pixel : ∀ x y, ¬p x y → out.pixel? x y = img.pixel? x y

namespace Image.KeptOutside

variable {p q : Nat → Nat → Prop} {img next out : Image}

theorem refl (p : Nat → Nat → Prop) (img : Image) : KeptOutside p img img :=
  ⟨rfl, rfl, fun _ _ _ => rfl⟩

theorem trans (h : KeptOutside p img next) (h' : KeptOutside p next out) :
    KeptOutside p img out :=
  ⟨h'.width.trans h.width, h'.height.trans h.height,
    fun x y hp => (h'.pixel x y hp).trans (h.pixel x y hp)⟩

theorem mono (h : KeptOutside p img out) (hpq : ∀ x y, p x y → q x y) : KeptOutside q img out :=
  ⟨h.width, h.height, fun x y hq => h.pixel x y fun hp => hq (hpq x y hp)⟩

theorem modify {x y : Nat} (h : p x y) (img : Image) (f : Rgba → Rgba) :
    KeptOutside p img (img.modify x y f) where
  width := width_modify ..
  height := height_modify ..
  pixel px py hp := by
    rw [pixel?_modify, if_neg]
    intro heq
    obtain ⟨rfl, rfl⟩ := heq
    exact hp h

end Image.KeptOutside

/-! ## 2. Drawings -/

variable {α : Type} [Add α] [Sub α] [Mul α] [Div α] [NatCast α] [LT α] [DecidableLT α]
  [LE α] [DecidableLE α] [Numeric α]

namespace Surface

/-- A commit covers the pixel at column `x`, row `y` of an image of `width` by `height`. -/
def Covers (s : Surface α) (k : Commit α) (width height x y : Nat) : Prop :=
  ∃ coverage, s.coverage? k.ink k.style (SubPath.ofSteps k.steps) = some coverage ∧
    (x, y) ∈ coverage.pixels width height

theorem covers_iff {s : Surface α} {k : Commit α} {coverage : Coverage α}
    (h : s.coverage? k.ink k.style (SubPath.ofSteps k.steps) = some coverage)
    {width height x y : Nat} :
    s.Covers k width height x y ↔ (x, y) ∈ coverage.pixels width height := by
  constructor
  · intro hcovers
    obtain ⟨coverage', hsome, hmem⟩ := hcovers
    obtain rfl := Option.some.inj (h.symm.trans hsome)
    exact hmem
  · exact fun hmem => ⟨coverage, h, hmem⟩

/-- What draws nothing covers nothing. -/
theorem not_covers {s : Surface α} {k : Commit α}
    (h : s.coverage? k.ink k.style (SubPath.ofSteps k.steps) = none) (width height x y : Nat) :
    ¬s.Covers k width height x y := by
  intro hcovers
  obtain ⟨coverage, hsome, -⟩ := hcovers
  rw [h] at hsome
  cases hsome

omit [Add α] [Sub α] [Mul α] [Div α] [NatCast α] [LT α] [DecidableLT α] [LE α] [DecidableLE α]
  [Numeric α] in
/-- Laying colours over some places leaves all others. -/
theorem lay_kept {color : Nat → Nat → Except Fault Rgba} {img out : Image}
    {places : List (Nat × Nat)} (h : lay color img places = .ok out) :
    Image.KeptOutside (fun x y => (x, y) ∈ places) img out := by
  refine Checked.foldlM_keeps ?_ (Image.KeptOutside.refl _ img) h
  intro below hkept p hp next hnext
  obtain ⟨c, -, hnext⟩ := Checked.bind_eq_ok hnext
  obtain rfl := Except.ok.inj hnext
  exact hkept.trans (Image.KeptOutside.modify hp below c.laidOver)

/-- One commit leaves what it does not cover. -/
theorem paintCommit_kept {s : Surface α} {k : Commit α} {img out : Image}
    (h : s.paintCommit img k = .ok out) :
    Image.KeptOutside (s.Covers k img.width img.height) img out := by
  unfold paintCommit at h
  cases hcoverage : s.coverage? k.ink k.style (SubPath.ofSteps k.steps) with
  | none =>
    rw [hcoverage] at h
    obtain rfl := Except.ok.inj h
    exact Image.KeptOutside.refl _ img
  | some coverage =>
    simp only [hcoverage, paint] at h
    split at h
    · obtain rfl := Except.ok.inj h
      exact Image.KeptOutside.refl _ img
    · exact (lay_kept h).mono fun x y hmem => ⟨coverage, hcoverage, hmem⟩

/-- **A drawing leaves what none of its commits covers.** -/
theorem draw_kept {s : Surface α} {img out : Image} {cs : List (Command α)}
    (h : s.draw img cs = .ok out) :
    Image.KeptOutside
      (fun x y => ∃ k ∈ Pen.initial.commits cs, s.Covers k img.width img.height x y) img out := by
  rw [draw_eq] at h
  refine Checked.foldlM_keeps ?_ (Image.KeptOutside.refl _ img) h
  intro below hkept k hk next hnext
  have hone := paintCommit_kept hnext
  rw [hkept.width, hkept.height] at hone
  exact hkept.trans (hone.mono fun x y hcovers => ⟨k, hk, hcovers⟩)

end Surface

/-! ## 3. Pictures -/

/-- A picture of a render has the size asked for, and the background where no commit covers it. -/
theorem Renderer.rasterizeIn_kept {r : Renderer α} {w h : Nat} {view : View α} {img : Image}
    (himg : r.rasterizeIn w h view = .ok img) :
    ∃ cs, r.commands = .ok cs ∧ img.width = w ∧ img.height = h ∧
      ∀ x y, x < w → y < h →
        (∀ k ∈ Pen.initial.commits cs,
          ¬(Surface.mk view r.options.gradient).Covers k w h x y) →
        img.pixel? x y = some r.options.background := by
  obtain ⟨cs, hcs, hdraw⟩ := Checked.bind_eq_ok himg
  have hkept := Surface.draw_kept hdraw
  refine ⟨cs, hcs, hkept.width, hkept.height, fun x y hx hy hcovers => ?_⟩
  have hfree : ¬∃ k ∈ Pen.initial.commits cs,
      (Surface.mk view r.options.gradient).Covers k w h x y := by
    intro hex
    obtain ⟨k, hk, hcover⟩ := hex
    exact hcovers k hk hcover
  rw [hkept.pixel x y hfree, Image.pixel?_filled, if_pos ⟨hx, hy⟩]

end QrRender
