import QrRender.Proofs.Document.Resolution
import QrRender.Proofs.Numeric.Product
import QrRender.Proofs.Render.Squares

/-!
# Squares at a multiple of the size

A square canvas that is drawn at a whole multiple of its side has its pixels repeated. The view
scales by the multiple and has no margins, so the corners of every cell are put on whole numbers,
those of a sub-cell too; over a pixel of the large picture lie the cells that lie over the pixel of
the small one it is a copy of; and these are the same cells with the same colours, so that the
colours are laid over the background equally often and in the same order.

* `Box.scale`, `Box.contains_scale`: a box with all its pixels repeated;
* `View.fit_multiple`, `View.maps_scale`: the view of a multiple, and where it puts boxes;
* `Renderer.rasterize_multiple`: the pixels of the large picture;
* **`Renderer.squares_upscaled`**: the two pictures of a grid, and their statistics.
-/

namespace QrRender

/-! ## 1. Scaled boxes -/

namespace Box

/-- The box with each of its pixels repeated `k` times to the right and `k` times down. -/
def scale (b : Box) (k : Nat) : Box := ⟨k * b.x, k * b.y, k * b.width, k * b.height⟩

/-- **The pixels of a scaled box are copies of those of the box.** -/
theorem contains_scale {b : Box} {k : Nat} (hk : 0 < k) {px py : Nat} :
    (b.scale k).Contains px py ↔ b.Contains (px / k) (py / k) := by
  rw [scale, contains_mk, Contains, Nat.le_div_iff_mul_le hk, Nat.le_div_iff_mul_le hk,
    Nat.div_lt_iff_lt_mul hk, Nat.div_lt_iff_lt_mul hk, ← Nat.mul_add, ← Nat.mul_add,
    Nat.mul_comm b.x, Nat.mul_comm b.y, Nat.mul_comm k (b.x + _), Nat.mul_comm k (b.y + _)]

theorem Nonempty.scale {b : Box} (h : b.Nonempty) {k : Nat} (hk : 0 < k) :
    (b.scale k).Nonempty :=
  ⟨Nat.mul_pos hk h.1, Nat.mul_pos hk h.2⟩

theorem Within.scale {a b : Box} (h : a.Within b) {k : Nat} (hk : 0 < k) :
    (a.scale k).Within (b.scale k) := by
  intro px py hp
  rw [contains_scale hk] at hp ⊢
  exact h _ _ hp

end Box

/-! ## 2. The view of a multiple -/

namespace View

variable {α : Type} [Add α] [Sub α] [Mul α] [Div α] [NatCast α] [Numeric α] [WholeProducts α]

/-- **A square is fitted into a multiple of itself without a margin**, at the scale of the
    multiple. -/
theorem fit_multiple {k n : Nat} (hk : 0 < k) (hn : 0 < n) (h : k * n < 2 ^ 53) :
    (fit (k * n) n n : View α) = ⟨k, (0 : Nat), (0 : Nat)⟩ := by
  have hkn : k < 2 ^ 53 := Nat.lt_of_le_of_lt (Nat.le_mul_of_pos_right k hn) h
  have hnk : n < 2 ^ 53 := Nat.lt_of_le_of_lt (Nat.le_mul_of_pos_left n hk) h
  have hscale : ((k * n : Nat) : α) / (n : α) = k := WholeProducts.natCast_mul_div hkn hnk hn h
  have hlength : (n : α) * (k : α) = ((k * n : Nat) : α) := by
    rw [WholeProducts.natCast_mul hnk hkn (by rwa [Nat.mul_comm]), Nat.mul_comm]
  have hmargin : (((k * n : Nat) : α) - (n : α) * (k : α)) / ((2 : Nat) : α) = (0 : Nat) := by
    rw [hlength, WholeProducts.natCast_sub_self h]
    exact WholeProducts.natCast_mul_div (a := 0) (b := 2) (by decide) (by decide) (by decide)
      (by decide)
  have hside : max (max n n) 1 = n := by omega
  simp only [fit, hside, hscale, hmargin]

/-- A whole number scaled by another one and not moved is their product. -/
theorem natCast_mul_add_zero {a k : Nat} (ha : a < 2 ^ 53) (hk : k < 2 ^ 53)
    (h : k * a < 2 ^ 53) : (a : α) * (k : α) + ((0 : Nat) : α) = ((k * a : Nat) : α) := by
  rw [Nat.mul_comm] at h ⊢
  rw [WholeProducts.natCast_mul ha hk h, WholeNumbers.natCast_add h, Nat.add_zero]

/-- The view of a multiple puts the corners of a box on those of the scaled one. -/
theorem maps_scale {k n : Nat} (hk : 0 < k) (hn : 0 < n) (h : k * n < 2 ^ 53) {b : Box}
    (hne : b.Nonempty) (hin : b.Within ⟨0, 0, n, n⟩) :
    (⟨k, (0 : Nat), (0 : Nat)⟩ : View α).Maps b (b.scale k) := by
  obtain ⟨hright, hbottom⟩ := hin.le_of_nonempty hne
  have hcoord : ∀ a, a ≤ n → (a : α) * (k : α) + ((0 : Nat) : α) = ((k * a : Nat) : α) := by
    intro a ha
    have hka : k * a ≤ k * n := Nat.mul_le_mul_left k ha
    have hkn : k ≤ k * n := Nat.le_mul_of_pos_right k hn
    have hak : a ≤ k * a := Nat.le_mul_of_pos_left a hk
    exact natCast_mul_add_zero (by omega) (by omega) (by omega)
  refine ⟨hcoord _ (by omega), hcoord _ (by omega), ?_, ?_⟩
  · rw [Box.scale, ← Nat.mul_add]
    exact hcoord _ hright
  · rw [Box.scale, ← Nat.mul_add]
    exact hcoord _ hbottom

end View

/-! ## 3. The two pictures -/

namespace Renderer

variable {α : Type} [Add α] [Sub α] [Mul α] [Div α] [NatCast α] [LT α] [DecidableLT α]
  [LE α] [DecidableLE α] [Numeric α] [WholeProducts α]

/-- At a resolution that is a multiple of its side, a square canvas has those calls laid over a
    pixel that are over the pixel it is a copy of. -/
theorem rasterize_multiple {r : Renderer α} {calls : List ShapeCall} {k n : Nat} (hk : 0 < k)
    (hn : 0 < n) (hside : k * n < 2 ^ 53)
    (hfill : Surface.FillsMapped (View.fit (k * n) n n : View α) n n (k * n) (k * n))
    (hresolution : r.options.resolution = some (k * n)) (hw : r.width = n) (hh : r.height = n)
    (hshape : r.options.shape = .square) (hgradient : r.options.gradient = none)
    (hcalls : r.calls = .ok calls) (hne : ∀ call ∈ calls, call.box.Nonempty)
    (hin : ∀ call ∈ calls, call.box.Within ⟨0, 0, n, n⟩) :
    ∃ img, r.rasterize = .ok img ∧ img.width = k * n ∧ img.height = k * n ∧
      ∀ x y, img.pixel? x y = (calls.filter fun call => call.box.Contains (x / k) (y / k)).foldl
        (fun c call => c.map call.paint.flat.laidOver)
        ((Image.filled n n r.options.background).pixel? (x / k) (y / k)) := by
  have hfills : ∀ call ∈ calls, (Surface.mk (View.fit (k * n) n n : View α) none).FillsAs (k * n)
      (k * n) call.box (call.box.scale k) := by
    intro call hcall
    have hmaps := View.maps_scale (α := α) hk hn hside (hne call hcall) (hin call hcall)
    rw [← View.fit_multiple hk hn hside] at hmaps
    exact hfill _ _ (hne call hcall) (hin call hcall) ((hne call hcall).scale hk)
      ((hin call hcall).scale hk) hmaps
  obtain ⟨img, himg, hiw, hih, hpixel⟩ := rasterizeIn_squares hfills hshape hgradient hcalls
  have hrasterize : r.rasterize = r.rasterizeIn (k * n) (k * n) (View.fit (k * n) n n) := by
    rw [rasterize, outputSize_of_resolution hresolution, view_of_resolution hresolution, hw, hh]
  refine ⟨img, hrasterize.trans himg, hiw, hih, fun x y => ?_⟩
  have hover : ∀ call ∈ calls, decide ((call.box.scale k).Contains x y) =
      decide (call.box.Contains (x / k) (y / k)) :=
    fun call _ => decide_eq_decide.mpr (Box.contains_scale hk)
  have hinside : (x < k * n ∧ y < k * n) ↔ (x / k < n ∧ y / k < n) := by
    rw [Nat.div_lt_iff_lt_mul hk, Nat.div_lt_iff_lt_mul hk, Nat.mul_comm]
  rw [hpixel, List.filter_congr hover, Image.pixel?_filled, Image.pixel?_filled]
  simp only [hinside]

/-- **A resolution that is a multiple of the canvas repeats its pixels.** With built options for
    squares and without a gradient, whatever the halftone, the logo and the colours, a grid whose
    canvas is a square of side `n` is drawn at the size of the canvas and, with the resolution set
    to `k * n`, at that size. The two renders have the same statistics, and a pixel of the large
    picture is that of the small one at its place divided by `k`. The resolution is a number that
    is written as it is, as all numbers of 32 bits are, and boxes that have their corners put on
    whole numbers are filled exactly. -/
theorem squares_upscaled {files : String → Except String Picture} {b : Builder α} {o : Options α}
    (h : b.build files = .ok o) (hshape : o.shape = .square) (hgradient : o.gradient = none)
    (g : Grid) {n k : Nat} (hn : 0 < n) (hk : 0 < k) (hwidth : canvasWidth o g = n)
    (hheight : canvasHeight o g = n) (hside : k * n < 2 ^ 53) (hfill : Surface.FillsBoxes α n n)
    (hfill' : Surface.FillsMapped (View.fit (k * n) n n : View α) n n (k * n) (k * n)) :
    ∃ o' r r' stats img img', (b.apply (.resolution (k * n))).build files = .ok o' ∧
      o' = { o with resolution := some (k * n) } ∧
      ofOptions o g = .ok r ∧ ofOptions o' g = .ok r' ∧
      r.stats = .ok stats ∧ r'.stats = .ok stats ∧
      r.rasterizeUnscaled = .ok img ∧ img.width = n ∧ img.height = n ∧
      r'.rasterize = .ok img' ∧ img'.width = k * n ∧ img'.height = k * n ∧
      ∀ x y, img'.pixel? x y = img.pixel? (x / k) (y / k) := by
  obtain ⟨r, hr, rfl, rfl, hsound⟩ := ofOptions_sound (Builder.build_sound h) g
  obtain ⟨zone, occupancy, hzone, -, houtcomes⟩ := outcomes_eq hsound
  have hlaid := laidOut_outcomes hsound occupancy hzone
  have hcalls := calls_eq_of_outcomes houtcomes
  have hr' : ofOptions { r.options with resolution := some (k * n) } r.grid =
      .ok (r.withResolution (some (k * n))) := by
    rw [ofOptions_withResolution, hr]
    rfl
  have hw : r.width = n := hwidth
  have hh : r.height = n := hheight
  obtain ⟨img, himg, hiw, hih, hpixel⟩ := rasterizeUnscaled_eq (by rwa [hw, hh]) hshape hgradient
    hcalls hlaid.nonempty hlaid.inCanvas
  have hin := hlaid.inCanvas
  rw [hw, hh] at hin
  -- the calls are made without the resolution, so those of both renders are the same
  obtain ⟨img', himg', hiw', hih', hpixel'⟩ :=
    rasterize_multiple (r := r.withResolution (some (k * n))) hk hn hside hfill' rfl hw hh hshape
      hgradient hcalls hlaid.nonempty hin
  have hstats := stats_eq_of_outcomes houtcomes
  refine ⟨_, r, r.withResolution (some (k * n)), _, img, img',
    Builder.build_resolution h (Nat.mul_pos hk hn).ne', rfl, hr, hr', hstats, hstats, himg,
    hiw.trans hw, hih.trans hh, himg', hiw', hih', fun x y => ?_⟩
  rw [hpixel', hpixel, hw, hh]
  rfl

/-- Translucent modules with a halftone, some of them hidden behind a logo, in three times the
    size. -/
theorem squares_upscaled_behind_logo :
    let b : Builder ℚ := Builder.ofSettings [.blockWidth 4, .border [1],
      .foreground ⟨255, 0, 0, 128⟩, .halftone (Picture.ofFn .gray 1 1 fun _ _ _ => 0),
      .logo (Picture.ofFn .gray 1 1 fun _ _ _ => 0), .logoSafeZone true]
    let g := Grid.ofFn 9 9 fun x y => ⟨x == y, .data⟩
    ∃ o, b.build (fun _ => .error "missing") = .ok o ∧ o.shape = .square ∧ o.gradient = none ∧
      canvasWidth o g = 38 ∧ canvasHeight o g = 38 ∧ Surface.FillsBoxes ℚ 38 38 ∧
      Surface.FillsMapped (View.fit 114 38 38 : View ℚ) 38 38 114 114 ∧
      ∃ r r' stats img img', ofOptions o g = .ok r ∧
        ofOptions { o with resolution := some 114 } g = .ok r' ∧
        r.stats = .ok stats ∧ r'.stats = .ok stats ∧
        r.rasterizeUnscaled = .ok img ∧ r'.rasterize = .ok img' ∧
        img.width = 38 ∧ img'.width = 114 ∧ img'.pixel? 4 5 = img.pixel? 1 1 ∧
        img'.pixel? 113 60 = img.pixel? 37 20 := by
  intro b g
  obtain ⟨o, ho⟩ : ∃ o, b.build (fun _ => .error "missing") = .ok o := ⟨_, rfl⟩
  obtain ⟨hshape, hgradient, hwidth, hheight⟩ : o.shape = .square ∧ o.gradient = none ∧
      canvasWidth o g = 38 ∧ canvasHeight o g = 38 := by
    obtain rfl := Except.ok.inj ho
    exact ⟨rfl, rfl, rfl, rfl⟩
  have hfill := Surface.fillsBoxes ℚ 38 38
  have hfill' := Surface.fillsMapped (View.fit 114 38 38 : View ℚ) 38 38 114 114
  obtain ⟨_, r, r', stats, img, img', -, rfl, hr, hr', hstats, hstats', himg, hw, -, himg', hw', -,
    hpixel⟩ := squares_upscaled (k := 3) ho hshape hgradient g (by decide) (by decide) hwidth
      hheight (by decide) hfill hfill'
  exact ⟨o, ho, hshape, hgradient, hwidth, hheight, hfill, hfill', r, r', stats, img, img', hr, hr',
    hstats, hstats', himg, himg', hw, hw', hpixel 4 5, hpixel 113 60⟩

end Renderer

end QrRender
