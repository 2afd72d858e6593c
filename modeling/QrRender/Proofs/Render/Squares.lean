import QrRender.Output.Picture
import QrRender.Proofs.Raster.Pixels
import QrRender.Proofs.Render.Tiling
import QrRender.Proofs.Shape.Alone

/-!
# Squares, pixel by pixel

In the unscaled picture of a grid in squares, without a gradient and without a halftone, every
pixel can be told from its place: the colour of its module laid over the background once, if there
is a dark module that is not hidden, and the background otherwise.

* `Renderer.filter_calls_block`: over a pixel of a block there is the call for its module, if it is
  drawn, and no other;
* `ShapeCall.commits_squares`: the drawing has one commit for every call;
* `Surface.FillsAs.covers`: a commit covers the pixels that its box is filled as;
* `Renderer.rasterizeIn_squares`, `Renderer.rasterizeUnscaled_eq`: the calls over a pixel are laid
  over the background in their order;
* **`Renderer.squares_pixel`**: the pixels of the picture.
-/

namespace QrRender

/-! ## 1. Calls over a pixel -/

namespace Renderer

variable {α : Type}

/-- The module of a cell is drawn where there is no halftone: it is dark and not hidden. -/
def isDrawn (r : Renderer α) (zone : Option Zone) (c : GridCell) : Bool :=
  c.content.dark && !r.isHidden zone c.column c.row

/-- Without a halftone the calls are those for the whole modules that are drawn. -/
theorem calls_outcomeOf {r : Renderer α} (hhalftone : r.halftone = none) (zone : Option Zone)
    (occupancy : Occupancy) (c : GridCell) :
    (r.outcomeOf zone occupancy c).calls =
      if r.isDrawn zone c then [r.wholeCall occupancy c] else [] := by
  unfold outcomeOf isDrawn
  rw [hhalftone]
  by_cases hhidden : r.isHidden zone c.column c.row = true
  · simp [hhidden, Outcome.calls]
  · by_cases hdark : c.content.dark = true
    · simp [hhidden, hdark, Outcome.calls, wholeCall]
    · simp [hhidden, hdark, Outcome.calls]

theorem mem_calls {r : Renderer α} (hhalftone : r.halftone = none) {zone : Option Zone}
    {occupancy : Occupancy} {call : ShapeCall} :
    call ∈ (r.grid.cells.map (r.outcomeOf zone occupancy)).flatMap Outcome.calls ↔
      ∃ c ∈ r.grid.cells, r.isDrawn zone c = true ∧ call = r.wholeCall occupancy c := by
  simp only [List.flatMap_map, List.mem_flatMap, calls_outcomeOf hhalftone, List.mem_ite_nil_right,
    List.mem_singleton]

/-- Two cells with one pixel in their blocks are the same. -/
theorem cell_eq_of_contains {r : Renderer α} (hb : 0 < r.options.blockWidth) {c c' : GridCell}
    (hc : c ∈ r.grid.cells) (hc' : c' ∈ r.grid.cells) {px py : Nat}
    (h : (r.block c.column c.row).Contains px py)
    (h' : (r.block c'.column c'.row).Contains px py) : c = c' := by
  have hplace : (c.column, c.row) = (c'.column, c'.row) :=
    ((contains_block hb).mp h).2.symm.trans ((contains_block hb).mp h').2
  obtain ⟨column, row, m⟩ := c
  obtain ⟨column', row', m'⟩ := c'
  obtain ⟨rfl, rfl⟩ := Prod.mk.inj hplace
  obtain rfl : m = m' :=
    Except.ok.inj ((Grid.mem_cells.mp hc).2.symm.trans (Grid.mem_cells.mp hc').2)
  rfl

/-- **Over a pixel of a block there is the call for its module, if it is drawn, and no other.** -/
theorem filter_calls_block {r : Renderer α} (hr : r.Sound) (hhalftone : r.halftone = none)
    {zone : Option Zone} (hzone : r.safeZone = .ok zone) (occupancy : Occupancy) {c : GridCell}
    (hc : c ∈ r.grid.cells) {px py : Nat} (h : (r.block c.column c.row).Contains px py) :
    (((r.grid.cells.map (r.outcomeOf zone occupancy)).flatMap Outcome.calls).filter
        fun call => call.box.Contains px py) =
      if r.isDrawn zone c then [r.wholeCall occupancy c] else [] := by
  by_cases hdrawn : r.isDrawn zone c = true
  · rw [if_pos hdrawn]
    exact Box.filter_contains_eq_singleton (laidOut_outcomes hr occupancy hzone).disjoint
      ((mem_calls hhalftone).mpr ⟨c, hc, hdrawn, rfl⟩) h
  · rw [if_neg hdrawn]
    refine List.filter_eq_nil_iff.mpr fun call hcall hp => hdrawn ?_
    obtain ⟨c', hc', hdrawn', rfl⟩ := (mem_calls hhalftone).mp hcall
    rwa [cell_eq_of_contains hr.options.blockWidth_pos hc hc' h (of_decide_eq_true hp)]

/-- Over a pixel of the border there is no call. -/
theorem filter_calls_border {r : Renderer α} (hr : r.Sound) {zone : Option Zone}
    (hzone : r.safeZone = .ok zone) (occupancy : Occupancy) {px py : Nat}
    (h : ¬r.interior.Contains px py) :
    (((r.grid.cells.map (r.outcomeOf zone occupancy)).flatMap Outcome.calls).filter
        fun call => call.box.Contains px py) = [] :=
  List.filter_eq_nil_iff.mpr fun call hcall hp =>
    h ((laidOut_outcomes hr occupancy hzone).inInterior call hcall px py (of_decide_eq_true hp))

theorem paint_eq_solid {r : Renderer α} (h : r.options.gradient = none) (m : Module) :
    r.paint m = .solid (r.options.moduleColor m) := by
  unfold paint
  rw [h]
  rfl

end Renderer

/-! ## 2. Commits of squares -/

namespace ShapeCall

variable {α : Type} [Add α] [Sub α] [Mul α] [Div α] [NatCast α] [LT α] [DecidableLT α]

theorem commands_square (c : ShapeCall) :
    c.commands (α := α) .square = [.path c.box.step, .paint c.paint, .commit .fill] := by
  unfold commands
  split <;> rfl

variable [LE α] [DecidableLE α]

/-- The commit by which a square answers a call. -/
def squareCommit (c : ShapeCall) : Commit α := ⟨[c.box.step], Style.default, c.paint, .fill⟩

/-- A drawing in squares has one commit for every call. -/
theorem commits_squares (paint : Paint) (calls : List ShapeCall) :
    (Pen.resting paint).commits (calls.flatMap (commands (α := α) .square)) =
      calls.map squareCommit := by
  have hdraws : ∀ c ∈ calls, DrawsAlone c.paint (c.commands (α := α) .square) :=
    fun c _ => drawsAlone rfl c
  rw [Pen.commits_flatMap hdraws, List.map_eq_flatMap]
  simp only [commands_square]
  rfl

end ShapeCall

/-! ## 3. What squares cover -/

variable {α : Type} [Add α] [Sub α] [Mul α] [Div α] [NatCast α] [LT α] [DecidableLT α]
  [LE α] [DecidableLE α] [Numeric α]

/-- **A square covers the pixels that its box is filled as.** -/
theorem Surface.FillsAs.covers {s : Surface α} {width height : Nat} {call : ShapeCall} {b : Box}
    (h : s.FillsAs width height call.box b) (x y : Nat) :
    s.Covers call.squareCommit width height x y ↔ b.Contains x y := by
  obtain ⟨coverage, hcoverage, hpixels⟩ := h
  exact (covers_iff hcoverage).trans (hpixels x y)

/-! ## 4. The picture of a render -/

namespace Renderer

/-- A picture in squares, seen through a view: the calls whose boxes are filled over a pixel are
    laid over the background in their order. -/
theorem rasterizeIn_squares {r : Renderer α} {calls : List ShapeCall} {view : View α} {w h : Nat}
    {place : ShapeCall → Box}
    (hfill : ∀ call ∈ calls, (Surface.mk view none).FillsAs w h call.box (place call))
    (hshape : r.options.shape = .square) (hgradient : r.options.gradient = none)
    (hcalls : r.calls = .ok calls) :
    ∃ img, r.rasterizeIn w h view = .ok img ∧ img.width = w ∧ img.height = h ∧
      ∀ x y, img.pixel? x y = (calls.filter fun call => (place call).Contains x y).foldl
        (fun c call => c.map call.paint.flat.laidOver)
        ((Image.filled w h r.options.background).pixel? x y) := by
  obtain ⟨img, himg, ⟨hw, hh⟩, hpixel⟩ := Surface.draw_pixel
    (Surface.shades_flat (s := ⟨view, none⟩) rfl w h)
    (rfl : (Image.filled w h r.options.background).width = w) rfl
    (calls.flatMap (ShapeCall.commands (α := α) .square))
  refine ⟨img, ?_, hw, hh, fun x y => ?_⟩
  · unfold rasterizeIn Renderer.commands
    rw [hcalls, hshape, hgradient]
    exact himg
  · have hcovers : ∀ call ∈ calls, decide ((Surface.mk view none).Covers
        call.squareCommit w h x y) = decide ((place call).Contains x y) :=
      fun call hcall => decide_eq_decide.mpr ((hfill call hcall).covers x y)
    rw [hpixel, Pen.initial, ShapeCall.commits_squares, List.filter_map, List.foldl_map]
    exact congrArg (List.foldl _ _) (List.filter_congr hcovers)

/-- A picture in squares: the calls over a pixel are laid over the background in their order. -/
theorem rasterizeUnscaled_eq {r : Renderer α} {calls : List ShapeCall}
    (hfill : Surface.FillsBoxes α r.width r.height) (hshape : r.options.shape = .square)
    (hgradient : r.options.gradient = none) (hcalls : r.calls = .ok calls)
    (hne : ∀ call ∈ calls, call.box.Nonempty)
    (hin : ∀ call ∈ calls, call.box.Within ⟨0, 0, r.width, r.height⟩) :
    ∃ img, r.rasterizeUnscaled = .ok img ∧ img.width = r.width ∧ img.height = r.height ∧
      ∀ x y, img.pixel? x y = (calls.filter fun call => call.box.Contains x y).foldl
        (fun c call => c.map call.paint.flat.laidOver)
        ((Image.filled r.width r.height r.options.background).pixel? x y) :=
  rasterizeIn_squares (fun call hcall => hfill call.box (hne call hcall) (hin call hcall)) hshape
    hgradient hcalls

/-- The pixels of a sound render in squares. -/
theorem rasterizeUnscaled_pixel {r : Renderer α} (hr : r.Sound)
    (hfill : Surface.FillsBoxes α r.width r.height) (hshape : r.options.shape = .square)
    (hgradient : r.options.gradient = none) (hhalftone : r.halftone = none) {zone : Option Zone}
    (hzone : r.safeZone = .ok zone) :
    ∃ img, r.rasterizeUnscaled = .ok img ∧ img.width = r.width ∧ img.height = r.height ∧
      (∀ px py, px < r.width → py < r.height → ¬r.interior.Contains px py →
        img.pixel? px py = some r.options.background) ∧
      ∀ c ∈ r.grid.cells, ∀ px py, (r.block c.column c.row).Contains px py →
        img.pixel? px py =
          some (if r.isDrawn zone c then
            (r.options.moduleColor c.content).laidOver r.options.background
          else r.options.background) := by
  have hb := hr.options.blockWidth_pos
  obtain ⟨z, occupancy, hz, -, houtcomes⟩ := outcomes_eq hr
  obtain rfl : z = zone := Except.ok.inj (hz.symm.trans hzone)
  have hlaid := laidOut_outcomes hr occupancy hzone
  obtain ⟨img, himg, hw, hh, hpixel⟩ := rasterizeUnscaled_eq hfill hshape hgradient
    (calls_eq_of_outcomes houtcomes) hlaid.nonempty hlaid.inCanvas
  refine ⟨img, himg, hw, hh, ?_, ?_⟩
  · intro px py hx hy hborder
    rw [hpixel, filter_calls_border hr hzone occupancy hborder, Image.pixel?_filled,
      if_pos ⟨hx, hy⟩]
    rfl
  · intro c hc px py h
    have hin := Box.contains_mk.mp (r.interior_within px py (block_within hb hc px py h))
    rw [hpixel, filter_calls_block hr hhalftone hzone occupancy hc h, Image.pixel?_filled,
      if_pos ⟨by omega, by omega⟩]
    by_cases hdrawn : r.isDrawn z c = true
    · simp only [if_pos hdrawn, List.foldl_cons, List.foldl_nil, Option.map_some, wholeCall,
        paint_eq_solid hgradient, Paint.flat]
    · simp only [if_neg hdrawn, List.foldl_nil]

/-- **The pixels of a picture in squares.** With built options for squares, without a gradient and
    without a halftone, every grid has an unscaled picture of the size of the canvas, provided that
    boxes are filled exactly there. Its border is background; so is the block of a module that is
    light or hidden; and over the block of any other module its colour is laid once, which an opaque
    colour does by replacing the background and a clear one by leaving it. -/
theorem squares_pixel {files : String → Except String Picture} {b : Builder α} {o : Options α}
    (h : b.build files = .ok o) (hshape : o.shape = .square) (hgradient : o.gradient = none)
    (hhalftone : o.halftone = none) (g : Grid)
    (hfill : Surface.FillsBoxes α (canvasWidth o g) (canvasHeight o g)) :
    ∃ r zone img, ofOptions o g = .ok r ∧ r.safeZone = .ok zone ∧ r.rasterizeUnscaled = .ok img ∧
      img.width = canvasWidth o g ∧ img.height = canvasHeight o g ∧
      (∀ px py, px < img.width → py < img.height → ¬r.interior.Contains px py →
        img.pixel? px py = some o.background) ∧
      (∀ px py, r.interior.Contains px py →
        let x := (px - o.border.left) / o.blockWidth
        let y := (py - o.border.top) / o.blockWidth
        ∃ m, g.get x y = .ok m ∧ img.pixel? px py =
          some (if m.dark = true ∧ r.isHidden zone x y = false then
            (o.moduleColor ⟨true, m.kind⟩).laidOver o.background
          else o.background)) ∧
      ∀ c : Rgba, (c.isOpaque = true → c.laidOver o.background = c) ∧
        (c.isClear = true → c.laidOver o.background = o.background) := by
  obtain ⟨r, hr, rfl, rfl, hsound⟩ := ofOptions_sound (Builder.build_sound h) g
  obtain ⟨zone, -, hzone, -, -⟩ := outcomes_eq hsound
  obtain ⟨img, himg, hw, hh, hborder, hblock⟩ :=
    rasterizeUnscaled_pixel hsound hfill hshape hgradient (halftone_eq_none hr hhalftone) hzone
  have hb := hsound.options.blockWidth_pos
  refine ⟨r, zone, img, hr, hzone, himg, hw, hh,
    fun px py hx hy => hborder px py (hw ▸ hx) (hh ▸ hy), fun px py hin => ?_,
    fun c => ⟨fun hc => Rgba.laidOver_of_isOpaque hc _, fun hc => Rgba.laidOver_of_isClear hc _⟩⟩
  obtain ⟨hcorner, hx, hy⟩ := (contains_interior_iff_moduleAt hb).mp hin
  obtain ⟨m, hm⟩ := Grid.exists_mem_cells hx hy
  refine ⟨m, (Grid.mem_cells.mp hm).2, ?_⟩
  rw [hblock _ hm px py ((contains_block hb).mpr ⟨hcorner, rfl⟩)]
  simp only [isDrawn, Bool.and_eq_true, Bool.not_eq_true']
  obtain ⟨dark, kind⟩ := m
  cases dark with
  | true => rfl
  | false => simp

/-- Dark modules in blocks of two pixels, some of them hidden behind a logo. -/
theorem squares_pixel_behind_logo :
    let b : Builder ℚ := Builder.ofSettings [.blockWidth 2, .border [1],
      .logo (Picture.ofFn .gray 1 1 fun _ _ _ => 0), .logoSafeZone true]
    let g := Grid.ofFn 9 9 fun _ _ => ⟨true, .data⟩
    ∃ o, b.build (fun _ => .error "missing") = .ok o ∧ o.shape = .square ∧ o.gradient = none ∧
      o.halftone = none ∧ Surface.FillsBoxes ℚ (canvasWidth o g) (canvasHeight o g) ∧
      ∃ r img, ofOptions o g = .ok r ∧ r.rasterizeUnscaled = .ok img ∧
        img.pixel? 0 0 = some .white ∧ img.pixel? 1 1 = some .black ∧
        img.pixel? 9 9 = some .white := by
  intro b g
  obtain ⟨o, ho⟩ : ∃ o, b.build (fun _ => .error "missing") = .ok o := ⟨_, rfl⟩
  have hfill := Surface.fillsBoxes ℚ (canvasWidth o g) (canvasHeight o g)
  obtain ⟨hshape, hgradient, hhalftone⟩ :
      o.shape = .square ∧ o.gradient = none ∧ o.halftone = none := by
    obtain rfl := Except.ok.inj ho
    exact ⟨rfl, rfl, rfl⟩
  obtain ⟨r, zone, img, hr, hzone, himg, hw, hh, hborder, hblock, -⟩ :=
    squares_pixel ho hshape hgradient hhalftone g hfill
  refine ⟨o, ho, hshape, hgradient, hhalftone, hfill, r, img, hr, himg, ?_, ?_, ?_⟩
  all_goals
    obtain rfl := Except.ok.inj ho
    obtain rfl := Except.ok.inj hr
    obtain rfl := Except.ok.inj hzone
  · exact hborder 0 0 (by rw [hw]; decide) (by rw [hh]; decide) (by decide)
  · obtain ⟨m, hm, hpixel⟩ := hblock 1 1 (by decide)
    obtain rfl := Except.ok.inj ((Grid.get_ofFn _ (by decide) (by decide)).symm.trans hm)
    rw [hpixel]
    decide
  · obtain ⟨m, hm, hpixel⟩ := hblock 9 9 (by decide)
    obtain rfl := Except.ok.inj ((Grid.get_ofFn _ (by decide) (by decide)).symm.trans hm)
    rw [hpixel]
    decide

end Renderer

end QrRender
