import QrRender.Proofs.Document.Parts
import QrRender.Proofs.Document.Tiles
import QrRender.Proofs.Render.Squares

/-!
# Documents of squares

Opaque squares on an opaque background look the same in all formats. A document of rectangles and a
document of paths are read tile by tile; painted over one another in their order, the tiles give
the unscaled picture, with a halftone as well as without.

* `Svg.painted`: tiles painted one after the other;
* `Renderer.oneColor_of_mem_calls`: without a gradient and with opaque colours in the options, every
  call is drawn in one opaque colour;
* `Svg.draw_squares`: on both vector surfaces there is one element for every call, and
  `Svg.tile?_squareElement`: it is read as the box and the colour of the call;
* `Renderer.OpaqueSquares`: a render in opaque squares, and its calls;
* `Renderer.OpaqueSquares.painted_squareTiles`: the tiles of the calls, painted on the background,
  are the picture;
* **`Options.square_documents_agree`**: both documents show the unscaled picture.
-/

namespace QrRender

/-! ## 1. Painting -/

/-- The places of a box, row by row. -/
def Box.places (b : Box) : List (Nat × Nat) :=
  Image.grid (fun _ => List.range' b.x b.width) (List.range' b.y b.height)

theorem Box.mem_places {b : Box} {x y : Nat} : (x, y) ∈ b.places ↔ b.Contains x y := by
  rw [places, Image.mem_grid, List.mem_range'_1, List.mem_range'_1]
  rfl

theorem Box.nodup_places (b : Box) : b.places.Nodup :=
  Image.nodup_grid (List.nodup_range' 1) fun _ => List.nodup_range' 1

namespace Svg

/-- A tile painted on an image: its colour replaces those that are there. -/
def Tile.paint (img : Image) (t : Tile) : Image := img.modifyAll t.box.places fun _ => t.color

/-- Tiles painted one after the other on a canvas without any colour. -/
def painted (w h : Nat) (tiles : List Tile) : Image :=
  tiles.foldl Tile.paint (Image.filled w h Rgba.transparent)

theorem Tile.paint_changed (img : Image) (t : Tile) :
    img.Changed (t.paint img) (fun x y => t.box.Contains x y) fun _ => t.color :=
  (img.modifyAll_changed t.box.nodup_places _).congr fun x y _ _ => by
    rw [Bool.eq_iff_iff, List.contains_iff_mem, Box.mem_places, decide_eq_true_eq]

/-- Every pixel has the colours of the tiles over it, in their order. -/
theorem painted_pixel (w h : Nat) (tiles : List Tile) :
    (painted w h tiles).width = w ∧ (painted w h tiles).height = h ∧
      ∀ x y, (painted w h tiles).pixel? x y =
        (tiles.filter fun t => t.box.Contains x y).foldl (fun c t => c.map fun _ => t.color)
          ((Image.filled w h Rgba.transparent).pixel? x y) := by
  obtain ⟨out, hout, hw, hh, hpixel⟩ :=
    @Image.foldlM_changed Tile (fun img t => .ok (t.paint img)) _ _ tiles
      (Image.filled w h Rgba.transparent) fun t _ below _ _ => ⟨_, rfl, t.paint_changed below⟩
  obtain rfl : painted w h tiles = out := Except.ok.inj (List.foldlM_pure.symm.trans hout)
  exact ⟨hw, hh, hpixel⟩

end Svg

/-! ## 2. Calls in one colour -/

/-- The call is drawn in one opaque colour. -/
structure ShapeCall.OneColor (call : ShapeCall) : Prop where
  solid : call.paint = .solid call.paint.flat
  full : call.paint.flat.isOpaque = true

namespace Renderer

section

variable {α : Type}

/-- A call is drawn with the paint of its module, or in a colour of the halftone. -/
theorem paint_of_mem_calls {r : Renderer α} {zone : Option Zone} {occupancy : Occupancy}
    {c : GridCell} {call : ShapeCall} (h : call ∈ (r.outcomeOf zone occupancy c).calls) :
    call.paint = r.paint c.content ∨ ∃ halftone, r.halftone = some halftone ∧
      ∃ place ∈ subCellPlaces, call.paint = r.paintAt halftone c place := by
  obtain ⟨-, houtcome⟩ | ⟨-, halftone, hhalftone, -, houtcome⟩ |
    ⟨-, -, ⟨-, houtcome⟩ | ⟨-, houtcome⟩⟩ := outcomeOf_cases r zone occupancy c
  · rw [houtcome] at h
    cases h
  · rw [houtcome] at h
    obtain ⟨place, hplace, hcall⟩ := List.mem_filterMap.mp h
    exact .inr ⟨halftone, hhalftone, place, hplace, paint_of_subCellCall? hcall⟩
  · rw [houtcome] at h
    exact .inl (congrArg ShapeCall.paint (List.mem_singleton.mp h))
  · rw [houtcome] at h
    cases h

end

variable {α : Type} [Mul α] [Div α] [NatCast α] [LT α] [DecidableLT α] [Numeric α]

/-- **Without a gradient and with opaque colours, every call is drawn in one opaque colour.** -/
theorem oneColor_of_mem_calls {o : Options α} {g : Grid} {r : Renderer α}
    (h : ofOptions o g = .ok r) (hr : r.Sound) (hgradient : r.options.gradient = none)
    (hcolors : ∀ m, (r.options.moduleColor m).isOpaque = true) (zone : Option Zone)
    (occupancy : Occupancy) :
    ∀ call ∈ (r.grid.cells.map (r.outcomeOf zone occupancy)).flatMap Outcome.calls,
      call.OneColor := by
  intro call hcall
  obtain ⟨color, hpaint, hfull⟩ :
      ∃ color, call.paint = .solid color ∧ color.isOpaque = true := by
    rw [List.flatMap_map] at hcall
    obtain ⟨c, hc, hcall⟩ := List.mem_flatMap.mp hcall
    have hown := paint_eq_solid hgradient c.content
    rcases paint_of_mem_calls hcall with hpaint | ⟨halftone, hhalftone, place, hplace, hpaint⟩
    · exact ⟨_, hpaint.trans hown, hcolors c.content⟩
    · unfold paintAt at hpaint
      split at hpaint
      · exact ⟨_, hpaint.trans hown, hcolors c.content⟩
      · have hsample := hr.sample_lt hhalftone hc hplace
        obtain ⟨color, hcolor⟩ :=
          Option.isSome_iff_exists.mp ((halftone.isSome_pixel? _ _).mpr hsample)
        rw [hcolor] at hpaint
        exact ⟨color, hpaint, isOpaque_halftone h hhalftone hcolor⟩
  constructor
  · rw [hpaint]
    rfl
  · rw [hpaint]
    exact hfull

end Renderer

/-! ## 3. Squares as elements -/

namespace Svg

/-- The tile of a call. -/
def callTile (call : ShapeCall) : Tile := ⟨call.box, call.paint.flat, none⟩

/-- The name of an element that is a square. -/
def squareName : VectorKind → String
  | .path => "path"
  | .primitive => "rect"

section

variable (α : Type) [Add α] [Sub α] [Div α] [NatCast α] [Numeric α]

/-- The element of a call that is drawn as a square in one colour. -/
def squareElement (kind : VectorKind) (call : ShapeCall) : Element :=
  let b := call.box
  let attributes := colorAttributes α call.paint.flat
  match kind with
  | .path => pathElement (Instruction.ofSteps [b.step (α := α)]) attributes
  | .primitive =>
    Primitive.element attributes (.rect (b.x : α) (b.y : α) (b.width : α) (b.height : α))

theorem name_squareElement (kind : VectorKind) (call : ShapeCall) :
    (squareElement α kind call).name = squareName kind := by
  cases kind <;> rfl

/-- The element of a square is read as the box and the colour of its call. -/
theorem tile?_squareElement [WholeNumbers α] (kind : VectorKind) {call : ShapeCall}
    (h : call.OneColor) (hw : call.box.x + call.box.width < 2 ^ 53)
    (hh : call.box.y + call.box.height < 2 ^ 53) :
    (squareElement α kind call).tile? = some (callTile call) := by
  have htile : (⟨call.box, call.paint.flat.solid, opacityText α call.paint.flat⟩ : Tile) =
      callTile call := by
    rw [Rgba.solid_eq_self.mpr h.full, opacityText_of_isOpaque h.full]
    rfl
  cases kind with
  | path => exact (tile?_path hw hh call.paint.flat).trans (congrArg some htile)
  | primitive => exact (tile?_rect hw hh call.paint.flat).trans (congrArg some htile)

end

variable {α : Type} [Add α] [Sub α] [Mul α] [Div α] [NatCast α] [LT α] [DecidableLT α]
  [LE α] [DecidableLE α] [Numeric α]

omit [Mul α] [LE α] [DecidableLE α] in
/-- The element of the one commit of a square, on both vector surfaces. -/
theorem elements_squareCommit {call : ShapeCall} (h : call.OneColor) :
    pathElements (α := α) none call.squareCommit = [squareElement α .path call] ∧
      primitiveElements (α := α) none call.squareCommit = [squareElement α .primitive call] := by
  have hvisible : call.paint.isInvisible = false := by
    rw [h.solid]
    exact Rgba.isClear_of_isOpaque h.full
  have hattributes : inkAttributes none .fill call.paint (Style.default (α := α)) =
      colorAttributes α call.paint.flat := by
    rw [h.solid]
    exact fillAttributes_solid _
  have hnative : (primitiveState ⟨[call.box.step (α := α)], Style.default, call.paint⟩
      #[]).isNative = true := rfl
  unfold pathElements primitiveElements
  simp only [ShapeCall.squareCommit, hvisible, hattributes, hnative, Bool.or_false]
  exact ⟨rfl, rfl⟩

/-- **A drawing of squares has one element for every call**, on both vector surfaces. -/
theorem draw_squares (kind : VectorKind) {calls : List ShapeCall}
    (h : ∀ call ∈ calls, call.OneColor) :
    draw kind none (calls.flatMap (ShapeCall.commands (α := α) .square)) =
      calls.map (squareElement α kind) := by
  rw [List.map_eq_flatMap]
  cases kind with
  | path =>
    rw [draw_path_eq, Pen.initial, ShapeCall.commits_squares, List.flatMap_map]
    exact List.flatMap_congr fun call hcall => (elements_squareCommit (h call hcall)).1
  | primitive =>
    rw [draw_primitive_eq, Pen.initial, ShapeCall.commits_squares, List.flatMap_map]
    exact List.flatMap_congr fun call hcall => (elements_squareCommit (h call hcall)).2

end Svg

/-! ## 4. Documents of squares -/

namespace Svg

/-- The document consists of a rectangle in the colour of the background behind elements of one
    name, all of them rectangles without an opacity, and painted over one another they give the
    image. -/
structure PaintsSquares (name : String) (background : Rgba) (img : Image) (doc : Element) :
    Prop where
  elements : ∃ backdrop squares, doc.drawn = backdrop :: squares ∧
    backdrop.tile? = some ⟨⟨0, 0, img.width, img.height⟩, background, none⟩ ∧
    ∀ e ∈ squares, e.name = name
  tiles : ∃ tiles, doc.drawn.mapM Element.tile? = some tiles ∧ (∀ t ∈ tiles, t.opacity = none) ∧
    painted img.width img.height tiles = img

end Svg

namespace Renderer

open Svg

variable {α : Type}

/-- A render in opaque squares on an opaque background, without a gradient and without a logo, that
    makes these calls. -/
structure OpaqueSquares (r : Renderer α) (calls : List ShapeCall) : Prop where
  shape : r.options.shape = .square
  gradient : r.options.gradient = none
  logo : r.logo = none
  background : r.options.background.isOpaque = true
  calls_eq : r.calls = .ok calls
  oneColor : ∀ call ∈ calls, call.OneColor
  nonempty : ∀ call ∈ calls, call.box.Nonempty
  inCanvas : ∀ call ∈ calls, call.box.Within ⟨0, 0, r.width, r.height⟩

/-- Options for opaque squares make a render in opaque squares. -/
theorem exists_opaqueSquares [Mul α] [Div α] [NatCast α] [LT α] [DecidableLT α] [Numeric α]
    {o : Options α} {g : Grid} {r : Renderer α} (h : ofOptions o g = .ok r) (hr : r.Sound)
    (hshape : r.options.shape = .square) (hgradient : r.options.gradient = none)
    (hlogo : r.logo = none) (hbackground : r.options.background.isOpaque = true)
    (hcolors : ∀ kind, (r.options.moduleColor ⟨true, kind⟩).isOpaque = true) :
    ∃ calls, r.OpaqueSquares calls := by
  have hmodules : ∀ m, (r.options.moduleColor m).isOpaque = true := by
    intro m
    obtain ⟨dark, kind⟩ := m
    cases dark with
    | true => exact hcolors kind
    | false => exact hbackground
  obtain ⟨zone, occupancy, hzone, -, houtcomes⟩ := outcomes_eq hr
  have hlaid := laidOut_outcomes hr occupancy hzone
  exact ⟨_, hshape, hgradient, hlogo, hbackground, calls_eq_of_outcomes houtcomes,
    oneColor_of_mem_calls h hr hgradient hmodules zone occupancy, hlaid.nonempty, hlaid.inCanvas⟩

/-- The tiles of calls on the background. -/
def squareTiles (r : Renderer α) (calls : List ShapeCall) : List Tile :=
  ⟨⟨0, 0, r.width, r.height⟩, r.options.background, none⟩ :: calls.map callTile

namespace OpaqueSquares

variable {r : Renderer α} {calls : List ShapeCall}

theorem withOutput (h : r.OpaqueSquares calls) (format : OutputFormat) (side : Option Nat) :
    (r.withOutput format side).OpaqueSquares calls where
  shape := h.shape
  gradient := h.gradient
  logo := h.logo
  background := h.background
  calls_eq := h.calls_eq
  oneColor := h.oneColor
  nonempty := h.nonempty
  inCanvas := h.inCanvas

/-- Over a pixel, opaque calls that are laid over one another replace one another. -/
theorem foldl_callTile (h : r.OpaqueSquares calls) (x y : Nat) (below : Option Rgba) :
    ((calls.map callTile).filter fun t => t.box.Contains x y).foldl
        (fun c t => c.map fun _ => t.color) below =
      (calls.filter fun call => call.box.Contains x y).foldl
        (fun c call => c.map call.paint.flat.laidOver) below := by
  have htiles : (calls.map callTile).filter (fun t => t.box.Contains x y) =
      (calls.filter fun call => call.box.Contains x y).map callTile := List.filter_map
  rw [htiles, List.foldl_map]
  refine List.foldl_ext _ _ _ fun c call hcall => ?_
  have hfull := (h.oneColor call (List.mem_filter.mp hcall).1).full
  rw [funext fun below => Rgba.laidOver_of_isOpaque hfull below]
  rfl

/-- The background and the elements of the calls are read as those tiles. -/
theorem mapM_tile? [Add α] [Sub α] [Div α] [NatCast α] [Numeric α] [WholeNumbers α]
    (h : r.OpaqueSquares calls) (kind : VectorKind) (hwidth : r.width < 2 ^ 53)
    (hheight : r.height < 2 ^ 53) :
    (fullRect r.width r.height r.options.background :: calls.map (squareElement α kind)).mapM
      Element.tile? = some (r.squareTiles calls) := by
  have hsquares : (calls.map (squareElement α kind)).mapM Element.tile? =
      some (calls.map callTile) := by
    refine mapM_map_eq_some fun call hcall => ?_
    obtain ⟨hright, hbottom⟩ := (h.inCanvas call hcall).le_of_nonempty (h.nonempty call hcall)
    exact tile?_squareElement α _ (h.oneColor call hcall) (by omega) (by omega)
  rw [List.mapM_cons, tile?_fullRect, Rgba.solid_eq_self.mpr h.background, hsquares]
  rfl

variable [Add α] [Sub α] [Mul α] [Div α] [NatCast α] [LT α] [DecidableLT α] [LE α] [DecidableLE α]
  [Numeric α]

/-- **The tiles of the calls, painted on the background, are the unscaled picture.** -/
theorem painted_squareTiles (h : r.OpaqueSquares calls)
    (hfill : Surface.FillsBoxes α r.width r.height) :
    r.rasterizeUnscaled = .ok (painted r.width r.height (r.squareTiles calls)) := by
  obtain ⟨img, himg, hw, hh, hpixel⟩ := rasterizeUnscaled_eq hfill h.shape h.gradient h.calls_eq
    h.nonempty h.inCanvas
  obtain ⟨hw', hh', hpainted⟩ := painted_pixel r.width r.height (r.squareTiles calls)
  rw [himg]
  refine congrArg Except.ok (Image.ext_pixel? (hw.trans hw'.symm) (hh.trans hh'.symm) fun x y => ?_)
  have hback : (Box.mk 0 0 r.width r.height).Contains x y ↔ x < r.width ∧ y < r.height := by
    rw [Box.contains_mk]
    omega
  rw [hpixel, hpainted, squareTiles, List.filter_cons, Image.pixel?_filled, Image.pixel?_filled]
  simp only [hback, decide_eq_true_eq]
  by_cases hxy : x < r.width ∧ y < r.height
  · rw [if_pos hxy, if_pos hxy, if_pos hxy, List.foldl_cons]
    exact (h.foldl_callTile x y _).symm
  · rw [if_neg hxy, if_neg hxy, if_neg hxy]
    exact (h.foldl_callTile x y _).symm

/-- The document has the background, and an element for every call. -/
theorem document_drawn (h : r.OpaqueSquares calls) (hformat : r.options.format ≠ .svgTraced)
    (codecs : Codecs) :
    ∃ doc, r.document codecs = .ok doc ∧
      doc.drawn = fullRect r.width r.height r.options.background ::
        calls.map (squareElement α (vectorKind r.options.format)) := by
  have hcommands : r.commands = .ok (calls.flatMap (ShapeCall.commands .square)) := by
    rw [commands, h.calls_eq, h.shape]
    rfl
  have hback : r.backgroundElements = [fullRect r.width r.height r.options.background] := by
    unfold backgroundElements
    exact if_neg (Bool.eq_false_iff.mp (Rgba.isClear_of_isOpaque h.background))
  have hgroup : r.groupOf (calls.flatMap (ShapeCall.commands .square)) =
      group (calls.map (squareElement α (vectorKind r.options.format))) := by
    unfold groupOf gradientRef
    rw [h.gradient, Option.map_none, draw_squares _ h.oneColor]
    rfl
  have hdrawing : r.drawingElements = .ok [fullRect r.width r.height r.options.background,
      group (calls.map (squareElement α (vectorKind r.options.format)))] := by
    rw [drawingElements_vector hformat, hcommands, hback, h.gradient, ← hgroup]
    rfl
  refine ⟨_, document_of_parts hdrawing (logoElements_of_none h.logo codecs), ?_⟩
  simp [Element.drawn, fullRect, Element.leaf, group]

/-- **The document paints the unscaled picture.** -/
theorem paintsSquares [WholeNumbers α] (h : r.OpaqueSquares calls)
    (hformat : r.options.format ≠ .svgTraced) (hwidth : r.width < 2 ^ 53)
    (hheight : r.height < 2 ^ 53) (codecs : Codecs) :
    ∃ doc, r.document codecs = .ok doc ∧
      PaintsSquares (squareName (vectorKind r.options.format)) r.options.background
        (painted r.width r.height (r.squareTiles calls)) doc := by
  obtain ⟨doc, hdoc, hdrawn⟩ := h.document_drawn hformat codecs
  obtain ⟨hw, hh, -⟩ := painted_pixel r.width r.height (r.squareTiles calls)
  refine ⟨doc, hdoc, ⟨_, _, hdrawn, ?_, fun e he => ?_⟩,
    ⟨r.squareTiles calls, ?_, fun t ht => ?_, ?_⟩⟩
  · rw [tile?_fullRect, Rgba.solid_eq_self.mpr h.background, hw, hh]
  · obtain ⟨call, -, rfl⟩ := List.mem_map.mp he
    exact name_squareElement α _ call
  · rw [hdrawn, h.mapM_tile? _ hwidth hheight]
  · rcases List.mem_cons.mp ht with rfl | ht
    · rfl
    · obtain ⟨call, -, rfl⟩ := List.mem_map.mp ht
      rfl
  · rw [hw, hh]

end OpaqueSquares

end Renderer

namespace Options

open Svg

variable {α : Type} [Add α] [Sub α] [Mul α] [Div α] [NatCast α] [LT α] [DecidableLT α]
  [LE α] [DecidableLE α] [Numeric α]

/-- **Documents of opaque squares show the unscaled picture**, written as paths and written as
    rectangles, with a halftone and without. The sides of the canvas are numbers that are written
    as they are, as all numbers of 32 bits are, and boxes are filled exactly on it. -/
theorem square_documents_agree [WholeNumbers α] {files : String → Except String Picture}
    {b : Builder α} {o : Options α} (h : b.build files = .ok o) (hshape : o.shape = .square)
    (hgradient : o.gradient = none) (hlogo : o.logo = none)
    (hbackground : o.background.isOpaque = true)
    (hcolors : ∀ kind, (o.moduleColor ⟨true, kind⟩).isOpaque = true) (codecs : Codecs) (g : Grid)
    (hwidth : Renderer.canvasWidth o g < 2 ^ 53) (hheight : Renderer.canvasHeight o g < 2 ^ 53)
    (hfill : Surface.FillsBoxes α (Renderer.canvasWidth o g) (Renderer.canvasHeight o g)) :
    ∃ r img paths rectangles, Renderer.ofOptions o g = .ok r ∧ r.rasterizeUnscaled = .ok img ∧
      img.width = Renderer.canvasWidth o g ∧ img.height = Renderer.canvasHeight o g ∧
      ({ o with format := .svgPath } : Options α).document codecs g = .ok paths ∧
      PaintsSquares "path" o.background img paths ∧
      ({ o with format := .svgPrimitive } : Options α).document codecs g = .ok rectangles ∧
      PaintsSquares "rect" o.background img rectangles := by
  obtain ⟨r, hr, rfl, rfl, hsound⟩ := Renderer.ofOptions_sound (Builder.build_sound h) g
  obtain ⟨calls, hsquares⟩ := Renderer.exists_opaqueSquares hr hsound hshape hgradient
    (Renderer.logo_eq_none hr hlogo) hbackground hcolors
  obtain ⟨hw, hh, -⟩ := painted_pixel r.width r.height (r.squareTiles calls)
  have hdocument : ∀ format, format ≠ .svgTraced →
      ∃ doc, ({ r.options with format := format } : Options α).document codecs r.grid = .ok doc ∧
        PaintsSquares (squareName (Renderer.vectorKind format)) r.options.background
          (painted r.width r.height (r.squareTiles calls)) doc := by
    intro format hformat
    have hr' := Renderer.ofOptions_withOutput hr format r.options.resolution
    obtain ⟨doc, hdoc, hpaints⟩ := (hsquares.withOutput format r.options.resolution).paintsSquares
      hformat hwidth hheight codecs
    exact ⟨doc, (document_of_renderer hr').trans hdoc, hpaints⟩
  obtain ⟨paths, hpaths, hpaths'⟩ := hdocument .svgPath (by decide)
  obtain ⟨rectangles, hrectangles, hrectangles'⟩ := hdocument .svgPrimitive (by decide)
  exact ⟨r, _, paths, rectangles, hr, hsquares.painted_squareTiles hfill, hw, hh, hpaths, hpaths',
    hrectangles, hrectangles'⟩

/-- A dark module beside a light one, in blocks of four pixels and with a halftone, so that the
    sub-cells are of different sizes. -/
theorem square_documents_agree_halftone :
    let b : Builder ℚ := Builder.ofSettings [.shape .square, .blockWidth 4, .border [1],
      .foreground ⟨255, 0, 0, 255⟩, .halftone (Picture.ofFn .gray 1 1 fun _ _ _ => 0)]
    let g := Grid.ofFn 2 1 fun x _ => ⟨x == 0, .data⟩
    let codecs : Codecs := { png _ := [], jpeg _ := [], inlined _ := "" }
    ∃ o, b.build (fun _ => .error "missing") = .ok o ∧ o.halftone.isSome = true ∧
      o.background = Rgba.white ∧
      ∃ img paths rectangles, img.width = 10 ∧ img.height = 6 ∧
        ({ o with format := .svgPath } : Options ℚ).document codecs g = .ok paths ∧
        PaintsSquares "path" Rgba.white img paths ∧
        ({ o with format := .svgPrimitive } : Options ℚ).document codecs g = .ok rectangles ∧
        PaintsSquares "rect" Rgba.white img rectangles := by
  intro b g codecs
  obtain ⟨o, ho⟩ : ∃ o, b.build (fun _ => .error "missing") = .ok o := ⟨_, rfl⟩
  have hfill := Surface.fillsBoxes ℚ (Renderer.canvasWidth o g) (Renderer.canvasHeight o g)
  obtain ⟨hshape, hgradient, hlogo, hhalftone, hbackground, hwidth, hheight, hcolors⟩ :
      o.shape = .square ∧ o.gradient = none ∧ o.logo = none ∧ o.halftone.isSome = true ∧
        o.background = Rgba.white ∧ Renderer.canvasWidth o g = 10 ∧
        Renderer.canvasHeight o g = 6 ∧
        ∀ kind, (o.moduleColor ⟨true, kind⟩).isOpaque = true := by
    obtain rfl := Except.ok.inj ho
    exact ⟨rfl, rfl, rfl, rfl, rfl, rfl, rfl, fun kind => by cases kind <;> rfl⟩
  have hfull : o.background.isOpaque = true := by
    rw [hbackground]
    rfl
  obtain ⟨r, img, paths, rectangles, hr, himg, hw, hh, hpaths, hpaths', hrectangles,
    hrectangles'⟩ := square_documents_agree ho hshape hgradient hlogo hfull hcolors codecs g
      (by omega) (by omega) hfill
  rw [hbackground] at hpaths' hrectangles'
  exact ⟨o, ho, hhalftone, hbackground, img, paths, rectangles, hw.trans hwidth,
    hh.trans hheight, hpaths, hpaths', hrectangles, hrectangles'⟩

end Options

end QrRender
