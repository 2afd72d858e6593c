import QrRender.Proofs.Document.Layers
import QrRender.Proofs.Document.Parts
import QrRender.Proofs.Raster.Kept

/-!
# The background of a document

In a picture a pixel that nothing is drawn on has the colour of the background, with its alpha. A
document has a rectangle behind the modules, unless the background is clear; the rectangle has the
red, green and blue of the background, but nothing says its alpha. So the two agree where the
background is clear or opaque, and nowhere else.

* `Renderer.rectangles_vector`: the rectangles of a document that is not traced;
* `Svg.shown_backgroundTiles`: what they show, and `Svg.shown_backgroundTiles_iff`: whether that is
  the background;
* **`Options.background_in_documents`**: the background in documents and in pictures;
* `Options.background_alpha_missing`: a half-transparent background.
-/

namespace QrRender

namespace Svg

/-! ## 1. Behind the modules -/

/-- The tiles behind the modules on a canvas of `w` by `h`: none for a clear background, and
    otherwise one over the whole canvas, without an opacity. -/
def backgroundTiles (w h : Nat) (c : Rgba) : List Tile :=
  if c.isClear then [] else [⟨⟨0, 0, w, h⟩, c.solid, none⟩]

/-- They show nothing of a clear background, and any other fully. -/
theorem shown_backgroundTiles (share : String → ℚ) (c : Rgba) {w h x y : Nat} (hx : x < w)
    (hy : y < h) :
    shown share (backgroundTiles w h c) x y =
      if c.isClear then Layer.nothing else Layer.tint c 1 := by
  unfold backgroundTiles
  by_cases hclear : c.isClear = true
  · rw [if_pos hclear, if_pos hclear]
    rfl
  · have hin : (Box.mk 0 0 w h).Contains x y := Box.contains_mk.mpr ⟨by omega, by omega⟩
    rw [if_neg hclear, if_neg hclear, shown, List.filter_cons, if_pos (decide_eq_true hin),
      List.filter_nil, List.foldl_cons, List.foldl_nil, Tile.layer_of_none, Layer.laidOver_nothing,
      Layer.ofRgba_solid]

/-- **The background is shown as it is exactly if it is clear or opaque.** -/
theorem shown_backgroundTiles_iff (share : String → ℚ) (c : Rgba) {w h x y : Nat} (hx : x < w)
    (hy : y < h) :
    shown share (backgroundTiles w h c) x y = Layer.ofRgba c ↔
      c.isClear = true ∨ c.isOpaque = true := by
  rw [shown_backgroundTiles share c hx hy]
  by_cases hclear : c.isClear = true
  · rw [if_pos hclear, Layer.ofRgba_of_isClear hclear]
    exact ⟨fun _ => .inl hclear, fun _ => rfl⟩
  · rw [if_neg hclear, Layer.tint_one_iff]
    exact ⟨.inr, fun h => h.resolve_left hclear⟩

/-- What a document says of a background on a canvas of `w` by `h`. -/
structure ShowsBackground (w h : Nat) (c : Rgba) (doc : Element) : Prop where
  /-- Its rectangles stand behind the modules and the logo. -/
  order : ∃ definitions modules logo,
    doc.children = definitions ++ doc.rectangles ++ modules :: logo ∧
    (∀ e ∈ definitions, e.name = "defs") ∧ modules.name = "g" ∧ ∀ e ∈ logo, e.name = "image"
  /-- There is none for a clear background. -/
  clear : c.isClear = true → doc.rectangles = []
  /-- For any other there is one over the whole canvas, in its red, green and blue, and without an
      opacity. -/
  colored : c.isClear = false → ∃ e, doc.rectangles = [e] ∧
    e.tile? = some ⟨⟨0, 0, w, h⟩, c.solid, none⟩
  /-- What they show is the background if it is clear or opaque, and its red, green and blue
      without its alpha if it is neither. -/
  shown : ∃ tiles, doc.rectangles.mapM Element.tile? = some tiles ∧
    ∀ share x y, x < w → y < h →
      (Svg.shown share tiles x y = Layer.ofRgba c ↔ c.isClear = true ∨ c.isOpaque = true) ∧
      (c.isClear = false → Svg.shown share tiles x y = Layer.ofRgba c.solid)

end Svg

/-! ## 2. Documents and pictures -/

namespace Renderer

open Svg

section

variable {α : Type} (r : Renderer α)

/-- The elements of the background are read as its tiles. -/
theorem mapM_tile?_background [Add α] [Sub α] [Mul α] [Div α] [NatCast α] [LT α] [DecidableLT α] :
    r.backgroundElements.mapM Element.tile? =
      some (backgroundTiles r.width r.height r.options.background) := by
  unfold backgroundElements backgroundTiles
  simp only
  split
  · rfl
  · rw [List.mapM_cons, tile?_fullRect]
    rfl

end

variable {α : Type} [Add α] [Sub α] [Mul α] [Div α] [NatCast α] [LT α] [DecidableLT α]
  [LE α] [DecidableLE α] [Numeric α]

/-- The children of a document that is not traced. -/
theorem children_vector {r : Renderer α} (hformat : r.options.format ≠ .svgTraced)
    {codecs : Codecs} {doc : Element} (h : r.document codecs = .ok doc) :
    ∃ definitions modules logo,
      doc.children = definitions ++ r.backgroundElements ++ modules :: logo ∧
      (∀ e ∈ definitions, e.name = "defs") ∧ modules.name = "g" ∧
      ∀ e ∈ logo, e.name = "image" := by
  obtain ⟨drawing, logo, hdrawing, hlogo, rfl⟩ := document_eq_ok h
  rw [drawingElements_vector hformat] at hdrawing
  obtain ⟨cs, -, hdrawing⟩ := Checked.bind_eq_ok ((map_eq_pure_bind _ _).symm.trans hdrawing)
  obtain rfl := Except.ok.inj hdrawing
  refine ⟨_, r.groupOf cs, logo, List.append_assoc _ [_] _, fun e he => ?_, rfl,
    fun e => name_of_mem_logoElements hlogo⟩
  obtain ⟨gradient, -, rfl⟩ := Option.map_eq_some_iff.mp (Option.mem_toList.mp he)
  rfl

/-- Its rectangles are the elements of the background. -/
theorem rectangles_vector {r : Renderer α} (hformat : r.options.format ≠ .svgTraced)
    {codecs : Codecs} {doc : Element} (h : r.document codecs = .ok doc) :
    doc.rectangles = r.backgroundElements := by
  obtain ⟨definitions, modules, logo, hchildren, hdefinitions, hmodules, hlogo⟩ :=
    children_vector hformat h
  refine Element.rectangles_eq hchildren (fun e he => ?_) (fun e he => ?_) fun e he => ?_
  · rw [hdefinitions e he]
    decide
  · unfold backgroundElements at he
    simp only [List.mem_ite_nil_left, List.mem_singleton] at he
    rw [he.2]
    rfl
  · rcases List.mem_cons.mp he with rfl | he
    · rw [hmodules]
      decide
    · rw [hlogo e he]
      decide

/-- What a document that is not traced says of the background. -/
theorem showsBackground {r : Renderer α} (hformat : r.options.format ≠ .svgTraced)
    {codecs : Codecs} {doc : Element} (h : r.document codecs = .ok doc) :
    ShowsBackground r.width r.height r.options.background doc := by
  have hrects := rectangles_vector hformat h
  constructor
  · rw [hrects]
    exact children_vector hformat h
  · intro hclear
    rw [hrects]
    exact if_pos hclear
  · intro hcolor
    rw [hrects]
    exact ⟨_, if_neg (Bool.eq_false_iff.mp hcolor), tile?_fullRect ..⟩
  · rw [hrects]
    refine ⟨_, r.mapM_tile?_background, fun share x y hx hy =>
      ⟨shown_backgroundTiles_iff share _ hx hy, fun hcolor => ?_⟩⟩
    rw [shown_backgroundTiles share _ hx hy, if_neg (Bool.eq_false_iff.mp hcolor),
      Layer.ofRgba_solid]

end Renderer

namespace Options

open Svg

variable {α : Type} [Add α] [Sub α] [Mul α] [Div α] [NatCast α] [LT α] [DecidableLT α]
  [LE α] [DecidableLE α] [Numeric α]

/-- **The background in documents and in pictures.** Whatever the background, a document that is
    not traced shows it behind the modules as it is if it is clear or opaque, and otherwise without
    its alpha; a picture has it, with its alpha, wherever no commit of the modules covers a
    pixel. -/
theorem background_in_documents {files : String → Except String Picture} {b : Builder α}
    {o : Options α} (h : b.build files = .ok o) (hformat : o.format ≠ .svgTraced) (codecs : Codecs)
    (g : Grid) :
    ∃ r, Renderer.ofOptions o g = .ok r ∧
      ((∀ logo, r.logo = some logo → Codecs.hasPixels logo = true) →
        ∃ doc, o.document codecs g = .ok doc) ∧
      (∀ doc, o.document codecs g = .ok doc →
        ShowsBackground (Renderer.canvasWidth o g) (Renderer.canvasHeight o g) o.background doc) ∧
      ∀ w h view img, r.rasterizeIn w h view = .ok img → ∃ cs, r.commands = .ok cs ∧
        img.width = w ∧ img.height = h ∧ ∀ x y, x < w → y < h →
          (∀ k ∈ Pen.initial.commits cs, ¬(Surface.mk view o.gradient).Covers k w h x y) →
          img.pixel? x y = some o.background := by
  obtain ⟨r, hr, rfl, rfl, hsound⟩ := Renderer.ofOptions_sound (Builder.build_sound h) g
  refine ⟨r, hr, fun hlogo => ?_, fun doc hdoc => ?_, fun w h view img himg =>
    Renderer.rasterizeIn_kept himg⟩
  · obtain ⟨doc, hdoc⟩ := Renderer.document_isOk hsound hlogo (absurd · hformat) codecs
    exact ⟨doc, (document_of_renderer hr).trans hdoc⟩
  · exact Renderer.showsBackground hformat ((document_of_renderer hr).symm.trans hdoc)

/-- A gradient over an opaque background, in paths. -/
theorem background_in_documents_white :
    let b : Builder ℚ := Builder.ofSettings [.format .svgPath, .blockWidth 2, .border [1],
      .gradient (Gradient.ofStops 0 [⟨0, Rgba.black⟩, ⟨1, Rgba.white⟩])]
    let g := Grid.ofFn 1 1 fun _ _ => ⟨true, .data⟩
    let codecs : Codecs := { png _ := [], jpeg _ := [], inlined _ := "" }
    ∃ o doc, b.build (fun _ => .error "missing") = .ok o ∧ o.format ≠ .svgTraced ∧
      o.document codecs g = .ok doc ∧ ShowsBackground 4 4 Rgba.white doc := by
  intro b g codecs
  obtain ⟨o, ho⟩ : ∃ o, b.build (fun _ => .error "missing") = .ok o := ⟨_, rfl⟩
  obtain ⟨hformat, hlogo, hbackground, hwidth, hheight⟩ :
      o.format ≠ .svgTraced ∧ o.logo = none ∧ o.background = Rgba.white ∧
        Renderer.canvasWidth o g = 4 ∧ Renderer.canvasHeight o g = 4 := by
    obtain rfl := Except.ok.inj ho
    exact ⟨by decide, rfl, rfl, rfl, rfl⟩
  obtain ⟨r, hr, hisOk, hshows, -⟩ := background_in_documents ho hformat codecs g
  have hnone := Renderer.logo_eq_none hr hlogo
  obtain ⟨doc, hdoc⟩ := hisOk fun logo hsome => by
    rw [hnone] at hsome
    cases hsome
  have hdocument := hshows doc hdoc
  rw [hbackground, hwidth, hheight] at hdocument
  exact ⟨o, doc, ho, hformat, hdoc, hdocument⟩

/-- **A half-transparent black background is written as black**, on both vector surfaces: nothing
    says its alpha, as the attributes of any other fill in this colour do, and what is shown is not
    the background, which the picture of the same grid has. -/
theorem background_alpha_missing :
    let c : Rgba := ⟨0, 0, 0, 128⟩
    let g := Grid.ofFn 1 1 fun _ _ => ⟨false, .data⟩
    let codecs : Codecs := { png _ := [], jpeg _ := [], inlined _ := "" }
    colorAttributes Float c = [("fill", "#000000"), ("fill-opacity", "0.5")] ∧
      ∀ format ∈ [OutputFormat.svgPath, .svgPrimitive],
        let b : Builder Float := Builder.ofSettings [.format format, .blockWidth 4, .border [0],
          .background c]
        ∃ o doc e tiles r img, b.build (fun _ => .error "missing") = .ok o ∧ o.background = c ∧
          o.document codecs g = .ok doc ∧ doc.rectangles = [e] ∧
          e.attribute? "fill-opacity" = none ∧ [e].mapM Element.tile? = some tiles ∧
          (∀ share, shown share tiles 0 0 ≠ Layer.ofRgba c) ∧
          Renderer.ofOptions o g = .ok r ∧ r.rasterizeUnscaled = .ok img ∧
          img.pixel? 0 0 = some c := by
  intro c g codecs
  refine ⟨by decide +kernel, fun format hformat => ?_⟩
  intro b
  obtain ⟨o, ho⟩ : ∃ o, b.build (fun _ => .error "missing") = .ok o := ⟨_, rfl⟩
  have hsound := Builder.build_sound ho
  obtain rfl := Except.ok.inj ho
  have hvector : format ≠ .svgTraced := by
    rintro rfl
    exact absurd hformat (by decide)
  obtain ⟨doc, hdoc⟩ := document_isOk hsound rfl (absurd · hvector) codecs g
  obtain ⟨r, hr, hdoc'⟩ := document_eq_ok hdoc
  have hrects := Renderer.rectangles_vector (Renderer.options_of_ofOptions hr ▸ hvector) hdoc'
  obtain rfl := Except.ok.inj hr
  have htiles : [fullRect 4 4 c].mapM Element.tile? = some (backgroundTiles 4 4 c) := by
    rw [List.mapM_cons, tile?_fullRect]
    rfl
  refine ⟨_, doc, fullRect 4 4 c, backgroundTiles 4 4 c, _, _, ho, rfl, hdoc, hrects, rfl, htiles,
    fun share hshown => ?_, hr, rfl, rfl⟩
  have hcolor := (shown_backgroundTiles_iff share c (by decide) (by decide)).mp hshown
  exact absurd hcolor (by decide)

end Options

end QrRender
