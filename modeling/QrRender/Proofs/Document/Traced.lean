import QrRender.Proofs.Document.Layers
import QrRender.Proofs.Document.Parts
import QrRender.Proofs.Mesh.Cover
import QrRender.Proofs.Raster.Kept

/-!
# Traced documents show the picture

A traced document is read rectangle by rectangle and compared with the unscaled picture of the same
render. Behind all others there is a white rectangle of the size of the canvas. A pixel that counts
as background is left to it; every other pixel lies in exactly one more rectangle, which has its
colour, and its alpha as an opacity unless it is opaque.

* `Svg.Element.covers`: the pixels that a rectangle of the document covers;
* `Svg.mesh_background`, `Svg.mesh_foreground`: the elements of a mesh over a pixel;
* `Svg.shown_mesh`: what a mesh shows over white;
* **`Options.traced_document`**: what a traced document says of every pixel of the picture, at every
  resolution.
-/

namespace QrRender

namespace Svg

/-- The pixel at column `x`, row `y` is in the tile that an element shows. -/
def Element.covers (e : Element) (x y : Nat) : Bool := e.tile?.any fun t => t.box.Contains x y

variable {α : Type} [NatCast α] [Div α] [Numeric α]

/-! ## 1. Meshes as elements -/

/-- The element of a rectangle of a mesh. -/
def meshElement (α : Type) [NatCast α] [Div α] [Numeric α] (r : ColorRect) : Element :=
  placedRect r.x r.y r.width r.height (colorAttributes α r.color)

/-- The tile that it shows. -/
def meshTile (α : Type) [NatCast α] [Div α] [Numeric α] (r : ColorRect) : Tile :=
  ⟨r.box, r.color.solid, opacityText α r.color⟩

theorem tile?_meshElement (r : ColorRect) : (meshElement α r).tile? = some (meshTile α r) :=
  tile?_placedRect r.box r.color

/-- It is written in its colour, and with its alpha as an opacity unless it is opaque. -/
theorem attributes_meshElement (r : ColorRect) :
    (meshElement α r).attribute? "fill" = some r.color.toHex ∧
      (meshElement α r).attribute? "fill-opacity" = opacityText α r.color := by
  refine ⟨rfl, ?_⟩
  unfold meshElement colorAttributes
  cases opacityText α r.color <;> rfl

theorem covers_meshElement (r : ColorRect) (x y : Nat) :
    (meshElement α r).covers x y = r.contains x y := by
  rw [Bool.eq_iff_iff, Element.covers, tile?_meshElement, ColorRect.contains_iff]
  exact decide_eq_true_iff

theorem filter_covers (rects : List ColorRect) (x y : Nat) :
    (rects.map (meshElement α)).filter (·.covers x y) =
      (rects.filter (·.contains x y)).map (meshElement α) := by
  rw [List.filter_map]
  congr 1
  exact List.filter_congr fun r _ => covers_meshElement r x y

variable {img : Image} {elision : Elision} {x y : Nat} {c : Rgba}

/-- No rectangle of a mesh is over a pixel of the background. -/
theorem filter_contains_background (hc : img.pixel? x y = some c)
    (hb : elision.isBackground c = true) :
    (Mesh.decompose img elision).filter (·.contains x y) = [] := by
  refine List.filter_eq_nil_iff.mpr fun r hr hp => ?_
  obtain ⟨hc', hb'⟩ := Mesh.decompose_color hr hp
  obtain rfl := Option.some.inj (hc'.symm.trans hc)
  rw [hb] at hb'
  cases hb'

/-- One rectangle of a mesh is over a pixel of the foreground, and it has its colour. -/
theorem filter_contains_foreground (hc : img.pixel? x y = some c)
    (hb : elision.isBackground c = false) :
    ∃ r, (Mesh.decompose img elision).filter (·.contains x y) = [r] ∧ r.color = c := by
  obtain ⟨r, hr, hp⟩ := Mesh.exists_rect_of_foreground hc hb
  exact ⟨r, Mesh.filter_contains_eq_singleton (Mesh.decompose_disjoint img elision) hr hp,
    Option.some.inj ((Mesh.decompose_color hr hp).1.symm.trans hc)⟩

/-- The rectangles of a traced document: the logo is none. -/
theorem rectangles_traced (attributes : List (String × String)) (w h : Nat)
    (rects : List ColorRect) {logo : List Element} (hlogo : ∀ e ∈ logo, e.name = "image") :
    (Element.mk "svg" attributes
      (fullRect w h Rgba.white :: rects.map (meshElement α) ++ logo)).rectangles =
      fullRect w h Rgba.white :: rects.map (meshElement α) := by
  refine @Element.rectangles_eq _ [] _ _ rfl (fun e he => nomatch he) (fun e he => ?_)
    fun e he => ?_
  · rcases List.mem_cons.mp he with rfl | he
    · rfl
    · obtain ⟨r, -, rfl⟩ := List.mem_map.mp he
      rfl
  · rw [hlogo e he]
    decide

/-! ## 2. Meshes over white -/

/-- The white rectangle behind a mesh. -/
def backdrop (w h : Nat) : Tile := ⟨⟨0, 0, w, h⟩, Rgba.white, none⟩

theorem tile?_backdrop (w h : Nat) : (fullRect w h Rgba.white).tile? = some (backdrop w h) :=
  tile?_fullRect w h Rgba.white

/-- What is shown over the backdrop: the tiles of those rectangles that are over the pixel. -/
theorem shown_backdrop (share : String → ℚ) (rects : List ColorRect) {w h : Nat} (hx : x < w)
    (hy : y < h) :
    shown share (backdrop w h :: rects.map (meshTile α)) x y =
      (rects.filter (·.contains x y)).foldl
        (fun below r => ((meshTile α r).layer share).laidOver below) (Layer.ofRgba Rgba.white) := by
  have hbackdrop : (backdrop w h).box.Contains x y := Box.contains_mk.mpr ⟨by omega, by omega⟩
  have htiles : (rects.map (meshTile α)).filter (fun t => t.box.Contains x y) =
      (rects.filter (·.contains x y)).map (meshTile α) := by
    rw [List.filter_map]
    congr 1
    refine List.filter_congr fun r _ => ?_
    rw [Bool.eq_iff_iff, ColorRect.contains_iff]
    exact decide_eq_true_iff
  have hlayer : (backdrop w h).layer share = Layer.ofRgba Rgba.white :=
    Tile.layer_of_none share _ Rgba.white
  rw [shown, List.filter_cons, if_pos (decide_eq_true hbackdrop), htiles, List.foldl_cons, hlayer,
    Layer.laidOver_nothing, List.foldl_map]

/-- Over white, an opaque colour is shown as it is, and so is white of every alpha. -/
theorem layer_meshTile_laidOver (share : String → ℚ) {r : ColorRect}
    (hcolor : r.color.isOpaque = true ∨ r.color.isPureWhite = true) :
    ((meshTile α r).layer share).laidOver (Layer.ofRgba Rgba.white) =
      (Layer.ofRgba r.color).laidOver (Layer.ofRgba Rgba.white) := by
  rcases hcolor with hopaque | hwhite
  · have hlayer : (meshTile α r).layer share = Layer.ofRgba r.color := by
      rw [meshTile, opacityText_of_isOpaque hopaque, Rgba.solid_eq_self.mpr hopaque,
        Tile.layer_of_none]
    rw [hlayer]
  · have hsolid : r.color.solid.isPureWhite = true := hwhite
    exact (Layer.white_laidOver_white hsolid _).trans (Layer.white_laidOver_white hwhite _).symm

/-- **What a mesh shows over white** where the pixel is opaque, clear or white. -/
theorem shown_mesh (share : String → ℚ) {w h : Nat} (hx : x < w) (hy : y < h)
    (hc : img.pixel? x y = some c)
    (hcolor : c.isOpaque = true ∨ c.isClear = true ∨ c.isPureWhite = true) :
    shown share (backdrop w h :: (Mesh.decompose img elision).map (meshTile α)) x y =
      (Layer.ofRgba c).laidOver (Layer.ofRgba Rgba.white) := by
  rw [shown_backdrop share _ hx hy]
  cases hb : elision.isBackground c with
  | true =>
    rw [filter_contains_background hc hb, List.foldl_nil]
    -- what is left to the backdrop is clear or white
    have hback : c.isClear = true ∨ c.isPureWhite = true := by
      cases elision with
      | transparentOrWhite => exact Bool.or_eq_true_iff.mp hb
      | transparentOnly => exact .inl hb
    rcases hback with hclear | hwhite
    · rw [Layer.ofRgba_of_isClear hclear, Layer.nothing_laidOver]
    · exact (Layer.white_laidOver_white hwhite _).symm
  | false =>
    obtain ⟨r, hr, rfl⟩ := filter_contains_foreground hc hb
    rw [hr, List.foldl_cons, List.foldl_nil]
    refine layer_meshTile_laidOver share (hcolor.imp_right fun h => h.resolve_left fun hclear => ?_)
    cases elision with
    | transparentOrWhite => simp [Elision.isBackground, hclear] at hb
    | transparentOnly => simp [Elision.isBackground, hclear] at hb

/-! ## 3. Documents -/

/-- What the rectangles of a document say of a picture, if the colours of `elision` may be left
    out. -/
structure ShowsPicture (α : Type) [NatCast α] [Div α] [Numeric α] (elision : Elision) (img : Image)
    (backdrop : Element) (rects : List Element) : Prop where
  /-- Behind all others there is a white rectangle of the size of the picture. -/
  white : backdrop.tile? = some ⟨⟨0, 0, img.width, img.height⟩, Rgba.white, none⟩
  /-- Over a pixel that counts as background there is no other. -/
  background : ∀ x y c, img.pixel? x y = some c → elision.isBackground c = true →
    rects.filter (·.covers x y) = []
  /-- Over any other pixel there is exactly one, in the colour of the pixel and with its alpha as
      an opacity unless it is opaque. -/
  foreground : ∀ x y c, img.pixel? x y = some c → elision.isBackground c = false →
    ∃ e, rects.filter (·.covers x y) = [e] ∧ e.attribute? "fill" = some c.toHex ∧
      e.attribute? "fill-opacity" = if c.alpha < 255 then some (alphaText α c.alpha) else none
  /-- All of them can be read, and where a pixel is opaque, clear or white they show it over
      white. -/
  shown : ∃ tile tiles, backdrop.tile? = some tile ∧ rects.mapM Element.tile? = some tiles ∧
    ∀ share x y c, img.pixel? x y = some c →
      c.isOpaque = true ∨ c.isClear = true ∨ c.isPureWhite = true →
      Svg.shown share (tile :: tiles) x y = (Layer.ofRgba c).laidOver (Layer.ofRgba Rgba.white)

/-- The elements of the mesh of a picture show it. -/
theorem showsPicture_mesh (elision : Elision) (img : Image) :
    ShowsPicture α elision img (fullRect img.width img.height Rgba.white)
      ((Mesh.decompose img elision).map (meshElement α)) where
  white := tile?_backdrop ..
  background x y c hc hb := by
    rw [filter_covers, filter_contains_background hc hb]
    rfl
  foreground x y c hc hb := by
    obtain ⟨r, hr, rfl⟩ := filter_contains_foreground hc hb
    rw [filter_covers, hr]
    exact ⟨meshElement α r, rfl, attributes_meshElement r⟩
  shown := by
    refine ⟨_, _, tile?_backdrop .., mapM_map_eq_some fun r _ => tile?_meshElement r, ?_⟩
    intro share x y c hc hcolor
    obtain ⟨hx, hy⟩ := (img.isSome_pixel? x y).mp (by rw [hc]; rfl)
    exact shown_mesh share hx hy hc hcolor

end Svg

namespace Options

open Svg

variable {α : Type} [Add α] [Sub α] [Mul α] [Div α] [NatCast α] [LT α] [DecidableLT α]
  [LE α] [DecidableLE α] [Numeric α]

/-- **A traced document shows the unscaled picture.** If there is one for a grid under built
    options, then there is the picture, of the size of the canvas, and the rectangles of the
    document say of every pixel what it is. Another resolution leaves all children of the document
    as they are. -/
theorem traced_document {files : String → Except String Picture} {b : Builder α} {o : Options α}
    (h : b.build files = .ok o) (hformat : o.format = .svgTraced) {codecs : Codecs} {g : Grid}
    {doc : Element} (hdoc : o.document codecs g = .ok doc) :
    (∃ r img backdrop rects, Renderer.ofOptions o g = .ok r ∧ r.rasterizeUnscaled = .ok img ∧
      img.width = Renderer.canvasWidth o g ∧ img.height = Renderer.canvasHeight o g ∧
      doc.rectangles = backdrop :: rects ∧ ShowsPicture α o.elision img backdrop rects) ∧
    ∀ side, ∃ doc', ({ o with resolution := side } : Options α).document codecs g = .ok doc' ∧
      doc'.children = doc.children := by
  refine ⟨?_, document_resolution hdoc⟩
  obtain ⟨r, hr, hdocument⟩ := document_eq_ok hdoc
  obtain ⟨r', hr', rfl, rfl, -⟩ := Renderer.ofOptions_sound (Builder.build_sound h) g
  obtain rfl := Except.ok.inj (hr'.symm.trans hr)
  obtain ⟨drawing, logo, hdrawing, hlogo, rfl⟩ := Renderer.document_eq_ok hdocument
  rw [Renderer.drawingElements_traced hformat] at hdrawing
  obtain ⟨img, himg, hdrawing⟩ := Checked.bind_eq_ok ((map_eq_pure_bind _ _).symm.trans hdrawing)
  obtain ⟨-, -, hwidth, hheight, -⟩ := Renderer.rasterizeIn_kept himg
  obtain rfl := Except.ok.inj hdrawing
  refine ⟨r', img, _, _, hr', himg, hwidth, hheight, ?_, showsPicture_mesh r'.options.elision img⟩
  rw [meshElements_eq, hwidth, hheight]
  exact rectangles_traced _ _ _ _ fun e => Renderer.name_of_mem_logoElements hlogo

/-- A dark module in half-transparent red beside a light one, traced at another resolution. -/
theorem traced_document_translucent :
    let b : Builder ℚ := Builder.ofSettings [.format .svgTraced, .blockWidth 1, .border [0],
      .foreground ⟨255, 0, 0, 128⟩, .resolution 9]
    let g := Grid.ofFn 2 1 fun x _ => ⟨x == 0, .data⟩
    let codecs : Codecs := { png _ := [], jpeg _ := [], inlined _ := "" }
    ∃ o doc, b.build (fun _ => .error "missing") = .ok o ∧ o.format = .svgTraced ∧
      o.document codecs g = .ok doc ∧
      ∃ img backdrop rects, doc.rectangles = backdrop :: rects ∧
        ShowsPicture ℚ o.elision img backdrop rects := by
  intro b g codecs
  obtain ⟨o, ho⟩ : ∃ o, b.build (fun _ => .error "missing") = .ok o := ⟨_, rfl⟩
  obtain ⟨hformat, hgradient, hlogo⟩ :
      o.format = .svgTraced ∧ o.gradient = none ∧ o.logo = none := by
    obtain rfl := Except.ok.inj ho
    exact ⟨rfl, rfl, rfl⟩
  obtain ⟨doc, hdoc⟩ := document_isOk (Builder.build_sound ho) hlogo (fun _ => hgradient) codecs g
  obtain ⟨⟨r, img, backdrop, rects, hr, himg, hw, hh, hrects, hshows⟩, -⟩ :=
    traced_document ho hformat hdoc
  exact ⟨o, doc, ho, hformat, hdoc, img, backdrop, rects, hrects, hshows⟩

end Options

end QrRender
