import QrRender.Output.Write
import QrRender.Proofs.Raster.Answers
import QrRender.Proofs.Render.Total

/-!
# The parts of a document

A document consists of what is drawn and of the logo. What is drawn is either the traced picture or
the definition of the gradient, the background and the group of the modules. The resolution
changes the attributes of the root alone.

* `Renderer.document_eq_ok`: the parts of a document;
* `Renderer.drawingElements_traced`, `Renderer.drawingElements_vector`: what is drawn;
* `Renderer.form_of_mem_logoElements`, `Renderer.logoElements_of_failure`: the logo is an image, or
  cannot be written;
* `Options.document_isOk`: without a logo there is a document;
* **`Options.document_resolution`**: documents for different resolutions have the same children.
-/

namespace QrRender

open Svg

theorem Failure.ofFault_eq_ok {β : Type} {x : Except Fault β} {b : β}
    (h : Failure.ofFault x = .ok b) : x = .ok b := by
  cases x with
  | error f => cases h
  | ok c => exact congrArg Except.ok (Except.ok.inj h)

namespace Renderer

/-! ## 1. The logo -/

section

variable {α : Type} {r : Renderer α}

/-- The logo is an image, with no element in it, and neither filled nor stroked. -/
theorem form_of_mem_logoElements {codecs : Codecs} {logo : List Element}
    (h : r.logoElements codecs = .ok logo) {e : Element} (he : e ∈ logo) :
    e.name = "image" ∧ e.children = [] ∧ e.attribute? "fill" = none ∧
      e.attribute? "stroke" = none := by
  obtain ⟨origin, -, h⟩ := Checked.bind_eq_ok h
  split at h
  · split at h
    · rename_i helement
      obtain rfl := Except.ok.inj h
      obtain rfl := List.mem_singleton.mp he
      unfold logoElement at helement
      split at helement
      · rw [← Except.ok.inj helement]
        exact ⟨rfl, rfl, rfl, rfl⟩
      · cases helement
    · cases h
  · obtain rfl := Except.ok.inj h
    exact absurd he List.not_mem_nil

theorem name_of_mem_logoElements {codecs : Codecs} {logo : List Element}
    (h : r.logoElements codecs = .ok logo) {e : Element} (he : e ∈ logo) : e.name = "image" :=
  (form_of_mem_logoElements h he).1

theorem logoElements_of_none (h : r.logo = none) (codecs : Codecs) :
    r.logoElements codecs = .ok [] := by
  unfold logoElements logoOrigin
  rw [h]
  rfl

/-- A logo that has pixels can be written. -/
theorem logoElements_isOk (hr : r.Sound)
    (h : ∀ logo, r.logo = some logo → Codecs.hasPixels logo = true) (codecs : Codecs) :
    ∃ elements, r.logoElements codecs = .ok elements := by
  cases hlogo : r.logo with
  | none => exact ⟨[], logoElements_of_none hlogo codecs⟩
  | some logo =>
    unfold logoElements
    rw [logoOrigin_eq hr, hlogo]
    simp only [Option.map_some, Failure.ofFault, bind, Except.bind, logoElement,
      codecs.pngFailure_eq_none logo (h logo hlogo)]
    exact ⟨_, rfl⟩

/-- A logo that cannot be a PNG cannot be written. -/
theorem logoElements_of_failure {logo : Image} {x y : Nat} {codecs : Codecs} {cause : String}
    (hlogo : r.logo = some logo) (horigin : r.logoOrigin = .ok (some (x, y)))
    (hfailure : codecs.pngFailure logo = some cause) :
    r.logoElements codecs = .error (.error (.encode cause)) := by
  unfold logoElements
  rw [hlogo, horigin]
  simp only [Failure.ofFault, bind, Except.bind, logoElement, hfailure]
  rfl

/-- Without a logo in the options there is none in the renderer. -/
theorem logo_eq_none [Mul α] [Div α] [NatCast α] [LT α] [DecidableLT α] [Numeric α]
    {o : Options α} {g : Grid} (h : ofOptions o g = .ok r) (hnone : o.logo = none) :
    r.logo = none := by
  obtain ⟨logo, hlogo, h⟩ := Checked.bind_eq_ok h
  rw [Options.logoFor, hnone] at hlogo
  rw [← Except.ok.inj h, ← Except.ok.inj hlogo]

end

variable {α : Type} [Add α] [Sub α] [Mul α] [Div α] [NatCast α] [LT α] [DecidableLT α]

/-- A sound render has commands. -/
theorem commands_isOk {r : Renderer α} (hr : r.Sound) : ∃ cs, r.commands = .ok cs := by
  obtain ⟨zone, occupancy, -, -, houtcomes⟩ := outcomes_eq hr
  rw [commands, calls_eq_of_outcomes houtcomes]
  exact ⟨_, rfl⟩

variable [LE α] [DecidableLE α] [Numeric α]

/-! ## 2. Parts -/

/-- A document has what is drawn, and then the logo. -/
theorem document_eq_ok {r : Renderer α} {codecs : Codecs} {doc : Element}
    (h : r.document codecs = .ok doc) :
    ∃ drawing logo, r.drawingElements = .ok drawing ∧ r.logoElements codecs = .ok logo ∧
      doc = ⟨"svg", r.rootAttributes, drawing ++ logo⟩ := by
  obtain ⟨drawing, hdrawing, h⟩ := Checked.bind_eq_ok h
  obtain ⟨logo, hlogo, h⟩ := Checked.bind_eq_ok h
  exact ⟨drawing, logo, Failure.ofFault_eq_ok hdrawing, hlogo, (Except.ok.inj h).symm⟩

/-- What has been drawn and a logo make a document. -/
theorem document_of_parts {r : Renderer α} {codecs : Codecs} {drawing logo : List Element}
    (hdrawing : r.drawingElements = .ok drawing) (hlogo : r.logoElements codecs = .ok logo) :
    r.document codecs = .ok ⟨"svg", r.rootAttributes, drawing ++ logo⟩ := by
  unfold document
  rw [hdrawing, hlogo]
  rfl

/-- Where the logo cannot be written there is no document, whatever has been drawn. -/
theorem document_of_logo_failure {r : Renderer α} {codecs : Codecs} {drawing : List Element}
    {f : Failure} (hdrawing : r.drawingElements = .ok drawing)
    (hlogo : r.logoElements codecs = .error f) : r.document codecs = .error f := by
  unfold document
  rw [hdrawing, hlogo]
  rfl

/-- A traced drawing is a white rectangle and the mesh of the picture. -/
theorem drawingElements_traced {r : Renderer α} (h : r.options.format = .svgTraced) :
    r.drawingElements = (fun img => fullRect r.width r.height Rgba.white
      :: meshElements α (Mesh.decompose img r.options.elision)) <$> r.rasterizeUnscaled := by
  unfold drawingElements
  rw [if_pos h]
  exact (map_eq_pure_bind _ _).symm

/-- The group of the modules, once their commands are known. -/
def groupOf (r : Renderer α) (cs : List (Command α)) : Element :=
  { group (draw (vectorKind r.options.format) r.gradientRef cs) with
    attributes := (r.gradientRef.map fun id => ("fill", reference id)).toList }

/-- Any other drawing is the definition of the gradient, the background and the modules. -/
theorem drawingElements_vector {r : Renderer α} (h : r.options.format ≠ .svgTraced) :
    r.drawingElements = (fun cs =>
      (r.options.gradient.map fun g => gradientDefinition g r.width r.height).toList
        ++ r.backgroundElements ++ [r.groupOf cs]) <$> r.commands := by
  unfold drawingElements moduleGroup
  rw [if_neg h]
  cases r.commands <;> rfl

/-- **A sound renderer whose logo has pixels has a document**, a traced one if there is no
    gradient. -/
theorem document_isOk {r : Renderer α} (hr : r.Sound)
    (hlogo : ∀ logo, r.logo = some logo → Codecs.hasPixels logo = true)
    (hgradient : r.options.format = .svgTraced → r.options.gradient = none) (codecs : Codecs) :
    ∃ doc, r.document codecs = .ok doc := by
  obtain ⟨logo, hlogo⟩ := logoElements_isOk hr hlogo codecs
  obtain ⟨cs, hcs⟩ := commands_isOk hr
  obtain ⟨drawing, hdrawing⟩ : ∃ drawing, r.drawingElements = .ok drawing := by
    by_cases hformat : r.options.format = .svgTraced
    · have hcolors := Surface.hasColors_of_none (s := ⟨View.identity, r.options.gradient⟩)
        (hgradient hformat) r.width r.height
      obtain ⟨img, himg, -⟩ := rasterizeIn_isOk hcs hcolors
      have himg' : r.rasterizeUnscaled = .ok img := himg
      rw [drawingElements_traced hformat, himg']
      exact ⟨_, rfl⟩
    · rw [drawingElements_vector hformat, hcs]
      exact ⟨_, rfl⟩
  exact ⟨_, document_of_parts hdrawing hlogo⟩

/-! ## 3. Other output -/

/-- The same render for another format and another size of the output. -/
def withOutput (r : Renderer α) (format : OutputFormat) (side : Option Nat) : Renderer α :=
  { r with options := { r.options with format := format, resolution := side } }

omit [Add α] [Sub α] [LE α] [DecidableLE α] in
theorem options_of_ofOptions {o : Options α} {g : Grid} {r : Renderer α}
    (h : ofOptions o g = .ok r) : r.options = o := by
  obtain ⟨logo, -, h⟩ := Checked.bind_eq_ok h
  rw [← Except.ok.inj h]

omit [Add α] [Sub α] [LE α] [DecidableLE α] in
theorem grid_of_ofOptions {o : Options α} {g : Grid} {r : Renderer α}
    (h : ofOptions o g = .ok r) : r.grid = g := by
  obtain ⟨logo, -, h⟩ := Checked.bind_eq_ok h
  rw [← Except.ok.inj h]

omit [Add α] [Sub α] [LE α] [DecidableLE α] in
theorem ofOptions_withOutput {o : Options α} {g : Grid} {r : Renderer α}
    (h : ofOptions o g = .ok r) (format : OutputFormat) (side : Option Nat) :
    ofOptions { o with format := format, resolution := side } g =
      .ok (r.withOutput format side) := by
  obtain ⟨logo, hlogo, h⟩ := Checked.bind_eq_ok h
  obtain rfl := Except.ok.inj h
  show (do
    let logo ← o.logoFor (canvasWidth o g) (canvasHeight o g) (g.width * o.blockWidth)
      (g.height * o.blockWidth)
    return _) = _
  rw [hlogo]
  rfl

/-- What is drawn and the logo do not depend on the resolution. -/
theorem document_withOutput {r : Renderer α} {codecs : Codecs} {doc : Element}
    (h : r.document codecs = .ok doc) (side : Option Nat) :
    (r.withOutput r.options.format side).document codecs =
      .ok ⟨"svg", (r.withOutput r.options.format side).rootAttributes, doc.children⟩ := by
  obtain ⟨drawing, logo, hdrawing, hlogo, rfl⟩ := document_eq_ok h
  have hdrawing' : (r.withOutput r.options.format side).drawingElements = .ok drawing := hdrawing
  have hlogo' : (r.withOutput r.options.format side).logoElements codecs = .ok logo := hlogo
  exact document_of_parts hdrawing' hlogo'

end Renderer

namespace Options

variable {α : Type} [Add α] [Sub α] [Mul α] [Div α] [NatCast α] [LT α] [DecidableLT α]
  [LE α] [DecidableLE α] [Numeric α] {o : Options α} {codecs : Codecs} {g : Grid}

theorem document_of_renderer {r : Renderer α} (hr : Renderer.ofOptions o g = .ok r) :
    o.document codecs g = r.document codecs := by
  unfold document
  rw [hr]
  rfl

/-- A document is that of the renderer. -/
theorem document_eq_ok {doc : Element} (h : o.document codecs g = .ok doc) :
    ∃ r, Renderer.ofOptions o g = .ok r ∧ r.document codecs = .ok doc := by
  obtain ⟨r, hr, hdoc⟩ := Checked.bind_eq_ok h
  exact ⟨r, Failure.ofFault_eq_ok hr, hdoc⟩

/-- **The resolution changes nothing in a document but the attributes of its root.** -/
theorem document_resolution {doc : Element} (h : o.document codecs g = .ok doc)
    (side : Option Nat) :
    ∃ doc', ({ o with resolution := side } : Options α).document codecs g = .ok doc' ∧
      doc'.children = doc.children := by
  obtain ⟨r, hr, hdoc⟩ := document_eq_ok h
  obtain rfl := Renderer.options_of_ofOptions hr
  have hr' := Renderer.ofOptions_withOutput hr r.options.format side
  exact ⟨_, (document_of_renderer hr').trans (Renderer.document_withOutput hdoc side), rfl⟩

/-- **Without a logo there is a document**, for a traced one if there is no gradient either. -/
theorem document_isOk (ho : o.Sound) (hlogo : o.logo = none)
    (hgradient : o.format = .svgTraced → o.gradient = none) (codecs : Codecs) (g : Grid) :
    ∃ doc, o.document codecs g = .ok doc := by
  obtain ⟨r, hr, rfl, rfl, hsound⟩ := Renderer.ofOptions_sound ho g
  have hnone := Renderer.logo_eq_none hr hlogo
  obtain ⟨doc, hdoc⟩ := Renderer.document_isOk hsound
    (fun logo hsome => by rw [hnone] at hsome; cases hsome) hgradient codecs
  exact ⟨doc, (document_of_renderer hr).trans hdoc⟩

end Options

end QrRender
