import QrRender.Proofs.Document.Parts

/-!
# Documents at any resolution

The coordinates of a document are pixels of the canvas, whatever the size of the output. Two
documents of one grid whose options differ in the resolution alone are drawn by two renders, which
have to agree in everything that is drawn: in the size check and the place of the logo, in the
line of the gradient, in the modules, and in the picture that is traced. They agree in their
failures too.

* `Renderer.ofOptions_withResolution`, `Renderer.document_withResolution`: the second render and
  its document, made from the first;
* `Svg.Element.withoutSize`, `Svg.Element.HasSize`: a root without the attributes that carry its
  size, and what these attributes are;
* **`Options.documents_resized`**: two documents that differ in the resolution.
-/

namespace QrRender

open Svg

/-! ## 1. The second render -/

namespace Renderer

variable {α : Type}

/-- The same render at another resolution. -/
def withResolution (r : Renderer α) (side : Option Nat) : Renderer α :=
  r.withOutput r.options.format side

/-- The logo and the halftone are prepared without the resolution. -/
theorem ofOptions_withResolution [Mul α] [Div α] [NatCast α] [LT α] [DecidableLT α] [Numeric α]
    (o : Options α) (g : Grid) (side : Option Nat) :
    ofOptions { o with resolution := side } g = (·.withResolution side) <$> ofOptions o g := by
  show (do
    let logo ← o.logoFor (canvasWidth o g) (canvasHeight o g) (g.width * o.blockWidth)
      (g.height * o.blockWidth)
    return _) = _
  unfold ofOptions
  cases o.logoFor (canvasWidth o g) (canvasHeight o g) (g.width * o.blockWidth)
    (g.height * o.blockWidth) <;> rfl

variable [Add α] [Sub α] [Mul α] [Div α] [NatCast α] [LT α] [DecidableLT α]
  [LE α] [DecidableLE α] [Numeric α]

/-- What is drawn, the logo, and whether there are any, do not depend on the resolution. -/
theorem document_withResolution (codecs : Codecs) (r : Renderer α) (side : Option Nat) :
    (r.withResolution side).document codecs =
      (fun doc => { doc with attributes := (r.withResolution side).rootAttributes }) <$>
        r.document codecs := by
  show (do
    let drawing ← Failure.ofFault r.drawingElements
    let logo ← r.logoElements codecs
    return (⟨"svg", (r.withResolution side).rootAttributes, drawing ++ logo⟩ : Element)) = _
  unfold document
  cases Failure.ofFault r.drawingElements with
  | error f => rfl
  | ok drawing => cases r.logoElements codecs <;> rfl

end Renderer

/-! ## 2. The size of a document -/

namespace Svg

/-- The attribute is part of the size of a document. -/
def isSize (a : String × String) : Bool :=
  a.1 == "width" || a.1 == "height" || a.1 == "viewBox"

/-- The element without its size. -/
def Element.withoutSize (e : Element) : Element :=
  { e with attributes := e.attributes.filter fun a => !isSize a }

/-- The size of the document of a canvas of `w` by `h`: with a resolution it is that on both sides
    and the canvas is the view box, and otherwise it is the canvas and there is no view box. -/
structure Element.HasSize (e : Element) (w h : Nat) (side : Option Nat) : Prop where
  width : e.attribute? "width" = some (natText (side.getD w))
  height : e.attribute? "height" = some (natText (side.getD h))
  viewBox : e.attribute? "viewBox" =
    side.map fun _ => "0 0 " ++ natText w ++ " " ++ natText h

/-- Two documents of a canvas of `w` by `h` for two resolutions: one failure, or two documents that
    are the same but for their sizes. -/
inductive SameButSize (w h : Nat) (side side' : Option Nat) :
    Except Failure Element → Except Failure Element → Prop where
  | error (f : Failure) : SameButSize w h side side' (.error f) (.error f)
  | ok {doc doc' : Element} (same : doc.withoutSize = doc'.withoutSize)
      (size : doc.HasSize w h side) (size' : doc'.HasSize w h side') :
      SameButSize w h side side' (.ok doc) (.ok doc')

end Svg

namespace Renderer

variable {α : Type}

/-- Whatever the resolution, the root has its other attributes. -/
theorem filter_rootAttributes (r : Renderer α) :
    r.rootAttributes.filter (fun a => !isSize a) =
      [("xmlns", "http://www.w3.org/2000/svg"), ("shape-rendering", "crispEdges")] := by
  unfold rootAttributes
  cases r.options.resolution <;> rfl

theorem hasSize_root (r : Renderer α) (children : List Element) :
    (Element.mk "svg" r.rootAttributes children).HasSize r.width r.height r.options.resolution := by
  constructor
  all_goals
    unfold rootAttributes outputSize
    cases r.options.resolution <;> rfl

end Renderer

/-! ## 3. Two documents -/

namespace Options

variable {α : Type} [Add α] [Sub α] [Mul α] [Div α] [NatCast α] [LT α] [DecidableLT α]
  [LE α] [DecidableLE α] [Numeric α]

/-- **A resolution only resizes a document.** For any grid and any format, the documents for two
    resolutions, or for one and none, are both missing for the same reason, or both there and the
    same but for the width, the height and the view box of the root, which are those of the
    resolution and of the canvas. -/
theorem documents_resized (codecs : Codecs) (o : Options α) (g : Grid) (side side' : Option Nat) :
    SameButSize (Renderer.canvasWidth o g) (Renderer.canvasHeight o g) side side'
      (({ o with resolution := side } : Options α).document codecs g)
      (({ o with resolution := side' } : Options α).document codecs g) := by
  unfold document
  rw [Renderer.ofOptions_withResolution o g side, Renderer.ofOptions_withResolution o g side']
  cases hr : Renderer.ofOptions o g with
  | error f => exact .error (.fault f)
  | ok r =>
    show SameButSize _ _ side side' ((r.withResolution side).document codecs)
      ((r.withResolution side').document codecs)
    rw [Renderer.document_withResolution, Renderer.document_withResolution]
    cases hdoc : r.document codecs with
    | error f => exact .error f
    | ok doc =>
      obtain ⟨drawing, logo, -, -, rfl⟩ := Renderer.document_eq_ok hdoc
      obtain rfl := Renderer.options_of_ofOptions hr
      obtain rfl := Renderer.grid_of_ofOptions hr
      refine .ok ?_ (Renderer.hasSize_root (r.withResolution side) _)
        (Renderer.hasSize_root (r.withResolution side') _)
      show Element.mk _ _ _ = Element.mk _ _ _
      rw [Renderer.filter_rootAttributes, Renderer.filter_rootAttributes]

end Options

end QrRender
