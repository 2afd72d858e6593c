import QrRender.Mesh
import QrRender.Output.Picture
import QrRender.Svg.Drawing

/-!
# Output as a vector document

The document has the size of the output, and if a resolution is set, a view box of the size of the
canvas; all coordinates are pixels of the canvas. It holds, in this order, the definition of the
gradient, the background, a group with the elements of the modules, and the logo as an inlined
image. The group fills with the gradient, if there is one, so that the elements in it need no fill
of their own.

A traced document holds instead a white rectangle and the rectangles of the mesh of the drawn
pixels.
-/

namespace QrRender

/-- Why there is no output: a partial operation failed, or there is an error to report. -/
inductive Failure where
  | fault (f : Fault)
  | error (e : Error)
  deriving DecidableEq

/-- The result of a partial operation where errors are possible as well. -/
def Failure.ofFault {β : Type} : Except Fault β → Except Failure β
  | .ok b => .ok b
  | .error f => .error (.fault f)

namespace Svg

/-- The id of the gradient of a document. -/
def gradientId : String := "qrGradient"

/-- The text of a natural number. -/
def natText (n : Nat) : String := String.ofList (Decimal.digits n)

/-- A rectangle at a place, in whole units. -/
def placedRect (x y w h : Nat) (more : List (String × String)) : Element :=
  .leaf "rect" ([("x", natText x), ("y", natText y), ("width", natText w), ("height", natText h)]
    ++ more)

/-- A rectangle that covers the canvas. -/
def fullRect (w h : Nat) (c : Rgba) : Element :=
  .leaf "rect" [("width", natText w), ("height", natText h), ("fill", c.toHex)]

section

variable (α : Type) [NatCast α] [Div α] [Numeric α]

/-- The rectangles of a mesh. -/
def meshElements (rects : List ColorRect) : List Element :=
  rects.map fun r =>
    placedRect r.x r.y r.width r.height
      (("fill", r.color.toHex) ::
        (if r.color.alpha < 255 then [("fill-opacity", alphaText α r.color.alpha)] else []))

end

variable {α : Type} [Add α] [Sub α] [Mul α] [Div α] [NatCast α] [LT α] [DecidableLT α]
  [LE α] [DecidableLE α] [Numeric α]

/-- A colour stop of a gradient. -/
def stopElement (s : ColorStop α) : Element :=
  .leaf "stop" [("offset", Numeric.fixedText s.position), ("stop-color", s.color.toHex)]

/-- The definition of a gradient across a canvas of `w` by `h`. -/
def gradientDefinition (g : Gradient α) (w h : Nat) : Element :=
  let line := g.line (w : α) (h : α)
  ⟨"defs", [], [⟨"linearGradient",
    [("id", gradientId), ("gradientUnits", "userSpaceOnUse"),
      ("x1", Numeric.fixedText line.x1), ("y1", Numeric.fixedText line.y1),
      ("x2", Numeric.fixedText line.x2), ("y2", Numeric.fixedText line.y2)],
    g.stops.map stopElement⟩]⟩

/-- An image inlined at a place, if it can be a PNG. -/
def logoElement (codecs : Codecs) (logo : Image) (x y : Nat) : Except Error Element :=
  match codecs.pngFailure logo with
  | none =>
    .ok (.leaf "image" [("x", natText x), ("y", natText y), ("width", natText logo.width),
      ("height", natText logo.height), ("href", codecs.inlined logo)])
  | some cause => .error (.encode cause)

end Svg

namespace Renderer

open Svg

variable {α : Type} [Add α] [Sub α] [Mul α] [Div α] [NatCast α] [LT α] [DecidableLT α]
  [LE α] [DecidableLE α] [Numeric α]

/-- The kind of vector surface for a format: rectangles and circles only where asked for. -/
def vectorKind : OutputFormat → VectorKind
  | .svgPrimitive => .primitive
  | _ => .path

/-- The id of the gradient, if there is one. -/
def gradientRef (r : Renderer α) : Option String :=
  r.options.gradient.map fun _ => gradientId

/-- The rectangle behind the modules, unless the background is clear. -/
def backgroundElements (r : Renderer α) : List Element :=
  let c := r.options.background
  if c.isClear then [] else [fullRect r.width r.height c]

/-- The group of the modules. -/
def moduleGroup (r : Renderer α) : Except Fault Element := do
  let commands ← r.commands
  let elements := draw (vectorKind r.options.format) r.gradientRef commands
  return { group elements with
    attributes := (r.gradientRef.map fun id => ("fill", reference id)).toList }

/-- What a document shows of the modules and the background. -/
def drawingElements (r : Renderer α) : Except Fault (List Element) := do
  if r.options.format = .svgTraced then
    let img ← r.rasterizeUnscaled
    return fullRect r.width r.height Rgba.white
      :: meshElements α (Mesh.decompose img r.options.elision)
  else
    let group ← r.moduleGroup
    return (r.options.gradient.map fun g => gradientDefinition g r.width r.height).toList
      ++ r.backgroundElements ++ [group]

/-- The logo in a document. -/
def logoElements (codecs : Codecs) (r : Renderer α) : Except Failure (List Element) := do
  match r.logo, ← Failure.ofFault r.logoOrigin with
  | some logo, some (x, y) =>
    match logoElement codecs logo x y with
    | .ok e => return [e]
    | .error e => throw (.error e)
  | _, _ => return []

/-- The attributes of the root. -/
def rootAttributes (r : Renderer α) : List (String × String) :=
  [("xmlns", "http://www.w3.org/2000/svg"), ("width", natText r.outputSize.1),
    ("height", natText r.outputSize.2), ("shape-rendering", "crispEdges")]
    ++ (r.options.resolution.map fun _ =>
        ("viewBox", "0 0 " ++ natText r.width ++ " " ++ natText r.height)).toList

/-- The document. -/
def document (codecs : Codecs) (r : Renderer α) : Except Failure Element := do
  let drawing ← Failure.ofFault r.drawingElements
  let logo ← r.logoElements codecs
  return ⟨"svg", r.rootAttributes, drawing ++ logo⟩

end Renderer

end QrRender
