import QrRender.Output.Document
import QrRender.Output.Sink

/-!
# Writing the output

The output of a grid under some options is a list of bytes: the image under the custom encoder if
there is one, else under the codec of the format, else the text of the document. It is complete
before the sink is offered its first byte, so that a sink gets nothing of an output that cannot be
produced.
-/

namespace QrRender.Options

variable {α : Type} [Add α] [Sub α] [Mul α] [Div α] [NatCast α] [LT α] [DecidableLT α]
  [LE α] [DecidableLE α] [Numeric α]

/-- The finished image of a grid. -/
def image (o : Options α) (g : Grid) : Except Fault Image := do
  (← Renderer.ofOptions o g).image

/-- The vector document of a grid. -/
def document (codecs : Codecs) (o : Options α) (g : Grid) : Except Failure Svg.Element := do
  (← Failure.ofFault (Renderer.ofOptions o g)).document codecs

/-- The encoder of a format, if the format is one of pixels. -/
def formatEncoder (codecs : Codecs) : OutputFormat → Option Encoder
  | .jpeg => some codecs.jpegEncoder
  | .png => some codecs.pngEncoder
  | .svgPath => none
  | .svgPrimitive => none
  | .svgTraced => none

/-- The encoder in use: the custom one before that of the format. -/
def imageEncoder (codecs : Codecs) (o : Options α) : Option Encoder :=
  o.encoder.or (formatEncoder codecs o.format)

/-- The bytes of an image under an encoder, if it does not fail. -/
def encoded (encoder : Encoder) (img : Image) : Except Failure (List UInt8) :=
  let encoding := encoder img
  match encoding.failure with
  | none => .ok encoding.bytes
  | some e => .error (.error e)

/-- The bytes of a text. -/
def textBytes (s : String) : List UInt8 := s.toUTF8.toList

/-- The complete output. -/
def output (codecs : Codecs) (o : Options α) (g : Grid) : Except Failure (List UInt8) := do
  match o.imageEncoder codecs with
  | some encoder =>
    let img ← Failure.ofFault (o.image g)
    encoded encoder img
  | none =>
    let document ← o.document codecs g
    return textBytes document.text

/-- The output written to a sink: what became of it there, and the failure if there was one. -/
def write {σ : Type} (codecs : Codecs) (o : Options α) (g : Grid) (sink : Sink σ) (state : σ) :
    Delivery σ × Except Failure Unit :=
  match o.output codecs g with
  | .error f => (⟨state, [], false, none⟩, .error f)
  | .ok bytes =>
    let d := sink.deliver state bytes
    match d.failure with
    | none => (d, .ok ())
    | some cause => (d, .error (.error (.io (.refused cause))))

/-- The output written to a place that has to be opened first; where it cannot be opened, nothing
    is produced. -/
def save {σ : Type} (codecs : Codecs) (o : Options α) (g : Grid) (sink : Sink σ)
    (place : Except String σ) : Option (Delivery σ) × Except Failure Unit :=
  match place with
  | .error cause => (none, .error (.error (.io (.unavailable cause))))
  | .ok state =>
    let (d, r) := o.write codecs g sink state
    (some d, r)

end QrRender.Options
