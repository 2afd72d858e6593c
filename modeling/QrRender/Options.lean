import QrRender.Encoder
import QrRender.Gradient
import QrRender.Grid
import QrRender.Halftone
import QrRender.Shape

/-!
# Options

`Options` is a complete configuration of an output: the border around the symbol, the size of a
module, the colours, the shape, a logo and a halftone, the format, and what may be elided. It holds
values only; how it is put together from settings is in `QrRender.Options.Builder`.

The functions here resolve what a render asks of it: the background as painted, the flat colour of
a module, and the logo for a canvas.
-/

namespace QrRender

/-! ## Formats and borders -/

/-- The form of the output. -/
inductive OutputFormat where
  | jpeg
  | png
  /-- One path for each commit. -/
  | svgPath
  /-- Rectangles and circles where possible. -/
  | svgPrimitive
  /-- The pixels traced back into rectangles. -/
  | svgTraced
  deriving DecidableEq

namespace OutputFormat

instance : Inhabited OutputFormat := ⟨.jpeg⟩

/-- The output is a document of vector elements. -/
def isVector : OutputFormat → Bool
  | jpeg | png => false
  | svgPath | svgPrimitive | svgTraced => true

/-- The usual file name extension. -/
def extension : OutputFormat → String
  | jpeg => "jpeg"
  | png => "png"
  | svgPath | svgPrimitive | svgTraced => "svg"

/-- The name of a format. -/
def name : OutputFormat → String
  | jpeg => "Jpeg"
  | png => "Png"
  | svgPath => "SvgPath"
  | svgPrimitive => "SvgPrimitive"
  | svgTraced => "SvgTraced"

end OutputFormat

/-- The widths of the four sides of a border, in pixels. -/
structure Border where
  top : Nat
  right : Nat
  bottom : Nat
  left : Nat
  deriving DecidableEq

namespace Border

/-- One width on all sides. -/
def uniform (w : Nat) : Border := ⟨w, w, w, w⟩

/-- Twenty pixels on all sides. -/
def default : Border := uniform 20

/-- The border that a list of widths is short for: none stands for the default, one for all
    sides, two or three for the vertical and then the horizontal sides, four or more for top,
    right, bottom and left. -/
def ofShorthand : List Nat → Border
  | [] => default
  | [w] => uniform w
  | [v, h] => ⟨v, h, v, h⟩
  | [v, h, _] => ⟨v, h, v, h⟩
  | t :: r :: b :: l :: _ => ⟨t, r, b, l⟩

/-- The left and the right width together. -/
def horizontal (b : Border) : Nat := b.left + b.right

/-- The top and the bottom width together. -/
def vertical (b : Border) : Nat := b.top + b.bottom

end Border

/-! ## Colours of modules -/

/-- Colours that replace the foreground for some roles. -/
structure ModuleColors where
  data : Option Rgba
  finder : Option Rgba
  deriving DecidableEq

namespace ModuleColors

/-- One colour for all roles. -/
def uniform (c : Rgba) : ModuleColors := ⟨some c, some c⟩

/-- The colour of a role: finder modules have one entry, all others share the other, and a
    missing entry is the foreground. -/
def resolve (colors : ModuleColors) (kind : ModuleKind) (foreground : Rgba) : Rgba :=
  let entry := if kind = .finder then colors.finder else colors.data
  entry.getD foreground

end ModuleColors

/-! ## Options -/

/-- A complete configuration. -/
structure Options (α : Type) where
  border : Border
  blockWidth : Nat
  backgroundColor : Rgba
  /-- The background is left clear, whatever its colour. -/
  clearBackground : Bool
  foreground : Rgba
  colors : ModuleColors
  gradient : Option (Gradient α)
  shape : Shape α
  logo : Option Image
  /-- The side of the canvas has to be at least this many times the side of the logo. -/
  logoMultiplier : Nat
  /-- Modules behind the logo and around it are left out. -/
  logoSafeZone : Bool
  /-- The logo is scaled to the largest size allowed. -/
  logoFit : Bool
  halftone : Option Picture
  halftoneThreshold : Int
  format : OutputFormat
  elision : Elision
  /-- The side of a square output, if it is fixed. -/
  resolution : Option Nat
  encoder : Option Encoder

namespace Options

/-- The width of a module unless another is given. -/
def defaultBlockWidth : Nat := 20

/-- The logo multiplier unless another is given. -/
def defaultLogoMultiplier : Nat := 5

variable {α : Type}

/-- The background as painted. -/
def background (o : Options α) : Rgba :=
  if o.clearBackground then Rgba.transparent else o.backgroundColor

/-- The colour of a module apart from any gradient: a light one has the background's. -/
def moduleColor (o : Options α) (m : Module) : Rgba :=
  if m.dark then o.colors.resolve m.kind o.foreground else o.background

variable [Mul α] [Div α] [NatCast α] [LT α] [DecidableLT α] [Numeric α]

/-- The size of a logo of `lw` by `lh` scaled to fit into `maxW` by `maxH` with its proportions
    kept; neither side becomes zero. -/
def fittedSize (α : Type) [Mul α] [Div α] [NatCast α] [LT α] [DecidableLT α] [Numeric α]
    (lw lh maxW maxH : Nat) : Nat × Nat :=
  let rw : α := (maxW : α) / (lw : α)
  let rh : α := (maxH : α) / (lh : α)
  let ratio := if rh < rw then rh else rw
  (max (Numeric.nearest ((lw : α) * ratio)) 1, max (Numeric.nearest ((lh : α) * ratio)) 1)

/-- The logo scaled to fit; one without pixels stays as it is. -/
def fitLogo (α : Type) [Mul α] [Div α] [NatCast α] [LT α] [DecidableLT α] [Numeric α]
    (logo : Image) (maxW maxH : Nat) : Image :=
  if logo.width = 0 ∨ logo.height = 0 then logo
  else
    let (w, h) := fittedSize α logo.width logo.height maxW maxH
    logo.resize .catmullRom w h

/-- The logo for a symbol of `symbolW` by `symbolH`: scaled if that is asked for. -/
def scaledLogo (o : Options α) (logo : Image) (symbolW symbolH : Nat) : Except Fault Image :=
  if o.logoFit then do
    let maxW ← Checked.div symbolW o.logoMultiplier
    let maxH ← Checked.div symbolH o.logoMultiplier
    return fitLogo α logo maxW maxH
  else pure logo

/-- The logo for a canvas of `w` by `h` around a symbol of `symbolW` by `symbolH`: scaled if that
    is asked for, and left out if it is too large for the canvas. -/
def logoFor (o : Options α) (w h symbolW symbolH : Nat) : Except Fault (Option Image) :=
  match o.logo with
  | none => .ok none
  | some logo => do
    let logo ← o.scaledLogo logo symbolW symbolH
    if logo.width * o.logoMultiplier > w ∨ logo.height * o.logoMultiplier > h then return none
    return some logo

end Options

end QrRender
