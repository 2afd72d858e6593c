import QrRender.Color.Hex
import QrRender.Options

/-!
# Building options from settings

A configuration is put together by settings, applied one after the other; a later setting of the
same thing replaces an earlier one. Building resolves what was set: colours that were given as
text, images that were given as files, and values that make no sense.

Building fails for modules of no width, for a file that cannot be read, and for a text that is no
colour, and it reports the first of these in the order: width, logo, halftone, background,
foreground. A multiplier of zero, a resolution of zero and a gradient without stops are replaced by
the default, by none, and by no gradient.
-/

namespace QrRender

/-- A colour as it was given. -/
inductive ColorSource where
  | color (c : Rgba)
  | hex (text : String)
  deriving DecidableEq

/-- An image as it was given. -/
inductive ImageSource where
  | picture (p : Picture)
  | file (path : String)

/-- The colour that was given. -/
def ColorSource.resolve : ColorSource → Except Error Rgba
  | color c => .ok c
  | hex text =>
    match Rgba.ofHex? text with
    | some c => .ok c
    | none => .error (.invalidColor text)

/-- The picture that was given; `files` reads a file or says why not. -/
def ImageSource.load (files : String → Except String Picture) :
    ImageSource → Except Error Picture
  | picture p => .ok p
  | file path =>
    match files path with
    | .ok p => .ok p
    | .error cause => .error (.imageRead path cause)

/-- One setting. -/
inductive Setting (α : Type) where
  | border (widths : List Nat)
  | blockWidth (w : Nat)
  | background (c : Rgba)
  | backgroundHex (text : String)
  | clearBackground (b : Bool)
  | foreground (c : Rgba)
  | foregroundHex (text : String)
  | dataColor (c : Rgba)
  | finderColor (c : Rgba)
  | colors (colors : ModuleColors)
  | gradient (g : Gradient α)
  | shape (s : Shape α)
  | logo (p : Picture)
  | logoFile (path : String)
  | logoMultiplier (n : Nat)
  | logoSafeZone (b : Bool)
  | logoFit (b : Bool)
  | halftone (p : Picture)
  | halftoneFile (path : String)
  | halftoneThreshold (t : Int)
  | format (f : OutputFormat)
  | elision (e : Elision)
  | resolution (n : Nat)
  | encoder (e : Encoder)

/-- What has been set so far. -/
structure Builder (α : Type) where
  border : Border
  blockWidth : Nat
  background : ColorSource
  clearBackground : Bool
  foreground : ColorSource
  colors : ModuleColors
  gradient : Option (Gradient α)
  shape : Shape α
  logo : Option ImageSource
  logoMultiplier : Nat
  logoSafeZone : Bool
  logoFit : Bool
  halftone : Option ImageSource
  halftoneThreshold : Int
  format : OutputFormat
  elision : Elision
  resolution : Option Nat
  encoder : Option Encoder

namespace Builder

variable {α : Type}

/-- Nothing has been set: black squares of twenty pixels on white, in the default format. -/
def initial : Builder α where
  border := Border.default
  blockWidth := Options.defaultBlockWidth
  background := .color Rgba.white
  clearBackground := false
  foreground := .color Rgba.black
  colors := ⟨none, none⟩
  gradient := none
  shape := default
  logo := none
  logoMultiplier := Options.defaultLogoMultiplier
  logoSafeZone := false
  logoFit := false
  halftone := none
  halftoneThreshold := Halftone.defaultThreshold
  format := default
  elision := default
  resolution := none
  encoder := none

/-- One more setting. -/
def apply (b : Builder α) : Setting α → Builder α
  | .border widths => { b with border := Border.ofShorthand widths }
  | .blockWidth w => { b with blockWidth := w }
  | .background c => { b with background := .color c }
  | .backgroundHex text => { b with background := .hex text }
  | .clearBackground v => { b with clearBackground := v }
  | .foreground c => { b with foreground := .color c }
  | .foregroundHex text => { b with foreground := .hex text }
  | .dataColor c => { b with colors := { b.colors with data := some c } }
  | .finderColor c => { b with colors := { b.colors with finder := some c } }
  | .colors colors => { b with colors := colors }
  | .gradient g => { b with gradient := some g }
  | .shape s => { b with shape := s }
  | .logo p => { b with logo := some (.picture p) }
  | .logoFile path => { b with logo := some (.file path) }
  | .logoMultiplier n => { b with logoMultiplier := n }
  | .logoSafeZone v => { b with logoSafeZone := v }
  | .logoFit v => { b with logoFit := v }
  | .halftone p => { b with halftone := some (.picture p) }
  | .halftoneFile path => { b with halftone := some (.file path) }
  | .halftoneThreshold t => { b with halftoneThreshold := t }
  | .format f => { b with format := f }
  | .elision e => { b with elision := e }
  | .resolution n => { b with resolution := some n }
  | .encoder e => { b with encoder := some e }

/-- The settings of a list, applied in order. -/
def ofSettings (settings : List (Setting α)) : Builder α := settings.foldl apply initial

/-- The picture of an optional source. -/
def loadOptional (files : String → Except String Picture) :
    Option ImageSource → Except Error (Option Picture)
  | none => .ok none
  | some source => (source.load files).map some

/-- The options from what has been set and what was given as text or in files. -/
def assemble (b : Builder α) (logo halftone : Option Picture) (background foreground : Rgba) :
    Options α where
  border := b.border
  blockWidth := b.blockWidth
  backgroundColor := background
  clearBackground := b.clearBackground
  foreground := foreground
  colors := b.colors
  gradient := b.gradient.filter fun g => !g.isEmpty
  shape := b.shape
  logo := logo.map Picture.toImage
  logoMultiplier :=
    if b.logoMultiplier = 0 then Options.defaultLogoMultiplier else b.logoMultiplier
  logoSafeZone := b.logoSafeZone
  logoFit := b.logoFit
  halftone := halftone
  halftoneThreshold := b.halftoneThreshold
  format := b.format
  elision := b.elision
  resolution := b.resolution.filter fun r => r != 0
  encoder := b.encoder

/-- The options that have been set. -/
def build (files : String → Except String Picture) (b : Builder α) :
    Except Error (Options α) := do
  if b.blockWidth = 0 then throw .invalidBlockWidth
  let logo ← loadOptional files b.logo
  let halftone ← loadOptional files b.halftone
  let background ← b.background.resolve
  let foreground ← b.foreground.resolve
  return b.assemble logo halftone background foreground

end Builder

end QrRender
