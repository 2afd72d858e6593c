/-!
# Colours

A colour has a red, a green, a blue and an alpha channel of eight bits each. Alpha is not
premultiplied: a colour with alpha zero still has its other three channels.

`Elision` says which colours count as background and may be left out of a drawing.
-/

namespace QrRender

/-- A colour with eight bits for each of red, green, blue and alpha. -/
structure Rgba where
  red : UInt8
  green : UInt8
  blue : UInt8
  alpha : UInt8
  deriving DecidableEq, Inhabited

namespace Rgba

def white : Rgba := ⟨255, 255, 255, 255⟩

def black : Rgba := ⟨0, 0, 0, 255⟩

/-- Black with alpha zero. -/
def transparent : Rgba := ⟨0, 0, 0, 0⟩

/-- The opaque grey of one luma value. -/
def ofGray (v : UInt8) : Rgba := ⟨v, v, v, 255⟩

/-- Nothing shows through. -/
def isOpaque (c : Rgba) : Bool := c.alpha == 255

/-- Nothing shows. -/
def isClear (c : Rgba) : Bool := c.alpha == 0

/-- The three colour channels are at their maximum, whatever the alpha. -/
def isPureWhite (c : Rgba) : Bool := c.red == 255 && c.green == 255 && c.blue == 255

end Rgba

/-- Which colours count as background. -/
inductive Elision where
  /-- Clear colours and pure white ones, of any alpha. -/
  | transparentOrWhite
  /-- Clear colours only, so that a white foreground is kept. -/
  | transparentOnly
  deriving DecidableEq

namespace Elision

instance : Inhabited Elision := ⟨.transparentOrWhite⟩

/-- Whether `c` may be left out of a drawing. -/
def isBackground : Elision → Rgba → Bool
  | .transparentOrWhite, c => c.isClear || c.isPureWhite
  | .transparentOnly, c => c.isClear

end Elision

end QrRender
