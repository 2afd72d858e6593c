import QrRender.Error
import QrRender.Image

/-!
# Encoders

An encoder turns a finished image into bytes. It may fail after it has produced some of them, so
its result is the bytes and, if it failed, the error.

The two standard formats are encoded outside this library. `Codecs` holds what their encoders
produce and when they fail, and the reference by which an image is inlined in a document as a PNG.
Nothing here depends on when that is, but for one thing: an image with pixels can be a PNG. Unless
`Codecs` say otherwise an image without pixels can be neither, and the sides of a JPEG are at most
65535.
-/

namespace QrRender

/-- What an encoder produced, and the error if it failed. -/
structure Encoding where
  bytes : List UInt8
  failure : Option Error

/-- A way to turn images into bytes. -/
abbrev Encoder := Image → Encoding

namespace Codecs

/-- The image has pixels. -/
def hasPixels (img : Image) : Bool := img.width != 0 && img.height != 0

/-- The longest side of a JPEG. -/
def maxJpegSide : Nat := 65535

end Codecs

/-- The encodings of the two standard formats: what is produced of an image, and the cause of the
    failure if there is one. -/
structure Codecs where
  png : Image → List UInt8
  jpeg : Image → List UInt8
  /-- The reference that inlines an image as a PNG. -/
  inlined : Image → String
  pngFailure : Image → Option String := fun img =>
    if Codecs.hasPixels img then none else some "no pixels"
  jpegFailure : Image → Option String := fun img =>
    if Codecs.hasPixels img && img.width ≤ Codecs.maxJpegSide
        && img.height ≤ Codecs.maxJpegSide then none
    else some "unsupported size"
  /-- An image with pixels can be a PNG. -/
  pngFailure_eq_none : ∀ img, Codecs.hasPixels img = true → pngFailure img = none := by
    intro _ h
    exact if_pos h

namespace Codecs

/-- The PNG of an image. -/
def pngEncoder (codecs : Codecs) : Encoder := fun img =>
  ⟨codecs.png img, (codecs.pngFailure img).map .encode⟩

/-- The JPEG of an image. -/
def jpegEncoder (codecs : Codecs) : Encoder := fun img =>
  ⟨codecs.jpeg img, (codecs.jpegFailure img).map .encode⟩

end Codecs

end QrRender
