import QrRender.Decimal.Fixed

/-!
# Numbers to draw with

Geometry here is written once for any type of numbers that has the four operations, the two
comparisons and the natural numbers. `Numeric` adds what drawing needs beyond that: the exact
value of a number, its rounding to the precision in which a raster surface keeps coordinates, a
square root, the direction of an angle, and a total order that also ranks the two zeros.

Programs run on doubles, for which the instance is below. Laws of the geometry are stated over
exact numbers, where rounding to the precision of a surface changes nothing.
-/

namespace QrRender

/-- What drawing asks of numbers beyond arithmetic and comparison. -/
class Numeric (α : Type) where
  /-- The exact value. -/
  exact : α → Exact
  /-- The value rounded to the precision of surface coordinates. -/
  single : α → α
  sqrt : α → α
  /-- The unit step in the direction of an angle in degrees, where zero is right, angles grow
      counter-clockwise and the second coordinate grows downwards. -/
  direction : α → α × α
  /-- A total order, in which numbers that compare equal may still differ. -/
  totalLe : α → α → Bool

namespace Numeric

variable {α : Type} [Numeric α]

/-- Neither an infinity nor no number. -/
def isFinite (x : α) : Bool := (exact x).isFinite

/-- The greatest natural number not above `x`. -/
def floor (x : α) : Nat := (exact x).floor

/-- The natural number nearest `x`. -/
def nearest (x : α) : Nat := (exact x).nearest

/-- The integer nearest `x`. -/
def round (x : α) : Int := (exact x).round

/-- The text of `x` with at most two places: the form of every length and coordinate in a vector
    drawing. -/
def text (x : α) : String := (exact x).trimmed 2

/-- The text of `x` with exactly three places: the form of positions in a gradient. -/
def fixedText (x : α) : String := (exact x).fixed 3

end Numeric

/-! ## Doubles -/

instance natCastFloat : NatCast Float := ⟨Float.ofNat⟩

/-- The rank of a double in the total order: its bits read as sign and magnitude, the negative
    zero one below the positive. -/
def floatRank (x : Float) : Int :=
  let bits := x.toBits.toNat
  let half := Nat.pow 2 63
  if bits < half then bits else (half : Int) - 1 - bits

/-- The direction of an angle in degrees. An angle that is not finite has none. -/
def floatDirection (degrees : Float) : Float × Float :=
  if (Exact.ofFloat degrees).isFinite then
    let angle := degrees * (3.14159265358979323846 / 180.0)
    (Float.cos angle, -Float.sin angle)
  else (0.0 / 0.0, 0.0 / 0.0)

/-- The bit of a double for its sign. -/
def signBit : UInt64 := 0x8000000000000000

/-- The bits of the positive infinity. -/
def infinityBits : UInt64 := 0x7ff0000000000000

/-- The bits of the least power of two that is too large for single precision. -/
def singleLimit : UInt64 := 0x47f0000000000000

/-- A double whose last place is the one that single precision has for doubles with the biased
    exponent `e`, or the least one. -/
def singleAnchor (e : UInt64) : Float := .ofBits ((max e 897 + 29) <<< 52 ||| 0x8000000000000)

/-- A double rounded to single precision. Adding the anchor rounds at its last place, a midpoint to
    the even side, and taking it away again is exact. What is too large becomes an infinity, and a
    zero keeps the sign. -/
def floatSingle (x : Float) : Float :=
  if x.isNaN then x
  else
    let bits := x.toBits
    let e := bits >>> 52 &&& 2047
    let rounded :=
      if e < 1151 then (x + singleAnchor e - singleAnchor e).toBits &&& ~~~signBit
      else infinityBits
    .ofBits ((if rounded < singleLimit then rounded else infinityBits) ||| bits &&& signBit)

instance numericFloat : Numeric Float where
  exact := Exact.ofFloat
  single := floatSingle
  sqrt := Float.sqrt
  direction := floatDirection
  totalLe a b := floatRank a ≤ floatRank b

end QrRender
