import QrRender.Image.Picture

/-!
# Resizing

A picture is resized along one axis after the other, first its columns and then its rows, in
single precision and without rounding in between. A sample of the result is a weighted sum of the
samples around its centre in the source; the weights come from a kernel, stretched by the ratio of
the sizes when the picture shrinks, and are divided by their sum. All sums are taken in order.

A picture of the size asked for is returned as it is, and one without pixels gives zeros. The
result always has exactly the size asked for.
-/

namespace QrRender

/-- A kernel: how far it reaches from its centre, and its weight at a distance. -/
structure Kernel where
  support : Float32
  weight : Float32 → Float32

namespace Kernel

/-- Linear interpolation between neighbours. -/
def triangle : Kernel where
  support := 1
  weight x :=
    let a := x.abs
    if a < 1 then 1 - a else 0

/-- The Catmull-Rom spline. -/
def catmullRom : Kernel where
  support := 2
  weight x :=
    let a := x.abs
    let square := a * a
    let cube := a * square
    let k : Float32 :=
      if a < 1 then 9 * cube - 15 * square + 6
      else if a < 2 then (-3 * cube + 15 * square - 24 * a) + 12
      else 0
    k / 6

/-- The first source sample that counts for sample `o` of `count` out of `n`, and the weights from
    there on. -/
def taps (kernel : Kernel) (n count o : Nat) : Nat × List Float32 :=
  let ratio := Float32.ofNat n / Float32.ofNat count
  let stretch : Float32 := if ratio < 1 then 1 else ratio
  let reach := kernel.support * stretch
  let centre := (Float32.ofNat o + 0.5) * ratio
  let left := min (centre - reach).floor.toUInt64.toNat (n - 1)
  let right := max (min (centre + reach).ceil.toUInt64.toNat n) (left + 1)
  let middle := centre - 0.5
  let raw := (List.range (right - left)).map fun i =>
    kernel.weight ((Float32.ofNat (left + i) - middle) / stretch)
  let total := raw.foldl (· + ·) 0
  (left, raw.map (· / total))

/-- The sum of the samples from `left` on, each times its weight. -/
def weighted (sample : Nat → Float32) : Nat → Float32 → List Float32 → Float32
  | _, acc, [] => acc
  | i, acc, w :: ws => weighted sample (i + 1) (acc + sample i * w) ws

end Kernel

namespace Picture

/-- A sum of samples as a sample: cut to its range, and rounded with a half going up. -/
def ofSum (v : Float32) : UInt8 :=
  let cut : Float32 := if v < 0 then 0 else if 255 < v then 255 else v
  cut.round.toUInt8

/-- The picture at `w` by `h`, of the same kind. -/
def resize (kernel : Kernel) (w h : Nat) (p : Picture) : Picture :=
  if p.width = 0 ∨ p.height = 0 then ofFn p.kind w h fun _ _ _ => 0
  else if p.width = w ∧ p.height = h then p
  else
    let n := p.kind.channels
    let rowTaps := Array.ofFn fun o : Fin h => kernel.taps p.height h o
    let columns : Array Float32 := Array.ofFn fun i : Fin (p.width * h * n) =>
      let cell := i.val / n
      let (top, ws) := rowTaps.getD (cell / p.width) (0, [])
      Kernel.weighted (fun y => (p.sample (cell % p.width) y (i.val % n)).toFloat32) top 0 ws
    let columnTaps := Array.ofFn fun o : Fin w => kernel.taps p.width w o
    ofFn p.kind w h fun x y k =>
      let (left, ws) := columnTaps.getD x (0, [])
      ofSum (Kernel.weighted (fun i => columns.getD ((y * p.width + i) * n + k) 0) left 0 ws)

theorem size_resize (kernel : Kernel) (w h : Nat) (p : Picture) :
    (p.resize kernel w h).width = w ∧ (p.resize kernel w h).height = h := by
  unfold resize
  split
  · exact ⟨rfl, rfl⟩
  split
  · rename_i heq
    exact heq
  · exact ⟨rfl, rfl⟩

end Picture

/-- The image at `w` by `h`. -/
def Image.resize (kernel : Kernel) (w h : Nat) (img : Image) : Image :=
  ((Picture.ofImage img).resize kernel w h).toImage

end QrRender
