import QrRender.Numeric

/-!
# Views

A view maps the coordinates of a drawing onto the pixels of a surface: a point is scaled and then
moved. `View.fit` is the view that fits a canvas into a square, centred and as large as possible.
-/

namespace QrRender

/-- A uniform scale followed by a step. -/
structure View (α : Type) where
  scale : α
  dx : α
  dy : α

namespace View

variable {α : Type} [Add α] [Sub α] [Mul α] [Div α] [NatCast α]

/-- One pixel for each unit of the drawing. -/
def identity : View α := ⟨(1 : Nat), (0 : Nat), (0 : Nat)⟩

/-- The view that fits a canvas of `w` by `h` into a square of side `side`. -/
def fit (side w h : Nat) : View α :=
  let scale : α := (side : α) / (max (max w h) 1 : Nat)
  { scale := scale
    dx := ((side : α) - (w : α) * scale) / (2 : Nat)
    dy := ((side : α) - (h : α) * scale) / (2 : Nat) }

end View

end QrRender
