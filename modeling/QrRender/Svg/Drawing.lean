import QrRender.Svg.Element
import QrRender.Svg.PathData
import QrRender.Svg.Paint

/-!
# Drawings as vector elements

A vector surface takes one command after the other. Between two commits it keeps the path and the
settings; a commit makes elements of them, puts these after the elements made so far, and leaves
the surface with an empty path and the default style. Only the paint stays.

There are two kinds of surface. One makes a single path of each commit. The other makes a rectangle
or a circle of each such step, where the commit has no other steps, the non-zero rule, no dashes,
and, if there are several, no transparency: overlapping elements would blend with one another where
a single path blends once. Everything else it draws as the first kind does.

A commit without geometry, or with an invisible paint, makes no elements on either.
-/

namespace QrRender

/-- The kinds of vector surface. -/
inductive VectorKind where
  | path
  | primitive
  deriving DecidableEq

namespace Svg

open Instruction

/-- A rectangle or a circle that may become an element of its own. -/
inductive Primitive (α : Type) where
  | rect (x y w h : α)
  | circle (cx cy r : α)

/-- A path as an element. -/
def pathElement {α : Type} [Numeric α] (data : List (Instruction α))
    (attributes : List (String × String)) : Element :=
  .leaf "path" (("d", dataText data) :: attributes)

/-- A primitive as an element: its geometry, and attributes beside it. -/
def Primitive.element {α : Type} [Numeric α] (attributes : List (String × String)) :
    Primitive α → Element
  | rect x y w h =>
    .leaf "rect" ([("x", Numeric.text x), ("y", Numeric.text y), ("width", Numeric.text w),
      ("height", Numeric.text h)] ++ attributes)
  | circle cx cy r =>
    .leaf "circle" ([("cx", Numeric.text cx), ("cy", Numeric.text cy), ("r", Numeric.text r)]
      ++ attributes)

/-! ## One path for each commit -/

/-- A drawing in progress whose commits become paths. -/
structure PathDrawing (α : Type) where
  /-- The data of the path since the last commit. -/
  data : List (Instruction α)
  paint : Paint
  style : Style α
  /-- The elements made so far. -/
  elements : Array Element

namespace PathDrawing

variable {α : Type} [Add α] [Sub α] [Div α] [NatCast α] [LT α] [DecidableLT α]
  [LE α] [DecidableLE α] [Numeric α]

/-- Nothing has been drawn yet. -/
def start : PathDrawing α := ⟨[], .solid Rgba.black, Style.default, #[]⟩

/-- A commit: one element at most. -/
def commit (gradient : Option String) (d : PathDrawing α) (ink : Ink) : PathDrawing α :=
  let made :=
    if d.data.isEmpty || d.paint.isInvisible then []
    else [pathElement d.data (inkAttributes gradient ink d.paint d.style)]
  { d with data := [], style := Style.default, elements := d.elements ++ made.toArray }

/-- One command. -/
def step (gradient : Option String) (d : PathDrawing α) : Command α → PathDrawing α
  | .path step => { d with data := d.data ++ ofStep step }
  | .paint paint => { d with paint := paint }
  | .lineWidth w => { d with style := { d.style with lineWidth := w } }
  | .dash pattern => { d with style := d.style.withDash pattern }
  | .cap c => { d with style := { d.style with cap := c } }
  | .fillRule r => { d with style := { d.style with rule := r } }
  | .commit ink => d.commit gradient ink

end PathDrawing

/-! ## Rectangles and circles where possible -/

/-- A drawing in progress whose commits become rectangles and circles where possible. -/
structure PrimitiveDrawing (α : Type) where
  /-- The primitives since the last commit. -/
  primitives : List (Primitive α)
  /-- The data of the path since the last commit, primitives included. -/
  data : List (Instruction α)
  /-- There has been a step since the last commit that is part of a free-form outline. -/
  compound : Bool
  paint : Paint
  style : Style α
  /-- The elements made so far. -/
  elements : Array Element

namespace PrimitiveDrawing

variable {α : Type} [Add α] [Sub α] [Div α] [NatCast α] [LT α] [DecidableLT α]
  [LE α] [DecidableLE α] [Numeric α]

/-- Nothing has been drawn yet. -/
def start : PrimitiveDrawing α := ⟨[], [], false, .solid Rgba.black, Style.default, #[]⟩

/-- The next commit can be drawn as separate rectangles and circles. -/
def isNative (d : PrimitiveDrawing α) : Bool :=
  !d.compound && (d.primitives.length ≤ 1 || d.paint.flat.isOpaque) && d.style.rule == .nonZero
    && d.style.dash.isEmpty

/-- A commit: an element for each primitive, or one path. -/
def commit (gradient : Option String) (d : PrimitiveDrawing α) (ink : Ink) : PrimitiveDrawing α :=
  let attributes := inkAttributes gradient ink d.paint d.style
  let made :=
    if d.data.isEmpty || d.paint.isInvisible then []
    else if d.isNative then d.primitives.map (Primitive.element attributes)
    else [pathElement d.data attributes]
  { d with primitives := [], data := [], compound := false, style := Style.default,
           elements := d.elements ++ made.toArray }

/-- A step of the path. -/
def addStep (d : PrimitiveDrawing α) : PathStep α → PrimitiveDrawing α
  | .circle cx cy r =>
    { d with primitives := d.primitives ++ [.circle cx cy r]
             data := d.data ++ ofStep (.circle cx cy r) }
  | .rect x y w h =>
    { d with primitives := d.primitives ++ [.rect x y w h]
             data := d.data ++ ofStep (.rect x y w h) }
  | .newSubPath => d
  | step => { d with compound := true, data := d.data ++ ofStep step }

/-- One command. -/
def step (gradient : Option String) (d : PrimitiveDrawing α) : Command α → PrimitiveDrawing α
  | .path step => d.addStep step
  | .paint paint => { d with paint := paint }
  | .lineWidth w => { d with style := { d.style with lineWidth := w } }
  | .dash pattern => { d with style := d.style.withDash pattern }
  | .cap c => { d with style := { d.style with cap := c } }
  | .fillRule r => { d with style := { d.style with rule := r } }
  | .commit ink => d.commit gradient ink

end PrimitiveDrawing

/-! ## Whole drawings -/

/-- The states of a drawing after each of its commands. -/
def states {σ α : Type} (step : σ → Command α → σ) : σ → List (Command α) → List σ
  | _, [] => []
  | d, c :: cs =>
    let next := step d c
    next :: states step next cs

variable {α : Type} [Add α] [Sub α] [Div α] [NatCast α] [LT α] [DecidableLT α]
  [LE α] [DecidableLE α] [Numeric α]

/-- The elements of a drawing. -/
def draw (kind : VectorKind) (gradient : Option String) (cs : List (Command α)) : List Element :=
  match kind with
  | .path => (cs.foldl (PathDrawing.step gradient) PathDrawing.start).elements.toList
  | .primitive => (cs.foldl (PrimitiveDrawing.step gradient) PrimitiveDrawing.start).elements.toList

/-- The number of elements there are after each command of a drawing. -/
def counts (kind : VectorKind) (gradient : Option String) (cs : List (Command α)) : List Nat :=
  match kind with
  | .path =>
    (states (PathDrawing.step gradient) PathDrawing.start cs).map (·.elements.size)
  | .primitive =>
    (states (PrimitiveDrawing.step gradient) PrimitiveDrawing.start cs).map (·.elements.size)

/-- The group that holds the elements of a drawing. -/
def group (elements : List Element) : Element := ⟨"g", [], elements⟩

end Svg

end QrRender
