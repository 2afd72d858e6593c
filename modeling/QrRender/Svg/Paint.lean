import QrRender.Color.Hex
import QrRender.Command
import QrRender.Numeric

/-!
# Paint and style as attributes

A vector surface may have a gradient, known by its id. A fill with that gradient needs no attribute
of its own, because the group around the elements supplies it; a stroke names it. Without a
gradient a gradient paint shows its fallback.

An alpha below the maximum is written as an opacity beside the colour. Strokes never fill, and
their joins are round.
-/

namespace QrRender.Svg

variable {α : Type} [NatCast α] [LT α] [DecidableLT α] [Div α] [Numeric α]

/-- A reference to the element with an id. -/
def reference (id : String) : String := "url(#" ++ id ++ ")"

/-- The value of the attribute for a fill, if it needs one. -/
def fillValue? (gradient : Option String) : Paint → Option String
  | .solid c => some c.toHex
  | .gradient fallback =>
    match gradient with
    | some _ => none
    | none => some fallback.toHex

/-- The value of the attribute for a stroke. -/
def strokeValue (gradient : Option String) : Paint → String
  | .solid c => c.toHex
  | .gradient fallback =>
    match gradient with
    | some id => reference id
    | none => fallback.toHex

/-- The text of an alpha as a share of its maximum. -/
def alphaText (α : Type) [NatCast α] [Div α] [Numeric α] (a : UInt8) : String :=
  Numeric.text (((a.toNat : Nat) : α) / ((255 : Nat) : α))

/-- The opacity under an attribute name, where the colour of the paint is not opaque. -/
def opacity (α : Type) [NatCast α] [Div α] [Numeric α] (name : String) (paint : Paint) :
    List (String × String) :=
  if paint.flat.alpha < 255 then [(name, alphaText α paint.flat.alpha)] else []

/-- The name of a fill rule. -/
def ruleName : FillRule → String
  | .nonZero => "nonzero"
  | .evenOdd => "evenodd"

/-- The name of a line cap. -/
def capName : LineCap → String
  | .butt => "butt"
  | .round => "round"
  | .square => "square"

/-- The attributes of a filled element. -/
def fillAttributes (gradient : Option String) (paint : Paint) (style : Style α) :
    List (String × String) :=
  (if style.rule = .evenOdd then [("fill-rule", ruleName style.rule)] else [])
    ++ ((fillValue? gradient paint).map fun v => ("fill", v)).toList
    ++ opacity α "fill-opacity" paint

/-- The attributes of a stroked element. -/
def strokeAttributes (gradient : Option String) (paint : Paint) (style : Style α) :
    List (String × String) :=
  [("stroke", strokeValue gradient paint)]
    ++ (if ((0 : Nat) : α) < style.lineWidth then [("stroke-width", Numeric.text style.lineWidth)]
        else [])
    ++ (if style.cap = .butt then [] else [("stroke-linecap", capName style.cap)])
    ++ [("stroke-linejoin", "round")]
    ++ (if style.dash.isEmpty then []
        else [("stroke-dasharray", " ".intercalate (style.dash.map Numeric.text))])
    ++ opacity α "stroke-opacity" paint
    ++ [("fill", "none")]

/-- The attributes of an element that is filled or stroked. -/
def inkAttributes (gradient : Option String) (ink : Ink) (paint : Paint) (style : Style α) :
    List (String × String) :=
  match ink with
  | .fill => fillAttributes gradient paint style
  | .stroke => strokeAttributes gradient paint style

end QrRender.Svg
