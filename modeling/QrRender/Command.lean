import QrRender.Paint

/-!
# Drawing commands

A drawing is a list of commands. Path steps build up a path; settings choose a paint and the style
of the next commit; a commit fills or strokes the path built so far and makes it one visual unit.

The same commands are drawn as pixels and as two kinds of vector elements. Each kind of surface
takes them one by one and keeps, between two commits, what the next commit will need.
-/

namespace QrRender

/-- A step in the building of a path. -/
inductive PathStep (α : Type) where
  | moveTo (x y : α)
  | lineTo (x y : α)
  | quadTo (cx cy x y : α)
  | close
  /-- A closed circle, a sub-path of its own. -/
  | circle (cx cy r : α)
  /-- A closed rectangle, a sub-path of its own. -/
  | rect (x y w h : α)
  /-- The current sub-path ends here without being closed. -/
  | newSubPath
  deriving DecidableEq

/-- How often a path has to wind around a point for the point to be inside. -/
inductive FillRule where
  | nonZero
  | evenOdd
  deriving DecidableEq

/-- The ends of open strokes. -/
inductive LineCap where
  | butt
  | round
  | square
  deriving DecidableEq

/-- The two kinds of commit. -/
inductive Ink where
  | fill
  | stroke
  deriving DecidableEq

/-- A drawing command. -/
inductive Command (α : Type) where
  | path (step : PathStep α)
  | paint (paint : Paint)
  | lineWidth (width : α)
  | dash (pattern : List α)
  | cap (cap : LineCap)
  | fillRule (rule : FillRule)
  | commit (ink : Ink)
  deriving DecidableEq

/-- What a commit takes from the settings before it. -/
structure Style (α : Type) where
  lineWidth : α
  dash : List α
  cap : LineCap
  rule : FillRule
  deriving DecidableEq

namespace Style

variable {α : Type} [NatCast α] [LT α] [DecidableLT α] [LE α] [DecidableLE α]

/-- Width one, no dashes, butt caps, and the non-zero rule. -/
def default : Style α := ⟨(1 : Nat), [], .butt, .nonZero⟩

/-- The style with a dash pattern. A pattern with a negative length, or one that has no length but
    zero, would never get along a line; it means no dashes. -/
def withDash (s : Style α) (pattern : List α) : Style α :=
  let zero : α := (0 : Nat)
  let negative := pattern.any fun d => decide (d < zero)
  let still := pattern.all fun d => decide (d ≤ zero ∧ zero ≤ d)
  { s with dash := if negative || still then [] else pattern }

end Style

end QrRender
