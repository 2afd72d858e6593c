import QrRender.Proofs.Drawing.Ink
import QrRender.Proofs.Numeric.Single

/-!
# Widths of strokes

A stroke has the width in effect. On pixels a width that is not above zero, or is no number, strokes
nothing. A vector surface writes the width of a stroke, but only if it is above zero. An element
without it is not drawn without a stroke: it is drawn with the width that such elements have by
default, which is one. So the surfaces differ where the width is not above zero.

* `Svg.Element.strokeWidth`: the width that an element is drawn with;
* `Svg.strokeWidth_of_mem_commitElements`: the widths of the elements of a commit;
* `Surface.paintCommit_of_not_pos`, `Surface.draw_eq_filter`: what is not stroked on pixels;
* **`Svg.stroke_widths`**: strokes on all three surfaces;
* `Svg.stroke_width_missing`: a stroke of no width.
-/

namespace QrRender

namespace Svg

/-- The width of strokes where nothing is said of it. Neither the group around the elements of a
    drawing nor a document says anything. -/
def defaultStrokeWidth : String := "1"

/-- The width that the stroke of an element is drawn with. -/
def Element.strokeWidth (e : Element) : String :=
  (e.attribute? "stroke-width").getD defaultStrokeWidth

variable {α : Type} [Add α] [Sub α] [Div α] [NatCast α] [LT α] [DecidableLT α] [Numeric α]

section

variable {kind : VectorKind} {gradient : Option String} {k : Commit α} {e : Element}

/-- The elements of a stroke say its width if that is above zero. -/
theorem attribute?_strokeWidth (hink : k.ink = .stroke) (h : e ∈ commitElements kind gradient k) :
    e.attribute? "stroke-width" =
      if ((0 : Nat) : α) < k.style.lineWidth then some (Numeric.text k.style.lineWidth)
      else none := by
  rw [attribute?_of_mem_commitElements h (by decide), hink]
  exact (valueOf?_strokeAttributes gradient k.paint k.style).2.2

/-- **The elements of a stroke** are drawn with its width if that is above zero, and otherwise with
    the default. -/
theorem strokeWidth_of_mem_commitElements (hink : k.ink = .stroke)
    (h : e ∈ commitElements kind gradient k) :
    e.strokeWidth = if ((0 : Nat) : α) < k.style.lineWidth then Numeric.text k.style.lineWidth
      else defaultStrokeWidth := by
  rw [Element.strokeWidth, attribute?_strokeWidth hink h]
  split <;> rfl

end

end Svg

/-- The commit fills, or strokes with a width above zero. -/
def Commit.hasExtent {α : Type} [NatCast α] [LT α] [DecidableLT α] (k : Commit α) : Bool :=
  match k.ink with
  | .fill => true
  | .stroke => decide (((0 : Nat) : α) < k.style.lineWidth)

namespace Surface

/-- **A stroke whose width is not above zero changes nothing on pixels.** -/
theorem paintCommit_of_not_pos (s : Surface Float) (img : Image) {k : Commit Float}
    (h : k.hasExtent = false) : s.paintCommit img k = .ok img := by
  obtain ⟨steps, style, paint, ink⟩ := k
  cases ink with
  | fill => cases h
  | stroke =>
    have hwidth : ¬((0 : Nat) : Float) < Numeric.single style.lineWidth :=
      fun hpos => of_decide_eq_false h (Double.pos_of_floatSingle hpos)
    have hnone : s.coverage? .stroke style (SubPath.ofSteps steps) = none :=
      if_pos (.inl fun hfinite => hwidth hfinite.2)
    simp only [paintCommit, hnone]
    rfl

/-- A drawing on pixels is painted by its fills and its strokes with a width above zero alone. -/
theorem draw_eq_filter (s : Surface Float) (img : Image) (cs : List (Command Float)) :
    s.draw img cs =
      ((Pen.initial.commits cs).filter Commit.hasExtent).foldlM s.paintCommit img := by
  have hstep : s.paintCommit =
      fun img k => if k.hasExtent = true then s.paintCommit img k else pure img := by
    funext img k
    cases hk : k.hasExtent with
    | true => rfl
    | false => exact paintCommit_of_not_pos s img hk
  rw [draw_eq, List.foldlM_filter]
  exact congrArg (fun f => (Pen.initial.commits cs).foldlM f img) hstep

end Surface

namespace Svg

/-- **Strokes on all three surfaces.** The elements of a vector drawing are those of its commits.
    In a stroke whose width is above zero they are drawn with that width. In any other they say
    nothing of the width, so that they are drawn with the default; on pixels such a stroke changes
    nothing, and the drawing is the same without it. -/
theorem stroke_widths (kind : VectorKind) (gradient : Option String) (s : Surface Float)
    (img : Image) (cs : List (Command Float)) :
    draw kind gradient cs = (Pen.initial.commits cs).flatMap (commitElements kind gradient) ∧
    (∀ k ∈ Pen.initial.commits cs, k.ink = .stroke →
      ∀ e ∈ commitElements kind gradient k,
        (((0 : Nat) : Float) < k.style.lineWidth →
          e.strokeWidth = Numeric.text k.style.lineWidth) ∧
        (¬((0 : Nat) : Float) < k.style.lineWidth →
          e.attribute? "stroke-width" = none ∧ e.strokeWidth = defaultStrokeWidth ∧
          ∀ img, s.paintCommit img k = .ok img)) ∧
    s.draw img cs =
      ((Pen.initial.commits cs).filter Commit.hasExtent).foldlM s.paintCommit img := by
  refine ⟨draw_eq kind gradient cs, fun k _ hink e he => ⟨fun hpos => ?_, fun hnot => ?_⟩,
    s.draw_eq_filter img cs⟩
  · rw [strokeWidth_of_mem_commitElements hink he, if_pos hpos]
  · have hextent : k.hasExtent = false := by
      rw [Commit.hasExtent, hink]
      exact decide_eq_false hnot
    refine ⟨?_, ?_, fun img => s.paintCommit_of_not_pos img hextent⟩
    · rw [attribute?_strokeWidth hink he, if_neg hnot]
    · rw [strokeWidth_of_mem_commitElements hink he, if_neg hnot]

/-- **A stroke of no width is drawn as wide as one**, on both vector surfaces, and not at all on
    pixels. -/
theorem stroke_width_missing :
    let cs : List (Command Float) :=
      [.path (.moveTo 0 0), .path (.lineTo 4 0), .lineWidth 0, .commit .stroke]
    (∀ kind ∈ [VectorKind.path, .primitive],
      (draw kind none cs).map (fun e => (e.attribute? "stroke", e.strokeWidth)) =
        [(some "#000000", "1")]) ∧
    ∀ (s : Surface Float) (img : Image), s.draw img cs = .ok img := by
  intro cs
  refine ⟨by decide +kernel, fun s img => ?_⟩
  have hnone : (Pen.initial.commits cs).filter Commit.hasExtent = [] := by decide +kernel
  rw [s.draw_eq_filter, hnone]
  rfl

end Svg

end QrRender
