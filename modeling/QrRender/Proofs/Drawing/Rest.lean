import QrRender.Proofs.Drawing.Pen
import QrRender.Raster.Surface
import QrRender.Svg.Drawing

/-!
# Surfaces at rest

The two vector surfaces and the pixel surface hold different things between two commits: data of a
path, primitives and whether there is anything else, sub-paths and a current point. Each of them
follows the pen all the same:

* `pathMachine_follows`, `primitiveMachine_follows`, `pixelMachine_follows`: after any commands the
  state of the surface is what the pen says, and a commit, whatever comes of it, leaves the state
  in which the surface started, but for the paint and what has been drawn;
* `Svg.draw_eq`: so a vector drawing is the elements of its commits one after the other;
* `Svg.counts_eq`: how many elements there are after each command is the size of the drawing so far;
* **`surfaces_reset_on_commit`**: on all three surfaces a commit is drawn from its own stretch of
  commands, the paint in effect before it and what has been drawn, and from nothing else.
-/

namespace QrRender

namespace Svg

open Instruction

variable {α : Type} [Add α] [Sub α] [Div α] [NatCast α] [LT α] [DecidableLT α]
  [LE α] [DecidableLE α] [Numeric α]

omit [Div α] [NatCast α] [LT α] [DecidableLT α] [LE α] [DecidableLE α] [Numeric α] in
theorem ofSteps_snoc (steps : List (PathStep α)) (s : PathStep α) :
    ofSteps (steps ++ [s]) = ofSteps steps ++ ofStep s := by
  simp only [ofSteps, List.flatMap_append, List.flatMap_singleton]

/-! ## 1. Paths -/

/-- The surface of paths. -/
def pathMachine (gradient : Option String) : Machine Id α (PathDrawing α) (Array Element) where
  rest paint elements := { PathDrawing.start with paint := paint, elements := elements }
  step := PathDrawing.step gradient
  drawn := PathDrawing.elements

/-- What the pen says of a surface of paths. -/
def pathState (p : Pen α) (elements : Array Element) : PathDrawing α :=
  ⟨ofSteps p.steps, p.paint, p.style, elements⟩

/-- The elements of a commit on a surface of paths. -/
def pathElements (gradient : Option String) (k : Commit α) : List Element :=
  if (ofSteps k.steps).isEmpty || k.paint.isInvisible then []
  else [pathElement (ofSteps k.steps) (inkAttributes gradient k.ink k.paint k.style)]

theorem pathMachine_follows (gradient : Option String) :
    (pathMachine (α := α) gradient).Follows pathState
      fun elements k => pure (elements ++ (pathElements gradient k).toArray) where
  rest _ _ := rfl
  drawn _ _ := rfl
  note p o c hc := by
    cases c with
    | path s =>
      show PathDrawing.mk (ofSteps p.steps ++ ofStep s) p.paint p.style o =
        pathState (p.step (.path s)) o
      rw [← ofSteps_snoc]
      rfl
    | commit ink => cases hc
    | _ => rfl
  commit _ _ _ := rfl

/-! ## 2. Primitives -/

/-- The primitive of a step that is one. -/
def Primitive.ofStep? : PathStep α → Option (Primitive α)
  | .rect x y w h => some (.rect x y w h)
  | .circle cx cy r => some (.circle cx cy r)
  | _ => none

/-- A step that is part of a free-form outline. -/
def isFreeForm : PathStep α → Bool
  | .moveTo _ _ => true
  | .lineTo _ _ => true
  | .quadTo _ _ _ _ => true
  | .close => true
  | _ => false

/-- The surface of primitives. -/
def primitiveMachine (gradient : Option String) :
    Machine Id α (PrimitiveDrawing α) (Array Element) where
  rest paint elements := { PrimitiveDrawing.start with paint := paint, elements := elements }
  step := PrimitiveDrawing.step gradient
  drawn := PrimitiveDrawing.elements

/-- What the pen says of a surface of primitives. -/
def primitiveState (p : Pen α) (elements : Array Element) : PrimitiveDrawing α :=
  ⟨p.steps.filterMap Primitive.ofStep?, ofSteps p.steps, p.steps.any isFreeForm, p.paint, p.style,
    elements⟩

/-- The elements of a commit on a surface of primitives. -/
def primitiveElements (gradient : Option String) (k : Commit α) : List Element :=
  let attributes := inkAttributes gradient k.ink k.paint k.style
  if (ofSteps k.steps).isEmpty || k.paint.isInvisible then []
  else if (primitiveState ⟨k.steps, k.style, k.paint⟩ #[]).isNative then
    (k.steps.filterMap Primitive.ofStep?).map (Primitive.element attributes)
  else [pathElement (ofSteps k.steps) attributes]

omit [Div α] [Numeric α] in
/-- A step is noted as a primitive, as free form, or not at all. -/
theorem primitiveState_addStep (p : Pen α) (elements : Array Element) (s : PathStep α) :
    (primitiveState p elements).addStep s = primitiveState (p.step (.path s)) elements := by
  have hstate : primitiveState (p.step (.path s)) elements =
      ⟨p.steps.filterMap Primitive.ofStep? ++ (Primitive.ofStep? s).toList,
        ofSteps p.steps ++ ofStep s, p.steps.any isFreeForm || isFreeForm s, p.paint, p.style,
        elements⟩ := by
    rw [← ofSteps_snoc]
    cases h : Primitive.ofStep? s with
    | none => simp [primitiveState, Pen.step, h]
    | some q => simp [primitiveState, Pen.step, h]
  rw [hstate]
  cases s <;>
    simp [primitiveState, PrimitiveDrawing.addStep, Primitive.ofStep?, isFreeForm, ofStep]

theorem primitiveMachine_follows (gradient : Option String) :
    (primitiveMachine (α := α) gradient).Follows primitiveState
      fun elements k => pure (elements ++ (primitiveElements gradient k).toArray) where
  rest _ _ := rfl
  drawn _ _ := rfl
  note p o c hc := by
    cases c with
    | path s => exact primitiveState_addStep p o s
    | commit ink => cases hc
    | _ => rfl
  commit _ _ _ := rfl

/-! ## 3. Whole vector drawings -/

theorem draw_path_eq_machine (gradient : Option String) (cs : List (Command α)) :
    draw .path gradient cs =
      ((pathMachine gradient).draw (.solid Rgba.black) #[] cs).run.toList :=
  congrArg (fun d : PathDrawing α => d.elements.toList)
    ((pathMachine gradient).run_eq_foldl PathDrawing.start cs).symm

theorem draw_primitive_eq_machine (gradient : Option String) (cs : List (Command α)) :
    draw .primitive gradient cs =
      ((primitiveMachine gradient).draw (.solid Rgba.black) #[] cs).run.toList :=
  congrArg (fun d : PrimitiveDrawing α => d.elements.toList)
    ((primitiveMachine gradient).run_eq_foldl PrimitiveDrawing.start cs).symm

/-- A drawing in paths has the elements of its commits. -/
theorem draw_path_eq (gradient : Option String) (cs : List (Command α)) :
    draw .path gradient cs = (Pen.initial.commits cs).flatMap (pathElements gradient) := by
  rw [draw_path_eq_machine, (pathMachine_follows gradient).draw_append]
  simp [Pen.initial]

/-- A drawing in primitives has the elements of its commits. -/
theorem draw_primitive_eq (gradient : Option String) (cs : List (Command α)) :
    draw .primitive gradient cs =
      (Pen.initial.commits cs).flatMap (primitiveElements gradient) := by
  rw [draw_primitive_eq_machine, (primitiveMachine_follows gradient).draw_append]
  simp [Pen.initial]

/-- The elements of a commit on a vector surface. -/
def commitElements (kind : VectorKind) (gradient : Option String) : Commit α → List Element :=
  match kind with
  | .path => pathElements gradient
  | .primitive => primitiveElements gradient

/-- A vector drawing has the elements of its commits. -/
theorem draw_eq (kind : VectorKind) (gradient : Option String) (cs : List (Command α)) :
    draw kind gradient cs = (Pen.initial.commits cs).flatMap (commitElements kind gradient) := by
  cases kind with
  | path => exact draw_path_eq gradient cs
  | primitive => exact draw_primitive_eq gradient cs

omit [Add α] [Sub α] [Div α] [NatCast α] [LT α] [DecidableLT α] [LE α] [DecidableLE α]
  [Numeric α] in
/-- The states of a drawing are the states after its first commands. -/
theorem states_eq {σ : Type} (step : σ → Command α → σ) (d : σ) (cs : List (Command α)) :
    states step d cs =
      (List.range cs.length).map fun i => (cs.take (i + 1)).foldl step d := by
  induction cs generalizing d with
  | nil => rfl
  | cons c cs ih =>
    rw [states, List.length_cons, List.range_succ_eq_map, List.map_cons, List.map_map, ih]
    rfl

/-- After each command there are as many elements as the drawing so far has. -/
theorem counts_eq (kind : VectorKind) (gradient : Option String) (cs : List (Command α)) :
    counts kind gradient cs =
      (List.range cs.length).map fun i => (draw kind gradient (cs.take (i + 1))).length := by
  cases kind with
  | path =>
    rw [counts, states_eq, List.map_map]
    rfl
  | primitive =>
    rw [counts, states_eq, List.map_map]
    rfl

end Svg

/-! ## 4. Pixels -/

variable {α : Type} [Add α] [Sub α] [Mul α] [Div α] [NatCast α] [LT α] [DecidableLT α]
  [LE α] [DecidableLE α] [Numeric α]

/-- The surface of pixels. -/
def pixelMachine (s : Surface α) : Machine (Except Fault) α (PixelDrawing α) Image where
  rest paint img := { PixelDrawing.start img with paint := paint }
  step := PixelDrawing.step s
  drawn := PixelDrawing.image

/-- What the pen says of a surface of pixels. -/
def pixelState (p : Pen α) (img : Image) : PixelDrawing α :=
  ⟨img, p.steps.foldl Tracing.step Tracing.start, p.paint, p.style⟩

/-- A commit drawn onto an image. -/
def Surface.paintCommit (s : Surface α) (img : Image) (k : Commit α) : Except Fault Image :=
  match s.coverage? k.ink k.style (SubPath.ofSteps k.steps) with
  | some coverage => s.paint img k.paint coverage
  | none => pure img

theorem pixelMachine_follows (s : Surface α) :
    (pixelMachine s).Follows pixelState s.paintCommit where
  rest _ _ := rfl
  drawn _ _ := rfl
  note p o c hc := by
    cases c with
    | path step =>
      show Except.ok (PixelDrawing.mk o ((p.steps.foldl Tracing.step Tracing.start).step step)
        p.paint p.style) = Except.ok (pixelState (p.step (.path step)) o)
      rw [pixelState, Pen.step, List.foldl_append]
      rfl
    | commit ink => cases hc
    | _ => rfl
  commit p o ink := by
    show PixelDrawing.commit s (pixelState p o) ink = _
    simp only [PixelDrawing.commit, pixelState, Surface.paintCommit, Pen.commit, SubPath.ofSteps]
    cases s.coverage? ink p.style (p.steps.foldl Tracing.step Tracing.start).subPaths with
    | none => rfl
    | some coverage => exact (map_eq_pure_bind _ _).symm

/-- A drawing on an image paints its commits one after the other. -/
theorem Surface.draw_eq (s : Surface α) (img : Image) (cs : List (Command α)) :
    s.draw img cs = (Pen.initial.commits cs).foldlM s.paintCommit img :=
  (pixelMachine_follows s).draw_eq (.solid Rgba.black) img cs

/-! ## 5. Reset on commit -/

/-- **Reset on commit, on all three surfaces.** Each drawing is that of its machine from opaque
    black; each machine resets on commit; and the elements of a vector surface do not depend on
    those before them. -/
theorem surfaces_reset_on_commit (gradient : Option String) (s : Surface α) :
    ((∀ cs, Svg.draw .path gradient cs =
        ((Svg.pathMachine (α := α) gradient).draw (.solid Rgba.black) #[] cs).run.toList) ∧
      (Svg.pathMachine (α := α) gradient).ResetsOnCommit ∧
      (Svg.pathMachine (α := α) gradient).AppendsOnly) ∧
    ((∀ cs, Svg.draw .primitive gradient cs =
        ((Svg.primitiveMachine (α := α) gradient).draw (.solid Rgba.black) #[] cs).run.toList) ∧
      (Svg.primitiveMachine (α := α) gradient).ResetsOnCommit ∧
      (Svg.primitiveMachine (α := α) gradient).AppendsOnly) ∧
    (∀ img cs, s.draw img cs = (pixelMachine s).draw (.solid Rgba.black) img cs) ∧
      (pixelMachine s).ResetsOnCommit := by
  have hpath := Svg.pathMachine_follows (α := α) gradient
  have hprimitive := Svg.primitiveMachine_follows (α := α) gradient
  exact ⟨⟨Svg.draw_path_eq_machine gradient, hpath.resets, hpath.appendsOnly⟩,
    ⟨Svg.draw_primitive_eq_machine gradient, hprimitive.resets, hprimitive.appendsOnly⟩,
    fun _ _ => rfl, (pixelMachine_follows s).resets⟩

end QrRender
