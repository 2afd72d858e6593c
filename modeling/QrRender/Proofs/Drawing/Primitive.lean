import QrRender.Proofs.Drawing.Rest

/-!
# Primitives in step with paths

The two vector surfaces draw the same commands in step. Whatever the commands before, a commit
makes elements on both surfaces or on neither. Where a commit needs a path, they are the same;
elsewhere the surface of primitives replaces the one path by the commit's rectangles and circles.

* `Svg.NeedsPath`: when a commit needs a path, said of its steps, style and paint;
* `Svg.primitiveElement?`: the rectangle or circle of a step, with attributes beside its geometry;
* `Svg.InStep`: what the elements of one commit on the two surfaces have to do with each other;
* **`Svg.primitive_simulates_path`**: after any commands, the next command keeps the surfaces in
  step.
-/

namespace QrRender.Svg

open Instruction

variable {α : Type}

/-! ## 1. Commits that need a path -/

/-- The commit cannot be drawn as separate rectangles and circles: it has a free-form step, at
    least two primitives that show through one another, the even-odd rule, or a dash pattern. -/
def NeedsPath (k : Commit α) : Prop :=
  (∃ s ∈ k.steps, isFreeForm s = true) ∨
    (2 ≤ (k.steps.filterMap Primitive.ofStep?).length ∧ k.paint.flat.alpha < 255) ∨
    k.style.rule = .evenOdd ∨ k.style.dash ≠ []

theorem isOpaque_iff (c : Rgba) : c.isOpaque = true ↔ ¬ c.alpha < 255 := by
  unfold Rgba.isOpaque
  rw [beq_iff_eq, UInt8.lt_iff_toNat_lt, ← UInt8.toNat_inj]
  have h := c.alpha.toNat_lt
  show c.alpha.toNat = 255 ↔ ¬ c.alpha.toNat < 255
  omega

/-- The test that the surface of primitives makes is whether the commit needs a path. -/
theorem isNative_eq_false_iff (k : Commit α) (elements : Array Element) [Add α] [Sub α] :
    (primitiveState ⟨k.steps, k.style, k.paint⟩ elements).isNative = false ↔ NeedsPath k := by
  have hrule : (k.style.rule == .nonZero) = false ↔ k.style.rule = .evenOdd := by
    cases k.style.rule <;> decide
  have hdash : k.style.dash.isEmpty = false ↔ k.style.dash ≠ [] := by
    rw [← Bool.not_eq_true, List.isEmpty_iff]
  have hcount : ∀ n : Nat, decide (n ≤ 1) = false ↔ 2 ≤ n := by
    intro n
    rw [decide_eq_false_iff_not]
    omega
  have hopaque : k.paint.flat.isOpaque = false ↔ k.paint.flat.alpha < 255 := by
    rw [← Bool.not_eq_true, isOpaque_iff, Decidable.not_not]
  unfold NeedsPath PrimitiveDrawing.isNative primitiveState
  simp only [Bool.and_eq_false_iff, Bool.not_eq_false', List.any_eq_true, Bool.or_eq_false_iff,
    hrule, hdash, hcount, hopaque, or_assoc]

/-! ## 2. Commits drawn as rectangles and circles -/

/-- The element of a rectangle or a circle among the steps: its numbers as they were given, and
    attributes beside them. -/
def primitiveElement? [Numeric α] (attributes : List (String × String)) :
    PathStep α → Option Element
  | .rect x y w h =>
    some (.leaf "rect" (("x", Numeric.text x) :: ("y", Numeric.text y) ::
      ("width", Numeric.text w) :: ("height", Numeric.text h) :: attributes))
  | .circle cx cy r =>
    some (.leaf "circle" (("cx", Numeric.text cx) :: ("cy", Numeric.text cy) ::
      ("r", Numeric.text r) :: attributes))
  | _ => none

theorem map_element_eq [Numeric α] (attributes : List (String × String))
    (steps : List (PathStep α)) :
    (steps.filterMap Primitive.ofStep?).map (Primitive.element attributes) =
      steps.filterMap (primitiveElement? attributes) := by
  rw [List.map_filterMap]
  congr 1
  funext s
  cases s <;> rfl

/-- A path without free form that has data has a primitive. -/
theorem primitives_ne_nil [Add α] [Sub α] {steps : List (PathStep α)}
    (hfree : ∀ s ∈ steps, isFreeForm s = false) (hdata : ofSteps steps ≠ []) :
    steps.filterMap Primitive.ofStep? ≠ [] := by
  intro hnone
  rw [List.filterMap_eq_nil_iff] at hnone
  apply hdata
  rw [ofSteps, List.flatMap_eq_nil_iff]
  intro s hs
  have hf := hfree s hs
  have hp := hnone s hs
  -- only the end of a sub-path is neither, and it has no data
  cases s with
  | newSubPath => rfl
  | rect => cases hp
  | circle => cases hp
  | _ => cases hf

/-! ## 3. Surfaces in step -/

variable [Add α] [Sub α] [Div α] [NatCast α] [LT α] [DecidableLT α]
  [LE α] [DecidableLE α] [Numeric α]

/-- The elements `es` of a commit on the surface of paths, and `fs` of the same commit on the
    surface of primitives. -/
structure InStep (k : Commit α) (es fs : List Element) : Prop where
  /-- One surface makes something of the commit exactly if the other does. -/
  emits : es = [] ↔ fs = []
  /-- What needs a path is drawn as one path, the same on both. -/
  path : es ≠ [] → NeedsPath k → ∃ data attributes,
    es = [.leaf "path" (("d", data) :: attributes)] ∧ fs = es
  /-- The rest is drawn as one path and as its rectangles and circles in order, all with the
      attributes of the path. -/
  native : es ≠ [] → ¬ NeedsPath k → ∃ data attributes,
    es = [.leaf "path" (("d", data) :: attributes)] ∧
      fs = k.steps.filterMap (primitiveElement? attributes)

omit [LE α] [DecidableLE α] in
/-- The elements of one commit are in step. -/
theorem elements_inStep (gradient : Option String) (k : Commit α) :
    InStep k (pathElements gradient k) (primitiveElements gradient k) := by
  unfold pathElements primitiveElements
  by_cases hempty : ((ofSteps k.steps).isEmpty || k.paint.isInvisible) = true
  · rw [if_pos hempty, if_pos hempty]
    exact ⟨Iff.rfl, fun h => absurd rfl h, fun h => absurd rfl h⟩
  rw [if_neg hempty, if_neg hempty]
  by_cases hneeds : NeedsPath k
  · have hnative := (isNative_eq_false_iff k #[]).mpr hneeds
    rw [if_neg (Bool.eq_false_iff.mp hnative)]
    exact ⟨Iff.rfl, fun _ _ => ⟨_, _, rfl, rfl⟩, fun _ h => absurd hneeds h⟩
  · have hnative : (primitiveState ⟨k.steps, k.style, k.paint⟩ #[]).isNative = true := by
      rw [← Bool.not_eq_false, isNative_eq_false_iff]
      exact hneeds
    rw [if_pos hnative]
    refine ⟨⟨fun h => absurd h (List.cons_ne_nil _ _), fun h => ?_⟩, fun _ h => absurd h hneeds,
      fun _ _ => ⟨_, _, rfl, map_element_eq _ _⟩⟩
    have hfree : ∀ s ∈ k.steps, isFreeForm s = false := fun s hs =>
      Bool.eq_false_iff.mpr fun hf => hneeds (.inl ⟨s, hs, hf⟩)
    have hdata : ofSteps k.steps ≠ [] := by
      intro hnil
      apply hempty
      rw [hnil]
      rfl
    exact absurd (List.map_eq_nil_iff.mp h) (primitives_ne_nil hfree hdata)

/-- What some commands make of a surface of paths. -/
theorem path_foldl_eq (gradient : Option String) (cs : List (Command α)) :
    ∃ elements, cs.foldl (PathDrawing.step gradient) PathDrawing.start =
      pathState (Pen.initial.after cs) elements :=
  ⟨_, ((pathMachine gradient).run_eq_foldl PathDrawing.start cs).symm.trans
    ((pathMachine_follows gradient).run_state Pen.initial #[] cs)⟩

/-- What the same commands make of a surface of primitives. -/
theorem primitive_foldl_eq (gradient : Option String) (cs : List (Command α)) :
    ∃ elements, cs.foldl (PrimitiveDrawing.step gradient) PrimitiveDrawing.start =
      primitiveState (Pen.initial.after cs) elements :=
  ⟨_, ((primitiveMachine gradient).run_eq_foldl PrimitiveDrawing.start cs).symm.trans
    ((primitiveMachine_follows gradient).run_state Pen.initial #[] cs)⟩

/-- **The surface of primitives simulates the surface of paths.** After any commands, a command
    that is no commit adds nothing on either surface, and a commit adds elements that are in
    step. -/
theorem primitive_simulates_path (gradient : Option String) (cs : List (Command α)) :
    let p := cs.foldl (PathDrawing.step gradient) PathDrawing.start
    let q := cs.foldl (PrimitiveDrawing.step gradient) PrimitiveDrawing.start
    (∀ c, c.isCommit = false →
      (p.step gradient c).elements = p.elements ∧ (q.step gradient c).elements = q.elements) ∧
    ∀ ink, ∃ es fs,
      (p.step gradient (.commit ink)).elements = p.elements ++ es.toArray ∧
      (q.step gradient (.commit ink)).elements = q.elements ++ fs.toArray ∧
      InStep ((Pen.initial.after cs).commit ink) es fs := by
  intro p q
  obtain ⟨es, hp⟩ : ∃ es, p = pathState (Pen.initial.after cs) es := path_foldl_eq gradient cs
  obtain ⟨fs, hq⟩ : ∃ fs, q = primitiveState (Pen.initial.after cs) fs :=
    primitive_foldl_eq gradient cs
  rw [hp, hq]
  refine ⟨fun c hc => ⟨?_, ?_⟩, fun ink => ⟨_, _, rfl, rfl, elements_inStep gradient _⟩⟩
  · have hnote : (pathState (Pen.initial.after cs) es).step gradient c =
        pathState ((Pen.initial.after cs).step c) es := (pathMachine_follows gradient).note _ es c hc
    rw [hnote]
    rfl
  · have hnote : (primitiveState (Pen.initial.after cs) fs).step gradient c =
        primitiveState ((Pen.initial.after cs).step c) fs :=
      (primitiveMachine_follows gradient).note _ fs c hc
    rw [hnote]
    rfl

end QrRender.Svg
