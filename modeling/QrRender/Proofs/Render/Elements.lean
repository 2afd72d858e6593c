import QrRender.Proofs.Numeric.Exact
import QrRender.Proofs.Render.Total
import QrRender.Proofs.Shape.Alone

/-!
# Elements, call by call

A render is drawn on one surface from its first call to its last. With a built-in shape each call
draws alone, so that the surface makes of it what a fresh one would, and it makes one element of
each call that is seen.

* `RenderStats.length_calls`: the statistics count the calls;
* `Svg.getLast?_counts`: the last count of a drawing is the number of its elements;
* `Renderer.draw_commands`: the elements of a run of calls are those of each call on its own;
* `ShapeCall.length_draw`: a call makes one element, or none if its paint is invisible;
* **`Renderer.elements_of_calls`**: the group of a whole render, and how many elements it has.
-/

namespace QrRender

/-! ## 1. Counts -/

/-- Every call is for a module drawn whole or for a sub-cell. -/
theorem RenderStats.length_calls (outcomes : List Outcome) :
    (outcomes.flatMap Outcome.calls).length =
      (outcomes.foldl record zero).modules + (outcomes.foldl record zero).subCells := by
  rw [foldl_record]
  simp only [zero, Nat.zero_add]
  induction outcomes with
  | nil => rfl
  | cons outcome outcomes ih =>
    rw [List.flatMap_cons, List.length_append, ih, List.countP_cons, List.flatMap_cons,
      List.length_append]
    cases outcome <;> simp [Outcome.calls, Outcome.isWhole, Outcome.subCells] <;> omega

/-- Where each entry makes one element or none, those that make none are missing. -/
theorem length_flatMap_add_countP {β γ : Type} {p : β → Bool} {f : β → List γ} {xs : List β}
    (h : ∀ x ∈ xs, (f x).length = if p x then 0 else 1) :
    (xs.flatMap f).length + xs.countP p = xs.length := by
  induction xs with
  | nil => rfl
  | cons x xs ih =>
    have hx := h x List.mem_cons_self
    have hxs := ih fun y hy => h y (List.mem_cons_of_mem x hy)
    rw [List.flatMap_cons, List.length_append, List.countP_cons, List.length_cons, hx]
    split <;> omega

namespace Svg

variable {α : Type} [Add α] [Sub α] [Div α] [NatCast α] [LT α] [DecidableLT α]
  [LE α] [DecidableLE α] [Numeric α]

/-- After the last command there are all elements. -/
theorem getLast?_counts (kind : VectorKind) (gradient : Option String) (cs : List (Command α)) :
    (counts kind gradient cs).getLast?.getD 0 = (draw kind gradient cs).length := by
  rw [counts_eq]
  cases cs with
  | nil => cases kind <;> rfl
  | cons c cs =>
    rw [List.length_cons, List.range_succ, List.map_append, List.map_singleton,
      List.getLast?_concat]
    exact congrArg (fun ds => (draw kind gradient ds).length) (List.take_length (l := c :: cs))

end Svg

/-! ## 2. Calls on their own -/

section Calls

variable {α : Type} [Add α] [Sub α] [Mul α] [Div α] [NatCast α] [LT α] [DecidableLT α]
  [LE α] [DecidableLE α] [Numeric α] {shape : Shape α}

/-- One element for each call, or none if it is not seen. -/
theorem ShapeCall.length_draw (h : shape.isBuiltIn = true) (kind : VectorKind)
    (gradient : Option String) (call : ShapeCall) :
    (Svg.draw kind gradient (call.commands shape)).length =
      if call.paint.isInvisible then 0 else 1 := by
  obtain ⟨k, hk⟩ := (drawsAlone h call).exists_isOnly
  obtain ⟨s, hs, hne⟩ := (drawsAlone h call).outlines
  have hcommits : Pen.initial.commits (call.commands shape) = [k] := hk.commits _
  have hsingle := isSingle_of_mem h call
  rw [hcommits, List.forall_mem_singleton] at hsingle
  rw [Svg.draw_eq, hcommits, List.flatMap_singleton,
    Svg.length_commitElements kind gradient hsingle (hk.mem_steps hs) hne, hk.paint]

/-- The elements of a run of calls are those of each call on a fresh surface. -/
theorem Renderer.draw_commands (h : shape.isBuiltIn = true) (kind : VectorKind)
    (gradient : Option String) (calls : List ShapeCall) :
    Svg.draw kind gradient (calls.flatMap (ShapeCall.commands shape)) =
      calls.flatMap fun call => Svg.draw kind gradient (call.commands shape) := by
  simp only [Svg.draw_eq]
  rw [← List.flatMap_assoc]
  exact congrArg _ (Pen.commits_flatMap (fun call _ => ShapeCall.drawsAlone h call) _)

end Calls

/-! ## 3. Whole renders -/

namespace Renderer

variable {α : Type} [Add α] [Sub α] [Mul α] [Div α] [NatCast α] [LT α] [DecidableLT α]
  [LE α] [DecidableLE α] [Numeric α]

/-- **Built-in shapes draw alone, and one element for each call.** Whatever the cell, their
    commands have a step of a path, set the paint of the cell and commit once, at the end. In a
    render with built options and such a shape, for any grid, the group on either vector surface has
    the elements that each call would have on a fresh surface, in the order of the calls. A call
    has one element, unless its paint is a clear colour, and with those that have none the
    elements are as many as the statistics say. -/
theorem elements_of_calls {shape : Shape α} (hshape : shape.isBuiltIn = true) :
    (∀ c, DrawsAlone c.paint (shape.draw c) ∧ DrawsAlone c.paint (shape.drawFinder c)) ∧
    ∀ (files : String → Except String Picture) (b : Builder α) (o : Options α),
      b.build files = .ok o → o.shape = shape → ∀ g : Grid,
      ∃ r calls cs stats, ofOptions o g = .ok r ∧ r.calls = .ok calls ∧ r.commands = .ok cs ∧
        r.stats = .ok stats ∧ ∀ kind gradient,
          Svg.group (Svg.draw kind gradient cs) = Svg.group
            (calls.flatMap fun call => Svg.draw kind gradient (call.commands shape)) ∧
          (∀ call ∈ calls, (Svg.draw kind gradient (call.commands shape)).length =
            if call.paint.isInvisible then 0 else 1) ∧
          (Svg.counts kind gradient cs).getLast?.getD 0 =
            (Svg.group (Svg.draw kind gradient cs)).children.length ∧
          (Svg.group (Svg.draw kind gradient cs)).children.length +
            calls.countP (·.paint.isInvisible) = stats.modules + stats.subCells := by
  refine ⟨Shape.drawsAlone hshape, fun files b o h hset g => ?_⟩
  subst hset
  obtain ⟨r, hr, rfl, rfl, hsound⟩ := ofOptions_sound (Builder.build_sound h) g
  obtain ⟨zone, occupancy, -, -, houtcomes⟩ := outcomes_eq hsound
  have hcalls := calls_eq_of_outcomes houtcomes
  have hcommands : r.commands = .ok (_ : List (Command α)) := congrArg (Functor.map _) hcalls
  refine ⟨r, _, _, _, hr, hcalls, hcommands, stats_eq_of_outcomes houtcomes,
    fun kind gradient => ?_⟩
  have hdraw := draw_commands hshape kind gradient
    ((r.grid.cells.map (r.outcomeOf zone occupancy)).flatMap Outcome.calls)
  refine ⟨congrArg Svg.group hdraw, fun call _ => ShapeCall.length_draw hshape kind gradient call,
    Svg.getLast?_counts kind gradient _, ?_⟩
  rw [← RenderStats.length_calls, hdraw]
  exact length_flatMap_add_countP fun call _ => ShapeCall.length_draw hshape kind gradient call

/-- An assembly of assemblies, whose finder modules are clear. -/
def clearFinders (shape : Shape ℚ) : Builder ℚ :=
  Builder.ofSettings [.blockWidth 3, .border [0], .shape shape, .finderColor ⟨0, 0, 0, 0⟩]

/-- Of three modules, one of them a clear finder, two are seen on either surface. -/
theorem elements_of_calls_nested :
    let shape : Shape ℚ :=
      .assembled (.assembled (.ring (1 / 2)) .square) (.assembled .dashed .liquid)
    let g := Grid.ofFn 3 1 fun x _ => ⟨true, if x = 0 then .finder else .data⟩
    shape.isBuiltIn = true ∧ ∃ o, (clearFinders shape).build (fun _ => .error "missing") = .ok o ∧
      o.shape = shape ∧ ∃ r cs, ofOptions o g = .ok r ∧ r.commands = .ok cs ∧
        ∀ kind gradient, (Svg.draw kind gradient cs).length = 2 := by
  intro shape g
  have hshape : shape.isBuiltIn = true := rfl
  obtain ⟨o, ho⟩ : ∃ o, (clearFinders shape).build (fun _ => .error "missing") = .ok o := ⟨_, rfl⟩
  have hset : o.shape = shape := by
    obtain rfl := Except.ok.inj ho
    rfl
  obtain ⟨r, calls, cs, stats, hr, hcalls, hcs, hstats, hcount⟩ :=
    (elements_of_calls hshape).2 _ _ o ho hset g
  refine ⟨hshape, o, ho, hset, r, cs, hr, hcs, fun kind gradient => ?_⟩
  obtain ⟨-, -, -, htotal⟩ := hcount kind gradient
  obtain rfl := Except.ok.inj ho
  obtain rfl := Except.ok.inj hr
  obtain rfl := Except.ok.inj hcalls
  obtain rfl := Except.ok.inj hstats
  exact Nat.add_right_cancel (m := 1) htotal

end Renderer

end QrRender
