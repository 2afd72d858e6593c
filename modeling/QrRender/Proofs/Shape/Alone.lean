import QrRender.Proofs.Drawing.Primitive
import QrRender.Renderer

/-!
# Shapes that draw alone

Shapes draw one after the other on one surface, and each finds on it the paint of the one before,
and whatever path and style that one may have left. A drawing that sets its own paint and ends with
its only commit takes nothing from the one before and leaves nothing to the next but the paint, so
that a run of such drawings has the commits of each, one after the other.

All built-in shapes draw in this way, however deep their assemblies are nested, and so that each of
the two vector surfaces makes one element of their commit.

* `Shape.isBuiltIn`, `Shape.drawing_of_isBuiltIn`: what holds of the five simple drawings holds of
  all built-in shapes;
* `DrawsAlone`: what it is for a list of commands to draw one thing on its own;
* `Commit.IsOnly`, `DrawsAlone.exists_isOnly`: its one commit, whatever the paint before;
* `Pen.commits_flatMap`: the commits of a run of such drawings;
* **`Shape.drawsAlone`**: the drawings of built-in shapes;
* `Svg.length_commitElements`, `Shape.isSingle_of_mem`: the elements of their commits;
* `ShapeCall.drawsAlone`, `ShapeCall.isSingle_of_mem`: the same for the calls of a render.
-/

namespace QrRender

/-! ## 1. Built-in shapes -/

namespace Shape

variable {α : Type}

/-- The shape is built from the shapes that there are, without a custom one. -/
def isBuiltIn : Shape α → Bool
  | .assembled finder block => finder.isBuiltIn && block.isBuiltIn
  | .custom _ => false
  | _ => true

variable [Add α] [Sub α] [Mul α] [Div α] [NatCast α] [LT α] [DecidableLT α]

/-- What holds of the five simple drawings holds of every built-in shape, for finder modules and
    for the others. -/
theorem drawing_of_isBuiltIn {P : Cell α → List (Command α) → Prop}
    (square : ∀ c, P c (drawSquare c)) (circle : ∀ c, P c (drawCircle c))
    (liquid : ∀ c, P c (drawLiquid c)) (ring : ∀ hole c, P c (drawRing hole c))
    (dashed : ∀ c, P c (drawDashed c)) {s : Shape α} (h : s.isBuiltIn = true) (c : Cell α) :
    P c (s.draw c) ∧ P c (s.drawFinder c) := by
  induction s with
  | square => exact ⟨square c, square c⟩
  | circle => exact ⟨circle c, circle c⟩
  | liquid => exact ⟨liquid c, liquid c⟩
  | ring hole => exact ⟨ring hole c, ring hole c⟩
  | dashed => exact ⟨dashed c, dashed c⟩
  | assembled finder block ihfinder ihblock =>
    obtain ⟨hfinder, hblock⟩ := Bool.and_eq_true_iff.mp h
    exact ⟨(ihblock hblock).1, (ihfinder hfinder).2⟩
  | custom shape => cases h

end Shape

/-! ## 2. Drawings on their own -/

/-- The commands draw one thing on their own in a given paint: there is a step of a path, the paint
    is set after any other, and the commands commit once, at their end. -/
structure DrawsAlone {α : Type} (paint : Paint) (cs : List (Command α)) : Prop where
  outlines : ∃ s, .path s ∈ cs ∧ s ≠ .newSubPath
  commits : ∃ body ink, cs = body ++ [.commit ink] ∧ (∀ c ∈ body, c.isCommit = false) ∧
    .paint paint ∈ body ∧ ∀ before, Command.lastPaint before body = paint

namespace DrawsAlone

variable {α : Type}

theorem lastPaint_append_paint (before paint : Paint) (cs : List (Command α)) :
    Command.lastPaint before (cs ++ [.paint paint]) = paint := by
  simp [Command.lastPaint, Command.paint?]

/-- Commands that end by setting the paint and committing, and do not commit before. -/
theorem of_append (pre : List (Command α)) (hpending : ∀ c ∈ pre, c.isCommit = false)
    {s : PathStep α} (hs : .path s ∈ pre) (hstep : s ≠ .newSubPath) (paint : Paint) (ink : Ink) :
    DrawsAlone paint (pre ++ [.paint paint, .commit ink]) where
  outlines := ⟨s, List.mem_append_left _ hs, hstep⟩
  commits := by
    refine ⟨pre ++ [.paint paint], ink, by simp, fun c hc => ?_, by simp,
      fun before => lastPaint_append_paint before paint pre⟩
    rcases List.mem_append.mp hc with hc | hc
    · exact hpending c hc
    · rw [List.mem_singleton.mp hc]
      rfl

end DrawsAlone

section Commits

variable {α : Type} [NatCast α] [LT α] [DecidableLT α] [LE α] [DecidableLE α]
  {paint : Paint} {cs : List (Command α)}

/-- The only commit of a drawing on its own, whatever the paint before: in the paint of the drawing,
    with all its steps. -/
structure Commit.IsOnly (k : Commit α) (paint : Paint) (cs : List (Command α)) : Prop where
  commits : ∀ before, (Pen.resting before).commits cs = [k]
  paint : k.paint = paint
  steps : k.steps = cs.filterMap Command.step?
  ink : cs.getLast? = some (.commit k.ink)

theorem Commit.IsOnly.mem_steps {k : Commit α} (h : k.IsOnly paint cs) {s : PathStep α}
    (hs : .path s ∈ cs) : s ∈ k.steps := by
  rw [h.steps]
  exact List.mem_filterMap.mpr ⟨Command.path s, hs, rfl⟩

namespace DrawsAlone

/-- The drawing has one commit. -/
theorem exists_isOnly (h : DrawsAlone paint cs) : ∃ k : Commit α, k.IsOnly paint cs := by
  obtain ⟨body, ink, rfl, hpending, -, hpaint⟩ := h.commits
  refine ⟨(Pen.initial.after body).commit ink, fun before => ?_, ?_, ?_, ?_⟩
  · have hafter : (Pen.resting before).after body = (Pen.initial.after body : Pen α) := by
      have hresting : (Pen.resting before : Pen α) = { Pen.initial with paint := before } := rfl
      rw [hresting, Pen.after_withPaint, hpaint, ← hpaint (Pen.initial : Pen α).paint,
        ← Pen.paint_after]
    rw [Pen.commits_append, Pen.commits_eq_nil hpending, hafter]
    rfl
  · exact (Pen.paint_after _ body).trans (hpaint _)
  · rw [List.filterMap_append, Pen.commit, Pen.steps_after hpending]
    exact (List.append_nil _).symm
  · exact List.getLast?_concat

/-- After it nothing is left but its paint. -/
theorem after_resting (h : DrawsAlone paint cs) (before : Paint) :
    (Pen.resting before).after cs = (Pen.resting paint : Pen α) := by
  obtain ⟨body, ink, rfl, -, -, hpaint⟩ := h.commits
  rw [Pen.after_commit]
  exact congrArg Pen.resting (hpaint before)

/-- What is drawn does not depend on the paint before. -/
theorem commits_resting (h : DrawsAlone paint cs) (before : Paint) :
    (Pen.resting before).commits cs = (Pen.initial.commits cs : List (Commit α)) := by
  obtain ⟨k, hk⟩ := h.exists_isOnly
  exact (hk.commits before).trans (hk.commits _).symm

end DrawsAlone

end Commits

/-- **A run of drawings on their own** has the commits of each, one after the other. -/
theorem Pen.commits_flatMap {α β : Type} [NatCast α] [LT α] [DecidableLT α] [LE α] [DecidableLE α]
    {xs : List β} {f : β → List (Command α)} {paint : β → Paint}
    (h : ∀ x ∈ xs, DrawsAlone (paint x) (f x)) (before : Paint) :
    (resting before).commits (xs.flatMap f) = xs.flatMap fun x => initial.commits (f x) := by
  induction xs generalizing before with
  | nil => rfl
  | cons x xs ih =>
    have hx := h x List.mem_cons_self
    rw [List.flatMap_cons, List.flatMap_cons, commits_append, hx.commits_resting,
      hx.after_resting, ih fun y hy => h y (List.mem_cons_of_mem x hy)]

/-! ## 3. The drawings of built-in shapes -/

namespace Shape

variable {α : Type} [Add α] [Sub α] [Mul α] [Div α] [NatCast α] [LT α] [DecidableLT α]

omit [Add α] [Sub α] [Mul α] [Div α] in
theorem isCommit_of_mem_corner {radius cx cy x y : α} :
    ∀ d ∈ corner radius cx cy x y, d.isCommit = false := by
  intro d hd
  unfold corner at hd
  split at hd
  · rw [List.mem_singleton.mp hd]
    rfl
  · cases hd

omit [Mul α] in
/-- The outline of a liquid block, before its paint and its commit. -/
theorem exists_drawLiquid (c : Cell α) :
    ∃ outline : List (Command α), drawLiquid c = outline ++ [.paint c.paint, .commit .fill] ∧
      (∀ d ∈ outline, d.isCommit = false) ∧ .path .close ∈ outline := by
  refine ⟨_, (List.append_assoc _ [Command.path .close] _).symm, ?_,
    List.mem_append_right _ List.mem_cons_self⟩
  have hpath : ∀ s : PathStep α, (Command.path s).isCommit = false := fun _ => rfl
  simp only [List.forall_mem_append, List.forall_mem_cons, List.not_mem_nil, false_implies,
    implies_true, hpath, and_true, true_and]
  exact ⟨⟨⟨isCommit_of_mem_corner, isCommit_of_mem_corner⟩, isCommit_of_mem_corner⟩,
    isCommit_of_mem_corner⟩

/-- Built-in shapes draw each cell on its own, in the paint of the cell. -/
theorem drawsAlone {s : Shape α} (h : s.isBuiltIn = true) (c : Cell α) :
    DrawsAlone c.paint (s.draw c) ∧ DrawsAlone c.paint (s.drawFinder c) := by
  refine drawing_of_isBuiltIn (P := fun c cs => DrawsAlone c.paint cs)
    (fun c => ?_) (fun c => ?_) (fun c => ?_) (fun hole c => ?_) (fun c => ?_) h c
  · refine .of_append [_] ?_ List.mem_cons_self ?_ c.paint .fill
    · simp [Command.isCommit]
    · nofun
  · refine .of_append [_] ?_ List.mem_cons_self ?_ c.paint .fill
    · simp [Command.isCommit]
    · nofun
  · obtain ⟨outline, hdraw, hpending, hclose⟩ := exists_drawLiquid c
    rw [hdraw]
    exact .of_append outline hpending hclose nofun c.paint .fill
  · refine .of_append [_, _, _, _] ?_ (List.mem_cons_of_mem _ List.mem_cons_self) ?_ c.paint .fill
    · simp [Command.isCommit]
    · nofun
  · refine .of_append [_, _, _, _, _, _, _, .path .close] ?_ (s := .close) (by simp) ?_
      c.paint .stroke
    · simp [Command.isCommit]
    · nofun

end Shape

/-! ## 4. One element for each drawing -/

namespace Svg

open Instruction

variable {α : Type}

/-- The commit is drawn as one path, or as one primitive. -/
def IsSingle (k : Commit α) : Prop :=
  NeedsPath k ∨ (k.steps.filterMap Primitive.ofStep?).length = 1

/-- Only the end of a sub-path has no data. -/
theorem ofSteps_ne_nil [Add α] [Sub α] {steps : List (PathStep α)} {s : PathStep α}
    (hs : s ∈ steps) (hne : s ≠ .newSubPath) : ofSteps steps ≠ [] := by
  intro hnil
  have hdata := List.flatMap_eq_nil_iff.mp hnil s hs
  cases s with
  | newSubPath => exact hne rfl
  | _ => cases hdata

variable [Add α] [Sub α] [Div α] [NatCast α] [LT α] [DecidableLT α] [Numeric α]

/-- A single commit makes one element on both surfaces, unless it is invisible. -/
theorem length_commitElements (kind : VectorKind) (gradient : Option String) {k : Commit α}
    (hsingle : IsSingle k) {s : PathStep α} (hs : s ∈ k.steps) (hne : s ≠ .newSubPath) :
    (commitElements kind gradient k).length = if k.paint.isInvisible then 0 else 1 := by
  have hdata : (ofSteps k.steps).isEmpty = false :=
    List.isEmpty_eq_false_iff.mpr (ofSteps_ne_nil hs hne)
  cases hinvisible : k.paint.isInvisible with
  | true => cases kind <;> simp [commitElements, pathElements, primitiveElements, hinvisible]
  | false =>
    cases kind with
    | path => simp [commitElements, pathElements, hinvisible, hdata]
    | primitive =>
      show (primitiveElements gradient k).length = 1
      unfold primitiveElements
      rw [hdata, hinvisible]
      rcases hsingle with hneeds | hone
      · rw [(isNative_eq_false_iff k #[]).mpr hneeds]
        rfl
      · cases (primitiveState ⟨k.steps, k.style, k.paint⟩ #[]).isNative with
        | true => exact (List.length_map _).trans hone
        | false => rfl

end Svg

namespace Shape

variable {α : Type} [Add α] [Sub α] [Mul α] [Div α] [NatCast α] [LT α] [DecidableLT α]
  [LE α] [DecidableLE α]

omit [Add α] [Sub α] [Mul α] [Div α] in
/-- A drawing that closes an outline needs a path. -/
theorem needsPath_of_close {paint : Paint} {cs : List (Command α)} (h : DrawsAlone paint cs)
    (hclose : .path .close ∈ cs) : ∀ k ∈ Pen.initial.commits cs, Svg.NeedsPath k := by
  obtain ⟨k, hk⟩ := h.exists_isOnly
  have hcommits : Pen.initial.commits cs = [k] := hk.commits _
  rw [hcommits, List.forall_mem_singleton]
  exact .inl ⟨.close, hk.mem_steps hclose, rfl⟩

/-- The commit of a built-in shape is a single one. -/
theorem isSingle_of_mem {s : Shape α} (h : s.isBuiltIn = true) (c : Cell α) :
    (∀ k ∈ Pen.initial.commits (s.draw c), Svg.IsSingle k) ∧
      ∀ k ∈ Pen.initial.commits (s.drawFinder c), Svg.IsSingle k := by
  refine drawing_of_isBuiltIn (P := fun _ cs => ∀ k ∈ Pen.initial.commits cs, Svg.IsSingle k)
    (fun c k hk => ?_) (fun c k hk => ?_) (fun c k hk => ?_) (fun hole c k hk => ?_)
    (fun c k hk => ?_) h c
  · rw [List.mem_singleton.mp hk]
    exact .inr rfl
  · rw [List.mem_singleton.mp hk]
    exact .inr rfl
  · have hclose : .path .close ∈ drawLiquid c := by
      obtain ⟨outline, hdraw, -, hclose⟩ := exists_drawLiquid c
      rw [hdraw]
      exact List.mem_append_left _ hclose
    exact .inl (needsPath_of_close (drawsAlone (s := .liquid) rfl c).1 hclose k hk)
  · rw [List.mem_singleton.mp hk]
    exact .inl (.inr (.inr (.inl rfl)))
  · have hclose : .path .close ∈ drawDashed c := by simp [drawDashed]
    exact .inl (needsPath_of_close (drawsAlone (s := .dashed) rfl c).1 hclose k hk)

end Shape

namespace ShapeCall

variable {α : Type} [Add α] [Sub α] [Mul α] [Div α] [NatCast α] [LT α] [DecidableLT α]
  [LE α] [DecidableLE α] {shape : Shape α}

omit [LE α] [DecidableLE α] in
/-- What holds of the two drawings of the cell of a call holds of the commands for the call. -/
theorem commands_of_shape {P : List (Command α) → Prop} (call : ShapeCall)
    (h : P (shape.draw call.cell) ∧ P (shape.drawFinder call.cell)) : P (call.commands shape) := by
  unfold commands
  split
  · exact h.2
  · exact h.1

omit [LE α] [DecidableLE α] in
/-- A built-in shape answers each call with a drawing on its own. -/
theorem drawsAlone (h : shape.isBuiltIn = true) (call : ShapeCall) :
    DrawsAlone call.paint (call.commands shape) :=
  commands_of_shape call (Shape.drawsAlone h call.cell)

/-- The commit by which a built-in shape answers a call is a single one. -/
theorem isSingle_of_mem (h : shape.isBuiltIn = true) (call : ShapeCall) :
    ∀ k ∈ Pen.initial.commits (call.commands shape), Svg.IsSingle k :=
  commands_of_shape (P := fun cs => ∀ k ∈ Pen.initial.commits cs, Svg.IsSingle k) call
    (Shape.isSingle_of_mem h call.cell)

end ShapeCall

end QrRender
