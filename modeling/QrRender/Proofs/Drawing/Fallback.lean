import Mathlib.Data.List.Forall2
import QrRender.Proofs.Drawing.Rest

/-!
# The colour to fall back on

A gradient paint carries a colour for surfaces that have no gradient. On a vector surface that has
one, two drawings which differ only in such colours should be the same. They are where the colours
have the same alphas; the red, the green and the blue are never seen. But an alpha is seen twice: it
is written as an opacity beside the gradient, and the surface of primitives makes one path of
several primitives where it is not the greatest.

* `Command.SameButFallback`: commands that differ only in colours to fall back on;
* `Pen.commits_sameButFallback`: their commits differ only in such colours;
* **`Svg.fallback_shows_alpha_only`**: drawings with the same alphas are the same on both vector
  surfaces, and with any alphas they are the same on the surface of paths but for the opacities;
* `Svg.fallback_alpha_shows`: two drawings that differ in one alpha, on both surfaces.
-/

namespace QrRender

/-! ## 1. Commands that differ in colours to fall back on -/

/-- The paints are the same but for the colours to fall back on, which are related by `R`. -/
inductive Paint.SameButFallback (R : Rgba → Rgba → Prop) : Paint → Paint → Prop where
  | solid (c : Rgba) : SameButFallback R (.solid c) (.solid c)
  | gradient {f f' : Rgba} (h : R f f') : SameButFallback R (.gradient f) (.gradient f')

/-- The commands are the same but for the colours to fall back on, which are related by `R`. -/
inductive Command.SameButFallback {α : Type} (R : Rgba → Rgba → Prop) :
    Command α → Command α → Prop where
  | paint {p p' : Paint} (h : p.SameButFallback R p') : SameButFallback R (.paint p) (.paint p')
  | other {c : Command α} (h : c.paint? = none) : SameButFallback R c c

/-- The commits are the same but for the colours to fall back on, which are related by `R`. -/
structure Commit.SameButFallback {α : Type} (R : Rgba → Rgba → Prop) (k k' : Commit α) : Prop where
  steps : k.steps = k'.steps
  style : k.style = k'.style
  ink : k.ink = k'.ink
  paint : k.paint.SameButFallback R k'.paint

/-- A paint is as visible with one colour to fall back on as with another. -/
theorem Paint.SameButFallback.isInvisible_eq {R : Rgba → Rgba → Prop} {p p' : Paint}
    (h : p.SameButFallback R p') : p.isInvisible = p'.isInvisible := by
  cases h <;> rfl

namespace Pen

variable {α : Type} [NatCast α] [LT α] [DecidableLT α] [LE α] [DecidableLE α]
  {R : Rgba → Rgba → Prop}

/-- The pens are the same but for the colours to fall back on. -/
structure SameButFallback (R : Rgba → Rgba → Prop) (p p' : Pen α) : Prop where
  steps : p.steps = p'.steps
  style : p.style = p'.style
  paint : p.paint.SameButFallback R p'.paint

omit [NatCast α] [LT α] [DecidableLT α] [LE α] [DecidableLE α] in
theorem SameButFallback.commit {p p' : Pen α} (h : p.SameButFallback R p') (ink : Ink) :
    (p.commit ink).SameButFallback R (p'.commit ink) :=
  ⟨h.steps, h.style, rfl, h.paint⟩

/-- **One command** keeps the pens the same. -/
theorem SameButFallback.step {p p' : Pen α} (h : p.SameButFallback R p') {c c' : Command α}
    (hc : c.SameButFallback R c') : (p.step c).SameButFallback R (p'.step c') := by
  cases hc with
  | paint hp => exact ⟨h.steps, h.style, hp⟩
  | other hnone =>
    obtain ⟨hsteps, hstyle, hpaint⟩ := h
    cases c with
    | path s => exact ⟨congrArg (· ++ [s]) hsteps, hstyle, hpaint⟩
    | paint q => cases hnone
    | lineWidth w => exact ⟨hsteps, congrArg (fun s => { s with lineWidth := w }) hstyle, hpaint⟩
    | dash pattern => exact ⟨hsteps, congrArg (·.withDash pattern) hstyle, hpaint⟩
    | cap cap => exact ⟨hsteps, congrArg (fun s => { s with cap := cap }) hstyle, hpaint⟩
    | fillRule rule => exact ⟨hsteps, congrArg (fun s => { s with rule := rule }) hstyle, hpaint⟩
    | commit ink => exact ⟨rfl, rfl, hpaint⟩

/-- **A list of commands** makes commits that are the same but for the colours to fall back on. -/
theorem commits_sameButFallback {p p' : Pen α} (h : p.SameButFallback R p')
    {cs cs' : List (Command α)} (hcs : List.Forall₂ (Command.SameButFallback R) cs cs') :
    List.Forall₂ (Commit.SameButFallback R) (p.commits cs) (p'.commits cs') := by
  induction hcs generalizing p p' with
  | nil => exact .nil
  | @cons c c' cs cs' hc _ ih =>
    have hnext := h.step hc
    cases hcommit : c.isCommit with
    | true =>
      obtain ⟨ink, rfl⟩ := Command.eq_commit hcommit
      cases hc
      rw [commits_cons_commit, commits_cons_commit]
      exact .cons (h.commit ink) (ih hnext)
    | false =>
      have hcommit' : c'.isCommit = false := by
        cases hc with
        | paint hp => rfl
        | other hnone => exact hcommit
      rw [commits_cons p hcommit, commits_cons p' hcommit']
      exact ih hnext

omit [LT α] [DecidableLT α] [LE α] [DecidableLE α] in
/-- At the start of a drawing there is no gradient. -/
theorem initial_sameButFallback : (initial : Pen α).SameButFallback R initial :=
  ⟨rfl, rfl, .solid Rgba.black⟩

end Pen

namespace Svg

open Instruction

/-! ## 2. Attributes -/

/-- An attribute that is no opacity. -/
def isNotOpacity (a : String × String) : Bool := a.1 != "fill-opacity" && a.1 != "stroke-opacity"

/-- The element without its opacities. -/
def Element.withoutOpacity (e : Element) : Element :=
  { e with attributes := e.attributes.filter isNotOpacity }

variable {α : Type}

section Attributes

variable [NatCast α] [Div α] [Numeric α]

/-- An opacity depends on the alpha alone. -/
theorem opacity_congr {p q : Paint} (h : p.flat.alpha = q.flat.alpha) (name : String) :
    opacity α name p = opacity α name q := by
  unfold opacity
  rw [h]

theorem filter_opacity {name : String} (hname : ∀ value, isNotOpacity (name, value) = false)
    (p : Paint) : (opacity α name p).filter isNotOpacity = [] := by
  unfold opacity
  split
  · rw [List.filter_cons_of_neg (by simp [hname])]
    rfl
  · rfl

variable [LT α] [DecidableLT α]

/-- With a gradient the attributes of an element depend on the alpha alone. -/
theorem inkAttributes_sameAlpha {p p' : Paint}
    (h : p.SameButFallback (fun f f' => f.alpha = f'.alpha) p') (id : String) (ink : Ink)
    (style : Style α) :
    inkAttributes (some id) ink p style = inkAttributes (some id) ink p' style := by
  cases h with
  | solid c => rfl
  | @gradient f f' halpha =>
    have hopacity : ∀ name, opacity α name (.gradient f) = opacity α name (.gradient f') :=
      opacity_congr (p := .gradient f) (q := .gradient f') halpha
    cases ink with
    | fill =>
      simp only [inkAttributes, fillAttributes, hopacity]
      rfl
    | stroke =>
      simp only [inkAttributes, strokeAttributes, hopacity]
      rfl

/-- With a gradient the attributes but for the opacity do not depend on the colour at all. -/
theorem filter_inkAttributes {R : Rgba → Rgba → Prop} {p p' : Paint} (h : p.SameButFallback R p')
    (id : String) (ink : Ink) (style : Style α) :
    (inkAttributes (some id) ink p style).filter isNotOpacity =
      (inkAttributes (some id) ink p' style).filter isNotOpacity := by
  cases h with
  | solid c => rfl
  | @gradient f f' hR =>
    have hfill : ∀ q, (opacity α "fill-opacity" q).filter isNotOpacity = [] :=
      filter_opacity fun _ => rfl
    have hstroke : ∀ q, (opacity α "stroke-opacity" q).filter isNotOpacity = [] :=
      filter_opacity fun _ => rfl
    cases ink with
    | fill =>
      simp only [inkAttributes, fillAttributes, List.filter_append, hfill]
      rfl
    | stroke =>
      simp only [inkAttributes, strokeAttributes, List.filter_append, hstroke]
      rfl

end Attributes

/-! ## 3. Elements -/

variable [Add α] [Sub α] [Div α] [NatCast α] [LT α] [DecidableLT α]
  [LE α] [DecidableLE α] [Numeric α]

omit [LE α] [DecidableLE α] in
/-- Commits with the same alphas have the same elements, on both surfaces. -/
theorem commitElements_sameAlpha {k k' : Commit α}
    (h : k.SameButFallback (fun f f' => f.alpha = f'.alpha) k') (kind : VectorKind) (id : String) :
    commitElements kind (some id) k = commitElements kind (some id) k' := by
  obtain ⟨steps, style, paint, ink⟩ := k
  obtain ⟨steps', style', paint', ink'⟩ := k'
  obtain ⟨rfl, rfl, rfl, hpaint⟩ := h
  have hsolid : paint.flat.isOpaque = paint'.flat.isOpaque := by
    cases hpaint with
    | solid c => rfl
    | gradient halpha => exact congrArg (· == 255) halpha
  cases kind with
  | path =>
    simp only [commitElements, pathElements, hpaint.isInvisible_eq, inkAttributes_sameAlpha hpaint]
  | primitive =>
    have hnative : (primitiveState ⟨steps, style, paint⟩ #[]).isNative =
        (primitiveState ⟨steps, style, paint'⟩ #[]).isNative := by
      unfold PrimitiveDrawing.isNative primitiveState
      rw [hsolid]
    simp only [commitElements, primitiveElements, hpaint.isInvisible_eq, hnative,
      inkAttributes_sameAlpha hpaint]

omit [LE α] [DecidableLE α] in
/-- Commits with any alphas have the same elements but for their opacities, on the surface of
    paths. -/
theorem map_withoutOpacity_pathElements {R : Rgba → Rgba → Prop} {k k' : Commit α}
    (h : k.SameButFallback R k') (id : String) :
    (pathElements (some id) k).map Element.withoutOpacity =
      (pathElements (some id) k').map Element.withoutOpacity := by
  obtain ⟨steps, style, paint, ink⟩ := k
  obtain ⟨steps', style', paint', ink'⟩ := k'
  obtain ⟨rfl, rfl, rfl, hpaint⟩ := h
  unfold pathElements
  simp only [hpaint.isInvisible_eq]
  split
  · rfl
  · have hfilter := filter_inkAttributes hpaint id ink style
    simp only [List.map_cons, List.map_nil, pathElement, Element.leaf, Element.withoutOpacity,
      List.filter_cons, hfilter]

/-! ## 4. Drawings -/

/-- Where drawings from related commands have the same size, so they have after each command. -/
theorem counts_congr {kind : VectorKind} {gradient : Option String} {R : Rgba → Rgba → Prop}
    (h : ∀ cs cs' : List (Command α), List.Forall₂ (Command.SameButFallback R) cs cs' →
      (draw kind gradient cs).length = (draw kind gradient cs').length)
    {cs cs' : List (Command α)} (hcs : List.Forall₂ (Command.SameButFallback R) cs cs') :
    counts kind gradient cs = counts kind gradient cs' := by
  rw [counts_eq, counts_eq, hcs.length_eq]
  exact List.map_congr_left fun i _ => h _ _ (List.forall₂_take (i + 1) hcs)

/-- Drawings with the same alphas are the same, on both surfaces. -/
theorem draw_sameAlpha (kind : VectorKind) (id : String) {cs cs' : List (Command α)}
    (hcs : List.Forall₂ (Command.SameButFallback fun f f' => f.alpha = f'.alpha) cs cs') :
    draw kind (some id) cs = draw kind (some id) cs' := by
  rw [draw_eq, draw_eq]
  have hcommits := Pen.commits_sameButFallback Pen.initial_sameButFallback hcs
  generalize Pen.initial.commits cs = ks, Pen.initial.commits cs' = ks' at hcommits ⊢
  induction hcommits with
  | nil => rfl
  | cons hk _ ih => rw [List.flatMap_cons, List.flatMap_cons, ih, commitElements_sameAlpha hk]

/-- Drawings with any alphas are the same but for their opacities, on the surface of paths. -/
theorem map_withoutOpacity_draw {R : Rgba → Rgba → Prop} (id : String) {cs cs' : List (Command α)}
    (hcs : List.Forall₂ (Command.SameButFallback R) cs cs') :
    (draw .path (some id) cs).map Element.withoutOpacity =
      (draw .path (some id) cs').map Element.withoutOpacity := by
  rw [draw_path_eq, draw_path_eq]
  have hcommits := Pen.commits_sameButFallback Pen.initial_sameButFallback hcs
  generalize Pen.initial.commits cs = ks, Pen.initial.commits cs' = ks' at hcommits ⊢
  induction hcommits with
  | nil => rfl
  | cons hk _ ih =>
    rw [List.flatMap_cons, List.flatMap_cons, List.map_append, List.map_append, ih,
      map_withoutOpacity_pathElements hk]

/-- **With a gradient only the alpha of a colour to fall back on is seen.** Two drawings that differ
    in such colours of the same alphas have the same groups and the same counts, on both surfaces;
    and whatever the alphas, on the surface of paths they have the same counts and, but for the
    opacities, the same elements. -/
theorem fallback_shows_alpha_only (id : String) :
    (∀ (kind : VectorKind) (cs cs' : List (Command α)),
      List.Forall₂ (Command.SameButFallback fun f f' => f.alpha = f'.alpha) cs cs' →
      group (draw kind (some id) cs) = group (draw kind (some id) cs') ∧
        counts kind (some id) cs = counts kind (some id) cs') ∧
    ∀ cs cs' : List (Command α),
      List.Forall₂ (Command.SameButFallback fun _ _ => True) cs cs' →
      (draw .path (some id) cs).map Element.withoutOpacity =
          (draw .path (some id) cs').map Element.withoutOpacity ∧
        counts .path (some id) cs = counts .path (some id) cs' := by
  constructor
  · intro kind cs cs' hcs
    refine ⟨congrArg group (draw_sameAlpha kind id hcs), counts_congr (fun ds ds' hds => ?_) hcs⟩
    exact congrArg List.length (draw_sameAlpha kind id hds)
  · intro cs cs' hcs
    refine ⟨map_withoutOpacity_draw id hcs, counts_congr (fun ds ds' hds => ?_) hcs⟩
    have hlength := congrArg List.length (map_withoutOpacity_draw id hds)
    rwa [List.length_map, List.length_map] at hlength

/-- Two overlapping rectangles filled with a gradient. -/
def gradientRects (fallback : Rgba) : List (Command Float) :=
  [.path (.rect 0 0 4 4), .path (.rect 2 2 4 4), .paint (.gradient fallback), .commit .fill]

theorem gradientRects_sameButFallback {R : Rgba → Rgba → Prop} {f f' : Rgba} (h : R f f') :
    List.Forall₂ (Command.SameButFallback R) (gradientRects f) (gradientRects f') :=
  .cons (.other rfl) (.cons (.other rfl) (.cons (.paint (.gradient h)) (.cons (.other rfl) .nil)))

/-- A translucent red and a translucent blue to fall back on are not told apart. -/
theorem fallback_shows_alpha_only_rects :
    let red : Rgba := ⟨255, 0, 0, 128⟩
    let blue : Rgba := ⟨0, 0, 255, 128⟩
    List.Forall₂ (Command.SameButFallback fun f f' => f.alpha = f'.alpha)
        (gradientRects red) (gradientRects blue) ∧
      group (draw .primitive (some "g") (gradientRects red)) =
        group (draw .primitive (some "g") (gradientRects blue)) := by
  intro red blue
  have h := gradientRects_sameButFallback (R := fun f f' => f.alpha = f'.alpha)
    (show red.alpha = blue.alpha from rfl)
  exact ⟨h, ((fallback_shows_alpha_only "g").1 .primitive _ _ h).1⟩

/-- **An alpha is seen through a gradient.** An opaque colour to fall back on and a translucent one
    make different elements on the surface of paths, and different numbers of elements on the
    surface of primitives. -/
theorem fallback_alpha_shows :
    let red : Rgba := ⟨255, 0, 0, 255⟩
    let faint : Rgba := ⟨255, 0, 0, 128⟩
    List.Forall₂ (Command.SameButFallback fun _ _ => True)
        (gradientRects red) (gradientRects faint) ∧
      ((draw .path (some "g") (gradientRects red)).map (·.attribute? "fill-opacity") = [none] ∧
        (draw .path (some "g") (gradientRects faint)).map (·.attribute? "fill-opacity") =
          [some "0.5"]) ∧
      counts .primitive (some "g") (gradientRects red) = [0, 0, 0, 2] ∧
      counts .primitive (some "g") (gradientRects faint) = [0, 0, 0, 1] := by
  refine ⟨gradientRects_sameButFallback trivial, ⟨?_, ?_⟩, ?_, ?_⟩
  · decide +kernel
  · decide +kernel
  · decide +kernel
  · decide +kernel

end Svg

end QrRender
