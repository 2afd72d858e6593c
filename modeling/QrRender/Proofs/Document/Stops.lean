import QrRender.Proofs.Document.Tiles

/-!
# Gradients in documents

The definition of a gradient has an element for every colour stop, with its position to three
decimals and its red, green and blue. Nothing says the alpha of a stop, by which the gradient is
painted on a picture: gradients whose stops differ in alpha alone have the same definition. What is
there is kept: gradients of one definition have the same red, green and blue everywhere.

* `Svg.Element.stops?`: reading a definition;
* `Svg.stops?_gradientDefinition`: the stops that are read, one for each and in their order;
* `Svg.gradientDefinition_eq_iff`: when two gradients have the same definition;
* `Gradient.map_solid_colorAt`: red, green and blue of a gradient do not depend on its alphas;
* **`Svg.gradientDefinition_keeps`**: what a definition keeps of a gradient;
* `Svg.stop_alpha_missing`: a stop that is half transparent.
-/

namespace QrRender

/-! ## 1. Gradients without their alphas -/

section

variable {α : Type}

/-- The stop with the opaque colour of the same red, green and blue. -/
def ColorStop.solid (s : ColorStop α) : ColorStop α := { s with color := s.color.solid }

/-- The gradient with all stops opaque. -/
def Gradient.solid (g : Gradient α) : Gradient α := { g with stops := g.stops.map ColorStop.solid }

/-- Opaque stops stay as they are. -/
theorem Gradient.solid_eq_self {g : Gradient α} (h : ∀ s ∈ g.stops, s.color.isOpaque = true) :
    g.solid = g := by
  have hstops : g.stops.map ColorStop.solid = g.stops := by
    refine (List.map_congr_left fun s hs => ?_).trans (List.map_id _)
    rw [ColorStop.solid, Rgba.solid_eq_self.mpr (h s hs)]
    rfl
  rw [solid, hstops]

variable [Add α] [Sub α] [Mul α] [Div α] [NatCast α] [LT α] [DecidableLT α] [LE α] [DecidableLE α]

/-- **The red, green and blue of a gradient do not depend on its alphas.** -/
theorem Gradient.map_solid_colorAt (g : Gradient α) (t : α) :
    (g.solid.colorAt t).map Rgba.solid = (g.colorAt t).map Rgba.solid := by
  have hreached : (fun s : ColorStop α => decide (s.position ≤ t)) ∘ ColorStop.solid =
      fun s => decide (s.position ≤ t) := rfl
  unfold colorAt solid
  simp only [List.head?_map, List.getLast?_map, List.takeWhile_map, List.dropWhile_map, hreached]
  cases g.stops.head? with
  | none => rfl
  | some first =>
    cases g.stops.getLast? with
    | none => rfl
    | some last =>
      simp only [Option.map_some]
      by_cases hbefore : t ≤ first.position
      · have hbefore' : t ≤ first.solid.position := hbefore
        rw [if_pos hbefore, if_pos hbefore']
        rfl
      have hbefore' : ¬t ≤ first.solid.position := hbefore
      rw [if_neg hbefore, if_neg hbefore']
      by_cases hafter : last.position ≤ t
      · have hafter' : last.solid.position ≤ t := hafter
        rw [if_pos hafter, if_pos hafter']
        rfl
      have hafter' : ¬last.solid.position ≤ t := hafter
      rw [if_neg hafter, if_neg hafter']
      cases (g.stops.takeWhile fun s => decide (s.position ≤ t)).getLast? with
      | none => rfl
      | some a =>
        cases (g.stops.dropWhile fun s => decide (s.position ≤ t)).head? with
        | none => rfl
        | some b => rfl

/-- Nor does the colour at a position depend on the angle. -/
theorem Gradient.colorAt_eq_of_stops {g g' : Gradient α} (h : g.stops = g'.stops) (t : α) :
    g.colorAt t = g'.colorAt t := by
  unfold colorAt
  rw [h]

end

namespace Svg

/-! ## 2. Definitions read back -/

/-- A colour stop as it is written: the text of its position, its colour, and the text of its
    opacity, if there is one. -/
structure StopText where
  offset : String
  color : Rgba
  opacity : Option String
  deriving DecidableEq

/-- The colour stop that an element writes. -/
def Element.stop? (e : Element) : Option StopText :=
  if e.name = "stop" ∧ e.children.isEmpty then do
    return ⟨← e.attribute? "offset", ← (e.attribute? "stop-color").bind Rgba.ofHex?,
      e.attribute? "stop-opacity"⟩
  else none

/-- The colour stops of the gradient that an element defines. -/
def Element.stops? (e : Element) : Option (List StopText) :=
  match e.children with
  | [gradient] => gradient.children.mapM Element.stop?
  | _ => none

variable {α : Type}

/-- What is written of a colour stop. -/
def stopText [Numeric α] (s : ColorStop α) : StopText :=
  ⟨Numeric.fixedText s.position, s.color.solid, none⟩

theorem stop?_stopElement [Numeric α] (s : ColorStop α) :
    (stopElement s).stop? = some (stopText s) := by
  simp [stopElement, Element.leaf, Element.stop?, Element.attribute?, Rgba.ofHex?_toHex, stopText]

/-- Two stops are written alike exactly if they are read alike. -/
theorem stopElement_inj [Numeric α] {s s' : ColorStop α} :
    stopElement s = stopElement s' ↔ stopText s = stopText s' := by
  simp [stopElement, Element.leaf, stopText, Rgba.toHex_inj]

/-- Stops with the same positions that are written alike are the same, but for their alphas. -/
theorem solid_stops_eq [Numeric α] {g g' : Gradient α}
    (hpositions : g.stops.map (·.position) = g'.stops.map (·.position))
    (htexts : g.stops.map stopText = g'.stops.map stopText) : g.solid.stops = g'.solid.stops := by
  have hzip : ∀ stops : List (ColorStop α), stops.map ColorStop.solid =
      ((stops.map (·.position)).zip (stops.map stopText)).map fun p => ⟨p.1, p.2.color⟩ := by
    intro stops
    rw [List.zip_map', List.map_map]
    rfl
  show g.stops.map ColorStop.solid = g'.stops.map ColorStop.solid
  rw [hzip, hpositions, htexts, ← hzip]

/-! ## 3. What a definition keeps -/

variable [Add α] [Sub α] [Mul α] [Div α] [NatCast α] [LT α] [DecidableLT α] [Numeric α]

/-- The ends of a line, as they are written. -/
def lineTexts (l : GradientLine α) : List String :=
  [Numeric.fixedText l.x1, Numeric.fixedText l.y1, Numeric.fixedText l.x2, Numeric.fixedText l.y2]

/-- From the definition of a gradient one stop is read for each of its own, in their order. -/
theorem stops?_gradientDefinition (g : Gradient α) (w h : Nat) :
    (gradientDefinition g w h).stops? = some (g.stops.map stopText) :=
  mapM_map_eq_some fun s _ => stop?_stopElement s

/-- Gradients have the same definition exactly if the ends of their lines and their stops are
    written alike. -/
theorem gradientDefinition_eq_iff (g g' : Gradient α) (w h : Nat) :
    gradientDefinition g w h = gradientDefinition g' w h ↔
      lineTexts (g.line (w : α) (h : α)) = lineTexts (g'.line (w : α) (h : α)) ∧
        g.stops.map stopText = g'.stops.map stopText := by
  have hstops : g.stops.map stopElement = g'.stops.map stopElement ↔
      g.stops.map stopText = g'.stops.map stopText := by
    simp only [← List.forall₂_eq_eq_eq, List.forall₂_map_left_iff, List.forall₂_map_right_iff,
      stopElement_inj]
  rw [← hstops]
  simp [gradientDefinition, lineTexts, and_assoc]

variable [LE α] [DecidableLE α]

/-- **A definition keeps a gradient but for its alphas.** One stop is read for each of its own, in
    their order, with its position to three decimals and its red, green and blue, and without an
    opacity. So gradients whose stops differ in one of these have different definitions. Gradients
    of one definition, with the same positions behind the decimals, are painted in the same red,
    green and blue everywhere, and alike if their stops are opaque. -/
theorem gradientDefinition_keeps (g g' : Gradient α) (w h : Nat) :
    (gradientDefinition g w h).stops? =
        some (g.stops.map fun s => ⟨Numeric.fixedText s.position, s.color.solid, none⟩) ∧
      (gradientDefinition g w h = gradientDefinition g' w h ↔
        lineTexts (g.line (w : α) (h : α)) = lineTexts (g'.line (w : α) (h : α)) ∧
          g.stops.map stopText = g'.stops.map stopText) ∧
      (gradientDefinition g w h = gradientDefinition g' w h →
        g.stops.map (·.position) = g'.stops.map (·.position) →
        ∀ t, (g.colorAt t).map Rgba.solid = (g'.colorAt t).map Rgba.solid ∧
          ((∀ s ∈ g.stops ++ g'.stops, s.color.isOpaque = true) →
            g.colorAt t = g'.colorAt t)) := by
  refine ⟨stops?_gradientDefinition g w h, gradientDefinition_eq_iff g g' w h, ?_⟩
  intro heq hpositions t
  have hstops := solid_stops_eq hpositions ((gradientDefinition_eq_iff g g' w h).mp heq).2
  have hcolor := Gradient.colorAt_eq_of_stops hstops t
  constructor
  · rw [← Gradient.map_solid_colorAt, hcolor, Gradient.map_solid_colorAt]
  · intro hopaque
    have hg := Gradient.solid_eq_self fun s hs => hopaque s (List.mem_append_left _ hs)
    have hg' := Gradient.solid_eq_self fun s hs => hopaque s (List.mem_append_right _ hs)
    rwa [hg, hg'] at hcolor

/-- Red that fades to blue, from a red of some alpha. -/
def fade (alpha : UInt8) : Gradient Float :=
  Gradient.ofStops 0 [⟨0, ⟨255, 0, 0, alpha⟩⟩, ⟨1, ⟨0, 0, 255, 255⟩⟩]

theorem stops_fade (alpha : UInt8) :
    (fade alpha).stops = [⟨0, ⟨255, 0, 0, alpha⟩⟩, ⟨1, ⟨0, 0, 255, 255⟩⟩] := by
  have hzero : unitPosition (0 : Float) = 0 := by decide +kernel
  have hone : unitPosition (1 : Float) = 1 := by decide +kernel
  have hsorted : Numeric.totalLe (0 : Float) 1 = true := by decide +kernel
  simp only [fade, Gradient.ofStops, List.map_cons, List.map_nil, Gradient.unitStop, hzero, hone]
  exact List.mergeSort_of_pairwise (List.pairwise_pair.mpr hsorted)

/-- The alpha is not in the definition. -/
theorem gradientDefinition_fade (alpha alpha' : UInt8) (w h : Nat) :
    gradientDefinition (fade alpha) w h = gradientDefinition (fade alpha') w h := by
  refine (gradientDefinition_eq_iff _ _ w h).mpr ⟨rfl, ?_⟩
  rw [stops_fade, stops_fade]
  rfl

/-- Fading from a half-transparent red and from an opaque one. -/
theorem gradientDefinition_keeps_fade :
    gradientDefinition (fade 128) 4 4 = gradientDefinition (fade 255) 4 4 ∧
      (fade 128).stops.map (·.position) = (fade 255).stops.map (·.position) ∧
      ∀ t, ((fade 128).colorAt t).map Rgba.solid = ((fade 255).colorAt t).map Rgba.solid := by
  have heq := gradientDefinition_fade 128 255 4 4
  have hpositions : (fade 128).stops.map (·.position) = (fade 255).stops.map (·.position) := by
    rw [stops_fade, stops_fade]
    rfl
  exact ⟨heq, hpositions, fun t =>
    ((gradientDefinition_keeps (fade 128) (fade 255) 4 4).2.2 heq hpositions t).1⟩

/-- **The alpha of a stop is not written**: the two have one definition, with no opacity in it, and
    at their start they are painted in different colours. -/
theorem stop_alpha_missing :
    (∀ w h, gradientDefinition (fade 128) w h = gradientDefinition (fade 255) w h) ∧
      (∀ w h, (gradientDefinition (fade 128) w h).stops?.map (·.map (·.opacity)) =
        some [none, none]) ∧
      (fade 128).colorAt 0 = .ok ⟨255, 0, 0, 128⟩ ∧
      (fade 255).colorAt 0 = .ok ⟨255, 0, 0, 255⟩ := by
  have hfirst : (0 : Float) ≤ 0 := by decide +kernel
  have hstart : ∀ alpha, (fade alpha).colorAt 0 = .ok ⟨255, 0, 0, alpha⟩ := by
    intro alpha
    unfold Gradient.colorAt
    rw [stops_fade]
    exact if_pos hfirst
  refine ⟨gradientDefinition_fade 128 255, fun w h => ?_, hstart 128, hstart 255⟩
  rw [stops?_gradientDefinition, stops_fade]
  rfl

end Svg

end QrRender
