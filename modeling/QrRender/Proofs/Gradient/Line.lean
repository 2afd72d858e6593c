import QrRender.Gradient.Line
import QrRender.Proofs.Numeric.Double

/-!
# Positions along a gradient

The position of a point along the line of a gradient is a quotient, and there are two ways in which
a quotient of doubles is no number: something in it is none, or it is zero by zero or infinity by
infinity. The second way is ruled out here by bounds. From the sides of the rectangle, the direction
and the point, every step to the position adds a few powers of two to the bound, far from what a
double can hold, and a length of zero is answered before the division.

The first way is not ruled out: without a direction no point has a position.

* `extent_mem`: the least and the greatest have what all have;
* `GradientLine.project_below`: the ends of the line;
* **`GradientLine.isNaN_position_eq_false`**: with a bounded direction a position is a number;
* `GradientLine.isNaN_position`: without a direction it is not.
-/

namespace QrRender

open Double

/-- The least and the greatest of some numbers have every property that all of them have. -/
theorem extent_mem {α : Type} [LT α] [DecidableLT α] {P : α → Prop} {first : α} {more : List α}
    (hfirst : P first) (hmore : ∀ v ∈ more, P v) :
    P (extent first more).1 ∧ P (extent first more).2 := by
  unfold extent
  refine List.foldlRecOn (motive := fun ends : α × α => P ends.1 ∧ P ends.2) _ _
    ⟨hfirst, hfirst⟩ ?_
  intro ends hends v hv
  obtain ⟨least, greatest⟩ := ends
  constructor
  · simp only
    split
    · exact hmore v hv
    · exact hends.1
  · simp only
    split
    · exact hmore v hv
    · exact hends.2

/-- Both coordinates are below a bound. -/
structure Double.PairBelow (k : Nat) (p : Float × Float) : Prop where
  fst : IsBelow k p.1
  snd : IsBelow k p.2

namespace GradientLine

/-! ## 1. The ends -/

/-- The ends of a line are below a bound. -/
structure Below (k : Nat) (l : GradientLine Float) : Prop where
  x1 : IsBelow k l.x1
  y1 : IsBelow k l.y1
  x2 : IsBelow k l.x2
  y2 : IsBelow k l.y2

variable {direction : Float × Float} {w h : Float} {k : Nat}

theorem along_below {p : Float × Float} (hd : PairBelow 1 direction) (hp : PairBelow k p)
    (hk : k + 4 ≤ 900) : IsBelow (k + 4) (along direction p) :=
  (hp.fst.mul hd.fst (by omega)).add (hp.snd.mul hd.snd (by omega)) hk

theorem corners_below (hw : IsBelow k w) (hh : IsBelow k h) :
    ∀ p ∈ corners w h, PairBelow k p := by
  intro p hp
  have hzero := isBelow_zero k
  simp only [corners, List.mem_cons, List.not_mem_nil, or_false] at hp
  rcases hp with rfl | rfl | rfl | rfl
  · exact ⟨hzero, hzero⟩
  · exact ⟨hzero, hh⟩
  · exact ⟨hw, hzero⟩
  · exact ⟨hw, hh⟩

theorem halfExtent_below (hd : PairBelow 1 direction) (hw : IsBelow k w) (hh : IsBelow k h)
    (hk : k + 9 ≤ 900) : IsBelow (k + 9) (halfExtent direction w h) := by
  have hprojections : ∀ v ∈ (corners w h).map (along direction), IsBelow (k + 4) v := by
    intro v hv
    obtain ⟨p, hp, rfl⟩ := List.mem_map.mp hv
    exact along_below hd (corners_below hw hh p hp) (by omega)
  have hfirst : IsBelow (k + 4) (along direction ((0 : Nat), (0 : Nat))) :=
    along_below hd ⟨isBelow_zero k, isBelow_zero k⟩ (by omega)
  have hends := extent_mem (P := IsBelow (k + 4)) hfirst hprojections
  unfold halfExtent
  simp only
  generalize extent (along direction ((0 : Nat), (0 : Nat))) _ = ends at hends ⊢
  obtain ⟨hleast, hgreatest⟩ := hends
  exact (hgreatest.sub hleast (by omega)).half hk

/-- The ends of the line through a rectangle are not much farther than its sides are long. -/
theorem project_below (hd : PairBelow 1 direction) (hw : IsBelow k w) (hh : IsBelow k h)
    (hk : k + 13 ≤ 900) : Below (k + 13) (project direction w h) := by
  have hhalf := halfExtent_below hd hw hh (by omega)
  have hx := hhalf.mul hd.fst (by omega)
  have hy := hhalf.mul hd.snd (by omega)
  have hcx : IsBelow (k + 11) (w / ((2 : Nat) : Float)) := (hw.half (by omega)).mono (by omega)
  have hcy : IsBelow (k + 11) (h / ((2 : Nat) : Float)) := (hh.half (by omega)).mono (by omega)
  exact ⟨hcx.sub hx hk, hcy.sub hy hk, hcx.add hx hk, hcy.add hy hk⟩

/-! ## 2. Positions -/

/-- **A position along a bounded line is a number.** -/
theorem isNaN_position_eq_false {l : GradientLine Float} (hl : Below k l) {x y : Float}
    (hx : IsBelow k x) (hy : IsBelow k y) (hk : k + k + 7 ≤ 900) :
    (l.position x y).isNaN = false := by
  have hvx := hl.x2.sub hl.x1 (by omega)
  have hvy := hl.y2.sub hl.y1 (by omega)
  have hlength := (hvx.mul hvx (by omega)).add (hvy.mul hvy (by omega)) (by omega)
  have hdot := ((hx.sub hl.x1 (by omega)).mul hvx (by omega)).add
    ((hy.sub hl.y1 (by omega)).mul hvy (by omega)) (by omega)
  unfold position
  simp only
  split
  · rfl
  · rename_i hne
    exact isNaN_div_eq_false hdot hlength hne

/-- Without a direction the ends of the line are no numbers, and neither is any position. -/
theorem isNaN_position (hd : direction.1.isNaN = true ∧ direction.2.isNaN = true) (x y : Float) :
    ((project direction w h).position x y).isNaN = true := by
  obtain ⟨hdx, hdy⟩ := hd
  have hx2 : (project direction w h).x2.isNaN = true := isNaN_add (.inr (isNaN_mul (.inr hdx)))
  have hy2 : (project direction w h).y2.isNaN = true := isNaN_add (.inr (isNaN_mul (.inr hdy)))
  generalize project direction w h = l at hx2 hy2
  have hvx : (l.x2 - l.x1).isNaN = true := isNaN_sub (.inl hx2)
  have hlength : ((l.x2 - l.x1) * (l.x2 - l.x1) + (l.y2 - l.y1) * (l.y2 - l.y1)).isNaN = true :=
    isNaN_add (.inl (isNaN_mul (.inl hvx)))
  unfold position
  simp only
  rw [if_neg]
  · exact isNaN_div (.inr hlength)
  · -- a length that is no number does not pass for zero
    intro hzero
    rw [(isNaN_eq_false_of_le hzero.1).1] at hlength
    cases hlength

end GradientLine

end QrRender
