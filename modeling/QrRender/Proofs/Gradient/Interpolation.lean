import QrRender.Proofs.Gradient.Brackets
import QrRender.Proofs.Gradient.Mixing
import QrRender.Proofs.Numeric.Exact

/-!
# Colours between stops

In exact arithmetic a gradient moves from stop to stop. However its stops are given, their positions
are numbers in order. So a position behind the first stop and before the last has a last stop at or
before it and a next one, which is past it; the list splits between the two, and the colour there is
a mix of theirs. The share of the way grows with the position and stays between zero and one, and so
the colour moves from the one stop towards the other without turning back.

At or before the first stop the colour is that of the first, and from the last on it is that of the
last. The two overlap where all stops are at one position: there the first one counts.

* `Gradient.Normal`, `Gradient.normal_ofStops`: positions are numbers, and in order;
* `Gradient.Bracket`: the last stop at or before a position, and the next;
* `Gradient.exists_bracket`, `Gradient.colorAt_of_bracket`: every position between the ends has
  such stops, and its colour is a mix of theirs;
* `Gradient.between_toward`: the share on the way from the one to the other;
* **`Gradient.colorAt_interpolates`**: every gradient with a stop, at every position.
-/

namespace QrRender

open Extended

variable {K : Type} [Field K] [LinearOrder K]

/-! ## 1. Stops -/

/-- A position in range is a number, from zero to one. -/
theorem unitPosition_eq_finite [IsStrictOrderedRing K] (t : Extended K) :
    ∃ x, 0 ≤ x ∧ x ≤ 1 ∧ unitPosition t = finite x := by
  unfold unitPosition
  simp only [natCast_eq, Nat.cast_zero, Nat.cast_one]
  split
  · exact ⟨0, le_rfl, zero_le_one, rfl⟩
  split
  · exact ⟨1, zero_le_one, le_rfl, rfl⟩
  split
  · rename_i hzero hone hle
    have hne : t ≠ nan := compares_iff.mp hle.1
    have hge : finite 0 ≤ t :=
      Classical.not_not.mp fun h => hzero ((not_le_iff finite_ne_nan hne).mp h)
    obtain ⟨x, rfl⟩ := eq_finite_of_le_of_le hge hle
    exact ⟨x, finite_le.mp hge, finite_le.mp hle, rfl⟩
  · exact ⟨0, le_rfl, zero_le_one, rfl⟩

theorem unitPosition_eq_self {t : Extended K} (hzero : finite 0 ≤ t) (hone : t ≤ finite 1) :
    unitPosition t = t := by
  unfold unitPosition
  simp only [natCast_eq, Nat.cast_zero, Nat.cast_one]
  rw [if_neg fun h => not_le_of_lt h hzero, if_neg fun h => not_le_of_lt h hone, if_pos hone]

namespace Gradient

/-- The positions of the stops are numbers, and in order. -/
structure Normal (g : Gradient (Extended K)) : Prop where
  number : ∀ s ∈ g.stops, ∃ x, s.position = finite x
  ordered : g.stops.Pairwise fun s s' => s.position ≤ s'.position

theorem normal_ofStops [IsStrictOrderedRing K] [Numeric K] (angle : Extended K)
    (stops : List (ColorStop (Extended K))) : Normal (ofStops angle stops) where
  number s hs := by
    obtain ⟨given, -, rfl⟩ := mem_ofStops.mp hs
    obtain ⟨x, -, -, hx⟩ := unitPosition_eq_finite given.position
    exact ⟨x, hx⟩
  ordered := by
    refine pairwise_ofStops (fun _ _ _ => totalLe_trans) totalLe_total fun a b hle => ?_
    obtain ⟨x, -, -, hx⟩ := unitPosition_eq_finite a
    obtain ⟨y, -, -, hy⟩ := unitPosition_eq_finite b
    have hrank : (unitPosition a).rank ≤ (unitPosition b).rank := of_decide_eq_true hle
    rw [hx, hy] at hrank ⊢
    exact finite_le.mpr (rank_finite_le.mp hrank)

/-- Stops in range and in order are kept as they are. -/
theorem stops_ofStops [IsStrictOrderedRing K] [Numeric K] {angle : Extended K}
    {stops : List (ColorStop (Extended K))}
    (hrange : ∀ s ∈ stops, finite 0 ≤ s.position ∧ s.position ≤ finite 1)
    (hordered : stops.Pairwise fun s s' => s.position ≤ s'.position) :
    (ofStops angle stops).stops = stops := by
  have hunit : stops.map unitStop = stops := by
    refine (List.map_congr_left fun s hs => ?_).trans (List.map_id stops)
    obtain ⟨hzero, hone⟩ := hrange s hs
    unfold unitStop
    rw [unitPosition_eq_self hzero hone]
    rfl
  unfold ofStops
  simp only [hunit]
  refine List.mergeSort_of_pairwise (hordered.imp fun {s s'} hle => ?_)
  exact decide_eq_true hle.2.2

/-! ## 2. Brackets -/

/-- Of the stops, `a` is the last at or before the position, and `b` is the next one. -/
def Bracket (g : Gradient (Extended K)) (t : Extended K) (a b : ColorStop (Extended K)) : Prop :=
  ∃ before after, g.stops = before ++ a :: b :: after ∧ a.position ≤ t ∧
    ∀ s ∈ b :: after, t < s.position

variable {g : Gradient (Extended K)} {t : Extended K} {a b first last : ColorStop (Extended K)}

theorem ne_nan_of_mem (hg : Normal g) : ∀ s ∈ g.stops, s.position ≠ nan := by
  intro s hs hnan
  obtain ⟨x, hx⟩ := hg.number s hs
  cases hnan.symm.trans hx

/-- Where the first of a list passes a test and the last does not, two that follow one another
    turn from the one to the other. -/
theorem exists_turn {α : Type} {p : α → Prop} {l : List α} {first last : α}
    (hhead : l.head? = some first) (hlast : l.getLast? = some last) (hfirst : p first)
    (hnot : ¬p last) : ∃ before a b after, l = before ++ a :: b :: after ∧ p a ∧ ¬p b := by
  induction l generalizing first with
  | nil => cases hhead
  | cons x rest ih =>
    cases hhead
    cases rest with
    | nil =>
      cases hlast
      exact absurd hfirst hnot
    | cons y ys =>
      by_cases hy : p y
      · rw [List.getLast?_cons_cons] at hlast
        obtain ⟨before, a, b, after, hl, ha, hb⟩ := ih List.head?_cons hlast hy
        exact ⟨x :: before, a, b, after, by rw [hl, List.cons_append], ha, hb⟩
      · exact ⟨[], x, y, ys, rfl, hfirst, hy⟩

/-- Behind the first stop and before the last there are such stops. -/
theorem exists_bracket (hg : Normal g) (hhead : g.stops.head? = some first)
    (hlast : g.stops.getLast? = some last) (hfirst : first.position < t)
    (ht : t < last.position) : ∃ a b, g.Bracket t a b := by
  obtain ⟨before, a, b, after, hstops, ha, hb⟩ :=
    exists_turn (p := fun s : ColorStop (Extended K) => s.position ≤ t) hhead hlast
      (le_of_lt hfirst) (not_le_of_lt ht)
  have hmem : b ∈ g.stops := by
    rw [hstops]
    exact List.mem_append_right _ (List.mem_cons_of_mem _ List.mem_cons_self)
  have hahead : t < b.position :=
    (not_le_iff (ne_nan_of_mem hg b hmem) (ne_nan_of_lt ht).1).mp hb
  -- the order puts what follows past the position as well
  have hordered := hg.ordered
  rw [hstops, List.pairwise_append, List.pairwise_cons, List.pairwise_cons] at hordered
  refine ⟨a, b, before, after, hstops, ha, ?_⟩
  intro s hs
  rcases List.mem_cons.mp hs with rfl | hs
  · exact hahead
  · exact Extended.lt_of_lt_of_le hahead (hordered.2.1.2.1 s hs)

/-- Behind the first stop the colour is that between the two. -/
theorem colorAt_of_bracket (hg : Normal g) (hhead : g.stops.head? = some first)
    (hfirst : first.position < t) (h : g.Bracket t a b) :
    g.colorAt t = .ok (between a b t) := by
  obtain ⟨before, after, hstops, ha, hahead⟩ := h
  have hordered := hg.ordered
  rw [hstops, List.pairwise_append] at hordered
  refine colorAt_of_split hhead (not_le_of_lt hfirst) hstops ?_ fun s hs =>
    not_le_of_lt (hahead s hs)
  intro s hs
  rw [List.mem_append, List.mem_singleton] at hs
  rcases hs with hs | rfl
  · exact Extended.le_trans (hordered.2.2 s hs a List.mem_cons_self) ha
  · exact ha

/-! ## 3. Shares -/

/-- The positions of stops that bracket a position are numbers around it. -/
theorem finite_of_bracket (hg : Normal g) (h : g.Bracket t a b) :
    ∃ x y z, a.position = finite x ∧ b.position = finite y ∧ t = finite z ∧ x ≤ z ∧ z < y := by
  obtain ⟨before, after, hstops, ha, hahead⟩ := h
  have hb := hahead b List.mem_cons_self
  obtain ⟨x, hx⟩ := hg.number a (by simp [hstops])
  obtain ⟨y, hy⟩ := hg.number b (by simp [hstops])
  rw [hx] at ha
  rw [hy] at hb
  obtain ⟨z, rfl⟩ := eq_finite_of_le_of_le ha (Extended.le_of_lt hb)
  exact ⟨x, y, z, hx, hy, rfl, finite_le.mp ha, finite_lt.mp hb⟩

variable [IsStrictOrderedRing K] {x y z z' : K}

/-- Between two stops the share is how far the position is on the way from the one to the other. -/
theorem between_finite (ha : a.position = finite x) (hb : b.position = finite y) (hxy : x < y) :
    between a b (finite z) = mixColor ((z - x) / (y - x)) a.color b.color := by
  have hgap : 0 < y - x := sub_pos.mpr hxy
  unfold between
  simp only [ha, hb, finite_sub, natCast_eq, Nat.cast_zero]
  rw [if_pos (finite_lt.mpr hgap), finite_div hgap.ne', mixColor_finite]

/-- The share grows with the position, from zero to one. -/
theorem between_toward (ha : a.position = finite x) (hb : b.position = finite y) (hz : x ≤ z)
    (hzz' : z ≤ z') (hz' : z' < y) :
    Rgba.Toward a.color b.color (between a b (finite z)) (between a b (finite z')) := by
  have hxy : x < y := (hz.trans hzz').trans_lt hz'
  have hgap : 0 < y - x := sub_pos.mpr hxy
  rw [between_finite ha hb hxy, between_finite ha hb hxy]
  apply mixColor_toward
  · exact div_nonneg (sub_nonneg.mpr hz) hgap.le
  · exact div_le_div_of_nonneg_right (sub_le_sub_right hzz' x) hgap.le
  · exact (div_le_one hgap).mpr (sub_le_sub_right hz'.le x)

/-- At the first of two stops there is its colour. -/
theorem between_self (ha : a.position = finite x) (hb : b.position = finite y) (hxy : x < y) :
    between a b (finite x) = a.color := by
  rw [between_finite ha hb hxy, sub_self, zero_div, mixColor_zero]

/-! ## 4. Every position -/

/-- What a gradient has for colours, from its first stop to its last. -/
structure Interpolates (g : Gradient (Extended K)) (first last : ColorStop (Extended K)) :
    Prop where
  /-- Every position that is not `nan` has a colour. -/
  total : ∀ t, t ≠ nan → ∃ c, g.colorAt t = .ok c
  before : ∀ t, t ≤ first.position → g.colorAt t = .ok first.color
  after : ∀ t, first.position < t → last.position ≤ t → g.colorAt t = .ok last.color
  /-- Between the ends there are a last stop at or before the position and a next one. -/
  bracketed : ∀ t, first.position < t → t < last.position → ∃ a b, g.Bracket t a b
  /-- The colour is between theirs, -/
  between : ∀ t a b, first.position < t → g.Bracket t a b →
    ∃ c, g.colorAt t = .ok c ∧ Rgba.Between a.color b.color c
  /-- and it moves from the one to the other. -/
  toward : ∀ t t' a b, first.position < t → t ≤ t' → g.Bracket t a b → g.Bracket t' a b →
    ∃ c c', g.colorAt t = .ok c ∧ g.colorAt t' = .ok c' ∧ Rgba.Toward a.color b.color c c'
  /-- It starts from the one. -/
  start : ∀ a b, first.position < a.position → g.Bracket a.position a b →
    g.colorAt a.position = .ok a.color

theorem toward_of_bracket {t' : Extended K} (hg : Normal g) (hhead : g.stops.head? = some first)
    (hfirst : first.position < t) (htt' : t ≤ t') (h : g.Bracket t a b) (h' : g.Bracket t' a b) :
    ∃ c c', g.colorAt t = .ok c ∧ g.colorAt t' = .ok c' ∧ Rgba.Toward a.color b.color c c' := by
  have hfirst' : first.position < t' := Extended.lt_of_lt_of_le hfirst htt'
  refine ⟨_, _, colorAt_of_bracket hg hhead hfirst h, colorAt_of_bracket hg hhead hfirst' h', ?_⟩
  obtain ⟨x, y, z, hx, hy, rfl, hz, -⟩ := finite_of_bracket hg h
  obtain ⟨-, y', z', -, hy', rfl, -, hz'⟩ := finite_of_bracket hg h'
  cases hy.symm.trans hy'
  exact between_toward hx hy hz (finite_le.mp htt') hz'

/-- A gradient whose positions are numbers in order moves from stop to stop. -/
theorem interpolates_of_normal (hg : Normal g) (hhead : g.stops.head? = some first)
    (hlast : g.stops.getLast? = some last) : Interpolates g first last where
  total t ht := colorAt_isOk fun s hs => le_or_le (ne_nan_of_mem hg s hs) ht
  before t ht := colorAt_of_le hhead ht
  after t hfirst ht := colorAt_of_not_le hhead hlast (not_le_of_lt hfirst) ht
  bracketed t hfirst ht := exists_bracket hg hhead hlast hfirst ht
  between t a b hfirst h := by
    have hself : t ≤ t := (le_or_le (ne_nan_of_lt hfirst).2 (ne_nan_of_lt hfirst).2).elim id id
    obtain ⟨c, c', hc, -, htoward⟩ := toward_of_bracket hg hhead hfirst hself h h
    exact ⟨c, hc, htoward.between⟩
  toward t t' a b hfirst htt' h h' := toward_of_bracket hg hhead hfirst htt' h h'
  start a b hfirst h := by
    rw [colorAt_of_bracket hg hhead hfirst h]
    obtain ⟨x, y, z, hx, hy, hz, hxz, hzy⟩ := finite_of_bracket hg h
    rw [hx, between_self hx hy (hxz.trans_lt hzy)]

/-- **Every gradient with a stop moves from stop to stop**, whatever the positions of its stops are
    and in whatever order they come: each position that is not `nan` has a colour, that of the first
    stop, that of the last, or one between the colours of two neighbours. -/
theorem colorAt_interpolates [Numeric K] (angle : Extended K)
    {stops : List (ColorStop (Extended K))} (hne : stops ≠ []) :
    ∃ first last, (ofStops angle stops).stops.head? = some first ∧
      (ofStops angle stops).stops.getLast? = some last ∧
      Interpolates (ofStops angle stops) first last := by
  have hkept : (ofStops angle stops).stops ≠ [] := by
    rw [← List.length_pos_iff, ofStops, List.length_mergeSort, List.length_map]
    exact List.length_pos_iff.mpr hne
  refine ⟨_, _, List.head?_eq_some_head hkept, List.getLast?_eq_some_getLast hkept, ?_⟩
  exact interpolates_of_normal (normal_ofStops angle stops) (List.head?_eq_some_head hkept)
    (List.getLast?_eq_some_getLast hkept)

/-- Stops in the wrong order, one without a number for its position and one out of range. -/
theorem unordered_stops_interpolate :
    let stops : List (ColorStop (Extended ℚ)) :=
      [⟨finite (3 / 2), ⟨0, 0, 255, 255⟩⟩, ⟨nan, ⟨255, 0, 0, 255⟩⟩]
    stops ≠ [] ∧ ∃ first last, (ofStops (finite 45) stops).stops.head? = some first ∧
      (ofStops (finite 45) stops).stops.getLast? = some last ∧
      Interpolates (ofStops (finite 45) stops) first last :=
  ⟨List.cons_ne_nil _ _, colorAt_interpolates (finite 45) (List.cons_ne_nil _ _)⟩

/-- With all stops at one position, the colour there is not that of the last. -/
theorem first_of_coincident_ends :
    let g := ofStops (finite 0)
      [⟨finite (1 / 2 : ℚ), ⟨255, 0, 0, 255⟩⟩, ⟨finite (1 / 2), ⟨0, 0, 255, 255⟩⟩]
    ∃ last, g.stops.getLast? = some last ∧ last.position ≤ finite (1 / 2) ∧
      g.colorAt (finite (1 / 2)) ≠ .ok last.color := by
  intro g
  have hle : (finite (1 / 2 : ℚ)) ≤ finite (1 / 2) := finite_le.mpr le_rfl
  have hstops : g.stops = [⟨finite (1 / 2 : ℚ), ⟨255, 0, 0, 255⟩⟩,
      ⟨finite (1 / 2), ⟨0, 0, 255, 255⟩⟩] := by
    refine stops_ofStops ?_ ?_
    · intro s hs
      have hs' : s.position = finite (1 / 2) := by
        simp only [List.mem_cons, List.not_mem_nil, or_false] at hs
        rcases hs with rfl | rfl <;> rfl
      rw [hs']
      exact ⟨finite_le.mpr (by decide +kernel), finite_le.mpr (by decide +kernel)⟩
    · exact List.pairwise_pair.mpr hle
  refine ⟨⟨finite (1 / 2), ⟨0, 0, 255, 255⟩⟩, by rw [hstops]; rfl, hle, ?_⟩
  rw [colorAt_of_le (by rw [hstops]; rfl) hle]
  decide

end Gradient

end QrRender
