import QrRender.Proofs.Gradient.Interpolation
import QrRender.Proofs.Numeric.Difference

/-!
# Stops at one position

Several stops may sit at one position, and then the colour jumps there. Behind the first position
the last of them counts: the position is past the others, and the way from the last of them to the
next stop has not begun. At the first position it is the other way round. What is not past the first
stop has the colour of the first stop, however many follow it at the same place; only right behind
that position does the gradient go on from the last of them. So it is continuous from the right
everywhere but at a first position whose stops do not begin and end with one colour.

The rule is one for doubles and for exact numbers. What it takes is that the order of stops is that
of comparison, and that the way between two stops starts with the colour of the first of them, which
for doubles is because no distance is rounded to zero.

* `ColorStop.IsAt`, `Gradient.LastAt`: stops at a position, and the last of them;
* `StopNumbers`: the laws that the rule takes, for doubles and for exact numbers;
* **`Gradient.showsLast_ofStops`**: the colour at a position with stops;
* `Gradient.Behind`, `Gradient.behind_lastAt`: the colour right behind it, in exact arithmetic;
* **`Gradient.colorAt_stops`**: both, and where a gradient is continuous from the right.
-/

namespace QrRender

/-! ## 1. Stops at a position -/

section Stops

variable {α : Type} [LE α]

/-- The stop sits at the position: neither is past the other. -/
def ColorStop.IsAt (s : ColorStop α) (p : α) : Prop := s.position ≤ p ∧ p ≤ s.position

/-- Of the stops at the position, this is the last in the order of the gradient. -/
def Gradient.LastAt (g : Gradient α) (p : α) (s : ColorStop α) : Prop :=
  ∃ before after, g.stops = before ++ s :: after ∧ s.IsAt p ∧ ∀ s' ∈ after, ¬s'.IsAt p

/-- What is in a list at all is in it a last time. -/
theorem exists_last {β : Type} {P : β → Prop} {l : List β} (h : ∃ x ∈ l, P x) :
    ∃ before x after, l = before ++ x :: after ∧ P x ∧ ∀ y ∈ after, ¬P y := by
  induction l with
  | nil =>
    obtain ⟨x, hx, -⟩ := h
    cases hx
  | cons y rest ih =>
    by_cases hrest : ∃ x ∈ rest, P x
    · obtain ⟨before, x, after, hl, hx, hafter⟩ := ih hrest
      exact ⟨y :: before, x, after, by rw [hl, List.cons_append], hx, hafter⟩
    · obtain ⟨x, hx, hP⟩ := h
      rcases List.mem_cons.mp hx with rfl | hx
      · exact ⟨[], x, rest, rfl, hP, fun y hy hy' => hrest ⟨y, hy, hy'⟩⟩
      · exact absurd ⟨x, hx, hP⟩ hrest

namespace Gradient.LastAt

variable {g : Gradient α} {p : α} {s s' : ColorStop α}

theorem mem (h : g.LastAt p s) : s ∈ g.stops := by
  obtain ⟨before, after, hstops, -⟩ := h
  exact hstops ▸ List.mem_append_right before List.mem_cons_self

theorem isAt (h : g.LastAt p s) : s.IsAt p := by
  obtain ⟨-, -, -, hs, -⟩ := h
  exact hs

/-- There is one last stop at a position. -/
theorem eq (h : g.LastAt p s) (h' : g.LastAt p s') : s = s' := by
  obtain ⟨before, after, hstops, hs, hafter⟩ := h
  obtain ⟨before', after', hstops', hs', hafter'⟩ := h'
  rw [hstops, List.append_eq_append_iff] at hstops'
  -- if one of the two came first, the other would be behind it at the same position
  rcases hstops' with ⟨between, -, hrest⟩ | ⟨between, -, hrest⟩
  · cases between with
    | nil => exact (List.cons_eq_cons.mp hrest).1
    | cons b between =>
      have hmem : s' ∈ after := (List.cons_eq_cons.mp hrest).2 ▸
        List.mem_append_right between List.mem_cons_self
      exact absurd hs' (hafter s' hmem)
  · cases between with
    | nil => exact (List.cons_eq_cons.mp hrest).1.symm
    | cons b between =>
      have hmem : s ∈ after' := (List.cons_eq_cons.mp hrest).2 ▸
        List.mem_append_right between List.mem_cons_self
      exact absurd hs (hafter' s hmem)

end Gradient.LastAt

theorem Gradient.exists_lastAt {g : Gradient α} {p : α} (h : ∃ s ∈ g.stops, s.IsAt p) :
    ∃ s, g.LastAt p s := by
  obtain ⟨before, s, after, hstops, hs, hafter⟩ := exists_last h
  exact ⟨s, before, after, hstops, hs, hafter⟩

end Stops

/-! ## 2. The laws -/

/-- Numbers of which stops at one position can be told apart from the others: positions in range
    are ordered, and the way from one to another starts with the colour of the first. -/
class StopNumbers (α : Type) [Add α] [Sub α] [Mul α] [Div α] [NatCast α] [LT α] [DecidableLT α]
    [LE α] [DecidableLE α] [Numeric α] : Prop where
  le_trans {a b c : α} : a ≤ b → b ≤ c → a ≤ c
  totalLe_trans {a b c : α} : Numeric.totalLe a b = true → Numeric.totalLe b c = true →
    Numeric.totalLe a c = true
  totalLe_total (a b : α) : (Numeric.totalLe a b || Numeric.totalLe b a) = true
  inUnit (t : α) : InUnit (unitPosition t)
  le_of_totalLe {a b : α} : InUnit a → InUnit b → Numeric.totalLe a b = true → a ≤ b
  between_self {a b : ColorStop α} {t : α} : InUnit a.position → InUnit b.position →
    a.IsAt t → ¬b.position ≤ t → Gradient.between a b t = a.color

namespace Gradient

section Shown

variable {α : Type} [Add α] [Sub α] [Mul α] [Div α] [NatCast α] [LT α] [DecidableLT α]
  [LE α] [DecidableLE α] [Numeric α] {g : Gradient α} {p : α} {first s : ColorStop α}

/-- What a gradient shows at a position with stops: the colour of the last of them, or that of the
    first stop of all if the position is not past it. -/
structure ShowsLast (g : Gradient α) (p : α) (first s : ColorStop α) : Prop where
  head : g.stops.head? = some first
  last : g.LastAt p s
  color : g.colorAt p = .ok (if p ≤ first.position then first.color else s.color)

/-- Positions are in range and in order. -/
structure InOrder (g : Gradient α) : Prop where
  inUnit : ∀ s ∈ g.stops, InUnit s.position
  ordered : g.stops.Pairwise fun s s' => s.position ≤ s'.position

variable [StopNumbers α]

theorem inOrder_ofStops (angle : α) (stops : List (ColorStop α)) :
    InOrder (ofStops angle stops) where
  inUnit s hs := by
    obtain ⟨given, -, rfl⟩ := mem_ofStops.mp hs
    exact StopNumbers.inUnit given.position
  ordered := pairwise_ofStops (fun _ _ _ => StopNumbers.totalLe_trans) StopNumbers.totalLe_total
    fun a b => StopNumbers.le_of_totalLe (StopNumbers.inUnit a) (StopNumbers.inUnit b)

/-- The stops up to the last one at a position are reached there, and those behind it are not. -/
theorem reached_of_lastAt (hg : InOrder g) {before after : List (ColorStop α)}
    (hstops : g.stops = before ++ s :: after) (hs : s.IsAt p) (hafter : ∀ s' ∈ after, ¬s'.IsAt p) :
    (∀ s' ∈ before ++ [s], s'.position ≤ p) ∧ ∀ s' ∈ after, ¬s'.position ≤ p := by
  have hordered := hg.ordered
  rw [hstops, List.pairwise_append, List.pairwise_cons] at hordered
  obtain ⟨-, ⟨hnext, -⟩, hprevious⟩ := hordered
  constructor
  · intro s' hs'
    rw [List.mem_append, List.mem_singleton] at hs'
    rcases hs' with hs' | rfl
    · exact StopNumbers.le_trans (hprevious s' hs' s List.mem_cons_self) hs.1
    · exact hs.1
  · -- a later stop that is reached would sit at the position as well
    intro s' hs' hle
    exact hafter s' hs' ⟨hle, StopNumbers.le_trans hs.2 (hnext s' hs')⟩

/-- Behind the first stop, the last stop at a position has the say. -/
theorem colorAt_of_lastAt (hg : InOrder g) (hhead : g.stops.head? = some first)
    (hfirst : ¬p ≤ first.position) (h : g.LastAt p s) : g.colorAt p = .ok s.color := by
  obtain ⟨before, after, hstops, hs, hafter⟩ := h
  obtain ⟨hreached, hahead⟩ := reached_of_lastAt hg hstops hs hafter
  cases after with
  | nil =>
    have hlast : g.stops.getLast? = some s := by rw [hstops, List.getLast?_concat]
    exact colorAt_of_not_le hhead hlast hfirst hs.1
  | cons b rest =>
    have hunit : ∀ s' ∈ s :: b :: rest, InUnit s'.position := fun s' hs' =>
      hg.inUnit s' (hstops ▸ List.mem_append_right _ hs')
    rw [colorAt_of_split hhead hfirst hstops hreached hahead]
    exact congrArg _ (StopNumbers.between_self (hunit s List.mem_cons_self)
      (hunit b (List.mem_cons_of_mem _ List.mem_cons_self)) hs (hahead b List.mem_cons_self))

/-- **At a position with stops a gradient shows the last of them**, unless the position is the
    first: there it shows the first stop of all. -/
theorem showsLast_ofStops {angle : α} {stops : List (ColorStop α)}
    (h : ∃ s ∈ (ofStops angle stops).stops, s.IsAt p) :
    ∃ first s, ShowsLast (ofStops angle stops) p first s := by
  obtain ⟨s, hs⟩ := exists_lastAt h
  obtain ⟨at', hmem, -⟩ := h
  have hhead := List.head?_eq_some_head (List.ne_nil_of_mem hmem)
  refine ⟨_, s, hhead, hs, ?_⟩
  split
  · rename_i hfirst
    exact colorAt_of_le hhead hfirst
  · rename_i hfirst
    exact colorAt_of_lastAt (inOrder_ofStops angle stops) hhead hfirst hs

end Shown

end Gradient

/-! ## 3. Doubles -/

theorem InUnit.isBelow {x : Float} (h : InUnit x) : Double.IsBelow 1 x :=
  Double.isBelow_of_le_one (Double.le_trans (by decide +kernel) h.1) h.2

/-- A share of zero, of either sign, leaves a channel. -/
theorem mixChannel_isZero {share : Float} (h : Double.IsZero share) (a b : UInt8) :
    mixChannel share a b = a := by
  have hbyte : ∀ c : UInt8, c.toNat < 2 ^ 8 := UInt8.toNat_lt
  have ha := hbyte a
  have hb := hbyte b
  have hchange : Double.IsZero ((((b.toNat : Nat) : Float) - ((a.toNat : Nat) : Float)) * share) :=
    Double.isZero_mul ((Double.isBelow_natCast (by omega)).sub
      (Double.isBelow_natCast (by omega)) (by decide)) h
  unfold mixChannel
  simp only
  rw [Double.natCast_add_isZero (by omega) hchange]
  exact nearestByte_of_iff fun n hn hn' =>
    Double.natCast_sub_half_le_iff hn (by omega) (by omega)

theorem mixColor_isZero {share : Float} (h : Double.IsZero share) (a b : Rgba) :
    mixColor share a b = a := by
  unfold mixColor
  simp only [mixChannel_isZero h]

/-- **The way from one stop to another starts with the colour of the first**, as there is a distance
    between them. -/
theorem between_isAt {a b : ColorStop Float} {t : Float} (ha : InUnit a.position)
    (hb : InUnit b.position) (hat : a.IsAt t) (hne : ¬b.position ≤ t) :
    Gradient.between a b t = a.color := by
  have hlt : a.position < b.position :=
    (Double.lt_iff_not_le ha.isNaN hb.isNaN).mpr fun hle => hne (Double.le_trans hle hat.1)
  have hgap := Double.sub_pos hlt
  have ht : InUnit t := ⟨Double.le_trans ha.1 hat.1, Double.le_trans hat.2 ha.2⟩
  unfold Gradient.between
  simp only
  rw [if_pos hgap]
  exact mixColor_isZero (Double.isZero_div (Double.isZero_sub ht.isBelow hat.2 hat.1) hgap) _ _

instance stopNumbersFloat : StopNumbers Float where
  le_trans := Double.le_trans
  totalLe_trans hab hbc :=
    decide_eq_true (Int.le_trans (of_decide_eq_true hab) (of_decide_eq_true hbc))
  totalLe_total a b := by
    rw [Bool.or_eq_true]
    exact (Int.le_total (floatRank a) (floatRank b)).imp decide_eq_true decide_eq_true
  inUnit := inUnit_unitPosition
  le_of_totalLe ha hb h := Double.le_of_rank_le ha.isNaN hb.isNaN (of_decide_eq_true h)
  between_self := between_isAt

/-! ## 4. Exact numbers -/

open Extended

section Exact

variable {K : Type} [Field K] [LinearOrder K]

theorem InUnit.eq_finite {x : Extended K} (h : InUnit x) : ∃ y, x = finite y :=
  eq_finite_of_le_of_le h.1 h.2

/-- In exact arithmetic a stop at a position has that position. -/
theorem ColorStop.IsAt.eq_finite {s : ColorStop (Extended K)} {p : Extended K}
    (hs : InUnit s.position) (h : s.IsAt p) : ∃ x, s.position = finite x ∧ p = finite x := by
  obtain ⟨x, hx⟩ := hs.eq_finite
  obtain ⟨hle, hge⟩ := h
  rw [hx] at hle hge
  obtain ⟨z, rfl⟩ := eq_finite_of_le_of_le hle hge
  exact ⟨x, hx, congrArg finite (le_antisymm (finite_le.mp hge) (finite_le.mp hle))⟩

variable [IsStrictOrderedRing K]

instance stopNumbersExtended [Numeric K] : StopNumbers (Extended K) where
  le_trans := Extended.le_trans
  totalLe_trans := Extended.totalLe_trans
  totalLe_total := Extended.totalLe_total
  inUnit t := by
    obtain ⟨x, hzero, hone, hx⟩ := unitPosition_eq_finite t
    rw [hx]
    refine ⟨?_, ?_⟩
    · rw [natCast_eq, Nat.cast_zero]
      exact finite_le.mpr hzero
    · rw [natCast_eq, Nat.cast_one]
      exact finite_le.mpr hone
  le_of_totalLe ha hb h := ⟨ha.1.2.1, hb.1.2.1, of_decide_eq_true h⟩
  between_self {a b t} ha hb hat hne := by
    obtain ⟨x, hx, rfl⟩ := hat.eq_finite ha
    obtain ⟨y, hy⟩ := hb.eq_finite
    rw [hy, finite_le, not_le] at hne
    exact Gradient.between_self hx hy hne

namespace Gradient

/-- Right behind the position the gradient has this colour. -/
def Behind (g : Gradient (Extended K)) (p : Extended K) (c : Rgba) : Prop :=
  ∃ q, p < q ∧ ∀ t, p < t → t < q → g.colorAt t = .ok c

/-- The colour at the position is the one right behind it. Channels are whole numbers, and so coming
    close to a colour is having it. -/
def ContinuousFromRight (g : Gradient (Extended K)) (p : Extended K) : Prop :=
  ∃ c, g.colorAt p = .ok c ∧ g.Behind p c

variable {g : Gradient (Extended K)} {p : Extended K} {a b first s : ColorStop (Extended K)}

/-- A position so little behind a stop that no channel has moved. -/
theorem between_small {x y z : K} (ha : a.position = finite x) (hb : b.position = finite y)
    (hxz : x ≤ z) (hxy : x < y) (hz : z < x + (y - x) / 512) :
    between a b (finite z) = a.color := by
  have hgap : 0 < y - x := sub_pos.mpr hxy
  rw [between_finite ha hb hxy]
  refine mixColor_small (div_nonneg (sub_nonneg.mpr hxz) hgap.le) ?_ _ _
  have hshare : (z - x) / (y - x) < 1 / 512 := by
    rw [div_lt_div_iff₀ hgap (by norm_num)]
    linarith
  linarith

/-- Behind the last stop of all there is its colour. -/
theorem behind_end {x : K} (hhead : g.stops.head? = some first) (hlast : g.stops.getLast? = some s)
    (hfirst : first.position ≤ finite x) (hs : s.position ≤ finite x) :
    g.Behind (finite x) s.color := by
  refine ⟨finite (x + 1), finite_lt.mpr (lt_add_one x), fun t ht _ => ?_⟩
  exact colorAt_of_not_le hhead hlast (not_le_of_lt (Extended.lt_of_le_of_lt hfirst ht))
    (Extended.le_trans hs (Extended.le_of_lt ht))

/-- Behind another stop its colour is mixed with that of the next, but for a while too little to be
    seen. -/
theorem behind_split {before after : List (ColorStop (Extended K))} {x y : K}
    (hhead : g.stops.head? = some first) (hstops : g.stops = before ++ a :: b :: after)
    (hreached : ∀ s ∈ before ++ [a], s.position ≤ finite x)
    (hahead : ∀ s ∈ after, b.position ≤ s.position) (ha : a.position = finite x)
    (hb : b.position = finite y) (hxy : x < y) (hfirst : first.position ≤ finite x) :
    g.Behind (finite x) a.color := by
  refine ⟨finite (x + (y - x) / 512), finite_lt.mpr (by linarith), fun t ht hlt => ?_⟩
  obtain ⟨z, rfl⟩ := eq_finite_of_le_of_le (Extended.le_of_lt ht) (Extended.le_of_lt hlt)
  have hz := finite_lt.mp hlt
  have hnext : ¬b.position ≤ finite z := by
    rw [hb, finite_le, not_le]
    linarith
  have hahead' : ∀ s ∈ b :: after, ¬s.position ≤ finite z := by
    intro s hs
    rcases List.mem_cons.mp hs with rfl | hs
    · exact hnext
    · exact fun hle => hnext (Extended.le_trans (hahead s hs) hle)
  rw [colorAt_of_split hhead (not_le_of_lt (Extended.lt_of_le_of_lt hfirst ht)) hstops
    (fun s hs => Extended.le_trans (hreached s hs) (Extended.le_of_lt ht)) hahead']
  exact congrArg _ (between_small ha hb (finite_lt.mp ht).le hxy hz)

/-- Room is left behind a number up to whatever is behind it. -/
theorem exists_finite_le {x : K} {q : Extended K} (h : finite x < q) :
    ∃ y, x < y ∧ finite y ≤ q := by
  cases q with
  | nan => exact absurd rfl (ne_nan_of_lt h).2
  | finite y => exact ⟨y, finite_lt.mp h, finite_le.mpr le_rfl⟩
  | infinite negative =>
    cases negative with
    | true => exact absurd h.2.2 (by simp [rank, Prod.Lex.toLex_lt_toLex])
    | false =>
      exact ⟨x + 1, lt_add_one x, rfl, rfl, by simp [rank, Prod.Lex.toLex_le_toLex]⟩

/-- There is one colour right behind a position. -/
theorem Behind.eq {x : K} {c c' : Rgba} (h : g.Behind (finite x) c) (h' : g.Behind (finite x) c') :
    c = c' := by
  obtain ⟨q, hq, hc⟩ := h
  obtain ⟨q', hq', hc'⟩ := h'
  obtain ⟨y, hy, hle⟩ := exists_finite_le hq
  obtain ⟨y', hy', hle'⟩ := exists_finite_le hq'
  obtain ⟨z, hz, hmin⟩ := exists_between (lt_min hy hy')
  obtain ⟨hzy, hzy'⟩ := lt_min_iff.mp hmin
  have hz' := hc (finite z) (finite_lt.mpr hz) (Extended.lt_of_lt_of_le (finite_lt.mpr hzy) hle)
  rw [hc' (finite z) (finite_lt.mpr hz) (Extended.lt_of_lt_of_le (finite_lt.mpr hzy') hle')] at hz'
  exact (Except.ok.inj hz').symm

variable [Numeric K]

/-- **Right behind a position with stops there is the colour of the last of them.** -/
theorem behind_lastAt (hg : InOrder g) (hhead : g.stops.head? = some first) (h : g.LastAt p s) :
    first.position ≤ p ∧ g.Behind p s.color := by
  obtain ⟨before, after, hstops, hs, hafter⟩ := h
  obtain ⟨hreached, hahead⟩ := reached_of_lastAt hg hstops hs hafter
  have hunit : ∀ s' ∈ s :: after, InUnit s'.position := fun s' hs' =>
    hg.inUnit s' (hstops ▸ List.mem_append_right _ hs')
  obtain ⟨x, hx, rfl⟩ := hs.eq_finite (hunit s List.mem_cons_self)
  have hfirst : first.position ≤ finite x := by
    refine hreached first (List.mem_of_mem_head? ?_)
    rw [hstops, List.append_cons, List.head?_append_of_ne_nil _ (by simp)] at hhead
    exact hhead
  refine ⟨hfirst, ?_⟩
  cases after with
  | nil => exact behind_end hhead (by rw [hstops, List.getLast?_concat]) hfirst hs.1
  | cons b rest =>
    have hordered := hg.ordered
    rw [hstops, List.pairwise_append, List.pairwise_cons, List.pairwise_cons] at hordered
    obtain ⟨y, hy⟩ := (hunit b (List.mem_cons_of_mem _ List.mem_cons_self)).eq_finite
    have hxy := hahead b List.mem_cons_self
    rw [hy, finite_le, not_le] at hxy
    exact behind_split hhead hstops hreached hordered.2.1.2.1 hx hy hxy hfirst

/-- A gradient goes on behind stops as it is at them, unless they are at the first position and
    begin with another colour than they end with. -/
theorem continuousFromRight_iff (hg : InOrder g) (h : ShowsLast g p first s) :
    g.ContinuousFromRight p ↔ first.position < p ∨ first.color = s.color := by
  obtain ⟨hfirst, hbehind⟩ := behind_lastAt hg h.head h.last
  have hcolor := h.color
  obtain ⟨x, -, rfl⟩ : ∃ x, s.position = finite x ∧ p = finite x := by
    obtain ⟨before, after, hstops, hs, -⟩ := h.last
    exact hs.eq_finite (hg.inUnit s (hstops ▸ List.mem_append_right _ List.mem_cons_self))
  constructor
  · rintro ⟨c, hc, hbehind'⟩
    obtain rfl := hbehind.eq hbehind'
    by_cases hle : finite x ≤ first.position
    · rw [if_pos hle, hc] at hcolor
      exact .inr (Except.ok.inj hcolor).symm
    · exact .inl ((not_le_iff finite_ne_nan (ne_nan_of_le hfirst).1).mp hle)
  · intro hlast
    refine ⟨s.color, hcolor.trans ?_, hbehind⟩
    rcases hlast with hlt | heq
    · rw [if_neg (not_le_of_lt hlt)]
    · rw [heq, ite_self]

/-! ## 5. Every position with stops -/

/-- **At every position with stops a gradient shows the last of them**, but at the first position it
    shows the first: in doubles, and in exact arithmetic, where it goes on from the last of them in
    any case. -/
theorem colorAt_stops :
    (∀ (angle : Float) (stops : List (ColorStop Float)) (p : Float),
      (∃ s ∈ (ofStops angle stops).stops, s.IsAt p) →
        ∃ first s, ShowsLast (ofStops angle stops) p first s) ∧
    ∀ (angle : Extended K) (stops : List (ColorStop (Extended K))) (p : Extended K),
      (∃ s ∈ (ofStops angle stops).stops, s.IsAt p) →
        ∃ first s, ShowsLast (ofStops angle stops) p first s ∧
          (ofStops angle stops).Behind p s.color ∧
          ((ofStops angle stops).ContinuousFromRight p ↔
            first.position < p ∨ first.color = s.color) := by
  refine ⟨fun angle stops p h => showsLast_ofStops h, fun angle stops p h => ?_⟩
  obtain ⟨first, s, hshows⟩ := showsLast_ofStops h
  have hg := inOrder_ofStops angle stops
  exact ⟨first, s, hshows, (behind_lastAt hg hshows.head hshows.last).2,
    continuousFromRight_iff hg hshows⟩

end Gradient

end Exact

namespace Gradient

/-- A jump from black to white half way, between a red stop and a blue one: white counts, and the
    gradient goes on from it. -/
theorem colorAt_stops_jump :
    let stops : List (ColorStop Float) := [⟨0, ⟨255, 0, 0, 255⟩⟩, ⟨0.5, Rgba.black⟩,
      ⟨0.5, Rgba.white⟩, ⟨1, ⟨0, 0, 255, 255⟩⟩]
    let exact : List (ColorStop (Extended ℚ)) := [⟨finite 0, ⟨255, 0, 0, 255⟩⟩,
      ⟨finite (1 / 2), Rgba.black⟩, ⟨finite (1 / 2), Rgba.white⟩, ⟨finite 1, ⟨0, 0, 255, 255⟩⟩]
    (ofStops 0 stops).colorAt 0.5 = .ok Rgba.white ∧
      (ofStops (finite 0) exact).colorAt (finite (1 / 2)) = .ok Rgba.white ∧
      (ofStops (finite 0) exact).Behind (finite (1 / 2)) Rgba.white ∧
      (ofStops (finite 0) exact).ContinuousFromRight (finite (1 / 2)) := by
  intro stops exact
  constructor
  · have hstops : (ofStops 0 stops).stops = stops.map unitStop :=
      List.mergeSort_of_pairwise (by decide +kernel)
    have hwhite : (ofStops 0 stops).LastAt 0.5 (unitStop ⟨0.5, Rgba.white⟩) := by
      refine ⟨[_, _], [_], hstops, ⟨by decide +kernel, by decide +kernel⟩, fun s hs => ?_⟩
      obtain rfl := List.mem_singleton.mp hs
      exact fun h => absurd h.1 (by decide +kernel)
    obtain ⟨first, s, hshows⟩ := colorAt_stops (K := ℚ).1 0 stops 0.5
      ⟨_, hwhite.mem, hwhite.isAt⟩
    have hhead := hshows.head
    rw [hstops] at hhead
    obtain rfl := Option.some.inj hhead
    obtain rfl := hwhite.eq hshows.last
    rw [hshows.color, if_neg (by decide +kernel)]
    rfl
  · have hle : ∀ {x y : ℚ}, x ≤ y → finite x ≤ finite y := finite_le.mpr
    have hstops : (ofStops (finite 0) exact).stops = exact := by
      refine stops_ofStops ?_ ?_
      · simp only [exact, List.forall_mem_cons, finite_le]
        norm_num
      · simp only [exact, List.pairwise_cons, List.forall_mem_cons, finite_le]
        norm_num
    have hwhite : (ofStops (finite 0) exact).LastAt (finite (1 / 2))
        ⟨finite (1 / 2), Rgba.white⟩ := by
      refine ⟨[_, _], [_], hstops, ⟨hle le_rfl, hle le_rfl⟩, fun s hs => ?_⟩
      obtain rfl := List.mem_singleton.mp hs
      exact fun h => absurd (finite_le.mp h.1) (by norm_num)
    obtain ⟨first, s, hshows, hbehind, hcontinuous⟩ := colorAt_stops.2 (finite 0) exact _
      ⟨_, hwhite.mem, hwhite.isAt⟩
    have hhead := hshows.head
    rw [hstops] at hhead
    obtain rfl := Option.some.inj hhead
    obtain rfl := hwhite.eq hshows.last
    have hpast : finite (0 : ℚ) < finite (1 / 2) := finite_lt.mpr (by norm_num)
    refine ⟨?_, hbehind, hcontinuous.mpr (.inl hpast)⟩
    rw [hshows.color, if_neg (not_le_of_lt hpast)]

/-- At the first position the last of two stops does not count. -/
theorem last_missing_at_start :
    let g := ofStops (0 : Float)
      [⟨0, ⟨255, 0, 0, 255⟩⟩, ⟨0, ⟨0, 255, 0, 255⟩⟩, ⟨1, ⟨0, 0, 255, 255⟩⟩]
    ∃ last, g.LastAt 0 last ∧ g.colorAt 0 ≠ .ok last.color := by
  intro g
  have hstops : g.stops = [unitStop ⟨0, ⟨255, 0, 0, 255⟩⟩, unitStop ⟨0, ⟨0, 255, 0, 255⟩⟩,
      unitStop ⟨1, ⟨0, 0, 255, 255⟩⟩] :=
    List.mergeSort_of_pairwise (by decide +kernel)
  refine ⟨unitStop ⟨0, ⟨0, 255, 0, 255⟩⟩, ⟨[_], [_], hstops, ?_, ?_⟩, ?_⟩
  · exact ⟨by decide +kernel, by decide +kernel⟩
  · intro s hs
    obtain rfl := List.mem_singleton.mp hs
    exact fun h => absurd h.1 (by decide +kernel)
  · rw [colorAt_of_le (by rw [hstops]; rfl) (by decide +kernel)]
    decide

end Gradient

end QrRender
