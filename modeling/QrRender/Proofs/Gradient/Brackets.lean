import Mathlib.Data.List.TakeWhile
import QrRender.Gradient
import QrRender.Proofs.Numeric.Double

/-!
# Reading a gradient

The colour at a position is that of the first stop, that of the last stop, or lies between two stops
that bracket the position. There are two such stops as soon as every stop compares with the
position: the first one is then at or before it, the last one is not, and somewhere in the list the
one turns into the other. That the stops are in order does not matter for this.

Doubles compare unless one of them is no number. Stops have numbers for positions, whatever they
were given, so a gradient of doubles is read at every position that is a number, and at no other.

* `InUnit`, `inUnit_unitPosition`: positions in range;
* `Gradient.colorAt_isOk`: stops that compare with a position bracket it;
* `Gradient.colorAt_noBracket`: stops that do not compare with it do not;
* `Gradient.colorAt_of_le`, `Gradient.colorAt_of_not_le`, `Gradient.colorAt_of_split`: the three
  ways of reading a colour;
* `Gradient.pairwise_ofStops`: stops are in order;
* `Gradient.isNaN_position_ofStops`: the positions of stops are numbers;
* `Gradient.colorAt_of_isNaN`: what is no number is no position;
* **`Gradient.colorAt_isOk_iff`**: which positions of a gradient can be read.
-/

namespace QrRender

/-! ## 1. Positions in range -/

/-- The number is from zero to one. -/
def InUnit {α : Type} [NatCast α] [LE α] (x : α) : Prop :=
  ((0 : Nat) : α) ≤ x ∧ x ≤ ((1 : Nat) : α)

theorem InUnit.isNaN {x : Float} (h : InUnit x) : x.isNaN = false :=
  (Double.isNaN_eq_false_of_le h.1).2

/-- Every position is brought into range. -/
theorem inUnit_unitPosition (t : Float) : InUnit (unitPosition t) := by
  have hzero : InUnit ((0 : Nat) : Float) := ⟨by decide +kernel, by decide +kernel⟩
  have hone : InUnit ((1 : Nat) : Float) := ⟨by decide +kernel, by decide +kernel⟩
  unfold unitPosition
  simp only
  split
  · exact hzero
  split
  · exact hone
  split
  · rename_i hnotlt _ hle
    exact ⟨Double.le_of_not_lt (Double.isNaN_eq_false_of_le hle).1 rfl hnotlt, hle⟩
  · exact hzero

namespace Gradient

/-! ## 2. Brackets -/

section Brackets

variable {α : Type} [Add α] [Sub α] [Mul α] [Div α] [NatCast α] [LT α] [DecidableLT α]
  [LE α] [DecidableLE α] {g : Gradient α} {t : α}

/-- **Stops that compare with a position bracket it**, or it is not between the first and the
    last. -/
theorem colorAt_isOk (h : ∀ s ∈ g.stops, s.position ≤ t ∨ t ≤ s.position) :
    ∃ c, g.colorAt t = .ok c := by
  unfold colorAt
  cases hfirst : g.stops.head? with
  | none => exact ⟨_, rfl⟩
  | some first =>
    cases hlast : g.stops.getLast? with
    | none => exact ⟨_, rfl⟩
    | some last =>
      simp only
      by_cases hbefore : t ≤ first.position
      · exact ⟨_, if_pos hbefore⟩
      by_cases hafter : last.position ≤ t
      · exact ⟨_, (if_neg hbefore).trans (if_pos hafter)⟩
      rw [if_neg hbefore, if_neg hafter]
      have hreached : first.position ≤ t :=
        (h first (List.mem_of_mem_head? hfirst)).resolve_right hbefore
      -- the first stop is reached and the last is not, so neither part of the list is empty
      have htake : (g.stops.takeWhile fun s => decide (s.position ≤ t)) ≠ [] := by
        obtain ⟨rest, hrest⟩ := List.head?_eq_some_iff.mp hfirst
        rw [hrest, List.takeWhile_cons, if_pos (decide_eq_true hreached)]
        exact List.cons_ne_nil _ _
      have hdrop : (g.stops.dropWhile fun s => decide (s.position ≤ t)) ≠ [] := by
        intro hnil
        exact hafter (of_decide_eq_true
          (List.dropWhile_eq_nil_iff.mp hnil last (List.mem_of_getLast? hlast)))
      rw [List.getLast?_eq_some_getLast htake, List.head?_eq_some_head hdrop]
      exact ⟨_, rfl⟩

/-- Stops that do not compare with a position do not bracket it, and it is neither before the first
    nor after the last. -/
theorem colorAt_noBracket (hne : g.isEmpty = false)
    (h : ∀ s ∈ g.stops, ¬ s.position ≤ t ∧ ¬ t ≤ s.position) :
    g.colorAt t = .error .noBracket := by
  obtain ⟨first, rest, hstops⟩ : ∃ first rest, g.stops = first :: rest :=
    List.exists_cons_of_ne_nil (List.isEmpty_eq_false_iff.mp hne)
  obtain ⟨last, hlast⟩ : ∃ last, g.stops.getLast? = some last :=
    ⟨_, List.getLast?_eq_some_getLast (List.isEmpty_eq_false_iff.mp hne)⟩
  have hfirst : first ∈ g.stops := hstops ▸ List.mem_cons_self
  have htake : (g.stops.takeWhile fun s => decide (s.position ≤ t)) = [] := by
    rw [hstops, List.takeWhile_cons, if_neg]
    simpa using (h first hfirst).1
  have hhead : g.stops.head? = some first := by rw [hstops, List.head?_cons]
  unfold colorAt
  simp only [hhead, hlast, htake]
  rw [if_neg (h first hfirst).2, if_neg (h last (List.mem_of_getLast? hlast)).1]
  rfl

variable {a b first last : ColorStop α}

/-- At or before the first stop the colour is that of the first. -/
theorem colorAt_of_le (hhead : g.stops.head? = some first) (ht : t ≤ first.position) :
    g.colorAt t = .ok first.color := by
  have hne : g.stops ≠ [] := List.ne_nil_of_mem (List.mem_of_mem_head? hhead)
  unfold colorAt
  simp only [hhead, List.getLast?_eq_some_getLast hne]
  exact if_pos ht

/-- Behind the first stop and from the last on it is that of the last. -/
theorem colorAt_of_not_le (hhead : g.stops.head? = some first)
    (hlast : g.stops.getLast? = some last) (hfirst : ¬t ≤ first.position)
    (ht : last.position ≤ t) : g.colorAt t = .ok last.color := by
  unfold colorAt
  simp only [hhead, hlast]
  exact (if_neg hfirst).trans (if_pos ht)

/-- **Where the stops split in two**, those reached and those not, the colour is that between the
    last of the ones and the first of the others. -/
theorem colorAt_of_split {before after : List (ColorStop α)} (hhead : g.stops.head? = some first)
    (hfirst : ¬t ≤ first.position) (hstops : g.stops = before ++ a :: b :: after)
    (hreached : ∀ s ∈ before ++ [a], s.position ≤ t) (hahead : ∀ s ∈ b :: after, ¬s.position ≤ t) :
    g.colorAt t = .ok (between a b t) := by
  have hbefore : ∀ s ∈ before ++ [a], decide (s.position ≤ t) = true :=
    fun s hs => decide_eq_true (hreached s hs)
  have hb : ¬decide (b.position ≤ t) = true := fun hle =>
    hahead b List.mem_cons_self (of_decide_eq_true hle)
  have hsplit : g.stops = (before ++ [a]) ++ b :: after := by
    rw [hstops, List.append_assoc, List.singleton_append]
  obtain ⟨last, hlast⟩ : ∃ last, (b :: after).getLast? = some last :=
    ⟨_, List.getLast?_eq_some_getLast (List.cons_ne_nil _ _)⟩
  have hend : g.stops.getLast? = some last := by
    rw [hsplit, List.getLast?_append, hlast]
    rfl
  unfold colorAt
  simp only [hhead, hend]
  rw [if_neg hfirst, if_neg (hahead last (List.mem_of_getLast? hlast)), hsplit,
    List.takeWhile_append_of_pos hbefore, List.dropWhile_append_of_pos hbefore,
    List.takeWhile_cons, if_neg hb, List.dropWhile_cons, if_neg hb, List.append_nil,
    List.getLast?_concat, List.head?_cons]

end Brackets

/-! ## 3. Stops -/

section Stops

variable {α : Type} [NatCast α] [LT α] [DecidableLT α] [LE α] [DecidableLE α] [Numeric α]
  {angle : α} {stops : List (ColorStop α)}

/-- The stops of a gradient are those given, with their positions in range. -/
theorem mem_ofStops {s : ColorStop α} :
    s ∈ (ofStops angle stops).stops ↔ ∃ given ∈ stops, unitStop given = s :=
  List.mem_mergeSort.trans List.mem_map

/-- If the total order is one, and positions in range that are in it compare, the stops are in
    order. -/
theorem pairwise_ofStops
    (htrans : ∀ a b c : α, Numeric.totalLe a b = true → Numeric.totalLe b c = true →
      Numeric.totalLe a c = true)
    (htotal : ∀ a b : α, (Numeric.totalLe a b || Numeric.totalLe b a) = true)
    (hle : ∀ a b : α, Numeric.totalLe (unitPosition a) (unitPosition b) = true →
      unitPosition a ≤ unitPosition b) :
    (ofStops angle stops).stops.Pairwise fun s s' => s.position ≤ s'.position := by
  have hsorted : (ofStops angle stops).stops.Pairwise fun s s' =>
      Numeric.totalLe s.position s'.position = true :=
    List.pairwise_mergeSort (fun a b c => htrans a.position b.position c.position)
      (fun a b => htotal a.position b.position) _
  refine hsorted.imp_of_mem fun {s s'} hs hs' hrank => ?_
  obtain ⟨given, -, rfl⟩ := mem_ofStops.mp hs
  obtain ⟨given', -, rfl⟩ := mem_ofStops.mp hs'
  exact hle given.position given'.position hrank

end Stops

/-- The positions of stops are numbers, whatever they were given as. -/
theorem isNaN_position_ofStops [Numeric Float] {angle : Float} {stops : List (ColorStop Float)} :
    ∀ s ∈ (ofStops angle stops).stops, s.position.isNaN = false := by
  intro s hs
  obtain ⟨given, -, rfl⟩ := mem_ofStops.mp hs
  exact (inUnit_unitPosition given.position).isNaN

/-- As many stops are kept as are given. -/
theorem isEmpty_ofStops [Numeric Float] (angle : Float) (stops : List (ColorStop Float)) :
    (ofStops angle stops).isEmpty = stops.isEmpty := by
  unfold isEmpty ofStops
  rw [Bool.eq_iff_iff, List.isEmpty_iff_length_eq_zero, List.isEmpty_iff_length_eq_zero,
    List.length_mergeSort, List.length_map]

/-! ## 4. Positions -/

/-- What is no number compares with no stop. -/
theorem colorAt_of_isNaN {g : Gradient Float} (hne : g.isEmpty = false) {t : Float}
    (ht : t.isNaN = true) : g.colorAt t = .error .noBracket := by
  refine colorAt_noBracket hne fun s _ => ⟨?_, ?_⟩
  · intro h
    exact Bool.eq_false_iff.mp (Double.isNaN_eq_false_of_le h).2 ht
  · intro h
    exact Bool.eq_false_iff.mp (Double.isNaN_eq_false_of_le h).1 ht

/-- **A gradient with a stop can be read at a position exactly if the position is a number.** -/
theorem colorAt_isOk_iff {g : Gradient Float} (hne : g.isEmpty = false)
    (hstops : ∀ s ∈ g.stops, s.position.isNaN = false) {t : Float} :
    (∃ c, g.colorAt t = .ok c) ↔ t.isNaN = false := by
  constructor
  · intro ⟨c, hc⟩
    rw [Bool.eq_false_iff]
    intro ht
    rw [colorAt_of_isNaN hne ht] at hc
    cases hc
  · intro ht
    exact colorAt_isOk fun s hs => Double.le_or_le (hstops s hs) ht

end Gradient

end QrRender
