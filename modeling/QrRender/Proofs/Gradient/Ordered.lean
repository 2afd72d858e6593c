import Mathlib.Data.List.Nodup
import QrRender.Proofs.Gradient.HardStops
import QrRender.Proofs.Numeric.Order

/-!
# Stops in order

Stops can be given in any order and at any positions. A gradient keeps them all, each at a position
in range: a position that is no number becomes zero, and any other is clamped. They are sorted by
the total order of their positions, and sorting moves nothing past its equal, so stops at one
position stay in the order in which they were given.

Once in range and in order, stops are kept as they are. And where no two of them are at one position
the order leaves no choice, so that it does not matter in which order they were given.

* `filter_mergeSort`, `mergeSort_eq_of_perm`: sorting by keys;
* `clamp`, `ColorStop.inRange`, `Gradient.unitStop_eq`: the positions;
* `Gradient.unitPosition_of_inUnit`, `Gradient.stops_ofStops_stops`: stops of a gradient, given
  again;
* `Gradient.ofStops_eq_of_perm`: stops in another order;
* **`Gradient.stops_in_order`**: which stops a gradient keeps, and in which order.
-/

namespace QrRender

/-! ## 1. Sorting by keys -/

section Sorting

variable {β κ : Type} {le : β → β → Bool} {key : β → κ} {l l' : List β}

/-- Sorting keeps the entries of one key in their order. -/
theorem filter_mergeSort [DecidableEq κ]
    (htrans : ∀ a b c, le a b = true → le b c = true → le a c = true)
    (htotal : ∀ a b, (le a b || le b a) = true)
    (hkey : ∀ a b, key a = key b → le a b = true) (k : κ) :
    (l.mergeSort le).filter (fun a => key a = k) = l.filter (fun a => key a = k) := by
  have hsorted : (l.filter fun a => key a = k).Pairwise fun a b => le a b = true := by
    refine List.pairwise_of_forall_mem_list fun a ha b hb => hkey a b ?_
    have ha := of_decide_eq_true (List.mem_filter.mp ha).2
    have hb := of_decide_eq_true (List.mem_filter.mp hb).2
    exact ha.trans hb.symm
  -- they are in order among themselves, so that sorting leaves them as a sublist
  have hsub := (List.sublist_mergeSort htrans htotal hsorted List.filter_sublist).filter
    fun a => key a = k
  rw [List.filter_filter] at hsub
  simp only [Bool.and_self] at hsub
  exact (hsub.eq_of_length ((List.mergeSort_perm l le).filter _).length_eq.symm).symm

/-- Entries of different keys are sorted in one way. -/
theorem mergeSort_eq_of_perm (htrans : ∀ a b c, le a b = true → le b c = true → le a c = true)
    (htotal : ∀ a b, (le a b || le b a) = true)
    (hantisymm : ∀ a b, le a b = true → le b a = true → key a = key b) (hl : l.Perm l')
    (hkeys : (l.map key).Nodup) : l.mergeSort le = l'.mergeSort le := by
  have hperm : (l.mergeSort le).Perm (l'.mergeSort le) :=
    (List.mergeSort_perm l le).trans (hl.trans (List.mergeSort_perm l' le).symm)
  refine hperm.eq_of_pairwise (fun a b ha hb hab hba => ?_)
    (List.pairwise_mergeSort htrans htotal l) (List.pairwise_mergeSort htrans htotal l')
  rw [List.mem_mergeSort] at ha hb
  exact List.inj_on_of_nodup_map hkeys ha (hl.mem_iff.mpr hb) (hantisymm a b hab hba)

end Sorting

/-! ## 2. Positions -/

/-- The number in range that is nearest. -/
def clamp (t : Float) : Float :=
  if t < ((0 : Nat) : Float) then ((0 : Nat) : Float)
  else if ((1 : Nat) : Float) < t then ((1 : Nat) : Float)
  else t

/-- The stop with its position clamped, or at zero if the position is no number. -/
def ColorStop.inRange (s : ColorStop Float) : ColorStop Float :=
  { s with position := if s.position.isNaN then ((0 : Nat) : Float) else clamp s.position }

namespace Gradient

/-- A position is clamped if it is a number. -/
theorem unitPosition_eq (t : Float) :
    unitPosition t = if t.isNaN then ((0 : Nat) : Float) else clamp t := by
  unfold unitPosition clamp
  simp only
  by_cases ht : t.isNaN = true
  · -- what is no number fails all three comparisons
    have hbelow : ¬t < ((0 : Nat) : Float) := fun h =>
      Bool.eq_false_iff.mp (Double.isNaN_eq_false_of_lt h).1 ht
    have habove : ¬((1 : Nat) : Float) < t := fun h =>
      Bool.eq_false_iff.mp (Double.isNaN_eq_false_of_lt h).2 ht
    have hinside : ¬t ≤ ((1 : Nat) : Float) := fun h =>
      Bool.eq_false_iff.mp (Double.isNaN_eq_false_of_le h).1 ht
    rw [if_neg hbelow, if_neg habove, if_neg hinside, if_pos ht]
  · rw [if_neg ht]
    have ht : t.isNaN = false := Bool.eq_false_iff.mpr ht
    split
    · rfl
    split
    · rfl
    · rename_i habove
      exact if_pos (Double.le_of_not_lt rfl ht habove)

theorem unitStop_eq : (unitStop : ColorStop Float → ColorStop Float) = ColorStop.inRange := by
  funext s
  rw [unitStop, unitPosition_eq]
  rfl

/-- A position in range stays where it is. -/
theorem unitPosition_of_inUnit {t : Float} (ht : InUnit t) : unitPosition t = t := by
  have hbelow : ¬t < ((0 : Nat) : Float) := fun h =>
    (Double.lt_iff_not_le ht.isNaN rfl).mp h ht.1
  have habove : ¬((1 : Nat) : Float) < t := fun h =>
    (Double.lt_iff_not_le rfl ht.isNaN).mp h ht.2
  unfold unitPosition
  simp only
  rw [if_neg hbelow, if_neg habove, if_pos ht.2]

/-! ## 3. Stops -/

variable {angle : Float} {given given' : List (ColorStop Float)}

section

variable (a b c : ColorStop Float)

theorem position_trans (hab : Numeric.totalLe a.position b.position = true)
    (hbc : Numeric.totalLe b.position c.position = true) :
    Numeric.totalLe a.position c.position = true :=
  StopNumbers.totalLe_trans hab hbc

theorem position_total :
    (Numeric.totalLe a.position b.position || Numeric.totalLe b.position a.position) = true :=
  StopNumbers.totalLe_total a.position b.position

theorem position_refl (h : a.position = b.position) :
    Numeric.totalLe a.position b.position = true :=
  decide_eq_true (h ▸ Int.le_refl _)

/-- Different positions have different ranks. -/
theorem position_antisymm (hab : Numeric.totalLe a.position b.position = true)
    (hba : Numeric.totalLe b.position a.position = true) : a.position = b.position :=
  Double.floatRank_inj (Int.le_antisymm (of_decide_eq_true hab) (of_decide_eq_true hba))

end

/-- The stops of a gradient are in order. -/
theorem sorted_ofStops : (ofStops angle given).stops.Pairwise fun s s' =>
    Numeric.totalLe s.position s'.position = true :=
  List.pairwise_mergeSort position_trans position_total _

/-- **Stops of a gradient, given again, are kept as they are.** -/
theorem stops_ofStops_stops (angle' : Float) :
    (ofStops angle' (ofStops angle given).stops).stops = (ofStops angle given).stops := by
  have hunit : (ofStops angle given).stops.map unitStop = (ofStops angle given).stops := by
    refine (List.map_congr_left fun s hs => ?_).trans (List.map_id _)
    rw [unitStop, unitPosition_of_inUnit ((inOrder_ofStops angle given).inUnit s hs)]
    rfl
  rw [ofStops]
  simp only [hunit]
  exact List.mergeSort_of_pairwise sorted_ofStops

/-- **Stops at different positions may be given in any order.** -/
theorem ofStops_eq_of_perm (hperm : given'.Perm given)
    (hdistinct : (given.map fun s => s.inRange.position).Nodup) :
    ofStops angle given' = ofStops angle given := by
  have hkeys : ((given.map unitStop).map ColorStop.position).Nodup := by
    rw [unitStop_eq, List.map_map]
    exact hdistinct
  rw [ofStops, ofStops]
  congr 1
  exact (mergeSort_eq_of_perm position_trans position_total position_antisymm
    (hperm.symm.map unitStop) hkeys).symm

/-- **Which stops a gradient keeps, and in which order.** They are the stops that were given, each
    at a position in range: clamped, or zero if it was no number. They are in the total order of their
    positions, and those at one position in the order in which they were given. Given again, they
    are kept as they are. And where no two positions are the same, the stops may be given in any
    order: the stops that are kept and all colours are the same. -/
theorem stops_in_order (angle : Float) (given : List (ColorStop Float)) :
    (ofStops angle given).stops.Perm (given.map ColorStop.inRange) ∧
      ((ofStops angle given).stops.Pairwise fun s s' =>
        Double.TotalLe s.position s'.position) ∧
      (∀ p : Float, (ofStops angle given).stops.filter (fun s => s.position = p) =
        (given.map ColorStop.inRange).filter fun s => s.position = p) ∧
      (∀ angle', (ofStops angle' (ofStops angle given).stops).stops =
        (ofStops angle given).stops) ∧
      ((given.map fun s => s.inRange.position).Nodup → ∀ given', given'.Perm given →
        (ofStops angle given').stops = (ofStops angle given).stops ∧
          ∀ t, (ofStops angle given').colorAt t = (ofStops angle given).colorAt t) := by
  refine ⟨?_, ?_, fun p => ?_, stops_ofStops_stops, fun hdistinct given' hperm => ?_⟩
  · rw [← unitStop_eq]
    exact List.mergeSort_perm _ _
  · refine sorted_ofStops.imp_of_mem fun hs hs' hrank => ?_
    have hinUnit := (inOrder_ofStops angle given).inUnit
    exact (Double.rank_le_iff (hinUnit _ hs).isNaN (hinUnit _ hs').isNaN).mp
      (of_decide_eq_true hrank)
  · rw [← unitStop_eq]
    exact filter_mergeSort position_trans position_total position_refl p
  · rw [ofStops_eq_of_perm hperm hdistinct]
    exact ⟨rfl, fun _ => rfl⟩

/-- Three different positions: one above the range, one that is no number, and one between. -/
theorem stops_in_order_of_three :
    (ofStops (0 : Float) [⟨3 / 2, .black⟩, ⟨0 / 0, .white⟩, ⟨1 / 2, .transparent⟩].reverse).stops =
        (ofStops (0 : Float) [⟨3 / 2, .black⟩, ⟨0 / 0, .white⟩, ⟨1 / 2, .transparent⟩]).stops ∧
      ∀ t, (ofStops (0 : Float)
          [⟨3 / 2, .black⟩, ⟨0 / 0, .white⟩, ⟨1 / 2, .transparent⟩].reverse).colorAt t =
        (ofStops (0 : Float)
          [⟨3 / 2, .black⟩, ⟨0 / 0, .white⟩, ⟨1 / 2, .transparent⟩]).colorAt t := by
  obtain ⟨-, -, -, -, hany⟩ := stops_in_order (0 : Float)
    [⟨3 / 2, .black⟩, ⟨0 / 0, .white⟩, ⟨1 / 2, .transparent⟩]
  exact hany (by decide +kernel) _ (List.reverse_perm _)

end Gradient

end QrRender
