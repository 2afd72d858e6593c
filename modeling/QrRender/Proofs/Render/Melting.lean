import QrRender.Proofs.Occupancy.Masks
import QrRender.Proofs.Render.Total
import QrRender.Proofs.Shape.Liquid

/-!
# Liquid modules melt

Two dark modules side by side are drawn as one blob: what they share of their blocks, the edge
between them, is a line of both outlines from one end to the other, and no corner at it is rounded.
For this it takes three things that are said elsewhere: which bit of a mask stands for the module
across a side, which corners that bit keeps sharp, and where blocks touch. A module that is hidden
counts as light here, so that its neighbours round off towards it.

* `Side.step`, `Shape.cornerIsFree_iff`: the cells that keep a corner sharp;
* `Renderer.eq_wholeCall`: what a render draws whole, it draws with the mask of its bits;
* `ShapeCall.Joined`: two cells whose outlines share an edge in full;
* `Renderer.Melts`: what corners and edges are like with some modules hidden;
* **`Renderer.liquid_melts`**: liquid modules melt, whichever modules are hidden.
-/

namespace QrRender

/-! ## 1. Cells across a side -/

/-- The step to the cell across a side. -/
def Side.step : Side → Int × Int
  | top => (0, -1)
  | right => (1, 0)
  | bottom => (0, 1)
  | left => (-1, 0)

/-- The corner at the end of a side, counted from the upper left one. -/
def Side.corner : Side → Nat × Nat
  | top => (1, 0)
  | right => (1, 1)
  | bottom => (0, 1)
  | left => (0, 0)

theorem Side.isStep (s : Side) : Neighbours.IsStep s.step.1 s.step.2 := by
  cases s <;> exact ⟨by decide, by decide⟩

theorem Side.mask_eq (s : Side) : s.mask = .bit (Neighbours.place s.step.1 s.step.2) := by
  cases s <;> rfl

theorem Side.step_opposite (s : Side) :
    s.opposite.step.1 = -s.step.1 ∧ s.opposite.step.2 = -s.step.2 := by
  cases s <;> decide

/-- The cell across a side is left of the dark modules. -/
def Grid.RemainsAcross (g : Grid) (hidden : List (Nat × Nat)) (c : GridCell) (s : Side) : Prop :=
  g.Remains hidden (c.column + s.step.1) (c.row + s.step.2)

/-- The masks tell which cells across a side are left. -/
theorem Occupancy.contains_mask {g : Grid} {hidden : List (Nat × Nat)} {o : Occupancy}
    (h : ∀ x y : Int, o.isSet x y = true ↔ g.Remains hidden x y) (c : GridCell) (s : Side) :
    (o.neighbours c.column c.row).contains s.mask = true ↔ g.RemainsAcross hidden c s := by
  rw [s.mask_eq, o.contains_neighbours _ _ s.isStep]
  exact h _ _

/-- A corner is free exactly if neither of the cells across the sides that meet there is left. -/
theorem Shape.cornerIsFree_iff {g : Grid} {hidden : List (Nat × Nat)} {o : Occupancy}
    (h : ∀ x y : Int, o.isSet x y = true ↔ g.Remains hidden x y) (c : GridCell) (s : Side) :
    cornerIsFree (o.neighbours c.column c.row) s = true ↔
      ¬g.RemainsAcross hidden c s ∧ ¬g.RemainsAcross hidden c s.next := by
  rw [← Occupancy.contains_mask h, ← Occupancy.contains_mask h, cornerIsFree, isFree,
    Bool.and_eq_true, Bool.not_eq_true', Bool.not_eq_true', Bool.not_eq_true, Bool.not_eq_true]

/-- What is across the corners of a cell makes no difference to a liquid block. -/
theorem Shape.drawLiquid_congr {α : Type} [Add α] [Sub α] [Div α] [NatCast α] [LT α]
    [DecidableLT α] {call : ShapeCall} {n : Neighbours}
    (h : ∀ s : Side, n.contains s.mask = call.neighbours.contains s.mask) :
    (drawLiquid { call with neighbours := n }.cell : List (Command α)) =
      drawLiquid call.cell := by
  have hfree : ∀ s, cornerIsFree n s = cornerIsFree call.neighbours s := by
    intro s
    rw [cornerIsFree, cornerIsFree, isFree, isFree, h, h]
  unfold drawLiquid
  rw [cornerRadii_eq_ite, cornerRadii_eq_ite]
  simp only [hfree]
  rfl

/-! ## 2. Cells side by side -/

/-- The radius of a corner of a liquid block. -/
def Shape.radiusAt {α : Type} [Div α] [NatCast α] (c : Cell α) : Side → α
  | .left => (cornerRadii c).1
  | .top => (cornerRadii c).2.1
  | .right => (cornerRadii c).2.2.1
  | .bottom => (cornerRadii c).2.2.2

section

variable {α : Type} [Add α] [Sub α] [Mul α] [Div α] [NatCast α] [LT α] [DecidableLT α]

omit [Add α] [Sub α] [Mul α] [LT α] [DecidableLT α] in
theorem Shape.radiusAt_cell (call : ShapeCall) (s : Side) :
    (radiusAt call.cell s : α) = call.radius (cornerIsFree call.neighbours s) := by
  unfold radiusAt
  rw [cornerRadii_eq_ite]
  cases s <;> rfl

namespace ShapeCall

/-- A liquid block draws finder modules as it draws the others. -/
theorem commands_liquid (call : ShapeCall) :
    call.commands (.liquid : Shape α) = Shape.drawLiquid call.cell := by
  unfold commands
  split <;> rfl

/-- A side of a cell is in the outline of a liquid block in full: the corners at its ends have no
    radius, and there is a line from the one to the other. -/
structure HasSide (α : Type) [Add α] [Sub α] [Mul α] [Div α] [NatCast α] [LT α] [DecidableLT α]
    (call : ShapeCall) (s : Side) : Prop where
  start_sharp : Shape.radiusAt call.cell s.previous = ((0 : Nat) : α)
  end_sharp : Shape.radiusAt call.cell s = ((0 : Nat) : α)
  line : ∀ pen : α × α, .line (call.cornerPoint s.previous) (call.cornerPoint s) ∈
    Command.pieces pen (call.commands .liquid)

/-- The cell `b` is across the side `s` of the cell `a`, and the edge between them is in both
    outlines in full, once in each direction. -/
structure Joined (α : Type) [Add α] [Sub α] [Mul α] [Div α] [NatCast α] [LT α] [DecidableLT α]
    (a b : ShapeCall) (s : Side) : Prop where
  start_eq : a.corner s.previous = b.corner s.opposite
  end_eq : a.corner s = b.corner s.opposite.previous
  side : a.HasSide α s
  opposite : b.HasSide α s.opposite

variable [Numeric α] [HalvedNumbers α]

/-- A side at whose ends no corner is free is there in full. -/
theorem hasSide {call : ShapeCall} (h : call.Fits) {s : Side}
    (hstart : Shape.cornerIsFree call.neighbours s.previous = false)
    (hend : Shape.cornerIsFree call.neighbours s = false) : call.HasSide α s where
  start_sharp := by
    rw [Shape.radiusAt_cell, hstart]
    rfl
  end_sharp := by
    rw [Shape.radiusAt_cell, hend]
    rfl
  line pen := by
    rw [commands_liquid, Shape.pieces_drawLiquid h]
    exact line_mem_outline h hstart hend

end ShapeCall

end

namespace Renderer

/-- What is drawn whole is drawn with the bits of the render. -/
theorem eq_wholeCall {α : Type} {r : Renderer α} {zone : Option Zone} {o : Occupancy}
    {c : GridCell} {call : ShapeCall} (h : r.outcomeOf zone o c = .whole call) :
    call = r.wholeCall o c := by
  obtain ⟨-, h'⟩ | ⟨-, halftone, -, -, h'⟩ | ⟨-, -, ⟨-, h'⟩ | ⟨-, h'⟩⟩ :=
    outcomeOf_cases r zone o c
  · cases h.symm.trans h'
  · cases h.symm.trans h'
  · exact Outcome.whole.inj (h.symm.trans h')
  · cases h.symm.trans h'

theorem fits_wholeCall {α : Type} {r : Renderer α} (hb : 0 < r.options.blockWidth)
    (hwidth : r.width < 2 ^ 32) (hheight : r.height < 2 ^ 32) (o : Occupancy) {c : GridCell}
    (hc : c ∈ r.grid.cells) : (r.wholeCall o c).Fits := by
  obtain ⟨hright, hbottom⟩ := Box.Within.le_of_nonempty
    ((block_within hb hc).trans r.interior_within) (block_nonempty hb c.column c.row)
  exact ⟨hb, hb, Nat.lt_of_le_of_lt hright hwidth, Nat.lt_of_le_of_lt hbottom hheight⟩

/-- The corners of the blocks are the points of a grid. -/
theorem corner_wholeCall {α : Type} (r : Renderer α) (o : Occupancy) (c : GridCell) (s : Side) :
    (r.wholeCall o c).corner s = r.blockOrigin (c.column + s.corner.1) (c.row + s.corner.2) := by
  cases s <;>
    simp only [wholeCall, blockOrigin, ShapeCall.corner, Side.corner, Nat.add_mul, Nat.one_mul,
      Nat.add_zero, Nat.add_right_comm]

/-- Blocks side by side have the ends of the edge between them in common. -/
theorem corner_wholeCall_eq {α : Type} (r : Renderer α) (o : Occupancy) {c c' : GridCell}
    {s : Side} (hcolumn : (c'.column : Int) = c.column + s.step.1)
    (hrow : (c'.row : Int) = c.row + s.step.2) :
    (r.wholeCall o c).corner s.previous = (r.wholeCall o c').corner s.opposite ∧
      (r.wholeCall o c).corner s = (r.wholeCall o c').corner s.opposite.previous := by
  have hends : (c.column + s.previous.corner.1 = c'.column + s.opposite.corner.1 ∧
      c.row + s.previous.corner.2 = c'.row + s.opposite.corner.2) ∧
      c.column + s.corner.1 = c'.column + s.opposite.previous.corner.1 ∧
      c.row + s.corner.2 = c'.row + s.opposite.previous.corner.2 := by
    cases s <;> simp only [Side.step, Side.previous, Side.opposite, Side.corner] at hcolumn hrow ⊢ <;>
      omega
  obtain ⟨⟨hx, hy⟩, hx', hy'⟩ := hends
  simp only [corner_wholeCall, hx, hy, hx', hy', and_self]

variable {α : Type} [Add α] [Sub α] [Mul α] [Div α] [NatCast α] [LT α] [DecidableLT α] [Numeric α]
  [HalvedNumbers α]

/-- The side towards a module that is left is there in full. -/
theorem hasSide_wholeCall {r : Renderer α} {hidden : List (Nat × Nat)} {o : Occupancy}
    (h : ∀ x y : Int, o.isSet x y = true ↔ r.grid.Remains hidden x y) {c : GridCell}
    (hfits : (r.wholeCall o c).Fits) {s : Side} (hacross : r.grid.RemainsAcross hidden c s) :
    (r.wholeCall o c).HasSide α s := by
  have hsharp : ∀ t : Side, t = s ∨ t.next = s →
      Shape.cornerIsFree (o.neighbours c.column c.row) t = false := by
    intro t ht
    rw [Bool.eq_false_iff, ne_eq, Shape.cornerIsFree_iff h]
    intro hfree
    rcases ht with rfl | rfl
    · exact hfree.1 hacross
    · exact hfree.2 hacross
  exact ShapeCall.hasSide hfits (hsharp _ (.inr s.next_previous)) (hsharp s (.inl rfl))

/-- With some modules hidden, liquid blocks melt: each corner of a module is a curve with half the
    block for its radius exactly if neither of the modules across the two sides there is dark and
    not hidden, and sharp otherwise; and two modules side by side that are both dark and not hidden
    share an edge in full. -/
structure Melts (r : Renderer α) (hidden : List (Nat × Nat)) (o : Occupancy) : Prop where
  outlined : ∀ c ∈ r.grid.cells, ∃ rounded : Side → Bool,
    (∀ s, rounded s = true ↔
      ¬r.grid.RemainsAcross hidden c s ∧ ¬r.grid.RemainsAcross hidden c s.next) ∧
    (∀ s, Shape.radiusAt (r.wholeCall o c).cell s =
      if rounded s then (r.options.blockWidth : α) / ((2 : Nat) : α) else ((0 : Nat) : α)) ∧
    ∀ pen : α × α, Command.pieces pen ((r.wholeCall o c).commands .liquid) =
      (r.wholeCall o c).outline rounded
  joined : ∀ c ∈ r.grid.cells, ∀ c' ∈ r.grid.cells, ∀ s : Side,
    r.grid.Remains hidden c.column c.row → r.grid.Remains hidden c'.column c'.row →
    (c'.column : Int) = c.column + s.step.1 → (c'.row : Int) = c.row + s.step.2 →
    ShapeCall.Joined α (r.wholeCall o c) (r.wholeCall o c') s

/-- Whatever the bits of a render, its liquid blocks melt as the bits say. -/
theorem melts {r : Renderer α} (hb : 0 < r.options.blockWidth) (hwidth : r.width < 2 ^ 32)
    (hheight : r.height < 2 ^ 32) {hidden : List (Nat × Nat)} {o : Occupancy}
    (h : ∀ x y : Int, o.isSet x y = true ↔ r.grid.Remains hidden x y) : r.Melts hidden o where
  outlined c hc := by
    have hfits := fits_wholeCall hb hwidth hheight o hc
    refine ⟨Shape.cornerIsFree (o.neighbours c.column c.row), Shape.cornerIsFree_iff h c,
      fun s => ?_, fun pen => ?_⟩
    · rw [Shape.radiusAt_cell, ShapeCall.radius, Shape.edge]
      show (if _ then ((min r.options.blockWidth r.options.blockWidth : Nat) : α) / _ else _) = _
      rw [Nat.min_self]
      rfl
    · rw [ShapeCall.commands_liquid]
      exact Shape.pieces_drawLiquid hfits pen
  joined c hc c' hc' s hleft hleft' hcolumn hrow := by
    obtain ⟨hstart, hend⟩ := r.corner_wholeCall_eq o hcolumn hrow
    refine ⟨hstart, hend, ?_, ?_⟩
    · refine hasSide_wholeCall h (fits_wholeCall hb hwidth hheight o hc) ?_
      rw [Grid.RemainsAcross, ← hcolumn, ← hrow]
      exact hleft'
    · refine hasSide_wholeCall h (fits_wholeCall hb hwidth hheight o hc') ?_
      obtain ⟨hx, hy⟩ := s.step_opposite
      rw [Grid.RemainsAcross, hx, hy, hcolumn, hrow, Int.add_neg_cancel_right,
        Int.add_neg_cancel_right]
      exact hleft

/-- **Liquid modules melt.** With built options and a canvas whose numbers have 32 bits, every grid
    has a renderer whose liquid blocks melt, whichever of the modules are hidden. A render has an
    answer, hides modules of its own, and draws what it draws whole with the bits that are left. And
    cells across the corners never matter: a mask with the same four cells across its sides gives
    the same commands. -/
theorem liquid_melts {files : String → Except String Picture} {b : Builder α} {o : Options α}
    (h : b.build files = .ok o) (g : Grid) (hwidth : canvasWidth o g < 2 ^ 32)
    (hheight : canvasHeight o g < 2 ^ 32) :
    (∃ r, ofOptions o g = .ok r ∧ r.options = o ∧ r.grid = g ∧
      (∀ hidden : List (Nat × Nat), (∀ p ∈ hidden, p.1 < g.width ∧ p.2 < g.height) →
        ∃ occupancy, (Occupancy.ofGrid g).clearAll hidden = .ok occupancy ∧
          r.Melts hidden occupancy) ∧
      ∃ zone occupancy outcomes, r.safeZone = .ok zone ∧ r.occupancy zone = .ok occupancy ∧
        r.outcomes = .ok outcomes ∧ r.Melts (r.hiddenPlaces zone) occupancy ∧
        List.Forall₂ (fun c outcome => ∀ call, outcome = .whole call →
          call = r.wholeCall occupancy c) g.cells outcomes) ∧
    ∀ (call : ShapeCall) (n : Neighbours),
      (∀ s : Side, n.contains s.mask = call.neighbours.contains s.mask) →
        (Shape.drawLiquid { call with neighbours := n }.cell : List (Command α)) =
          Shape.drawLiquid call.cell := by
  refine ⟨?_, fun _ _ => Shape.drawLiquid_congr⟩
  obtain ⟨r, hr, rfl, rfl, hsound⟩ := ofOptions_sound (Builder.build_sound h) g
  have hmelts : ∀ hidden : List (Nat × Nat),
      (∀ p ∈ hidden, p.1 < r.grid.width ∧ p.2 < r.grid.height) →
      ∃ occupancy, (Occupancy.ofGrid r.grid).clearAll hidden = .ok occupancy ∧
        r.Melts hidden occupancy := by
    intro hidden hin
    obtain ⟨occupancy, hoccupancy, -, -, hset⟩ := Occupancy.exists_clearAll hin
    exact ⟨occupancy, hoccupancy, melts hsound.options.blockWidth_pos hwidth hheight hset⟩
  refine ⟨r, hr, rfl, rfl, hmelts, ?_⟩
  obtain ⟨zone, occupancy, hzone, hoccupancy, houtcomes⟩ := outcomes_eq hsound
  obtain ⟨occupancy', hcleared, hall⟩ := hmelts (r.hiddenPlaces zone) r.hiddenPlaces_lt
  rw [← occupancy_eq_clearAll, hoccupancy] at hcleared
  obtain rfl := Except.ok.inj hcleared
  refine ⟨zone, occupancy, _, hzone, hoccupancy, houtcomes, hall, ?_⟩
  rw [List.forall₂_map_right_iff, List.forall₂_same]
  exact fun c _ call hcall => eq_wholeCall hcall

/-- In two rows of two dark modules, one of them hidden, the upper two share the edge between
    them. -/
theorem liquid_melts_pair :
    let b : Builder Float := Builder.ofSettings [.blockWidth 4]
    let g := Grid.ofFn 2 2 fun _ _ => ⟨true, .data⟩
    ∃ o, b.build (fun _ => .error "missing") = .ok o ∧ canvasWidth o g < 2 ^ 32 ∧
      canvasHeight o g < 2 ^ 32 ∧
      ∃ r occupancy, ofOptions o g = .ok r ∧
        (Occupancy.ofGrid g).clearAll [(1, 1)] = .ok occupancy ∧
        ShapeCall.Joined Float (r.wholeCall occupancy ⟨0, 0, ⟨true, .data⟩⟩)
          (r.wholeCall occupancy ⟨1, 0, ⟨true, .data⟩⟩) .right := by
  intro b g
  obtain ⟨o, ho⟩ : ∃ o, b.build (fun _ => .error "missing") = .ok o := ⟨_, rfl⟩
  obtain ⟨hwidth, hheight⟩ : canvasWidth o g < 2 ^ 32 ∧ canvasHeight o g < 2 ^ 32 := by
    obtain rfl := Except.ok.inj ho
    exact ⟨by decide, by decide⟩
  obtain ⟨⟨r, hr, -, hgrid, hmelts, -⟩, -⟩ := liquid_melts ho g hwidth hheight
  obtain ⟨occupancy, hcleared, hall⟩ := hmelts [(1, 1)] (by decide)
  refine ⟨o, ho, hwidth, hheight, r, occupancy, hr, hcleared, ?_⟩
  have hjoined := hall.joined
  rw [hgrid] at hjoined
  have hupper : ∀ x < 2, (⟨x, 0, ⟨true, .data⟩⟩ : GridCell) ∈ g.cells ∧
      g.Remains [(1, 1)] x 0 := by
    intro x hx
    have hc : (⟨x, 0, ⟨true, .data⟩⟩ : GridCell) ∈ g.cells := by
      interval_cases x <;> decide
    exact ⟨hc, _, hc, ⟨rfl, rfl⟩, rfl, by simp⟩
  obtain ⟨hc, hleft⟩ := hupper 0 (by decide)
  obtain ⟨hc', hleft'⟩ := hupper 1 (by decide)
  exact hjoined _ hc _ hc' .right hleft hleft' rfl rfl

end Renderer

end QrRender
