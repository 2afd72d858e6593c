import QrRender.Proofs.Numeric.Double
import QrRender.Proofs.Numeric.Exact
import QrRender.Proofs.Shape.Alone

/-!
# Shapes inside their cells

A shape is told the place and the size of its cell and nothing that surrounds it. What it outlines
must not reach into the cells beside it, nor into the zone around a logo, and an outline that is
stroked reaches half the line width to both sides. With exact numbers the built-in shapes stay
inside, down to cells of one pixel and for cells that are not square.

* `Cell.Holds`, `Cell.Encloses`: a point with a margin around it in a cell, and commands all of
  whose points are;
* `Shape.RadiiFit`: radii of corners which leave room for one another along the edges;
* `Shape.radiiFit`: the radii of a liquid block;
* `Double.unitShare_bounds`: a share of doubles brought into range is in it, however large;
* **`Shape.inside_cell`**: the built-in shapes are inside their cells.
-/

namespace QrRender

/-! ## 1. Points in a cell -/

section Points

variable {α : Type}

/-- The points that a step is given by: its end and its control point, and two opposite corners of
    the box of a circle or a rectangle. -/
def PathStep.points [Add α] [Sub α] : PathStep α → List (α × α)
  | .moveTo x y => [(x, y)]
  | .lineTo x y => [(x, y)]
  | .quadTo cx cy x y => [(cx, cy), (x, y)]
  | .close => []
  | .circle cx cy r => [(cx - r, cy - r), (cx + r, cy + r)]
  | .rect x y w h => [(x, y), (x + w, y + h)]
  | .newSubPath => []

/-- The points that a command is given by. -/
def Command.points [Add α] [Sub α] : Command α → List (α × α)
  | .path s => s.points
  | _ => []

/-- How far a commit reaches around its outline: half the line width, if it is a stroke. -/
def Commit.margin [Div α] [NatCast α] (k : Commit α) : α :=
  match k.ink with
  | .fill => (0 : Nat)
  | .stroke => k.style.lineWidth / (2 : Nat)

/-- A point is in the cell with a margin around it. -/
structure Cell.Holds [Add α] [Sub α] [NatCast α] [LE α] (c : Cell α) (margin : α) (p : α × α) :
    Prop where
  left : c.x ≤ p.1 - margin
  right : p.1 + margin ≤ c.x + (c.width : α)
  top : c.y ≤ p.2 - margin
  bottom : p.2 + margin ≤ c.y + (c.height : α)

/-- The commands are one commit, whatever the paint before them, which is inside the cell with all
    its points and with its margin around them. -/
def Cell.Encloses [Add α] [Sub α] [Div α] [NatCast α] [LT α] [DecidableLT α] [LE α]
    [DecidableLE α] (c : Cell α) (cs : List (Command α)) : Prop :=
  ∃ k : Commit α, (∀ before, (Pen.resting before).commits cs = [k]) ∧
    k.steps = cs.filterMap Command.step? ∧ ((0 : Nat) : α) ≤ k.margin ∧
    ∀ s ∈ k.steps, ∀ p ∈ s.points, c.Holds k.margin p

/-- A drawing on its own is enclosed where the points of its commands are. -/
theorem Commit.IsOnly.encloses [Add α] [Sub α] [Div α] [NatCast α] [LT α] [DecidableLT α] [LE α]
    [DecidableLE α] {k : Commit α} {paint : Paint} {cs : List (Command α)} (h : k.IsOnly paint cs)
    (hmargin : ((0 : Nat) : α) ≤ k.margin) {c : Cell α}
    (hpoints : ∀ d ∈ cs, ∀ p ∈ d.points, c.Holds k.margin p) : c.Encloses cs := by
  refine ⟨k, h.commits, h.steps, hmargin, fun s hs p hp => ?_⟩
  rw [h.steps] at hs
  obtain ⟨d, hd, hstep⟩ := List.mem_filterMap.mp hs
  cases d with
  | path s' =>
    obtain rfl := Option.some.inj hstep
    exact hpoints _ hd p hp
  | _ => cases hstep

end Points

section Exact

variable {α : Type} [Field α] [LinearOrder α] [IsStrictOrderedRing α]

omit [IsStrictOrderedRing α] in
/-- Without a margin it is enough that the coordinates are in range. -/
theorem Cell.holds_zero {c : Cell α} {x y : α} (hleft : c.x ≤ x) (hright : x ≤ c.x + c.width)
    (htop : c.y ≤ y) (hbottom : y ≤ c.y + c.height) : c.Holds ((0 : Nat) : α) (x, y) := by
  constructor <;> simpa

/-! ## 2. Radii -/

namespace Shape

/-- No corner has a negative radius, and the radii of two corners along one edge of the cell are
    together no longer than the edge. -/
structure RadiiFit (c : Cell α) (tl tr br bl : α) : Prop where
  nonneg : 0 ≤ tl ∧ 0 ≤ tr ∧ 0 ≤ br ∧ 0 ≤ bl
  top : tl + tr ≤ (c.width : α)
  bottom : bl + br ≤ (c.width : α)
  left : tl + bl ≤ (c.height : α)
  right : tr + br ≤ (c.height : α)

theorem edge_bounds (c : Cell α) :
    0 ≤ edge c ∧ edge c ≤ (c.width : α) ∧ edge c ≤ (c.height : α) :=
  ⟨Nat.cast_nonneg _, Nat.cast_le.mpr (Nat.min_le_left ..), Nat.cast_le.mpr (Nat.min_le_right ..)⟩

/-- The radius of a liquid block at the corner between two neighbours. -/
def cornerRadius (c : Cell α) (a b : Neighbours) : α :=
  if isFree c.neighbours a b then edge c / (2 : Nat) else (0 : Nat)

omit [LinearOrder α] [IsStrictOrderedRing α] in
theorem cornerRadii_eq (c : Cell α) :
    cornerRadii c = (cornerRadius c .top .left, cornerRadius c .top .right,
      cornerRadius c .bottom .right, cornerRadius c .bottom .left) := rfl

theorem cornerRadius_bounds (c : Cell α) (a b : Neighbours) :
    0 ≤ cornerRadius c a b ∧ cornerRadius c a b ≤ edge c / 2 := by
  have hhalf : 0 ≤ edge c / 2 := div_nonneg (edge_bounds c).1 zero_le_two
  unfold cornerRadius
  rw [Nat.cast_ofNat, Nat.cast_zero]
  split
  · exact ⟨hhalf, le_rfl⟩
  · exact ⟨le_rfl, hhalf⟩

/-- Whatever the neighbours, the radii of a liquid block fit. -/
theorem radiiFit (c : Cell α) :
    ∃ tl tr br bl, cornerRadii c = (tl, tr, br, bl) ∧ RadiiFit c tl tr br bl := by
  obtain ⟨-, hwidth, hheight⟩ := edge_bounds c
  obtain ⟨htl, htl'⟩ := cornerRadius_bounds c .top .left
  obtain ⟨htr, htr'⟩ := cornerRadius_bounds c .top .right
  obtain ⟨hbr, hbr'⟩ := cornerRadius_bounds c .bottom .right
  obtain ⟨hbl, hbl'⟩ := cornerRadius_bounds c .bottom .left
  refine ⟨_, _, _, _, cornerRadii_eq c, ⟨htl, htr, hbr, hbl⟩, ?_, ?_, ?_, ?_⟩
  all_goals linarith

/-! ## 3. Drawings inside their cells -/

omit [IsStrictOrderedRing α] in
theorem holds_of_mem_corner {c : Cell α} {margin radius cx cy x y : α}
    (hcontrol : c.Holds margin (cx, cy)) (hend : c.Holds margin (x, y)) :
    ∀ d ∈ corner radius cx cy x y, ∀ p ∈ d.points, c.Holds margin p := by
  intro d hd
  unfold corner at hd
  split at hd
  · rw [List.mem_singleton.mp hd]
    intro p hp
    rcases List.mem_pair.mp hp with rfl | rfl
    · exact hcontrol
    · exact hend
  · cases hd

/-- The outline of a liquid block is inside, since its radii fit. -/
theorem holds_liquid (c : Cell α) :
    ∀ d ∈ drawLiquid c, ∀ p ∈ d.points, c.Holds ((0 : Nat) : α) p := by
  obtain ⟨tl, tr, br, bl, hradii, hfit⟩ := radiiFit c
  obtain ⟨⟨htl, htr, hbr, hbl⟩, htop, hbottom, hleft, hright⟩ := hfit
  have hwidth : (0 : α) ≤ c.width := Nat.cast_nonneg _
  have hheight : (0 : α) ≤ c.height := Nat.cast_nonneg _
  -- from each edge to the next there is the end of a line, and a curve between two points
  have hcorner := @holds_of_mem_corner α _ _ c ((0 : Nat) : α)
  unfold drawLiquid
  rw [hradii]
  simp only [List.forall_mem_append, List.forall_mem_cons, Command.points, PathStep.points,
    List.not_mem_nil, false_implies, implies_true, and_true]
  refine ⟨⟨⟨⟨⟨⟨⟨⟨?_, ?_⟩, hcorner ?_ ?_⟩, ?_⟩, hcorner ?_ ?_⟩, ?_⟩, hcorner ?_ ?_⟩, ?_⟩,
    hcorner ?_ ?_⟩
  all_goals exact Cell.holds_zero (by linarith) (by linarith) (by linarith) (by linarith)

theorem holds_square (c : Cell α) :
    ∀ d ∈ drawSquare c, ∀ p ∈ d.points, c.Holds ((0 : Nat) : α) p := by
  have hwidth : (0 : α) ≤ c.width := Nat.cast_nonneg _
  have hheight : (0 : α) ≤ c.height := Nat.cast_nonneg _
  simp only [drawSquare, List.forall_mem_cons, Command.points, PathStep.points,
    List.not_mem_nil, false_implies, implies_true, and_true]
  refine ⟨?_, ?_⟩
  all_goals exact Cell.holds_zero (by linarith) (by linarith) (by linarith) (by linarith)

/-- A circle around the middle of a cell is inside if it is no wider than the shorter side. -/
theorem holds_middle (c : Cell α) {r : α} (hnonneg : 0 ≤ r) (hr : r ≤ edge c / 2) :
    ∀ p ∈ (PathStep.circle (c.x + c.width / (2 : Nat)) (c.y + c.height / (2 : Nat)) r).points,
      c.Holds ((0 : Nat) : α) p := by
  obtain ⟨-, hwidth, hheight⟩ := edge_bounds c
  simp only [PathStep.points, List.forall_mem_cons, List.not_mem_nil, false_implies, implies_true,
    and_true, Nat.cast_ofNat]
  refine ⟨?_, ?_⟩
  all_goals exact Cell.holds_zero (by linarith) (by linarith) (by linarith) (by linarith)

theorem half_edge (c : Cell α) : 0 ≤ edge c / (2 : Nat) ∧ edge c / (2 : Nat) = edge c / 2 :=
  ⟨div_nonneg (edge_bounds c).1 (Nat.cast_nonneg _), by rw [Nat.cast_ofNat]⟩

theorem holds_circle (c : Cell α) :
    ∀ d ∈ drawCircle c, ∀ p ∈ d.points, c.Holds ((0 : Nat) : α) p := by
  obtain ⟨hhalf, heq⟩ := half_edge c
  simp only [drawCircle, List.forall_mem_cons, Command.points, List.not_mem_nil, false_implies,
    implies_true, and_true]
  exact holds_middle c hhalf heq.le

/-- A share brought into the range from zero to one is in it. -/
theorem unitShare_bounds (v : α) : 0 ≤ unitShare v ∧ unitShare v ≤ 1 := by
  unfold unitShare
  rw [Nat.cast_zero, Nat.cast_one]
  split
  · exact ⟨le_rfl, zero_le_one⟩
  rename_i hneg
  split
  · exact ⟨zero_le_one, le_rfl⟩
  · rename_i hgreat
    exact ⟨not_lt.mp hneg, not_lt.mp hgreat⟩

/-- Both circles of a ring are inside, since the hole is no larger than the ring. -/
theorem holds_ring (hole : α) (c : Cell α) :
    ∀ d ∈ drawRing hole c, ∀ p ∈ d.points, c.Holds ((0 : Nat) : α) p := by
  obtain ⟨hhalf, heq⟩ := half_edge c
  obtain ⟨hshare, hshare'⟩ := unitShare_bounds hole
  have hhole : edge c / (2 : Nat) * unitShare hole ≤ edge c / 2 :=
    (mul_le_of_le_one_right hhalf hshare').trans heq.le
  simp only [drawRing, List.forall_mem_cons, Command.points, List.not_mem_nil, false_implies,
    implies_true, and_true, true_and]
  refine ⟨holds_middle c hhalf heq.le, ?_, holds_middle c (mul_nonneg hhalf hshare) hhole⟩
  exact fun p hp => absurd hp List.not_mem_nil

/-- The line of a dashed outline is no wider than the cell. -/
theorem outlineWidth_bounds {c : Cell α} (hwidth : 1 ≤ c.width) (hheight : 1 ≤ c.height) :
    0 ≤ outlineWidth c ∧ outlineWidth c ≤ edge c := by
  have hedge : (1 : α) ≤ edge c := Nat.one_le_cast.mpr (Nat.le_min.mpr ⟨hwidth, hheight⟩)
  unfold outlineWidth
  simp only [Nat.cast_one, Nat.cast_ofNat]
  split
  · exact ⟨zero_le_one, hedge⟩
  · constructor <;> linarith

/-- A dashed outline is inside with half its line on both sides. -/
theorem holds_dashed {c : Cell α} (hwidth : 1 ≤ c.width) (hheight : 1 ≤ c.height) :
    ∀ d ∈ drawDashed c, ∀ p ∈ d.points, c.Holds (outlineWidth c / (2 : Nat)) p := by
  obtain ⟨-, hedge⟩ := outlineWidth_bounds hwidth hheight
  obtain ⟨-, hedgeWidth, hedgeHeight⟩ := edge_bounds c
  simp only [drawDashed, List.forall_mem_cons, Command.points, PathStep.points, List.not_mem_nil,
    false_implies, implies_true, and_true, true_and, Nat.cast_ofNat]
  refine ⟨?_, ?_, ?_, ?_⟩
  all_goals constructor <;> dsimp only <;> linarith

end Shape

end Exact

/-! ## 4. Holes of doubles -/

namespace Double

/-- A share of doubles brought into range is in it, unless it is no number. -/
theorem unitShare_bounds {v : Float} (hv : v.isNaN = false) :
    ((0 : Nat) : Float) ≤ Shape.unitShare v ∧ Shape.unitShare v ≤ ((1 : Nat) : Float) := by
  unfold Shape.unitShare
  split
  · exact ⟨le_iff.mpr rfl, le_iff.mpr rfl⟩
  rename_i hneg
  split
  · exact ⟨le_iff.mpr rfl, le_iff.mpr rfl⟩
  · rename_i hgreat
    exact ⟨le_of_not_lt hv rfl hneg, le_of_not_lt rfl hv hgreat⟩

/-- A share in range is kept. -/
theorem unitShare_unitShare (v : Float) :
    Shape.unitShare (Shape.unitShare v) = Shape.unitShare v := by
  by_cases hneg : v < ((0 : Nat) : Float)
  · have hshare : Shape.unitShare v = ((0 : Nat) : Float) := if_pos hneg
    rw [hshare]
    rfl
  by_cases hgreat : ((1 : Nat) : Float) < v
  · have hshare : Shape.unitShare v = ((1 : Nat) : Float) := (if_neg hneg).trans (if_pos hgreat)
    rw [hshare]
    rfl
  · have hshare : Shape.unitShare v = v := (if_neg hneg).trans (if_neg hgreat)
    rw [hshare, hshare]

end Double

/-! ## 5. Built-in shapes -/

namespace Shape

variable {α : Type} [Field α] [LinearOrder α] [IsStrictOrderedRing α]

omit [IsStrictOrderedRing α] in
/-- A filled drawing is enclosed where its points are in the cell. -/
theorem encloses_of_fill {c : Cell α} {cs : List (Command α)} (h : DrawsAlone c.paint cs)
    (hfill : cs.getLast? = some (.commit .fill))
    (hpoints : ∀ d ∈ cs, ∀ p ∈ d.points, c.Holds ((0 : Nat) : α) p) : c.Encloses cs := by
  obtain ⟨k, hk⟩ := h.exists_isOnly
  have hink : k.ink = .fill := Command.commit.inj (Option.some.inj (hk.ink.symm.trans hfill))
  have hmargin : k.margin = ((0 : Nat) : α) := by rw [Commit.margin, hink]
  refine hk.encloses hmargin.ge ?_
  rw [hmargin]
  exact hpoints

theorem encloses_dashed {c : Cell α} (hwidth : 1 ≤ c.width) (hheight : 1 ≤ c.height) :
    c.Encloses (drawDashed c) := by
  obtain ⟨k, hk⟩ := (drawsAlone (s := .dashed) rfl c).1.exists_isOnly
  have hcommits : (Pen.initial : Pen α).commits (drawDashed c) = [k] := hk.commits _
  have hmargin : k.margin = outlineWidth c / (2 : Nat) := by
    rw [← List.singleton_inj.mp hcommits]
    rfl
  refine hk.encloses ?_ ?_
  · rw [hmargin, Nat.cast_zero]
    exact div_nonneg (outlineWidth_bounds hwidth hheight).1 (Nat.cast_nonneg _)
  · rw [hmargin]
    exact holds_dashed hwidth hheight

omit [IsStrictOrderedRing α] in
theorem getLast?_drawLiquid (c : Cell α) : (drawLiquid c).getLast? = some (.commit .fill) := by
  obtain ⟨outline, hdraw, -⟩ := exists_drawLiquid c
  rw [hdraw, List.getLast?_append]
  rfl

theorem encloses_of_isBuiltIn {s : Shape α} (hs : s.isBuiltIn = true) (c : Cell α)
    (hwidth : 1 ≤ c.width) (hheight : 1 ≤ c.height) :
    c.Encloses (s.draw c) ∧ c.Encloses (s.drawFinder c) := by
  have hall := drawing_of_isBuiltIn
    (P := fun c cs => 1 ≤ c.width → 1 ≤ c.height → c.Encloses cs)
    (fun c _ _ => encloses_of_fill (drawsAlone (s := .square) rfl c).1 rfl (holds_square c))
    (fun c _ _ => encloses_of_fill (drawsAlone (s := .circle) rfl c).1 rfl (holds_circle c))
    (fun c _ _ => encloses_of_fill (drawsAlone (s := .liquid) rfl c).1 (getLast?_drawLiquid c)
      (holds_liquid c))
    (fun hole c _ _ => encloses_of_fill (drawsAlone (s := .ring hole) rfl c).1 rfl
      (holds_ring hole c))
    (fun c => encloses_dashed) hs c
  exact ⟨hall.1 hwidth hheight, hall.2 hwidth hheight⟩

/-- **Built-in shapes are inside their cells.** For a built-in shape and a cell of one pixel or
    more in each direction, whatever its place, its paint and its neighbours, the commands make one
    commit, and its rectangles, its circles, its ends and its control points are in the cell, for a
    stroke with half the line width around them. The radii of a liquid block leave room for one
    another. And a hole that is a number is drawn as one from zero to one, also if it is infinite,
    as doubles may be. -/
theorem inside_cell {s : Shape α} (hs : s.isBuiltIn = true) (c : Cell α) (hwidth : 1 ≤ c.width)
    (hheight : 1 ≤ c.height) :
    (c.Encloses (s.draw c) ∧ c.Encloses (s.drawFinder c)) ∧
    (∃ tl tr br bl, cornerRadii c = (tl, tr, br, bl) ∧ RadiiFit c tl tr br bl) ∧
    ∀ hole : Float, hole.isNaN = false → ∃ share : Float, ((0 : Nat) : Float) ≤ share ∧
      share ≤ ((1 : Nat) : Float) ∧ ∀ d, drawRing hole d = drawRing share d := by
  refine ⟨encloses_of_isBuiltIn hs c hwidth hheight, radiiFit c, fun hole hhole => ?_⟩
  obtain ⟨hnonneg, hle⟩ := Double.unitShare_bounds hhole
  refine ⟨unitShare hole, hnonneg, hle, fun d => ?_⟩
  unfold drawRing
  rw [Double.unitShare_unitShare]

/-- Shapes in shapes, in a cell that is one pixel wide, and a hole without end. -/
theorem inside_cell_narrow :
    let s : Shape ℚ := .assembled (.assembled (.ring 7) .circle) (.assembled .dashed .liquid)
    let c : Cell ℚ := ⟨-5 / 2, 3, 1, 4, .solid .black, .top⟩
    s.isBuiltIn = true ∧ 1 ≤ c.width ∧ 1 ≤ c.height ∧
      (c.Encloses (s.draw c) ∧ c.Encloses (s.drawFinder c)) ∧
      ((1 : Float) / 0).isNaN = false ∧ ∃ share : Float, share ≤ ((1 : Nat) : Float) ∧
        ∀ d, drawRing ((1 : Float) / 0) d = drawRing share d := by
  intro s c
  obtain ⟨hencloses, -, hholes⟩ := inside_cell (s := s) rfl c (by decide) (by decide)
  have hnumber : ((1 : Float) / 0).isNaN = false := by decide +kernel
  obtain ⟨share, -, hle, hdraw⟩ := hholes _ hnumber
  exact ⟨rfl, by decide, by decide, hencloses, hnumber, share, hle, hdraw⟩

end Shape

end QrRender
