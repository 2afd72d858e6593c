import QrRender.Proofs.Numeric.Half
import QrRender.Renderer

/-!
# The outline of a liquid block

A liquid block is outlined clockwise: along each of its four sides there is a line, and where a side
ends there is a corner, which is either sharp or cut off by a curve. A corner is named by the side
that ends there. What a corner is like depends on the two cells across the sides that meet at it,
and on nothing else: the cells across the corners have bits in the mask that no corner reads.

* `Side`: the sides of a cell, with the cells across them;
* `Command.pieces`: lines and curves with both their ends;
* `ShapeCall.outline`: an outline with some of its corners rounded;
* `Shape.cornerRadii_eq_ite`: radii of corners;
* **`Shape.pieces_drawLiquid`**: the commands of a liquid block draw the outline whose free corners
  are rounded;
* `ShapeCall.line_mem_outline`: a side between sharp corners is there in full.
-/

namespace QrRender

/-! ## 1. Sides -/

/-- The sides of a cell, in clockwise order. A side stands also for the corner at its end. -/
inductive Side where
  | top
  | right
  | bottom
  | left
  deriving DecidableEq

namespace Side

def all : List Side := [top, right, bottom, left]

/-- The side that goes on from the corner where this one ends. -/
def next : Side → Side
  | top => right
  | right => bottom
  | bottom => left
  | left => top

/-- The side that ends where this one starts. -/
def previous : Side → Side
  | top => left
  | right => top
  | bottom => right
  | left => bottom

def opposite : Side → Side
  | top => bottom
  | right => left
  | bottom => top
  | left => right

/-- The bit in a mask for the cell across a side. -/
def mask : Side → Neighbours
  | top => .top
  | right => .right
  | bottom => .bottom
  | left => .left

theorem mem_all (s : Side) : s ∈ all := by
  cases s <;> decide

@[simp] theorem next_previous (s : Side) : s.previous.next = s := by
  cases s <;> rfl

end Side

/-! ## 2. Outlines -/

/-- A piece of an outline with both its ends. -/
inductive Piece (α : Type) where
  | line (source target : α × α)
  | curve (source control target : α × α)

/-- The lines and curves of some commands, each from the end of the one before. -/
def Command.pieces {α : Type} : α × α → List (Command α) → List (Piece α)
  | _, [] => []
  | _, .path (.moveTo x y) :: cs => pieces (x, y) cs
  | pen, .path (.lineTo x y) :: cs => .line pen (x, y) :: pieces (x, y) cs
  | pen, .path (.quadTo cx cy x y) :: cs => .curve pen (cx, cy) (x, y) :: pieces (x, y) cs
  | pen, _ :: cs => pieces pen cs

namespace ShapeCall

/-- The corner at the end of a side. -/
def corner (call : ShapeCall) : Side → Nat × Nat
  | .top => (call.x + call.width, call.y)
  | .right => (call.x + call.width, call.y + call.height)
  | .bottom => (call.x, call.y + call.height)
  | .left => (call.x, call.y)

/-- The corner at the end of a side, as a point to draw. -/
def cornerPoint {α : Type} [NatCast α] (call : ShapeCall) (s : Side) : α × α :=
  (((call.corner s).1 : α), ((call.corner s).2 : α))

variable {α : Type} [Add α] [Sub α] [NatCast α]

/-- The point of a side that is `d` away from its end. -/
def before (call : ShapeCall) (d : α) (s : Side) : α × α :=
  let (x, y) := call.cornerPoint s
  match s with
  | .top => (x - d, y)
  | .right => (x, y - d)
  | .bottom => (x + d, y)
  | .left => (x, y + d)

/-- The point `d` beyond the end of a side, on the next one. -/
def after (call : ShapeCall) (d : α) (s : Side) : α × α :=
  let (x, y) := call.cornerPoint s
  match s with
  | .top => (x, y + d)
  | .right => (x - d, y)
  | .bottom => (x, y - d)
  | .left => (x + d, y)

variable [Div α]

/-- The radius of a corner: half the shorter side of the cell, or none. -/
def radius (call : ShapeCall) (rounded : Bool) : α :=
  if rounded then Shape.edge call.cell / (2 : Nat) else (0 : Nat)

/-- The outline of a cell, some of whose corners are rounded: along each side a line, and where a
    corner is rounded a curve around it, as far away from it on both sides as its radius is. -/
def outline (call : ShapeCall) (rounded : Side → Bool) : List (Piece α) :=
  let radius s : α := call.radius (rounded s)
  Side.all.flatMap fun s =>
    .line (call.after (radius s.previous) s.previous) (call.before (radius s) s) ::
      if rounded s then
        [.curve (call.before (radius s) s) (call.cornerPoint s) (call.after (radius s) s)]
      else []

/-- The numbers of the cell have 32 bits, and it is not empty. -/
structure Fits (call : ShapeCall) : Prop where
  width_pos : 0 < call.width
  height_pos : 0 < call.height
  right_lt : call.x + call.width < 2 ^ 32
  bottom_lt : call.y + call.height < 2 ^ 32

omit [Add α] [Sub α] [NatCast α] [Div α] in
theorem Fits.corner_lt {call : ShapeCall} (h : call.Fits) (s : Side) :
    (call.corner s).1 < 2 ^ 53 ∧ (call.corner s).2 < 2 ^ 53 := by
  obtain ⟨-, -, hright, hbottom⟩ := h
  cases s <;> constructor <;> simp only [corner] <;> omega

variable [LT α] [Numeric α] [HalvedNumbers α]

theorem natCast_add_zero {n : Nat} (hn : n < 2 ^ 53) : (n : α) + ((0 : Nat) : α) = n :=
  WholeNumbers.natCast_add hn

/-- Nothing away from a corner is the corner. -/
theorem before_zero {call : ShapeCall} (h : call.Fits) (s : Side) :
    call.before (call.radius false) s = (call.cornerPoint s : α × α) := by
  obtain ⟨hx, hy⟩ := h.corner_lt s
  cases s with
  | top => exact Prod.ext (HalvedNumbers.natCast_sub_zero hx) rfl
  | right => exact Prod.ext rfl (HalvedNumbers.natCast_sub_zero hy)
  | bottom => exact Prod.ext (natCast_add_zero hx) rfl
  | left => exact Prod.ext rfl (natCast_add_zero hy)

theorem after_zero {call : ShapeCall} (h : call.Fits) (s : Side) :
    call.after (call.radius false) s = (call.cornerPoint s : α × α) := by
  obtain ⟨hx, hy⟩ := h.corner_lt s
  cases s with
  | top => exact Prod.ext rfl (natCast_add_zero hy)
  | right => exact Prod.ext (HalvedNumbers.natCast_sub_zero hx) rfl
  | bottom => exact Prod.ext rfl (HalvedNumbers.natCast_sub_zero hy)
  | left => exact Prod.ext (natCast_add_zero hx) rfl

/-- A rounded corner has a radius above zero, and a sharp one has none. -/
theorem radius_pos_iff {call : ShapeCall} (h : call.Fits) (rounded : Bool) :
    ((0 : Nat) : α) < call.radius rounded ↔ rounded = true := by
  have hright := h.right_lt
  have hwidth := h.width_pos
  have hheight := h.height_pos
  cases rounded with
  | false => exact ⟨fun hpos => absurd hpos HalvedNumbers.zero_not_pos, Bool.noConfusion⟩
  | true =>
    refine ⟨fun _ => rfl, fun _ => HalvedNumbers.half_pos (n := min call.width call.height) ?_ ?_⟩
    · omega
    · omega

/-- **A side between sharp corners is there in full.** -/
theorem line_mem_outline {call : ShapeCall} (h : call.Fits) {rounded : Side → Bool} {s : Side}
    (hstart : rounded s.previous = false) (hend : rounded s = false) :
    .line (call.cornerPoint s.previous) (call.cornerPoint s : α × α) ∈ call.outline rounded := by
  refine List.mem_flatMap.mpr ⟨s, s.mem_all, ?_⟩
  simp only [hstart, hend, before_zero h, after_zero h]
  exact List.mem_cons_self

end ShapeCall

/-! ## 3. Liquid blocks -/

namespace Shape

variable {α : Type} [Add α] [Sub α] [Div α] [NatCast α]

/-- No cell is across either of the sides that meet at a corner. -/
def cornerIsFree (n : Neighbours) (s : Side) : Bool := isFree n s.mask s.next.mask

theorem isFree_comm (n a b : Neighbours) : isFree n a b = isFree n b a := Bool.and_comm _ _

omit [Add α] [Sub α] in
/-- The radii of a liquid block: a corner has one exactly if it is free. -/
theorem cornerRadii_eq_ite (call : ShapeCall) :
    let radius s : α := call.radius (cornerIsFree call.neighbours s)
    cornerRadii call.cell = (radius .left, radius .top, radius .right, radius .bottom) := by
  simp only [cornerIsFree, Side.mask, Side.next, isFree_comm _ Neighbours.left Neighbours.top,
    isFree_comm _ Neighbours.right Neighbours.bottom]
  rfl

variable [LT α] [DecidableLT α]

omit [Add α] [Sub α] [Div α] in
/-- At a corner there is a curve, or the pen is already where it would end. -/
theorem pieces_corner {radius : α} {rounded : Bool} (hradius : ((0 : Nat) : α) < radius ↔ rounded)
    (control : α × α) {pen target : α × α} (hpen : rounded = false → pen = target)
    (cs : List (Command α)) :
    Command.pieces pen (corner radius control.1 control.2 target.1 target.2 ++ cs) =
      (if rounded then [.curve pen control target] else []) ++ Command.pieces target cs := by
  cases rounded with
  | true =>
    rw [corner, if_pos (hradius.mpr rfl)]
    rfl
  | false =>
    rw [corner, if_neg fun hpos => Bool.noConfusion (hradius.mp hpos), hpen rfl]
    rfl

variable [Numeric α] [HalvedNumbers α]

/-- **The commands of a liquid block draw the outline of its cell with the free corners rounded.** -/
theorem pieces_drawLiquid {call : ShapeCall} (h : call.Fits) (pen : α × α) :
    Command.pieces pen (drawLiquid call.cell) =
      call.outline (cornerIsFree call.neighbours) := by
  have hright := h.right_lt
  have hbottom := h.bottom_lt
  have hx : (call.x : α) + (call.width : α) = ((call.x + call.width : Nat) : α) :=
    WholeNumbers.natCast_add (by omega)
  have hy : (call.y : α) + (call.height : α) = ((call.y + call.height : Nat) : α) :=
    WholeNumbers.natCast_add (by omega)
  have hsharp : ∀ s, cornerIsFree call.neighbours s = false →
      call.before (call.radius (cornerIsFree call.neighbours s)) s =
        (call.after (call.radius (cornerIsFree call.neighbours s)) s : α × α) := by
    intro s hs
    rw [hs, ShapeCall.before_zero h, ShapeCall.after_zero h]
  have hcorner := fun s => pieces_corner (α := α)
    (ShapeCall.radius_pos_iff h (cornerIsFree call.neighbours s)) (call.cornerPoint s) (hsharp s)
  unfold drawLiquid
  rw [cornerRadii_eq_ite]
  simp only [ShapeCall.cell, hx, hy, List.append_assoc, List.cons_append, List.nil_append]
  -- along each side a line, and at its end what is drawn at the corner
  refine congrArg (List.cons _) ((hcorner .top _).trans (congrArg (HAppend.hAppend _) ?_))
  refine congrArg (List.cons _) ((hcorner .right _).trans (congrArg (HAppend.hAppend _) ?_))
  refine congrArg (List.cons _) ((hcorner .bottom _).trans (congrArg (HAppend.hAppend _) ?_))
  exact congrArg (List.cons _) (hcorner .left _)

end Shape

end QrRender
