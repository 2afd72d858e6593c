import QrRender.Proofs.Drawing.Rest
import QrRender.Proofs.Numeric.Exact

/-!
# Path data, read back

Path data denotes sub-paths: a move begins one, lines, curves and arcs go on from the current
point, and a close goes back to the first point, from where the next sub-path begins unless there is
a move. The pixel surface collects sub-paths of its own from the same path steps. This file compares
the two, in exact numbers.

They are the same where the path is connected: no line and no curve follows on the end of a
sub-path, a circle or a rectangle before there is a move, and the first step is a move, a circle or
a rectangle. The pixel surface begins a new sub-path in all these places. The data does not: the end
of a sub-path leaves no trace in it, and a line goes on from wherever the instruction before it
ended.

* `Reading`: how path data is read, instruction by instruction;
* `Connected`: the path steps among which no line goes on where there is no current point;
* `Agrees.step`, `Agrees.run`: a connected step, and a connected run of steps, is read as it is
  collected;
* **`connected_data_denotes`**: the data of a connected path is read as the sub-paths that are
  collected;
* `ofSteps_newSubPath`, `ofSteps_lineTo_after_end`, `lineTo_first`: what the data and the pixel
  surface make of the steps that are not connected.
-/

namespace QrRender

/-- The last point of a sub-path. -/
def SubPath.last {α : Type} (p : SubPath α) : Point α :=
  (p.segments.getLast?.map Segment.target).getD p.start

/-- The sub-path consists of more than its first point. -/
def SubPath.draws {α : Type} (p : SubPath α) : Bool := !p.segments.isEmpty

namespace Svg

variable {α : Type}

/-! ## 1. Reading -/

/-- What has been read of path data. -/
structure Reading (α : Type) where
  finished : List (SubPath α)
  /-- The sub-path that goes on, unless the last instruction was a close. -/
  current : Option (SubPath α)
  /-- The first point of the last sub-path; there is none before the first move. -/
  origin : Option (Point α)

namespace Reading

/-- Nothing has been read. -/
def start : Reading α := ⟨[], none, none⟩

/-- The sub-paths that have been read. -/
def subPaths (s : Reading α) : List (SubPath α) := s.finished ++ s.current.toList

/-- The sub-path that an instruction goes on with: after a close a new one from the same point. -/
def open? (s : Reading α) : Option (SubPath α) :=
  match s.current with
  | some p => some p
  | none => s.origin.map fun p => ⟨p, [], false⟩

/-- A move to a point. -/
def move (s : Reading α) (p : Point α) : Reading α := ⟨s.subPaths, some ⟨p, [], false⟩, some p⟩

/-- One more segment, if there is a sub-path to go on with. -/
def extend? (s : Reading α) (segment : Segment α) : Option (Reading α) :=
  s.open?.map fun p => { s with current := some { p with segments := p.segments ++ [segment] } }

/-- The sub-path closed. -/
def close? (s : Reading α) : Option (Reading α) :=
  s.open?.map fun p => ⟨s.finished ++ [{ p with closed := true }], none, some p.start⟩

variable [Field α] [LinearOrder α]

/-- The reading after one more instruction, if it makes sense there. An arc is read as half a turn
    if its ends are level and two radii apart. -/
def step? (s : Reading α) : Instruction α → Option (Reading α)
  | .moveTo x y => some (s.move ⟨x, y⟩)
  | .lineTo x y => s.extend? (.line ⟨x, y⟩)
  | .quadTo cx cy x y => s.extend? (.quad ⟨cx, cy⟩ ⟨x, y⟩)
  | .arcTo r x y =>
    s.open?.bind fun p =>
      if p.last.y = y ∧ |x - p.last.x| = 2 * r then s.extend? (.halfTurn ⟨x, y⟩) else none
  | .close => s.close?

end Reading

/-- The sub-paths that path data denotes, if it can be read. -/
def read? [Field α] [LinearOrder α] (data : List (Instruction α)) : Option (List (SubPath α)) :=
  (data.foldlM Reading.step? Reading.start).map Reading.subPaths

namespace Reading

variable [Field α] [LinearOrder α]

theorem step?_arcTo {s : Reading α} {p : SubPath α} (hp : s.open? = some p) {r x y : α}
    (hy : p.last.y = y) (hx : |x - p.last.x| = 2 * r) :
    s.step? (.arcTo r x y) = s.extend? (.halfTurn ⟨x, y⟩) := by
  rw [step?, hp]
  exact if_pos ⟨hy, hx⟩

/-- The data of a rectangle is read as its outline. -/
theorem read_rect (s : Reading α) (x y w h : α) :
    (Instruction.ofStep (.rect x y w h)).foldlM step? s =
      some ⟨s.subPaths ++ [⟨⟨x, y⟩, [.line ⟨x + w, y⟩, .line ⟨x + w, y + h⟩, .line ⟨x, y + h⟩],
        true⟩], none, some ⟨x, y⟩⟩ := rfl

/-- The data of a circle is read as two half turns. -/
theorem read_circle [IsStrictOrderedRing α] (s : Reading α) (cx cy : α) {r : α} (hr : 0 < r) :
    (Instruction.ofStep (.circle cx cy r)).foldlM step? s =
      some ⟨s.subPaths ++ [⟨⟨cx + r, cy⟩, [.halfTurn ⟨cx - r, cy⟩, .halfTurn ⟨cx + r, cy⟩], true⟩],
        none, some ⟨cx + r, cy⟩⟩ := by
  have hpos : 0 < 2 * r := by linarith
  have hleft : |cx - r - (cx + r)| = 2 * r := by
    rw [show cx - r - (cx + r) = -(2 * r) by ring, abs_neg, abs_of_pos hpos]
  have hright : |cx + r - (cx - r)| = 2 * r := by
    rw [show cx + r - (cx - r) = 2 * r by ring, abs_of_pos hpos]
  show ((s.move ⟨cx + r, cy⟩).step? (.arcTo r (cx - r) cy) >>= _) = _
  rw [step?_arcTo (p := ⟨⟨cx + r, cy⟩, [], false⟩) (y := cy) rfl rfl hleft]
  show (step? ⟨s.subPaths, some ⟨⟨cx + r, cy⟩, [.halfTurn ⟨cx - r, cy⟩], false⟩,
    some ⟨cx + r, cy⟩⟩ (.arcTo r (cx + r) cy) >>= _) = _
  rw [step?_arcTo (p := ⟨⟨cx + r, cy⟩, [.halfTurn ⟨cx - r, cy⟩], false⟩) (y := cy) rfl rfl hright]
  rfl

end Reading

/-! ## 2. Connected paths -/

/-- Whether a path has a current point. -/
inductive Position where
  /-- There has been nothing but ends of sub-paths. -/
  | unset
  /-- The last sub-path has ended and no other has begun. -/
  | lost
  | known
  deriving DecidableEq

namespace Position

/-- The position after a step. -/
def after : Position → PathStep α → Position
  | _, .moveTo _ _ => known
  | _, .circle _ _ _ => lost
  | _, .rect _ _ _ _ => lost
  | unset, .newSubPath => unset
  | _, .newSubPath => lost
  | p, _ => p

/-- The step is connected: a line or a curve goes on from a current point, a close has something to
    close, and circles and rectangles have a size. -/
def Allows [Zero α] [LT α] : Position → PathStep α → Prop
  | p, .lineTo _ _ => p = known
  | p, .quadTo _ _ _ _ => p = known
  | p, .close => p ≠ unset
  | _, .circle _ _ r => 0 < r
  | _, .rect _ _ w h => 0 < w ∧ 0 < h
  | _, _ => True

end Position

/-- All steps are connected, from a position on. -/
def Connected [Zero α] [LT α] : Position → List (PathStep α) → Prop
  | _, [] => True
  | p, s :: steps => p.Allows s ∧ Connected (p.after s) steps

/-! ## 3. What is read and what is collected -/

/-- What has been read agrees with what the pixel surface has collected, but for sub-paths that
    draw nothing. -/
structure Agrees (position : Position) (t : Tracing α) (s : Reading α) : Prop where
  finished : t.finished.filter SubPath.draws = s.finished.filter SubPath.draws
  current : t.current = s.current
  origin : position ≠ .unset → s.origin = some t.resume
  hasPoint : t.hasPoint = decide (position = .known)

namespace Agrees

variable {position : Position} {t : Tracing α} {s : Reading α}

theorem subPaths_eq (h : Agrees position t s) :
    t.subPaths.filter SubPath.draws = s.subPaths.filter SubPath.draws := by
  rw [Tracing.subPaths, Reading.subPaths, List.filter_append, List.filter_append, h.finished,
    h.current]

theorem settled_eq (h : Agrees position t s) :
    t.settled.filter SubPath.draws = s.subPaths.filter SubPath.draws := by
  rw [← h.subPaths_eq, Tracing.settled, Tracing.subPaths, List.filter_append]
  cases t.current with
  | none => exact (List.append_nil _).symm
  | some p =>
    -- a move alone is dropped by the one, and draws nothing in the other
    cases hp : p.segments with
    | nil => simp [SubPath.draws, hp]
    | cons a l => simp [SubPath.draws, hp]

/-- What an instruction goes on with is what a step goes on with. -/
theorem open?_eq (h : Agrees position t s) (hp : position ≠ .unset) :
    s.open? = some (t.current.getD ⟨t.resume, [], false⟩) := by
  rw [Reading.open?, ← h.current, h.origin hp]
  cases t.current <;> rfl

theorem move (h : Agrees position t s) (p : Point α) : Agrees .known (t.move p) (s.move p) where
  finished := h.settled_eq
  current := rfl
  origin _ := rfl
  hasPoint := rfl

theorem extend (h : Agrees .known t s) (segment : Segment α) :
    ∃ s', s.extend? segment = some s' ∧ Agrees .known (t.extend segment) s' := by
  have hopen := h.open?_eq (by decide)
  rw [Reading.extend?, hopen]
  refine ⟨_, rfl, ?_⟩
  have hextend : t.extend segment = { t with
      current := some { t.current.getD ⟨t.resume, [], false⟩ with
        segments := (t.current.getD ⟨t.resume, [], false⟩).segments ++ [segment] } } := by
    rw [Tracing.extend]
    cases t.current <;> rfl
  rw [hextend]
  exact ⟨h.finished, rfl, h.origin, h.hasPoint⟩

theorem close (h : Agrees position t s) (hp : position ≠ .unset) :
    ∃ s', s.close? = some s' ∧ Agrees position t.close s' := by
  have hopen := h.open?_eq hp
  rw [Reading.close?, hopen]
  refine ⟨_, rfl, ?_⟩
  cases hcurrent : t.current with
  | none =>
    -- a second close closes a sub-path without segments
    have hclose : t.close = t := by rw [Tracing.close, hcurrent]
    rw [hclose]
    refine ⟨?_, hcurrent, fun _ => rfl, h.hasPoint⟩
    rw [List.filter_append, ← h.finished]
    exact (List.append_nil _).symm
  | some p =>
    have hclose : t.close = { t with
        finished := t.finished ++ [{ p with closed := true }], current := none
        resume := p.start } := by
      rw [Tracing.close, hcurrent]
    rw [hclose]
    refine ⟨?_, rfl, fun _ => rfl, h.hasPoint⟩
    rw [List.filter_append, List.filter_append, h.finished]
    rfl

/-- A closed sub-path of its own. -/
theorem insert (h : Agrees position t s) (p : SubPath α) :
    Agrees .lost (t.insert p) ⟨s.subPaths ++ [p], none, some p.start⟩ where
  finished := by
    show (t.settled ++ [p]).filter SubPath.draws = _
    rw [List.filter_append, List.filter_append, h.settled_eq]
  current := rfl
  origin _ := rfl
  hasPoint := rfl

/-- The end of a sub-path is not seen in the data. -/
theorem newSubPath (h : Agrees position t s) :
    Agrees (position.after (.newSubPath : PathStep α)) { t with hasPoint := false } s := by
  cases position with
  | unset => exact ⟨h.finished, h.current, fun hp => absurd rfl hp, rfl⟩
  | lost => exact ⟨h.finished, h.current, fun _ => h.origin (by decide), rfl⟩
  | known => exact ⟨h.finished, h.current, fun _ => h.origin (by decide), rfl⟩

theorem start [NatCast α] : Agrees .unset (Tracing.start (α := α)) Reading.start where
  finished := rfl
  current := rfl
  origin h := absurd rfl h
  hasPoint := rfl

variable [Field α] [LinearOrder α] [IsStrictOrderedRing α] [Numeric α] [ExactNumbers α]

/-- **One connected step** is read as it is collected. -/
theorem step (h : Agrees position t s) {step : PathStep α} (hstep : position.Allows step) :
    ∃ s', (Instruction.ofStep step).foldlM Reading.step? s = some s' ∧
      Agrees (position.after step) (t.step step) s' := by
  cases step with
  | moveTo x y =>
    rw [Tracing.step, Tracing.stored_eq]
    exact ⟨_, rfl, h.move ⟨x, y⟩⟩
  | lineTo x y =>
    obtain rfl : position = .known := hstep
    have hpoint : t.hasPoint = true := h.hasPoint
    obtain ⟨s', hs', hagrees⟩ := h.extend (.line ⟨x, y⟩)
    refine ⟨s', ?_, ?_⟩
    · simp [Instruction.ofStep, Reading.step?, hs']
    · rw [Tracing.step, if_pos hpoint, Tracing.stored_eq]
      exact hagrees
  | quadTo cx cy x y =>
    obtain rfl : position = .known := hstep
    have hpoint : t.hasPoint = true := h.hasPoint
    obtain ⟨s', hs', hagrees⟩ := h.extend (.quad ⟨cx, cy⟩ ⟨x, y⟩)
    refine ⟨s', ?_, ?_⟩
    · simp [Instruction.ofStep, Reading.step?, hs']
    · rw [Tracing.step, if_pos hpoint, Tracing.stored_eq, Tracing.stored_eq]
      exact hagrees
  | close =>
    obtain ⟨s', hs', hagrees⟩ := h.close hstep
    refine ⟨s', ?_, ?_⟩
    · simp [Instruction.ofStep, Reading.step?, hs']
    · cases position <;> exact hagrees
  | circle cx cy r =>
    have hr : 0 < r := hstep
    rw [Tracing.step, Tracing.circle?_eq cx cy hr.le]
    refine ⟨_, s.read_circle cx cy hr, ?_⟩
    cases position <;> exact h.insert _
  | rect x y w h' =>
    obtain ⟨hw, hh⟩ : 0 < w ∧ 0 < h' := hstep
    rw [Tracing.step, Tracing.rectangle?_eq x y hw.le hh.le]
    refine ⟨_, s.read_rect x y w h', ?_⟩
    cases position <;> exact h.insert _
  | newSubPath => exact ⟨s, rfl, h.newSubPath⟩

/-- **A connected run of steps** is read as it is collected. -/
theorem run (h : Agrees position t s) {steps : List (PathStep α)}
    (hsteps : Connected position steps) :
    ∃ s', (Instruction.ofSteps steps).foldlM Reading.step? s = some s' ∧
      s'.subPaths.filter SubPath.draws =
        (steps.foldl Tracing.step t).subPaths.filter SubPath.draws := by
  induction steps generalizing position t s with
  | nil => exact ⟨s, rfl, h.subPaths_eq.symm⟩
  | cons step steps ih =>
    obtain ⟨hstep, hsteps⟩ := hsteps
    obtain ⟨next, hnext, hagrees⟩ := h.step hstep
    obtain ⟨s', hs', hpaths⟩ := ih hagrees hsteps
    refine ⟨s', ?_, hpaths⟩
    rw [Instruction.ofSteps, List.flatMap_cons, List.foldlM_append, hnext]
    exact hs'

end Agrees

/-! ## 4. Whole paths -/

open Instruction

/-- **The data of a connected path is read as the sub-paths that the pixel surface collects**, but
    for those that draw nothing; and it is the data of the element that the path surface makes. -/
theorem connected_data_denotes [Field α] [LinearOrder α] [IsStrictOrderedRing α] [Numeric α]
    [ExactNumbers α] {k : Commit α} (h : Connected .unset k.steps) (gradient : Option String) :
    (∃ paths, read? (ofSteps k.steps) = some paths ∧
      paths.filter SubPath.draws = (SubPath.ofSteps k.steps).filter SubPath.draws) ∧
    ∀ e ∈ pathElements gradient k, e.attribute? "d" = some (dataText (ofSteps k.steps)) := by
  constructor
  · obtain ⟨s, hs, hpaths⟩ := Agrees.start.run h
    refine ⟨s.subPaths, ?_, hpaths⟩
    rw [read?, hs]
    rfl
  · intro e he
    unfold pathElements at he
    split at he
    · exact absurd he List.not_mem_nil
    · rw [List.mem_singleton.mp he]
      rfl

/-- A path with all kinds of steps. -/
theorem connected_data_denotes_all_steps :
    let steps : List (PathStep ℚ) := [.rect 0 0 4 4, .moveTo 1 1, .lineTo 3 1, .quadTo 3 3 1 3,
      .close, .lineTo 2 2, .newSubPath, .circle 9 9 2]
    Connected .unset steps ∧
      ∃ paths, read? (ofSteps steps) = some paths ∧
        paths.filter SubPath.draws = (SubPath.ofSteps steps).filter SubPath.draws := by
  intro steps
  have hside : (0 : ℚ) < 4 := by norm_num
  have hradius : (0 : ℚ) < 2 := by norm_num
  have h : Connected .unset steps :=
    ⟨⟨hside, hside⟩, trivial, rfl, rfl, nofun, rfl, trivial, hradius, trivial⟩
  let k : Commit ℚ := ⟨steps, Style.default, .solid Rgba.black, .fill⟩
  exact ⟨h, (connected_data_denotes (k := k) h none).1⟩

/-! ## 5. Paths that are not connected -/

/-- The end of a sub-path leaves no trace in the data. -/
theorem ofSteps_newSubPath [Add α] [Sub α] (before steps : List (PathStep α)) :
    ofSteps (before ++ .newSubPath :: steps) = ofSteps (before ++ steps) := by
  simp only [ofSteps, List.flatMap_append, List.flatMap_cons]
  rfl

/-- A step after which the pixel surface has no current point. -/
def endsSubPath : PathStep α → Bool
  | .circle _ _ _ => true
  | .rect _ _ _ _ => true
  | .newSubPath => true
  | _ => false

section

variable [Add α] [Sub α] [Div α] [NatCast α] [LE α] [DecidableLE α] [Numeric α]

theorem hasPoint_step {step : PathStep α} (h : endsSubPath step = true) (t : Tracing α) :
    (t.step step).hasPoint = false := by
  cases step with
  | circle cx cy r =>
    rw [Tracing.step]
    split <;> rfl
  | rect x y w h =>
    rw [Tracing.step]
    split <;> rfl
  | newSubPath => rfl
  | _ => cases h

/-- **A line after the end of a sub-path, a circle or a rectangle** begins a new sub-path on the
    pixel surface, as a move would. -/
theorem ofSteps_lineTo_after_end {step : PathStep α} (h : endsSubPath step = true)
    (before steps : List (PathStep α)) (x y : α) :
    SubPath.ofSteps (before ++ step :: .lineTo x y :: steps) =
      SubPath.ofSteps (before ++ step :: .moveTo x y :: steps) := by
  have hline : ∀ t : Tracing α, (t.step step).step (.lineTo x y) =
      (t.step step).step (.moveTo x y) :=
    fun t => if_neg (Bool.eq_false_iff.mp (hasPoint_step h t))
  simp only [SubPath.ofSteps, List.foldl_append, List.foldl_cons, hline]

end

/-- Data that does not begin with a move cannot be read, where the pixel surface begins a sub-path
    at the end of the line. -/
theorem lineTo_first [Field α] [LinearOrder α] [Numeric α] (steps : List (PathStep α)) (x y : α) :
    read? (ofSteps (.lineTo x y :: steps)) = none ∧
      SubPath.ofSteps (.lineTo x y :: steps) = SubPath.ofSteps (.moveTo x y :: steps) :=
  ⟨rfl, rfl⟩

/-- Two lines that the pixel surface keeps apart are one sub-path in the data. -/
theorem data_goes_on :
    let steps : List (PathStep ℚ) :=
      [.moveTo 0 0, .lineTo 4 0, .newSubPath, .lineTo 0 4, .lineTo 4 4]
    read? (ofSteps steps) = some [⟨⟨0, 0⟩, [.line ⟨4, 0⟩, .line ⟨0, 4⟩, .line ⟨4, 4⟩], false⟩] ∧
      SubPath.ofSteps steps = [⟨⟨0, 0⟩, [.line ⟨4, 0⟩], false⟩, ⟨⟨0, 4⟩, [.line ⟨4, 4⟩], false⟩] ∧
      ¬∃ paths, read? (ofSteps steps) = some paths ∧
        paths.filter SubPath.draws = (SubPath.ofSteps steps).filter SubPath.draws := by
  intro steps
  have hread : read? (ofSteps steps) =
      some [⟨⟨0, 0⟩, [.line ⟨4, 0⟩, .line ⟨0, 4⟩, .line ⟨4, 4⟩], false⟩] := rfl
  have hcollected : SubPath.ofSteps steps =
      [⟨⟨0, 0⟩, [.line ⟨4, 0⟩], false⟩, ⟨⟨0, 4⟩, [.line ⟨4, 4⟩], false⟩] := rfl
  refine ⟨hread, hcollected, fun h => ?_⟩
  obtain ⟨paths, hpaths, hsame⟩ := h
  obtain rfl := Option.some.inj (hread.symm.trans hpaths)
  rw [hcollected] at hsame
  exact absurd (congrArg List.length hsame) (by decide)

end Svg

end QrRender
