import QrRender.Raster.Coverage

/-!
# Strokes

A stroke covers everything within half its width of a line, cut straight at the ends of each of
its pieces. A sub-path becomes a chain of straight pieces; each piece is a band of the width of the
stroke, a disc rounds the joint between two of them, and the ends of an open chain get their caps.
At the joints inside a curve it is a sector on each side, which is all that the curve sweeps over.

A dash pattern cuts a chain into chains: lengths of line and lengths of gap in turn, along the
chain from its first point, and over the closing piece of a closed one. A pattern with an odd number
of lengths counts twice. If a closed chain ends inside a dash, that dash goes on into the first one.

A stroke whose width is not a positive number covers nothing.
-/

namespace QrRender

/-- A convex part of a stroke. -/
inductive StrokePart (α : Type) where
  | polygon (corners : List (Point α))
  | disc (centre : Point α) (radius : α)

/-- A point of a chain, and whether the chain may have a corner there. -/
structure Joint (α : Type) where
  point : Point α
  corner : Bool

/-- Straight pieces from joint to joint. A closed chain ends with the joint it starts with. -/
structure Chain (α : Type) where
  joints : List (Joint α)
  closed : Bool

namespace Chain

variable {α : Type} [Add α] [Sub α] [Mul α] [Div α] [NatCast α] [LT α] [DecidableLT α]
  [LE α] [DecidableLE α] [Numeric α]

/-! ## From sub-paths to chains -/

/-- Neither coordinate differs by more than rounding can make out: a step of 1 / 16384 or less is
    none. -/
def samePlace (p q : Point α) : Bool :=
  let step : α := ((1 : Nat) : α) / ((16384 : Nat) : α)
  magnitude (q.x - p.x) ≤ step && magnitude (q.y - p.y) ≤ step

/-- The points strictly inside a half turn. -/
def halfTurnInner (p q : Point α) : List (Point α) :=
  let cx := (p.x + q.x) / (2 : Nat)
  let r := Edge.radius p q
  let n := min 1024 (64 + 8 * Numeric.floor r)
  let first := if q.x < p.x then 0 else n
  (List.range (n - 1)).map fun k =>
    let (c, s) : α × α := Numeric.direction
      (((180 * (first + k + 1) : Nat) : α) / ((n : Nat) : α))
    ⟨cx + r * c, p.y - r * s⟩

/-- The number of chords for a curve that is stroked: more than the curve itself needs, because
    the sides of a stroke also follow its direction. -/
def strokeChords (p control q : Point α) : Nat := 4 * quadChords p control q

/-- The joints of segments that go on from a point. -/
def jointsOf (p : Point α) : List (Segment α) → List (Joint α)
  | [] => []
  | s :: rest =>
    let here : List (Joint α) :=
      match s with
      | .line q => [⟨q, true⟩]
      | .quad control q =>
        (quadInner (strokeChords p control q) p control q).map (⟨·, false⟩) ++ [⟨q, true⟩]
      | .halfTurn q => (halfTurnInner p q).map (⟨·, false⟩) ++ [⟨q, false⟩]
    here ++ jointsOf s.target rest

/-- The joints without those that repeat the place of the one before. -/
def withoutRepeats : List (Joint α) → List (Joint α)
  | [] => []
  | [j] => [j]
  | j :: k :: rest =>
    if samePlace j.point k.point then withoutRepeats (j :: rest)
    else j :: withoutRepeats (k :: rest)
  termination_by l => l.length

/-- The chain of a sub-path, unless it is a move alone. -/
def ofSubPath? (p : SubPath α) : Option (Chain α) :=
  if p.segments.isEmpty && !p.closed then none
  else
    let corner :=
      match p.segments.head? with
      | some (.halfTurn _) => false
      | _ => true
    let first : Joint α := ⟨p.start, corner⟩
    let joints := first :: jointsOf p.start p.segments
    some ⟨withoutRepeats (if p.closed then joints ++ [first] else joints), p.closed⟩

/-! ## Parts of a stroke -/

/-- The step of length `reach` from `p` in the direction of `q`. -/
def towards (reach : α) (p q : Point α) : Point α :=
  let dx := q.x - p.x
  let dy := q.y - p.y
  let length := Numeric.sqrt (dx * dx + dy * dy)
  ⟨reach * (dx / length), reach * (dy / length)⟩

/-- A corner of the outline of a stroke, in the precision of the surface. -/
def outlineCorner (x y : α) : Point α := ⟨Numeric.single x, Numeric.single y⟩

/-- The band around the piece from `p` to `q`. -/
def band (reach : α) (p q : Point α) : StrokePart α :=
  let d := towards reach p q
  .polygon [outlineCorner (p.x + d.y) (p.y - d.x), outlineCorner (q.x + d.y) (q.y - d.x),
    outlineCorner (q.x - d.y) (q.y + d.x), outlineCorner (p.x - d.y) (p.y + d.x)]

/-- The point `q` moved on by `reach` in the direction from `p`. -/
def beyond (reach : α) (p q : Point α) : Point α :=
  let d := towards reach p q
  ⟨q.x + d.x, q.y + d.y⟩

/-- The band around the piece from `a` to `b`. At a joint inside a curve it goes on a little, so
    that no gap is left before the next piece. -/
def piece (reach : α) (a b : Joint α) : StrokePart α :=
  let step : α := ((1 : Nat) : α) / ((1024 : Nat) : α)
  band reach (if a.corner then a.point else beyond step b.point a.point)
    (if b.corner then b.point else beyond step a.point b.point)

/-- Steps between `d` and `e` that halve the angle between them, and the halves again, `n` times in
    all; every step has the length `reach`. -/
def fan (reach : α) : Nat → Point α → Point α → List (Point α)
  | 0, _, _ => []
  | n + 1, d, e =>
    let middle := towards reach ⟨(0 : Nat), (0 : Nat)⟩ ⟨d.x + e.x, d.y + e.y⟩
    fan reach n d middle ++ middle :: fan reach n middle e

/-- What fills the joint `j` between the pieces from `p` and to `q`: a disc at a corner and where
    a curve turns back, and otherwise a sector on each side. -/
def jointParts (reach : α) (p : Point α) (j : Joint α) (q : Point α) : List (StrokePart α) :=
  let c := j.point
  let d := towards reach p c
  let e := towards reach c q
  let cosine := (d.x * e.x + d.y * e.y) / (reach * reach)
  if j.corner ∨ cosine < ((0 : Nat) : α) then [.disc c reach]
  else
    let isBent := cosine < ((99 : Nat) : α) / ((100 : Nat) : α)
    let steps := d :: (if isBent then fan reach 3 d e else []) ++ [e]
    [.polygon (c :: steps.map fun v => ⟨c.x + v.y, c.y - v.x⟩),
      .polygon (c :: steps.map fun v => ⟨c.x - v.y, c.y + v.x⟩)]

/-- The joints with the first one moved outwards. -/
def lengthened (reach : α) : List (Joint α) → List (Joint α)
  | a :: b :: rest => { a with point := beyond reach b.point a.point } :: b :: rest
  | joints => joints

/-- The joints as they are stroked: square caps make an open chain longer by half the width of
    the stroke at both ends. -/
def strokedJoints (cap : LineCap) (reach : α) (chain : Chain α) : List (Joint α) :=
  if chain.closed || cap != .square then chain.joints
  else (lengthened reach (lengthened reach chain.joints).reverse).reverse

/-- What a round cap adds at an end. -/
def capParts (cap : LineCap) (reach : α) (p : Point α) : List (StrokePart α) :=
  if cap = .round then [.disc p reach] else []

/-- What a chain of one place looks like: its caps alone. -/
def dotParts (cap : LineCap) (reach : α) (p : Point α) : List (StrokePart α) :=
  match cap with
  | .butt => []
  | .round => [.disc p reach]
  | .square => [band reach ⟨p.x - reach, p.y⟩ ⟨p.x + reach, p.y⟩]

/-- The bands between joints and what fills the joints between them. -/
def bodyParts (reach : α) : List (Joint α) → List (StrokePart α)
  | a :: b :: c :: rest =>
    piece reach a b :: jointParts reach a.point b c.point ++ bodyParts reach (b :: c :: rest)
  | [a, b] => [piece reach a b]
  | _ => []

/-- The parts of the stroke along a chain. -/
def parts (cap : LineCap) (reach : α) (chain : Chain α) : List (StrokePart α) :=
  let joints := strokedJoints cap reach chain
  match joints, joints.reverse with
  | [j], _ => dotParts cap reach j.point
  | a :: b :: _, z :: y :: _ =>
    bodyParts reach joints ++
      (if chain.closed then jointParts reach y.point a b.point
       else capParts cap reach a.point ++ capParts cap reach z.point)
  | _, _ => []

/-! ## Dashes -/

/-- The length of the piece between two points. -/
def distance (p q : Point α) : α :=
  let dx := q.x - p.x
  let dy := q.y - p.y
  Numeric.sqrt (dx * dx + dy * dy)

/-- The joints of a chain, each with its distance along the chain. -/
def placed (acc : α) : List (Joint α) → List (Joint α × α)
  | a :: b :: rest => (a, acc) :: placed (acc + distance a.point b.point) (b :: rest)
  | [a] => [(a, acc)]
  | [] => []

/-- The joint at a distance along a chain. -/
def jointAt (d : α) : List (Joint α × α) → Option (Joint α)
  | (a, da) :: (b, db) :: rest =>
    if d < db ∨ rest.isEmpty then
      let t := (d - da) / (db - da)
      some ⟨⟨Numeric.single (a.point.x + (b.point.x - a.point.x) * t),
        Numeric.single (a.point.y + (b.point.y - a.point.y) * t)⟩, true⟩
    else jointAt d ((b, db) :: rest)
  | [(a, _)] => some a
  | [] => none

/-- The joints of a chain from one distance to another. -/
def between (js : List (Joint α × α)) (low high : α) : List (Joint α) :=
  let inner := (js.filter fun (_, d) => decide (low < d) && decide (d < high)).map Prod.fst
  (jointAt low js).toList ++ inner ++ (jointAt high js).toList

/-- Lengths in turn along a chain of length `total`: for each its number in the pattern and where
    it starts and ends. -/
def stretches (pattern : Array α) (total : α) : Nat → Nat → α → List (Nat × α × α)
  | 0, _, _ => []
  | fuel + 1, k, d =>
    if d < total then
      let next := d + pattern.getD (k % pattern.size) total
      (k, d, if total < next then total else next) :: stretches pattern total fuel (k + 1) next
    else []

/-- The most dashes that a chain is cut into. -/
def maxDashes : Nat := 1000000

/-- The dashes of a chain, or `none` if there are too many. -/
def dashes? (pattern : Array α) (chain : Chain α) : Option (List (Chain α)) :=
  let zero : α := (0 : Nat)
  let js := placed zero chain.joints
  let total := (js.getLast?.map Prod.snd).getD zero
  let period := pattern.foldl (· + ·) zero
  let rounds := Numeric.floor (total / period)
  if ¬ zero < total then some []
  else if maxDashes < rounds * (pattern.size / 2) then none
  else
    let all := stretches pattern total ((rounds + 2) * pattern.size) 0 zero
    let on := all.filter fun (k, _, _) => k % 2 == 0
    let open_ (joints : List (Joint α)) : Chain α := ⟨joints, false⟩
    let cut := fun (s : Nat × α × α) => between js s.2.1 s.2.2
    if chain.closed then
      match on with
      | [] => some []
      | first :: later =>
        let head := cut first
        match later.reverse with
        | last :: before =>
          let done := before.reverse.map cut
          if last.1 + 1 = all.length then
            let corner := (chain.joints.head?.map Joint.corner).getD true
            let arriving := (cut last).dropLast
            let leaving := head.drop 1
            let seam := (head.head?.map fun j => { j with corner := corner }).toList
            some ((done ++ [arriving ++ seam ++ leaving]).map (open_ ∘ withoutRepeats))
          else some ((done ++ [cut last, head]).map (open_ ∘ withoutRepeats))
        | [] => some [open_ (withoutRepeats head)]
    else some (on.map (open_ ∘ withoutRepeats ∘ cut))

end Chain

namespace StrokePart

variable {α : Type} [Add α] [Sub α] [Mul α] [Div α] [NatCast α] [LT α] [DecidableLT α]
  [LE α] [DecidableLE α] [Numeric α]

/-- A part of a stroke on the surface. -/
def map (v : View α) : StrokePart α → StrokePart α
  | polygon corners => polygon (corners.map v.mapPoint)
  | disc centre radius => disc (v.mapPoint centre) (radius * magnitude (Numeric.single v.scale))

/-- The edges of a part. -/
def edges : StrokePart α → List (Edge α)
  | polygon corners =>
    match corners with
    | [] => []
    | first :: rest => (List.zip corners (rest ++ [first])).map fun (p, q) => .line p q
  | disc c r => [.arc ⟨c.x + r, c.y⟩ ⟨c.x - r, c.y⟩, .arc ⟨c.x - r, c.y⟩ ⟨c.x + r, c.y⟩]

/-- Where a row crosses a part: it enters at the least and leaves at the greatest of the places,
    whichever way round the part is given. -/
def crossings (y : α) (part : StrokePart α) : List (Crossing α) :=
  match extent? ((part.edges.flatMap (Edge.crossings y)).map Prod.fst) with
  | none => []
  | some (low, high) => [(low, 1), (high, -1)]

/-- The union of some parts. -/
def coverage? (parts : List (StrokePart α)) : Option (Coverage α) :=
  (extent? ((parts.flatMap edges).flatMap Edge.heights)).map fun (top, bottom) =>
    ⟨.nonZero, top, bottom, fun y => parts.flatMap (crossings y)⟩

end StrokePart

namespace Coverage

variable {α : Type} [Add α] [Sub α] [Mul α] [Div α] [NatCast α] [LT α] [DecidableLT α]
  [LE α] [DecidableLE α] [Numeric α]

/-- The pattern as it is followed: an odd number of lengths counts twice. One that is not finite
    or has no length is no pattern. -/
def dashPattern? (dash : List α) : Option (Array α) :=
  let lengths := dash.map Numeric.single
  let lengths := if lengths.length % 2 = 1 then lengths ++ lengths else lengths
  let zero : α := (0 : Nat)
  let period := lengths.foldl (fun sum d => Numeric.single (sum + d)) zero
  if lengths.all Numeric.isFinite ∧ Numeric.isFinite period ∧ zero < period then
    some lengths.toArray
  else none

/-- The stroke along a path of the drawing, seen through a view. -/
def ofStroke? (view : View α) (style : Style α) (path : List (SubPath α)) :
    Option (Coverage α) :=
  let width := Numeric.single style.lineWidth
  let reach := width / (2 : Nat)
  if ¬ (Numeric.isFinite width ∧ ((0 : Nat) : α) < width) ∨ ¬ path.all SubPath.isFinite then none
  else
    let chains := path.filterMap Chain.ofSubPath?
    let cut :=
      match dashPattern? style.dash with
      | none => some chains
      | some pattern => (chains.mapM (Chain.dashes? pattern)).map List.flatten
    cut.bind fun chains =>
      StrokePart.coverage? ((chains.flatMap (Chain.parts style.cap reach)).map (StrokePart.map view))

end Coverage

end QrRender
