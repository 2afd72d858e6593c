import QrRender.Proofs.Render.Total

/-!
# Hiding is erasing

A module that is hidden around the logo is drawn as if the grid had a light module there that
carries no data. Two renders say so: one of a grid with the zone around the logo, and one without
the zone, of the grid in which the hidden modules are erased.

* `Grid.erase`: the grid with some of its modules replaced by light ones;
* `Outcome.unhidden`: the outcome of a hidden module as that of a light one;
* `Renderer.withoutZone`: the renderer of the erased grid under options without the zone;
* `Renderer.neighbours_withoutZone`: both renders hand out the same masks;
* `Renderer.outcomeOf_withoutZone`: a hidden module becomes a blank one and no other changes;
* **`Renderer.hiding_is_erasing`**: the two renders make the same calls with the same masks, draw
  the same commands, and count the same but for the hidden modules.
-/

namespace QrRender

/-! ## 1. Erased grids -/

namespace Grid

/-- The grid with every module replaced by its value under a function of its cell. -/
def mapCells (g : Grid) (f : GridCell → Module) : Grid where
  width := g.width
  height := g.height
  modules := (g.cells.map f).toArray
  size_modules := by rw [List.size_toArray, List.length_map, length_cells]

theorem cells_mapCells (g : Grid) (f : GridCell → Module) :
    (g.mapCells f).cells = g.cells.map fun c => { c with content := f c } := by
  refine List.ext_getElem (by simp; rfl) fun i h h' => ?_
  simp [cells, mapCells]

/-- The grid with the modules at the places of `p` replaced by light ones of the given roles. -/
def erase (g : Grid) (p : Nat → Nat → Bool) (kind : Nat → Nat → ModuleKind) : Grid :=
  g.mapCells fun c => if p c.column c.row then Module.light (kind c.column c.row) else c.content

end Grid

/-- The cell with its module replaced by a light one of a role. -/
def GridCell.erased (c : GridCell) (kind : ModuleKind) : GridCell :=
  { c with content := Module.light kind }

theorem Grid.cells_erase (g : Grid) (p : Nat → Nat → Bool) (kind : Nat → Nat → ModuleKind) :
    (g.erase p kind).cells = g.cells.map fun c =>
      if p c.column c.row then c.erased (kind c.column c.row) else c := by
  rw [erase, cells_mapCells]
  refine List.map_congr_left fun c _ => ?_
  cases p c.column c.row <;> rfl

/-! ## 2. Hidden modules taken for light ones -/

/-- The outcome with a hidden module taken for a light one. -/
def Outcome.unhidden : Outcome → Outcome
  | hidden => blank
  | outcome => outcome

theorem Outcome.unhidden_of_isHidden {outcome : Outcome} (h : outcome.isHidden = true) :
    outcome.unhidden = blank := by
  cases outcome with
  | hidden => rfl
  | _ => cases h

theorem Outcome.unhidden_eq_self {outcome : Outcome} (h : outcome.isHidden = false) :
    outcome.unhidden = outcome := by
  cases outcome with
  | hidden => cases h
  | _ => rfl

/-- A hidden module makes no calls, and neither does a light one. -/
theorem Outcome.flatMap_calls_unhidden (outcomes : List Outcome) :
    (outcomes.map unhidden).flatMap calls = outcomes.flatMap calls := by
  rw [List.flatMap_map]
  congr 1
  funext outcome
  cases outcome <;> rfl

/-- Where hidden modules are taken for light ones, none is counted as hidden. -/
theorem RenderStats.foldl_record_unhidden (s : RenderStats) (outcomes : List Outcome) :
    (outcomes.map Outcome.unhidden).foldl record s =
      { outcomes.foldl record s with occluded := s.occluded } := by
  induction outcomes generalizing s with
  | nil => rfl
  | cons outcome outcomes ih =>
    rw [List.map_cons, List.foldl_cons, ih, List.foldl_cons, foldl_record, foldl_record]
    cases outcome <;> rfl

namespace Renderer

variable {α : Type}

/-! ## 3. The two renderers -/

/-- The renderer of a grid without its hidden modules, under options without a zone around the
    logo. -/
def withoutZone (r : Renderer α) (zone : Option Zone) (kind : Nat → Nat → ModuleKind) :
    Renderer α :=
  { r with options := { r.options with logoSafeZone := false }
           grid := r.grid.erase (r.isHidden zone) kind }

/-- Options without a zone are built by one more setting. -/
theorem build_withoutZone {files : String → Except String Picture} {b : Builder α} {o : Options α}
    (h : b.build files = .ok o) :
    (b.apply (.logoSafeZone false)).build files = .ok { o with logoSafeZone := false } := by
  obtain ⟨hw, logo, halftone, background, foreground, hlogo, hhalftone, hbackground, hforeground,
    rfl⟩ := Builder.build_eq_ok h
  simp only [Builder.build, Builder.apply, if_neg hw, hlogo, hhalftone, hbackground, hforeground]
  rfl

/-- The logo and the halftone do not depend on the modules. -/
theorem ofOptions_withoutZone [Mul α] [Div α] [NatCast α] [LT α] [DecidableLT α] [Numeric α]
    {o : Options α} {g : Grid} {r : Renderer α} (h : ofOptions o g = .ok r) (zone : Option Zone)
    (kind : Nat → Nat → ModuleKind) :
    ofOptions { o with logoSafeZone := false } (g.erase (r.isHidden zone) kind) =
      .ok (r.withoutZone zone kind) := by
  obtain ⟨logo, hlogo, h⟩ := Checked.bind_eq_ok h
  obtain rfl := Except.ok.inj h
  have hlogo' : Options.logoFor { o with logoSafeZone := false } (canvasWidth o g)
      (canvasHeight o g) (g.width * o.blockWidth) (g.height * o.blockWidth) = .ok logo := hlogo
  show (do
    let logo ← Options.logoFor { o with logoSafeZone := false } (canvasWidth o g)
      (canvasHeight o g) (g.width * o.blockWidth) (g.height * o.blockWidth)
    return _) = _
  rw [hlogo']
  rfl

theorem sound_withoutZone {r : Renderer α} (hr : r.Sound) (zone : Option Zone)
    (kind : Nat → Nat → ModuleKind) : (r.withoutZone zone kind).Sound where
  options := ⟨hr.options.blockWidth_pos, hr.options.logoMultiplier_pos, hr.options.gradient_stops,
    hr.options.resolution_pos⟩
  logo_fits := hr.logo_fits
  halftone_size := hr.halftone_size

variable {r : Renderer α} {zone : Option Zone} {kind : Nat → Nat → ModuleKind}
  {occupancy occupancy' : Occupancy}

/-- The occupancies of the two renders agree: what the one clears the other never had. -/
theorem isSet_withoutZone (h : r.occupancy zone = .ok occupancy)
    (h' : (r.withoutZone zone kind).occupancy none = .ok occupancy') {x y : Nat}
    (hx : x < r.grid.width) (hy : y < r.grid.height) :
    occupancy'.isSet x y = occupancy.isSet x y := by
  obtain ⟨bits, hbits, -, -, hset⟩ := r.occupancy_spec zone
  obtain ⟨bits', hbits', -, -, hset'⟩ := (r.withoutZone zone kind).occupancy_spec none
  obtain rfl : bits = occupancy := Except.ok.inj (hbits.symm.trans h)
  obtain rfl : bits' = occupancy' := Except.ok.inj (hbits'.symm.trans h')
  obtain ⟨m, hm⟩ := Grid.exists_mem_cells hx hy
  have hmem := List.mem_map_of_mem (f := fun c : GridCell =>
    if r.isHidden zone c.column c.row then c.erased (kind c.column c.row) else c) hm
  rw [← Grid.cells_erase] at hmem
  rw [hset ⟨x, y, m⟩ hm]
  cases hhidden : r.isHidden zone x y with
  | true =>
    simp only [hhidden, if_true] at hmem
    exact (hset' _ hmem).trans (Bool.and_false _).symm
  | false =>
    simp only [hhidden] at hmem
    exact hset' _ hmem

/-- Both renders hand out the same masks. -/
theorem neighbours_withoutZone (h : r.occupancy zone = .ok occupancy)
    (h' : (r.withoutZone zone kind).occupancy none = .ok occupancy') (x y : Nat) :
    occupancy'.neighbours x y = occupancy.neighbours x y := by
  obtain ⟨bits, hbits, hw, hh, -⟩ := r.occupancy_spec zone
  obtain ⟨bits', hbits', hw', hh', -⟩ := (r.withoutZone zone kind).occupancy_spec none
  obtain rfl : bits = occupancy := Except.ok.inj (hbits.symm.trans h)
  obtain rfl : bits' = occupancy' := Except.ok.inj (hbits'.symm.trans h')
  exact Occupancy.neighbours_congr (hw'.trans hw.symm) (hh'.trans hh.symm)
    (fun px py hpx hpy => isSet_withoutZone h h' (hw ▸ hpx) (hh ▸ hpy)) x y

/-! ## 4. Outcomes -/

/-- What becomes of a module that is erased where it was hidden. -/
theorem outcomeOf_withoutZone (hkind : ∀ x y, kind x y ≠ .data)
    (h : r.occupancy zone = .ok occupancy)
    (h' : (r.withoutZone zone kind).occupancy none = .ok occupancy') (c : GridCell) :
    (r.withoutZone zone kind).outcomeOf none occupancy'
        (if r.isHidden zone c.column c.row then c.erased (kind c.column c.row) else c) =
      (r.outcomeOf zone occupancy c).unhidden := by
  have houtcome := isHidden_outcomeOf r zone occupancy c
  cases hhidden : r.isHidden zone c.column c.row with
  | true =>
    rw [hhidden] at houtcome
    rw [Outcome.unhidden_of_isHidden houtcome]
    -- a light module that carries no data is left out, with or without a halftone
    have hdata := hkind c.column c.row
    simp only [if_true, outcomeOf, isHidden, GridCell.erased, Module.light]
    cases hk : kind c.column c.row with
    | data => exact absurd hk hdata
    | _ => cases (r.withoutZone zone kind).halftone <;> rfl
  | false =>
    rw [hhidden] at houtcome
    rw [Outcome.unhidden_eq_self houtcome]
    simp only [outcomeOf, neighbours_withoutZone h h', hhidden]
    rfl

/-- The outcomes of the two renders: the hidden ones are blank in the second, and all others are the
    same. -/
theorem outcomes_withoutZone (hr : r.Sound) (hzone : r.safeZone = .ok zone)
    (hkind : ∀ x y, kind x y ≠ .data) :
    ∃ outcomes, r.outcomes = .ok outcomes ∧
      (r.withoutZone zone kind).outcomes = .ok (outcomes.map Outcome.unhidden) ∧
      outcomes.countP Outcome.isHidden =
        r.grid.cells.countP fun c => r.isHidden zone c.column c.row := by
  obtain ⟨z, occupancy, hz, hoccupancy, houtcomes⟩ := outcomes_eq hr
  obtain rfl : z = zone := Except.ok.inj (hz.symm.trans hzone)
  obtain ⟨z', occupancy', hz', hoccupancy', houtcomes'⟩ :=
    outcomes_eq (sound_withoutZone hr z kind)
  obtain rfl : none = z' := Except.ok.inj hz'
  refine ⟨_, houtcomes, houtcomes'.trans (congrArg Except.ok ?_), ?_⟩
  · show (r.grid.erase (r.isHidden z) kind).cells.map _ = _
    rw [Grid.cells_erase, List.map_map, List.map_map]
    exact List.map_congr_left fun c _ => outcomeOf_withoutZone hkind hoccupancy hoccupancy' c
  · rw [List.countP_map]
    exact List.countP_congr fun c _ => by rw [Function.comp, isHidden_outcomeOf]

/-! ## 5. The two renders -/

variable [Add α] [Sub α] [Mul α] [Div α] [NatCast α] [LT α] [DecidableLT α]

/-- Two renders of which the second differs from the first by `hidden` hidden modules that are not
    there: the same calls, with the same paints and masks, the same commands, and the same
    statistics but for the hidden modules. -/
structure SameButHidden (r r' : Renderer α) (hidden : Nat) : Prop where
  calls : ∃ calls, r.calls = .ok calls ∧ r'.calls = .ok calls
  commands : ∃ commands, r.commands = .ok commands ∧ r'.commands = .ok commands
  stats : ∃ modules subCells,
    r.stats = .ok ⟨modules, subCells, hidden⟩ ∧ r'.stats = .ok ⟨modules, subCells, 0⟩

theorem sameButHidden_of_outcomes {r r' : Renderer α} {outcomes : List Outcome}
    (hshape : r'.options.shape = r.options.shape) (h : r.outcomes = .ok outcomes)
    (h' : r'.outcomes = .ok (outcomes.map Outcome.unhidden)) :
    r.SameButHidden r' (outcomes.countP Outcome.isHidden) := by
  have hcalls := calls_eq_of_outcomes h
  have hcalls' := calls_eq_of_outcomes h'
  have hstats := stats_eq_of_outcomes h
  have hstats' := stats_eq_of_outcomes h'
  rw [Outcome.flatMap_calls_unhidden] at hcalls'
  rw [RenderStats.foldl_record] at hstats
  rw [RenderStats.foldl_record_unhidden, RenderStats.foldl_record] at hstats'
  simp only [RenderStats.zero, Nat.zero_add] at hstats hstats'
  refine ⟨⟨_, hcalls, hcalls'⟩, ?_, _, _, hstats, hstats'⟩
  rw [Renderer.commands, Renderer.commands, hcalls, hcalls', hshape]
  exact ⟨_, rfl, rfl⟩

variable [Numeric α]

/-- **Hiding is erasing.** With built options every grid has a renderer and a zone; switching the
    zone off gives built options again, under which the grid with its hidden modules replaced by
    light ones that carry no data has a renderer; and the two renders are the same but for the
    hidden modules, which the first counts and the second does not have. -/
theorem hiding_is_erasing {files : String → Except String Picture} {b : Builder α} {o : Options α}
    (h : b.build files = .ok o) (g : Grid) {kind : Nat → Nat → ModuleKind}
    (hkind : ∀ x y, kind x y ≠ .data) :
    ∃ r zone, ofOptions o g = .ok r ∧ r.safeZone = .ok zone ∧
      ∃ o' r', (b.apply (.logoSafeZone false)).build files = .ok o' ∧
        o' = { o with logoSafeZone := false } ∧
        ofOptions o' (g.erase (r.isHidden zone) kind) = .ok r' ∧
        r.SameButHidden r' (g.cells.countP fun c => r.isHidden zone c.column c.row) := by
  obtain ⟨r, hr, rfl, rfl, hsound⟩ := ofOptions_sound (Builder.build_sound h) g
  obtain ⟨zone, -, hzone, -, -⟩ := outcomes_eq hsound
  obtain ⟨outcomes, houtcomes, houtcomes', hcount⟩ := outcomes_withoutZone hsound hzone hkind
  refine ⟨r, zone, hr, hzone, _, r.withoutZone zone kind, build_withoutZone h, rfl,
    ofOptions_withoutZone hr zone kind, ?_⟩
  rw [← hcount]
  exact sameButHidden_of_outcomes rfl houtcomes houtcomes'

/-- Dark modules behind a logo, with a halftone and a gradient. -/
theorem hiding_is_erasing_behind_logo :
    let p := Picture.ofFn .gray 1 1 fun _ _ _ => 0
    let b : Builder Float := Builder.ofSettings [.blockWidth 4, .logo p, .logoSafeZone true,
      .halftone p, .gradient ⟨0, [⟨0, .black⟩]⟩]
    let g := Grid.ofFn 9 9 fun x _ => ⟨true, if x < 4 then .finder else .data⟩
    (∀ _ _ : Nat, ModuleKind.timing ≠ .data) ∧
      ∃ o r zone r', b.build (fun _ => .error "missing") = .ok o ∧ o.logoSafeZone = true ∧
        ofOptions o g = .ok r ∧ r.safeZone = .ok zone ∧ r.isHidden zone 4 4 = true ∧
        ofOptions { o with logoSafeZone := false }
          (g.erase (r.isHidden zone) fun _ _ => .timing) = .ok r' ∧
        r.SameButHidden r' (g.cells.countP fun c => r.isHidden zone c.column c.row) := by
  intro p b g
  have hkind : ∀ _ _ : Nat, ModuleKind.timing ≠ .data := fun _ _ => by decide
  obtain ⟨o, ho⟩ : ∃ o, b.build (fun _ => .error "missing") = .ok o := ⟨_, rfl⟩
  obtain ⟨r, zone, hr, hzone, o', r', -, rfl, hr', hsame⟩ := hiding_is_erasing ho g hkind
  have hsafe : o.logoSafeZone = true := by
    obtain rfl := Except.ok.inj ho
    rfl
  have hhidden : r.isHidden zone 4 4 = true := by
    obtain rfl := Except.ok.inj ho
    obtain rfl := Except.ok.inj hr
    obtain rfl := Except.ok.inj hzone
    decide
  exact ⟨hkind, o, r, zone, r', ho, hsafe, hr, hzone, hhidden, hr', hsame⟩

end Renderer

end QrRender
