import QrRender.Proofs.Grid.Reading

/-!
# Cells, row by row

A grid can be made blank, from a function, or from a text, and modules can be written inside of it
again and again. Whatever the order, its sides are those that it was made with, its array has a
place for every cell, and different cells have different places; so what is written at a cell is
read there, and every other cell is as it was.

The cells can be walked through one at a time. A cursor stands at a column and a row; each step
answers with the cell there and moves on, to the first column of the next row where the row is at
its end, and behind the last row every answer is that there is none. The `i`-th place on the way is
column `i % w` of row `i / w`, and so the answers are the cells of the grid in the order in which
they are kept.

* `Grid.Made`, `Grid.Made.sides`: the grids of a width and a height;
* `Grid.isOk_get`, `Grid.getElem?_cells`: modules and cells at places;
* `Grid.Cursor`, `Grid.next`, `Grid.answers`: the walk;
* `Grid.next_of_lt`, `Grid.next_end`, `Grid.answers_eq`: one step of it, and all;
* `Grid.ofFn_eq`: a grid is made again from what it answers;
* **`Grid.row_major_views`**: the ways to look at a grid agree.
-/

namespace QrRender

namespace Grid

/-! ## 1. Grids that are made -/

/-- The grids that are made with `w` columns and `h` rows, and then written to inside of them. -/
inductive Made (w h : Nat) : Grid → Prop
  | blank : Made w h (blank w h)
  | ofFn (f : Nat → Nat → Module) : Made w h (ofFn w h f)
  | ofText {s : String} {rows : List (List Char)} {g : Grid} (hrows : Text.IsRows s.toList rows)
      (hw : ∀ row ∈ rows, row.length = w) (hh : rows.length = h) (hg : ofText? s = some g) :
      Made w h g
  | set {g g' : Grid} {x y : Nat} {m : Module} (hg : Made w h g) (hx : x < w) (hy : y < h)
      (hset : g.set x y m = .ok g') : Made w h g'

variable {w h : Nat} {g : Grid}

/-- **A grid keeps the sides that it was made with.** -/
theorem Made.sides (hg : Made w h g) : g.width = w ∧ g.height = h := by
  induction hg with
  | blank => exact ⟨rfl, rfl⟩
  | ofFn f => exact ⟨rfl, rfl⟩
  | ofText hrows hw hh hg =>
    rw [Text.isRows_iff] at hrows
    obtain ⟨hne, hwidth, hheight, -⟩ := ofLines?_eq_some_iff.mp hg
    rw [← hrows] at hne hwidth hheight
    obtain ⟨row, hrow⟩ := List.exists_mem_of_ne_nil _ hne
    exact ⟨(hwidth row hrow).symm.trans (hw row hrow), hheight.symm.trans hh⟩
  | set hg hx hy hset ih =>
    obtain ⟨hwidth, hheight, -⟩ := set_eq_ok hset
    exact ⟨hwidth.trans ih.1, hheight.trans ih.2⟩

/-- There is a module at every cell. -/
theorem isOk_get {x y : Nat} (hx : x < g.width) (hy : y < g.height) :
    ∃ m, g.get x y = .ok m :=
  ⟨_, Checked.get_eq_ok (index_lt_size hx hy)⟩

/-- The cell at a place of the array. -/
theorem getElem?_cells {i : Nat} (hi : i < g.width * g.height) :
    ∃ m, g.get (i % g.width) (i / g.width) = .ok m ∧
      g.cells[i]? = some ⟨i % g.width, i / g.width, m⟩ := by
  have hsize : i < g.modules.size := by
    rw [g.size_modules]
    exact hi
  refine ⟨g.modules[i], ?_, ?_⟩
  · rw [get_eq_ok_iff, RowMajor.place_mod_div]
    simp [hsize]
  · simp [cells, hsize]

/-- Behind the last place there is no cell. -/
theorem getElem?_cells_of_le {i : Nat} (hi : g.width * g.height ≤ i) : g.cells[i]? = none :=
  List.getElem?_eq_none (g.length_cells.symm ▸ hi)

/-- The function answers as the grid does. -/
def Reads (g : Grid) (f : Nat → Nat → Module) : Prop :=
  ∀ x y, x < g.width → y < g.height → g.get x y = .ok (f x y)

theorem exists_reads (g : Grid) : ∃ f, g.Reads f := by
  have hget : ∀ x y, ∃ m, x < g.width → y < g.height → g.get x y = .ok m := by
    intro x y
    by_cases h : x < g.width ∧ y < g.height
    · obtain ⟨m, hm⟩ := isOk_get h.1 h.2
      exact ⟨m, fun _ _ => hm⟩
    · exact ⟨Module.light .data, fun hx hy => absurd ⟨hx, hy⟩ h⟩
  choose f hf using hget
  exact ⟨f, hf⟩

theorem eq_of_modules {g' : Grid} (hw : g.width = g'.width) (hh : g.height = g'.height)
    (hmodules : g.modules = g'.modules) : g = g' := by
  obtain ⟨w, h, ms, hs⟩ := g
  obtain ⟨w', h', ms', hs'⟩ := g'
  cases hw
  cases hh
  cases hmodules
  rfl

/-- **A grid is made again from what it answers.** -/
theorem ofFn_eq {f : Nat → Nat → Module} (hf : g.Reads f) : ofFn g.width g.height f = g := by
  have hsize : (ofFn g.width g.height f).modules.size = g.modules.size := by
    rw [size_modules, size_modules]
    rfl
  refine eq_of_modules rfl rfl (Array.ext hsize fun i hi hi' => ?_)
  obtain ⟨hx, hy⟩ := RowMajor.mod_lt_div_lt (g.size_modules ▸ hi')
  have hget := get_eq_ok_iff.mp (hf _ _ hx hy)
  rw [RowMajor.place_mod_div, Array.getElem?_toList, Array.getElem?_eq_getElem hi',
    Option.some.injEq] at hget
  rw [hget]
  exact Array.getElem_ofFn _

/-! ## 2. The walk -/

/-- Where a walk through the cells stands. -/
structure Cursor where
  column : Nat
  row : Nat
  deriving DecidableEq

namespace Cursor

/-- The cursor at the first cell. -/
def start : Cursor := ⟨0, 0⟩

/-- The cursor one cell further: the next in the row, or the first of the row below. -/
def forward (w : Nat) (c : Cursor) : Cursor :=
  if c.column + 1 = w then ⟨0, c.row + 1⟩ else ⟨c.column + 1, c.row⟩

/-- The cursor at a place. -/
def atPlace (w i : Nat) : Cursor := ⟨i % w, i / w⟩

/-- The place after a place. -/
theorem forward_atPlace (hw : 0 < w) (i : Nat) : (atPlace w i).forward w = atPlace w (i + 1) := by
  have hplace := RowMajor.place_mod_div w i
  have hmod := Nat.mod_lt i hw
  unfold forward atPlace
  simp only
  split
  · rename_i hend
    have hnext : i + 1 = (i / w + 1) * w + 0 := by
      rw [Nat.succ_mul]
      omega
    rw [hnext, RowMajor.place_mod hw, RowMajor.place_div hw]
  · have hnext : i + 1 = i / w * w + (i % w + 1) := by omega
    have hlt : i % w + 1 < w := by omega
    rw [hnext, RowMajor.place_mod hlt, RowMajor.place_div hlt]

end Cursor

/-- The answer at a cursor, and where the cursor goes. -/
def next (g : Grid) (c : Cursor) : Except Fault (Option GridCell × Cursor) :=
  if g.width = 0 ∨ g.height ≤ c.row then .ok (none, c)
  else do
    let m ← g.get c.column c.row
    return (some ⟨c.column, c.row, m⟩, c.forward g.width)

/-- The next `n` answers from a cursor on. -/
def answersFrom (g : Grid) : Nat → Cursor → Except Fault (List (Option GridCell))
  | 0, _ => .ok []
  | n + 1, c => do
    let (answer, c) ← g.next c
    let answers ← answersFrom g n c
    return answer :: answers

/-- The first `n` answers. -/
def answers (g : Grid) (n : Nat) : Except Fault (List (Option GridCell)) :=
  g.answersFrom n .start

open Cursor

/-- At a cell the cursor answers with it and goes on. -/
theorem next_of_lt {i : Nat} (hi : i < g.width * g.height) :
    g.next (atPlace g.width i) = .ok (g.cells[i]?, atPlace g.width (i + 1)) := by
  obtain ⟨hx, hy⟩ := RowMajor.mod_lt_div_lt hi
  have hw : 0 < g.width := Nat.zero_lt_of_lt hx
  obtain ⟨m, hm, hcell⟩ := getElem?_cells hi
  have hinside : ¬(g.width = 0 ∨ g.height ≤ (atPlace g.width i).row) := by
    rintro (hnone | hbelow)
    · exact hw.ne' hnone
    · exact absurd hy (Nat.not_lt.mpr hbelow)
  rw [next, if_neg hinside, hcell, ← forward_atPlace hw]
  show (g.get (i % g.width) (i / g.width) >>= _) = _
  rw [hm]
  rfl

/-- Behind the last cell it answers that there is none, and stays. -/
theorem next_end : g.next (atPlace g.width (g.width * g.height)) =
    .ok (none, atPlace g.width (g.width * g.height)) := by
  refine if_pos ?_
  rcases Nat.eq_zero_or_pos g.width with hw | hw
  · exact .inl hw
  · exact .inr (Nat.mul_div_cancel_left g.height hw).ge

/-- **The answers from a place on** are the cells from there on, and none when there are no more. -/
theorem answersFrom_atPlace {i : Nat} (hi : i ≤ g.width * g.height) (n : Nat) :
    g.answersFrom n (atPlace g.width i) = .ok ((List.range n).map fun k => g.cells[i + k]?) := by
  induction n generalizing i with
  | zero => rfl
  | succ n ih =>
    rw [answersFrom, List.range_succ_eq_map, List.map_cons, List.map_map, Nat.add_zero]
    rcases Nat.lt_or_eq_of_le hi with hlt | rfl
    · have hrest : ∀ k ∈ List.range n, g.cells[i + 1 + k]? = g.cells[i + (k + 1)]? := by
        intro k _
        rw [Nat.add_assoc, Nat.add_comm 1]
      rw [next_of_lt hlt]
      show (g.answersFrom n (atPlace g.width (i + 1)) >>= _) = _
      rw [ih hlt, List.map_congr_left hrest]
      rfl
    · -- the cursor stays where it is, and there is no cell at any place from here on
      have hrest : ∀ k, g.cells[g.width * g.height + k]? = none := fun k =>
        getElem?_cells_of_le (Nat.le_add_right _ k)
      rw [next_end]
      show (g.answersFrom n (atPlace g.width (g.width * g.height)) >>= _) = _
      rw [ih (Nat.le_refl _), getElem?_cells_of_le (Nat.le_refl _)]
      simp only [hrest, Function.comp_def]
      rfl

theorem answers_eq (g : Grid) (n : Nat) :
    g.answers n = .ok ((List.range n).map fun i => g.cells[i]?) := by
  have hstart : start = atPlace g.width 0 := by
    rw [atPlace, Nat.zero_mod, Nat.zero_div]
    rfl
  rw [answers, hstart, answersFrom_atPlace (Nat.zero_le _)]
  simp only [Nat.zero_add]

/-! ## 3. The views -/

/-- **The ways to look at a grid agree**, however it was made with `w` columns and `h` rows. Its
    array has a module for each cell. Writing a module inside of it succeeds, the module is read at
    its cell, and at every other cell what was read before. Walking through it answers with one cell
    for each place, that of column `i % w` and row `i / w` with the module read there, and then with
    no cell, however often it is asked. And the grid that is made from what it answers is the same
    grid. -/
theorem row_major_views {w h : Nat} {g : Grid} (hg : Made w h g) :
    g.modules.size = w * h ∧
      (∀ x y m, x < w → y < h → ∃ g', g.set x y m = .ok g' ∧ Made w h g' ∧ g'.get x y = .ok m ∧
        ∀ px py, px < w → py < h → (px ≠ x ∨ py ≠ y) →
          ∃ old, g.get px py = .ok old ∧ g'.get px py = .ok old) ∧
      (∀ n, g.answers n = .ok ((List.range n).map fun i => g.cells[i]?)) ∧
      (∀ i < w * h, ∃ m,
        g.get (i % w) (i / w) = .ok m ∧ g.cells[i]? = some ⟨i % w, i / w, m⟩) ∧
      (∀ i, w * h ≤ i → g.cells[i]? = none) ∧
      (∃ f, g.Reads f) ∧ ∀ f, g.Reads f → ofFn w h f = g := by
  obtain ⟨rfl, rfl⟩ := hg.sides
  refine ⟨g.size_modules, fun x y m hx hy => ?_, g.answers_eq, fun _ => getElem?_cells,
    fun _ => getElem?_cells_of_le, g.exists_reads, fun _ => ofFn_eq⟩
  obtain ⟨g', hset⟩ := set_isOk m hx hy
  refine ⟨g', hset, hg.set hx hy hset, ?_, fun px py hpx hpy hne => ?_⟩
  · rw [get_set hset hx hy hx, if_pos ⟨rfl, rfl⟩]
  · obtain ⟨old, hold⟩ := isOk_get hpx hpy
    have hother : ¬(px = x ∧ py = y) := fun h => hne.elim (· h.1) (· h.2)
    refine ⟨old, hold, ?_⟩
    rw [get_set hset hx hy hpx, if_neg hother, hold]

/-- A grid of two rows that is read from a text, and then written to. -/
theorem row_major_views_of_text :
    ∃ g g', ofText? "fDt\nTdF" = some g ∧ g.set 2 0 ⟨true, .format⟩ = .ok g' ∧
      g'.get 2 0 = .ok ⟨true, .format⟩ ∧ g'.get 0 1 = g.get 0 1 ∧ g'.modules.size = 6 := by
  obtain ⟨g, hg⟩ : ∃ g, ofText? "fDt\nTdF" = some g :=
    Option.isSome_iff_exists.mp (by decide +kernel)
  have hrows : Text.IsRows "fDt\nTdF".toList ["fDt".toList, "TdF".toList] :=
    Text.isRows_iff.mpr (by decide +kernel)
  have hmade : Made 3 2 g := .ofText hrows (by decide) rfl hg
  obtain ⟨-, hset, -⟩ := row_major_views hmade
  obtain ⟨g', hg', hmade', hread, hother⟩ := hset 2 0 ⟨true, .format⟩ (by decide) (by decide)
  obtain ⟨old, hold, hold'⟩ := hother 0 1 (by decide) (by decide) (.inl (by decide))
  exact ⟨g, g', hg, hg', hread, hold'.trans hold.symm, (row_major_views hmade').1⟩

end Grid

end QrRender
