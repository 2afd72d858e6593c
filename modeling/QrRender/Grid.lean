import QrRender.Fault
import QrRender.RowMajor

/-!
# The module grid

A finished symbol is a grid of modules. A module is dark or light and plays one of seven roles.
The modules are kept row by row in one array, and the size of the array is the product of the two
sides; that is part of the type.

Reading and writing a module go through its place in the array, `y * width + x`. A column past the
right edge therefore reaches into the next row, and the operation fails only past the end of the
array. Within the grid, `get` and `set` are the usual pair.
-/

namespace QrRender

/-- The role of a module in the symbol. -/
inductive ModuleKind where
  | finder
  | separator
  | timing
  | alignment
  | format
  | version
  | data
  deriving DecidableEq

namespace ModuleKind

/-- Every role, in the order of their declaration. -/
def all : List ModuleKind :=
  [.finder, .separator, .timing, .alignment, .format, .version, .data]

/-- The name of a role. -/
def name : ModuleKind → String
  | .finder => "Finder"
  | .separator => "Separator"
  | .timing => "Timing"
  | .alignment => "Alignment"
  | .format => "Format"
  | .version => "Version"
  | .data => "Data"

end ModuleKind

/-- One module: whether it is dark, and its role. -/
structure Module where
  dark : Bool
  kind : ModuleKind
  deriving DecidableEq

/-- A light module of a role. -/
def Module.light (kind : ModuleKind) : Module := ⟨false, kind⟩

/-- A module together with its column and its row. -/
structure GridCell where
  column : Nat
  row : Nat
  content : Module
  deriving DecidableEq

/-- A rectangle of modules, row by row. -/
structure Grid where
  width : Nat
  height : Nat
  modules : Array Module
  size_modules : modules.size = width * height
  deriving DecidableEq

namespace Grid

/-- The grid whose module at column `x`, row `y` is `f x y`. -/
def ofFn (w h : Nat) (f : Nat → Nat → Module) : Grid where
  width := w
  height := h
  modules := Array.ofFn fun i : Fin (w * h) => f (i.val % w) (i.val / w)
  size_modules := Array.size_ofFn

/-- Light data modules throughout. -/
def blank (w h : Nat) : Grid := ofFn w h fun _ _ => Module.light .data

/-- The grid of `w` by `h` with these modules row by row, if their number is right. -/
def ofList? (w h : Nat) (ms : List Module) : Option Grid :=
  if hs : ms.length = w * h then
    some { width := w, height := h, modules := ms.toArray,
           size_modules := by rw [List.size_toArray]; exact hs }
  else none

/-- The place of column `x`, row `y` in the array. -/
def index (g : Grid) (x y : Nat) : Nat := y * g.width + x

/-- The module at column `x`, row `y`. -/
def get (g : Grid) (x y : Nat) : Except Fault Module := Checked.get g.modules (g.index x y)

/-- The grid with `m` at column `x`, row `y`. -/
def set (g : Grid) (x y : Nat) (m : Module) : Except Fault Grid :=
  if h : g.index x y < g.modules.size then
    .ok { g with modules := g.modules.set (g.index x y) m
                 size_modules := by rw [Array.size_set]; exact g.size_modules }
  else .error .outOfRange

theorem index_lt_size {g : Grid} {x y : Nat} (hx : x < g.width) (hy : y < g.height) :
    g.index x y < g.modules.size := by
  rw [g.size_modules]
  exact RowMajor.place_lt hx hy

theorem get_ofFn {w h x y : Nat} (f : Nat → Nat → Module) (hx : x < w) (hy : y < h) :
    (ofFn w h f).get x y = .ok (f x y) := by
  have hi : (ofFn w h f).index x y < (ofFn w h f).modules.size := index_lt_size hx hy
  refine (Checked.get_eq_ok hi).trans ?_
  simp only [ofFn, index, Array.getElem_ofFn, RowMajor.place_mod hx, RowMajor.place_div hx]

/-- Writing succeeds inside the grid. -/
theorem set_isOk {g : Grid} {x y : Nat} (m : Module) (hx : x < g.width) (hy : y < g.height) :
    ∃ g', g.set x y m = .ok g' := by
  simp only [set, index_lt_size hx hy, dite_true]
  exact ⟨_, rfl⟩

theorem set_eq_ok {g g' : Grid} {x y : Nat} {m : Module} (h : g.set x y m = .ok g') :
    g'.width = g.width ∧ g'.height = g.height ∧
      g'.modules = g.modules.setIfInBounds (g.index x y) m := by
  unfold set at h
  split at h
  · cases h
    exact ⟨rfl, rfl, by simp [Array.setIfInBounds, *]⟩
  · cases h

/-- `get` after `set`: the written module at its cell, and the old one at every other cell. -/
theorem get_set {g g' : Grid} {x y px py : Nat} {m : Module} (h : g.set x y m = .ok g')
    (hx : x < g.width) (hy : y < g.height) (hpx : px < g.width) :
    g'.get px py = if px = x ∧ py = y then .ok m else g.get px py := by
  obtain ⟨hw, -, hm⟩ := set_eq_ok h
  have hplace : g.index x y = g.index px py ↔ px = x ∧ py = y := by
    rw [index, index, RowMajor.place_inj hx hpx]
    exact ⟨fun h => ⟨h.1.symm, h.2.symm⟩, fun h => ⟨h.1.symm, h.2.symm⟩⟩
  have hindex : g'.index px py = g.index px py := by rw [index, index, hw]
  simp only [get, Checked.get, hindex, hm, Array.getElem?_setIfInBounds, hplace]
  by_cases he : px = x ∧ py = y
  · simp only [if_pos he, if_pos (index_lt_size hx hy)]
  · simp only [if_neg he]

/-- Every module with its place, row by row. -/
def cells (g : Grid) : List GridCell :=
  g.modules.toList.zipIdx.map fun (m, i) => ⟨i % g.width, i / g.width, m⟩

@[simp] theorem length_cells (g : Grid) : g.cells.length = g.width * g.height := by
  simp [cells, g.size_modules]

/-- The cells of a grid are its modules at their places. -/
theorem mem_cells {g : Grid} {c : GridCell} :
    c ∈ g.cells ↔
      (c.column < g.width ∧ c.row < g.height) ∧ g.get c.column c.row = .ok c.content := by
  have hget : ∀ i m, g.modules[i]? = some m ↔ Checked.get g.modules i = .ok m := by
    intro i m
    unfold Checked.get
    cases g.modules[i]? <;> simp
  simp only [cells, List.mem_map, Prod.exists, List.mk_mem_zipIdx_iff_getElem?,
    Array.getElem?_toList]
  constructor
  · intro h
    obtain ⟨m, i, hi, rfl⟩ := h
    have hlt : i < g.width * g.height := by
      rw [← g.size_modules]
      exact (Array.getElem?_eq_some_iff.mp hi).1
    refine ⟨RowMajor.mod_lt_div_lt hlt, ?_⟩
    rw [get, index, RowMajor.place_mod_div, ← hget]
    exact hi
  · intro h
    obtain ⟨⟨hx, hy⟩, hm⟩ := h
    refine ⟨c.content, g.index c.column c.row, (hget _ _).mpr hm, ?_⟩
    rw [index, RowMajor.place_mod hx, RowMajor.place_div hx]

/-- Every place of the grid has its cell. -/
theorem exists_mem_cells {g : Grid} {x y : Nat} (hx : x < g.width) (hy : y < g.height) :
    ∃ m, ⟨x, y, m⟩ ∈ g.cells := by
  have hi : g.index x y < g.modules.size := index_lt_size hx hy
  exact ⟨g.modules[g.index x y], mem_cells.mpr ⟨⟨hx, hy⟩, Checked.get_eq_ok hi⟩⟩

/-- No two cells of a grid are at one place. -/
theorem nodup_places (g : Grid) : (g.cells.map fun c => (c.column, c.row)).Nodup := by
  have hplaces : g.modules.toList.zipIdx.Pairwise fun a b => a.2 < b.2 := by
    rw [← List.pairwise_map (f := Prod.snd) (R := (· < ·)), List.zipIdx_map_snd]
    exact List.pairwise_lt_range'
  rw [cells, List.map_map]
  refine List.pairwise_map.mpr (hplaces.imp ?_)
  intro a b hlt heq
  obtain ⟨hmod, hdiv⟩ : a.2 % g.width = b.2 % g.width ∧ a.2 / g.width = b.2 / g.width :=
    Prod.mk.inj heq
  have ha := RowMajor.place_mod_div g.width a.2
  rw [hmod, hdiv, RowMajor.place_mod_div] at ha
  omega

/-- The rows of modules from top to bottom; none if the grid has no columns. -/
def rows (g : Grid) : List (List Module) :=
  if g.width = 0 then []
  else (List.range g.height).map fun y => (g.modules.toList.drop (y * g.width)).take g.width

end Grid

end QrRender
