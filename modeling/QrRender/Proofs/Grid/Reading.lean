import QrRender.Grid.Text
import QrRender.Proofs.Text.Lines

/-!
# Reading a grid

Which texts write a grid, and which grid. The rows of a text write a grid if there is one, all are of
one length, and every character is one of seven letters in either case. The letter at column `x` of
row `y` is then that of the module there: it names the role, and it is a lower-case letter exactly if
the module is dark.

The modules of a grid stand in one list, row after row, so that everything is said of rows first and
carried over by place.

* `RowMajor.getElem?_flatten`: what stands at a place of joined rows;
* `ModuleKind.letter`, `Module.letter_eq_iff`: the letter of a module;
* `Grid.ofLines?_eq_some_iff`: the grid of some lines;
* `Grid.Writes`: rows of letters that write a grid;
* **`Grid.reads_exactly`**: which texts are read, and as what.
-/

namespace QrRender

/-! ## 1. Joined rows -/

namespace RowMajor

variable {β : Type} {w : Nat} {rows : List (List β)}

theorem length_flatten (h : ∀ row ∈ rows, row.length = w) :
    rows.flatten.length = w * rows.length := by
  induction rows with
  | nil => rfl
  | cons row rows ih =>
    obtain ⟨hrow, hrows⟩ := List.forall_mem_cons.mp h
    rw [List.flatten_cons, List.length_append, hrow, ih hrows, List.length_cons, Nat.mul_succ,
      Nat.add_comm]

/-- Rows of one length, joined: each has its place. -/
theorem getElem?_flatten (h : ∀ row ∈ rows, row.length = w) {x : Nat} (hx : x < w) (y : Nat) :
    rows.flatten[y * w + x]? = rows[y]?.bind fun row => row[x]? := by
  induction rows generalizing y with
  | nil => rfl
  | cons row rows ih =>
    obtain ⟨hrow, hrows⟩ := List.forall_mem_cons.mp h
    rw [List.flatten_cons]
    cases y with
    | zero =>
      rw [Nat.zero_mul, Nat.zero_add, List.getElem?_append_left (hrow.symm ▸ hx)]
      rfl
    | succ y =>
      have hplace : (y + 1) * w + x - row.length = y * w + x := by
        rw [hrow, Nat.succ_mul]
        omega
      have hbehind : row.length ≤ (y + 1) * w + x := by
        rw [hrow, Nat.succ_mul]
        omega
      rw [List.getElem?_append_right hbehind, hplace, ih hrows y]
      rfl

end RowMajor

/-! ## 2. Letters -/

/-- The letter of a role, in lower case. -/
def ModuleKind.letter : ModuleKind → Char
  | finder => 'f'
  | separator => 's'
  | timing => 't'
  | alignment => 'a'
  | format => 'm'
  | version => 'v'
  | data => 'd'

namespace Module

/-- A letter stands for the one module that has it. -/
theorem ofLetter?_eq_some_iff {c : Char} {m : Module} : ofLetter? c = some m ↔ m.letter = c := by
  constructor
  · intro h
    unfold ofLetter? at h
    split at h <;> first | cases h; rfl | cases h
  · rintro rfl
    exact ofLetter?_letter m

/-- Only characters of seven bits have another lower case. -/
theorem toLower_eq_self {c : Char} (h : 128 ≤ c.toNat) : c.toLower = c := by
  unfold Char.toLower
  refine dif_neg fun hupper => ?_
  have hle : c.toNat ≤ 90 := hupper.2
  omega

/-- The fourteen letters among the characters of seven bits. -/
theorem letter_of_lt : ∀ n < 128, ∀ kind ∈ ModuleKind.all,
    kind.letter = (Char.ofNat n).toLower →
      (⟨(Char.ofNat n).isLower, kind⟩ : Module).letter = Char.ofNat n := by
  decide +kernel

/-- **The letter of a module**: its lower case names the role, and it is in lower case exactly if the
    module is dark. -/
theorem letter_eq_iff {m : Module} {c : Char} :
    m.letter = c ↔ m.kind.letter = c.toLower ∧ m.dark = c.isLower := by
  obtain ⟨dark, kind⟩ := m
  constructor
  · rintro rfl
    cases dark <;> cases kind <;> decide
  · rintro ⟨hkind, hdark⟩
    simp only at hkind hdark
    have hmem : kind ∈ ModuleKind.all := by cases kind <;> decide
    have hsmall : kind.letter.toNat < 128 := by cases kind <;> decide
    have hc : c.toNat < 128 := by
      by_contra hlarge
      rw [hkind, toLower_eq_self (Nat.le_of_not_lt hlarge)] at hsmall
      exact hlarge hsmall
    have hletter := letter_of_lt c.toNat hc kind hmem
    rw [Char.ofNat_toNat] at hletter
    rw [hdark]
    exact hletter hkind

/-- Letters are read one by one. -/
theorem mapM_ofLetter?_eq_some_iff {cs : List Char} {ms : List Module} :
    cs.mapM ofLetter? = some ms ↔ cs = ms.map letter := by
  induction cs generalizing ms with
  | nil =>
    rw [List.mapM_nil, Option.pure_def, Option.some.injEq, eq_comm (a := ([] : List Char)),
      List.map_eq_nil_iff, eq_comm]
  | cons c cs ih =>
    simp only [List.mapM_cons, Option.bind_eq_bind, Option.pure_def, Option.bind_eq_some_iff,
      Option.some.injEq, ofLetter?_eq_some_iff, ih]
    constructor
    · rintro ⟨m, rfl, rest, rfl, rfl⟩
      rfl
    · intro h
      cases ms with
      | nil => cases h
      | cons m ms =>
        obtain ⟨rfl, rfl⟩ := List.cons.inj h
        exact ⟨m, rfl, ms, rfl, rfl⟩

/-- Characters of either case that are letters are read. -/
theorem exists_mapM_ofLetter? {cs : List Char}
    (h : ∀ c ∈ cs, ∃ kind : ModuleKind, kind.letter = c.toLower) :
    ∃ ms, cs.mapM ofLetter? = some ms := by
  induction cs with
  | nil => exact ⟨[], rfl⟩
  | cons c cs ih =>
    obtain ⟨⟨kind, hkind⟩, hcs⟩ := List.forall_mem_cons.mp h
    obtain ⟨ms, hms⟩ := ih hcs
    have hc : ofLetter? c = some ⟨c.isLower, kind⟩ :=
      ofLetter?_eq_some_iff.mpr (letter_eq_iff.mpr ⟨hkind, rfl⟩)
    rw [List.mapM_cons, hc, hms]
    exact ⟨_, rfl⟩

end Module

namespace Grid

/-! ## 3. Lines -/

theorem ofList?_eq_some_iff {w h : Nat} {ms : List Module} {g : Grid} :
    ofList? w h ms = some g ↔ w = g.width ∧ h = g.height ∧ ms = g.modules.toList := by
  unfold ofList?
  constructor
  · intro heq
    split at heq
    · cases heq
      exact ⟨rfl, rfl, rfl⟩
    · cases heq
  · rintro ⟨rfl, rfl, rfl⟩
    exact dif_pos (by rw [Array.length_toList, g.size_modules])

/-- **The grid of some lines.** -/
theorem ofLines?_eq_some_iff {rows : List (List Char)} {g : Grid} :
    ofLines? rows = some g ↔
      rows ≠ [] ∧ (∀ row ∈ rows, row.length = g.width) ∧ rows.length = g.height ∧
        rows.flatten = g.modules.toList.map Module.letter := by
  cases rows with
  | nil => exact ⟨nofun, fun h => absurd rfl h.1⟩
  | cons first rows =>
    have hlengths : (first :: rows).all (fun row => row.length == first.length) = true ↔
        ∀ row ∈ first :: rows, row.length = first.length := by
      simp only [List.all_eq_true, beq_iff_eq]
    rw [ofLines?]
    constructor
    · intro h
      split at h
      · rename_i hall
        split at h
        · rename_i ms hms
          obtain ⟨hw, hh, rfl⟩ := ofList?_eq_some_iff.mp h
          exact ⟨List.cons_ne_nil _ _, fun row hrow => (hlengths.mp hall row hrow).trans hw, hh,
            Module.mapM_ofLetter?_eq_some_iff.mp hms⟩
        · cases h
      · cases h
    · rintro ⟨-, hw, hh, hletters⟩
      have hfirst : first.length = g.width := hw first List.mem_cons_self
      rw [if_pos (hlengths.mpr fun row hrow => (hw row hrow).trans hfirst.symm),
        Module.mapM_ofLetter?_eq_some_iff.mpr hletters]
      exact ofList?_eq_some_iff.mpr ⟨hfirst, hh, rfl⟩

/-- The lines that write some grid. -/
theorem exists_ofLines?_iff {rows : List (List Char)} :
    (∃ g, ofLines? rows = some g) ↔
      rows ≠ [] ∧ (∀ row ∈ rows, ∀ row' ∈ rows, row.length = row'.length) ∧
        ∀ row ∈ rows, ∀ c ∈ row, ∃ kind : ModuleKind, kind.letter = c.toLower := by
  constructor
  · rintro ⟨g, hg⟩
    obtain ⟨hne, hw, -, hletters⟩ := ofLines?_eq_some_iff.mp hg
    refine ⟨hne, fun row hrow row' hrow' => (hw row hrow).trans (hw row' hrow').symm, ?_⟩
    intro row hrow c hc
    have hmem : c ∈ g.modules.toList.map Module.letter :=
      hletters ▸ List.mem_flatten_of_mem hrow hc
    obtain ⟨m, -, hm⟩ := List.mem_map.mp hmem
    exact ⟨m.kind, (Module.letter_eq_iff.mp hm).1⟩
  · rintro ⟨hne, hw, hletters⟩
    obtain ⟨first, rest, rfl⟩ := List.exists_cons_of_ne_nil hne
    have hjoined : ∀ c ∈ (first :: rest).flatten,
        ∃ kind : ModuleKind, kind.letter = c.toLower := by
      intro c hc
      obtain ⟨row, hrow, hc⟩ := List.mem_flatten.mp hc
      exact hletters row hrow c hc
    obtain ⟨ms, hms⟩ := Module.exists_mapM_ofLetter? hjoined
    have hflat := Module.mapM_ofLetter?_eq_some_iff.mp hms
    have hfirst : ∀ row ∈ first :: rest, row.length = first.length := fun row hrow =>
      hw row hrow first List.mem_cons_self
    have hsize : ms.toArray.size = first.length * (first :: rest).length := by
      rw [List.size_toArray, ← List.length_map (f := Module.letter), ← hflat,
        RowMajor.length_flatten hfirst]
    exact ⟨⟨first.length, (first :: rest).length, ms.toArray, hsize⟩,
      ofLines?_eq_some_iff.mpr ⟨hne, hfirst, rfl, hflat⟩⟩

/-! ## 4. Letters at places -/

/-- Rows of letters that write a grid: as many as it has rows, each as long as the grid is wide, and
    at every place the letter of the module there. -/
structure Writes (rows : List (List Char)) (g : Grid) : Prop where
  notEmpty : rows ≠ []
  width : ∀ row ∈ rows, row.length = g.width
  height : rows.length = g.height
  letters : ∀ x y, x < g.width → y < g.height →
    ∃ row c m, rows[y]? = some row ∧ row[x]? = some c ∧ g.get x y = .ok m ∧
      m.kind.letter = c.toLower ∧ m.dark = c.isLower

theorem get_eq_ok_iff {g : Grid} {x y : Nat} {m : Module} :
    g.get x y = .ok m ↔ g.modules.toList[y * g.width + x]? = some m := by
  rw [get, Checked.get, index, Array.getElem?_toList]
  cases g.modules[y * g.width + x]? <;> simp

/-- The letters of a grid, one after the other, are those of its rows if they agree place by
    place. -/
theorem flatten_eq_iff {rows : List (List Char)} {g : Grid}
    (hw : ∀ row ∈ rows, row.length = g.width) (hh : rows.length = g.height) :
    rows.flatten = g.modules.toList.map Module.letter ↔
      ∀ x y, x < g.width → y < g.height →
        ∃ row c m, rows[y]? = some row ∧ row[x]? = some c ∧ g.get x y = .ok m ∧ m.letter = c := by
  have hlength : rows.flatten.length = (g.modules.toList.map Module.letter).length := by
    rw [RowMajor.length_flatten hw, hh, List.length_map, Array.length_toList, g.size_modules]
  constructor
  · intro hflat x y hx hy
    have hplace := RowMajor.getElem?_flatten hw hx y
    have hindex : g.index x y < g.modules.size := index_lt_size hx hy
    have hm : g.get x y = .ok g.modules[g.index x y] := Checked.get_eq_ok hindex
    rw [hflat, List.getElem?_map, get_eq_ok_iff.mp hm, Option.map_some, eq_comm,
      Option.bind_eq_some_iff] at hplace
    obtain ⟨row, hrow, hc⟩ := hplace
    exact ⟨row, _, _, hrow, hc, hm, rfl⟩
  · intro hplaces
    refine List.ext_getElem? fun i => ?_
    by_cases hi : i < g.width * g.height
    · obtain ⟨hx, hy⟩ := RowMajor.mod_lt_div_lt hi
      obtain ⟨row, c, m, hrow, hc, hm, hletter⟩ := hplaces _ _ hx hy
      have hplace := RowMajor.getElem?_flatten hw hx (i / g.width)
      have hmodule := get_eq_ok_iff.mp hm
      rw [RowMajor.place_mod_div] at hplace hmodule
      rw [hplace, hrow, Option.bind_some, hc, List.getElem?_map, hmodule, Option.map_some, hletter]
    · -- behind the last place there is nothing on either side
      have hend : rows.flatten.length ≤ i := by
        rw [RowMajor.length_flatten hw, hh]
        exact Nat.le_of_not_lt hi
      rw [List.getElem?_eq_none hend, List.getElem?_eq_none (hlength ▸ hend)]

theorem ofLines?_eq_some_iff_writes {rows : List (List Char)} {g : Grid} :
    ofLines? rows = some g ↔ Writes rows g := by
  rw [ofLines?_eq_some_iff]
  constructor
  · rintro ⟨hne, hw, hh, hflat⟩
    refine ⟨hne, hw, hh, fun x y hx hy => ?_⟩
    obtain ⟨row, c, m, hrow, hc, hm, hletter⟩ := (flatten_eq_iff hw hh).mp hflat x y hx hy
    exact ⟨row, c, m, hrow, hc, hm, Module.letter_eq_iff.mp hletter⟩
  · rintro ⟨hne, hw, hh, hletters⟩
    refine ⟨hne, hw, hh, (flatten_eq_iff hw hh).mpr fun x y hx hy => ?_⟩
    obtain ⟨row, c, m, hrow, hc, hm, hletter⟩ := hletters x y hx hy
    exact ⟨row, c, m, hrow, hc, hm, Module.letter_eq_iff.mpr hletter⟩

/-- **Which texts are read, and as what.** A text is read exactly if it has a row, its rows are of one
    length, and every character in them is one of the seven letters in either case. It is read as the
    one grid that its rows write. -/
theorem reads_exactly (s : String) :
    ∃ rows, Text.IsRows s.toList rows ∧
      ((∃ g, ofText? s = some g) ↔
        rows ≠ [] ∧ (∀ row ∈ rows, ∀ row' ∈ rows, row.length = row'.length) ∧
          ∀ row ∈ rows, ∀ c ∈ row, ∃ kind : ModuleKind, kind.letter = c.toLower) ∧
      ∀ g, ofText? s = some g ↔ Writes rows g :=
  ⟨Text.contentLines s.toList, Text.isRows_iff.mpr rfl, exists_ofLines?_iff,
    fun _ => ofLines?_eq_some_iff_writes⟩

/-- Lines that end in different ways, blanks at their ends, and a blank line between them. -/
example : (ofText? " fD\r\n \n\tTd").map (fun g => (g.width, g.height, g.cells.map (·.content))) =
    some (2, 2, [⟨true, .finder⟩, ⟨false, .data⟩, ⟨false, .timing⟩, ⟨true, .data⟩]) := by
  decide +kernel

end Grid

end QrRender
