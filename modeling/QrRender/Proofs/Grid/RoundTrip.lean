import QrRender.Proofs.Grid.Reading

/-!
# Grids written and read back

A grid with at least one module is read back from its text as it was. A grid without modules cannot
be: its text has no rows. In the other direction a text that writes a grid is not always the text of
that grid, because of blanks, blank lines and the ways in which a line ends; the text of the grid is
what is left of it without those, and it writes the same grid.

Writing cuts the list of modules into rows, and reading joins rows, so the two are inverse where the
list is as long as the sides of the grid say. That it is holds of every grid by its type, however the
grid was made.

* `RowMajor.cut`, `RowMajor.flatten_cut`, `RowMajor.cut_flatten`: cutting and joining;
* `Grid.ofText?_toText`, `Grid.ofText?_toText_of_empty`: from a grid to its text and back;
* `Grid.toText_of_ofText?`: from a text to its grid and back;
* **`Grid.text_round_trip`**: both, for all grids and all texts.
-/

namespace QrRender

/-! ## 1. Cutting and joining -/

namespace RowMajor

variable {β γ : Type}

/-- `h` rows of length `w`, cut from a list one after the other. -/
def cut (w h : Nat) (xs : List β) : List (List β) :=
  (List.range h).map fun y => (xs.drop (y * w)).take w

theorem cut_succ (w h : Nat) (xs : List β) :
    cut w (h + 1) xs = xs.take w :: cut w h (xs.drop w) := by
  have hrows : ∀ y ∈ List.range h, (xs.drop ((y + 1) * w)).take w =
      ((xs.drop w).drop (y * w)).take w := by
    intro y _
    rw [List.drop_drop, Nat.succ_mul, Nat.add_comm]
  rw [cut, List.range_succ_eq_map, List.map_cons, List.map_map, Nat.zero_mul, List.drop_zero]
  exact congrArg _ (List.map_congr_left hrows)

theorem cut_map (f : β → γ) (w h : Nat) (xs : List β) :
    cut w h (xs.map f) = (cut w h xs).map fun row => row.map f := by
  simp only [cut, List.map_map, ← List.map_drop, ← List.map_take]
  rfl

/-- Cutting a list of the right length loses nothing, and every row has its length. -/
theorem flatten_cut {w h : Nat} {xs : List β} (hlength : xs.length = w * h) :
    (cut w h xs).flatten = xs ∧ ∀ row ∈ cut w h xs, row.length = w := by
  induction h generalizing xs with
  | zero =>
    rw [Nat.mul_zero] at hlength
    rw [List.eq_nil_of_length_eq_zero hlength]
    exact ⟨rfl, nofun⟩
  | succ h ih =>
    rw [Nat.mul_succ] at hlength
    have hrest : (xs.drop w).length = w * h := by
      rw [List.length_drop]
      omega
    obtain ⟨hjoined, hrows⟩ := ih hrest
    rw [cut_succ]
    constructor
    · rw [List.flatten_cons, hjoined, List.take_append_drop]
    · refine List.forall_mem_cons.mpr ⟨?_, hrows⟩
      rw [List.length_take]
      omega

/-- Joined rows of one length are cut as they were. -/
theorem cut_flatten {w : Nat} {rows : List (List β)} (hrows : ∀ row ∈ rows, row.length = w) :
    cut w rows.length rows.flatten = rows := by
  induction rows with
  | nil => rfl
  | cons row rows ih =>
    obtain ⟨hrow, hrest⟩ := List.forall_mem_cons.mp hrows
    rw [List.length_cons, List.flatten_cons, cut_succ, List.take_left' hrow,
      List.drop_left' hrow, ih hrest]

end RowMajor

namespace Grid

/-! ## 2. Letters of a grid -/

/-- The rows of letters of a grid. -/
def letterRows (g : Grid) : List (List Char) := g.rows.map fun row => row.map Module.letter

/-- The text that writes some rows: a newline, and every row with a newline behind it. -/
def rowsText (rows : List (List Char)) : String :=
  String.ofList ('\n' :: rows.flatMap fun row => row ++ ['\n'])

theorem toText_eq (g : Grid) : g.toText = rowsText g.letterRows := by
  rw [toText, textChars, rowsText, letterRows, List.flatMap_map]

theorem letterRows_eq {g : Grid} (hw : g.width ≠ 0) :
    g.letterRows = RowMajor.cut g.width g.height (g.modules.toList.map Module.letter) := by
  rw [letterRows, rows, if_neg hw, RowMajor.cut_map]
  rfl

theorem isBlank_letter (m : Module) : Text.isBlank m.letter = false := by
  obtain ⟨dark, kind⟩ := m
  cases dark <;> cases kind <;> decide

/-- The letters of a grid stand in rows of its width. -/
theorem letterRows_spec {g : Grid} (hw : g.width ≠ 0) :
    g.letterRows.flatten = g.modules.toList.map Module.letter ∧
      ∀ row ∈ g.letterRows, row.length = g.width := by
  rw [letterRows_eq hw]
  refine RowMajor.flatten_cut ?_
  rw [List.length_map, Array.length_toList, g.size_modules]

theorem length_letterRows {g : Grid} (hw : g.width ≠ 0) : g.letterRows.length = g.height := by
  rw [letterRows_eq hw, RowMajor.cut, List.length_map, List.length_range]

/-- The rows of the text of a grid are its rows of letters. -/
theorem contentLines_toText {g : Grid} (hw : g.width ≠ 0) :
    Text.contentLines g.toText.toList = g.letterRows := by
  rw [toText_eq, rowsText, String.toList_ofList]
  refine Text.contentLines_flatMap fun row hrow => ⟨?_, fun c hc => ?_⟩
  · rintro rfl
    exact hw ((letterRows_spec hw).2 [] hrow).symm
  · obtain ⟨ms, -, rfl⟩ := List.mem_map.mp hrow
    obtain ⟨m, -, rfl⟩ := List.mem_map.mp hc
    exact isBlank_letter m

/-! ## 3. Round trips -/

/-- **A grid with a module is read back from its text.** -/
theorem ofText?_toText {g : Grid} (hw : g.width ≠ 0) (hh : g.height ≠ 0) :
    ofText? g.toText = some g := by
  have hlength := length_letterRows hw
  obtain ⟨hflat, hwidth⟩ := letterRows_spec hw
  rw [ofText?, ofTextChars?, contentLines_toText hw]
  refine ofLines?_eq_some_iff.mpr ⟨?_, hwidth, hlength, hflat⟩
  intro hnil
  rw [hnil] at hlength
  exact hh hlength.symm

/-- A grid without modules is not. -/
theorem ofText?_toText_of_empty {g : Grid} (h : g.width = 0 ∨ g.height = 0) :
    ofText? g.toText = none := by
  have hrows : g.letterRows = [] := by
    rw [letterRows, rows]
    rcases h with hw | hh
    · rw [if_pos hw]
      rfl
    · rw [hh]
      split <;> rfl
  rw [ofText?, toText_eq, hrows]
  decide

/-- **The text of a grid that was read** is what it was read from, row by row. -/
theorem toText_of_ofText? {s : String} {g : Grid} (h : ofText? s = some g) :
    g.toText = rowsText (Text.contentLines s.toList) ∧ g.width ≠ 0 ∧ g.height ≠ 0 := by
  obtain ⟨hne, hwidth, hheight, hflat⟩ := ofLines?_eq_some_iff.mp h
  obtain ⟨row, rest, hrows⟩ := List.exists_cons_of_ne_nil hne
  have hrow : row ∈ Text.contentLines s.toList := hrows ▸ List.mem_cons_self
  have hw : g.width ≠ 0 := by
    intro hw
    rw [← hwidth row hrow] at hw
    exact Text.ne_nil_of_mem_contentLines hrow (List.eq_nil_of_length_eq_zero hw)
  have hh : g.height ≠ 0 := by
    intro hh
    rw [← hheight] at hh
    exact hne (List.eq_nil_of_length_eq_zero hh)
  refine ⟨?_, hw, hh⟩
  rw [toText_eq, letterRows_eq hw, ← hflat, ← hheight, RowMajor.cut_flatten hwidth]

/-- **Grids and their texts.** Every grid that has a module is read back from its text as it was, and
    no other grid is. Where a text writes a grid, the text of the grid is the rows of the text, each
    with a newline behind it, after a newline; and it writes the same grid. -/
theorem text_round_trip :
    (∀ g : Grid, ofText? g.toText = if g.width = 0 ∨ g.height = 0 then none else some g) ∧
      ∀ s g, ofText? s = some g →
        (∃ rows, Text.IsRows s.toList rows ∧ g.toText = rowsText rows) ∧
          ofText? g.toText = some g := by
  constructor
  · intro g
    split
    · rename_i hempty
      exact ofText?_toText_of_empty hempty
    · rename_i hempty
      exact ofText?_toText (fun hw => hempty (.inl hw)) fun hh => hempty (.inr hh)
  · intro s g h
    obtain ⟨htext, hw, hh⟩ := toText_of_ofText? h
    exact ⟨⟨_, Text.isRows_iff.mpr rfl, htext⟩, ofText?_toText hw hh⟩

/-- A text that is not the text of its grid. -/
theorem text_round_trip_blanks :
    ∃ g, ofText? " fD\r\n \n\tTd" = some g ∧ g.toText = "\nfD\nTd\n" ∧
      ofText? "\nfD\nTd\n" = some g := by
  obtain ⟨g, hg⟩ : ∃ g, ofText? " fD\r\n \n\tTd" = some g :=
    Option.isSome_iff_exists.mp (by decide +kernel)
  obtain ⟨⟨rows, hrows, htext⟩, hback⟩ := text_round_trip.2 _ g hg
  have hrows' : rows = ["fD".toList, "Td".toList] := by
    rw [Text.isRows_iff.mp hrows]
    decide +kernel
  have htext' : g.toText = "\nfD\nTd\n" := by
    rw [htext, hrows']
    rfl
  exact ⟨g, hg, htext', htext' ▸ hback⟩

end Grid

end QrRender
