import Mathlib.Data.List.Forall2
import Mathlib.Data.List.TakeWhile
import QrRender.Text.Blank

/-!
# Lines and rows of a text

The rows of a text are its lines without the blanks at their ends, where blank lines are left out.
Here this is said without the functions that compute it: a line is trimmed to a core if the line is
the core between blanks and the core has no blank at either end. A line ends in a newline, or in a
carriage return and a newline, and the end of the last line may be missing; for the rows it makes no
difference how the lines end, because a carriage return is a blank.

* `Text.Trimmed`, `Text.trim_eq_iff`: what a line is trimmed to;
* `Text.lines_eq_splitOn`, `Text.endedLines`: the lines of a text;
* `Text.IsRows`, **`Text.isRows_iff`**: the rows of a text are its content lines;
* `Text.contentLines_flatMap`: rows written line by line are the rows of what is written.
-/

namespace QrRender.Text

/-! ## 1. Trimming -/

/-- A line is trimmed to its core: blanks, the core, blanks, and none of the blanks is in the core
    where it could have been taken off. -/
structure Trimmed (line core : List Char) : Prop where
  around : ∃ before after, line = before ++ core ++ after ∧
    (∀ c ∈ before, isBlank c = true) ∧ ∀ c ∈ after, isBlank c = true
  first : ∀ c, core.head? = some c → isBlank c = false
  last : ∀ c, core.getLast? = some c → isBlank c = false

/-- What begins with no blank loses nothing in front. -/
theorem dropWhile_isBlank {cs : List Char} (h : ∀ c, cs.head? = some c → isBlank c = false) :
    cs.dropWhile isBlank = cs := by
  cases cs with
  | nil => rfl
  | cons c cs => rw [List.dropWhile_cons, if_neg (Bool.eq_false_iff.mp (h c List.head?_cons))]

theorem head?_dropWhile_isBlank {cs : List Char} {c : Char}
    (h : (cs.dropWhile isBlank).head? = some c) : isBlank c = false := by
  have hfirst := List.head?_dropWhile_not isBlank cs
  rw [h] at hfirst
  exact hfirst

/-- Trimming trims. -/
theorem trimmed_trim (line : List Char) : Trimmed line (trim line) := by
  have hfront : line.takeWhile isBlank ++ line.dropWhile isBlank = line :=
    List.takeWhile_append_dropWhile
  generalize hrest : line.dropWhile isBlank = rest at hfront
  have hback : trim line ++ (rest.reverse.takeWhile isBlank).reverse = rest := by
    rw [trim, hrest, ← List.reverse_append, List.takeWhile_append_dropWhile, List.reverse_reverse]
  refine ⟨⟨line.takeWhile isBlank, (rest.reverse.takeWhile isBlank).reverse, ?_, ?_, ?_⟩, ?_, ?_⟩
  · rw [List.append_assoc, hback, hfront]
  · exact fun c hc => List.mem_takeWhile_imp hc
  · exact fun c hc => List.mem_takeWhile_imp (List.mem_reverse.mp hc)
  · -- the core begins as the rest does, unless it is empty
    intro c hc
    have hfirst : (line.dropWhile isBlank).head? = some c := by
      rw [hrest, ← hback, List.head?_append, hc, Option.some_or]
    exact head?_dropWhile_isBlank hfirst
  · intro c hc
    rw [trim, List.getLast?_reverse] at hc
    exact head?_dropWhile_isBlank hc

/-- A line is trimmed to one core only. -/
theorem Trimmed.trim_eq {line core : List Char} (h : Trimmed line core) : trim line = core := by
  obtain ⟨⟨before, after, rfl, hbefore, hafter⟩, hfirst, hlast⟩ := h
  have hafter' : ∀ c ∈ after.reverse, isBlank c = true := fun c hc =>
    hafter c (List.mem_reverse.mp hc)
  have hfront : (before ++ core ++ after).dropWhile isBlank = (core ++ after).dropWhile isBlank := by
    rw [List.append_assoc, List.dropWhile_append_of_pos hbefore]
  rw [trim, hfront]
  cases core with
  | nil =>
    have hnil : after.dropWhile isBlank = [] := List.dropWhile_eq_nil_iff.mpr hafter
    rw [List.nil_append, hnil]
    rfl
  | cons c core =>
    have hhead : (c :: core ++ after).dropWhile isBlank = c :: core ++ after :=
      dropWhile_isBlank fun d hd => hfirst d hd
    rw [hhead, List.reverse_append, List.dropWhile_append_of_pos hafter', dropWhile_isBlank,
      List.reverse_reverse]
    intro d hd
    rw [List.head?_reverse] at hd
    exact hlast d hd

theorem trim_eq_iff {line core : List Char} : trim line = core ↔ Trimmed line core := by
  constructor
  · rintro rfl
    exact trimmed_trim line
  · exact Trimmed.trim_eq

/-- A blank at the end makes no difference. -/
theorem trim_concat {line : List Char} {c : Char} (hc : isBlank c = true) :
    trim (line ++ [c]) = trim line := by
  obtain ⟨⟨before, after, hline, hbefore, hafter⟩, hfirst, hlast⟩ := trimmed_trim line
  refine Trimmed.trim_eq ⟨⟨before, after ++ [c], ?_, hbefore, ?_⟩, hfirst, hlast⟩
  · rw [← List.append_assoc, ← hline]
  · intro d hd
    rcases List.mem_append.mp hd with hd | hd
    · exact hafter d hd
    · rw [List.mem_singleton.mp hd]
      exact hc

/-- What has no blanks is not trimmed. -/
theorem trim_eq_self {line : List Char} (h : ∀ c ∈ line, isBlank c = false) : trim line = line :=
  Trimmed.trim_eq ⟨⟨[], [], by rw [List.nil_append, List.append_nil], nofun, nofun⟩,
    fun c hc => h c (List.mem_of_mem_head? hc), fun c hc => h c (List.mem_of_getLast? hc)⟩

/-! ## 2. Lines -/

theorem lines_ne_nil (cs : List Char) : lines cs ≠ [] := by
  cases cs with
  | nil => exact List.cons_ne_nil _ _
  | cons c cs =>
    rw [lines]
    split
    · exact List.cons_ne_nil _ _
    · split <;> exact List.cons_ne_nil _ _

/-- The lines of a text are its pieces between the newlines. -/
theorem lines_eq_splitOn (cs : List Char) : lines cs = cs.splitOn '\n' := by
  induction cs with
  | nil => rfl
  | cons c cs ih =>
    rw [List.splitOn_cons_eq_if_modifyHead, ← ih, lines]
    by_cases hc : c = '\n'
    · rw [if_pos hc, if_pos (beq_iff_eq.mpr hc)]
    · rw [if_neg hc, if_neg (mt beq_iff_eq.mp hc)]
      cases hlines : lines cs with
      | nil => exact absurd hlines (lines_ne_nil cs)
      | cons l ls => rfl

/-- A newline ends a line. -/
theorem lines_append_newline {line cs : List Char} (h : '\n' ∉ line) :
    lines (line ++ '\n' :: cs) = line :: lines cs := by
  rw [lines_eq_splitOn, lines_eq_splitOn, List.splitOn_append_cons_self_of_not_mem h]

/-- A line without the carriage return that it may end in. -/
def dropReturn (line : List Char) : List Char :=
  if line.getLast? = some '\r' then line.dropLast else line

/-- The lines of a text, each ended by a newline or by a carriage return and a newline. Nothing
    stands behind the end of the last line, and that end may be missing. -/
def endedLines (cs : List Char) : List (List Char) :=
  let pieces := cs.splitOn '\n'
  pieces.dropLast.map dropReturn ++ pieces.getLast?.toList.filter fun l => !l.isEmpty

theorem trim_dropReturn (line : List Char) : trim (dropReturn line) = trim line := by
  unfold dropReturn
  split
  · rename_i h
    have hline : line.dropLast ++ ['\r'] = line := List.dropLast_append_getLast? _ h
    conv_rhs => rw [← hline]
    exact (trim_concat rfl).symm
  · rfl

/-! ## 3. Rows -/

/-- How the lines end makes no difference to what they hold. -/
theorem contentLines_eq (cs : List Char) :
    contentLines cs = ((endedLines cs).map trim).filter fun l => !l.isEmpty := by
  have hsplit : cs.splitOn '\n' ≠ [] := lines_eq_splitOn cs ▸ lines_ne_nil cs
  obtain ⟨last, hlast⟩ : ∃ last, (cs.splitOn '\n').getLast? = some last :=
    ⟨_, List.getLast?_eq_some_getLast hsplit⟩
  have hpieces : (cs.splitOn '\n').dropLast ++ [last] = cs.splitOn '\n' :=
    List.dropLast_append_getLast? _ hlast
  have htrims : (cs.splitOn '\n').dropLast.map (trim ∘ dropReturn) =
      (cs.splitOn '\n').dropLast.map trim := List.map_congr_left fun l _ => trim_dropReturn l
  rw [contentLines, lines_eq_splitOn]
  simp only [endedLines, hlast, List.map_append, List.map_map, htrims, List.filter_append]
  conv_lhs => rw [← hpieces, List.map_append, List.filter_append]
  congr 1
  cases last with
  | nil => rfl
  | cons c last => rfl

/-- The rows of a text: what its lines are trimmed to, without the blank ones. -/
def IsRows (cs : List Char) (rows : List (List Char)) : Prop :=
  ∃ cores, List.Forall₂ Trimmed (endedLines cs) cores ∧ rows = cores.filter fun l => !l.isEmpty

/-- **The rows of a text are its content lines.** -/
theorem isRows_iff {cs : List Char} {rows : List (List Char)} :
    IsRows cs rows ↔ rows = contentLines cs := by
  have hcores : ∀ cores, List.Forall₂ Trimmed (endedLines cs) cores ↔
      cores = (endedLines cs).map trim := by
    intro cores
    rw [← List.forall₂_eq_eq_eq, List.forall₂_map_right_iff]
    constructor
    · exact fun h => (h.imp fun _ _ h => h.trim_eq.symm).flip
    · exact fun h => h.flip.imp fun _ _ h => trim_eq_iff.mp h.symm
  simp only [IsRows, hcores, exists_eq_left, contentLines_eq]

/-- The lines of a text hold something. -/
theorem ne_nil_of_mem_contentLines {cs row : List Char} (h : row ∈ contentLines cs) :
    row ≠ [] := by
  have hrow := (List.mem_filter.mp h).2
  rintro rfl
  cases hrow

/-- Rows that are written one after the other, each with a newline behind it, are the lines of what
    is written; behind the last newline there is one more, which is empty. -/
theorem lines_flatMap {rows : List (List Char)} (h : ∀ row ∈ rows, '\n' ∉ row) :
    lines (rows.flatMap fun row => row ++ ['\n']) = rows ++ [[]] := by
  induction rows with
  | nil => rfl
  | cons row rows ih =>
    obtain ⟨hrow, hrows⟩ := List.forall_mem_cons.mp h
    rw [List.flatMap_cons, List.append_assoc, List.singleton_append, lines_append_newline hrow,
      ih hrows, List.cons_append]

/-- **Written rows are read back**, if none is empty and none has a blank. -/
theorem contentLines_flatMap {rows : List (List Char)}
    (h : ∀ row ∈ rows, row ≠ [] ∧ ∀ c ∈ row, isBlank c = false) :
    contentLines ('\n' :: rows.flatMap fun row => row ++ ['\n']) = rows := by
  have hnewline : ∀ row ∈ rows, '\n' ∉ row := by
    intro row hrow hmem
    exact absurd ((h row hrow).2 '\n' hmem) (by decide)
  have htrims : rows.map trim = rows :=
    (List.map_congr_left fun row hrow => trim_eq_self (h row hrow).2).trans (List.map_id rows)
  have hkept : rows.filter (fun l => !l.isEmpty) = rows := by
    refine List.filter_eq_self.mpr fun row hrow => ?_
    rw [List.isEmpty_eq_false_iff.mpr (h row hrow).1]
    rfl
  rw [contentLines, lines, if_pos rfl, lines_flatMap hnewline, List.map_cons, List.map_append,
    htrims, List.filter_cons, if_neg (by decide), List.filter_append, hkept]
  exact List.append_nil rows

end QrRender.Text
