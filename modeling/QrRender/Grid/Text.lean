import QrRender.Grid
import QrRender.Text.Blank

/-!
# Grids as text

A grid is written with one letter a module and one line a row. The letter names the role, a
lower-case letter is a dark module and an upper-case letter a light one. The text starts with a
newline, and every row ends in one.

Reading drops blank lines and the blanks around each line. What is left has to be at least one
line, all of one length, and all of the fourteen letters.
-/

namespace QrRender

namespace Module

/-- The letter of a module. -/
def letter : Module → Char
  | ⟨true, .finder⟩ => 'f'
  | ⟨true, .separator⟩ => 's'
  | ⟨true, .timing⟩ => 't'
  | ⟨true, .alignment⟩ => 'a'
  | ⟨true, .format⟩ => 'm'
  | ⟨true, .version⟩ => 'v'
  | ⟨true, .data⟩ => 'd'
  | ⟨false, .finder⟩ => 'F'
  | ⟨false, .separator⟩ => 'S'
  | ⟨false, .timing⟩ => 'T'
  | ⟨false, .alignment⟩ => 'A'
  | ⟨false, .format⟩ => 'M'
  | ⟨false, .version⟩ => 'V'
  | ⟨false, .data⟩ => 'D'

/-- The module that a letter stands for. -/
def ofLetter? : Char → Option Module
  | 'f' => some ⟨true, .finder⟩
  | 's' => some ⟨true, .separator⟩
  | 't' => some ⟨true, .timing⟩
  | 'a' => some ⟨true, .alignment⟩
  | 'm' => some ⟨true, .format⟩
  | 'v' => some ⟨true, .version⟩
  | 'd' => some ⟨true, .data⟩
  | 'F' => some ⟨false, .finder⟩
  | 'S' => some ⟨false, .separator⟩
  | 'T' => some ⟨false, .timing⟩
  | 'A' => some ⟨false, .alignment⟩
  | 'M' => some ⟨false, .format⟩
  | 'V' => some ⟨false, .version⟩
  | 'D' => some ⟨false, .data⟩
  | _ => none

@[simp] theorem ofLetter?_letter (m : Module) : ofLetter? m.letter = some m := by
  obtain ⟨dark, kind⟩ := m
  cases dark <;> cases kind <;> rfl

end Module

namespace Grid

/-- The characters of a grid's text. -/
def textChars (g : Grid) : List Char :=
  '\n' :: g.rows.flatMap fun row => row.map Module.letter ++ ['\n']

/-- The text of a grid. -/
def toText (g : Grid) : String := String.ofList g.textChars

/-- The grid whose rows are these lines of letters. -/
def ofLines? (rows : List (List Char)) : Option Grid :=
  match rows with
  | [] => none
  | first :: _ =>
    if rows.all (fun row => row.length == first.length) then
      match rows.flatten.mapM Module.ofLetter? with
      | some ms => ofList? first.length rows.length ms
      | none => none
    else none

/-- The grid that the characters of a text write. -/
def ofTextChars? (cs : List Char) : Option Grid := ofLines? (Text.contentLines cs)

/-- The grid that a text writes, or `none`. -/
def ofText? (s : String) : Option Grid := ofTextChars? s.toList

end Grid

end QrRender
