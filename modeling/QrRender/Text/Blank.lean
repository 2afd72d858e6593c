/-!
# Blank characters, trimming, and lines

A character is blank when it has the Unicode property White_Space. `trim` takes the blank
characters from both ends of a line; `lines` cuts a text at its newlines. A carriage return is
blank, so a line that ends in one is trimmed of it with the rest.
-/

namespace QrRender.Text

/-- The code points with the property White_Space. -/
def isBlank (c : Char) : Bool :=
  let n := c.toNat
  (9 ≤ n && n ≤ 13) || n == 0x20 || n == 0x85 || n == 0xA0 || n == 0x1680
    || (0x2000 ≤ n && n ≤ 0x200A) || n == 0x2028 || n == 0x2029 || n == 0x202F
    || n == 0x205F || n == 0x3000

/-- The characters without the blank ones at either end. -/
def trim (cs : List Char) : List Char :=
  ((cs.dropWhile isBlank).reverse.dropWhile isBlank).reverse

/-- The lines of a text: what stands between its newlines. -/
def lines : List Char → List (List Char)
  | [] => [[]]
  | c :: cs =>
    if c = '\n' then [] :: lines cs
    else
      match lines cs with
      | l :: ls => (c :: l) :: ls
      | [] => [[c]]

/-- The lines that hold something, each without the blanks at its ends. -/
def contentLines (cs : List Char) : List (List Char) :=
  ((lines cs).map trim).filter (fun l => !l.isEmpty)

end QrRender.Text
