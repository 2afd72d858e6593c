import QrRender.Output.Document
import QrRender.Proofs.Color.Hex
import QrRender.Proofs.Drawing.Primitive
import QrRender.Proofs.Image.Places
import QrRender.Proofs.Numeric.Whole
import QrRender.Proofs.Raster.Fill

/-!
# Documents read back as tiles

A document that shows squares consists of rectangles, written as elements of their own or as paths.
To compare it with a picture it has to be read: from the text of its attributes alone, as a viewer
would read it. A tile is what such an element says: the rectangle it fills, in whole units, its
colour and the text of its opacity. An element that is not filled with one colour, or says anything
else of itself, is no tile.

* `Decimal.natural?`, `Svg.boxOfData?`: reading numbers, and the data of a path around a rectangle;
* `Svg.Element.tile?`: reading an element as a tile;
* `Svg.Element.rectangles`, `Svg.Element.drawn`: the elements of a document that are read;
* `Svg.boxOfData?_dataText`: the data of a rectangle is read as the rectangle, if whole numbers are
  written as they are;
* **`Svg.tile?_path`, `Svg.tile?_rect`**: a box that is drawn as a path and as an element of its own
  is read as the same tile;
* `Svg.tile?_placedRect`, `Svg.tile?_fullRect`: the rectangles of a mesh and of the background.
-/

namespace QrRender

/-! ## 1. Numbers -/

/-- The natural number that a row of digits writes. -/
def Decimal.natural? (cs : List Char) : Option Nat :=
  if cs ≠ [] ∧ cs.all Char.isDigit then some (Nat.ofDigitChars 10 cs 0) else none

/-- A natural number is read as it was written. -/
theorem Decimal.natural?_digits (n : Nat) : natural? (digits n) = some n := by
  have hdigits : digits n ≠ [] ∧ (digits n).all Char.isDigit :=
    ⟨digits_ne_nil, List.all_eq_true.mpr fun _ => isDigit_of_mem_digits⟩
  rw [natural?, if_pos hdigits, digits, Nat.ofDigitChars_ten_toDigits]

namespace Svg

theorem natural?_natText (n : Nat) : Decimal.natural? (natText n).toList = some n := by
  rw [natText, String.toList_ofList, Decimal.natural?_digits]

/-! ## 2. Rectangles -/

/-- The corners of a rectangle as path data goes around it: right, down, and back to the left. -/
def boxOfCorners? : List Nat → Option Box
  | [x, y, right, y', right', bottom, x', bottom'] =>
    if y' = y ∧ right' = right ∧ x' = x ∧ bottom' = bottom ∧ x ≤ right ∧ y ≤ bottom then
      some ⟨x, y, right - x, bottom - y⟩
    else none
  | _ => none

/-- The rectangle that path data goes around. -/
def boxOfData? (cs : List Char) : Option Box :=
  match cs.splitOn ' ' with
  | ['M' :: a, b, 'L' :: c, d, 'L' :: e, f, 'L' :: g, h, ['Z']] =>
    ([a, b, c, d, e, f, g, h].mapM Decimal.natural?).bind boxOfCorners?
  | _ => none

theorem boxOfCorners?_eq (x y w h : Nat) :
    boxOfCorners? [x, y, x + w, y, x + w, y + h, x, y + h] = some ⟨x, y, w, h⟩ := by
  rw [boxOfCorners?, if_pos ⟨rfl, rfl, rfl, rfl, Nat.le_add_right .., Nat.le_add_right ..⟩,
    Nat.add_sub_cancel_left, Nat.add_sub_cancel_left]

/-- The pieces of path data around a rectangle with whole corners. -/
def boxPieces (b : Box) : List (List Char) :=
  ['M' :: Decimal.digits b.x, Decimal.digits b.y,
    'L' :: Decimal.digits (b.x + b.width), Decimal.digits b.y,
    'L' :: Decimal.digits (b.x + b.width), Decimal.digits (b.y + b.height),
    'L' :: Decimal.digits b.x, Decimal.digits (b.y + b.height), ['Z']]

theorem boxOfData?_pieces {cs : List Char} {b : Box} (h : cs.splitOn ' ' = boxPieces b) :
    boxOfData? cs = some b := by
  rw [boxOfData?, h]
  simp only [boxPieces, List.mapM_cons, Decimal.natural?_digits]
  exact boxOfCorners?_eq ..

section

variable {α : Type} [Add α] [Sub α] [NatCast α] [Numeric α] [WholeNumbers α] {b : Box}

/-- The data of a rectangle with whole corners. -/
theorem toList_dataText (hw : b.x + b.width < 2 ^ 53) (hh : b.y + b.height < 2 ^ 53) :
    (Instruction.dataText (Instruction.ofStep (b.step (α := α)))).toList =
      [' '].intercalate (boxPieces b) := by
  have hx : b.x < 2 ^ 53 := Nat.lt_of_le_of_lt (Nat.le_add_right ..) hw
  have hy : b.y < 2 ^ 53 := Nat.lt_of_le_of_lt (Nat.le_add_right ..) hh
  simp only [Box.step, Instruction.ofStep, Instruction.dataText, List.map_cons, List.map_nil,
    Instruction.text, Instruction.joined, WholeNumbers.natCast_add hw, WholeNumbers.natCast_add hh,
    WholeNumbers.text_natCast hx, WholeNumbers.text_natCast hy, WholeNumbers.text_natCast hw,
    WholeNumbers.text_natCast hh, String.toList_intercalate, String.toList_append,
    String.toList_ofList]
  simp [boxPieces, List.intercalate, List.intersperse]

/-- The data of a rectangle with whole corners is read as the rectangle. -/
theorem boxOfData?_dataText (hw : b.x + b.width < 2 ^ 53) (hh : b.y + b.height < 2 ^ 53) :
    boxOfData? (Instruction.dataText (Instruction.ofStep (b.step (α := α)))).toList = some b := by
  have hblank : ∀ n, ' ' ∉ Decimal.digits n := fun n h =>
    absurd (Decimal.isDigit_of_mem_digits h) (by decide)
  refine boxOfData?_pieces ?_
  rw [toList_dataText hw hh]
  refine List.splitOn_intercalate ' ' ?_ (List.cons_ne_nil _ _)
  simp [boxPieces, hblank]

end

/-! ## 3. Tiles -/

/-- A rectangle of a document: where it is, its colour, and the text of its opacity, if there is
    one. -/
structure Tile where
  box : Box
  color : Rgba
  opacity : Option String
  deriving DecidableEq

namespace Element

/-- The whole number in an attribute. -/
def whole? (e : Element) (name : String) : Option Nat :=
  (e.attribute? name).bind fun text => Decimal.natural? text.toList

/-- The coordinate in an attribute; zero where there is none. -/
def coordinate? (e : Element) (name : String) : Option Nat :=
  if (e.attribute? name).isSome then e.whole? name else some 0

/-- Where an element lies that is a rectangle. -/
def box? (e : Element) : Option Box :=
  if e.name = "rect" then do
    return ⟨← e.coordinate? "x", ← e.coordinate? "y", ← e.whole? "width", ← e.whole? "height"⟩
  else if e.name = "path" then (e.attribute? "d").bind fun data => boxOfData? data.toList
  else none

/-- The attributes that say all about a filled rectangle. -/
def tileAttributes : List String := ["x", "y", "width", "height", "d", "fill", "fill-opacity"]

/-- The tile that an element shows, if it is a rectangle that is filled with a colour and nothing
    else. -/
def tile? (e : Element) : Option Tile :=
  if e.children.isEmpty ∧ e.attributes.all fun a => tileAttributes.contains a.1 then do
    return ⟨← e.box?, ← (e.attribute? "fill").bind Rgba.ofHex?, e.attribute? "fill-opacity"⟩
  else none

end Element

/-- The children of an element that are rectangles. -/
def Element.rectangles (e : Element) : List Element := e.children.filter (·.name == "rect")

/-- The rectangles of an element whose children are rectangles between others. -/
theorem Element.rectangles_eq {e : Element} {before rects after : List Element}
    (h : e.children = before ++ rects ++ after) (hbefore : ∀ c ∈ before, c.name ≠ "rect")
    (hrects : ∀ c ∈ rects, c.name = "rect") (hafter : ∀ c ∈ after, c.name ≠ "rect") :
    e.rectangles = rects := by
  have hnone : ∀ others : List Element, (∀ c ∈ others, c.name ≠ "rect") →
      others.filter (·.name == "rect") = [] := fun others hothers =>
    List.filter_eq_nil_iff.mpr fun c hc => by simpa using hothers c hc
  have hall : rects.filter (·.name == "rect") = rects :=
    List.filter_eq_self.mpr fun c hc => beq_iff_eq.mpr (hrects c hc)
  rw [rectangles, h, List.filter_append, List.filter_append, hnone before hbefore, hall,
    hnone after hafter, List.nil_append, List.append_nil]

/-- The elements of a document that are drawn one after the other: its children, and in place of a
    group that says nothing of itself the elements in it. -/
def Element.drawn (e : Element) : List Element :=
  e.children.flatMap fun child =>
    if child.name = "g" ∧ child.attributes.isEmpty then child.children else [child]

/-- The text of the opacity of a colour, where it is not opaque. -/
def opacityText (α : Type) [NatCast α] [Div α] [Numeric α] (c : Rgba) : Option String :=
  if c.alpha < 255 then some (alphaText α c.alpha) else none

/-- The attributes of a rectangle that is filled with a colour. -/
def colorAttributes (α : Type) [NatCast α] [Div α] [Numeric α] (c : Rgba) :
    List (String × String) :=
  ("fill", c.toHex) :: ((opacityText α c).map fun text => ("fill-opacity", text)).toList

theorem opacityText_of_isOpaque {α : Type} [NatCast α] [Div α] [Numeric α] {c : Rgba}
    (h : c.isOpaque = true) : opacityText α c = none :=
  if_neg ((isOpaque_iff c).mp h)

/-- A rectangle that covers the canvas is read as it was written: its opacity is not. -/
theorem tile?_fullRect (w h : Nat) (c : Rgba) :
    (fullRect w h c).tile? = some ⟨⟨0, 0, w, h⟩, c.solid, none⟩ := by
  simp [fullRect, Element.leaf, Element.tile?, Element.tileAttributes, Element.box?,
    Element.coordinate?, Element.whole?, Element.attribute?, natural?_natText, Rgba.ofHex?_toHex]

/-- What is read one by one as it was written is read together. -/
theorem mapM_map_eq_some {β γ δ : Type} {read : γ → Option δ} {write : β → γ} {value : β → δ}
    {xs : List β} (h : ∀ a ∈ xs, read (write a) = some (value a)) :
    (xs.map write).mapM read = some (xs.map value) := by
  induction xs with
  | nil => rfl
  | cons a xs ih =>
    rw [List.map_cons, List.mapM_cons, h a List.mem_cons_self,
      ih fun b hb => h b (List.mem_cons_of_mem a hb)]
    rfl

/-! ## 4. Elements of colours -/

section

variable {α : Type} [NatCast α] [Div α] [Numeric α]

/-- A rectangle with the attributes of a colour is read as it was written. -/
theorem tile?_placedRect (b : Box) (c : Rgba) :
    (placedRect b.x b.y b.width b.height (colorAttributes α c)).tile? =
      some ⟨b, c.solid, opacityText α c⟩ := by
  cases h : opacityText α c <;>
    simp [placedRect, colorAttributes, h, Element.leaf, Element.tile?, Element.tileAttributes,
      Element.box?, Element.coordinate?, Element.whole?, Element.attribute?, natural?_natText,
      Rgba.ofHex?_toHex]

/-- The elements of a mesh have the attributes of their colours. -/
theorem meshElements_eq (rects : List ColorRect) :
    meshElements α rects = rects.map fun r =>
      placedRect r.x r.y r.width r.height (colorAttributes α r.color) := by
  refine List.map_congr_left fun r _ => ?_
  unfold colorAttributes opacityText
  split <;> rfl

/-- A fill in one colour has the attributes of the colour and no others. -/
theorem fillAttributes_solid [LT α] [DecidableLT α] (c : Rgba) :
    fillAttributes none (.solid c) (Style.default (α := α)) = colorAttributes α c := by
  have hrule : ¬(Style.default (α := α)).rule = .evenOdd := fun h => nomatch h
  unfold colorAttributes opacityText fillAttributes opacity
  by_cases halpha : c.alpha < 255 <;> simp [hrule, halpha, Paint.flat, fillValue?]

variable [Add α] [WholeNumbers α] {b : Box}

/-- A path around a rectangle with whole corners is read as the rectangle. -/
theorem tile?_path [Sub α] (hw : b.x + b.width < 2 ^ 53) (hh : b.y + b.height < 2 ^ 53) (c : Rgba) :
    (pathElement (Instruction.ofSteps [b.step (α := α)]) (colorAttributes α c)).tile? =
      some ⟨b, c.solid, opacityText α c⟩ := by
  have hdata := boxOfData?_dataText (α := α) hw hh
  cases h : opacityText α c <;>
    simp [pathElement, colorAttributes, h, hdata, Instruction.ofSteps, Element.leaf, Element.tile?,
      Element.tileAttributes, Element.box?, Element.attribute?, Rgba.ofHex?_toHex]

/-- A rectangle with whole corners is read as it was drawn. -/
theorem tile?_rect (hw : b.x + b.width < 2 ^ 53) (hh : b.y + b.height < 2 ^ 53) (c : Rgba) :
    (Primitive.element (colorAttributes α c)
      (.rect (b.x : α) (b.y : α) (b.width : α) (b.height : α))).tile? =
      some ⟨b, c.solid, opacityText α c⟩ := by
  have htext : ∀ n : Nat, n < 2 ^ 53 → Numeric.text (n : α) = natText n :=
    fun n hn => WholeNumbers.text_natCast hn
  have helement : Primitive.element (colorAttributes α c)
      (.rect (b.x : α) (b.y : α) (b.width : α) (b.height : α)) =
      placedRect b.x b.y b.width b.height (colorAttributes α c) := by
    rw [Primitive.element, placedRect, htext b.x (by omega), htext b.y (by omega),
      htext b.width (by omega), htext b.height (by omega)]
  rw [helement, tile?_placedRect]

end

end Svg

end QrRender
