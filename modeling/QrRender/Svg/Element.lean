/-!
# Elements of a vector document

A document is a tree of elements. An element has a name, attributes and children; the order of its
attributes carries no meaning, and no two of them have one name.

An element is printed with its attributes in the order of their names. A value goes between double
quotes, or between single quotes if it holds a double one; a value that holds both kinds cannot be
written and is left out with its name. Nothing in a value is escaped. An element without children
is closed in its own tag, and otherwise every child starts a line.
-/

namespace QrRender.Svg

/-- An element of a document. -/
structure Element where
  name : String
  attributes : List (String × String)
  children : List Element

namespace Element

/-- An element without children. -/
def leaf (name : String) (attributes : List (String × String)) : Element := ⟨name, attributes, []⟩

/-- The value of an attribute. -/
def attribute? (e : Element) (name : String) : Option String :=
  (e.attributes.find? fun a => a.1 == name).map Prod.snd

/-- The element with more children at the end. -/
def append (e : Element) (more : List Element) : Element :=
  { e with children := e.children ++ more }

/-- The quotation mark for a value, if there is one that the value does not hold. -/
def quote? (value : String) : Option Char :=
  let double := Char.ofNat 34
  let single := Char.ofNat 39
  if !value.toList.contains double then some double
  else if !value.toList.contains single then some single
  else none

/-- An attribute as it stands in a tag. -/
def attributeText (a : String × String) : String :=
  match quote? a.2 with
  | some q => " " ++ a.1 ++ "=" ++ q.toString ++ a.2 ++ q.toString
  | none => ""

/-- The opening of a tag: the name and the attributes. -/
def tagText (name : String) (attributes : List (String × String)) : String :=
  "<" ++ name ++ String.join ((attributes.mergeSort fun a b => a.1 ≤ b.1).map attributeText)

mutual

/-- The text of an element. -/
def text : Element → String
  | ⟨name, attributes, children⟩ =>
    tagText name attributes ++
      (if children.isEmpty then "/>" else ">" ++ childrenText children ++ "\n</" ++ name ++ ">")

/-- The text of children, each on a line of its own. -/
def childrenText : List Element → String
  | [] => ""
  | e :: es => "\n" ++ text e ++ childrenText es

end

end Element

end QrRender.Svg
