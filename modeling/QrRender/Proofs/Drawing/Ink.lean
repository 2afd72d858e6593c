import QrRender.Proofs.Drawing.Rest

/-!
# The attributes of a commit

The elements of a commit have attributes for their geometry, which differ from element to element,
and attributes for the ink, which they have in common. No name stands for both. So what an element
says of its fill or its stroke can be read off the attributes for the ink.

* `Svg.valueOf?`: the value of a name in a list of attributes;
* `Svg.attribute?_of_mem_commitElements`: an attribute that is not geometry, in any element of a
  commit;
* `Svg.valueOf?_fillAttributes`, `Svg.valueOf?_strokeAttributes`: the attributes for the ink that
  say something of fill and stroke.
-/

namespace QrRender.Svg

/-! ## 1. Values of names -/

/-- The value of a name in a list of attributes, the first one if there are several. -/
def valueOf? (name : String) (attributes : List (String × String)) : Option String :=
  (attributes.find? fun a => a.1 == name).map Prod.snd

theorem Element.attribute?_eq (e : Element) (name : String) :
    e.attribute? name = valueOf? name e.attributes :=
  rfl

variable (name : String)

@[simp]
theorem valueOf?_nil : valueOf? name [] = none := rfl

@[simp]
theorem valueOf?_cons (a : String × String) (as : List (String × String)) :
    valueOf? name (a :: as) = if a.1 = name then some a.2 else valueOf? name as := by
  unfold valueOf?
  by_cases h : a.1 = name <;> simp [h]

@[simp]
theorem valueOf?_append (as bs : List (String × String)) :
    valueOf? name (as ++ bs) = (valueOf? name as).or (valueOf? name bs) := by
  unfold valueOf?
  rw [List.find?_append]
  cases as.find? fun a => a.1 == name <;> rfl

theorem valueOf?_ite (p : Prop) [Decidable p] (as bs : List (String × String)) :
    valueOf? name (if p then as else bs) = if p then valueOf? name as else valueOf? name bs :=
  apply_ite _ _ _ _

/-! ## 2. Ink -/

variable {name : String} {α : Type}

section

variable [NatCast α] [Div α] [Numeric α]

theorem valueOf?_opacity {opacityName : String} (h : opacityName ≠ name) (paint : Paint) :
    valueOf? name (opacity α opacityName paint) = none := by
  simp [opacity, valueOf?_ite, h]

/-- A filled element has the fill of its paint, if that needs one, and no stroke. -/
theorem valueOf?_fillAttributes (gradient : Option String) (paint : Paint) (style : Style α) :
    valueOf? "fill" (fillAttributes gradient paint style) = fillValue? gradient paint ∧
      valueOf? "stroke" (fillAttributes gradient paint style) = none := by
  simp only [fillAttributes, valueOf?_append, valueOf?_ite]
  constructor
  · rw [valueOf?_opacity (by decide)]
    cases fillValue? gradient paint <;> simp
  · rw [valueOf?_opacity (by decide)]
    cases fillValue? gradient paint <;> simp

variable [LT α] [DecidableLT α]

/-- A stroked element has the stroke of its paint, the width if that is positive, and no fill. -/
theorem valueOf?_strokeAttributes (gradient : Option String) (paint : Paint) (style : Style α) :
    valueOf? "fill" (strokeAttributes gradient paint style) = some "none" ∧
      valueOf? "stroke" (strokeAttributes gradient paint style) =
        some (strokeValue gradient paint) ∧
      valueOf? "stroke-width" (strokeAttributes gradient paint style) =
        if ((0 : Nat) : α) < style.lineWidth then some (Numeric.text style.lineWidth)
        else none := by
  have hopacity : ∀ {name}, "stroke-opacity" ≠ name →
      valueOf? name (opacity α "stroke-opacity" paint) = none := fun h => valueOf?_opacity h paint
  simp only [strokeAttributes, valueOf?_append, valueOf?_ite]
  refine ⟨?_, ?_, ?_⟩
  · rw [hopacity (by decide)]
    simp
  · simp
  · rw [hopacity (by decide)]
    by_cases hw : ((0 : Nat) : α) < style.lineWidth <;> simp [hw]

end

/-! ## 3. Geometry -/

/-- The names of the attributes that are geometry. -/
def geometryNames : List String := ["d", "x", "y", "width", "height", "cx", "cy", "r"]

section

variable [Numeric α]

/-- The geometry of a primitive says nothing else. -/
theorem attribute?_primitive (h : name ∉ geometryNames) (attributes : List (String × String))
    (p : Primitive α) : (p.element attributes).attribute? name = valueOf? name attributes := by
  simp only [geometryNames, List.mem_cons, List.not_mem_nil, or_false, not_or] at h
  obtain ⟨-, hx, hy, hw, hh, hcx, hcy, hr⟩ := h
  cases p <;>
    simp [Primitive.element, Element.leaf, Element.attribute?_eq, Ne.symm hx, Ne.symm hy,
      Ne.symm hw, Ne.symm hh, Ne.symm hcx, Ne.symm hcy, Ne.symm hr]

theorem attribute?_path (h : name ∉ geometryNames) (attributes : List (String × String))
    (data : List (Instruction α)) :
    (pathElement data attributes).attribute? name = valueOf? name attributes := by
  simp only [geometryNames, List.mem_cons, List.not_mem_nil, or_false, not_or] at h
  simp [pathElement, Element.leaf, Element.attribute?_eq, Ne.symm h.1]

end

variable [Add α] [Sub α] [Div α] [NatCast α] [LT α] [DecidableLT α] [Numeric α]
  {kind : VectorKind} {gradient : Option String} {k : Commit α} {e : Element}

/-- An element of a commit has one of two forms. -/
theorem form_of_mem_commitElements (h : e ∈ commitElements kind gradient k) :
    let attributes := inkAttributes gradient k.ink k.paint k.style
    (∃ data : List (Instruction α), e = pathElement data attributes) ∨
      ∃ p : Primitive α, e = p.element attributes := by
  intro attributes
  cases kind with
  | path =>
    simp only [commitElements, pathElements] at h
    split at h
    · exact absurd h List.not_mem_nil
    · exact .inl ⟨_, List.mem_singleton.mp h⟩
  | primitive =>
    simp only [commitElements, primitiveElements] at h
    split at h
    · exact absurd h List.not_mem_nil
    split at h
    · obtain ⟨p, -, rfl⟩ := List.mem_map.mp h
      exact .inr ⟨p, rfl⟩
    · exact .inl ⟨_, List.mem_singleton.mp h⟩

/-- **The attributes of an element of a commit that are not geometry are those for the ink.** -/
theorem attribute?_of_mem_commitElements (h : e ∈ commitElements kind gradient k)
    (hname : name ∉ geometryNames) :
    e.attribute? name = valueOf? name (inkAttributes gradient k.ink k.paint k.style) := by
  obtain ⟨data, rfl⟩ | ⟨p, rfl⟩ := form_of_mem_commitElements h
  · exact attribute?_path hname _ data
  · exact attribute?_primitive hname _ p

/-- An element of a commit has no children. -/
theorem children_of_mem_commitElements (h : e ∈ commitElements kind gradient k) :
    e.children = [] := by
  obtain ⟨data, rfl⟩ | ⟨p, rfl⟩ := form_of_mem_commitElements h
  · rfl
  · cases p <;> rfl

end QrRender.Svg
