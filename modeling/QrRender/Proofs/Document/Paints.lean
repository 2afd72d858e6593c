import QrRender.Proofs.Document.Parts
import QrRender.Proofs.Drawing.Ink
import QrRender.Proofs.Numeric.Exact
import QrRender.Proofs.Options.Built

/-!
# Paint in a document

What an element of the modules is filled with is said in up to three places: by the element, by the
group around it, where the element says nothing, and by the definition of the gradient, where
either refers to that. Together they say what was asked for. A commit asks for the paint in effect;
a gradient paint means the gradient of the options, if there is one, and its colour to fall back on
otherwise.

* `Svg.paintText`, `Svg.Painted`: what a commit asks for, and what an element in a group says;
* `Svg.painted_of_mem_commitElements`: an element of a commit says what the commit asks for;
* `Svg.Element.Within`, `Svg.Element.RefersTo`: elements at any depth, and references to a gradient;
* **`Options.paints_in_documents`**: the elements of a document are painted as their commits ask,
  and the gradient is defined before the group wherever something refers to it.
-/

namespace QrRender

namespace Svg

/-! ## 1. What is asked for -/

/-- A paint in a document that has a gradient of an id, or none. -/
def paintText (gradient : Option String) : Paint → String
  | .solid c => c.toHex
  | .gradient fallback => (gradient.map reference).getD fallback.toHex

/-- The paint is left to the gradient of the document. -/
def inGradient (gradient : Option String) : Paint → Bool
  | .solid _ => false
  | .gradient _ => gradient.isSome

variable {α : Type}

/-- The fill that a commit asks for: a stroke does not fill. -/
def askedFill (gradient : Option String) (k : Commit α) : String :=
  match k.ink with
  | .fill => paintText gradient k.paint
  | .stroke => "none"

/-- The stroke that a commit asks for, if it does. -/
def askedStroke (gradient : Option String) (k : Commit α) : Option String :=
  match k.ink with
  | .fill => none
  | .stroke => some (paintText gradient k.paint)

/-- An element in a group is painted as a commit asks. -/
structure Painted (gradient : Option String) (group : Element) (k : Commit α) (e : Element) :
    Prop where
  /-- Its fill, or else that of the group, is the one asked for. -/
  fill : (e.attribute? "fill").or (group.attribute? "fill") = some (askedFill gradient k)
  /-- So is its stroke. -/
  stroke : (e.attribute? "stroke").or (group.attribute? "stroke") = askedStroke gradient k
  /-- It takes the fill from the group exactly if it is filled with the gradient. -/
  inherits : e.attribute? "fill" = none ↔ k.ink = .fill ∧ inGradient gradient k.paint = true

/-- The gradient of a document is what it is left to. -/
theorem map_reference_of_inGradient {gradient : Option String} {p : Paint}
    (h : inGradient gradient p = true) : gradient.map reference = some (paintText gradient p) := by
  cases p with
  | solid c => cases h
  | gradient fallback =>
    cases gradient with
    | none => cases h
    | some id => rfl

/-- A reference starts as no colour does, nor the text for no fill. -/
theorem toHex_ne_reference (c : Rgba) (id : String) : c.toHex ≠ reference id := by
  intro h
  have hchars := congrArg String.toList h
  simp [Rgba.toHex, Rgba.hexChars, reference] at hchars

theorem none_ne_reference (id : String) : "none" ≠ reference id := by
  intro h
  have hchars := congrArg String.toList h
  simp [reference] at hchars

/-- Without a gradient a paint is a colour. -/
theorem paintText_none (p : Paint) : paintText none p = p.flat.toHex := by
  cases p <;> rfl

/-- Without a gradient a commit asks for no reference. -/
theorem asked_ne_reference (k : Commit α) (id : String) :
    askedFill none k ≠ reference id ∧ askedStroke none k ≠ some (reference id) := by
  unfold askedFill askedStroke
  rw [paintText_none]
  cases k.ink with
  | fill => exact ⟨toHex_ne_reference _ id, nofun⟩
  | stroke => exact ⟨none_ne_reference id, fun h => toHex_ne_reference _ id (Option.some.inj h)⟩

variable [Add α] [Sub α] [Div α] [NatCast α] [LT α] [DecidableLT α] [Numeric α]

omit [Add α] [Sub α] in
/-- The attributes for the ink say the fill and the stroke that are asked for, but for a fill with
    the gradient. -/
theorem valueOf?_inkAttributes (gradient : Option String) (k : Commit α) :
    valueOf? "fill" (inkAttributes gradient k.ink k.paint k.style) =
        (if k.ink = .fill ∧ inGradient gradient k.paint = true then none
          else some (askedFill gradient k)) ∧
      valueOf? "stroke" (inkAttributes gradient k.ink k.paint k.style) =
        askedStroke gradient k := by
  obtain ⟨steps, style, paint, ink⟩ := k
  cases ink with
  | fill =>
    obtain ⟨hfill, hstroke⟩ := valueOf?_fillAttributes gradient paint style
    refine ⟨hfill.trans ?_, hstroke⟩
    cases paint <;> cases gradient <;> rfl
  | stroke =>
    obtain ⟨hfill, hstroke, -⟩ := valueOf?_strokeAttributes gradient paint style
    refine ⟨hfill, hstroke.trans ?_⟩
    cases paint <;> cases gradient <;> rfl

variable {kind : VectorKind} {gradient : Option String} {k : Commit α} {e : Element}

/-- **An element of a commit is painted as the commit asks**, in a group that is filled with the
    gradient, if there is one, and not stroked. -/
theorem painted_of_mem_commitElements (h : e ∈ commitElements kind gradient k) {group : Element}
    (hfill : group.attribute? "fill" = gradient.map reference)
    (hstroke : group.attribute? "stroke" = none) : Painted gradient group k e := by
  obtain ⟨hown, hown'⟩ := valueOf?_inkAttributes gradient k
  rw [← attribute?_of_mem_commitElements h (by decide)] at hown hown'
  by_cases hinherits : k.ink = .fill ∧ inGradient gradient k.paint = true
  · rw [if_pos hinherits] at hown
    refine ⟨?_, ?_, fun _ => hinherits, fun _ => hown⟩
    · rw [hown, hfill, Option.none_or, map_reference_of_inGradient hinherits.2, askedFill,
        hinherits.1]
    · rw [hown', hstroke, Option.or_none]
  · rw [if_neg hinherits] at hown
    refine ⟨?_, ?_, fun hnone => ?_, fun h => absurd h hinherits⟩
    · rw [hown, Option.some_or]
    · rw [hown', hstroke, Option.or_none]
    · rw [hown] at hnone
      cases hnone

/-! ## 2. References -/

namespace Element

/-- The element is another one, or in it at some depth. -/
inductive Within : Element → Element → Prop where
  | self (e : Element) : Within e e
  | child {d c e : Element} (hc : c ∈ e.children) (h : Within d c) : Within d e

/-- The element is filled or stroked with the gradient of an id. -/
def RefersTo (id : String) (e : Element) : Prop :=
  e.attribute? "fill" = some (reference id) ∨ e.attribute? "stroke" = some (reference id)

/-- The element has the definition of a linear gradient with an id. -/
def Defines (id : String) (e : Element) : Prop :=
  e.name = "defs" ∧ ∃ l ∈ e.children, l.name = "linearGradient" ∧ l.attribute? "id" = some id

/-- No element within refers to the gradient of an id. -/
def Free (id : String) (e : Element) : Prop := ∀ d : Element, d.Within e → ¬d.RefersTo id

theorem not_refersTo {e : Element} (hfill : e.attribute? "fill" = none)
    (hstroke : e.attribute? "stroke" = none) (id : String) : ¬e.RefersTo id := by
  rintro (hrefers | hrefers)
  · cases hfill.symm.trans hrefers
  · cases hstroke.symm.trans hrefers

theorem free_of_children {id : String} {e : Element} (h : ¬e.RefersTo id)
    (hchildren : ∀ c ∈ e.children, c.Free id) : e.Free id := by
  intro d hd
  cases hd with
  | self => exact h
  | child hc hwithin => exact hchildren _ hc d hwithin

theorem free_of_leaf {id : String} {e : Element} (h : ¬e.RefersTo id) (hleaf : e.children = []) :
    e.Free id :=
  free_of_children h fun _ hc => absurd (hleaf ▸ hc) List.not_mem_nil

end Element

/-- Without a gradient no element of a commit refers to one. -/
theorem free_of_mem_commitElements (h : e ∈ commitElements kind none k) (id : String) :
    e.Free id := by
  refine Element.free_of_leaf ?_ (children_of_mem_commitElements h)
  obtain ⟨hfill, hstroke⟩ := valueOf?_inkAttributes none k
  rw [← attribute?_of_mem_commitElements h (by decide)] at hfill hstroke
  obtain ⟨hne, hne'⟩ := asked_ne_reference k id
  rintro (hrefers | hrefers)
  · rw [hrefers] at hfill
    split at hfill
    · cases hfill
    · exact hne (Option.some.inj hfill).symm
  · exact hne' (hstroke.symm.trans hrefers)

end Svg

/-! ## 3. Documents -/

namespace Svg

variable {α : Type} [Add α] [Sub α] [Div α] [NatCast α] [LT α] [DecidableLT α] [Numeric α]

/-- A document with a group, and parts before and after it, that paints some commits as they ask. -/
structure PaintsCommits (kind : VectorKind) (gradient : Option String) (ks : List (Commit α))
    (doc : Element) (before : List Element) (modules : Element) (after : List Element) : Prop where
  order : doc.children = before ++ modules :: after
  name : modules.name = "g"
  /-- The group is filled with the gradient, if there is one, and leaves strokes to the elements. -/
  group : modules.attribute? "fill" = gradient.map reference ∧ modules.attribute? "stroke" = none
  /-- The group holds the elements of the commits. -/
  elements : modules.children = ks.flatMap (commitElements kind gradient)
  /-- Each of them is painted as its commit asks. -/
  painted : ∀ k ∈ ks, ∀ e ∈ commitElements kind gradient k, Painted gradient modules k e
  /-- Where one has no fill, the group has. -/
  supplied : ∀ e ∈ modules.children, e.attribute? "fill" = none → modules.attribute? "fill" ≠ none
  /-- Where something refers to the gradient, it is defined before the group. -/
  defined : ∀ e : Element, e.Within doc → e.RefersTo gradientId →
    ∃ d ∈ before, d.Defines gradientId

end Svg

namespace Renderer

open Svg

section

variable {α : Type}

/-- The background refers to no gradient. -/
theorem free_background {r : Renderer α} {e : Element} (h : e ∈ r.backgroundElements)
    (id : String) : e.Free id := by
  unfold backgroundElements at h
  simp only at h
  split at h
  · exact absurd h List.not_mem_nil
  obtain rfl := List.mem_singleton.mp h
  refine Element.free_of_leaf ?_ rfl
  rintro (hrefers | hrefers)
  · exact toHex_ne_reference _ id (Option.some.inj hrefers)
  · cases hrefers

/-- The root has no paint. -/
theorem attribute?_root (r : Renderer α) (children : List Element) :
    (Element.mk "svg" r.rootAttributes children).attribute? "fill" = none ∧
      (Element.mk "svg" r.rootAttributes children).attribute? "stroke" = none := by
  unfold rootAttributes
  cases r.options.resolution <;> exact ⟨rfl, rfl⟩

end

variable {α : Type} [Add α] [Sub α] [Mul α] [Div α] [NatCast α] [LT α] [DecidableLT α]
  [LE α] [DecidableLE α] [Numeric α]

section

omit [Mul α]

/-- The group of the modules is filled with the gradient, if there is one, and not stroked. -/
theorem attribute?_groupOf (r : Renderer α) (cs : List (Command α)) :
    (r.groupOf cs).attribute? "fill" = r.gradientRef.map reference ∧
      (r.groupOf cs).attribute? "stroke" = none := by
  unfold groupOf
  cases r.gradientRef <;> exact ⟨rfl, rfl⟩

/-- It holds the elements of the commits. -/
theorem children_groupOf (r : Renderer α) (cs : List (Command α)) :
    (r.groupOf cs).children =
      (Pen.initial.commits cs).flatMap
        (commitElements (vectorKind r.options.format) r.gradientRef) :=
  draw_eq _ _ _

end

/-- Without a gradient no element of a document that is not traced refers to one. -/
theorem free_document {r : Renderer α} (hformat : r.options.format ≠ .svgTraced)
    (hgradient : r.options.gradient = none) {codecs : Codecs} {doc : Element}
    (h : r.document codecs = .ok doc) (id : String) : doc.Free id := by
  obtain ⟨drawing, logo, hdrawing, hlogo, rfl⟩ := document_eq_ok h
  rw [drawingElements_vector hformat, hgradient] at hdrawing
  obtain ⟨cs, -, hdrawing⟩ := Checked.bind_eq_ok ((map_eq_pure_bind _ _).symm.trans hdrawing)
  obtain rfl := Except.ok.inj hdrawing
  obtain ⟨hfill, hstroke⟩ := r.attribute?_root _
  refine Element.free_of_children (Element.not_refersTo hfill hstroke id) fun c hc => ?_
  simp only [Option.map_none, Option.toList_none, List.nil_append, List.mem_append,
    List.mem_singleton] at hc
  obtain (hc | rfl) | hc := hc
  · exact free_background hc id
  · obtain ⟨hfill, hstroke⟩ := r.attribute?_groupOf cs
    rw [gradientRef, hgradient] at hfill
    refine Element.free_of_children (Element.not_refersTo hfill hstroke id) fun e he => ?_
    rw [children_groupOf, gradientRef, hgradient] at he
    obtain ⟨k, -, he⟩ := List.mem_flatMap.mp he
    exact free_of_mem_commitElements he id
  · obtain ⟨-, hleaf, hfill, hstroke⟩ := form_of_mem_logoElements hlogo hc
    exact Element.free_of_leaf (Element.not_refersTo hfill hstroke id) hleaf

/-- **The paints of a document that is not traced.** -/
theorem paintsCommits {r : Renderer α} (hformat : r.options.format ≠ .svgTraced)
    {cs : List (Command α)} (hcs : r.commands = .ok cs) {codecs : Codecs} {doc : Element}
    (h : r.document codecs = .ok doc) :
    ∃ before modules after, PaintsCommits (vectorKind r.options.format) r.gradientRef
      (Pen.initial.commits cs) doc before modules after := by
  have hfree : r.options.gradient = none → doc.Free gradientId := fun hgradient =>
    free_document hformat hgradient h gradientId
  obtain ⟨drawing, logo, hdrawing, hlogo, rfl⟩ := document_eq_ok h
  rw [drawingElements_vector hformat, hcs] at hdrawing
  obtain rfl := Except.ok.inj hdrawing
  obtain ⟨hfill, hstroke⟩ := r.attribute?_groupOf cs
  refine ⟨_, r.groupOf cs, logo, ⟨List.append_assoc _ [_] _, rfl, ⟨hfill, hstroke⟩,
    children_groupOf r cs, fun k _ e he => painted_of_mem_commitElements he hfill hstroke,
    fun e he hnone => ?_, fun e he hrefers => ?_⟩⟩
  · rw [children_groupOf] at he
    obtain ⟨k, -, he⟩ := List.mem_flatMap.mp he
    obtain ⟨-, hgradient⟩ := (painted_of_mem_commitElements he hfill hstroke).inherits.mp hnone
    rw [hfill, map_reference_of_inGradient hgradient]
    exact Option.some_ne_none _
  · cases hgradient : r.options.gradient with
    | none => exact absurd hrefers (hfree hgradient e he)
    | some g =>
      exact ⟨gradientDefinition g r.width r.height, by simp, rfl, _, List.mem_singleton_self _,
        rfl, rfl⟩

end Renderer

namespace Options

open Svg

variable {α : Type} [Add α] [Sub α] [Mul α] [Div α] [NatCast α] [LT α] [DecidableLT α]
  [LE α] [DecidableLE α] [Numeric α]

/-- **Documents are painted as asked.** For built options and any grid the modules have commands,
    whatever their shape, and the document, which exists unless it has a logo without pixels, paints
    their commits as they ask: the gradient paint is the gradient of the options, if there is one,
    and its colour to fall back on otherwise. -/
theorem paints_in_documents {files : String → Except String Picture} {b : Builder α}
    {o : Options α} (h : b.build files = .ok o) (hformat : o.format ≠ .svgTraced) (codecs : Codecs)
    (g : Grid) :
    ∃ r cs, Renderer.ofOptions o g = .ok r ∧ r.commands = .ok cs ∧
      ((∀ logo, r.logo = some logo → Codecs.hasPixels logo = true) →
        ∃ doc, o.document codecs g = .ok doc) ∧
      ∀ doc, o.document codecs g = .ok doc →
        ∃ before modules after, PaintsCommits (Renderer.vectorKind o.format)
          (o.gradient.map fun _ => gradientId) (Pen.initial.commits cs) doc before modules
          after := by
  obtain ⟨r, hr, rfl, rfl, hsound⟩ := Renderer.ofOptions_sound (Builder.build_sound h) g
  obtain ⟨cs, hcs⟩ := Renderer.commands_isOk hsound
  refine ⟨r, cs, hr, hcs, fun hlogo => ?_, fun doc hdoc => ?_⟩
  · obtain ⟨doc, hdoc⟩ := Renderer.document_isOk hsound hlogo (absurd · hformat) codecs
    exact ⟨doc, (document_of_renderer hr).trans hdoc⟩
  · exact Renderer.paintsCommits hformat hcs ((document_of_renderer hr).symm.trans hdoc)

/-- A dashed outline in a gradient: the element names the gradient as its stroke. -/
theorem paints_in_documents_dashed :
    let b : Builder ℚ := Builder.ofSettings [.format .svgPrimitive, .blockWidth 4, .border [1],
      .shape .dashed, .gradient ⟨0, [⟨0, Rgba.black⟩, ⟨1, Rgba.white⟩]⟩]
    let g := Grid.ofFn 1 1 fun _ _ => ⟨true, .data⟩
    let codecs : Codecs := { png _ := [], jpeg _ := [], inlined _ := "" }
    ∃ (o : Options ℚ) (doc : Element) (ks : List (Commit ℚ)) (before : List Element)
        (modules : Element) (after : List Element),
      b.build (fun _ => .error "missing") = .ok o ∧ o.format ≠ .svgTraced ∧
      o.document codecs g = .ok doc ∧
      PaintsCommits .primitive (some gradientId) ks doc before modules after ∧
      ∃ e ∈ modules.children,
        (e.attribute? "fill").or (modules.attribute? "fill") = some "none" ∧
        (e.attribute? "stroke").or (modules.attribute? "stroke") = some "url(#qrGradient)" := by
  intro b g codecs
  obtain ⟨o, ho⟩ : ∃ o, b.build (fun _ => .error "missing") = .ok o := ⟨_, rfl⟩
  obtain ⟨hformat, hlogo⟩ : o.format ≠ .svgTraced ∧ o.logo = none := by
    obtain rfl := Except.ok.inj ho
    exact ⟨by decide, rfl⟩
  obtain ⟨r, cs, hr, hcs, hisOk, hpaints⟩ := paints_in_documents ho hformat codecs g
  have hnone := Renderer.logo_eq_none hr hlogo
  obtain ⟨doc, hdoc⟩ := hisOk fun logo hsome => by
    rw [hnone] at hsome
    cases hsome
  obtain ⟨before, modules, after, hdocument⟩ := hpaints doc hdoc
  obtain rfl := Except.ok.inj ho
  obtain rfl := Except.ok.inj hr
  obtain ⟨k, hk, hink, ⟨fallback, hpaint⟩, e, he⟩ : ∃ k ∈ Pen.initial.commits cs,
      k.ink = .stroke ∧ (∃ fallback, k.paint = .gradient fallback) ∧
      ∃ e, e ∈ commitElements .primitive (some gradientId) k := by
    obtain rfl := Except.ok.inj hcs
    exact ⟨_, List.mem_cons_self, rfl, ⟨_, rfl⟩, _, List.mem_cons_self⟩
  have hpainted := hdocument.painted k hk e he
  refine ⟨_, doc, _, before, modules, after, ho, hformat, hdoc, hdocument, e, ?_, ?_, ?_⟩
  · rw [hdocument.elements]
    exact List.mem_flatMap.mpr ⟨k, hk, he⟩
  · rw [hpainted.fill, askedFill, hink]
  · rw [hpainted.stroke, askedStroke, hink, hpaint]
    rfl

end Options

end QrRender
