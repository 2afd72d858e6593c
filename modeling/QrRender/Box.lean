/-!
# Boxes

A box is a rectangle of whole pixels, given by its left column, its top row, its width and its
height. It may be empty. Boxes tile another one if none of them is empty, no two of them have a
pixel in common, and together they have exactly its pixels.
-/

namespace QrRender

/-- A rectangle of pixels. -/
structure Box where
  x : Nat
  y : Nat
  width : Nat
  height : Nat
  deriving DecidableEq

namespace Box

/-- The pixel at column `px`, row `py` is in the box. -/
def Contains (b : Box) (px py : Nat) : Prop :=
  (b.x ≤ px ∧ px < b.x + b.width) ∧ (b.y ≤ py ∧ py < b.y + b.height)

instance decidableContains (b : Box) (px py : Nat) : Decidable (b.Contains px py) :=
  inferInstanceAs (Decidable (_ ∧ _))

theorem contains_mk {x y w h px py : Nat} :
    (Box.mk x y w h).Contains px py ↔ (x ≤ px ∧ px < x + w) ∧ (y ≤ py ∧ py < y + h) := Iff.rfl

/-- The box has a pixel. -/
def Nonempty (b : Box) : Prop := 0 < b.width ∧ 0 < b.height

instance decidableNonempty (b : Box) : Decidable b.Nonempty :=
  inferInstanceAs (Decidable (_ ∧ _))

/-- No pixel is in both boxes. -/
def Disjoint (a b : Box) : Prop := ∀ px py, a.Contains px py → ¬ b.Contains px py

/-- Every pixel of `a` is in `b`. -/
def Within (a b : Box) : Prop := ∀ px py, a.Contains px py → b.Contains px py

/-- The boxes are non-empty, pairwise disjoint, and together have the pixels of `whole`. -/
structure Tiles (parts : List Box) (whole : Box) : Prop where
  nonempty : ∀ b ∈ parts, b.Nonempty
  disjoint : parts.Pairwise Disjoint
  contains : ∀ px py, whole.Contains px py ↔ ∃ b ∈ parts, b.Contains px py

theorem contains_corner {b : Box} (h : b.Nonempty) : b.Contains b.x b.y :=
  ⟨⟨Nat.le_refl _, Nat.lt_add_of_pos_right h.1⟩, ⟨Nat.le_refl _, Nat.lt_add_of_pos_right h.2⟩⟩

theorem nonempty_of_contains {b : Box} {px py : Nat} (h : b.Contains px py) : b.Nonempty := by
  obtain ⟨⟨hx, hx'⟩, hy, hy'⟩ := h
  exact ⟨by omega, by omega⟩

theorem Disjoint.symm {a b : Box} (h : a.Disjoint b) : b.Disjoint a :=
  fun px py hb ha => h px py ha hb

theorem Disjoint.mono {a a' b b' : Box} (h : a.Disjoint b) (ha : a'.Within a)
    (hb : b'.Within b) : a'.Disjoint b' :=
  fun px py ha' hb' => h px py (ha px py ha') (hb px py hb')

theorem Within.trans {a b c : Box} (hab : a.Within b) (hbc : b.Within c) : a.Within c :=
  fun px py ha => hbc px py (hab px py ha)

/-- A box with a pixel ends where a canvas around it ends, or before. -/
theorem Within.le_of_nonempty {b : Box} {w h : Nat} (hb : b.Within ⟨0, 0, w, h⟩)
    (hne : b.Nonempty) : b.x + b.width ≤ w ∧ b.y + b.height ≤ h := by
  obtain ⟨hw, hh⟩ := hne
  have hlast : b.Contains (b.x + b.width - 1) (b.y + b.height - 1) :=
    ⟨⟨by omega, by omega⟩, by omega, by omega⟩
  obtain ⟨⟨-, hx⟩, -, hy⟩ := contains_mk.mp (hb _ _ hlast)
  omega

/-- The box moved to the right and down. -/
def translate (b : Box) (dx dy : Nat) : Box := ⟨dx + b.x, dy + b.y, b.width, b.height⟩

theorem contains_translate {b : Box} {dx dy px py : Nat} :
    (b.translate dx dy).Contains px py ↔ dx ≤ px ∧ dy ≤ py ∧ b.Contains (px - dx) (py - dy) := by
  rw [translate, contains_mk, Contains]
  omega

theorem Disjoint.translate {a b : Box} (h : a.Disjoint b) (dx dy : Nat) :
    (a.translate dx dy).Disjoint (b.translate dx dy) := by
  intro px py ha hb
  rw [contains_translate] at ha hb
  exact h _ _ ha.2.2 hb.2.2

/-- Of things with disjoint boxes, those over a pixel of one of them are that one alone. -/
theorem filter_contains_eq_singleton {β : Type} {box : β → Box} {xs : List β}
    (h : xs.Pairwise fun a b => (box a).Disjoint (box b)) {a : β} (ha : a ∈ xs) {px py : Nat}
    (hp : (box a).Contains px py) : (xs.filter fun b => (box b).Contains px py) = [a] := by
  induction xs with
  | nil => exact absurd ha List.not_mem_nil
  | cons b xs ih =>
    obtain ⟨hb, hrest⟩ := List.pairwise_cons.mp h
    rcases List.mem_cons.mp ha with rfl | ha
    · have hnone : (xs.filter fun b => (box b).Contains px py) = [] :=
        List.filter_eq_nil_iff.mpr fun b hmem hq =>
          hb b hmem px py hp (of_decide_eq_true hq)
      rw [List.filter_cons, if_pos (decide_eq_true hp), hnone]
    · have hnot : ¬(box b).Contains px py := fun hq => hb a ha px py hq hp
      rw [List.filter_cons, if_neg (by simpa using hnot), ih hrest ha]

/-- Boxes for different values of a function of the pixels are disjoint. -/
theorem Disjoint.of_key {κ : Type} {a b : Box} (key : Nat → Nat → κ) {k k' : κ} (hne : k ≠ k')
    (ha : ∀ px py, a.Contains px py → key px py = k)
    (hb : ∀ px py, b.Contains px py → key px py = k') : a.Disjoint b :=
  fun px py h h' => hne ((ha px py h).symm.trans (hb px py h'))

/-- Boxes for the values of a function of the pixels: those with pixels tile the whole. -/
theorem Tiles.of_key {κ : Type} {keys : List κ} {part : κ → Box} {whole : Box}
    (key : Nat → Nat → κ) (hnodup : keys.Nodup)
    (hpart : ∀ k ∈ keys, ∀ px py,
      (part k).Contains px py ↔ whole.Contains px py ∧ key px py = k)
    (hkey : ∀ px py, whole.Contains px py → key px py ∈ keys) :
    Tiles ((keys.map part).filter fun b => b.Nonempty) whole where
  nonempty b hb := by simpa using (List.mem_filter.mp hb).2
  disjoint := by
    refine List.Pairwise.filter _ (List.pairwise_map.mpr ?_)
    refine List.Pairwise.imp_of_mem ?_ hnodup
    intro k k' hk hk' hne
    exact Disjoint.of_key key hne (fun px py h => ((hpart k hk px py).mp h).2)
      fun px py h => ((hpart k' hk' px py).mp h).2
  contains px py := by
    constructor
    · intro h
      have hk := hkey px py h
      have hin : (part (key px py)).Contains px py := (hpart _ hk px py).mpr ⟨h, rfl⟩
      refine ⟨_, List.mem_filter.mpr ⟨List.mem_map_of_mem hk, ?_⟩, hin⟩
      exact decide_eq_true (nonempty_of_contains hin)
    · intro h
      obtain ⟨b, hb, hin⟩ := h
      obtain ⟨k, hk, rfl⟩ := List.mem_map.mp (List.mem_filter.mp hb).1
      exact ((hpart k hk px py).mp hin).1

end Box

end QrRender
