/-!
# Partial operations

A render is built from a few operations that have no answer for some arguments: reading a cell
outside an array, taking a larger length from a smaller one, dividing a length by zero, reading a
gradient at a position that no stop brackets. Each of them answers in `Except Fault`, so that a
caller sees where a result may be missing, and so that a statement of the form "this never fails"
has something to say.

The checked operations on numbers and arrays are here; the others stand beside their types.
-/

namespace QrRender

/-- The reasons why a partial operation has no answer. -/
inductive Fault where
  /-- An array was read or written past its end. -/
  | outOfRange
  /-- A length would be negative. -/
  | negativeLength
  /-- A length was divided by zero. -/
  | divisionByZero
  /-- A rectangle or an image without pixels was given where one with pixels is needed. -/
  | emptyRectangle
  /-- A gradient was read at a position that no pair of stops brackets. -/
  | noBracket
  deriving DecidableEq

namespace Checked

/-- The element at index `i`, or a fault past the end. -/
def get {β : Type} (xs : Array β) (i : Nat) : Except Fault β :=
  match xs[i]? with
  | some x => .ok x
  | none => .error .outOfRange

/-- The array with `x` at index `i`, or a fault past the end. -/
def set {β : Type} (xs : Array β) (i : Nat) (x : β) : Except Fault (Array β) :=
  if h : i < xs.size then .ok (xs.set i x) else .error .outOfRange

/-- `a - b`, or a fault where `b` is the larger. -/
def sub (a b : Nat) : Except Fault Nat :=
  if b ≤ a then .ok (a - b) else .error .negativeLength

/-- `a / b` rounded down, or a fault where `b` is zero. -/
def div (a b : Nat) : Except Fault Nat :=
  if b = 0 then .error .divisionByZero else .ok (a / b)

theorem get_eq_ok {β : Type} {xs : Array β} {i : Nat} (h : i < xs.size) :
    get xs i = .ok xs[i] := by
  simp [get, h]

theorem sub_eq_ok {a b : Nat} (h : b ≤ a) : sub a b = .ok (a - b) := by
  simp [sub, h]

theorem div_eq_ok {a b : Nat} (h : b ≠ 0) : div a b = .ok (a / b) := by
  simp [div, h]

/-- An answer of two operations in a row is an answer of both. -/
theorem bind_eq_ok {ε β γ : Type} {x : Except ε β} {f : β → Except ε γ} {c : γ}
    (h : x >>= f = .ok c) : ∃ b, x = .ok b ∧ f b = .ok c := by
  cases x with
  | error e => cases h
  | ok b => exact ⟨b, rfl, h⟩

/-- A list of operations that all have an answer. -/
theorem mapM_eq_ok {β γ : Type} {f : β → Except Fault γ} {g : β → γ} {xs : List β}
    (h : ∀ x ∈ xs, f x = .ok (g x)) : xs.mapM f = .ok (xs.map g) := by
  induction xs with
  | nil => rfl
  | cons x xs ih =>
    rw [List.mapM_cons, h x List.mem_cons_self, ih fun y hy => h y (List.mem_cons_of_mem x hy)]
    rfl

/-- A run of operations each of which has an answer and keeps an invariant. -/
theorem foldlM_isOk {β σ : Type} {f : σ → β → Except Fault σ} {I : σ → Prop} {xs : List β}
    (h : ∀ s, I s → ∀ x ∈ xs, ∃ s', f s x = .ok s' ∧ I s') {s : σ} (hs : I s) :
    ∃ s', xs.foldlM f s = .ok s' ∧ I s' := by
  induction xs generalizing s with
  | nil => exact ⟨s, rfl, hs⟩
  | cons x xs ih =>
    obtain ⟨t, ht, hI⟩ := h s hs x List.mem_cons_self
    rw [List.foldlM_cons, ht]
    exact ih (fun s hs y hy => h s hs y (List.mem_cons_of_mem x hy)) hI

end Checked

end QrRender
