/-!
# Extents

The least and the greatest of some numbers, by comparisons alone.
-/

namespace QrRender

variable {α : Type} [LT α] [DecidableLT α]

/-- The least and the greatest of a first number and some more. -/
def extent (first : α) (more : List α) : α × α :=
  more.foldl (fun (least, greatest) v =>
    (if v < least then v else least, if greatest < v then v else greatest)) (first, first)

/-- The least and the greatest of some numbers, if there are any. -/
def extent? : List α → Option (α × α)
  | [] => none
  | v :: vs => some (extent v vs)

end QrRender
