/-!
# Stable sorting

Sorting by insertion: equal elements keep their order.
-/

namespace GlyphTree

variable {α : Type}

/-- Puts `x` before the first element that it may stand before. -/
def insertSorted (le : α → α → Bool) (x : α) : List α → List α
  | [] => [x]
  | y :: ys => if le x y then x :: y :: ys else y :: insertSorted le x ys

/-- The elements in the order of `le`, equal ones in the order they had. -/
def sortStable (le : α → α → Bool) (l : List α) : List α := l.foldr (insertSorted le) []

/-- The elements by ascending key, equal ones in the order they had. -/
def sortByKey (key : α → Nat) (l : List α) : List α := sortStable (fun a b => key a ≤ key b) l

end GlyphTree
