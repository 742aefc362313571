/-!
# Cutting a list at separators

`splitWhere p l` cuts `l` at every element of the class `p` and drops these elements. The
result is never empty (`splitWhere_ne_nil`): a list without separators is one part.
-/

namespace CssTemplate

/-- The parts of a list between the elements of the class `p`. -/
def splitWhere {α : Type _} (p : α → Bool) : List α → List (List α)
  | [] => [[]]
  | x :: xs =>
    if p x then [] :: splitWhere p xs
    else
      match splitWhere p xs with
      | [] => [[x]]
      | part :: parts => (x :: part) :: parts

/-- A list has at least one part. -/
theorem splitWhere_ne_nil {α : Type _} (p : α → Bool) (l : List α) : splitWhere p l ≠ [] := by
  cases l with
  | nil => simp [splitWhere]
  | cons x xs => simp only [splitWhere]; split <;> (try split) <;> simp

end CssTemplate
