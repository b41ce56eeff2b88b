import Mathlib.Algebra.BigOperators.Group.List.Basic
import Mathlib.Algebra.Field.Basic

/-!
Owns weighted means of lists of points, and the running mean: the mean of the points
so far with one more point taken in.

Weights and values are of an arbitrary field.
-/

namespace CSE550.Lib.Means

variable {Value : Type} [Field Value]

/-- The sum of the weights; a point is a weight and a value. -/
def totalWeight (points : List (Value × Value)) : Value := (points.map Prod.fst).sum

/-- The sum of the weighted values. -/
def weightedSum (points : List (Value × Value)) : Value :=
  (points.map fun point => point.1 * point.2).sum

def weightedMean (points : List (Value × Value)) : Value := weightedSum points / totalWeight points

@[simp] theorem totalWeight_nil : totalWeight ([] : List (Value × Value)) = 0 := rfl

@[simp] theorem weightedMean_nil : weightedMean ([] : List (Value × Value)) = 0 := by
  simp [weightedMean]

theorem totalWeight_concat (points : List (Value × Value)) (point : Value × Value) :
    totalWeight (points ++ [point]) = totalWeight points + point.1 := by
  simp [totalWeight]

theorem weightedSum_concat (points : List (Value × Value)) (point : Value × Value) :
    weightedSum (points ++ [point]) = weightedSum points + point.1 * point.2 := by
  simp [weightedSum]

/-- The mean with one more point, from the mean and the weight before. -/
theorem weightedMean_concat {points : List (Value × Value)} (point : Value × Value)
    (weighty : points = [] ∨ totalWeight points ≠ 0) :
    weightedMean (points ++ [point]) =
      (weightedMean points * totalWeight points + point.1 * point.2) /
        (totalWeight points + point.1) := by
  have restored : weightedMean points * totalWeight points = weightedSum points := by
    rcases weighty with rfl | nonzero
    · simp [weightedSum]
    · exact div_mul_cancel₀ _ nonzero
  rw [weightedMean, weightedSum_concat, totalWeight_concat, restored]

end CSE550.Lib.Means
