import Pops.Box

/-!
`amr/refinement_ratio.hpp`: a positive per-axis refinement ratio whose child
count is exact. The structure carries what the constructor checks, so no
later function has to check it again.
-/
namespace Pops

/-- A validated per-axis refinement ratio. -/
structure RefinementRatio (d : ℕ) where
  values : Fin d → ℤ
  positive : ∀ axis, 1 ≤ values axis
  bounded : ∀ axis, values axis ≤ intMax
  childCountFits : ∏ axis, values axis ≤ int64Max

namespace RefinementRatio
variable {d : ℕ}

instance : CoeFun (RefinementRatio d) fun _ => Fin d → ℤ := ⟨values⟩

@[ext]
theorem ext {left right : RefinementRatio d} (same : ∀ axis, left axis = right axis) : left = right := by
  cases left
  cases right
  congr
  exact funext same

instance : DecidableEq (RefinementRatio d) := fun left right =>
  decidable_of_iff (left.values = right.values) ⟨fun same => ext (congrFun same), fun same => same ▸ rfl⟩

/-- The identity ratio, the default-constructed one. -/
def identity : RefinementRatio d where
  values _ := 1
  positive _ := le_rfl
  bounded _ := by decide
  childCountFits := by simp [int64Max]

/-- `child_count()`. -/
def childCount (ratio : RefinementRatio d) : ℤ := ∏ axis, ratio axis

/-- `refines_any_axis()`. -/
def RefinesAnyAxis (ratio : RefinementRatio d) : Prop := ∃ axis, ratio axis > 1

instance (ratio : RefinementRatio d) : Decidable ratio.RefinesAnyAxis :=
  inferInstanceAs (Decidable (∃ _, _))

/-- A ratio is one of the values `1 .. INT_MAX`, so it is never zero. -/
theorem pos (ratio : RefinementRatio d) (axis : Fin d) : 0 < ratio axis :=
  lt_of_lt_of_le zero_lt_one (ratio.positive axis)

end RefinementRatio

end Pops
