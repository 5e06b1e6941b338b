import Pops.BoxArrayProofs
import Pops.LevelLayout

/-!
Refinement and coarsening in terms of cells, and what a level layout holds by
construction.
-/
namespace Pops

variable {d : ℕ} {box other : Box d} {ratio : RefinementRatio d}

/-- The parent of a cell, rounding down along every axis. -/
def parentCell (ratio : RefinementRatio d) (cell : Index d) : Index d := fun axis =>
  cell axis / ratio axis

/-- The box of the children of the cells of a box. -/
def Box.refined (box : Box d) (ratio : RefinementRatio d) : Box d :=
  ⟨fun axis => box.lo axis * ratio axis, fun axis => box.hi axis * ratio axis + ratio axis - 1⟩

theorem mem_refined {cell : Index d} :
    cell ∈ (box.refined ratio).cells ↔ parentCell ratio cell ∈ box.cells := by
  rw [Box.mem_cells, Box.mem_cells]
  refine forall_congr' fun axis => ?_
  have positive := ratio.pos axis
  simp only [parentCell, Box.refined]
  rw [Int.le_ediv_iff_mul_le positive, ← Int.lt_add_one_iff (a := cell axis / ratio axis),
    Int.ediv_lt_iff_lt_mul positive, add_mul, one_mul]
  constructor <;> rintro ⟨above, below⟩ <;> exact ⟨above, by linarith⟩

/-- `refine_box` gives the children of the cells of a box exactly when their
bounds are `int` values. -/
theorem refineBox_ok (nonempty : ¬ box.Empty) :
    refineBox box ratio = .ok other ↔ (box.refined ratio).Fits ∧ other = box.refined ratio := by
  simp only [refineBox, if_neg nonempty, bind_ok, pure_ok, axes_ok, checkedIndex_ok]
  constructor
  · rintro ⟨bounds, each, rfl⟩
    have values : bounds = fun axis => ((box.refined ratio).lo axis, (box.refined ratio).hi axis) := by
      funext axis
      obtain ⟨lower, ⟨-, rfl⟩, upper, ⟨-, rfl⟩, same⟩ := each axis
      exact same.symm
    subst values
    refine ⟨fun axis => ?_, rfl⟩
    obtain ⟨lower, ⟨lowerFits, -⟩, upper, ⟨upperFits, -⟩, -⟩ := each axis
    exact ⟨lowerFits, upperFits⟩
  · rintro ⟨fits, rfl⟩
    exact ⟨_, fun axis => ⟨_, ⟨(fits axis).1, rfl⟩, _, ⟨(fits axis).2, rfl⟩, rfl⟩, rfl⟩

theorem refineBox_keeps_fits (fits : box.Fits) (ran : refineBox box ratio = .ok other) : other.Fits := by
  by_cases empty : box.Empty
  · rw [refineBox, if_pos empty] at ran
    cases ran
    exact fits
  · obtain ⟨refinedFits, rfl⟩ := (refineBox_ok empty).mp ran
    exact refinedFits

theorem refined_fits_of_subset (nonempty : ¬ box.Empty) (inside : box.cells ⊆ other.cells)
    (fits : (other.refined ratio).Fits) : (box.refined ratio).Fits := by
  have low := Box.mem_cells.mp (inside (Box.lo_mem nonempty))
  have high := Box.mem_cells.mp (inside (Box.hi_mem nonempty))
  intro axis
  have positive := ratio.pos axis
  have ordered := Box.not_empty_iff.mp nonempty axis
  obtain ⟨⟨lowFits, -⟩, -, highFits⟩ := fits axis
  simp only [Box.refined] at lowFits highFits ⊢
  have first := mul_le_mul_of_nonneg_right (low axis).1 positive.le
  have middle := mul_le_mul_of_nonneg_right ordered positive.le
  have last := mul_le_mul_of_nonneg_right (high axis).2 positive.le
  unfold FitsInt
  omega

theorem refined_nonempty (nonempty : ¬ box.Empty) : ¬ (box.refined ratio).Empty := by
  rw [Box.not_empty_iff] at nonempty ⊢
  intro axis
  have positive := ratio.pos axis
  have ordered := mul_le_mul_of_nonneg_right (nonempty axis) positive.le
  simp only [Box.refined]
  omega

theorem card_refined (ratio : RefinementRatio d) (nonempty : ¬ box.Empty) :
    ((box.refined ratio).cells.card : ℤ) = box.cells.card * ratio.childCount := by
  rw [Box.card_cells nonempty, Box.card_cells (refined_nonempty nonempty), RefinementRatio.childCount,
    ← Finset.prod_mul_distrib]
  refine Finset.prod_congr rfl fun axis _ => ?_
  rw [Box.length_of_nonempty nonempty, Box.length_of_nonempty (refined_nonempty nonempty)]
  simp only [Box.refined]
  ring

theorem two_le_childCount (refines : ratio.RefinesAnyAxis) : 2 ≤ ratio.childCount := by
  obtain ⟨axis, above⟩ := refines
  have divides : ratio axis ∣ ratio.childCount := Finset.dvd_prod_of_mem _ (Finset.mem_univ axis)
  have positive : 0 < ratio.childCount := Finset.prod_pos fun other _ => ratio.pos other
  have := Int.le_of_dvd positive divides
  omega

theorem card_cells_le (rank : d ≤ 3) (fits : box.Fits) : box.cells.card ≤ 2 ^ 96 := by
  calc box.cells.card ≤ 4294967296 ^ d := BoxArray.card_cells_le_pow fits
    _ ≤ 4294967296 ^ 3 := Nat.pow_le_pow_right (by norm_num) rank
    _ = 2 ^ 96 := by norm_num

theorem coarsenBox_eq (ratio : RefinementRatio d) (nonempty : ¬ box.Empty) :
    coarsenBox box ratio = ⟨parentCell ratio box.lo, parentCell ratio box.hi⟩ := by
  rw [coarsenBox, if_neg nonempty]
  congr 1 <;> funext axis <;> exact floorDiv_eq _ (ratio.pos axis)

theorem parentCell_mem_coarsened {cell : Index d} (member : cell ∈ box.cells) :
    parentCell ratio cell ∈ (coarsenBox box ratio).cells := by
  rw [coarsenBox_eq ratio (Box.nonempty_of_mem member), Box.mem_cells]
  intro axis
  have bounds := Box.mem_cells.mp member axis
  exact ⟨Int.ediv_le_ediv (ratio.pos axis) bounds.1, Int.ediv_le_ediv (ratio.pos axis) bounds.2⟩

theorem exists_child {coarse : Index d} (nonempty : ¬ box.Empty)
    (member : coarse ∈ (coarsenBox box ratio).cells) :
    ∃ cell ∈ box.cells, parentCell ratio cell = coarse := by
  rw [coarsenBox_eq ratio nonempty, Box.mem_cells] at member
  refine ⟨fun axis => max (box.lo axis) (coarse axis * ratio axis), ?_, funext fun axis => ?_⟩
  · rw [Box.mem_cells]
    intro axis
    refine ⟨le_max_left _ _, max_le (Box.not_empty_iff.mp nonempty axis) ?_⟩
    exact (Int.le_ediv_iff_mul_le (ratio.pos axis)).mp (member axis).2
  · have low := (member axis).1
    simp only [parentCell] at low ⊢
    rcases le_total (coarse axis * ratio axis) (box.lo axis) with above | below
    · rw [max_eq_left above]
      exact le_antisymm low ((Int.le_ediv_iff_mul_le (ratio.pos axis)).mpr above)
    · rw [max_eq_right below]
      exact Int.mul_ediv_cancel _ (ratio.pos axis).ne'

theorem coarsenBox_nonempty (ratio : RefinementRatio d) (nonempty : ¬ box.Empty) : ¬ (coarsenBox box ratio).Empty :=
  Box.nonempty_of_mem (parentCell_mem_coarsened (Box.lo_mem nonempty))

theorem packed_refined (ratio : RefinementRatio d) {boxes : List (Box d)} (packed : Packed Box.cells other.cells boxes) :
    Packed Box.cells (other.refined ratio).cells (boxes.map fun box => box.refined ratio) := by
  refine packed.map (fun box nonempty => ?_) (fun box inside cell member => ?_)
    fun left right apart => ?_
  · rw [Ne, Finset.bot_eq_empty, ← Box.empty_iff_cells] at nonempty ⊢
    exact refined_nonempty nonempty
  · exact mem_refined.mpr (inside (mem_refined.mp member))
  · rw [Finset.disjoint_left] at apart ⊢
    exact fun cell inLeft inRight => apart (mem_refined.mp inLeft) (mem_refined.mp inRight)

namespace LevelLayout

theorem create_ok {level : ℤ} {domain : Box d} {domainFits : domain.Fits} {patches : BoxArray d}
    {distribution : Distribution d} {ratio : RefinementRatio d} {budget : BoxArrayValidationBudget}
    {layout : LevelLayout d}
    (ran : create level domain domainFits patches distribution ratio budget = .ok layout) :
    layout.level = level ∧ layout.domain = domain ∧ layout.patches = patches ∧
      layout.distribution = distribution ∧ layout.ratioFromParent = ratio := by
  unfold create at ran
  split at ran
  · cases ran
  · cases ran
    exact ⟨rfl, rfl, rfl, rfl, rfl⟩

theorem create_of_valid {level : ℤ} {domain : Box d} (domainFits : domain.Fits) {patches : BoxArray d}
    {distribution : Distribution d} {ratio : RefinementRatio d} {budget : BoxArrayValidationBudget}
    (valid : validate level domain patches distribution ratio budget = .ok ()) :
    ∃ layout, create level domain domainFits patches distribution ratio budget = .ok layout := by
  unfold create
  split
  · rename_i thrown
    rw [valid] at thrown
    cases thrown
  · exact ⟨_, rfl⟩

theorem packed (layout : LevelLayout d) : Packed Box.cells layout.domain.cells layout.patches.boxes := by
  have valid := layout.valid
  simp only [validate, bind_ok, throwIf_ok, unit_exists] at valid
  obtain ⟨-, nonempty, -, -, checked⟩ := valid
  split at checked
  · simp only [bind_ok, throwIf_ok, unit_exists, Bool.not_eq_false] at checked
    obtain ⟨-, _, tiled, rfl⟩ := checked
    exact ((BoxArray.tilesExactly_ok layout.domainFits nonempty tiled).mp rfl).1
  · simp only [bind_ok, throwIf_ok, unit_exists, Bool.not_eq_false] at checked
    obtain ⟨-, _, disjoint, rfl⟩ := checked
    exact (BoxArray.isDisjointWithin_ok disjoint).mp rfl

theorem nonempty_domain (layout : LevelLayout d) : ¬ layout.domain.Empty := by
  have valid := layout.valid
  simp only [validate, bind_ok, throwIf_ok, unit_exists] at valid
  exact valid.2.1

theorem refinesAnyAxis (layout : LevelLayout d) (fine : layout.level ≠ 0) :
    layout.ratioFromParent.RefinesAnyAxis := by
  have valid := layout.valid
  simp only [validate, bind_ok, throwIf_ok, unit_exists, if_neg fine, not_not] at valid
  exact valid.2.2.2.2.1

theorem patch_nonempty (layout : LevelLayout d) {patch : Box d} (listed : patch ∈ layout.patches.boxes) :
    ¬ patch.Empty := by
  rw [Box.empty_iff_cells]
  exact layout.packed.nonempty patch listed

theorem patch_fits (layout : LevelLayout d) {patch : Box d} (listed : patch ∈ layout.patches.boxes) :
    patch.Fits :=
  BoxArray.fits_of_packed layout.domainFits layout.packed patch listed

end LevelLayout

def segment (lo hi : ℤ) : Box 1 := ⟨fun _ => lo, fun _ => hi⟩

theorem segment_fits : (segment 0 7).Fits := by decide

def oneRank : RankSpace 1 := ⟨fun _ => 0, fun _ => 1, by decide, by decide⟩

def double : RefinementRatio 1 where
  values _ := 2
  positive _ := by decide
  bounded _ := by decide
  childCountFits := by decide

end Pops
