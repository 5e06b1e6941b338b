import Pops.HierarchyPlan

/-!
The count-based coverage test decides nesting. The parents of the cells of a
fine patch are its footprint; the parent patches are disjoint, so the counts of
their intersections with the footprint add up to the covered part, and equal
the count of the footprint exactly when all of it is covered.
-/
namespace Pops

variable {d : ℕ}

/-- Every cell of the child level lies in a patch of the parent level, coarsened. -/
def Nested (parent child : LevelLayout d) : Prop :=
  ∀ patch ∈ child.patches.boxes, ∀ cell ∈ patch.cells,
    ∃ parentPatch ∈ parent.patches.boxes, parentCell child.ratioFromParent cell ∈ parentPatch.cells

/-- A box of whole parent cells: with a cell it holds all children of its parent. -/
def Complete (ratio : RefinementRatio d) (box : Box d) : Prop :=
  ∀ cell ∈ box.cells, ∀ sibling, parentCell ratio sibling = parentCell ratio cell → sibling ∈ box.cells

section Footprint
variable {box other : Box d} {ratio : RefinementRatio d}

theorem Box.Fits.intersect (fits : box.Fits) (otherFits : other.Fits) : (box.intersect other).Fits := by
  intro axis
  have here := fits axis
  have there := otherFits axis
  simp only [Box.intersect]
  refine ⟨?_, ?_⟩ <;> split <;> tauto

theorem coarsenBox_fits (ratio : RefinementRatio d) (fits : box.Fits) (nonempty : ¬ box.Empty) : (coarsenBox box ratio).Fits := by
  rw [coarsenBox_eq ratio nonempty]
  have kept {value divisor : ℤ} (valueFits : FitsInt value) (positive : 0 < divisor) :
      FitsInt (value / divisor) := by
    unfold FitsInt intMin intMax at *
    constructor
    · exact (Int.le_ediv_iff_mul_le positive).mpr (by nlinarith)
    · exact Int.ediv_le_of_le_mul positive (by nlinarith)
  intro axis
  exact ⟨kept (fits axis).1 (ratio.pos axis), kept (fits axis).2 (ratio.pos axis)⟩

theorem parentCell_update {cell : Index d} {axis : Fin d} {coordinate : ℤ}
    (same : coordinate / ratio axis = cell axis / ratio axis) :
    parentCell ratio (Function.update cell axis coordinate) = parentCell ratio cell := by
  funext other
  by_cases here : other = axis
  · subst here
    simpa [parentCell] using same
  · simp [parentCell, here]

theorem bounds_of_complete (nonempty : ¬ box.Empty) (complete : Complete ratio box) (axis : Fin d) :
    box.lo axis / ratio axis * ratio axis = box.lo axis ∧
      box.hi axis / ratio axis * ratio axis + ratio axis - 1 = box.hi axis := by
  have positive := ratio.pos axis
  have lowParts := Int.emod_add_mul_ediv (box.lo axis) (ratio axis)
  have highParts := Int.emod_add_mul_ediv (box.hi axis) (ratio axis)
  have lowRest := Int.emod_nonneg (box.lo axis) positive.ne'
  have highRest := Int.emod_lt_of_pos (box.hi axis) positive
  rw [mul_comm] at lowParts highParts
  constructor
  · have sibling := complete box.lo (Box.lo_mem nonempty)
      (Function.update box.lo axis (box.lo axis / ratio axis * ratio axis))
      (parentCell_update (Int.mul_ediv_cancel _ positive.ne'))
    have bound := (Box.mem_cells.mp sibling axis).1
    rw [Function.update_self] at bound
    omega
  · have sibling := complete box.hi (Box.hi_mem nonempty)
      (Function.update box.hi axis (box.hi axis / ratio axis * ratio axis + ratio axis - 1))
      (parentCell_update (by
        rw [add_sub_assoc, add_comm, Int.add_mul_ediv_right _ _ positive.ne',
          Int.ediv_eq_zero_of_lt (by omega) (by omega), zero_add]))
    have bound := (Box.mem_cells.mp sibling axis).2
    rw [Function.update_self] at bound
    omega

/-- Refining the footprint gives the patch back exactly when the patch is made
of whole parent cells. -/
theorem refine_coarsen_iff (fits : box.Fits) (nonempty : ¬ box.Empty) :
    refineBox (coarsenBox box ratio) ratio = .ok box ↔ Complete ratio box := by
  have bounds := coarsenBox_eq ratio nonempty
  rw [refineBox_ok (coarsenBox_nonempty ratio nonempty)]
  constructor
  · rintro ⟨-, same⟩ cell inside sibling siblings
    rw [same, mem_refined, siblings]
    exact parentCell_mem_coarsened inside
  · intro complete
    have same : box = (coarsenBox box ratio).refined ratio := by
      rw [bounds, Box.refined]
      cases box with
      | mk lo hi =>
        congr 1 <;> funext axis
        · exact (bounds_of_complete nonempty complete axis).1.symm
        · exact (bounds_of_complete nonempty complete axis).2.symm
    exact ⟨same ▸ fits, same⟩

/-- The parents of the cells of a box are in some region exactly when its
footprint is. -/
theorem footprint_covered_iff (nonempty : ¬ box.Empty) {region : Index d → Prop} :
    (∀ coarse ∈ (coarsenBox box ratio).cells, region coarse) ↔
      ∀ cell ∈ box.cells, region (parentCell ratio cell) := by
  constructor
  · exact fun covered cell inside => covered _ (parentCell_mem_coarsened inside)
  · intro covered coarse inside
    obtain ⟨cell, inBox, rfl⟩ := exists_child nonempty inside
    exact covered cell inBox

end Footprint

namespace HierarchyPlan

section Patch
variable {parent : LevelLayout d} {ratio : RefinementRatio d} {patch : Box d}

/-- The patch holds whole parent cells, and the parent level holds all of them. -/
def PatchNested (parent : LevelLayout d) (ratio : RefinementRatio d) (patch : Box d) : Prop :=
  Complete ratio patch ∧ ∀ cell ∈ patch.cells,
    ∃ parentPatch ∈ parent.patches.boxes, parentCell ratio cell ∈ parentPatch.cells

private theorem intersections_fit {footprint : Box d} (fits : footprint.Fits) :
    ∀ box ∈ parent.patches.boxes.map footprint.intersect, box.Fits := by
  intro box listed
  obtain ⟨parentPatch, known, rfl⟩ := List.mem_map.mp listed
  exact fits.intersect (parent.patch_fits known)

private theorem sum_intersections (footprint : Box d) :
    ((parent.patches.boxes.map footprint.intersect).map fun box => box.cells.card).sum =
      (footprint.cells ∩ BoxArray.union parent.patches.boxes).card := by
  rw [← BoxArray.card_union parent.packed.disjoint, List.map_map]
  congr 1
  exact List.map_congr_left fun parentPatch _ => by simp

/-- The cells of the footprint fit the exact counter. -/
def CountableFootprint (ratio : RefinementRatio d) (patch : Box d) : Prop :=
  (coarsenBox patch ratio).cells.card < 4294967296 ^ 4

theorem patchNested_of_validatePatch (fits : patch.Fits) (nonempty : ¬ patch.Empty)
    (ran : validatePatch parent ratio patch = .ok ()) :
    PatchNested parent ratio patch ∧ CountableFootprint ratio patch := by
  simp only [validatePatch, bind_ok, throwIf_ok, unit_exists, ne_eq, not_not] at ran
  obtain ⟨refined, refines, rfl, covered, summed, whole, counted, rfl⟩ := ran
  have footprintFits := coarsenBox_fits ratio fits nonempty
  have sum := BoxArray.foldl_addCount_ok (intersections_fit footprintFits) summed
  rw [ExactCellCount.value_zero, zero_add, sum_intersections] at sum
  have all := ExactCellCount.value_fromBox footprintFits counted
  refine ⟨⟨(refine_coarsen_iff fits nonempty).mp refines, ?_⟩, ?_⟩
  · exact (footprint_covered_iff nonempty).mp (BoxArray.card_inter_eq_iff.mp (sum.symm.trans all))
  · rw [CountableFootprint, ← all]
    exact covered.value_lt

theorem validatePatch_of_patchNested (fits : patch.Fits) (nonempty : ¬ patch.Empty)
    (countable : CountableFootprint ratio patch) (nested : PatchNested parent ratio patch) : validatePatch parent ratio patch = .ok () := by
  obtain ⟨complete, covers⟩ := nested
  have footprintFits := coarsenBox_fits ratio fits nonempty
  have coversFootprint := BoxArray.card_inter_eq_iff.mpr ((footprint_covered_iff nonempty).mpr covers)
  have refines := (refine_coarsen_iff fits nonempty).mpr complete
  obtain ⟨whole, counted⟩ := ExactCellCount.fromBox_fits footprintFits countable
  have all := ExactCellCount.value_fromBox footprintFits counted
  obtain ⟨covered, summed⟩ : ∃ covered, (parent.patches.boxes.map (coarsenBox patch ratio).intersect).foldlM
      (BoxArray.addCount (.overflowError "HierarchyPlan parent coverage exceeds exact count capacity"))
        .zero = .ok covered := by
    refine BoxArray.foldl_addCount_fits (intersections_fit footprintFits) ?_
    rw [ExactCellCount.value_zero, zero_add, sum_intersections, coversFootprint]
    exact countable
  have sum := BoxArray.foldl_addCount_ok (intersections_fit footprintFits) summed
  rw [ExactCellCount.value_zero, zero_add, sum_intersections, coversFootprint, ← all] at sum
  obtain rfl := ExactCellCount.value_injective sum
  simp only [validatePatch, refines, ok_bind, summed, counted]
  simp [throwIf]

end Patch

/-- What validation asks of a level and its parent. -/
structure Admits (levelIndex : ℕ) (parent child : LevelLayout d) : Prop where
  level : child.level = castInt levelIndex
  rankSpace : child.distribution.rankSpace = parent.distribution.rankSpace
  domain : refineBox parent.domain child.ratioFromParent = .ok child.domain
  pairs : child.patches.boxes.length * parent.patches.boxes.length ≤ sizeMax
  complete : ∀ patch ∈ child.patches.boxes, Complete child.ratioFromParent patch
  countable : ∀ patch ∈ child.patches.boxes, CountableFootprint child.ratioFromParent patch
  nested : Nested parent child

/-- The parent and child patch pairs of all levels. -/
def patchPairs : List (LevelLayout d) → ℕ
  | parent :: child :: finer =>
    child.patches.boxes.length * parent.patches.boxes.length + patchPairs (child :: finer)
  | _ => 0

section Levels
variable {budget : HierarchyValidationBudget} {parent child : LevelLayout d}

theorem checkedPairCount_ok {children parents pairs : ℕ} :
    checkedPairCount children parents = .ok pairs ↔
      children * parents ≤ sizeMax ∧ pairs = children * parents := by
  simp only [checkedPairCount, bind_ok, throwIf_ok, unit_exists, pure_ok, not_and, not_lt, ne_eq,
    gt_iff_lt, eq_comm (b := pairs)]
  refine and_congr_left fun _ => ?_
  rcases Nat.eq_zero_or_pos parents with rfl | positive
  · simp
  · rw [Nat.le_div_iff_mul_le positive]
    exact ⟨fun fits => fits positive.ne', fun fits _ => fits⟩

theorem admits_of_validateLevel {levelIndex pairCount total : ℕ}
    (ran : validateLevel budget parent child levelIndex pairCount = .ok total) :
    Admits levelIndex parent child ∧ total ≤ budget.parentChildPatchPairs ∧
      total = pairCount + child.patches.boxes.length * parent.patches.boxes.length := by
  simp only [validateLevel, bind_ok, throwIf_ok, unit_exists, pure_ok, ne_eq, not_not, not_or,
    not_lt, gt_iff_lt, checkedPairCount_ok, forM_ok] at ran
  obtain ⟨level, rankSpace, domain, refines, same, pairs, ⟨fits, rfl⟩, ⟨counted, room⟩, each, rfl⟩ := ran
  rw [← same] at refines
  have nested (patch : Box d) (listed : patch ∈ child.patches.boxes) :=
    patchNested_of_validatePatch (child.patch_fits listed) (child.patch_nonempty listed) (each patch listed)
  refine ⟨⟨level, rankSpace, refines, fits, fun patch listed => (nested patch listed).1.1,
    fun patch listed => (nested patch listed).2, fun patch listed => (nested patch listed).1.2⟩,
    by omega, rfl⟩

variable {levelIndex pairCount : ℕ}

theorem validateLevel_of_admits (admits : Admits levelIndex parent child)
    (room : pairCount + child.patches.boxes.length * parent.patches.boxes.length ≤ budget.parentChildPatchPairs) :
    validateLevel budget parent child levelIndex pairCount =
      .ok (pairCount + child.patches.boxes.length * parent.patches.boxes.length) := by
  obtain ⟨level, rankSpace, domain, pairs, complete, countable, nested⟩ := admits
  simp only [validateLevel, bind_ok, throwIf_ok, unit_exists, pure_ok, ne_eq, not_not, not_or,
    not_lt, gt_iff_lt, checkedPairCount_ok, forM_ok]
  refine ⟨level, rankSpace, child.domain, domain, rfl, _, ⟨pairs, rfl⟩, ⟨by omega, by omega⟩, ?_, rfl⟩
  exact fun patch listed => validatePatch_of_patchNested (child.patch_fits listed)
    (child.patch_nonempty listed) (countable patch listed) ⟨complete patch listed, nested patch listed⟩

/-- Neighbouring levels of a list, with the index of the finer one. -/
def Adjacent (levels : List (LevelLayout d)) (index : ℕ) (parent child : LevelLayout d) : Prop :=
  levels[index]? = some parent ∧ levels[index + 1]? = some child

theorem adjacent_cons {index : ℕ} {head : LevelLayout d} {levels : List (LevelLayout d)} :
    Adjacent (head :: levels) (index + 1) parent child ↔ Adjacent levels index parent child := by
  simp [Adjacent]

theorem admits_of_validateFrom {finer : List (LevelLayout d)} (within : pairCount ≤ budget.parentChildPatchPairs)
    (ran : validateFrom budget parent levelIndex pairCount finer = .ok ()) :
    (∀ index coarse fine, Adjacent (parent :: finer) index coarse fine →
      Admits (levelIndex + index) coarse fine) ∧
        pairCount + patchPairs (parent :: finer) ≤ budget.parentChildPatchPairs := by
  induction finer generalizing parent levelIndex pairCount with
  | nil =>
    refine ⟨?_, by simpa [patchPairs] using within⟩
    rintro index coarse fine ⟨-, none⟩
    simp at none
  | cons child finer ih =>
    simp only [validateFrom, bind_ok] at ran
    obtain ⟨total, first, rest⟩ := ran
    obtain ⟨admits, room, rfl⟩ := admits_of_validateLevel first
    obtain ⟨each, pairs⟩ := ih room rest
    refine ⟨fun index coarse fine adjacent => ?_, by rw [patchPairs]; omega⟩
    cases index with
    | zero =>
      obtain ⟨rfl, rfl⟩ : parent = coarse ∧ child = fine := by simpa [Adjacent] using adjacent
      exact admits
    | succ index =>
      rw [Nat.add_comm index, ← Nat.add_assoc]
      exact each index coarse fine (adjacent_cons.mp adjacent)

theorem validateFrom_of_admits {finer : List (LevelLayout d)}
    (each : ∀ index coarse fine, Adjacent (parent :: finer) index coarse fine → Admits (levelIndex + index) coarse fine)
    (room : pairCount + patchPairs (parent :: finer) ≤ budget.parentChildPatchPairs) :
    validateFrom budget parent levelIndex pairCount finer = .ok () := by
  induction finer generalizing parent levelIndex pairCount with
  | nil => rfl
  | cons child finer ih =>
    rw [patchPairs] at room
    have admits : Admits levelIndex parent child := each 0 parent child ⟨by simp, by simp⟩
    rw [validateFrom, validateLevel_of_admits admits (by omega), ok_bind]
    refine ih (fun index coarse fine adjacent => ?_) (by omega)
    have later := each (index + 1) coarse fine (adjacent_cons.mpr adjacent)
    rwa [Nat.add_comm index, ← Nat.add_assoc] at later

end Levels

/-- What a list of levels and a budget must satisfy to be a plan. -/
structure Acceptable (levels : List (LevelLayout d)) (budget : HierarchyValidationBudget) : Prop where
  levelBudget : levels.length ≤ budget.levels
  coarsest : ∃ level, levels.head? = some level ∧ level.level = 0
  admits : ∀ index parent child, Adjacent levels index parent child → Admits (index + 1) parent child
  pairBudget : patchPairs levels ≤ budget.parentChildPatchPairs

variable {levels : List (LevelLayout d)} {budget : HierarchyValidationBudget}

theorem acceptable_of_validate (ran : validate levels budget = .ok ()) : Acceptable levels budget := by
  cases levels with
  | nil => cases ran
  | cons coarsest finer =>
    simp only [validate, bind_ok, throwIf_ok, unit_exists, not_lt, gt_iff_lt, ne_eq, not_not] at ran
    obtain ⟨short, zero, ran⟩ := ran
    obtain ⟨each, pairs⟩ := admits_of_validateFrom (Nat.zero_le _) ran
    refine ⟨short, ⟨coarsest, rfl, zero⟩, fun index parent child adjacent => ?_, by omega⟩
    rw [Nat.add_comm]
    exact each index parent child adjacent

theorem validate_of_acceptable (acceptable : Acceptable levels budget) :
    validate levels budget = .ok () := by
  obtain ⟨short, ⟨coarsest, isHead, zero⟩, admits, pairs⟩ := acceptable
  cases levels with
  | nil => simp at isHead
  | cons head finer =>
    obtain rfl : head = coarsest := by simpa using isHead
    simp only [validate, bind_ok, throwIf_ok, unit_exists, not_lt, gt_iff_lt, ne_eq, not_not]
    refine ⟨short, zero, validateFrom_of_admits (fun index parent child adjacent => ?_) (by omega)⟩
    rw [Nat.add_comm]
    exact admits index parent child adjacent

/-- Each level refines the one below it, so its domain has at least `2 ^ index`
cells; with `int` coordinates the numbers of levels stay small. -/
theorem level_number (rank : d ≤ 3) (acceptable : Acceptable levels budget) {index : ℕ}
    {level : LevelLayout d} (found : levels[index]? = some level) :
    level.level = index ∧ 2 ^ index ≤ level.domain.cells.card := by
  induction index generalizing level with
  | zero =>
    obtain ⟨coarsest, isHead, zero⟩ := acceptable.coarsest
    rw [List.head?_eq_getElem?, found] at isHead
    cases isHead
    refine ⟨by simpa using zero, Finset.one_le_card.mpr ?_⟩
    exact ⟨_, Box.lo_mem level.nonempty_domain⟩
  | succ index ih =>
    obtain ⟨bound, -⟩ := List.getElem?_eq_some_iff.mp found
    obtain ⟨parent, parentFound⟩ : ∃ parent, levels[index]? = some parent :=
      ⟨levels.get ⟨index, by omega⟩, by simp⟩
    obtain ⟨-, parentCard⟩ := ih parentFound
    have admits := acceptable.admits index parent level ⟨parentFound, found⟩
    have small : index ≤ 96 := by
      apply (Nat.pow_le_pow_iff_right (show 1 < 2 by norm_num)).mp
      exact parentCard.trans (card_cells_le rank parent.domainFits)
    have number : level.level = (index + 1 : ℕ) := by
      rw [admits.level]
      apply castInt_of_fits
      unfold FitsInt intMin intMax
      omega
    refine ⟨number, ?_⟩
    obtain ⟨-, domain⟩ := (refineBox_ok parent.nonempty_domain).mp admits.domain
    have card := card_refined level.ratioFromParent parent.nonempty_domain
    have children := two_le_childCount (level.refinesAnyAxis (by omega))
    rw [← domain] at card
    zify at parentCard ⊢
    rw [card, pow_succ]
    exact mul_le_mul parentCard children (by norm_num) (by positivity)

/-- The levels up to an index with a child level on top: what `with_level` validates. -/
def extended (levels : List (LevelLayout d)) (index : ℕ) (child : LevelLayout d) : List (LevelLayout d) :=
  levels.take (index + 1) ++ [child]

section Extended
variable {index : ℕ} {parent child : LevelLayout d}

theorem length_extended (found : levels[index]? = some parent) :
    (extended levels index child).length = index + 2 := by
  obtain ⟨bound, -⟩ := List.getElem?_eq_some_iff.mp found
  rw [extended, List.length_append, List.length_take, List.length_singleton]
  omega

theorem extended_below (found : levels[index]? = some parent) {position : ℕ} (below : position < index + 1) :
    (extended levels index child)[position]? = levels[position]? := by
  obtain ⟨bound, -⟩ := List.getElem?_eq_some_iff.mp found
  have kept : position < (levels.take (index + 1)).length := by
    rw [List.length_take]
    omega
  rw [extended, List.getElem?_append_left kept, List.getElem?_take_of_lt below]

theorem extended_last (found : levels[index]? = some parent) :
    (extended levels index child)[index + 1]? = some child := by
  obtain ⟨bound, -⟩ := List.getElem?_eq_some_iff.mp found
  have kept : (levels.take (index + 1)).length = index + 1 := by
    rw [List.length_take]
    omega
  rw [extended, List.getElem?_append_right kept.le, kept, Nat.sub_self, List.getElem?_cons_zero]

/-- A child level goes on top of its parent exactly when the parent admits it
and the budgets allow it. -/
theorem acceptable_extended_iff (acceptable : Acceptable levels budget) (found : levels[index]? = some parent) :
    Acceptable (extended levels index child) budget ↔
      Admits (index + 1) parent child ∧ index + 2 ≤ budget.levels ∧
        patchPairs (extended levels index child) ≤ budget.parentChildPatchPairs := by
  constructor
  · intro above
    have short := above.levelBudget
    rw [length_extended found] at short
    refine ⟨above.admits index parent child ⟨?_, extended_last found⟩, short, above.pairBudget⟩
    rw [extended_below found (by omega), found]
  · rintro ⟨admits, short, pairs⟩
    refine ⟨by rwa [length_extended found], ?_, ?_, pairs⟩
    · obtain ⟨coarsest, isHead, zero⟩ := acceptable.coarsest
      refine ⟨coarsest, ?_, zero⟩
      rw [List.head?_eq_getElem?, extended_below found (by omega), ← List.head?_eq_getElem?, isHead]
    · rintro position coarse fine ⟨coarseFound, fineFound⟩
      rcases Nat.lt_trichotomy position index with before | rfl | after
      · rw [extended_below found (by omega)] at coarseFound fineFound
        exact acceptable.admits position coarse fine ⟨coarseFound, fineFound⟩
      · rw [extended_below found (by omega), found] at coarseFound
        rw [extended_last found] at fineFound
        cases coarseFound
        cases fineFound
        exact admits
      · have beyond := (List.getElem?_eq_some_iff.mp fineFound).1
        rw [length_extended found] at beyond
        omega

end Extended

theorem create_iff : (∃ plan, create levels budget = .ok plan) ↔ validate levels budget = .ok () := by
  unfold create
  split
  · rename_i thrown
    simp [thrown]
  · rename_i valid
    simp [valid]

/-- ... and `with_level` for a child level exactly when the levels below it
and the child are valid. -/
theorem withLevel_iff {plan : HierarchyPlan d} {index : ℕ} {child : LevelLayout d}
    (inside : index < plan.levels.length) (level : child.level = index + 1) :
    (∃ after, plan.withLevel child = .ok after) ↔ validate (extended plan.levels index child) plan.budget = .ok () := by
  have number : child.level.toNat = index + 1 := by omega
  have contiguous : ¬ (child.level < 0 ∨ child.level.toNat > plan.levels.length) := by omega
  rw [withLevel, throwIf_of_not contiguous, ok_bind, create_iff, number]
  rfl

/-- The cell `steps` levels below level `fine` that contains a cell. -/
def ancestor (levels : List (LevelLayout d)) (fine : ℕ) : ℕ → Index d → Index d
  | 0, cell => cell
  | steps + 1, cell =>
    ancestor levels (fine - 1) steps
      (match levels[fine]? with
        | none => cell
        | some level => parentCell level.ratioFromParent cell)

/-- The cell lies in a patch of the level. -/
def InLevel (levels : List (LevelLayout d)) (index : ℕ) (cell : Index d) : Prop :=
  ∃ level, levels[index]? = some level ∧ ∃ patch ∈ level.patches.boxes, cell ∈ patch.cells

/-- The levels are nested: a cell of any level has its ancestor at every
coarser level in a patch of that level. -/
def NestedLevels (levels : List (LevelLayout d)) : Prop :=
  ∀ fine cell, InLevel levels fine cell → ∀ steps ≤ fine,
    InLevel levels (fine - steps) (ancestor levels fine steps cell)

theorem nestedLevels_of_adjacent
    (adjacent : ∀ index parent child, Adjacent levels index parent child → Nested parent child) :
    NestedLevels levels := by
  intro fine cell inLevel steps within
  induction steps generalizing fine cell with
  | zero => simpa [ancestor] using inLevel
  | succ steps ih =>
    obtain ⟨level, found, patch, listed, inPatch⟩ := inLevel
    cases fine with
    | zero => omega
    | succ coarse =>
      obtain ⟨bound, -⟩ := List.getElem?_eq_some_iff.mp found
      obtain ⟨parent, parentFound⟩ : ∃ parent, levels[coarse]? = some parent :=
        ⟨levels.get ⟨coarse, by omega⟩, by simp⟩
      obtain ⟨parentPatch, known, inParent⟩ :=
        adjacent coarse parent level ⟨parentFound, found⟩ patch listed cell inPatch
      rw [ancestor, found, Nat.add_sub_add_right]
      exact ih coarse _ ⟨parent, parentFound, parentPatch, known, inParent⟩ (by omega)

theorem nestedLevels (plan : HierarchyPlan d) : NestedLevels plan.levels :=
  nestedLevels_of_adjacent fun index parent child adjacent =>
    ((acceptable_of_validate plan.valid).admits index parent child adjacent).nested

end HierarchyPlan

namespace AmrHierarchy
open HierarchyPlan

/-- One topology operation that returned. -/
inductive Step : AmrHierarchy d → AmrHierarchy d → Prop
  | withLevel {before after : AmrHierarchy d} (candidate : AmrLevelState d)
      (ran : before.withLevel candidate = .ok after) : Step before after
  | truncated {before after : AmrHierarchy d} (finest : ℕ)
      (ran : before.truncated finest = .ok after) : Step before after

theorem validate_layouts (hierarchy : AmrHierarchy d) :
    HierarchyPlan.validate hierarchy.layouts hierarchy.budget = .ok () := by
  obtain ⟨levels, budget, valid⟩ := hierarchy
  cases levels with
  | nil => cases valid
  | cons coarsest finer =>
    simp only [validate, bind_ok, unit_exists] at valid
    exact valid.1

theorem create_iff {levels : List (AmrLevelState d)} {budget : HierarchyValidationBudget} :
    (∃ hierarchy, create levels budget = .ok hierarchy) ↔ validate levels budget = .ok () := by
  unfold create
  split
  · rename_i thrown
    simp [thrown]
  · rename_i valid
    simp [valid]

/-- The field of a candidate has the components, ghosts and local rank of the
levels of the hierarchy. -/
def SameContract (hierarchy : AmrHierarchy d) (candidate : AmrLevelState d) : Prop :=
  ∀ level ∈ hierarchy.levels, level.field.ncomp = candidate.field.ncomp ∧
    level.field.ghosts = candidate.field.ghosts ∧ level.field.localRank = candidate.field.localRank

theorem withLevel_iff {hierarchy : AmrHierarchy d} {candidate : AmrLevelState d}
    (contract : hierarchy.SameContract candidate) {index : ℕ} (inside : index < hierarchy.levels.length)
    (level : candidate.layout.level = index + 1) :
    (∃ after, hierarchy.withLevel candidate = .ok after) ↔
      HierarchyPlan.validate (extended hierarchy.layouts index candidate.layout) hierarchy.budget = .ok () := by
  have number : candidate.layout.level.toNat = index + 1 := by omega
  have contiguous : ¬ (candidate.layout.level < 0 ∨
      candidate.layout.level.toNat > hierarchy.levels.length) := by omega
  rw [withLevel, throwIf_of_not contiguous, ok_bind, create_iff, number, extended, layouts, ← List.map_take]
  obtain ⟨levels, budget, valid⟩ := hierarchy
  cases levels with
  | nil => cases valid
  | cons coarsest finer =>
    simp only [SameContract, List.take_succ_cons, List.cons_append, validate, bind_ok, unit_exists,
      throwIf_ok, forM_ok] at contract ⊢
    simp only [List.map_cons, List.map_append, List.map_nil, List.cons_append]
    refine and_iff_left_of_imp fun _ current listed => ?_
    have same : current.field.ncomp = candidate.field.ncomp ∧ current.field.ghosts = candidate.field.ghosts ∧
        current.field.localRank = candidate.field.localRank := by
      rcases List.mem_cons.mp listed with rfl | listed
      · exact contract current (by simp)
      · rcases List.mem_append.mp listed with earlier | last
        · exact contract current (List.mem_cons_of_mem _ (List.mem_of_mem_take earlier))
        · rw [List.mem_singleton.mp last]
          exact ⟨rfl, rfl, rfl⟩
    obtain ⟨ncomp, ghosts, localRank⟩ := contract coarsest (by simp)
    simp [same, ncomp, ghosts, localRank]

/-- Plans and all hierarchies reached by topology operations are nested, and
a list of levels is a plan exactly when it is acceptable. -/
theorem nested_and_accepted_iff :
    (∀ plan : HierarchyPlan d, NestedLevels plan.levels) ∧
      (∀ start reached : AmrHierarchy d, Relation.ReflTransGen Step start reached →
        NestedLevels reached.layouts) ∧
      ∀ (levels : List (LevelLayout d)) budget,
        HierarchyPlan.validate levels budget = .ok () ↔ Acceptable levels budget := by
  refine ⟨HierarchyPlan.nestedLevels, fun _ reached _ => ?_, fun levels budget => ?_⟩
  · exact HierarchyPlan.nestedLevels ⟨reached.layouts, reached.budget, reached.validate_layouts⟩
  · exact ⟨acceptable_of_validate, validate_of_acceptable⟩

end AmrHierarchy

section Line

def coarseLine : LevelLayout 1 where
  level := 0
  domain := segment 0 3
  domainFits := by decide
  patches := ⟨[segment 0 3]⟩
  distribution := ⟨⟨[segment 0 3]⟩, oneRank, .replicated, [], rfl⟩
  ratioFromParent := .identity
  validationBudget := ⟨1, 0⟩
  valid := rfl

/-- Both fine cells of this patch have parents, but each parent has a child
outside it. -/
def splitParents : LevelLayout 1 where
  level := 1
  domain := segment 0 7
  domainFits := segment_fits
  patches := ⟨[segment 1 2]⟩
  distribution := ⟨⟨[segment 1 2]⟩, oneRank, .replicated, [], rfl⟩
  ratioFromParent := double
  validationBudget := ⟨1, 0⟩
  valid := rfl

/-- Nesting alone does not make a plan: a nested patch that splits its parent
cells is rejected. -/
theorem nested_rejected : Nested coarseLine splitParents ∧
    HierarchyPlan.NestedLevels [coarseLine, splitParents] ∧
      HierarchyPlan.validate [coarseLine, splitParents] ⟨2, 1⟩ = .error (.invalidArgument
        "HierarchyPlan fine patches must contain complete anisotropic parent cells") := by
  have nested : Nested coarseLine splitParents := by
    intro patch listed cell inside
    obtain rfl : patch = segment 1 2 := by simpa [splitParents] using listed
    refine ⟨segment 0 3, by simp [coarseLine], ?_⟩
    rw [Box.mem_cells] at inside ⊢
    intro axis
    have bounds := inside axis
    simp only [segment, parentCell, splitParents, double] at bounds ⊢
    omega
  refine ⟨nested, HierarchyPlan.nestedLevels_of_adjacent fun index parent child adjacent => ?_, by decide +kernel⟩
  cases index with
  | zero =>
    obtain ⟨rfl, rfl⟩ : coarseLine = parent ∧ splitParents = child := by
      simpa [HierarchyPlan.Adjacent] using adjacent
    exact nested
  | succ index => simp [HierarchyPlan.Adjacent] at adjacent

end Line

end Pops
