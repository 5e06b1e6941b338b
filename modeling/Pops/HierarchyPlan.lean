import Pops.LevelLayoutProofs

/-!
`amr/hierarchy/hierarchy_plan.hpp` and `amr/hierarchy/amr_hierarchy.hpp`: the
validated stack of levels, with and without the field allocated on each level.
Field values play no part in any check and are left out.
-/
namespace Pops

variable {d : ℕ}

structure HierarchyValidationBudget where
  levels : ℕ := 0
  parentChildPatchPairs : ℕ := 0
  deriving DecidableEq

namespace HierarchyPlan

def checkedPairCount (children parents : ℕ) : Checked ℕ := do
  throwIf (parents ≠ 0 ∧ children > sizeMax / parents)
    (.lengthError "HierarchyPlan parent/child patch pair count exceeds size_t")
  return children * parents

/-- The checks of one fine patch against its parent level. -/
def validatePatch (parent : LevelLayout d) (ratio : RefinementRatio d) (finePatch : Box d) :
    Checked Unit := do
  let footprint := coarsenBox finePatch ratio
  let refined ← refineBox footprint ratio
  throwIf (refined ≠ finePatch)
    (.invalidArgument "HierarchyPlan fine patches must contain complete anisotropic parent cells")
  let covered ← (parent.patches.boxes.map footprint.intersect).foldlM
    (BoxArray.addCount
      (.overflowError "HierarchyPlan parent coverage exceeds exact count capacity")) .zero
  let whole ← ExactCellCount.fromBox footprint
  throwIf (covered ≠ whole)
    (.invalidArgument "HierarchyPlan fine patch footprint is not covered by the parent level")

/-- The checks of one level against its parent, with the patch pairs counted
so far. -/
def validateLevel (budget : HierarchyValidationBudget) (parent child : LevelLayout d)
    (levelIndex pairCount : ℕ) : Checked ℕ := do
  throwIf (child.level ≠ castInt levelIndex)
    (.invalidArgument "HierarchyPlan levels must be consecutive and ordered")
  throwIf (child.distribution.rankSpace ≠ parent.distribution.rankSpace)
    (.invalidArgument "HierarchyPlan levels must share one exact process space")
  let domain ← refineBox parent.domain child.ratioFromParent
  throwIf (child.domain ≠ domain)
    (.invalidArgument "HierarchyPlan child domain is not the anisotropic refinement of its parent")
  let currentPairs ← checkedPairCount child.patches.boxes.length parent.patches.boxes.length
  throwIf (pairCount > budget.parentChildPatchPairs ∨
      currentPairs > budget.parentChildPatchPairs - pairCount)
    (.lengthError "HierarchyPlan exceeds its explicit parent/child pair budget")
  child.patches.boxes.forM (validatePatch parent child.ratioFromParent)
  return pairCount + currentPairs

/-- The loop of `validate_` over the levels after a parent. -/
def validateFrom (budget : HierarchyValidationBudget) :
    LevelLayout d → ℕ → ℕ → List (LevelLayout d) → Checked Unit
  | _, _, _, [] => .ok ()
  | parent, levelIndex, pairCount, child :: finer => do
    let pairCount ← validateLevel budget parent child levelIndex pairCount
    validateFrom budget child (levelIndex + 1) pairCount finer

def validate (levels : List (LevelLayout d)) (budget : HierarchyValidationBudget) : Checked Unit :=
  match levels with
  | [] => .error (.invalidArgument "HierarchyPlan requires level zero")
  | coarsest :: finer => do
    throwIf (levels.length > budget.levels)
      (.lengthError "HierarchyPlan exceeds its explicit level budget")
    throwIf (coarsest.level ≠ 0)
      (.invalidArgument "HierarchyPlan first level must be level zero")
    validateFrom budget coarsest 1 0 finer

end HierarchyPlan

/-- A plan of levels that passed validation. -/
structure HierarchyPlan (d : ℕ) where
  levels : List (LevelLayout d)
  budget : HierarchyValidationBudget
  valid : HierarchyPlan.validate levels budget = .ok ()

namespace HierarchyPlan

/-- The checked constructor. -/
def create (levels : List (LevelLayout d)) (budget : HierarchyValidationBudget) :
    Checked (HierarchyPlan d) :=
  match ran : validate levels budget with
  | .error exception => .error exception
  | .ok () => .ok ⟨levels, budget, ran⟩

/-- `with_level`: append or replace, dropping the levels finer than the candidate. -/
def withLevel (plan : HierarchyPlan d) (candidate : LevelLayout d) : Checked (HierarchyPlan d) := do
  throwIf (candidate.level < 0 ∨ candidate.level.toNat > plan.levels.length)
    (.outOfRange "HierarchyPlan replacement level is not contiguous")
  create (plan.levels.take candidate.level.toNat ++ [candidate]) plan.budget

end HierarchyPlan

/-- The metadata of a level field that the hierarchy checks. -/
structure LevelField (d : ℕ) where
  layout : BoxArray d
  distribution : Distribution d
  localRank : Index d
  ncomp : ℤ
  ghosts : Extent d

def AmrLevelState.validate (layout : LevelLayout d) (field : LevelField d) : Checked Unit := do
  throwIf (field.layout ≠ layout.patches ∨ field.distribution ≠ layout.distribution)
    (.invalidArgument "AMR level field does not authenticate the level layout and ownership")
  throwIf (¬ layout.distribution.rankSpace.Contains field.localRank)
    (.invalidArgument "AMR level local rank lies outside the level process space")

/-- One level whose geometry, ownership and field are inseparable. -/
structure AmrLevelState (d : ℕ) where
  layout : LevelLayout d
  field : LevelField d
  valid : AmrLevelState.validate layout field = .ok ()

namespace AmrHierarchy

def validate (levels : List (AmrLevelState d)) (budget : HierarchyValidationBudget) : Checked Unit :=
  match levels with
  | [] => .error (.invalidArgument "AMR hierarchy requires a materialized coarse level")
  | coarsest :: _ => do
    HierarchyPlan.validate (levels.map AmrLevelState.layout) budget
    levels.forM fun current => do
      throwIf (current.field.ncomp ≠ coarsest.field.ncomp ∨ current.field.ghosts ≠ coarsest.field.ghosts)
        (.invalidArgument "AMR hierarchy levels must share one component and ghost-width contract")
      throwIf (current.field.localRank ≠ coarsest.field.localRank)
        (.invalidArgument "AMR hierarchy levels must share one local rank coordinate")

end AmrHierarchy

/-- A complete hierarchy value. -/
structure AmrHierarchy (d : ℕ) where
  levels : List (AmrLevelState d)
  budget : HierarchyValidationBudget
  valid : AmrHierarchy.validate levels budget = .ok ()

namespace AmrHierarchy

/-- The checked constructor. -/
def create (levels : List (AmrLevelState d)) (budget : HierarchyValidationBudget) :
    Checked (AmrHierarchy d) :=
  match ran : validate levels budget with
  | .error exception => .error exception
  | .ok () => .ok ⟨levels, budget, ran⟩

/-- The layouts of the levels, as `plan()` collects them. -/
def layouts (hierarchy : AmrHierarchy d) : List (LevelLayout d) :=
  hierarchy.levels.map AmrLevelState.layout

def withLevel (hierarchy : AmrHierarchy d) (candidate : AmrLevelState d) : Checked (AmrHierarchy d) := do
  throwIf (candidate.layout.level < 0 ∨ candidate.layout.level.toNat > hierarchy.levels.length)
    (.outOfRange "AMR hierarchy replacement level is not contiguous")
  create (hierarchy.levels.take candidate.layout.level.toNat ++ [candidate]) hierarchy.budget

/-- `truncated`: the levels zero through `finest`. -/
def truncated (hierarchy : AmrHierarchy d) (finest : ℕ) : Checked (AmrHierarchy d) := do
  throwIf (finest ≥ hierarchy.levels.length)
    (.outOfRange "AMR hierarchy truncation level lies outside the hierarchy")
  create (hierarchy.levels.take (finest + 1)) hierarchy.budget

end AmrHierarchy

end Pops
