import Pops.Distribution
import Pops.RefinementRatio

/-!
`amr/hierarchy/level_layout.hpp`: refinement and coarsening of boxes, and the
validated geometry and ownership of one level.
-/
namespace Pops

variable {d : ℕ}

/-- `refine_box`; the ratio is positive by construction. -/
def refineBox (box : Box d) (ratio : RefinementRatio d) : Checked (Box d) :=
  if box.Empty then .ok box
  else do
    let bounds ← axes fun axis => do
      let lower ← checkedIndex (box.lo axis * ratio axis)
        "refine_box lower bound exceeds signed index range"
      let upper ← checkedIndex (box.hi axis * ratio axis + ratio axis - 1)
        "refine_box upper bound exceeds signed index range"
      return (lower, upper)
    return ⟨fun axis => (bounds axis).1, fun axis => (bounds axis).2⟩

/-- `coarsen_box`, with mathematical floor division on negative origins. -/
def coarsenBox (box : Box d) (ratio : RefinementRatio d) : Box d :=
  if box.Empty then box
  else ⟨fun axis => floorDiv (box.lo axis) (ratio axis), fun axis => floorDiv (box.hi axis) (ratio axis)⟩

structure LevelLayoutIdentity (d : ℕ) where
  level : ℤ
  domain : Box d
  ratioFromParent : RefinementRatio d
  patches : List (Box d)
  rankSpace : RankSpace d
  distributionMode : DistributionMode
  owners : List (Index d)
  validationBudget : BoxArrayValidationBudget
  deriving DecidableEq

def LevelLayout.validate (level : ℤ) (domain : Box d) (patches : BoxArray d)
    (distribution : Distribution d) (ratioFromParent : RefinementRatio d)
    (budget : BoxArrayValidationBudget) : Checked Unit := do
  throwIf (level < 0) (.invalidArgument "LevelLayout level must be non-negative")
  throwIf domain.Empty (.invalidArgument "LevelLayout domain must be non-empty")
  throwIf (patches.boxes = []) (.invalidArgument "LevelLayout must contain at least one patch")
  throwIf (distribution.layout ≠ patches)
    (.invalidArgument "LevelLayout distribution does not authenticate its patch layout")
  if level = 0 then
    throwIf ratioFromParent.RefinesAnyAxis
      (.invalidArgument "LevelLayout level zero must use the identity ratio")
    let exact ← patches.tilesExactly domain budget
    throwIf (exact = false)
      (.invalidArgument "LevelLayout level zero patches must exactly tile the domain")
  else
    throwIf (¬ ratioFromParent.RefinesAnyAxis)
      (.invalidArgument "a fine LevelLayout must refine at least one axis")
    let disjoint ← patches.isDisjointWithin domain budget
    throwIf (disjoint = false)
      (.invalidArgument
        "a fine LevelLayout requires non-empty disjoint patches inside its domain")

/-- One geometric level and its exact patch ownership. -/
structure LevelLayout (d : ℕ) where
  level : ℤ
  domain : Box d
  domainFits : domain.Fits
  patches : BoxArray d
  distribution : Distribution d
  ratioFromParent : RefinementRatio d
  validationBudget : BoxArrayValidationBudget
  valid : LevelLayout.validate level domain patches distribution ratioFromParent validationBudget = .ok ()
  deriving DecidableEq

namespace LevelLayout

/-- The checked constructor. -/
def create (level : ℤ) (domain : Box d) (domainFits : domain.Fits) (patches : BoxArray d)
    (distribution : Distribution d) (ratioFromParent : RefinementRatio d)
    (budget : BoxArrayValidationBudget) : Checked (LevelLayout d) :=
  match ran : validate level domain patches distribution ratioFromParent budget with
  | .error exception => .error exception
  | .ok () => .ok ⟨level, domain, domainFits, patches, distribution, ratioFromParent, budget, ran⟩

def exactIdentity (layout : LevelLayout d) : LevelLayoutIdentity d where
  level := layout.level
  domain := layout.domain
  ratioFromParent := layout.ratioFromParent
  patches := layout.patches.boxes
  rankSpace := layout.distribution.rankSpace
  distributionMode := layout.distribution.mode
  owners := layout.distribution.owners
  validationBudget := layout.validationBudget

end LevelLayout

end Pops
