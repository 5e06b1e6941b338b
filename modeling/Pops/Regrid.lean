import Pops.BergerRigoutsosProofs
import Pops.HierarchyPlanProofs
import Pops.LoadBalance

/-!
`amr/regridding/regrid.hpp`: from a clustering of the tags of a level to the
layout of its child. Every rank of the lane prepares the same values, so a
local failure is a failure of all of them.
-/
namespace Pops

variable {d : ℕ} {R : Type}

structure RegridPreparationBudget where
  clusteredParentLayout : BoxArrayValidationBudget := {}
  fineLayout : BoxArrayValidationBudget := {}
  loadBalance : LoadBalancePreparationBudget := {}

/-- `PreparedRegrid`. Without a fine layout it removes the fine level. -/
structure PreparedRegrid (d : ℕ) (R : Type) where
  sourceLevel : LevelLayoutIdentity d
  ratio : RefinementRatio d
  clustering : ClusterResultIdentity d R
  ownership : Option (OwnershipPlan d)
  fineLayout : Option (LevelLayout d)

/-- The refined patches and domain of a child level. -/
structure FinePatches (d : ℕ) where
  patches : BoxArray d
  domain : Box d
  domainFits : domain.Fits

namespace Regrid

/-- The refined domain of a child level. -/
def refineDomain (parent : LevelLayout d) (ratio : RefinementRatio d) (patches : BoxArray d) :
    Checked (FinePatches d) :=
  match ran : refineBox parent.domain ratio with
  | .error exception => .error exception
  | .ok domain => .ok ⟨patches, domain, refineBox_keeps_fits parent.domainFits ran⟩

/-- The refined patches of a clustering, checked against the refined domain. -/
def refinePatches (parent : LevelLayout d) (ratio : RefinementRatio d) (clustered : BoxArray d)
    (budget : RegridPreparationBudget) : Checked (FinePatches d) := do
  let refined ← clustered.boxes.mapM fun parentPatch => refineBox parentPatch ratio
  let fine ← refineDomain parent ratio ⟨refined⟩
  let disjoint ← fine.patches.isDisjointWithin fine.domain budget.fineLayout
  throwIf (disjoint = false)
    (.invalidArgument "prepared regrid refined patches are not a valid child layout")
  return fine

/-- The local source preparation; nothing for an empty clustering. -/
def prepareSource (parent : LevelLayout d) (ratio : RefinementRatio d) (clustered : ClusterResult d R)
    (budget : RegridPreparationBudget) : Checked (Option (FinePatches d)) := do
  throwIf (¬ ratio.RefinesAnyAxis)
    (.invalidArgument "prepared regrid requires a non-identity inter-level ratio")
  throwIf (clustered.identity.provider = "" ∨ clustered.identity.sourceLevel ≠ parent.exactIdentity ∨
      clustered.identity.boxes ≠ clustered.boxes.boxes)
    (.invalidArgument "prepared regrid clustering result does not authenticate its parent level and boxes")
  let disjoint ← clustered.boxes.isDisjointWithin parent.domain budget.clusteredParentLayout
  throwIf (disjoint = false)
    (.invalidArgument "prepared regrid cluster boxes must be disjoint and inside the parent")
  if clustered.boxes.boxes.isEmpty then
    return none
  else
    let fine ← refinePatches parent ratio clustered.boxes budget
    return some fine

/-- A local failure on a lane of one rank is rethrown; on a larger lane every
rank throws the collective error. -/
def collectively {α : Type} (lane : ExecutionLane) (failure : String) (prepared : Checked α) : Checked α :=
  match prepared with
  | .ok value => .ok value
  | .error exception => .error (if lane.size = 1 then exception else .runtimeError failure)

/-- The child level of a clustering that is not empty. -/
def prepareFine (parent : LevelLayout d) (ratio : RefinementRatio d)
    (loadBalance : PreparedLoadBalanceAuthority d) (budget : RegridPreparationBudget)
    (lane : ExecutionLane) (fine : FinePatches d) : Checked (OwnershipPlan d × LevelLayout d) := do
  let ownership ← loadBalance.prepare fine.patches parent.distribution.rankSpace budget.loadBalance [] lane
  let layout ← collectively lane "prepared regrid result preparation failed collectively"
    (LevelLayout.create (castInt (parent.level + 1)) fine.domain fine.domainFits fine.patches
      ownership.distribution ratio budget.fineLayout)
  return (ownership, layout)

end Regrid

open Regrid

def prepareRegrid (parent : LevelLayout d) (ratio : RefinementRatio d) (clustered : ClusterResult d R)
    (loadBalance : PreparedLoadBalanceAuthority d) (budget : RegridPreparationBudget)
    (lane : ExecutionLane) : Checked (PreparedRegrid d R) := do
  let source ← collectively lane "prepared regrid local source preparation failed collectively"
    (prepareSource parent ratio clustered budget)
  match source with
  | none => return ⟨parent.exactIdentity, ratio, clustered.identity, none, none⟩
  | some fine => do
    let (ownership, layout) ← prepareFine parent ratio loadBalance budget lane fine
    return ⟨parent.exactIdentity, ratio, clustered.identity, some ownership, some layout⟩

end Pops
