import Mathlib.Algebra.BigOperators.Field
import Pops.CopySchedule

/-!
`mesh/layout/refinement.hpp`: refinement and coarsening of layouts, the local
replay of a copy schedule, and the piecewise-constant transfers between levels.
`Real` arithmetic is exact: `K` is any field.
-/
namespace Pops.Refinement
open Finset MixedRadix

variable {d : ℕ} {K : Type}

def validateRatio (ratio : Extent d) (operation : String) : Checked Unit :=
  throwIf (∃ axis, ratio axis ≤ 0 ∨ ratio axis > intMax)
    (.invalidArgument (operation ++ ": refinement ratios must be positive native indices"))

/-- One axis of `child_count`. -/
def childStep (ratio : Extent d) (operation : String) (result : ℤ) (axis : Fin d) : Checked ℤ := do
  throwIf (result > int64Max / ratio axis) (.overflowError (operation ++ ": child count exceeds int64_t"))
  return result * ratio axis

def childCount (ratio : Extent d) (operation : String) : Checked ℤ := do
  validateRatio ratio operation
  (List.finRange d).foldlM (childStep ratio operation) 1

def coarsen (ratio : Extent d) (box : Box d) : Checked (Box d) := do
  validateRatio ratio "pops::coarsen"
  if box.Empty then return box
  else return ⟨fun axis => floorDiv (box.lo axis) (ratio axis), fun axis => floorDiv (box.hi axis) (ratio axis)⟩

def refine (ratio : Extent d) (box : Box d) : Checked (Box d) := do
  validateRatio ratio "pops::refine"
  if box.Empty then return box
  else do
    let bounds ← axes fun axis => do
      let lower ← checkedIndex (box.lo axis * ratio axis) "pops::refine lower bound exceeds Index range"
      let upper ← checkedIndex (box.hi axis * ratio axis + ratio axis - 1)
        "pops::refine upper bound exceeds Index range"
      return (lower, upper)
    return ⟨fun axis => (bounds axis).1, fun axis => (bounds axis).2⟩

/-- `coarsen` of a layout. -/
def coarsenLayout (ratio : Extent d) (layout : BoxArray d) : Checked (BoxArray d) := do
  let boxes ← layout.boxes.mapM (coarsen ratio)
  return ⟨boxes⟩

/-- `refine` of a layout. -/
def refineLayout (ratio : Extent d) (layout : BoxArray d) : Checked (BoxArray d) := do
  let boxes ← layout.boxes.mapM (refine ratio)
  return ⟨boxes⟩

def rebindDistribution (layout : BoxArray d) (model : Distribution d) : Checked (Distribution d) := do
  throwIf (layout.boxes.length ≠ model.layout.boxes.length)
    (.invalidArgument "pops::refinement distribution rebind requires the same global patch count")
  if model.mode = .replicated then Distribution.create layout model.rankSpace .replicated []
  else Distribution.create layout model.rankSpace .partitioned model.owners

/-- A `MultiFab` on one rank: the value in a patch, at a cell, of a component. What is not in a local patch is never
read. -/
structure MultiFab (d : ℕ) (K : Type) where
  layout : BoxArray d
  distribution : Distribution d
  localRank : Index d
  ncomp : ℤ
  values : ℕ → Index d → ℤ → K

namespace MultiFab

/-- The constructor of a field without ghosts, with `validate_metadata_`. -/
def create [Zero K] (layout : BoxArray d) (distribution : Distribution d) (localRank : Index d) (ncomp : ℤ) :
    Checked (MultiFab d K) := do
  throwIf (distribution.layout ≠ layout)
    (.invalidArgument "pops::MultiFab: distribution layout does not exactly match the field layout")
  throwIf (¬ distribution.rankSpace.Contains localRank)
    (.outOfRange "pops::MultiFab: local rank is outside the distribution rank space")
  throwIf (ncomp < 1) (.invalidArgument "pops::MultiFab: ncomp must be positive")
  return ⟨layout, distribution, localRank, ncomp, fun _ _ _ => 0⟩

/-- The patches in local storage, by `global_index`. -/
def localBoxes (field : MultiFab d K) : List ℕ :=
  (List.range field.layout.boxes.length).filter fun patch => field.distribution.IsLocal patch field.localRank

/-- `for_each_cell` over a region of a patch, with a kernel that writes some components. -/
def write (field : MultiFab d K) (patch : ℕ) (region : Box d) (first count : ℤ) (kernel : Index d → ℤ → K) :
    MultiFab d K :=
  { field with
    values := fun other cell component =>
      if other = patch ∧ region.Contains cell ∧ first ≤ component ∧ component < first + count then
        kernel cell component
      else field.values other cell component }

/-- The box of a patch. -/
def box (field : MultiFab d K) (patch : ℕ) : Box d := field.layout.boxes.getD patch .default

end MultiFab

def prepareCopySchedule (destination source : MultiFab d K) (budget : CopyScheduleBudget) :
    Checked (CopySchedule d) := do
  throwIf (destination.localRank ≠ source.localRank)
    (.invalidArgument "pops::prepare_copy_schedule fields use different local ranks")
  CopySchedule.create destination.layout destination.distribution source.layout source.distribution
    destination.localRank budget

def requireLocalExecution (schedule : CopySchedule d) : Checked Unit :=
  throwIf (schedule.classes.send ≠ [] ∨ schedule.classes.receive ≠ [])
    (.logicError "pops::CopySchedule contains remote ND jobs; this build has no production ND transport")

def authenticate (schedule : CopySchedule d) (destination source : MultiFab d K) : Checked Unit :=
  throwIf (destination.layout ≠ schedule.destinationLayout ∨
      destination.distribution ≠ schedule.destinationDistribution ∨ source.layout ≠ schedule.sourceLayout ∨
      source.distribution ≠ schedule.sourceDistribution ∨ destination.localRank ≠ schedule.localRank ∨
      source.localRank ≠ schedule.localRank)
    (.invalidArgument "pops::CopySchedule does not match the source/destination fields")

/-- The `CopyKernel` over the region of a job. -/
def copyJob (source : MultiFab d K) (destinationComponent sourceComponent count : ℤ) (destination : MultiFab d K)
    (job : CopyJob d) : MultiFab d K :=
  destination.write job.destinationBox job.region destinationComponent count fun cell component =>
    source.values job.sourceBox cell (sourceComponent + (component - destinationComponent))

/-- `parallel_copy` of a component range. -/
def parallelCopyComponents (destination source : MultiFab d K) (schedule : CopySchedule d)
    (destinationComponent sourceComponent count : ℤ) : Checked (MultiFab d K) := do
  authenticate schedule destination source
  throwIf (destinationComponent < 0 ∨ sourceComponent < 0 ∨ count ≤ 0 ∨
      destinationComponent > destination.ncomp - count ∨ sourceComponent > source.ncomp - count)
    (.invalidArgument "pops::parallel_copy component range is invalid")
  requireLocalExecution schedule
  return schedule.classes.localJobs.foldl (copyJob source destinationComponent sourceComponent count) destination

def parallelCopy (destination source : MultiFab d K) (schedule : CopySchedule d) : Checked (MultiFab d K) := do
  throwIf (destination.ncomp ≠ source.ncomp)
    (.invalidArgument "pops::parallel_copy fields have different component counts")
  parallelCopyComponents destination source schedule 0 0 destination.ncomp

def validateTransferFields (fine coarse : MultiFab d K) (ratio : Extent d) (operation : String) : Checked Unit := do
  validateRatio ratio operation
  throwIf (fine.ncomp ≠ coarse.ncomp)
    (.invalidArgument (operation ++ ": fine and coarse component counts differ"))
  throwIf (fine.distribution.rankSpace ≠ coarse.distribution.rankSpace ∨ fine.localRank ≠ coarse.localRank)
    (.invalidArgument (operation ++ ": fine and coarse rank identities differ"))

/-- The child of a coarse cell with the given ordinal. -/
def childCell (ratio : Extent d) (coarse : Index d) (ordinal : ℕ) : Index d := fun axis =>
  castInt (coarse axis * ratio axis +
    (decode (fun axis => (ratio axis).toNat) (List.finRange d) ordinal fun _ => 0).1 axis)

def averageDownKernel [Field K] (ratio : Extent d) (children : ℤ) (fine : Index d → ℤ → K) (coarse : Index d)
    (component : ℤ) : K :=
  (∑ ordinal ∈ range children.toNat, fine (childCell ratio coarse ordinal) component) / (children : K)

/-- The cell of the coarse field that `InterpolateKernel` reads. -/
def coarseCell (ratio : Extent d) (fine : Index d) : Index d := fun axis =>
  castInt (floorDiv (fine axis) (ratio axis))

/-- The common part of the transfers: an empty field on the coarsened fine patches. -/
def allocateScratch [Zero K] (fine : MultiFab d K) (ratio : Extent d) (operation : String) :
    Checked (MultiFab d K) := do
  let scratchLayout ← coarsenLayout ratio fine.layout
  let refined ← refineLayout ratio scratchLayout
  throwIf (refined.boxes ≠ fine.layout.boxes)
    (.invalidArgument (operation ++ " requires fine patches aligned to the refinement ratio"))
  let scratchDistribution ← rebindDistribution scratchLayout fine.distribution
  MultiFab.create scratchLayout scratchDistribution fine.localRank fine.ncomp

/-- `AverageDownKernel` over the local patches. -/
def averagePatches [Field K] (fine : MultiFab d K) (ratio : Extent d) (children : ℤ) (scratch : MultiFab d K) :
    MultiFab d K :=
  fine.localBoxes.foldl (fun after patch => after.write patch (scratch.box patch) 0 fine.ncomp
    (averageDownKernel ratio children (fine.values patch))) scratch

/-- `InterpolateKernel` over the local patches. -/
def interpolatePatches (scratch : MultiFab d K) (ratio : Extent d) (fine : MultiFab d K) : MultiFab d K :=
  fine.localBoxes.foldl (fun after patch => after.write patch (fine.box patch) 0 fine.ncomp
    fun cell => scratch.values patch (coarseCell ratio cell)) fine

def averageDown [Field K] (fine coarse : MultiFab d K) (ratio : Extent d) (budget : CopyScheduleBudget) :
    Checked (MultiFab d K) := do
  validateTransferFields fine coarse ratio "pops::average_down"
  let children ← childCount ratio "pops::average_down"
  let scratch ← allocateScratch fine ratio "pops::average_down"
  let schedule ← prepareCopySchedule coarse scratch budget
  requireLocalExecution schedule
  parallelCopy coarse (averagePatches fine ratio children scratch) schedule

def interpolate [Field K] (coarse fine : MultiFab d K) (ratio : Extent d) (budget : CopyScheduleBudget) :
    Checked (MultiFab d K) := do
  validateTransferFields fine coarse ratio "pops::interpolate"
  let scratch ← allocateScratch fine ratio "pops::interpolate"
  let schedule ← prepareCopySchedule scratch coarse budget
  requireLocalExecution schedule
  let filled ← parallelCopy scratch coarse schedule
  return interpolatePatches filled ratio fine

end Pops.Refinement
