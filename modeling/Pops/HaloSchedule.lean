import Pops.BoundaryTopology
import Pops.BoxAlgebra
import Pops.Collective
import Pops.PeerPlans

/-!
`mesh/boundary/halo_schedule.hpp`: which cells a rank copies into the ghosts of
its patches, from which patches and through which periodic images. The
construction is the same on every rank but for the classification at its end.
-/
namespace Pops
open MixedRadix PeerPlans

variable {d : ℕ}

structure HaloScheduleBudget where
  layout : BoxArrayValidationBudget
  boxImagePairs : ℕ
  jobs : ℕ
  periodicImages : ℕ
  peerPlans : ℕ
  localElements : ℕ
  sendElements : ℕ
  receiveElements : ℕ

inductive HaloLayoutCoverage where
  | fullDomain
  | sparseLevel
  deriving DecidableEq

structure HaloJob (d : ℕ) where
  sourceBox : ℕ
  destinationBox : ℕ
  destinationRegion : Box d
  sourceFromDestination : Index d
  offset : ℕ
  elements : ℕ
  deriving DecidableEq

instance : StagedJob (HaloJob d) where
  elements job := job.elements
  offset job := job.offset
  placedAt job start := { job with offset := start }
  elements_placedAt _ _ := rfl
  offset_placedAt _ _ := rfl

def Distribution.owner (distribution : Distribution d) (globalBox : ℕ) : Checked (Index d) := do
  throwIf (globalBox ≥ distribution.layout.boxes.length)
    (.outOfRange "Distribution global patch index is outside the layout")
  match distribution.mode with
  | .replicated => .error (.logicError "replicated Distribution layouts have no unique owner")
  | .partitioned =>
    match distribution.owners[globalBox]? with
    | some owner => .ok owner
    | none => .error (.outOfRange "Distribution global patch index is outside the layout")

namespace HaloSchedule

def checkedProduct (left right : ℕ) (operation : String) : Checked ℕ := do
  throwIf (left ≠ 0 ∧ right > sizeMax / left) (.lengthError operation)
  return left * right

/-- `grow`, one axis after the other. -/
def grow (box : Box d) (ghosts : Extent d) : Checked (Box d) :=
  (List.finRange d).foldlM (fun result axis => do
    throwIf (ghosts axis < 0) (.invalidArgument "pops::HaloSchedule ghost extents must be non-negative")
    let amount ← checkedIndex (ghosts axis) "pops::HaloSchedule ghost extent exceeds int"
    result.growAxis axis amount) box

/-- The image count of one axis of `image_counts`: the patch itself and as many
wraps each way as the ghosts can reach. -/
def imageCount (domain : Box d) (ghosts : Extent d) (topology : BoundaryTopology d) (axis : Fin d) : Checked ℕ := do
  throwIf (ghosts axis < 0) (.invalidArgument "pops::HaloSchedule ghost extents must be non-negative")
  if topology.IsPeriodic ⟨axis, .lower⟩ ∧ ghosts axis ≠ 0 then do
    throwIf (domain.length axis ≤ 0)
      (.invalidArgument "pops::HaloSchedule periodic domain must be non-empty")
    let wraps := 1 + (ghosts axis - 1) / domain.length axis
    throwIf (wraps > (sizeMax - 1) / 2)
      (.lengthError "pops::HaloSchedule periodic image count exceeds size_t")
    return 1 + 2 * wraps.toNat
  else return 1

/-- The axis loop of `image_counts`. -/
def imageCountsFrom (domain : Box d) (ghosts : Extent d) (topology : BoundaryTopology d) :
    List (Fin d) → (Fin d → ℕ) → ℕ → Checked ((Fin d → ℕ) × ℕ)
  | [], counts, total => .ok (counts, total)
  | axis :: later, counts, total => do
    let count ← imageCount domain ghosts topology axis
    let total ← checkedProduct total count "pops::HaloSchedule periodic image product exceeds size_t"
    imageCountsFrom domain ghosts topology later (Function.update counts axis count) total

def imageCounts (domain : Box d) (ghosts : Extent d) (topology : BoundaryTopology d) :
    Checked ((Fin d → ℕ) × ℕ) :=
  imageCountsFrom domain ghosts topology (List.finRange d) (fun _ => 0) 1

/-- `checked_multiply`, for factors that are not negative. -/
def checkedMultiply (left right : ℤ) (operation : String) : Checked ℤ := do
  throwIf (left < 0 ∨ right < 0) (.invalidArgument operation)
  throwIf (left ≠ 0 ∧ right > int64Max / left) (.overflowError operation)
  return left * right

/-- One axis of `image_shift`: option zero is the patch itself, odd options are
wraps upwards and even ones wraps downwards. -/
def imageShiftAxis (option : ℕ) (length : ℤ) : Checked ℤ :=
  if option = 0 then .ok 0
  else do
    let wrap := 1 + (option - 1) / 2
    throwIf ((wrap : ℤ) > int64Max) (.overflowError "pops::HaloSchedule periodic wrap exceeds int64_t")
    let magnitude ← checkedMultiply wrap length "pops::HaloSchedule periodic shift overflows int64_t"
    checkedIndex (if option % 2 = 1 then magnitude else -magnitude)
      "pops::HaloSchedule periodic shift exceeds Index range"

def imageShift (ordinal : ℕ) (counts : Fin d → ℕ) (domain : Box d) : Checked (Index d) :=
  axes fun axis =>
    imageShiftAxis ((decode counts (List.finRange d) ordinal fun _ => 0).1 axis) (domain.length axis)

def negate (value : Index d) : Checked (Index d) :=
  axes fun axis => checkedIndex (-value axis) "pops::HaloSchedule periodic shift negation overflows"

end HaloSchedule

structure HaloSchedule (d : ℕ) where
  layout : BoxArray d
  distribution : Distribution d
  localRank : Index d
  domain : Box d
  ghosts : Extent d
  topology : BoundaryTopology d
  ncomp : ℤ
  coverage : HaloLayoutCoverage
  canonicalJobs : List (HaloJob d)
  classes : Classification (Index d) (HaloJob d)

namespace HaloSchedule

def checkedElements (ncomp : ℤ) (region : Box d) : Checked ℕ := do
  let cells ← region.numPts
  throwIf (cells ≤ 0 ∨ cells.toNat > sizeMax / ncomp.toNat)
    (.overflowError "pops::HaloSchedule payload size exceeds size_t")
  return cells.toNat * ncomp.toNat

/-- The parameters of the job loops. -/
structure JobLoop (d : ℕ) where
  boxes : List (Box d)
  domain : Box d
  ghosts : Extent d
  ncomp : ℤ
  limit : ℕ
  counts : Fin d → ℕ
  images : ℕ

namespace JobLoop

/-- The patch at an index, empty past the end. -/
def box (loop : JobLoop d) (patch : ℕ) : Box d := loop.boxes.getD patch Box.default

/-- The innermost loop: one job per region. -/
def addRegion (loop : JobLoop d) (destination source : ℕ) (sourceFromDestination : Index d)
    (jobs : List (HaloJob d)) (region : Box d) : Checked (List (HaloJob d)) := do
  throwIf (jobs.length ≥ loop.limit) (.lengthError "pops::HaloSchedule job budget exceeded")
  let sourceRegion ← region.shift sourceFromDestination
  throwIf (¬ (loop.box source).ContainsBox sourceRegion)
    (.logicError "pops::HaloSchedule generated an invalid source region")
  let elements ← checkedElements loop.ncomp region
  return jobs ++ [⟨source, destination, region, sourceFromDestination, 0, elements⟩]

/-- The loop over source patches. -/
def addSource (loop : JobLoop d) (destination : ℕ) (grown : Box d)
    (sourceFromDestination imageFromSource : Index d) (jobs : List (HaloJob d)) (source : ℕ) :
    Checked (List (HaloJob d)) := do
  let shifted ← (loop.box source).shift imageFromSource
  let candidate := grown.intersect shifted
  let regions := if candidate.Empty then [] else candidate.subtract (loop.box destination)
  regions.foldlM (loop.addRegion destination source sourceFromDestination) jobs

/-- The loop over periodic images. -/
def addImage (loop : JobLoop d) (destination : ℕ) (grown : Box d) (jobs : List (HaloJob d)) (image : ℕ) :
    Checked (List (HaloJob d)) := do
  let sourceFromDestination ← imageShift image loop.counts loop.domain
  let imageFromSource ← negate sourceFromDestination
  (List.range loop.boxes.length).foldlM
    (loop.addSource destination grown sourceFromDestination imageFromSource) jobs

/-- The loop over destination patches. -/
def addDestination (loop : JobLoop d) (jobs : List (HaloJob d)) (destination : ℕ) :
    Checked (List (HaloJob d)) := do
  let grown ← grow (loop.box destination) loop.ghosts
  (List.range loop.images).foldlM (loop.addImage destination grown) jobs

/-- All jobs, in construction order. -/
def jobs (loop : JobLoop d) : Checked (List (HaloJob d)) :=
  (List.range loop.boxes.length).foldlM loop.addDestination []

end JobLoop

/-- The limits `classify_` applies. -/
def limits (budget : HaloScheduleBudget) : TransferLimits where
  peerPlans := budget.peerPlans
  localElements := budget.localElements
  sendElements := budget.sendElements
  receiveElements := budget.receiveElements

/-- The texts of the exceptions of `classify_`. -/
def messages : TransferMessages where
  peerPlans := "pops::HaloSchedule peer plan budget exceeded"
  localElements := "pops::HaloSchedule local element budget exceeded"
  peerSend := "pops::HaloSchedule peer send elements exceed budget"
  sendElements := "pops::HaloSchedule send element budget exceeded"
  peerReceive := "pops::HaloSchedule peer receive elements exceed budget"
  receiveElements := "pops::HaloSchedule receive element budget exceeded"

/-- The case distinction of `classify_`. -/
def route (distribution : Distribution d) (localRank : Index d) (job : HaloJob d) : Checked (Route (Index d)) := do
  let sourceLocal := distribution.IsLocal job.sourceBox localRank
  let destinationLocal := distribution.IsLocal job.destinationBox localRank
  if sourceLocal ∧ destinationLocal then return .copy
  else do
    throwIf (distribution.mode = .replicated)
      (.logicError "pops::HaloSchedule replicated ownership classification is invalid")
    if sourceLocal then do
      let peer ← distribution.owner job.destinationBox
      return .send peer
    else if destinationLocal then do
      let peer ← distribution.owner job.sourceBox
      return .receive peer
    else return .aside

def requirePeerBudget (limit : ℕ) (classes : Classification (Index d) (HaloJob d))
    (plans : List (PeerPlan (Index d) (HaloJob d))) (peer : Index d) : Checked Unit :=
  if plans.any (·.peer = peer) then .ok ()
  else throwIf (classes.send.length > limit ∨ classes.receive.length ≥ limit - classes.send.length)
    (.lengthError "pops::HaloSchedule peer plan budget exceeded")

/-- A job for another rank must have room for the plan of this rank. -/
def checkPeer (limit : ℕ) (classes : Classification (Index d) (HaloJob d)) : Route (Index d) → Checked Unit
  | .send peer => requirePeerBudget limit classes classes.send peer
  | .receive peer => requirePeerBudget limit classes classes.receive peer
  | _ => .ok ()

/-- `classify_`. -/
def classifyJob (distribution : Distribution d) (localRank : Index d) (budget : HaloScheduleBudget)
    (classes : Classification (Index d) (HaloJob d)) (job : HaloJob d) :
    Checked (Classification (Index d) (HaloJob d)) := do
  let way ← route distribution localRank job
  checkPeer budget.peerPlans classes way
  PeerPlans.classify (limits budget) messages classes way job

/-- The coverage check of the constructor. -/
def checkCoverage (layout : BoxArray d) (domain : Box d) (coverage : HaloLayoutCoverage)
    (budget : BoxArrayValidationBudget) : Checked Unit :=
  match coverage with
  | .fullDomain => do
    let tiles ← layout.tilesExactly domain budget
    throwIf (tiles = false) (.invalidArgument "pops::HaloSchedule full-domain layout must tile exactly")
  | .sparseLevel => do
    let disjoint ← layout.isDisjointWithin domain budget
    throwIf (disjoint = false)
      (.invalidArgument "pops::HaloSchedule sparse layout must be disjoint and inside its domain")

/-- The constructor. -/
def create (layout : BoxArray d) (distribution : Distribution d) (localRank : Index d) (domain : Box d)
    (ghosts : Extent d) (topology : BoundaryTopology d) (ncomp : ℤ) (coverage : HaloLayoutCoverage)
    (budget : HaloScheduleBudget) : Checked (HaloSchedule d) := do
  throwIf (distribution.layout ≠ layout)
    (.invalidArgument "pops::HaloSchedule distribution does not match its layout")
  throwIf (¬ distribution.rankSpace.Contains localRank)
    (.outOfRange "pops::HaloSchedule local rank is outside the rank space")
  checkCoverage layout domain coverage budget.layout
  throwIf (ncomp < 1) (.invalidArgument "pops::HaloSchedule component count must be positive")
  let (counts, images) ← imageCounts domain ghosts topology
  throwIf (images > budget.periodicImages) (.lengthError "pops::HaloSchedule periodic image budget exceeded")
  let pairs ← checkedProduct layout.boxes.length layout.boxes.length
    "pops::HaloSchedule patch pair count exceeds size_t"
  let work ← checkedProduct pairs images "pops::HaloSchedule box-image work exceeds size_t"
  throwIf (work > budget.boxImagePairs) (.lengthError "pops::HaloSchedule box-image pair budget exceeded")
  let jobs ← JobLoop.jobs ⟨layout.boxes, domain, ghosts, ncomp, budget.jobs, counts, images⟩
  let classes ← jobs.foldlM (classifyJob distribution localRank budget) {}
  return ⟨layout, distribution, localRank, domain, ghosts, topology, ncomp, coverage, jobs,
    { classes with
      send := sortPlans distribution.rankSpace.order classes.send
      receive := sortPlans distribution.rankSpace.order classes.receive }⟩

end HaloSchedule

end Pops
