import Pops.HaloSchedule
import Pops.PeerGroups

/-!
`mesh/layout/copy_schedule.hpp`: the copies that move a field from the patches
of one layout to the patches of another one that covers the same cells.
-/
namespace Pops
open PeerPlans

variable {d : ℕ}

structure CopyScheduleBudget where
  boxPairs : ℕ := 0
  jobs : ℕ := 0
  destinationOverlapPairs : ℕ := 0
  sourceOverlapPairs : ℕ := 0

structure CopyJob (d : ℕ) where
  sourceBox : ℕ
  destinationBox : ℕ
  region : Box d
  deriving DecidableEq

/-- `CopySchedule`; a `CopyPeerPlan` is a peer group. -/
structure CopySchedule (d : ℕ) where
  destinationLayout : BoxArray d
  destinationDistribution : Distribution d
  sourceLayout : BoxArray d
  sourceDistribution : Distribution d
  localRank : Index d
  classes : FiledJobs (Index d) (CopyJob d)
  deriving DecidableEq

namespace CopySchedule

def checkedPairCount (left right : ℕ) : Checked ℕ :=
  HaloSchedule.checkedProduct left right "pops::CopySchedule patch pair count exceeds size_t"

/-- The loops of `validate_disjoint`, with the patches before the current one. -/
def requireDisjointFrom (name : String) : List (Box d) → List (Box d) → Checked Unit
  | _, [] => .ok ()
  | earlier, box :: later => do
    throwIf box.Empty (.invalidArgument ("pops::CopySchedule " ++ name ++ " layout contains an empty patch"))
    throwIf (∃ other ∈ earlier, ¬ (box.intersect other).Empty)
      (.invalidArgument ("pops::CopySchedule " ++ name ++ " layout contains overlapping patches"))
    requireDisjointFrom name (earlier ++ [box]) later

/-- The number of ordered pairs `validate_disjoint` halves. -/
def overlapPairs (size : ℕ) : Checked ℕ := if size < 2 then .ok 0 else checkedPairCount size (size - 1)

def validateDisjoint (layout : BoxArray d) (pairBudget : ℕ) (name : String) : Checked Unit := do
  let pairs ← overlapPairs layout.boxes.length
  throwIf (pairs / 2 > pairBudget)
    (.lengthError ("pops::CopySchedule " ++ name ++ " overlap-pair budget exceeded"))
  requireDisjointFrom name [] layout.boxes

section Construction
variable (destinationLayout : BoxArray d) (destinationDistribution : Distribution d) (sourceLayout : BoxArray d)
  (sourceDistribution : Distribution d) (localRank : Index d) (budget : CopyScheduleBudget)

def validateMetadata : Checked Unit := do
  throwIf (destinationDistribution.layout ≠ destinationLayout ∨ sourceDistribution.layout ≠ sourceLayout)
    (.invalidArgument "pops::CopySchedule distribution/layout identity mismatch")
  throwIf (destinationDistribution.rankSpace ≠ sourceDistribution.rankSpace)
    (.invalidArgument "pops::CopySchedule fields use different rank spaces")
  throwIf (¬ destinationDistribution.rankSpace.Contains localRank)
    (.outOfRange "pops::CopySchedule local rank is outside the rank space")
  throwIf (¬ (destinationDistribution.mode = .replicated ↔ sourceDistribution.mode = .replicated))
    (.invalidArgument "pops::CopySchedule cannot infer ownership for mixed replicated/partitioned fields")
  validateDisjoint destinationLayout budget.destinationOverlapPairs "destination"
  validateDisjoint sourceLayout budget.sourceOverlapPairs "source"

/-- What the pair loops keep. -/
structure Progress (d : ℕ) where
  covered : ExactCellCount := .zero
  jobs : List (CopyJob d) := []

/-- The inner loop: one job for each source patch that meets the destination patch. -/
def addPair (destination : ℕ) (progress : Progress d) (source : ℕ) : Checked (Progress d) :=
  let region := (destinationLayout.boxes.getD destination .default).intersect
    (sourceLayout.boxes.getD source .default)
  if region.Empty then .ok progress
  else do
    throwIf (progress.jobs.length ≥ budget.jobs) (.lengthError "pops::CopySchedule job budget exceeded")
    let covered ← BoxArray.addCount (.overflowError "pops::CopySchedule covered-cell count overflow")
      progress.covered region
    return ⟨covered, progress.jobs ++ [⟨source, destination, region⟩]⟩

/-- The outer loop, over destination patches. -/
def addDestination (progress : Progress d) (destination : ℕ) : Checked (Progress d) :=
  (List.range sourceLayout.boxes.length).foldlM (addPair destinationLayout sourceLayout budget destination) progress

/-- All jobs, in construction order, with the cells they cover. -/
def collectJobs : Checked (Progress d) :=
  (List.range destinationLayout.boxes.length).foldlM (addDestination destinationLayout sourceLayout budget) {}

/-- The case distinction of `classify_`. -/
def route (job : CopyJob d) : Checked (Route (Index d)) := do
  let sourceLocal := sourceDistribution.IsLocal job.sourceBox localRank
  let destinationLocal := destinationDistribution.IsLocal job.destinationBox localRank
  if sourceLocal ∧ destinationLocal then return .copy
  else do
    throwIf (sourceDistribution.mode = .replicated)
      (.logicError "pops::CopySchedule replicated ownership classification is invalid")
    if sourceLocal then do
      let peer ← destinationDistribution.owner job.destinationBox
      return .send peer
    else if destinationLocal then do
      let peer ← sourceDistribution.owner job.sourceBox
      return .receive peer
    else return .aside

/-- `classify_`. -/
def classifyJob (classes : FiledJobs (Index d) (CopyJob d)) (job : CopyJob d) :
    Checked (FiledJobs (Index d) (CopyJob d)) := do
  let way ← route destinationDistribution sourceDistribution localRank job
  return classes.file job way

/-- The constructor. -/
def create : Checked (CopySchedule d) := do
  validateMetadata destinationLayout destinationDistribution sourceLayout sourceDistribution localRank budget
  let pairs ← checkedPairCount destinationLayout.boxes.length sourceLayout.boxes.length
  throwIf (pairs > budget.boxPairs) (.lengthError "pops::CopySchedule patch-pair budget exceeded")
  let progress ← collectJobs destinationLayout sourceLayout budget
  let mismatch := Exception.invalidArgument
    "pops::CopySchedule source and destination layouts must cover the same cells exactly"
  let destinationCount ← destinationLayout.exactCellCount
  throwIf (progress.covered ≠ destinationCount) mismatch
  let sourceCount ← sourceLayout.exactCellCount
  throwIf (progress.covered ≠ sourceCount) mismatch
  let classes ← progress.jobs.foldlM (classifyJob destinationDistribution sourceDistribution localRank) {}
  return ⟨destinationLayout, destinationDistribution, sourceLayout, sourceDistribution, localRank, classes⟩

end Construction

/-- The jobs that write into patches of the local rank. -/
def incoming (schedule : CopySchedule d) : List (CopyJob d) :=
  schedule.classes.localJobs ++ schedule.classes.receive.flatMap (·.jobs)

/-- The list of jobs sent to a peer. -/
def sentTo (schedule : CopySchedule d) (peer : Index d) : List (CopyJob d) := jobsWith peer schedule.classes.send

/-- The list of jobs received from a peer. -/
def receivedFrom (schedule : CopySchedule d) (peer : Index d) : List (CopyJob d) :=
  jobsWith peer schedule.classes.receive

end CopySchedule

end Pops
