import Pops.FaceFluxLedger
import Pops.MixedRadix
import Pops.OrderedMap
import Pops.RefinementRatio

/-!
`amr/reflux/metric_reflux.hpp`: the reconciliation of one coarse face with the
fine faces that cover it, over an exact window of the macro step. Fragments are
selected by their identity and the phase of their stage clock; their substeps
must partition the window, on the coarse and on the fine side.
-/
namespace Pops

variable {d : ℕ} {T Payload : Type}

/-- What the reconciliation does with `double` beyond the clocks. -/
class MetricDouble (T : Type) extends Double T where
  equal : T → T → Bool
  lessEqual : T → T → Bool
  abs : T → T
  max : T → T → T
  epsilon : T

structure FaceRefinementMapping (d : ℕ) where
  coarseOrigin : Fin d → ℤ
  fineOrigin : Fin d → ℤ

structure CoarseFaceRefluxKey (d : ℕ) where
  owner : Bytes
  state : Bytes
  levels : LevelTransition
  centering : FaceLedgerCentering
  axis : ℤ
  coarseFace : Fin d → ℤ
  attempt : ℕ
  macroStep : ℤ
  windowBegin : Rational
  windowEnd : Rational

structure MetricRefluxBudget where
  maxFineFaces : ℕ := 0
  maxPublishedEntries : ℕ := 0
  maxClockStageSlices : ℕ := 0

structure MetricFaceReflux (T Payload : Type) where
  coarseIntegrated : Payload
  fineIntegrated : Payload
  mismatch : Payload
  coarseWeightedMeasure : T
  fineWeightedMeasure : T
  fineFaceCount : ℕ
  deriving DecidableEq

namespace MetricReflux

/-- `validate_reflux_key`. The windows of a `Rational` are canonical already. -/
def validateRefluxKey (key : CoarseFaceRefluxKey d) : Checked Unit := do
  throwIf (key.owner.isEmpty ∨ key.state.isEmpty)
    (.invalidArgument "ND metric reflux requires qualified owner and state identities")
  throwIf (key.levels.coarse < 0 ∨ key.levels.coarse = intMax ∨ key.levels.fine ≠ key.levels.coarse + 1)
    (.invalidArgument "ND metric reflux requires one adjacent level transition")
  let _axis : Fin d ← checkedAxis key.axis
  throwIf (key.centering ≠ .face)
    (.invalidArgument "ND metric reflux accepts only face-centered flux identities")
  throwIf (key.macroStep < 0 ∨ key.windowBegin.less key.windowEnd = false)
    (.invalidArgument "ND metric reflux requires one canonical exact clock window")

def validateRefluxBudget (budget : MetricRefluxBudget) : Checked Unit :=
  throwIf (budget.maxFineFaces = 0 ∨ budget.maxPublishedEntries = 0 ∨ budget.maxClockStageSlices = 0)
    (.invalidArgument "ND metric reflux budgets must be strictly positive")

/-- The face a fragment must contribute to. -/
def SameFace (fragment : FaceFluxFragmentKey d T) (query : CoarseFaceRefluxKey d) : Prop :=
  fragment.owner = query.owner ∧ fragment.state = query.state ∧ fragment.levels = query.levels ∧
    fragment.centering = query.centering ∧ fragment.axis = query.axis ∧
    fragment.coarseFace = query.coarseFace ∧ fragment.attempt = query.attempt ∧
    fragment.clock.macroStep = query.macroStep

instance (fragment : FaceFluxFragmentKey d T) (query : CoarseFaceRefluxKey d) : Decidable (SameFace fragment query) :=
  inferInstanceAs (Decidable (_ ∧ _))

def matchesRefluxKey (fragment : FaceFluxFragmentKey d T) (query : CoarseFaceRefluxKey d) : Bool :=
  SameFace fragment query && !fragment.clock.phase.less query.windowBegin &&
    !query.windowEnd.less fragment.clock.phase

def checkedFineFaceCoordinate (value : ℤ) : Checked ℤ := do
  throwIf (value < intMin ∨ value > intMax)
    (.overflowError "ND metric reflux face mapping exceeds the signed index range")
  return value

def checkedFineFaceAdd (left right : ℤ) : Checked ℤ := do
  throwIf (right > 0 ∧ left > int64Max - right ∨ right < 0 ∧ left < int64Min - right)
    (.overflowError "ND metric reflux face mapping exceeds int64_t")
  return left + right

/-- The tangential directions, in the order the loop counts them. -/
def tangential (axis : ℤ) : List (Fin d) := (List.finRange d).filter fun direction => (direction : ℤ) ≠ axis

/-- One factor of the tangential face product. -/
def faceCountStep (ratio : RefinementRatio d) (count : ℕ) (direction : Fin d) : Checked ℕ := do
  throwIf ((ratio direction).toNat > (2 ^ 64 - 1) / count)
    (.lengthError "ND metric reflux tangential face product exceeds size_t")
  return count * (ratio direction).toNat

/-- The fine coordinate of a coarse one, before the tangential offset. -/
def baseCoordinate (key : CoarseFaceRefluxKey d) (ratio : RefinementRatio d) (mapping : FaceRefinementMapping d)
    (direction : Fin d) : Checked ℤ := do
  let relative := key.coarseFace direction - mapping.coarseOrigin direction
  throwIf (relative > int64Max / ratio direction ∨ relative < int64Min.tdiv (ratio direction))
    (.overflowError "ND metric reflux face mapping exceeds int64_t")
  let fine ← checkedFineFaceAdd (mapping.fineOrigin direction) (relative * ratio direction)
  checkedFineFaceCoordinate fine

/-- The fine face at a tangential offset. -/
def fineFace (key : CoarseFaceRefluxKey d) (base : Fin d → ℤ) (child : Fin d → ℕ) : Checked (Fin d → ℤ) :=
  axes fun direction =>
    if (direction : ℤ) = key.axis then .ok (base direction)
    else checkedFineFaceCoordinate (base direction + child direction)

def expectedFineFaceSet (key : CoarseFaceRefluxKey d) (ratio : RefinementRatio d)
    (mapping : FaceRefinementMapping d) (budget : MetricRefluxBudget) : Checked (Finset (Fin d → ℤ)) := do
  validateRefluxBudget budget
  throwIf (¬ ratio.RefinesAnyAxis)
    (.invalidArgument "ND metric reflux requires a non-identity inter-level refinement ratio")
  let fineFaceCount ← (tangential key.axis).foldlM (faceCountStep ratio) 1
  throwIf (fineFaceCount > budget.maxFineFaces)
    (.lengthError "ND metric reflux tangential face product exceeds its prepared budget")
  let base ← axes (baseCoordinate key ratio mapping)
  let radix := fun direction => (ratio direction).toNat
  let faces ← (List.range (MixedRadix.volume radix (tangential key.axis))).mapM fun ordinal =>
    fineFace key base (MixedRadix.decode radix (tangential key.axis) ordinal fun _ => 0).1
  return faces.toFinset

structure StageSlice where
  coordinate : ℤ × ℤ × ℤ × ℤ
  stage : Bytes
  deriving DecidableEq

def stageSlice (clock : ClockStamp T) (stage : Bytes) : StageSlice := ⟨clock.coordinate, stage⟩

/-- `operator<` of the tuples. -/
def StageSlice.less (left right : StageSlice) : Bool :=
  tupleLess [compared left.coordinate.1 right.coordinate.1, compared left.coordinate.2.1 right.coordinate.2.1,
    compared left.coordinate.2.2.1 right.coordinate.2.2.1, compared left.coordinate.2.2.2 right.coordinate.2.2.2,
    compared left.stage right.stage]

structure TemporalSliceMeasure (T : Type) where
  stageWeight : Rational
  substepBegin : Rational
  substepEnd : Rational
  substepDuration : T

section
variable [MetricDouble T]

def registerTemporalSlice (slices : List (StageSlice × TemporalSliceMeasure T)) (slice : StageSlice)
    (measure : FaceFluxFragmentMeasure T) (totalSliceCount : ℕ) (budget : MetricRefluxBudget) :
    Checked (List (StageSlice × TemporalSliceMeasure T)) :=
  match OrderedMap.find StageSlice.less slice slices with
  | some existing => do
    throwIf (existing.stageWeight ≠ measure.stageWeight ∨ existing.substepBegin ≠ measure.substepBegin ∨
        existing.substepEnd ≠ measure.substepEnd ∨
        MetricDouble.equal existing.substepDuration measure.substepDuration = false)
      (.runtimeError "ND metric reflux clock-stage faces disagree on their temporal measure")
    return slices
  | none => do
    throwIf (totalSliceCount ≥ budget.maxClockStageSlices)
      (.lengthError "ND metric reflux clock-stage slices exceed their prepared budget")
    return OrderedMap.update StageSlice.less slice
      (fun _ => ⟨measure.stageWeight, measure.substepBegin, measure.substepEnd, measure.substepDuration⟩) slices

structure ExactSubstep where
  opening : Rational
  closing : Rational
  deriving DecidableEq

/-- `operator<`. -/
def ExactSubstep.less (left right : ExactSubstep) : Bool :=
  if left.opening = right.opening then left.closing.less right.closing else left.opening.less right.opening

structure SubstepQuadrature (T : Type) where
  stageWeightSum : Rational
  duration : T

def roundoffEqual (left right : T) (operations : ℕ) : Bool :=
  if MetricDouble.equal left right then true
  else if ¬ (Double.isFinite left = true ∧ Double.isFinite right = true) then false
  else
    let scale := MetricDouble.max (MetricDouble.abs left) (MetricDouble.abs right)
    let tolerance := Double.mul (Double.mul (Double.mul (Double.ofInt64 128) MetricDouble.epsilon) scale)
      (Double.ofInt64 (max operations 1 : ℕ))
    MetricDouble.lessEqual (MetricDouble.abs (Double.sub left right)) tolerance

structure AuthenticatedWindow (T : Type) where
  duration : T
  durationPerPhase : T
  substepCount : ℕ := 0

/-- One slice of the first loop of `authenticated_window`. -/
def gatherSlice (substeps : List (ExactSubstep × SubstepQuadrature T))
    (slice : StageSlice × TemporalSliceMeasure T) : Checked (List (ExactSubstep × SubstepQuadrature T)) := do
  let interval : ExactSubstep := ⟨slice.2.substepBegin, slice.2.substepEnd⟩
  let existing := OrderedMap.find ExactSubstep.less interval substeps
  throwIf (∃ known ∈ existing, MetricDouble.equal known.duration slice.2.substepDuration = false)
    (.runtimeError "ND metric reflux stages disagree on their physical substep duration")
  let quadrature := existing.getD ⟨.zero, slice.2.substepDuration⟩
  let total ← quadrature.stageWeightSum.add slice.2.stageWeight
  return OrderedMap.update ExactSubstep.less interval (fun _ => ⟨total, quadrature.duration⟩) substeps

/-- One substep of the second loop of `authenticated_window`. -/
def coverSubstep (window : Rational × AuthenticatedWindow T)
    (substep : ExactSubstep × SubstepQuadrature T) : Checked (Rational × AuthenticatedWindow T) := do
  let result := window.2
  throwIf (substep.1.opening ≠ window.1 ∨ substep.1.opening.less substep.1.closing = false)
    (.runtimeError "ND metric reflux substeps do not form a contiguous exact clock partition")
  throwIf (substep.2.stageWeightSum ≠ .one)
    (.runtimeError "ND metric reflux stage weights do not close one accepted substep")
  let phases ← substep.1.closing.sub substep.1.opening
  let phaseSpan : T := phases.toDouble
  throwIf (Double.less (Double.ofInt64 0) phaseSpan = false ∨ Double.isFinite phaseSpan = false)
    (.overflowError "ND metric reflux physical clock rate is not finite")
  let durationPerPhase := Double.div substep.2.duration phaseSpan
  throwIf (Double.isFinite durationPerPhase = false)
    (.overflowError "ND metric reflux physical clock rate is not finite")
  throwIf (result.substepCount ≠ 0 ∧
      roundoffEqual result.durationPerPhase durationPerPhase (result.substepCount + 1) = false)
    (.runtimeError "ND metric reflux substeps disagree on their physical clock rate")
  let duration := Double.add result.duration substep.2.duration
  throwIf (Double.isFinite duration = false)
    (.overflowError "ND metric reflux physical window duration is not finite")
  return (substep.1.closing,
    { duration
      durationPerPhase := if result.substepCount = 0 then durationPerPhase else result.durationPerPhase
      substepCount := result.substepCount + 1 })

def authenticatedWindow (slices : List (StageSlice × TemporalSliceMeasure T)) (windowBegin windowEnd : Rational) :
    Checked (AuthenticatedWindow T) := do
  let substeps ← slices.foldlM gatherSlice []
  let covered ← substeps.foldlM coverSubstep
    (windowBegin, ({ duration := Double.ofInt64 0, durationPerPhase := Double.ofInt64 0 } : AuthenticatedWindow T))
  throwIf (covered.1 ≠ windowEnd)
    (.runtimeError "ND metric reflux substeps do not cover the complete exact clock window")
  return covered.2

def validateTemporalCoverage (key : CoarseFaceRefluxKey d)
    (coarseSlices fineSlices : List (StageSlice × TemporalSliceMeasure T)) : Checked Unit := do
  let coarse ← authenticatedWindow coarseSlices key.windowBegin key.windowEnd
  let fine ← authenticatedWindow fineSlices key.windowBegin key.windowEnd
  let operations := coarseSlices.length + fineSlices.length
  throwIf (roundoffEqual coarse.duration fine.duration operations = false ∨
      roundoffEqual coarse.durationPerPhase fine.durationPerPhase operations = false)
    (.runtimeError "ND metric reflux coarse and fine physical clocks do not cover the same window")

def requireCompleteSlices (slices : List (StageSlice × Finset (Fin d → ℤ))) (expected : Finset (Fin d → ℤ))
    (role : String) : Checked Unit := do
  throwIf (slices = []) (.runtimeError ("ND metric reflux has no published " ++ role ++ " face fragments"))
  slices.forM fun slice => throwIf (slice.2 ≠ expected)
    (.runtimeError ("ND metric reflux has an incomplete " ++ role ++
      " tangential face product in one clock-stage slice"))

/-- What the loop over the published entries collects of one role. -/
structure Collected (d : ℕ) (T Payload : Type) where
  slices : List (StageSlice × Finset (Fin d → ℤ)) := []
  temporal : List (StageSlice × TemporalSliceMeasure T) := []
  integrated : Payload
  weightedMeasure : T

variable (axpy : Payload → T → Payload → Payload)

/-- The two cases of the loop over the published entries: the fragments of one
role, next to `others` slices of the other role. -/
def collect (budget : MetricRefluxBudget) (role : String) (others : ℕ) (collected : Collected d T Payload)
    (entry : FaceFluxFragment d T Payload) : Checked (Collected d T Payload) := do
  let scale := weightedFaceFluxScale entry.measure
  let slice := stageSlice entry.key.clock entry.key.stage
  let temporal ← registerTemporalSlice collected.temporal slice entry.measure
    (collected.temporal.length + others) budget
  let weightedMeasure := Double.add collected.weightedMeasure scale
  throwIf (Double.isFinite weightedMeasure = false)
    (.overflowError ("ND metric reflux " ++ role ++ " weighted measure is not finite"))
  return {
    slices := OrderedMap.update StageSlice.less slice
      (fun faces => insert entry.key.face (faces.getD ∅)) collected.slices
    temporal
    integrated := axpy collected.integrated scale entry.payload
    weightedMeasure }

/-- One published entry. -/
def reconcileEntry (key : CoarseFaceRefluxKey d) (budget : MetricRefluxBudget)
    (state : Collected d T Payload × Collected d T Payload) (entry : FaceFluxFragment d T Payload) :
    Checked (Collected d T Payload × Collected d T Payload) :=
  if matchesRefluxKey entry.key key then
    match entry.key.role with
    | .coarse => do
      let coarse ← collect axpy budget "coarse" state.2.temporal.length state.1 entry
      return (coarse, state.2)
    | .fine => do
      let fine ← collect axpy budget "fine" state.1.temporal.length state.2 entry
      return (state.1, fine)
  else .ok state

/-- What follows the loop, when it has seen `publishedSize` entries. -/
def reconcile (key : CoarseFaceRefluxKey d) (expectedFine : Finset (Fin d → ℤ)) (initial : Payload)
    (publishedSize : ℕ) (coarse fine : Collected d T Payload) : Checked (MetricFaceReflux T Payload) := do
  requireCompleteSlices coarse.slices {key.coarseFace} "coarse"
  requireCompleteSlices fine.slices expectedFine "fine"
  validateTemporalCoverage key coarse.temporal fine.temporal
  throwIf (roundoffEqual coarse.weightedMeasure fine.weightedMeasure publishedSize = false)
    (.runtimeError "ND metric reflux coarse and fine metric-time measures do not cover the same face")
  return {
    coarseIntegrated := coarse.integrated
    fineIntegrated := fine.integrated
    mismatch := axpy (axpy initial (Double.ofInt64 1) fine.integrated) (Double.ofInt64 (-1)) coarse.integrated
    coarseWeightedMeasure := coarse.weightedMeasure
    fineWeightedMeasure := fine.weightedMeasure
    fineFaceCount := expectedFine.card }

/-- `metric_reflux`, with `initial` for `Payload{}`. -/
def metricReflux (initial : Payload) (ledger : FaceFluxLedger d T Payload) (key : CoarseFaceRefluxKey d)
    (ratio : RefinementRatio d) (mapping : FaceRefinementMapping d) (budget : MetricRefluxBudget) :
    Checked (MetricFaceReflux T Payload) := do
  validateRefluxKey key
  validateRefluxBudget budget
  throwIf (FaceFluxLedger.totalSize ledger.published > budget.maxPublishedEntries)
    (.lengthError "ND metric reflux published entries exceed their prepared budget")
  let expectedFine ← expectedFineFaceSet key ratio mapping budget
  let axis : Fin d ← checkedAxis key.axis
  let nothing : Collected d T Payload := { integrated := initial, weightedMeasure := Double.ofInt64 0 }
  let (coarse, fine) ← (ledger.published axis).foldlM (reconcileEntry axpy key budget) (nothing, nothing)
  reconcile axpy key expectedFine initial (FaceFluxLedger.totalSize ledger.published) coarse fine

end

end MetricReflux

end Pops
