import Pops.MetricReflux

/-!
`numerics/time/amr/reflux/amr_interface_flux_ledger.hpp`: the fragments of the
interface-flux ledger, their order, and the check of one fragment.
-/
namespace Pops

variable {T Payload : Type}

inductive InterfaceFluxOrientation where
  | coarseOutward
  | fineOutward
  deriving DecidableEq

/-- The underlying value the enumeration compares by. -/
def InterfaceFluxOrientation.value : InterfaceFluxOrientation → ℕ
  | coarseOutward => 0
  | fineOutward => 1

structure InterfaceFluxFragmentKey (T : Type) where
  interfaceIdentity : Bytes
  topologyEpoch : ℕ
  coarseLevel : ℤ
  fineLevel : ℤ
  clock : ClockStamp T
  stageIdentity : Bytes
  graphIdentity : Bytes
  rateIdentity : Bytes
  applicationIdentity : Bytes
  interval : ClockWindow T
  orientation : InterfaceFluxOrientation
  leftBlock : ℕ
  rightBlock : ℕ

structure InterfaceFluxFragmentMeasure (T : Type) where
  stageWeight : Rational
  faceMeasure : T
  substepDuration : T
  stageWeightResolved : Bool

structure InterfaceFluxFragment (T Payload : Type) where
  key : InterfaceFluxFragmentKey T
  measure : InterfaceFluxFragmentMeasure T
  payload : Payload

structure InterfaceFluxLedgerBudget where
  maxFragmentsPerWindow : ℕ
  maxPayloadTermsPerWindow : ℕ
  maxTransactionDepth : ℕ
  exactContract : Bytes

namespace InterfaceFlux

/-- The comparisons of two `interface_flux_clock_coordinate`. -/
def clockCompared (left right : ClockStamp T) : List (Bool × Bool) :=
  [compared left.level right.level, compared left.macroStep right.macroStep,
    compared left.phase.numerator right.phase.numerator, compared left.phase.denominator right.phase.denominator]

/-- `operator<` of the keys. -/
def keyLess (left right : InterfaceFluxFragmentKey T) : Bool :=
  tupleLess ([compared left.interfaceIdentity right.interfaceIdentity,
      compared left.topologyEpoch right.topologyEpoch, compared left.coarseLevel right.coarseLevel,
      compared left.fineLevel right.fineLevel] ++
    clockCompared left.clock right.clock ++
    [compared left.stageIdentity right.stageIdentity, compared left.graphIdentity right.graphIdentity,
      compared left.rateIdentity right.rateIdentity,
      compared left.applicationIdentity right.applicationIdentity] ++
    clockCompared left.interval.opening right.interval.opening ++
    clockCompared left.interval.closing right.interval.closing ++
    [compared left.orientation.value right.orientation.value, compared left.leftBlock right.leftBlock,
      compared left.rightBlock right.rightBlock])

section
variable [MetricDouble T]

/-- How far the recorded duration may be off the timestamps. -/
def timestampTolerance (key : InterfaceFluxFragmentKey T) (measure : InterfaceFluxFragmentMeasure T) : T :=
  let timestampScale := MetricDouble.max (MetricDouble.max (MetricDouble.max (Double.ofInt64 1)
      (MetricDouble.abs key.interval.opening.physicalTime)) (MetricDouble.abs key.interval.closing.physicalTime))
    (MetricDouble.abs measure.substepDuration)
  Double.mul (Double.mul (Double.ofInt64 8) MetricDouble.epsilon) timestampScale

/-- `validate_interface_flux_fragment`. Every orientation is one of the two. -/
def validateFragment (key : InterfaceFluxFragmentKey T) (measure : InterfaceFluxFragmentMeasure T)
    (topologyEpoch : ℕ) : Checked Unit := do
  throwIf (key.topologyEpoch ≠ topologyEpoch)
    (.invalidArgument "AMR interface-flux fragment uses a stale topology epoch")
  throwIf (key.interfaceIdentity = [] ∨ key.stageIdentity = [] ∨ key.graphIdentity = [] ∨
      key.rateIdentity = [] ∨ key.applicationIdentity = [] ∨ key.coarseLevel < 0 ∨
      key.fineLevel ≠ key.coarseLevel + 1 ∨ key.leftBlock = key.rightBlock)
    (.invalidArgument "AMR interface-flux fragment is not fully qualified")
  throwIf (key.clock.level ≠ key.coarseLevel ∧ key.clock.level ≠ key.fineLevel)
    (.invalidArgument "AMR interface-flux clock is outside its coarse/fine level pair")
  let opening := key.interval.opening
  let closing := key.interval.closing
  throwIf (opening.level ≠ key.clock.level ∨ closing.level ≠ key.clock.level ∨
      opening.macroStep ≠ key.clock.macroStep ∨ closing.macroStep ≠ key.clock.macroStep ∨
      opening.phase.less closing.phase = false ∨ key.clock.phase.less opening.phase = true ∨
      closing.phase.less key.clock.phase = true)
    (.invalidArgument "AMR interface-flux clock is outside its exact temporal interval")
  let reconstructedDuration := Double.sub closing.physicalTime opening.physicalTime
  throwIf (Double.isFinite key.clock.physicalTime = false ∨ Double.isFinite opening.physicalTime = false ∨
      Double.isFinite closing.physicalTime = false ∨
      Double.less opening.physicalTime closing.physicalTime = false ∨
      Double.less key.clock.physicalTime opening.physicalTime = true ∨
      Double.less closing.physicalTime key.clock.physicalTime = true ∨
      Double.less (Double.ofInt64 0) measure.faceMeasure = false ∨ Double.isFinite measure.faceMeasure = false ∨
      Double.less (Double.ofInt64 0) measure.substepDuration = false ∨
      Double.isFinite measure.substepDuration = false ∨
      Double.less (timestampTolerance key measure)
        (MetricDouble.abs (Double.sub reconstructedDuration measure.substepDuration)) = true)
    (.invalidArgument "AMR interface-flux fragment requires consistent finite positive geometry/time")

end

end InterfaceFlux

end Pops
