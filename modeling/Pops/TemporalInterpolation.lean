import Pops.Clock
import Pops.FaceTransfer

/-!
`amr/transfer/temporal_interpolation_provider.hpp`: linear interpolation between
two retained states, and the preparation that qualifies them. `Real` is `double`
here, of whose rounding nothing is assumed.
-/
namespace Pops.TemporalInterpolation
open FaceTransfer (ValidatedView.Overlaps)

/-- What the qualification needs of `double` besides arithmetic. -/
class TemporalDouble (T : Type) extends Double T where
  absolute : T → T
  epsilon : T

variable {T : Type} {d : ℕ}

structure QualifiedTemporalState (T : Type) where
  stateIdentity : String
  spatialContract : String
  topologyGeneration : ℕ
  materializationGeneration : ℕ
  clock : ClockStamp T

structure TemporalComponentRange where
  olderBegin : ℤ := 0
  newerBegin : ℤ := 0
  destinationBegin : ℤ := 0
  count : ℤ := 1

structure PreparedLinearTemporalInterpolation (d : ℕ) (T : Type) where
  older : FieldView d
  newer : FieldView d
  destination : FieldView d
  destinationRegion : Box d
  ratio : RefinementRatio d
  components : TemporalComponentRange
  alpha : T

variable [TemporalDouble T]
open Double TemporalDouble

/-- `operator()`: what it writes to one component of an index, from the values of the two states. -/
def PreparedLinearTemporalInterpolation.produced (interpolation : PreparedLinearTemporalInterpolation d T)
    (older newer : Index d → ℤ → T) (index : Index d) (component : ℤ) : T :=
  let olderValue := older index (interpolation.components.olderBegin + component)
  let newerValue := newer index (interpolation.components.newerBegin + component)
  add olderValue (mul interpolation.alpha (sub newerValue olderValue))

omit [TemporalDouble T] in
/-- The indices `operator()` reads in either state. -/
def PreparedLinearTemporalInterpolation.reads (_ : PreparedLinearTemporalInterpolation d T) (index : Index d) :
    List (Index d) := [index]

omit [TemporalDouble T] in
def alpha (window : ClockWindow T) (target : ClockStamp T) : Checked Rational := do
  throwIf (window.opening.level ≠ window.closing.level ∨ target.level ≠ window.opening.level ∨
      window.opening.macroStep ≠ window.closing.macroStep ∨ target.macroStep ≠ window.opening.macroStep ∨
      window.opening.phase.less window.closing.phase = false ∨ target.phase.less window.opening.phase = true ∨
      window.closing.phase.less target.phase = true)
    (.runtimeError "target is outside its qualified AMR clock window")
  let part ← target.phase.sub window.opening.phase
  let whole ← window.closing.phase.sub window.opening.phase
  part.div whole

def validateQualifications (older newer target : QualifiedTemporalState T) : Checked Unit := do
  throwIf (older.stateIdentity = "" ∨ older.spatialContract = "" ∨ older.stateIdentity ≠ newer.stateIdentity ∨
      older.stateIdentity ≠ target.stateIdentity ∨ older.spatialContract ≠ newer.spatialContract ∨
      older.spatialContract ≠ target.spatialContract ∨ older.topologyGeneration ≠ newer.topologyGeneration ∨
      older.topologyGeneration ≠ target.topologyGeneration ∨
      older.materializationGeneration ≠ newer.materializationGeneration ∨
      older.materializationGeneration ≠ target.materializationGeneration)
    (.invalidArgument "linear temporal interpolation states do not share one exact spatial authority")
  let olderTime := older.clock.physicalTime
  let newerTime := newer.clock.physicalTime
  let targetTime := target.clock.physicalTime
  throwIf (isFinite olderTime = false ∨ isFinite newerTime = false ∨ isFinite targetTime = false ∨
      less olderTime newerTime = false)
    (.invalidArgument "linear temporal interpolation requires finite increasing physical timestamps")
  let exactAlpha ← alpha ⟨older.clock, newer.clock⟩ target.clock
  let expected := add olderTime (mul exactAlpha.toDouble (sub newerTime olderTime))
  let scale := add (add (add (ofInt64 1) (absolute olderTime)) (absolute newerTime)) (absolute targetTime)
  let tolerance := mul (mul (ofInt64 64) epsilon) scale
  throwIf (less tolerance (absolute (sub expected targetTime)) = true)
    (.invalidArgument "linear temporal interpolation physical time disagrees with its exact clock phase")

def prepare (older newer destination : FieldView d) (destinationRegion : Box d) (transitionRatio : RefinementRatio d)
    (olderState newerState targetState : QualifiedTemporalState T) (components : TemporalComponentRange) :
    Checked (PreparedLinearTemporalInterpolation d T) := do
  validateQualifications olderState newerState targetState
  throwIf (¬transitionRatio.RefinesAnyAxis)
    (.invalidArgument "prepared temporal interpolation requires a non-identity AMR transition ratio")
  let olderView ← older.validate
  let newerView ← newer.validate
  let destinationView ← destination.validate
  throwIf (olderView.box ≠ newerView.box ∨ destinationRegion.Empty ∨ ¬olderView.box.ContainsBox destinationRegion ∨
      ¬destinationView.box.ContainsBox destinationRegion)
    (.invalidArgument "prepared temporal interpolation requires one common non-empty spatial image")
  throwIf (components.olderBegin < 0 ∨ components.newerBegin < 0 ∨ components.destinationBegin < 0 ∨
      components.count < 1 ∨ components.olderBegin > older.ncomp - components.count ∨
      components.newerBegin > newer.ncomp - components.count ∨
      components.destinationBegin > destination.ncomp - components.count)
    (.invalidArgument "prepared temporal interpolation component interval is outside its states")
  throwIf (ValidatedView.Overlaps olderView destinationView ∨ ValidatedView.Overlaps newerView destinationView ∨
      ValidatedView.Overlaps olderView newerView)
    (.invalidArgument "prepared temporal interpolation requires two immutable sources and candidate storage")
  let exactAlpha ← alpha ⟨olderState.clock, newerState.clock⟩ targetState.clock
  return ⟨older, newer, destination, destinationRegion, transitionRatio, components, exactAlpha.toDouble⟩

end Pops.TemporalInterpolation
