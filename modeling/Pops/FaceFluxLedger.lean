import Pops.Clock
import Pops.Member

/-!
`amr/reflux/face_flux_ledger.hpp`: the transactional ledger of face-flux
fragments, one list for each normal axis. Every operation may throw; where the
source allocates or copies payloads before it changes anything, `fault` is what
that threw, if it did.
-/
namespace Pops

variable {d : ℕ} {T Payload : Type}

inductive FaceLedgerCentering where
  | face
  | cell
  deriving DecidableEq

inductive FaceLedgerRole where
  | coarse
  | fine
  deriving DecidableEq

inductive FaceLedgerContribution where
  | numericalFlux
  | source
  deriving DecidableEq

/-- The underlying values the enumerations compare by. -/
def FaceLedgerCentering.value : FaceLedgerCentering → ℕ
  | face => 0
  | cell => 1

def FaceLedgerRole.value : FaceLedgerRole → ℕ
  | coarse => 0
  | fine => 1

def FaceLedgerContribution.value : FaceLedgerContribution → ℕ
  | numericalFlux => 0
  | source => 1

structure LevelTransition where
  coarse : ℤ
  fine : ℤ
  deriving DecidableEq

structure FaceFluxFragmentKey (d : ℕ) (T : Type) where
  owner : Bytes
  state : Bytes
  levels : LevelTransition
  centering : FaceLedgerCentering
  axis : ℤ
  face : Fin d → ℤ
  coarseFace : Fin d → ℤ
  clock : ClockStamp T
  stage : Bytes
  attempt : ℕ
  role : FaceLedgerRole
  contribution : FaceLedgerContribution

/-- Both comparisons of two elements. -/
def compared {α : Type} [LT α] [DecidableLT α] (left right : α) : Bool × Bool :=
  (left < right, right < left)

/-- `operator<` of `std::tuple`, from the comparisons of its elements. -/
def tupleLess : List (Bool × Bool) → Bool
  | [] => false
  | (below, above) :: rest => below || (!above && tupleLess rest)

/-- `index_less`: the first axis that differs decides. -/
def indexLess (left right : Fin d → ℤ) : Bool :=
  match (List.finRange d).find? fun axis => left axis ≠ right axis with
  | some axis => left axis < right axis
  | none => false

def indexEqual (left right : Fin d → ℤ) : Bool := !indexLess left right && !indexLess right left

/-- `clock_coordinate`. -/
def ClockStamp.coordinate (stamp : ClockStamp T) : ℤ × ℤ × ℤ × ℤ :=
  (stamp.level, stamp.macroStep, stamp.phase.numerator, stamp.phase.denominator)

namespace FaceFluxFragmentKey

/-- The first tuple `operator<` compares. -/
def lead (key : FaceFluxFragmentKey d T) : Bytes × Bytes × ℤ × ℤ × FaceLedgerCentering × ℤ :=
  (key.owner, key.state, key.levels.coarse, key.levels.fine, key.centering, key.axis)

/-- `operator<`. -/
def less (left right : FaceFluxFragmentKey d T) : Bool :=
  if left.lead ≠ right.lead then
    tupleLess [compared left.owner right.owner, compared left.state right.state,
      compared left.levels.coarse right.levels.coarse, compared left.levels.fine right.levels.fine,
      compared left.centering.value right.centering.value, compared left.axis right.axis]
  else if ¬ indexEqual left.coarseFace right.coarseFace then indexLess left.coarseFace right.coarseFace
  else if ¬ indexEqual left.face right.face then indexLess left.face right.face
  else if left.clock.coordinate ≠ right.clock.coordinate then
    tupleLess [compared left.clock.level right.clock.level,
      compared left.clock.macroStep right.clock.macroStep,
      compared left.clock.phase.numerator right.clock.phase.numerator,
      compared left.clock.phase.denominator right.clock.phase.denominator]
  else
    tupleLess [compared left.stage right.stage, compared left.attempt right.attempt,
      compared left.role.value right.role.value,
      compared left.contribution.value right.contribution.value]

def sameIdentity (left right : FaceFluxFragmentKey d T) : Bool := !left.less right && !right.less left

end FaceFluxFragmentKey

structure FaceFluxFragmentMeasure (T : Type) where
  stageWeight : Rational
  substepBegin : Rational
  substepEnd : Rational
  substepDuration : T
  faceMeasure : T

structure FaceFluxFragment (d : ℕ) (T Payload : Type) where
  key : FaceFluxFragmentKey d T
  measure : FaceFluxFragmentMeasure T
  payload : Payload

/-- `checked_axis`, with the axis as the index it is used as. -/
def checkedAxis (axis : ℤ) : Checked (Fin d) :=
  if inside : 0 ≤ axis ∧ axis < d then .ok ⟨axis.toNat, by omega⟩
  else .error (.invalidArgument "ND face-flux ledger axis is outside its compile-time dimension")

section Measure
variable [Double T]

def weightedFaceFluxScale (measure : FaceFluxFragmentMeasure T) : T :=
  Double.mul (Double.mul measure.stageWeight.toDouble measure.substepDuration) measure.faceMeasure

/-- The level that the clock of a fragment must be of. -/
def FaceFluxFragmentKey.clockLevel (key : FaceFluxFragmentKey d T) : ℤ :=
  match key.role with
  | .coarse => key.levels.coarse
  | .fine => key.levels.fine

/-- `validate_face_flux_fragment`. The canonical-form checks of its rationals
hold of every `Rational` and are left out. -/
def validateFaceFluxFragment (key : FaceFluxFragmentKey d T) (measure : FaceFluxFragmentMeasure T) :
    Checked Unit := do
  throwIf (key.owner.isEmpty ∨ key.state.isEmpty ∨ key.stage.isEmpty)
    (.invalidArgument "ND face-flux identity requires owner, state, and stage")
  throwIf (key.levels.coarse < 0 ∨ key.levels.coarse = intMax ∨ key.levels.fine ≠ key.levels.coarse + 1)
    (.invalidArgument "ND face-flux identity requires one adjacent level transition")
  let _axis : Fin d ← checkedAxis key.axis
  throwIf (key.centering ≠ .face)
    (.invalidArgument "ND face-flux ledger accepts only face-centered contributions")
  throwIf (key.contribution ≠ .numericalFlux)
    (.invalidArgument "ND face-flux ledger explicitly excludes source contributions")
  throwIf (key.clock.level ≠ key.clockLevel ∨ key.clock.macroStep < 0 ∨
      Double.isFinite key.clock.physicalTime = false)
    (.invalidArgument "ND face-flux clock is not qualified by its role and level")
  throwIf (Double.isFinite (measure.stageWeight.toDouble : T) = false ∨
      measure.substepBegin.less measure.substepEnd = false ∨
      key.clock.phase.less measure.substepBegin = true ∨ measure.substepEnd.less key.clock.phase = true ∨
      Double.less (Double.ofInt64 0) measure.substepDuration = false ∨
      Double.isFinite measure.substepDuration = false ∨
      Double.less (Double.ofInt64 0) measure.faceMeasure = false ∨
      Double.isFinite measure.faceMeasure = false)
    (.invalidArgument "ND face-flux measure requires finite stage, time, and positive metric weights")
  throwIf (Double.isFinite (weightedFaceFluxScale measure) = false)
    (.invalidArgument "ND face-flux weighted metric-time scale is not finite")

end Measure

structure FaceFluxLedgerBudget where
  maxPendingEntries : ℕ := 0
  maxPublishedEntries : ℕ := 0
  maxTransactionDepth : ℕ := 0
  deriving DecidableEq

/-- `TransactionalFaceFluxLedger`: the entries of each axis, the sizes of the
pending ones when the open transactions began, innermost first, and the
attempts. The budget is the one the constructor accepted. -/
structure FaceFluxLedger (d : ℕ) (T Payload : Type) where
  pending : Fin d → List (FaceFluxFragment d T Payload) := fun _ => []
  published : Fin d → List (FaceFluxFragment d T Payload) := fun _ => []
  savepoints : List (Fin d → ℕ) := []
  activeAttempt : Option ℕ := none
  lastClosedAttempt : Option ℕ := none
  budget : FaceFluxLedgerBudget
  positive : 0 < budget.maxPendingEntries ∧ 0 < budget.maxPublishedEntries ∧ 0 < budget.maxTransactionDepth

namespace FaceFluxLedger

/-- The constructor. -/
def create (budget : FaceFluxLedgerBudget) : Checked (FaceFluxLedger d T Payload) :=
  if positive : 0 < budget.maxPendingEntries ∧ 0 < budget.maxPublishedEntries ∧
      0 < budget.maxTransactionDepth then
    .ok { budget, positive }
  else .error (.invalidArgument "ND face-flux ledger budgets must be strictly positive")

def totalSize (entries : Fin d → List (FaceFluxFragment d T Payload)) : ℕ :=
  ((List.finRange d).map fun axis => (entries axis).length).sum

def InTransaction (ledger : FaceFluxLedger d T Payload) : Prop := ledger.savepoints ≠ []

instance (ledger : FaceFluxLedger d T Payload) : Decidable ledger.InTransaction :=
  inferInstanceAs (Decidable (_ ≠ _))

def requireTransaction (operation : String) (ledger : FaceFluxLedger d T Payload) : Checked Unit :=
  throwIf (¬ ledger.InTransaction)
    (.runtimeError ("ND face-flux ledger " ++ operation ++ " requires an active transaction"))

def containsIdentity (entries : List (FaceFluxFragment d T Payload)) (key : FaceFluxFragmentKey d T) : Bool :=
  entries.any fun entry => entry.key.sameIdentity key

/-- An allocation or a copy that may throw. -/
def allocate (fault : Option Exception) : Checked Unit :=
  match fault with
  | none => .ok ()
  | some exception => .error exception

/-- The check of `begin` on the attempt. -/
def requireAttempt (ledger : FaceFluxLedger d T Payload) (attempt : ℕ) : Checked Unit :=
  match ledger.activeAttempt with
  | some active => throwIf (active ≠ attempt)
      (.invalidArgument "nested ND face-flux transaction must retain the outer attempt identity")
  | none => throwIf (∃ last ∈ ledger.lastClosedAttempt, attempt ≤ last)
      (.invalidArgument "ND face-flux attempt identities must increase monotonically")

/-- `begin`. -/
def beginAttempt (attempt : ℕ) (fault : Option Exception) : Member (FaceFluxLedger d T Payload) Unit := do
  let ledger ← Member.get
  Member.lift (ledger.requireAttempt attempt)
  Member.throwIf (ledger.savepoints.length ≥ ledger.budget.maxTransactionDepth)
    (.lengthError "ND face-flux transaction depth exceeds its prepared budget")
  Member.lift (allocate fault)
  Member.modify fun ledger =>
    { ledger with
      savepoints := (fun axis => (ledger.pending axis).length) :: ledger.savepoints
      activeAttempt := ledger.activeAttempt <|> some attempt }

def closeOuterTransaction (ledger : FaceFluxLedger d T Payload) : FaceFluxLedger d T Payload :=
  { ledger with
    savepoints := ledger.savepoints.tail
    lastClosedAttempt := ledger.activeAttempt
    activeAttempt := none }

def commit (fault : Option Exception) : Member (FaceFluxLedger d T Payload) Unit := do
  let ledger ← Member.get
  Member.lift (ledger.requireTransaction "commit")
  if ledger.savepoints.length > 1 then
    Member.modify fun ledger => { ledger with savepoints := ledger.savepoints.tail }
  else do
    Member.throwIf (totalSize ledger.published > ledger.budget.maxPublishedEntries ∨
        totalSize ledger.pending > ledger.budget.maxPublishedEntries - totalSize ledger.published)
      (.lengthError "ND face-flux publication exceeds its prepared budget")
    Member.lift (allocate fault)
    Member.modify fun ledger =>
      { ledger with
        published := fun axis => ledger.published axis ++ ledger.pending axis
        pending := fun _ => [] }.closeOuterTransaction

/-- `rollback`. The recorded sizes only ever shrink the pending entries. -/
def rollback : Member (FaceFluxLedger d T Payload) Unit := do
  let ledger ← Member.get
  Member.lift (ledger.requireTransaction "rollback")
  Member.modify fun ledger =>
    { ledger with
      pending := fun axis => (ledger.pending axis).take (ledger.savepoints.headD (fun _ => 0) axis)
      savepoints := ledger.savepoints.tail }
  Member.modify fun ledger =>
    if ledger.savepoints = [] then
      { ledger with lastClosedAttempt := ledger.activeAttempt, activeAttempt := none }
    else ledger

def clear : Member (FaceFluxLedger d T Payload) Unit := do
  let ledger ← Member.get
  Member.throwIf ledger.InTransaction
    (.runtimeError "cannot clear an active ND face-flux ledger transaction")
  Member.modify fun ledger =>
    { ledger with pending := fun _ => [], published := fun _ => [], lastClosedAttempt := none }

def accumulate [Double T] (key : FaceFluxFragmentKey d T) (measure : FaceFluxFragmentMeasure T)
    (payload : Payload) (fault : Option Exception) : Member (FaceFluxLedger d T Payload) Unit := do
  let ledger ← Member.get
  Member.lift (ledger.requireTransaction "accumulation")
  Member.throwIf (some key.attempt ≠ ledger.activeAttempt)
    (.invalidArgument "ND face-flux fragment uses a stale attempt identity")
  Member.lift (validateFaceFluxFragment key measure)
  Member.throwIf (totalSize ledger.pending ≥ ledger.budget.maxPendingEntries)
    (.lengthError "ND face-flux pending entries exceed their prepared budget")
  -- validation has checked the axis already
  let axis : Fin d ← Member.lift (checkedAxis key.axis)
  Member.throwIf (containsIdentity (ledger.pending axis) key = true ∨
      containsIdentity (ledger.published axis) key = true)
    (.runtimeError "ND face-flux transaction contains a duplicate clock-stage face identity")
  Member.lift (allocate fault)
  Member.modify fun ledger =>
    { ledger with
      pending := Function.update ledger.pending axis (ledger.pending axis ++ [⟨key, measure, payload⟩]) }

/-- `discard_published_attempt`: how many entries it removed. -/
def discardPublishedAttempt (attempt : ℕ) (fault : Option Exception) :
    Member (FaceFluxLedger d T Payload) ℕ := do
  let ledger ← Member.get
  Member.throwIf ledger.InTransaction
    (.runtimeError "cannot discard published ND face fluxes during an active transaction")
  Member.lift (allocate fault)
  Member.modify fun ledger =>
    { ledger with published := fun axis => (ledger.published axis).filter (·.key.attempt ≠ attempt) }
  return totalSize fun axis => (ledger.published axis).filter (·.key.attempt = attempt)

end FaceFluxLedger

end Pops
