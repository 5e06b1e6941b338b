import Pops.InterfaceScheduler

/-!
`apply` of `runtime/multiblock/interface_flux_scheduler.hpp` on all ranks, with
`prepare_accumulation` of `numerics/time/amr/reflux/amr_interface_flux_ledger.hpp`.
Every phase ends in a reduction that returns the same value on all ranks. What
a rank brings to a phase, and whether it fails there, is its own; a contract
stands for the values whose bytes it writes.
-/
namespace Pops.Multiblock
open Rounds

variable {d : ℕ} {V : Type}

deriving instance DecidableEq for ClockStamp, ClockWindow, InterfaceFluxFragmentKey, InterfaceFluxFragmentMeasure,
  InterfaceFluxFragment

/-- An entry of the ledger. -/
abbrev Entry (V : Type) := InterfaceFluxFragment V (List V)

/-- `TransactionalInterfaceFluxLedger`. -/
structure InterfaceFluxLedger (V : Type) where
  topologyEpoch : ℕ
  budget : InterfaceFluxLedgerBudget
  pending : List (Entry V)
  published : List (Entry V)
  savepoints : List ℕ

def sameIdentity (left right : InterfaceFluxFragmentKey V) : Bool :=
  !InterfaceFlux.keyLess left right && !InterfaceFlux.keyLess right left

/-- One candidate of the loop of `prepare_accumulation`, after the entries `seen` with their payload terms. -/
def admitCandidate [MetricDouble V] (ledger : InterfaceFluxLedger V) (seen : List (Entry V) × ℕ) (candidate : Entry V) :
    Checked (List (Entry V) × ℕ) := do
  InterfaceFlux.validateFragment candidate.key candidate.measure ledger.topologyEpoch
  throwIf (∃ entry ∈ seen.1, sameIdentity entry.key candidate.key = true)
    (.runtimeError "AMR interface-flux attempt contains a duplicate stage/clock fragment identity")
  throwIf (candidate.payload.length > ledger.budget.maxPayloadTermsPerWindow -
      min seen.2 ledger.budget.maxPayloadTermsPerWindow)
    (.lengthError "AMR interface-flux payload-term budget exceeded before allocation")
  return (seen.1 ++ [candidate], seen.2 + candidate.payload.length)

/-- `prepare_accumulation`: the entries that would be pending. -/
def prepareAccumulation [MetricDouble V] (ledger : InterfaceFluxLedger V) (entries : List (Entry V)) :
    Checked (List (Entry V)) := do
  throwIf (ledger.savepoints = [])
    (.runtimeError "AMR interface-flux accumulation requires an active transaction")
  throwIf (entries.length > ledger.budget.maxFragmentsPerWindow -
      min ledger.pending.length ledger.budget.maxFragmentsPerWindow)
    (.lengthError "AMR interface-flux fragment budget exceeded before allocation")
  let (pending, _) ← entries.foldlM (admitCandidate ledger)
    (ledger.pending, (ledger.pending.map fun entry => entry.payload.length).sum)
  return pending

/-- `BoundaryEvaluationPoint`, as an interface uses it. -/
structure EvaluationPoint (V : Type) where
  level : ℤ
  dt : V
  graphIdentity : Bytes
  rateIdentity : Bytes
  applicationIdentity : Bytes
  deriving DecidableEq

/-- `InterfaceFluxFragmentPublication`, but for its ledger. -/
structure FragmentPublication (V : Type) where
  topologyEpoch : ℕ
  activeLevelCount : ℤ
  clock : ClockStamp V
  stageIdentity : Bytes
  interval : ClockWindow V
  stageWeight : Rational
  stageWeightResolved : Bool
  deriving DecidableEq

/-- The values of the local patches of a field, by patch, cell and component. -/
abbrev FieldValues (d : ℕ) (V : Type) := ℕ × Index d × ℕ → V

/-- What one rank brings to one interface: the blocks it was given, and what
fails on it. -/
structure LocalCall (d : ℕ) (V : Type) where
  activeFailure : Option Exception
  active : Bool
  layoutsMatch : Bool
  packingFailure : Option Exception
  evaluator : (ℕ → V) → Checked (ℕ → V)

/-- What one rank brings to an application. -/
structure LocalPoint (V : Type) where
  point : EvaluationPoint V
  publication : Option (FragmentPublication V)
  registry : Bytes
  failure : Option Exception

/-- The state of one rank: its fields, the ledger, and the buffers of the
interface that is applied. -/
structure RankState (d : ℕ) (V : Type) where
  states : ℕ → FieldValues d V
  rhs : ℕ → FieldValues d V
  ledger : InterfaceFluxLedger V
  traces : ℕ → V
  flux : ℕ → V
  candidate : List (Entry V) := []

/-- The sum of the traces of all ranks, in their order. -/
def reduceTraces [Add V] [Zero V] (contributions : List (ℕ → V)) (entry : ℕ) : V :=
  contributions.foldl (fun sum traces => sum + traces entry) 0

namespace PreparedSide

/-- The cells of the plans of one rank. -/
def localCells (side : PreparedSide d V) (rank : ℕ) : List (BoundaryCell d) :=
  side.cells.filter fun cell => side.owner cell.patch = rank

/-- `PackKernel`, over the plans of one rank. -/
def packed (side : PreparedSide d V) (rank traceBase componentCount : ℕ) (component : ℕ → ℕ) (field : FieldValues d V) :
    List (ℕ × V) :=
  (side.localCells rank).flatMap fun cell => (List.range componentCount).map fun c =>
    (traceBase + cell.face * componentCount + c, field (cell.patch, cell.index, component c))

/-- `ScatterKernel`, over the plans of one rank: what is added, and where. -/
def scattered [Mul V] (side : PreparedSide d V) (rank componentCount : ℕ) (component : ℕ → ℕ) (scale : V)
    (flux : ℕ → V) : List ((ℕ × Index d × ℕ) × V) :=
  (side.localCells rank).flatMap fun cell => (List.range componentCount).map fun c =>
    ((cell.patch, cell.index, component c), scale * flux (cell.face * componentCount + c))

end PreparedSide

/-- Add to the values of a field, one after the other. -/
def accumulate {A : Type} [DecidableEq A] [Add V] (field : A → V) (increments : List (A × V)) : A → V :=
  increments.foldl (fun current step => Function.update current step.1 (current step.1 + step.2)) field

namespace PreparedInterface
variable (prepared : PreparedInterface d V)

/-- The values of a batch. -/
def packedCount : ℕ := prepared.faceCount * prepared.componentCount

def pack [Zero V] (rank : ℕ) (left right : FieldValues d V) : ℕ → V :=
  Staging.store (Staging.store (fun _ => 0) (prepared.left.packed rank 0 prepared.componentCount id left))
    (prepared.right.packed rank prepared.packedCount prepared.componentCount prepared.rightComponent right)

/-- `scatter_`, on one rank: the right-hand sides of all blocks. -/
def scatter [Add V] [Mul V] [Neg V] [Div V] [One V] (rank : ℕ) (flux : ℕ → V) (rhs : ℕ → FieldValues d V) :
    ℕ → FieldValues d V :=
  let left := accumulate (rhs prepared.leftBlock)
    (prepared.left.scattered rank prepared.componentCount id (-1 / prepared.left.normalSpacing) flux)
  let rhs := Function.update rhs prepared.leftBlock left
  let right := accumulate (rhs prepared.rightBlock)
    (prepared.right.scattered rank prepared.componentCount prepared.rightComponent
      (1 / prepared.right.normalSpacing) flux)
  Function.update rhs prepared.rightBlock right

/-- The fragment of one orientation in `prepare_fragment_publication_`. -/
def fragment (point : EvaluationPoint V) (publication : FragmentPublication V) (flux : ℕ → V) (coarseLevel fineLevel : ℤ)
    (orientation : InterfaceFluxOrientation) : Entry V where
  key := {
    interfaceIdentity := prepared.identity
    topologyEpoch := publication.topologyEpoch
    coarseLevel
    fineLevel
    clock := publication.clock
    stageIdentity := publication.stageIdentity
    graphIdentity := point.graphIdentity
    rateIdentity := point.rateIdentity
    applicationIdentity := point.applicationIdentity
    interval := publication.interval
    orientation
    leftBlock := prepared.leftBlock
    rightBlock := prepared.rightBlock }
  measure := ⟨publication.stageWeight, prepared.faceMeasure, point.dt, publication.stageWeightResolved⟩
  payload := (List.range prepared.packedCount).map flux

/-- The entries of `prepare_fragment_publication_`. -/
def fragments (point : EvaluationPoint V) (publication : FragmentPublication V) (flux : ℕ → V) : List (Entry V) :=
  (if point.level > 0 then
      [prepared.fragment point publication flux (point.level - 1) point.level .fineOutward]
    else []) ++
    if point.level + 1 < publication.activeLevelCount then
      [prepared.fragment point publication flux point.level (point.level + 1) .coarseOutward]
    else []

end PreparedInterface

/-- What `finish_collective_preflight_` throws on a rank. -/
def collectiveFailure (failure : Option Exception) (phase : String) : Exception :=
  failure.getD (.runtimeError ("multi-block interface " ++ phase ++ " failed on another MPI rank"))

/-- A phase that only checks. -/
def checkPhase {σ : Type} (fails : (ℕ → σ) → ℕ → Bool) (thrown : ℕ → Exception) : Phase ℕ σ Exception where
  act states := states
  fails
  reject rank state := (state, thrown rank)

/-- What a rank throws of its own, or `other` when another rank failed. -/
def thrownBy (size : ℕ) (failure : Option Exception) (other : String) : Exception :=
  match failure with
  | some own => if size > 1 then .runtimeError other else own
  | none => .runtimeError other

section
variable [Zero V] [One V] [Add V] [Neg V] [Mul V] [Div V] [DecidableEq V] [MetricDouble V]
variable (size : ℕ) (prepared : PreparedInterface d V) (point : EvaluationPoint V)
  (publication : Option (FragmentPublication V)) (calls : ℕ → LocalCall d V)

/-- The runtime fields match the prepared layouts. -/
def layoutsPhase : Phase ℕ (RankState d V) Exception :=
  checkPhase (fun _ rank => !(calls rank).layoutsMatch) fun _ => .runtimeError
    (if size > 1 then "multi-block interface runtime fields differ from prepared layouts on one rank"
    else "multi-block interface runtime fields differ from their prepared layouts")

/-- The packing of the traces. -/
def packingPhase : Phase ℕ (RankState d V) Exception where
  act states rank :=
    let state := states rank
    { state with traces := prepared.pack rank (state.states prepared.leftBlock) (state.states prepared.rightBlock) }
  fails _ rank := (calls rank).packingFailure.isSome
  reject rank state := (state, collectiveFailure (calls rank).packingFailure "device trace packing")

/-- The traces that all ranks hold after their reduction. -/
def gathered (states : ℕ → RankState d V) : ℕ → V := reduceTraces ((List.range size).map fun rank => (states rank).traces)

/-- The reduction of the traces and the evaluation of the flux. -/
def evaluationPhase : Phase ℕ (RankState d V) Exception where
  act states rank :=
    let traces := gathered size states
    { states rank with traces, flux := ((calls rank).evaluator traces).toOption.getD (states rank).flux }
  fails states rank := !((calls rank).evaluator (gathered size states)).isOk
  reject rank state := (state, thrownBy size
    (match (calls rank).evaluator state.traces with
      | .error failure => some failure
      | .ok _ => none)
    "multi-block interface evaluator failed on one or more ranks")

/-- Every value of the flux is finite. -/
def finitePhase : Phase ℕ (RankState d V) Exception :=
  checkPhase (fun states rank => (List.range prepared.packedCount).any fun value =>
      !Double.isFinite ((states rank).flux value)) fun _ => .runtimeError
    (if size > 1 then "multi-block interface evaluator returned a non-finite flux on one rank"
    else "multi-block interface evaluator returned a non-finite flux")

/-- `require_distributed_flux_consensus_`, with rank 0. -/
def consensusPhase : Phase ℕ (RankState d V) Exception :=
  checkPhase (fun states rank => (List.range prepared.packedCount).any fun value =>
      (states rank).flux value ≠ (states 0).flux value) fun _ => .runtimeError
    "multi-block interface evaluator returned rank-dependent shared flux"

/-- `prepare_fragment_publication_` on one rank. -/
def prepareCandidate (publication : FragmentPublication V) (state : RankState d V) : Checked (List (Entry V)) :=
  prepareAccumulation state.ledger (prepared.fragments point publication state.flux)

/-- The candidates of the ledgers. -/
def preparationPhase (publication : FragmentPublication V) : Phase ℕ (RankState d V) Exception where
  act states rank := { states rank with
    candidate := (prepareCandidate prepared point publication (states rank)).toOption.getD [] }
  fails states rank := !(prepareCandidate prepared point publication (states rank)).isOk
  reject _ state := (state, collectiveFailure
    (match prepareCandidate prepared point publication state with
      | .error failure => some failure
      | .ok _ => none)
    "interface-fragment accumulation")

/-- The contracts of the candidates agree. -/
def agreementPhase : Phase ℕ (RankState d V) Exception :=
  checkPhase (fun states rank =>
      ((states rank).candidate, (states rank).ledger.published, (states rank).ledger.savepoints) ≠
        ((states 0).candidate, (states 0).ledger.published, (states 0).ledger.savepoints)) fun _ => .runtimeError
    "multi-block interface fragment candidates differ across MPI ranks"

/-- The phases of `apply_one_`. -/
def applyOnePhases : List (Phase ℕ (RankState d V) Exception) :=
  [layoutsPhase size calls, packingPhase prepared calls, evaluationPhase size calls, finitePhase size prepared,
      consensusPhase prepared] ++
    match publication with
    | none => []
    | some publication => [preparationPhase prepared point publication, agreementPhase]

/-- `publish_prepared_accumulation` and `scatter_`, once all ranks agree. -/
def commit (states : ℕ → RankState d V) (rank : ℕ) : RankState d V :=
  let state := states rank
  { state with
    ledger := if publication.isSome then { state.ledger with pending := state.candidate } else state.ledger
    rhs := prepared.scatter rank state.flux state.rhs }

/-- `apply_one_` on all ranks: what every rank throws with the state it is left in, or the states after. -/
def applyOne (states : ℕ → RankState d V) : Except (ℕ → RankState d V × Exception) (ℕ → RankState d V) := do
  let final ← Rounds.run (List.range size) (applyOnePhases size prepared point publication calls) states
  return commit prepared publication final

/-- The active mask of one interface. -/
def activePhases : List (Phase ℕ (RankState d V) Exception) :=
  [checkPhase (fun _ rank => (calls rank).activeFailure.isSome) fun rank =>
      collectiveFailure (calls rank).activeFailure "active-mask preflight",
    checkPhase (fun _ rank => (calls rank).active ≠ (calls 0).active) fun _ => .runtimeError
      "multi-block interface active mask differs across MPI ranks"]

/-- One interface of the loop of `apply`. -/
def applyInterface (interface : PreparedInterface d V × (ℕ → LocalCall d V)) (states : ℕ → RankState d V) :
    Except (ℕ → RankState d V × Exception) (ℕ → RankState d V) :=
  if interface.1.level ≠ point.level then .ok states
  else do
    let states ← Rounds.run (List.range size) (activePhases interface.2) states
    if (interface.2 0).active then applyOne size interface.1 point publication interface.2 states else .ok states

/-- The checks of `apply` before its loop. -/
def preflightPhases (points : ℕ → LocalPoint V) : List (Phase ℕ (RankState d V) Exception) :=
  [checkPhase (fun _ rank => (points rank).failure.isSome) fun rank =>
      collectiveFailure (points rank).failure "evaluation-point preflight",
    checkPhase (fun _ rank => (points rank).publication.isSome ≠ (points 0).publication.isSome) fun _ =>
      .runtimeError "multi-block interface fragment publication presence differs across MPI ranks",
    checkPhase (fun _ rank => (points rank).registry ≠ (points 0).registry) fun _ =>
      .runtimeError "multi-block interface prepared registry differs across MPI ranks",
    checkPhase (fun _ rank => (points rank).point ≠ (points 0).point) fun _ =>
      .runtimeError "multi-block interface BoundaryEvaluationPoint differs across MPI ranks",
    checkPhase (fun _ rank => (points rank).publication ≠ (points 0).publication) fun _ =>
      .runtimeError "multi-block interface fragment publication differs across MPI ranks"]

/-- `apply` on all ranks, with the interfaces of the registry that they agree on
and what every rank brings to each. -/
def apply (points : ℕ → LocalPoint V) (interfaces : List (PreparedInterface d V × (ℕ → LocalCall d V)))
    (states : ℕ → RankState d V) : Except (ℕ → RankState d V × Exception) (ℕ → RankState d V) := do
  let states ← Rounds.run (List.range size) (preflightPhases points) states
  interfaces.foldlM (fun current interface =>
    applyInterface size (points 0).point (points 0).publication interface current) states

end

end Pops.Multiblock
