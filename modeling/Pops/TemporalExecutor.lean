import Pops.OrderedMap
import Pops.TemporalPartition

/-!
`runtime/program/cell_temporal_partition.hpp` and
`cell_temporal_partition_executor.hpp`: the transactional clocks of a temporal
partition, and the loop that advances its rungs to a synchronization barrier.
The executor is one rank's; what the provider and the collectives of a lane
make of a rung event is a parameter.
-/
namespace Pops

structure BatchedCellTemporalPartition where
  accepted : CellTemporalPartitionAcceptedState
  pendingTicks : List ℤ := []
  targetTick : ℤ := 0
  attemptActive : Bool := false

namespace BatchedCellTemporalPartition

/-- The constructor. -/
def create (accepted : CellTemporalPartitionAcceptedState) : Checked BatchedCellTemporalPartition := do
  TemporalPartition.validate accepted
  return { accepted }

def requirePreparedExecutionRoute (partition : BatchedCellTemporalPartition) (identity : Bytes) : Checked Unit :=
  match partition.accepted.kind with
  | .global =>
    throwIf (identity ≠ [])
      (.logicError "global temporal partition cannot consume a cell-local prepared executor")
  | .cellLocal => do
    throwIf (identity = [])
      (.logicError
        ("cell-local temporal partition requires a prepared local-stage and time-integrated " ++
        "flux-ledger executor; the global AMR step cannot silently replace it"))
    throwIf (identity ≠ partition.accepted.providerIdentity)
      (.logicError
        "cell-local temporal partition prepared-provider identity does not match its accepted checkpoint")

def beginAttempt (partition : BatchedCellTemporalPartition) (targetTick : ℤ) : Checked BatchedCellTemporalPartition := do
  throwIf (partition.attemptActive = true) (.logicError "temporal partition attempt is already active")
  throwIf (targetTick ≤ partition.accepted.synchronizationTick)
    (.invalidArgument "temporal partition attempt target must advance accepted time")
  throwIf (∃ cell ∈ partition.accepted.cells, (targetTick - cell.acceptedTick).tmod (2 ^ cell.rung.toNat) ≠ 0)
    (.invalidArgument "temporal partition attempt target is unreachable for one prepared rung")
  return { partition with
    pendingTicks := partition.accepted.cells.map (·.acceptedTick), targetTick, attemptActive := true }

/-- One index of the loop of `advance_batch`, after the index `previous`, if
there was one. -/
def checkIndex (partition : BatchedCellTemporalPartition) (rung targetTick : ℤ) (previous : Option ℕ) (index : ℕ) :
    Checked (Option ℕ) :=
  match partition.accepted.cells[index]? with
  | none => .error (.invalidArgument "temporal partition batch indices must be unique and canonically ordered")
  | some cell => do
    throwIf (∃ before ∈ previous, index ≤ before)
      (.invalidArgument "temporal partition batch indices must be unique and canonically ordered")
    throwIf (cell.rung ≠ rung) (.invalidArgument "temporal partition batch mixes prepared rungs")
    throwIf (targetTick ≤ partition.pendingTicks.getD index 0 ∨
        (targetTick - partition.pendingTicks.getD index 0).tmod (2 ^ cell.rung.toNat) ≠ 0)
      (.invalidArgument "temporal partition batch target is not a forward rung-aligned tick")
    return some index

def advanceBatch (partition : BatchedCellTemporalPartition) (rung : ℤ) (indices : List ℕ) (targetTick : ℤ) :
    Checked BatchedCellTemporalPartition := do
  throwIf (¬ partition.attemptActive) (.logicError "temporal partition batch requires an active attempt")
  throwIf (indices = []) (.invalidArgument "temporal partition batch cannot be empty")
  throwIf (targetTick > partition.targetTick)
    (.invalidArgument "temporal partition batch crosses its synchronization target")
  let _last ← indices.foldlM (partition.checkIndex rung targetTick) none
  return { partition with pendingTicks := indices.foldl (fun ticks index => ticks.set index targetTick) partition.pendingTicks }

def requireBarrier (partition : BatchedCellTemporalPartition) (operation : String) : Checked Unit :=
  throwIf (partition.attemptActive = true ∧ ∃ tick ∈ partition.pendingTicks, tick ≠ partition.targetTick)
    (.logicError (operation ++ " requires every cell-local clock at the synchronization barrier"))

def rollback (partition : BatchedCellTemporalPartition) : BatchedCellTemporalPartition :=
  { partition with pendingTicks := [], targetTick := 0, attemptActive := false }

end BatchedCellTemporalPartition

namespace TemporalExecutor

/-- `CellTemporalRungBatchDescriptor`. -/
structure RungBatchDescriptor where
  rung : ℤ
  beginTick : ℤ
  endTick : ℤ
  tickDenominator : ℤ
  cellCount : ℕ
  localCellCount : ℕ
  deriving DecidableEq

structure RungBatch where
  rung : ℤ
  stride : ℤ
  currentTick : ℤ
  localIndices : List ℕ
  globalIndices : List ℕ

/-- `PreparedBatchedCellTemporalExecutor`, with the events its active attempt
gave to `complete_rung_batch`. -/
structure Executor where
  partition : BatchedCellTemporalPartition
  batches : List RungBatch
  targetTick : ℤ := 0
  attemptActive : Bool := false
  completed : List RungBatchDescriptor := []

/-- The order of the map from a rung to its cells. -/
def rungLess (left right : ℤ) : Bool := decide (left < right)

/-- The cells of each rung, in `prepare_batches_`. -/
def grouped (cells : List (CellTemporalPartitionRecord × ℕ)) : List (ℤ × List ℕ) :=
  cells.foldl
    (fun groups cell => OrderedMap.update rungLess cell.1.rung (fun indices => indices.getD [] ++ [cell.2]) groups) []

/-- One record that the provider owns, after the record `previous`. -/
def checkOwned (cells : List CellTemporalPartitionRecord) (previous : Option ℕ) (index : ℕ) : Checked (Option ℕ) := do
  throwIf (index ≥ cells.length ∨ ∃ before ∈ previous, index ≤ before)
    (.invalidArgument "cell-local temporal provider ownership must be a canonical record subset")
  return some index

def prepareBatches (accepted : CellTemporalPartitionAcceptedState) (owned : List ℕ) : Checked (List RungBatch) := do
  let _last ← owned.foldlM (checkOwned accepted.cells) none
  return (grouped accepted.cells.zipIdx).map fun group =>
    { rung := group.1
      stride := 2 ^ group.1.toNat
      currentTick := accepted.synchronizationTick
      localIndices := owned.filter (· ∈ group.2)
      globalIndices := group.2 }

structure PreparedProviderIdentity where
  name : Bytes
  version : ℕ

def canonicalProviderIdentity (identity : PreparedProviderIdentity) : Checked Bytes := do
  throwIf (identity.name = [] ∨ identity.version = 0)
    (.invalidArgument "cell-local temporal provider requires a non-empty name and non-zero version")
  return identity.name ++ ascii "@" ++ ascii (toString identity.version)

/-- The constructor. -/
def prepare (identity : PreparedProviderIdentity) (owned : List ℕ) (accepted : CellTemporalPartitionAcceptedState) :
    Checked Executor := do
  let partition ← BatchedCellTemporalPartition.create accepted
  let route ← canonicalProviderIdentity identity
  partition.requirePreparedExecutionRoute route
  let batches ← prepareBatches accepted owned
  return { partition, batches }

/-- `begin_attempt`, by a provider that accepts the attempt. -/
def beginAttempt (executor : Executor) (targetTick : ℤ) : Checked Executor := do
  throwIf (executor.attemptActive = true) (.logicError "cell-local temporal attempt is already active")
  let partition ← executor.partition.beginAttempt targetTick
  return {
    partition
    batches := executor.batches.map fun batch => { batch with currentTick := partition.accepted.synchronizationTick }
    targetTick
    attemptActive := true }

/-- `rollback`, and `abort_attempt_`. -/
def rollback (executor : Executor) : Executor :=
  if executor.attemptActive then
    { executor with partition := executor.partition.rollback, targetTick := 0, attemptActive := false, completed := [] }
  else executor

/-- `std::numeric_limits<std::int64_t>::max()`. -/
def tickLimit : ℤ := 9223372036854775807

/-- One batch of the loop of `next_batch_`, with the batch selected before it. -/
def considerBatch (targetTick : ℤ) (selected : Option RungBatch × ℤ) (batch : RungBatch) : Option RungBatch × ℤ :=
  if batch.currentTick ≥ targetTick then selected
  else if batch.currentTick + batch.stride < selected.2 ∨
      batch.currentTick + batch.stride = selected.2 ∧ (∀ chosen ∈ selected.1, batch.rung < chosen.rung) then
    (some batch, batch.currentTick + batch.stride)
  else selected

def nextBatch (targetTick : ℤ) (batches : List RungBatch) : Option RungBatch :=
  (batches.foldl (considerBatch targetTick) (none, tickLimit)).1

/-- An attempt that ended in an exception, and the executor it left. -/
structure Stopped where
  exception : Exception
  executor : Executor

/-- The event of a batch. -/
def describe (executor : Executor) (batch : RungBatch) : RungBatchDescriptor where
  rung := batch.rung
  beginTick := batch.currentTick
  endTick := batch.currentTick + batch.stride
  tickDenominator := executor.partition.accepted.tickDenominator
  cellCount := batch.globalIndices.length
  localCellCount := batch.localIndices.length

/-- `batch.current_tick = end_tick` on the batch that has a rung. -/
def moveClock (rung endTick : ℤ) (batch : RungBatch) : RungBatch :=
  if batch.rung = rung then { batch with currentTick := endTick } else batch

/-- `execute_batch_`, where `stages` says whether the hooks of the provider, the
kernel and their collectives let an event pass. -/
def executeBatch (stages : RungBatchDescriptor → Checked Unit) (executor : Executor) (batch : RungBatch) :
    Except Stopped Executor :=
  if batch.currentTick + batch.stride > executor.targetTick then
    .error ⟨.logicError "prepared cell-local rung crosses its synchronization barrier", rollback executor⟩
  else
    match stages (describe executor batch) with
    | .error exception => .error ⟨exception, rollback executor⟩
    | .ok _ =>
      match executor.partition.advanceBatch batch.rung batch.globalIndices (batch.currentTick + batch.stride) with
      | .error exception => .error ⟨exception, rollback executor⟩
      | .ok partition =>
        .ok { executor with
          partition
          batches := executor.batches.map (moveClock batch.rung (batch.currentTick + batch.stride))
          completed := executor.completed ++ [describe executor batch] }

/-- The loop of `advance_to_barrier`, for as many turns as there is fuel. -/
def advanceLoop (stages : RungBatchDescriptor → Checked Unit) : ℕ → Executor → Option (Except Stopped Executor)
  | 0, _ => none
  | fuel + 1, executor =>
    match nextBatch executor.targetTick executor.batches with
    | none => some (.ok executor)
    | some batch =>
      match executeBatch stages executor batch with
      | .error stopped => some (.error stopped)
      | .ok next => advanceLoop stages fuel next

/-- What `advance_to_barrier` checks after its loop. -/
def checkBarrier (executor : Executor) : Except Stopped Executor :=
  match executor.partition.requireBarrier "cell-local temporal executor" with
  | .error exception => .error ⟨exception, rollback executor⟩
  | .ok _ => .ok executor

def advanceToBarrier (stages : RungBatchDescriptor → Checked Unit) (fuel : ℕ) (executor : Executor) :
    Option (Except Stopped Executor) :=
  if executor.attemptActive then (advanceLoop stages fuel executor).map fun outcome => outcome.bind checkBarrier
  else
    some (.error ⟨.logicError "cell-local temporal execution requires an active attempt", rollback executor⟩)

end TemporalExecutor

end Pops
