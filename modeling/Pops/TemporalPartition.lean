import Pops.Box

/-!
`runtime/program/cell_temporal_partition.hpp`: the accepted clocks of a
temporal partition, and the check of their canonical form.
-/
namespace Pops

/-- `kGlobalTemporalPartitionProvider`. -/
def globalTemporalPartitionProvider : Bytes := ascii "pops.temporal-partition.global@1"

/-- `TemporalPartitionKind`. -/
inductive TemporalPartitionKind where
  | global
  | cellLocal
  deriving DecidableEq

/-- `CellTemporalPartitionRecord`. -/
structure CellTemporalPartitionRecord where
  level : ℤ
  cell : ℕ
  rung : ℤ
  acceptedTick : ℤ
  deriving DecidableEq

/-- `CellTemporalPartitionAcceptedState`. -/
structure CellTemporalPartitionAcceptedState where
  kind : TemporalPartitionKind := .global
  providerIdentity : Bytes := globalTemporalPartitionProvider
  topologyEpoch : ℕ := 0
  synchronizationTick : ℤ := 0
  tickDenominator : ℤ := 1
  cells : List CellTemporalPartitionRecord := []
  deriving DecidableEq

namespace TemporalPartition

/-- One record of the loop of `validate_cell_temporal_partition_state`, after
the record `previous`, if there was one. -/
def validateRecord (state : CellTemporalPartitionAcceptedState) (previous : Option CellTemporalPartitionRecord)
    (cell : CellTemporalPartitionRecord) : Checked (Option CellTemporalPartitionRecord) := do
  throwIf (cell.level < 0 ∨ cell.rung < 0 ∨ cell.rung > 30 ∨ cell.acceptedTick < 0)
    (.invalidArgument "temporal partition cell record is outside its bounded domain")
  throwIf (∃ before ∈ previous, ¬ (before.level < cell.level ∨ before.level = cell.level ∧ before.cell < cell.cell))
    (.invalidArgument "temporal partition cell records must be unique and canonically ordered")
  throwIf (cell.acceptedTick ≠ state.synchronizationTick)
    (.invalidArgument "temporal partition accepted checkpoint is not at a synchronization barrier")
  throwIf (cell.acceptedTick.tmod (2 ^ cell.rung.toNat) ≠ 0)
    (.invalidArgument "temporal partition accepted tick is not aligned to its cell rung")
  return some cell

/-- `validate_cell_temporal_partition_state`. -/
def validate (state : CellTemporalPartitionAcceptedState) : Checked Unit := do
  throwIf (state.providerIdentity = []) (.invalidArgument "temporal partition provider identity cannot be empty")
  throwIf (state.synchronizationTick < 0 ∨ state.tickDenominator ≤ 0)
    (.invalidArgument
      "temporal partition accepted clock requires non-negative ticks and a positive denominator")
  match state.kind with
  | .global =>
    throwIf (state.providerIdentity ≠ globalTemporalPartitionProvider ∨ state.topologyEpoch ≠ 0 ∨ state.cells ≠ [])
      (.invalidArgument "global temporal partition state cannot carry topology or cell-local clocks")
  | .cellLocal => do
    throwIf (state.providerIdentity = globalTemporalPartitionProvider ∨ state.cells = [])
      (.invalidArgument "cell-local temporal partition state requires its prepared provider and cell clocks")
    let _last ← state.cells.foldlM (validateRecord state) none
    return ()

end TemporalPartition

end Pops
