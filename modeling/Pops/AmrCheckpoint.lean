import Pops.CheckpointWire
import Pops.InterfaceFlux
import Pops.TemporalPartition

/-!
`runtime/program/amr_program_checkpoint.hpp`: the accepted state of an AMR
Program, its validation, and the state that validation and writing share.
`Real` is `double`. A `Rational` is canonical, so the checks of its canonical
form are left out.
-/
namespace Pops

variable {d : ℕ} {T : Type}

structure AmrProgramHistoryDescriptor where
  name : Bytes
  programOwner : ℤ
  stateIdentity : Bytes
  spaceIdentity : Bytes
  clockIdentity : Bytes
  interpolationIdentity : Bytes
  depth : ℤ
  components : ℤ
  deriving DecidableEq

structure AmrProgramHistorySlotProvenance (T : Type) where
  name : Bytes
  level : ℤ
  slot : ℤ
  outgoingDt : T
  initialized : Bool
  fillCount : ℤ

structure AmrProgramPendingHistoryRemap (T : Type) where
  key : Bytes
  parentLevel : ℤ
  childLevel : ℤ
  priorTopologyEpoch : ℕ
  priorMaterializationGeneration : ℕ
  publishedTopologyEpoch : ℕ
  publishedMaterializationGeneration : ℕ
  acceptedMacroStep : ℤ
  temporalNumerator : ℤ
  temporalDenominator : ℤ
  sourceDt : T
  targetDt : T
  consumed : Bool

structure AmrProgramSynchronizationEvent (T : Type) where
  parentLevel : ℤ
  childLevel : ℤ
  runtimeBlock : ℤ
  phase : Bytes
  clock : ClockStamp T

/-- The `std::map` of the logical clocks, in the order of their identities. -/
structure LogicalClockTicks where
  entries : List (Bytes × ℤ)
  ordered : entries.Pairwise fun left right => left.1 < right.1

structure AmrProgramAcceptedState (d : ℕ) (T : Type) where
  spatialContract : Bytes
  topologyEpoch : ℕ
  materializationGeneration : ℕ
  levelClocks : List (ClockStamp T)
  logicalClockTicks : LogicalClockTicks
  histories : List AmrProgramHistoryDescriptor
  historySlots : List (AmrProgramHistorySlotProvenance T)
  pendingHistoryRemaps : List (AmrProgramPendingHistoryRemap T)
  historyFluxPayload : Bytes
  temporalPartition : CellTemporalPartitionAcceptedState
  taggingHysteresisState : Bytes
  fluxBudgetContract : Bytes
  couplingContract : Bytes
  acceptedFaceFlux : Fin d → List (FaceFluxFragment d T (List T))
  acceptedInterfaceFlux : List (InterfaceFluxFragment T (List T))
  synchronizationEvents : List (AmrProgramSynchronizationEvent T)

namespace Checkpoint

/-- What `validate_state` throws. -/
def invalid (reason : String) : Exception := .invalidArgument ("exact AMR Program checkpoint " ++ reason)

variable [MetricDouble T]

/-- One level of the loop over the level clocks. -/
def validateLevelClock (clock : ClockStamp T × ℕ) : Checked Unit :=
  throwIf (clock.1.level ≠ castInt clock.2 ∨ clock.1.macroStep < 0 ∨ Double.isFinite clock.1.physicalTime = false)
    (invalid "has an invalid level clock")

/-- One descriptor of the loop over the histories, after the one called `previous`. -/
def validateHistory (previous : Bytes) (history : AmrProgramHistoryDescriptor) : Checked Bytes := do
  throwIf (history.name = [] ∨ history.programOwner < 0 ∨ history.stateIdentity = [] ∨
      history.spaceIdentity = [] ∨ history.clockIdentity = [] ∨ history.interpolationIdentity = [] ∨
      history.depth < 2 ∨ history.components < 1)
    (invalid "has an incomplete history descriptor")
  throwIf (previous ≠ [] ∧ ¬ previous < history.name)
    (invalid "history descriptors must be uniquely ordered")
  return history.name

/-- The order of two identities of history slots. -/
def slotLess (left right : AmrProgramHistorySlotProvenance T) : Bool :=
  tupleLess [compared left.name right.name, compared left.level right.level, compared left.slot right.slot]

/-- One row of the loop over the history slots. -/
def validateHistorySlot (state : AmrProgramAcceptedState d T) (previous : Option (AmrProgramHistorySlotProvenance T))
    (slot : AmrProgramHistorySlotProvenance T) : Checked (Option (AmrProgramHistorySlotProvenance T)) := do
  match state.histories.find? fun history => history.name = slot.name with
  | none => .error (invalid "has invalid history-slot provenance")
  | some descriptor =>
    throwIf (slot.level < 0 ∨ slot.level ≥ state.levelClocks.length ∨ slot.slot < 0 ∨
        slot.slot ≥ descriptor.depth ∨ Double.isFinite slot.outgoingDt = false ∨
        Double.less slot.outgoingDt (Double.ofInt64 0) = true ∨ slot.fillCount < 0 ∨
        slot.fillCount > descriptor.depth)
      (invalid "has invalid history-slot provenance")
  throwIf (slot.initialized ≠ (slot.fillCount > 0 : Bool) ∨
      (if slot.fillCount = 0 then MetricDouble.equal slot.outgoingDt (Double.ofInt64 0) = false
        else Double.less (Double.ofInt64 0) slot.outgoingDt = false))
    (invalid "history dt differs from its publication metadata")
  throwIf (∃ before ∈ previous, slotLess before slot = false)
    (invalid "history-slot provenance is not uniquely ordered")
  return some slot

/-- The row that one slot of a history takes, and what its level has published. -/
def coverSlot (history : AmrProgramHistoryDescriptor) (level : ℕ)
    (rows : List (AmrProgramHistorySlotProvenance T) × Option (Bool × ℤ)) (slot : ℕ) :
    Checked (List (AmrProgramHistorySlotProvenance T) × Option (Bool × ℤ)) :=
  match rows.1 with
  | [] => .error (invalid "omits history-slot provenance")
  | provenance :: rest => do
    throwIf (provenance.name ≠ history.name ∨ provenance.level ≠ castInt level ∨ provenance.slot ≠ slot)
      (invalid "does not cover every history level and slot")
    throwIf (∃ publication ∈ rows.2, publication ≠ (provenance.initialized, provenance.fillCount))
      (invalid "history publication differs between slots")
    return (rest, some (provenance.initialized, provenance.fillCount))

/-- The rows that the slots of one level of a history take. -/
def coverLevel (history : AmrProgramHistoryDescriptor) (rows : List (AmrProgramHistorySlotProvenance T))
    (level : ℕ) : Checked (List (AmrProgramHistorySlotProvenance T)) := do
  let covered ← (List.range history.depth.toNat).foldlM (coverSlot history level) (rows, none)
  return covered.1

/-- The loop that walks the rows along the histories, levels and slots. -/
def validateSlotCoverage (state : AmrProgramAcceptedState d T) : Checked Unit := do
  let foreign ← state.histories.foldlM
    (fun rows history => (List.range state.levelClocks.length).foldlM (coverLevel history) rows) state.historySlots
  throwIf (foreign ≠ []) (invalid "has foreign history-slot provenance")

def historyPrefix : Bytes := ascii "pops.amr.level-history.v1/"

/-- The bytes before and after the first `separator`. -/
def splitAtFirst (separator : Fin 256) : Bytes → Option (Bytes × Bytes)
  | [] => none
  | byte :: rest =>
    if byte = separator then some ([], rest)
    else (splitAtFirst separator rest).map fun split => (byte :: split.1, split.2)

def parseDecimal (text : Bytes) : Checked ℕ := do
  throwIf (text = []) (invalid "pending history remap key has an empty decimal field")
  text.foldlM (fun result character => do
    throwIf (character.val < 48 ∨ character.val > 57 ∨ result > (sizeMax - (character.val - 48)) / 10)
      (invalid "pending history remap key has an invalid decimal field")
    return result * 10 + (character.val - 48)) 0

/-- The bytes `/` and `:`. -/
def slash : Fin 256 := byteOf 47
def colon : Fin 256 := byteOf 58

/-- `parse_pending_key`: the level and the name a key is of. -/
def parsePendingKey (key : Bytes) : Checked (ℤ × Bytes) := do
  throwIf (historyPrefix.isPrefixOf key = false) (invalid "pending history remap has a foreign key")
  match splitAtFirst slash (key.drop historyPrefix.length) with
  | none => .error (invalid "pending history remap key is malformed")
  | some (levelText, afterSlash) =>
    match splitAtFirst colon afterSlash with
    | none => .error (invalid "pending history remap key is malformed")
    | some (sizeText, name) => do
      let level ← parseDecimal levelText
      let nameSize ← parseDecimal sizeText
      throwIf ((level : ℤ) > intMax ∨ nameSize ≠ name.length)
        (invalid "pending history remap key is not canonical")
      return ((level : ℤ), name)

/-- The slot that holds the first child lag of a remap. -/
def lagSlot (state : AmrProgramAcceptedState d T) (pending : AmrProgramPendingHistoryRemap T) (name : Bytes) :
    Option (AmrProgramHistorySlotProvenance T) :=
  state.historySlots.find? fun slot => slot.name = name ∧ slot.level = pending.childLevel ∧ slot.slot = 1

/-- One remap of the loop over the pending ones, after the one under `previous`. -/
def validatePendingRemap (state : AmrProgramAcceptedState d T) (previous : Bytes)
    (pending : AmrProgramPendingHistoryRemap T) : Checked Bytes := do
  let (keyLevel, keyName) ← parsePendingKey pending.key
  let history := state.histories.find? fun row => row.name = keyName
  throwIf (pending.key = [] ∨ (previous ≠ [] ∧ ¬ previous < pending.key) ∨ pending.parentLevel < 0 ∨
      pending.parentLevel = intMax ∨ pending.childLevel ≠ pending.parentLevel + 1 ∨
      pending.childLevel ≥ castInt state.levelClocks.length ∨ pending.consumed = true ∨
      keyLevel ≠ pending.childLevel ∨ (history.any fun row => row.depth = 2) = false ∨
      ((lagSlot state pending keyName).any fun slot => slot.initialized && slot.fillCount = 2 &&
        MetricDouble.equal slot.outgoingDt pending.sourceDt) = false ∨
      (state.levelClocks[pending.childLevel.toNat]?.any fun clock =>
        pending.acceptedMacroStep = clock.macroStep) = false ∨
      pending.priorTopologyEpoch = sizeMax ∨ pending.priorMaterializationGeneration = sizeMax ∨
      pending.priorTopologyEpoch + 1 ≠ pending.publishedTopologyEpoch ∨
      pending.priorMaterializationGeneration + 1 ≠ pending.publishedMaterializationGeneration ∨
      pending.publishedTopologyEpoch ≠ state.topologyEpoch ∨
      pending.publishedMaterializationGeneration ≠ state.materializationGeneration ∨
      pending.acceptedMacroStep < 0 ∨ pending.temporalDenominator ≠ 1 ∨
      (pending.temporalNumerator ≠ 1 ∧ pending.temporalNumerator ≠ 2) ∨
      Double.isFinite pending.sourceDt = false ∨ Double.isFinite pending.targetDt = false ∨
      Double.less (Double.ofInt64 0) pending.sourceDt = false ∨
      Double.less (Double.ofInt64 0) pending.targetDt = false ∨
      MetricDouble.equal pending.targetDt
        (Double.div pending.sourceDt (Double.ofInt64 pending.temporalNumerator)) = false)
    (invalid "has an invalid pending history remap")
  return pending.key

/-- One fragment of the loop over the face fluxes of an axis. -/
def validateFaceFragment (axis : Fin d) (previous : Option (FaceFluxFragmentKey d T))
    (fragment : FaceFluxFragment d T (List T)) : Checked (Option (FaceFluxFragmentKey d T)) := do
  throwIf (fragment.key.axis ≠ axis) (invalid "stores a flux face under another axis")
  validateFaceFluxFragment fragment.key fragment.measure
  throwIf (fragment.payload = []) (invalid "face payload cannot be empty")
  throwIf (∃ component ∈ fragment.payload, Double.isFinite component = false)
    (invalid "face payload must be finite")
  throwIf (∃ before ∈ previous, before.less fragment.key = false)
    (invalid "face fragments must be uniquely ordered")
  return some fragment.key

/-- One fragment of the loop over the interface fluxes. -/
def validateInterfaceFragment (topologyEpoch : ℕ) (previous : Option (InterfaceFluxFragmentKey T))
    (fragment : InterfaceFluxFragment T (List T)) : Checked (Option (InterfaceFluxFragmentKey T)) := do
  InterfaceFlux.validateFragment fragment.key fragment.measure topologyEpoch
  throwIf (fragment.measure.stageWeightResolved = false ∨ fragment.payload = [])
    (invalid "interface fragment is not accepted")
  throwIf (∃ component ∈ fragment.payload, Double.isFinite component = false)
    (invalid "interface payload must be finite")
  throwIf (∃ before ∈ previous, InterfaceFlux.keyLess before fragment.key = false)
    (invalid "interface fragments must be uniquely ordered")
  return some fragment.key

/-- One event of the loop over the synchronization events. -/
def validateEvent (levels : ℕ) (event : AmrProgramSynchronizationEvent T) : Checked Unit :=
  throwIf (event.parentLevel < 0 ∨ event.childLevel ≠ event.parentLevel + 1 ∨ event.childLevel ≥ levels ∨
      event.runtimeBlock < 0 ∨ (event.phase ≠ ascii "reflux" ∧ event.phase ≠ ascii "average_down") ∨
      event.clock.level ≠ event.parentLevel ∨ event.clock.macroStep < 0 ∨
      Double.isFinite event.clock.physicalTime = false)
    (invalid "has an invalid synchronization event")

def validateState (state : AmrProgramAcceptedState d T) : Checked Unit := do
  throwIf (state.spatialContract = []) (invalid "requires its spatial contract")
  throwIf (state.levelClocks = []) (invalid "requires at least one level clock")
  state.levelClocks.zipIdx.forM validateLevelClock
  TemporalPartition.validate state.temporalPartition
  throwIf (state.temporalPartition.kind = .cellLocal ∧ state.temporalPartition.topologyEpoch ≠ state.topologyEpoch)
    (invalid "temporal partition names another topology")
  let _history ← state.histories.foldlM validateHistory []
  let _slot ← state.historySlots.foldlM (validateHistorySlot state) none
  validateSlotCoverage state
  let _pending ← state.pendingHistoryRemaps.foldlM (validatePendingRemap state) []
  throwIf (state.historyFluxPayload ≠ [] ∧ state.historyFluxPayload.length < 8)
    (invalid "has a truncated history-flux payload")
  (List.finRange d).forM fun axis => do
    let _face ← (state.acceptedFaceFlux axis).foldlM (validateFaceFragment axis) none
    return ()
  let _interface ← state.acceptedInterfaceFlux.foldlM (validateInterfaceFragment state.topologyEpoch) none
  state.synchronizationEvents.forM (validateEvent state.levelClocks.length)

end Checkpoint

end Pops
