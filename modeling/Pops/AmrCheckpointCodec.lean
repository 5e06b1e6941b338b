import Pops.AmrCheckpoint

/-!
`runtime/program/amr_program_checkpoint.hpp`: the bytes of an accepted state,
and reading them. The readings of the source are the ones that are not
`strict`. A strict reading makes two checks that the source does not: that the
words of a rational are in lowest terms over a positive denominator, and that
logical clocks come in the order of their identities.
-/
namespace Pops.Checkpoint

variable {d : ℕ} {T : Type}

/-- The tag of a flag. -/
def tag (flag : Bool) : ℕ := if flag then 1 else 0

def writeRational (value : Rational) : Bytes := [i64 value.numerator, i64 value.denominator].flatten

def writeIndex (value : Fin d → ℤ) : Bytes := (List.ofFn fun axis => i64 (value axis)).flatten

/-- One logical clock. -/
def writeTick (clock : Bytes × ℤ) : Bytes := [string clock.1, i64 clock.2].flatten

/-- One history descriptor. -/
def writeHistory (history : AmrProgramHistoryDescriptor) : Bytes :=
  [string history.name, i64 history.programOwner, string history.stateIdentity, string history.spaceIdentity,
    string history.clockIdentity, string history.interpolationIdentity, i64 history.depth,
    i64 history.components].flatten

/-- One record of a temporal partition. -/
def writeCell (cell : CellTemporalPartitionRecord) : Bytes :=
  [i64 cell.level, u64 cell.cell, i64 cell.rung, i64 cell.acceptedTick].flatten

/-- The underlying value of a partition kind. -/
def kindValue : TemporalPartitionKind → ℕ
  | .global => 0
  | .cellLocal => 1

/-- What `write_temporal_partition` writes. -/
def temporalPartitionImage (value : CellTemporalPartitionAcceptedState) : Bytes :=
  [u64 (kindValue value.kind), string value.providerIdentity, u64 value.topologyEpoch,
    i64 value.synchronizationTick, i64 value.tickDenominator, container writeCell value.cells].flatten

def writeTemporalPartition (value : CellTemporalPartitionAcceptedState) : Checked Bytes := do
  TemporalPartition.validate value
  return temporalPartitionImage value

section
variable [BitsDouble T]

def writeClock (value : ClockStamp T) : Bytes :=
  [i64 value.level, i64 value.macroStep, writeRational value.phase, real value.physicalTime].flatten

def writeClockWindow (value : ClockWindow T) : Bytes := [writeClock value.opening, writeClock value.closing].flatten

/-- One history slot. -/
def writeHistorySlot (slot : AmrProgramHistorySlotProvenance T) : Bytes :=
  [string slot.name, i64 slot.level, i64 slot.slot, real slot.outgoingDt, u64 (tag slot.initialized),
    i64 slot.fillCount].flatten

/-- One pending remap. -/
def writePendingRemap (pending : AmrProgramPendingHistoryRemap T) : Bytes :=
  [string pending.key, i64 pending.parentLevel, i64 pending.childLevel, u64 pending.priorTopologyEpoch,
    u64 pending.priorMaterializationGeneration, u64 pending.publishedTopologyEpoch,
    u64 pending.publishedMaterializationGeneration, i64 pending.acceptedMacroStep, i64 pending.temporalNumerator,
    i64 pending.temporalDenominator, real pending.sourceDt, real pending.targetDt,
    u64 (tag pending.consumed)].flatten

/-- What `write_face_fragment` writes. -/
def faceFragmentImage (fragment : FaceFluxFragment d T (List T)) : Bytes :=
  [string fragment.key.owner, string fragment.key.state, i64 fragment.key.levels.coarse,
    i64 fragment.key.levels.fine, u64 fragment.key.centering.value, i64 fragment.key.axis,
    writeIndex fragment.key.face, writeIndex fragment.key.coarseFace, writeClock fragment.key.clock,
    string fragment.key.stage, u64 fragment.key.attempt, u64 fragment.key.role.value,
    u64 fragment.key.contribution.value, writeRational fragment.measure.stageWeight,
    writeRational fragment.measure.substepBegin, writeRational fragment.measure.substepEnd,
    real fragment.measure.substepDuration, real fragment.measure.faceMeasure,
    container real fragment.payload].flatten

def writeFaceFragment [MetricDouble T] (fragment : FaceFluxFragment d T (List T)) : Checked Bytes := do
  validateFaceFluxFragment fragment.key fragment.measure
  return faceFragmentImage fragment

/-- What `write_interface_fragment` writes. -/
def interfaceFragmentImage (fragment : InterfaceFluxFragment T (List T)) : Bytes :=
  [string fragment.key.interfaceIdentity, u64 fragment.key.topologyEpoch, i64 fragment.key.coarseLevel,
    i64 fragment.key.fineLevel, writeClock fragment.key.clock, string fragment.key.stageIdentity,
    string fragment.key.graphIdentity, string fragment.key.rateIdentity,
    string fragment.key.applicationIdentity, writeClockWindow fragment.key.interval,
    u64 fragment.key.orientation.value, u64 fragment.key.leftBlock, u64 fragment.key.rightBlock,
    writeRational fragment.measure.stageWeight, real fragment.measure.faceMeasure,
    real fragment.measure.substepDuration, u64 (tag fragment.measure.stageWeightResolved),
    u64 fragment.payload.length, fragment.payload.flatMap real].flatten

def writeInterfaceFragment [MetricDouble T] (fragment : InterfaceFluxFragment T (List T)) : Checked Bytes := do
  InterfaceFlux.validateFragment fragment.key fragment.measure fragment.key.topologyEpoch
  return interfaceFragmentImage fragment

/-- One synchronization event. -/
def writeEvent (event : AmrProgramSynchronizationEvent T) : Bytes :=
  [i64 event.parentLevel, i64 event.childLevel, i64 event.runtimeBlock, string event.phase,
    writeClock event.clock].flatten

/-- `kMagic`. -/
def magic : Bytes := ascii "POPSAND4"

/-- The bytes of a container whose elements were written already. -/
def sized (elements : List Bytes) : Bytes := [u64 elements.length, elements.flatten].flatten

def writeState [MetricDouble T] (state : AmrProgramAcceptedState d T) : Checked Bytes := do
  let temporalPartition ← writeTemporalPartition state.temporalPartition
  let faces ← axes fun axis => (state.acceptedFaceFlux axis).mapM writeFaceFragment
  let interfaces ← state.acceptedInterfaceFlux.mapM writeInterfaceFragment
  return [magic, i64 d, string state.spatialContract, u64 state.topologyEpoch, u64 state.materializationGeneration,
    container writeClock state.levelClocks, container writeTick state.logicalClockTicks.entries,
    container writeHistory state.histories, container writeHistorySlot state.historySlots,
    container writePendingRemap state.pendingHistoryRemaps, string state.historyFluxPayload, temporalPartition,
    string state.taggingHysteresisState, string state.fluxBudgetContract, string state.couplingContract,
    (List.ofFn fun axis => sized (faces axis)).flatten, sized interfaces,
    container writeEvent state.synchronizationEvents].flatten

/-- `serialize_amr_program_accepted_state`. -/
def serialize [MetricDouble T] (state : AmrProgramAcceptedState d T) : Checked Bytes := do
  validateState state
  writeState state

end

/-- What a strict reading throws. -/
def notCanonical : Exception := failure "not in canonical form"

def readRational (strict : Bool) : Reader Rational := do
  let numerator ← readI64
  let denominator ← readI64
  Reader.lift (throwIf (strict = true ∧ ¬ (0 < denominator ∧ numerator.natAbs.Coprime denominator.natAbs))
    notCanonical)
  Reader.lift (Rational.create numerator denominator)

def readIndex (d : ℕ) : Reader (Fin d → ℤ) := readI32.axes d

/-- A flag, from its tag. -/
def readFlag (exception : Exception) : Reader Bool := do
  let tag ← readU64
  Reader.lift (throwIf (tag > 1) exception)
  return tag ≠ 0

/-- The order of the logical clocks. -/
def identityLess (left right : Bytes) : Bool := left < right

theorem identityLess_iff (left right : Bytes) : identityLess left right = true ↔ left < right := decide_eq_true_iff

def emplace (clocks : LogicalClockTicks) (identity : Bytes) (tick : ℤ) : Checked LogicalClockTicks :=
  if ∀ clock ∈ clocks.entries, clock.1 ≠ identity then
    .ok ⟨OrderedMap.update identityLess identity (fun _ => tick) clocks.entries,
      OrderedMap.update_ordered identityLess_iff clocks.ordered⟩
  else .error (failure "duplicate logical clock identity")

/-- The loop over the logical clocks. -/
def readTicks (strict : Bool) : ℕ → LogicalClockTicks → Reader LogicalClockTicks
  | 0, clocks => pure clocks
  | count + 1, clocks => do
    let identity ← readString
    let tick ← readI64
    Reader.lift (throwIf (strict = true ∧ ∃ clock ∈ clocks.entries, ¬ clock.1 < identity) notCanonical)
    let clocks ← Reader.lift (emplace clocks identity tick)
    readTicks strict count clocks

/-- No logical clocks yet. -/
def noClocks : LogicalClockTicks := ⟨[], .nil⟩

/-- The logical clocks. -/
def readLogicalClocks (strict : Bool) : Reader LogicalClockTicks := do
  let count ← readSize 16
  readTicks strict count noClocks

/-- One history descriptor. -/
def readHistory : Reader AmrProgramHistoryDescriptor := do
  let name ← readString
  let programOwner ← readI32
  let stateIdentity ← readString
  let spaceIdentity ← readString
  let clockIdentity ← readString
  let interpolationIdentity ← readString
  let depth ← readI32
  let components ← readI32
  return { name, programOwner, stateIdentity, spaceIdentity, clockIdentity, interpolationIdentity, depth, components }

/-- One record of a temporal partition. -/
def readCell : Reader CellTemporalPartitionRecord := do
  let level ← readI32
  let cell ← readU64
  let rung ← readI32
  let acceptedTick ← readI64
  return { level, cell, rung, acceptedTick }

/-- The partition kind of an underlying value. -/
def kindOf (value : ℕ) : TemporalPartitionKind := if value = 0 then .global else .cellLocal

def readTemporalPartition : Reader CellTemporalPartitionAcceptedState := do
  let kind ← readU64
  Reader.lift (throwIf (kind > 1) (failure "temporal partition kind"))
  let providerIdentity ← readString
  let topologyEpoch ← readU64
  let synchronizationTick ← readI64
  let tickDenominator ← readI64
  let cells ← readContainer 32 readCell
  let value : CellTemporalPartitionAcceptedState :=
    { kind := kindOf kind, providerIdentity, topologyEpoch, synchronizationTick, tickDenominator, cells }
  Reader.lift (TemporalPartition.validate value)
  return value

section
variable [BitsDouble T] (strict : Bool)

def readClock : Reader (ClockStamp T) := do
  let level ← readI32
  let macroStep ← readI64
  let phase ← readRational strict
  let physicalTime ← readReal
  return { level, macroStep, phase, physicalTime }

def readClockWindow : Reader (ClockWindow T) := do
  let opening ← readClock strict
  let closing ← readClock strict
  return { opening, closing }

/-- One history slot. -/
def readHistorySlot : Reader (AmrProgramHistorySlotProvenance T) := do
  let name ← readString
  let level ← readI32
  let slot ← readI32
  let outgoingDt ← readReal
  let initialized ← readFlag (failure "invalid history initialized tag")
  let fillCount ← readI32
  return { name, level, slot, outgoingDt, initialized, fillCount }

/-- One pending remap. -/
def readPendingRemap : Reader (AmrProgramPendingHistoryRemap T) := do
  let key ← readString
  let parentLevel ← readI32
  let childLevel ← readI32
  let priorTopologyEpoch ← readU64
  let priorMaterializationGeneration ← readU64
  let publishedTopologyEpoch ← readU64
  let publishedMaterializationGeneration ← readU64
  let acceptedMacroStep ← readI64
  let temporalNumerator ← readI64
  let temporalDenominator ← readI64
  let sourceDt ← readReal
  let targetDt ← readReal
  let consumed ← readFlag (failure "invalid pending history tag")
  return {
    key, parentLevel, childLevel, priorTopologyEpoch, priorMaterializationGeneration, publishedTopologyEpoch
    publishedMaterializationGeneration, acceptedMacroStep, temporalNumerator, temporalDenominator, sourceDt
    targetDt, consumed }

/-- The enumerations of a face fragment, from their underlying values. -/
def centeringOf (value : ℕ) : FaceLedgerCentering := if value = 0 then .face else .cell
def roleOf (value : ℕ) : FaceLedgerRole := if value = 0 then .coarse else .fine
def contributionOf (value : ℕ) : FaceLedgerContribution := if value = 0 then .numericalFlux else .source

def readFaceFragment [MetricDouble T] : Reader (FaceFluxFragment d T (List T)) := do
  let owner ← readString
  let state ← readString
  let coarse ← readI32
  let fine ← readI32
  let centering ← readU64
  Reader.lift (throwIf (centering > 1) (failure "face centering"))
  let axis ← readI32
  let face ← readIndex d
  let coarseFace ← readIndex d
  let clock ← readClock strict
  let stage ← readString
  let attempt ← readU64
  let role ← readU64
  let contribution ← readU64
  Reader.lift (throwIf (role > 1 ∨ contribution > 1) (failure "face role/contribution"))
  let stageWeight ← readRational strict
  let substepBegin ← readRational strict
  let substepEnd ← readRational strict
  let substepDuration ← readReal
  let faceMeasure ← readReal
  let payload ← readContainer 8 readReal
  let fragment : FaceFluxFragment d T (List T) := {
    key := {
      owner, state, levels := ⟨coarse, fine⟩, centering := centeringOf centering, axis, face, coarseFace, clock
      stage, attempt, role := roleOf role, contribution := contributionOf contribution }
    measure := { stageWeight, substepBegin, substepEnd, substepDuration, faceMeasure }
    payload }
  Reader.lift (validateFaceFluxFragment fragment.key fragment.measure)
  return fragment

/-- The orientation of an underlying value. -/
def orientationOf (value : ℕ) : InterfaceFluxOrientation := if value = 0 then .coarseOutward else .fineOutward

/-- `read_interface_fragment`, with the payload terms that a budget leaves. -/
def readInterfaceFragment (remaining : Option ℕ) : Reader (InterfaceFluxFragment T (List T)) := do
  let interfaceIdentity ← readString
  let topologyEpoch ← readU64
  let coarseLevel ← readI32
  let fineLevel ← readI32
  let clock ← readClock strict
  let stageIdentity ← readString
  let graphIdentity ← readString
  let rateIdentity ← readString
  let applicationIdentity ← readString
  let interval ← readClockWindow strict
  let orientation ← readU64
  Reader.lift (throwIf (orientation > 1) (failure "interface orientation"))
  let leftBlock ← readU64
  let rightBlock ← readU64
  Reader.lift (throwIf (leftBlock > sizeMax ∨ rightBlock > sizeMax) (failure "interface block identity"))
  let stageWeight ← readRational strict
  let faceMeasure ← readReal
  let substepDuration ← readReal
  let stageWeightResolved ← readFlag (failure "interface stage-weight tag")
  let payloadTerms ← readSize 8
  Reader.lift (throwIf (∃ terms ∈ remaining, payloadTerms > terms)
    (.lengthError "invalid exact AMR Program checkpoint: interface payload exceeds artifact budget"))
  let payload ← readReal.times payloadTerms
  return {
    key := {
      interfaceIdentity, topologyEpoch, coarseLevel, fineLevel, clock, stageIdentity, graphIdentity, rateIdentity
      applicationIdentity, interval, orientation := orientationOf orientation, leftBlock, rightBlock }
    measure := { stageWeight, faceMeasure, substepDuration, stageWeightResolved }
    payload }

/-- The loop over the interface fragments. -/
def readInterfaceFragments : ℕ → Option ℕ → Reader (List (InterfaceFluxFragment T (List T)))
  | 0, _ => pure []
  | count + 1, remaining => do
    let fragment ← readInterfaceFragment strict remaining
    let later ← readInterfaceFragments count (remaining.map (· - fragment.payload.length))
    return fragment :: later

/-- The interface fragments, within a budget. -/
def readInterfaceFlux (budget : Option InterfaceFluxLedgerBudget) :
    Reader (List (InterfaceFluxFragment T (List T))) := do
  let count ← readSize 256
  Reader.lift (throwIf (∃ limit ∈ budget, count > limit.maxFragmentsPerWindow)
    (.lengthError "invalid exact AMR Program checkpoint: interface fragments exceed artifact budget"))
  readInterfaceFragments strict count (budget.map (·.maxPayloadTermsPerWindow))

/-- One synchronization event. -/
def readEvent : Reader (AmrProgramSynchronizationEvent T) := do
  let parentLevel ← readI32
  let childLevel ← readI32
  let runtimeBlock ← readI32
  let phase ← readString
  let clock ← readClock strict
  return { parentLevel, childLevel, runtimeBlock, phase, clock }

/-- `expect_raw(kMagic)`. -/
def readMagic : Reader Unit := Reader.expect magic truncatedPayload (failure "unsupported magic/version")

/-- The fields that `deserialize_amr_program_accepted_state` reads. -/
def readState [MetricDouble T] (d : ℕ) (budget : Option InterfaceFluxLedgerBudget) :
    Reader (AmrProgramAcceptedState d T) := do
  readMagic
  let dimension ← readI32
  Reader.lift (throwIf (dimension ≠ d) (failure "native dimension does not match the artifact"))
  let spatialContract ← readString
  let topologyEpoch ← readU64
  let materializationGeneration ← readU64
  let levelClocks ← readContainer 40 (readClock strict)
  let logicalClockTicks ← readLogicalClocks strict
  let histories ← readContainer 64 readHistory
  let historySlots ← readContainer 48 readHistorySlot
  let pendingHistoryRemaps ← readContainer 104 readPendingRemap
  let historyFluxPayload ← readString
  let temporalPartition ← readTemporalPartition
  let taggingHysteresisState ← readString
  let fluxBudgetContract ← readString
  let couplingContract ← readString
  let acceptedFaceFlux ← (readContainer ((24 + 2 * d) * 8) (readFaceFragment strict)).axes d
  let acceptedInterfaceFlux ← readInterfaceFlux strict budget
  let synchronizationEvents ← readContainer 72 (readEvent strict)
  return {
    spatialContract, topologyEpoch, materializationGeneration, levelClocks, logicalClockTicks, histories
    historySlots, pendingHistoryRemaps, historyFluxPayload, temporalPartition, taggingHysteresisState
    fluxBudgetContract, couplingContract, acceptedFaceFlux, acceptedInterfaceFlux, synchronizationEvents }

/-- A reading of all the bytes: `finish` and `validate_state`. -/
def deserializeWith [MetricDouble T] (budget : Option InterfaceFluxLedgerBudget) (bytes : Bytes) :
    Checked (AmrProgramAcceptedState d T) := do
  let (state, left) ← readState strict d budget bytes
  throwIf (left ≠ []) (failure "trailing bytes after the accepted-state image")
  validateState state
  return state

end

/-- `deserialize_amr_program_accepted_state`. -/
def deserialize [MetricDouble T] [BitsDouble T] (budget : Option InterfaceFluxLedgerBudget) (bytes : Bytes) :
    Checked (AmrProgramAcceptedState d T) :=
  deserializeWith false budget bytes

end Pops.Checkpoint
