import Pops.AmrCheckpointCodec
import Pops.RationalProofs
import Mathlib.Tactic.IntervalCases

/-!
Every record of a checkpoint is read back as it was written, and what is read
fits the types and the sizes that a reader believes. A strict reading accepts
only what was written. The laws are those of the fields, record by record.
-/
namespace Pops.Checkpoint

variable {d : ℕ} {T : Type} {strict : Bool}

/-! ### What fits a checkpoint

The integers fit the types of the source, and no container has more than
`limit` elements. -/

structure ClockFits (clock : ClockStamp T) : Prop where
  level : FitsInt clock.level
  macroStep : FitsInt64 clock.macroStep

structure TickFits (limit : ℕ) (clock : Bytes × ℤ) : Prop where
  identity : clock.1.length ≤ limit
  tick : FitsInt64 clock.2

structure HistoryFits (limit : ℕ) (history : AmrProgramHistoryDescriptor) : Prop where
  name : history.name.length ≤ limit
  programOwner : FitsInt history.programOwner
  stateIdentity : history.stateIdentity.length ≤ limit
  spaceIdentity : history.spaceIdentity.length ≤ limit
  clockIdentity : history.clockIdentity.length ≤ limit
  interpolationIdentity : history.interpolationIdentity.length ≤ limit
  depth : FitsInt history.depth
  components : FitsInt history.components

structure HistorySlotFits (limit : ℕ) (row : AmrProgramHistorySlotProvenance T) : Prop where
  name : row.name.length ≤ limit
  level : FitsInt row.level
  slot : FitsInt row.slot
  fillCount : FitsInt row.fillCount

structure PendingRemapFits (limit : ℕ) (pending : AmrProgramPendingHistoryRemap T) : Prop where
  key : pending.key.length ≤ limit
  parentLevel : FitsInt pending.parentLevel
  childLevel : FitsInt pending.childLevel
  priorTopologyEpoch : pending.priorTopologyEpoch < 18446744073709551616
  priorMaterializationGeneration : pending.priorMaterializationGeneration < 18446744073709551616
  publishedTopologyEpoch : pending.publishedTopologyEpoch < 18446744073709551616
  publishedMaterializationGeneration : pending.publishedMaterializationGeneration < 18446744073709551616
  acceptedMacroStep : FitsInt64 pending.acceptedMacroStep
  temporalNumerator : FitsInt64 pending.temporalNumerator
  temporalDenominator : FitsInt64 pending.temporalDenominator

structure CellFits (row : CellTemporalPartitionRecord) : Prop where
  level : FitsInt row.level
  cell : row.cell < 18446744073709551616
  rung : FitsInt row.rung
  acceptedTick : FitsInt64 row.acceptedTick

structure TemporalPartitionFits (limit : ℕ) (value : CellTemporalPartitionAcceptedState) : Prop where
  providerIdentity : value.providerIdentity.length ≤ limit
  topologyEpoch : value.topologyEpoch < 18446744073709551616
  synchronizationTick : FitsInt64 value.synchronizationTick
  tickDenominator : FitsInt64 value.tickDenominator
  cells : value.cells.length ≤ limit ∧ ∀ cell ∈ value.cells, CellFits cell

structure FaceFragmentFits (limit : ℕ) (fragment : FaceFluxFragment d T (List T)) : Prop where
  owner : fragment.key.owner.length ≤ limit
  state : fragment.key.state.length ≤ limit
  coarse : FitsInt fragment.key.levels.coarse
  fine : FitsInt fragment.key.levels.fine
  axis : FitsInt fragment.key.axis
  face : ∀ axis, FitsInt (fragment.key.face axis)
  coarseFace : ∀ axis, FitsInt (fragment.key.coarseFace axis)
  clock : ClockFits fragment.key.clock
  stage : fragment.key.stage.length ≤ limit
  attempt : fragment.key.attempt < 18446744073709551616
  payload : fragment.payload.length ≤ limit

structure InterfaceFragmentFits (limit : ℕ) (fragment : InterfaceFluxFragment T (List T)) : Prop where
  interfaceIdentity : fragment.key.interfaceIdentity.length ≤ limit
  topologyEpoch : fragment.key.topologyEpoch < 18446744073709551616
  coarseLevel : FitsInt fragment.key.coarseLevel
  fineLevel : FitsInt fragment.key.fineLevel
  clock : ClockFits fragment.key.clock
  stageIdentity : fragment.key.stageIdentity.length ≤ limit
  graphIdentity : fragment.key.graphIdentity.length ≤ limit
  rateIdentity : fragment.key.rateIdentity.length ≤ limit
  applicationIdentity : fragment.key.applicationIdentity.length ≤ limit
  interval : ClockFits fragment.key.interval.opening ∧ ClockFits fragment.key.interval.closing
  leftBlock : fragment.key.leftBlock < 18446744073709551616
  rightBlock : fragment.key.rightBlock < 18446744073709551616
  payload : fragment.payload.length ≤ limit

structure EventFits (limit : ℕ) (event : AmrProgramSynchronizationEvent T) : Prop where
  parentLevel : FitsInt event.parentLevel
  childLevel : FitsInt event.childLevel
  runtimeBlock : FitsInt event.runtimeBlock
  phase : event.phase.length ≤ limit
  clock : ClockFits event.clock

structure StateFits (limit : ℕ) (state : AmrProgramAcceptedState d T) : Prop where
  spatialContract : state.spatialContract.length ≤ limit
  topologyEpoch : state.topologyEpoch < 18446744073709551616
  materializationGeneration : state.materializationGeneration < 18446744073709551616
  levelClocks : state.levelClocks.length ≤ limit ∧ ∀ clock ∈ state.levelClocks, ClockFits clock
  logicalClockTicks : state.logicalClockTicks.entries.length ≤ limit ∧
    ∀ clock ∈ state.logicalClockTicks.entries, TickFits limit clock
  histories : state.histories.length ≤ limit ∧ ∀ history ∈ state.histories, HistoryFits limit history
  historySlots : state.historySlots.length ≤ limit ∧ ∀ slot ∈ state.historySlots, HistorySlotFits limit slot
  pendingHistoryRemaps : state.pendingHistoryRemaps.length ≤ limit ∧
    ∀ pending ∈ state.pendingHistoryRemaps, PendingRemapFits limit pending
  historyFluxPayload : state.historyFluxPayload.length ≤ limit
  temporalPartition : TemporalPartitionFits limit state.temporalPartition
  taggingHysteresisState : state.taggingHysteresisState.length ≤ limit
  fluxBudgetContract : state.fluxBudgetContract.length ≤ limit
  couplingContract : state.couplingContract.length ≤ limit
  acceptedFaceFlux : ∀ axis, (state.acceptedFaceFlux axis).length ≤ limit ∧
    ∀ fragment ∈ state.acceptedFaceFlux axis, FaceFragmentFits limit fragment
  acceptedInterfaceFlux : state.acceptedInterfaceFlux.length ≤ limit ∧
    ∀ fragment ∈ state.acceptedInterfaceFlux, InterfaceFragmentFits limit fragment
  synchronizationEvents : state.synchronizationEvents.length ≤ limit ∧
    ∀ event ∈ state.synchronizationEvents, EventFits limit event

theorem create_self (value : Rational) : Rational.create value.numerator value.denominator = .ok value :=
  Rational.create_of_reduced value.numeratorFits value.positive value.denominatorFits value.reduced

theorem codes_rational : Codes strict (fun _ : Rational => True) writeRational (readRational strict) := by
  refine Completes.field Rational.numerator codes_i64 (fun value _ _ => value.numeratorFits)
    fun numerator numeratorFits => ?_
  refine Completes.field Rational.denominator codes_i64 (fun value _ _ => ?_)
    fun denominator denominatorFits => ?_
  · exact ⟨by have := value.positive; unfold int64Min; omega, value.denominatorFits⟩
  refine Completes.check ?_ fun passed => ?_
  · rintro value - ⟨rfl, rfl, -⟩
    exact throwIf_of_not fun failing => failing.2 ⟨value.positive, value.reduced⟩
  · refine Completes.last ?_ fun value created => ⟨trivial, fun isStrict => ?_⟩
    · rintro value - ⟨rfl, rfl, -⟩
      exact create_self value
    · rw [throwIf_ok, not_and, not_not] at passed
      obtain ⟨positive, reduced⟩ := passed isStrict
      rw [Rational.create_of_reduced numeratorFits positive denominatorFits.2 reduced] at created
      cases created
      exact ⟨rfl, rfl, trivial⟩

theorem codes_flag {exception : Exception} :
    Codes strict (fun _ : Bool => True) (fun flag => u64 (tag flag)) (readFlag exception) := by
  refine Codes.intro (fun flag rest _ => ?_) (fun bytes flag rest ran => ?_)
  · have passes : throwIf (tag flag > 1) exception = .ok () := throwIf_of_not (by cases flag <;> simp [tag])
    rw [readFlag, Reader.bind_eq, (codes_u64 : Codes strict _ _ _).restores rest (by cases flag <;> simp [tag]),
      ok_bind, Reader.bind_lift passes, Reader.pure_eq]
    cases flag <;> rfl
  · rw [readFlag, Reader.bind_eq, bind_ok] at ran
    obtain ⟨⟨found, middle⟩, taken, checked⟩ := ran
    rw [Reader.bind_eq, bind_ok] at checked
    obtain ⟨⟨_, after⟩, test, returned⟩ := checked
    obtain ⟨passed, rfl⟩ := Reader.lift_ok.mp test
    rw [Reader.pure_eq, Except.ok.injEq, Prod.mk.injEq] at returned
    obtain ⟨rfl, rfl⟩ := returned
    rw [throwIf_ok] at passed
    refine ⟨trivial, fun _ => ?_⟩
    have same : tag (decide (found ≠ 0)) = found := by
      unfold tag
      split
      · simp_all
        omega
      · simp_all
    dsimp only
    rw [same]
    exact codes_u64.written taken

theorem codes_index : Codes strict (fun value : Fin d → ℤ => ∀ axis, FitsInt (value axis)) writeIndex (readIndex d) :=
  codes_i32.axes d

theorem codes_history : Codes strict (HistoryFits maxElements) writeHistory readHistory := by
  refine Completes.field AmrProgramHistoryDescriptor.name codes_string (fun _ holds _ => holds.name) fun name nameFits => ?_
  refine Completes.field AmrProgramHistoryDescriptor.programOwner codes_i32 (fun _ holds _ => holds.programOwner) fun owner ownerFits => ?_
  refine Completes.field AmrProgramHistoryDescriptor.stateIdentity codes_string (fun _ holds _ => holds.stateIdentity) fun state stateFits => ?_
  refine Completes.field AmrProgramHistoryDescriptor.spaceIdentity codes_string (fun _ holds _ => holds.spaceIdentity) fun space spaceFits => ?_
  refine Completes.field AmrProgramHistoryDescriptor.clockIdentity codes_string (fun _ holds _ => holds.clockIdentity) fun clock clockFits => ?_
  refine Completes.field AmrProgramHistoryDescriptor.interpolationIdentity codes_string (fun _ holds _ => holds.interpolationIdentity)
    fun interpolation interpolationFits => ?_
  refine Completes.field AmrProgramHistoryDescriptor.depth codes_i32 (fun _ holds _ => holds.depth) fun depth depthFits => ?_
  refine Completes.field AmrProgramHistoryDescriptor.components codes_i32 (fun _ holds _ => holds.components) fun components componentsFit => ?_
  apply Completes.done (AmrProgramHistoryDescriptor.mk name owner state space clock interpolation depth components)
  · exact ⟨nameFits, ownerFits, stateFits, spaceFits, clockFits, interpolationFits, depthFits, componentsFit⟩
  · exact ⟨rfl, rfl, rfl, rfl, rfl, rfl, rfl, rfl, trivial⟩
  · rintro ⟨⟩ ⟨rfl, rfl, rfl, rfl, rfl, rfl, rfl, rfl, -⟩
    rfl

theorem codes_cell : Codes strict CellFits writeCell readCell := by
  refine Completes.field CellTemporalPartitionRecord.level codes_i32 (fun _ holds _ => holds.level) fun level levelFits => ?_
  refine Completes.field CellTemporalPartitionRecord.cell codes_u64 (fun _ holds _ => holds.cell) fun cell cellFits => ?_
  refine Completes.field CellTemporalPartitionRecord.rung codes_i32 (fun _ holds _ => holds.rung) fun rung rungFits => ?_
  refine Completes.field CellTemporalPartitionRecord.acceptedTick codes_i64 (fun _ holds _ => holds.acceptedTick) fun tick tickFits => ?_
  apply Completes.done (CellTemporalPartitionRecord.mk level cell rung tick)
  · exact ⟨levelFits, cellFits, rungFits, tickFits⟩
  · exact ⟨rfl, rfl, rfl, rfl, trivial⟩
  · rintro ⟨⟩ ⟨rfl, rfl, rfl, rfl, -⟩
    rfl

section
variable [BitsDouble T]

theorem codes_clock : Codes strict ClockFits (writeClock (T := T)) (readClock strict) := by
  refine Completes.field ClockStamp.level codes_i32 (fun _ holds _ => holds.level) fun level levelFits => ?_
  refine Completes.field ClockStamp.macroStep codes_i64 (fun _ holds _ => holds.macroStep) fun step stepFits => ?_
  refine Completes.field ClockStamp.phase codes_rational (fun _ _ _ => trivial) fun phase _ => ?_
  refine Completes.field ClockStamp.physicalTime codes_real (fun _ _ _ => trivial) fun time _ => ?_
  apply Completes.done (ClockStamp.mk level step phase time)
  · exact ⟨levelFits, stepFits⟩
  · exact ⟨rfl, rfl, rfl, rfl, trivial⟩
  · rintro ⟨⟩ ⟨rfl, rfl, rfl, rfl, -⟩
    rfl

theorem codes_window : Codes strict (fun value : ClockWindow T => ClockFits value.opening ∧ ClockFits value.closing)
    writeClockWindow (readClockWindow strict) := by
  refine Completes.field ClockWindow.opening codes_clock (fun _ holds _ => holds.1) fun opening openingFits => ?_
  refine Completes.field ClockWindow.closing codes_clock (fun _ holds _ => holds.2) fun closing closingFits => ?_
  apply Completes.done (ClockWindow.mk opening closing)
  · exact ⟨openingFits, closingFits⟩
  · exact ⟨rfl, rfl, trivial⟩
  · rintro ⟨⟩ ⟨rfl, rfl, -⟩
    rfl

theorem codes_historySlot : Codes strict (HistorySlotFits maxElements) (writeHistorySlot (T := T)) readHistorySlot := by
  refine Completes.field AmrProgramHistorySlotProvenance.name codes_string (fun _ holds _ => holds.name)
    fun name nameFits => ?_
  refine Completes.field AmrProgramHistorySlotProvenance.level codes_i32 (fun _ holds _ => holds.level)
    fun level levelFits => ?_
  refine Completes.field AmrProgramHistorySlotProvenance.slot codes_i32 (fun _ holds _ => holds.slot)
    fun slot slotFits => ?_
  refine Completes.field AmrProgramHistorySlotProvenance.outgoingDt codes_real (fun _ _ _ => trivial) fun dt _ => ?_
  refine Completes.field AmrProgramHistorySlotProvenance.initialized codes_flag (fun _ _ _ => trivial)
    fun initialized _ => ?_
  refine Completes.field AmrProgramHistorySlotProvenance.fillCount codes_i32 (fun _ holds _ => holds.fillCount)
    fun fillCount fillCountFits => ?_
  apply Completes.done (AmrProgramHistorySlotProvenance.mk name level slot dt initialized fillCount)
  · exact ⟨nameFits, levelFits, slotFits, fillCountFits⟩
  · exact ⟨rfl, rfl, rfl, rfl, rfl, rfl, trivial⟩
  · rintro ⟨⟩ ⟨rfl, rfl, rfl, rfl, rfl, rfl, -⟩
    rfl

theorem codes_pendingRemap :
    Codes strict (PendingRemapFits maxElements) (writePendingRemap (T := T)) readPendingRemap := by
  refine Completes.field AmrProgramPendingHistoryRemap.key codes_string (fun _ holds _ => holds.key)
    fun key keyFits => ?_
  refine Completes.field AmrProgramPendingHistoryRemap.parentLevel codes_i32 (fun _ holds _ => holds.parentLevel)
    fun parent parentFits => ?_
  refine Completes.field AmrProgramPendingHistoryRemap.childLevel codes_i32 (fun _ holds _ => holds.childLevel)
    fun child childFits => ?_
  refine Completes.field AmrProgramPendingHistoryRemap.priorTopologyEpoch codes_u64
    (fun _ holds _ => holds.priorTopologyEpoch) fun priorEpoch priorEpochFits => ?_
  refine Completes.field AmrProgramPendingHistoryRemap.priorMaterializationGeneration codes_u64
    (fun _ holds _ => holds.priorMaterializationGeneration) fun prior priorFits => ?_
  refine Completes.field AmrProgramPendingHistoryRemap.publishedTopologyEpoch codes_u64
    (fun _ holds _ => holds.publishedTopologyEpoch) fun publishedEpoch publishedEpochFits => ?_
  refine Completes.field AmrProgramPendingHistoryRemap.publishedMaterializationGeneration codes_u64
    (fun _ holds _ => holds.publishedMaterializationGeneration) fun published publishedFits => ?_
  refine Completes.field AmrProgramPendingHistoryRemap.acceptedMacroStep codes_i64
    (fun _ holds _ => holds.acceptedMacroStep) fun step stepFits => ?_
  refine Completes.field AmrProgramPendingHistoryRemap.temporalNumerator codes_i64
    (fun _ holds _ => holds.temporalNumerator) fun numerator numeratorFits => ?_
  refine Completes.field AmrProgramPendingHistoryRemap.temporalDenominator codes_i64
    (fun _ holds _ => holds.temporalDenominator) fun denominator denominatorFits => ?_
  refine Completes.field AmrProgramPendingHistoryRemap.sourceDt codes_real (fun _ _ _ => trivial) fun source _ => ?_
  refine Completes.field AmrProgramPendingHistoryRemap.targetDt codes_real (fun _ _ _ => trivial) fun target _ => ?_
  refine Completes.field AmrProgramPendingHistoryRemap.consumed codes_flag (fun _ _ _ => trivial) fun consumed _ => ?_
  apply Completes.done (AmrProgramPendingHistoryRemap.mk key parent child priorEpoch prior publishedEpoch published step
    numerator denominator source target consumed)
  · exact ⟨keyFits, parentFits, childFits, priorEpochFits, priorFits, publishedEpochFits, publishedFits, stepFits,
      numeratorFits, denominatorFits⟩
  · exact ⟨rfl, rfl, rfl, rfl, rfl, rfl, rfl, rfl, rfl, rfl, rfl, rfl, rfl, trivial⟩
  · rintro ⟨⟩ ⟨rfl, rfl, rfl, rfl, rfl, rfl, rfl, rfl, rfl, rfl, rfl, rfl, rfl, -⟩
    rfl

theorem codes_event : Codes strict (EventFits maxElements) (writeEvent (T := T)) (readEvent strict) := by
  refine Completes.field AmrProgramSynchronizationEvent.parentLevel codes_i32 (fun _ holds _ => holds.parentLevel)
    fun parent parentFits => ?_
  refine Completes.field AmrProgramSynchronizationEvent.childLevel codes_i32 (fun _ holds _ => holds.childLevel)
    fun child childFits => ?_
  refine Completes.field AmrProgramSynchronizationEvent.runtimeBlock codes_i32 (fun _ holds _ => holds.runtimeBlock)
    fun block blockFits => ?_
  refine Completes.field AmrProgramSynchronizationEvent.phase codes_string (fun _ holds _ => holds.phase)
    fun phase phaseFits => ?_
  refine Completes.field AmrProgramSynchronizationEvent.clock codes_clock (fun _ holds _ => holds.clock)
    fun clock clockFits => ?_
  apply Completes.done (AmrProgramSynchronizationEvent.mk parent child block phase clock)
  · exact ⟨parentFits, childFits, blockFits, phaseFits, clockFits⟩
  · exact ⟨rfl, rfl, rfl, rfl, rfl, trivial⟩
  · rintro ⟨⟩ ⟨rfl, rfl, rfl, rfl, rfl, -⟩
    rfl

end

theorem kindOf_kindValue (kind : TemporalPartitionKind) : kindOf (kindValue kind) = kind := by
  cases kind <;> rfl

theorem kindValue_kindOf {value : ℕ} (small : value ≤ 1) : kindValue (kindOf value) = value := by
  interval_cases value <;> rfl

theorem kindValue_le (kind : TemporalPartitionKind) : kindValue kind ≤ 1 := by
  cases kind <;> simp [kindValue]

theorem centeringOf_value (centering : FaceLedgerCentering) : centeringOf centering.value = centering := by
  cases centering <;> rfl

theorem roleOf_value (role : FaceLedgerRole) : roleOf role.value = role := by
  cases role <;> rfl

theorem contributionOf_value (contribution : FaceLedgerContribution) :
    contributionOf contribution.value = contribution := by
  cases contribution <;> rfl

theorem orientationOf_value (orientation : InterfaceFluxOrientation) :
    orientationOf orientation.value = orientation := by
  cases orientation <;> rfl

theorem value_centeringOf {value : ℕ} (small : value ≤ 1) : (centeringOf value).value = value := by
  interval_cases value <;> rfl

theorem value_roleOf {value : ℕ} (small : value ≤ 1) : (roleOf value).value = value := by
  interval_cases value <;> rfl

theorem value_contributionOf {value : ℕ} (small : value ≤ 1) : (contributionOf value).value = value := by
  interval_cases value <;> rfl

theorem value_orientationOf {value : ℕ} (small : value ≤ 1) : (orientationOf value).value = value := by
  interval_cases value <;> rfl

theorem centering_le (centering : FaceLedgerCentering) : centering.value ≤ 1 := by
  cases centering <;> simp [FaceLedgerCentering.value]

theorem role_le (role : FaceLedgerRole) : role.value ≤ 1 := by
  cases role <;> simp [FaceLedgerRole.value]

theorem contribution_le (contribution : FaceLedgerContribution) : contribution.value ≤ 1 := by
  cases contribution <;> simp [FaceLedgerContribution.value]

theorem orientation_le (orientation : InterfaceFluxOrientation) : orientation.value ≤ 1 := by
  cases orientation <;> simp [InterfaceFluxOrientation.value]

theorem writeCell_length (cell : CellTemporalPartitionRecord) : (writeCell cell).length = 32 := by
  simp [writeCell]

theorem codes_temporalPartition :
    Codes strict (fun value => TemporalPartitionFits maxElements value ∧ TemporalPartition.validate value = .ok ())
      temporalPartitionImage readTemporalPartition := by
  refine Completes.field (fun value : CellTemporalPartitionAcceptedState => kindValue value.kind) codes_u64
    (fun value _ _ => (kindValue_le value.kind).trans_lt (by norm_num)) fun kind _ => ?_
  refine Completes.check ?_ fun known => ?_
  · rintro value - ⟨rfl, -⟩
    exact throwIf_of_not (kindValue_le value.kind).not_gt
  rw [throwIf_ok, gt_iff_lt, not_lt] at known
  refine Completes.field CellTemporalPartitionAcceptedState.providerIdentity codes_string
    (fun _ holds _ => holds.1.providerIdentity) fun provider providerFits => ?_
  refine Completes.field CellTemporalPartitionAcceptedState.topologyEpoch codes_u64
    (fun _ holds _ => holds.1.topologyEpoch) fun epoch epochFits => ?_
  refine Completes.field CellTemporalPartitionAcceptedState.synchronizationTick codes_i64
    (fun _ holds _ => holds.1.synchronizationTick) fun tick tickFits => ?_
  refine Completes.field CellTemporalPartitionAcceptedState.tickDenominator codes_i64
    (fun _ holds _ => holds.1.tickDenominator) fun denominator denominatorFits => ?_
  refine Completes.field CellTemporalPartitionAcceptedState.cells
    (codes_container codes_cell (by decide) fun cell => (writeCell_length cell).ge)
    (fun _ holds _ => holds.1.cells) fun cells cellsFit => ?_
  refine Completes.check ?_ fun valid => ?_
  · rintro value holds ⟨rfl, rfl, rfl, rfl, rfl, rfl, -⟩
    rw [kindOf_kindValue]
    exact holds.2
  apply Completes.done
  · exact ⟨⟨providerFits, epochFits, tickFits, denominatorFits, cellsFit⟩, valid⟩
  · exact ⟨rfl, rfl, rfl, rfl, rfl, kindValue_kindOf known, trivial⟩
  · rintro ⟨⟩ ⟨rfl, rfl, rfl, rfl, rfl, rfl, -⟩
    rw [kindOf_kindValue]

section
variable [BitsDouble T]

theorem codes_reals : Codes strict (fun values : List T => values.length ≤ maxElements) (container real)
    (readContainer 8 readReal) :=
  (codes_container codes_real (by decide) fun value => (real_length value).ge).weaken
    fun values => ⟨fun holds => holds.1, fun holds => ⟨holds, fun _ _ => trivial⟩⟩

theorem codes_faceFragment [MetricDouble T] :
    Codes strict (fun fragment : FaceFluxFragment d T (List T) => FaceFragmentFits maxElements fragment ∧
        validateFaceFluxFragment fragment.key fragment.measure = .ok ())
      faceFragmentImage (readFaceFragment strict) := by
  refine Completes.field (fun fragment : FaceFluxFragment d T (List T) => fragment.key.owner) codes_string
    (fun _ holds _ => holds.1.owner) fun owner ownerFits => ?_
  refine Completes.field (fun fragment : FaceFluxFragment d T (List T) => fragment.key.state) codes_string
    (fun _ holds _ => holds.1.state) fun state stateFits => ?_
  refine Completes.field (fun fragment : FaceFluxFragment d T (List T) => fragment.key.levels.coarse) codes_i32
    (fun _ holds _ => holds.1.coarse) fun coarse coarseFits => ?_
  refine Completes.field (fun fragment : FaceFluxFragment d T (List T) => fragment.key.levels.fine) codes_i32
    (fun _ holds _ => holds.1.fine) fun fine fineFits => ?_
  refine Completes.field (fun fragment : FaceFluxFragment d T (List T) => fragment.key.centering.value) codes_u64
    (fun fragment _ _ => (centering_le fragment.key.centering).trans_lt (by norm_num)) fun centering _ => ?_
  refine Completes.check ?_ fun knownCentering => ?_
  · rintro fragment - ⟨rfl, -⟩
    exact throwIf_of_not (centering_le fragment.key.centering).not_gt
  rw [throwIf_ok, gt_iff_lt, not_lt] at knownCentering
  refine Completes.field (fun fragment : FaceFluxFragment d T (List T) => fragment.key.axis) codes_i32
    (fun _ holds _ => holds.1.axis) fun axis axisFits => ?_
  refine Completes.field (fun fragment : FaceFluxFragment d T (List T) => fragment.key.face) codes_index
    (fun _ holds _ => holds.1.face) fun face faceFits => ?_
  refine Completes.field (fun fragment : FaceFluxFragment d T (List T) => fragment.key.coarseFace) codes_index
    (fun _ holds _ => holds.1.coarseFace) fun coarseFace coarseFaceFits => ?_
  refine Completes.field (fun fragment : FaceFluxFragment d T (List T) => fragment.key.clock) codes_clock
    (fun _ holds _ => holds.1.clock) fun clock clockFits => ?_
  refine Completes.field (fun fragment : FaceFluxFragment d T (List T) => fragment.key.stage) codes_string
    (fun _ holds _ => holds.1.stage) fun stage stageFits => ?_
  refine Completes.field (fun fragment : FaceFluxFragment d T (List T) => fragment.key.attempt) codes_u64
    (fun _ holds _ => holds.1.attempt) fun attempt attemptFits => ?_
  refine Completes.field (fun fragment : FaceFluxFragment d T (List T) => fragment.key.role.value) codes_u64
    (fun fragment _ _ => (role_le fragment.key.role).trans_lt (by norm_num)) fun role _ => ?_
  refine Completes.field (fun fragment : FaceFluxFragment d T (List T) => fragment.key.contribution.value) codes_u64
    (fun fragment _ _ => (contribution_le fragment.key.contribution).trans_lt (by norm_num))
    fun contribution _ => ?_
  refine Completes.check ?_ fun knownTags => ?_
  · rintro fragment - ⟨rfl, rfl, -⟩
    have role := role_le fragment.key.role
    have contribution := contribution_le fragment.key.contribution
    exact throwIf_of_not (by omega)
  rw [throwIf_ok, not_or, gt_iff_lt, not_lt, gt_iff_lt, not_lt] at knownTags
  refine Completes.field (fun fragment : FaceFluxFragment d T (List T) => fragment.measure.stageWeight)
    codes_rational (fun _ _ _ => trivial) fun weight _ => ?_
  refine Completes.field (fun fragment : FaceFluxFragment d T (List T) => fragment.measure.substepBegin)
    codes_rational (fun _ _ _ => trivial) fun opening _ => ?_
  refine Completes.field (fun fragment : FaceFluxFragment d T (List T) => fragment.measure.substepEnd)
    codes_rational (fun _ _ _ => trivial) fun closing _ => ?_
  refine Completes.field (fun fragment : FaceFluxFragment d T (List T) => fragment.measure.substepDuration)
    codes_real (fun _ _ _ => trivial) fun duration _ => ?_
  refine Completes.field (fun fragment : FaceFluxFragment d T (List T) => fragment.measure.faceMeasure)
    codes_real (fun _ _ _ => trivial) fun measure _ => ?_
  refine Completes.field (fun fragment : FaceFluxFragment d T (List T) => fragment.payload) codes_reals
    (fun _ holds _ => holds.1.payload) fun payload payloadFits => ?_
  refine Completes.check ?_ fun valid => ?_
  · rintro fragment holds ⟨rfl, rfl, rfl, rfl, rfl, rfl, rfl, rfl, rfl, rfl, rfl, rfl, rfl, rfl, rfl, rfl, rfl, rfl,
      rfl, -⟩
    rw [centeringOf_value, roleOf_value, contributionOf_value]
    exact holds.2
  apply Completes.done
  · exact ⟨⟨ownerFits, stateFits, coarseFits, fineFits, axisFits, faceFits, coarseFaceFits, clockFits, stageFits,
      attemptFits, payloadFits⟩, valid⟩
  · exact ⟨rfl, rfl, rfl, rfl, rfl, rfl, value_contributionOf knownTags.2, value_roleOf knownTags.1, rfl, rfl, rfl,
      rfl, rfl, rfl, value_centeringOf knownCentering, rfl, rfl, rfl, rfl, trivial⟩
  · rintro ⟨⟨⟩, ⟨⟩, _⟩ ⟨rfl, rfl, rfl, rfl, rfl, rfl, rfl, rfl, rfl, rfl, rfl, rfl, rfl, rfl, rfl, rfl, rfl, rfl,
      rfl, -⟩
    rw [centeringOf_value, roleOf_value, contributionOf_value]

theorem codes_interfaceFragment (remaining : Option ℕ) :
    Codes strict (fun fragment : InterfaceFluxFragment T (List T) => InterfaceFragmentFits maxElements fragment ∧
        ∀ terms ∈ remaining, fragment.payload.length ≤ terms)
      interfaceFragmentImage (readInterfaceFragment strict remaining) := by
  refine Completes.field (fun fragment : InterfaceFluxFragment T (List T) => fragment.key.interfaceIdentity)
    codes_string (fun _ holds _ => holds.1.interfaceIdentity) fun identity identityFits => ?_
  refine Completes.field (fun fragment : InterfaceFluxFragment T (List T) => fragment.key.topologyEpoch) codes_u64
    (fun _ holds _ => holds.1.topologyEpoch) fun epoch epochFits => ?_
  refine Completes.field (fun fragment : InterfaceFluxFragment T (List T) => fragment.key.coarseLevel) codes_i32
    (fun _ holds _ => holds.1.coarseLevel) fun coarse coarseFits => ?_
  refine Completes.field (fun fragment : InterfaceFluxFragment T (List T) => fragment.key.fineLevel) codes_i32
    (fun _ holds _ => holds.1.fineLevel) fun fine fineFits => ?_
  refine Completes.field (fun fragment : InterfaceFluxFragment T (List T) => fragment.key.clock) codes_clock
    (fun _ holds _ => holds.1.clock) fun clock clockFits => ?_
  refine Completes.field (fun fragment : InterfaceFluxFragment T (List T) => fragment.key.stageIdentity)
    codes_string (fun _ holds _ => holds.1.stageIdentity) fun stage stageFits => ?_
  refine Completes.field (fun fragment : InterfaceFluxFragment T (List T) => fragment.key.graphIdentity)
    codes_string (fun _ holds _ => holds.1.graphIdentity) fun graph graphFits => ?_
  refine Completes.field (fun fragment : InterfaceFluxFragment T (List T) => fragment.key.rateIdentity)
    codes_string (fun _ holds _ => holds.1.rateIdentity) fun rate rateFits => ?_
  refine Completes.field (fun fragment : InterfaceFluxFragment T (List T) => fragment.key.applicationIdentity)
    codes_string (fun _ holds _ => holds.1.applicationIdentity) fun application applicationFits => ?_
  refine Completes.field (fun fragment : InterfaceFluxFragment T (List T) => fragment.key.interval) codes_window
    (fun _ holds _ => holds.1.interval) fun interval intervalFits => ?_
  refine Completes.field (fun fragment : InterfaceFluxFragment T (List T) => fragment.key.orientation.value) codes_u64
    (fun fragment _ _ => (orientation_le fragment.key.orientation).trans_lt (by norm_num)) fun orientation _ => ?_
  refine Completes.check ?_ fun knownOrientation => ?_
  · rintro fragment - ⟨rfl, -⟩
    exact throwIf_of_not (orientation_le fragment.key.orientation).not_gt
  rw [throwIf_ok, gt_iff_lt, not_lt] at knownOrientation
  refine Completes.field (fun fragment : InterfaceFluxFragment T (List T) => fragment.key.leftBlock) codes_u64
    (fun _ holds _ => holds.1.leftBlock) fun left leftFits => ?_
  refine Completes.field (fun fragment : InterfaceFluxFragment T (List T) => fragment.key.rightBlock) codes_u64
    (fun _ holds _ => holds.1.rightBlock) fun right rightFits => ?_
  refine Completes.check (fun _ _ _ => throwIf_of_not (by unfold sizeMax; omega)) fun _ => ?_
  refine Completes.field (fun fragment : InterfaceFluxFragment T (List T) => fragment.measure.stageWeight)
    codes_rational (fun _ _ _ => trivial) fun weight _ => ?_
  refine Completes.field (fun fragment : InterfaceFluxFragment T (List T) => fragment.measure.faceMeasure)
    codes_real (fun _ _ _ => trivial) fun measure _ => ?_
  refine Completes.field (fun fragment : InterfaceFluxFragment T (List T) => fragment.measure.substepDuration)
    codes_real (fun _ _ _ => trivial) fun duration _ => ?_
  refine Completes.field (fun fragment : InterfaceFluxFragment T (List T) => fragment.measure.stageWeightResolved)
    codes_flag (fun _ _ _ => trivial) fun resolved _ => ?_
  refine completes_size (fun fragment : InterfaceFluxFragment T (List T) => fragment.payload.length) (by norm_num)
    (fun _ holds => holds.1.payload) (fun fragment _ => ?_) fun terms few => ?_
  · rw [List.flatten_cons, List.flatten_nil, List.append_nil]
    exact (flatMap_length_ge (fun value => (real_length value).ge) fragment.payload)
  refine Completes.check ?_ fun affordable => ?_
  · rintro fragment holds ⟨rfl, -⟩
    refine throwIf_of_not ?_
    rintro ⟨terms, given, tooMany⟩
    exact absurd (holds.2 terms given) (not_le.mpr tooMany)
  rw [throwIf_ok] at affordable
  refine Completes.field (fun fragment : InterfaceFluxFragment T (List T) => fragment.payload)
    (codes_real.times terms) (fun _ _ knows => ⟨knows.1, fun _ _ => trivial⟩) fun payload payloadFits => ?_
  apply Completes.done
  · refine ⟨⟨identityFits, epochFits, coarseFits, fineFits, clockFits, stageFits, graphFits, rateFits,
      applicationFits, intervalFits, leftFits, rightFits, payloadFits.1.trans_le few⟩, fun terms given => ?_⟩
    rw [payloadFits.1]
    exact not_lt.mp fun tooMany => affordable ⟨terms, given, tooMany⟩
  · exact ⟨rfl, payloadFits.1, rfl, rfl, rfl, rfl, rfl, rfl, value_orientationOf knownOrientation, rfl, rfl, rfl, rfl,
      rfl, rfl, rfl, rfl, rfl, rfl, trivial⟩
  · rintro ⟨⟨⟩, ⟨⟩, _⟩ ⟨rfl, -, rfl, rfl, rfl, rfl, rfl, rfl, rfl, rfl, rfl, rfl, rfl, rfl, rfl, rfl, rfl, rfl,
      rfl, -⟩
    rw [orientationOf_value]

/-- The terms that a list of fragments takes. -/
def payloadTerms (fragments : List (InterfaceFluxFragment T (List T))) : ℕ :=
  (fragments.map fun fragment => fragment.payload.length).sum

theorem codes_interfaceFragments (count : ℕ) (remaining : Option ℕ) :
    Codes strict (fun fragments : List (InterfaceFluxFragment T (List T)) => fragments.length = count ∧
        (∀ fragment ∈ fragments, InterfaceFragmentFits maxElements fragment) ∧
        ∀ terms ∈ remaining, payloadTerms fragments ≤ terms)
      (fun fragments => fragments.flatMap interfaceFragmentImage) (readInterfaceFragments strict count remaining) := by
  induction count generalizing remaining with
  | zero =>
    refine Codes.intro (fun fragments rest holds => ?_) (fun bytes fragments rest ran => ?_)
    · rw [List.length_eq_zero_iff.mp holds.1]
      rfl
    · cases ran
      simp [payloadTerms]
  | succ count ih =>
    refine Codes.intro (fun fragments rest holds => ?_) (fun bytes fragments rest ran => ?_)
    · obtain ⟨width, each, affordable⟩ := holds
      cases fragments with
      | nil => cases width
      | cons first later =>
        simp only [payloadTerms, List.map_cons, List.sum_cons] at affordable
        have laterAffordable : ∀ terms ∈ remaining.map (· - first.payload.length), payloadTerms later ≤ terms := by
          intro terms given
          obtain ⟨whole, known, rfl⟩ := Option.mem_map.mp given
          have := affordable whole known
          unfold payloadTerms
          omega
        rw [List.flatMap_cons, List.append_assoc, readInterfaceFragments, Reader.bind_eq,
          (codes_interfaceFragment remaining).restores _ ⟨each first (by simp), fun terms given =>
            (Nat.le_add_right _ _).trans (affordable terms given)⟩, ok_bind, Reader.bind_eq,
          (ih _).restores _ ⟨Nat.succ.inj width, fun fragment listed => each fragment (by simp [listed]),
            laterAffordable⟩, ok_bind]
        rfl
    · simp only [readInterfaceFragments, Reader.bind_eq, bind_ok, Reader.pure_eq, Except.ok.injEq] at ran
      obtain ⟨⟨first, middle⟩, here, ⟨later, after⟩, there, same⟩ := ran
      cases same
      obtain ⟨firstFits, firstAffordable⟩ := (codes_interfaceFragment remaining).sound here
      obtain ⟨width, each, affordable⟩ := (ih _).sound there
      refine ⟨⟨by rw [List.length_cons, width], ?_, fun terms given => ?_⟩, fun isStrict => ?_⟩
      · intro fragment listed
        rcases List.mem_cons.mp listed with rfl | deeper
        · exact firstFits
        · exact each fragment deeper
      · have room := affordable (terms - first.payload.length) (Option.mem_map_of_mem _ given)
        have head := firstAffordable terms given
        simp only [payloadTerms, List.map_cons, List.sum_cons] at room ⊢
        omega
      · subst isStrict
        have tail := (ih _).written there
        dsimp only at tail
        rw [(codes_interfaceFragment remaining).written here, tail, List.flatMap_cons, List.append_assoc]

end

end Pops.Checkpoint
