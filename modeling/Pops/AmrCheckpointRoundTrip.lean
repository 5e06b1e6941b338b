import Pops.AmrCheckpointProofs
import Pops.Binary64

/-!
A checkpoint is restored as it was written as long as a reader believes its
sizes, and it is the bytes of its state exactly when a strict reading accepts
it.
-/
namespace Pops.Checkpoint

variable {d : ℕ} {T : Type} {strict : Bool}

theorem LogicalClockTicks.eq_of_entries {left right : LogicalClockTicks} (same : left.entries = right.entries) :
    left = right := by
  cases left
  cases right
  simp_all

theorem emplace_last {clocks : LogicalClockTicks} {identity : Bytes} (tick : ℤ)
    (above : ∀ clock ∈ clocks.entries, clock.1 < identity) :
    ∃ next, emplace clocks identity tick = .ok next ∧ next.entries = clocks.entries ++ [(identity, tick)] := by
  refine ⟨_, dif_pos fun clock listed => (above clock listed).ne, ?_⟩
  exact OrderedMap.update_last identityLess_iff above

theorem emplace_ok {clocks next : LogicalClockTicks} {identity : Bytes} {tick : ℤ}
    (ran : emplace clocks identity tick = .ok next) :
    next.entries.length = clocks.entries.length + 1 ∧
      ∀ clock ∈ next.entries, clock = (identity, tick) ∨ clock ∈ clocks.entries := by
  unfold emplace at ran
  split at ran
  · rename_i fresh
    cases ran
    refine ⟨OrderedMap.update_length identityLess_iff fresh, fun clock listed => ?_⟩
    rcases OrderedMap.update_mem identityLess_iff listed with ⟨same, _, value⟩ | known
    · exact .inl (Prod.ext same value)
    · exact .inr known
  · cases ran

theorem writeTick_length (clock : Bytes × ℤ) : 16 ≤ (writeTick clock).length := by
  simp only [writeTick, List.flatten_cons, List.flatten_nil, List.append_nil, List.length_append, string_length,
    i64_length]
  omega

theorem ticks_restored {clocks final : LogicalClockTicks} {later : List (Bytes × ℤ)} (rest : Bytes)
    (split : final.entries = clocks.entries ++ later) (each : ∀ clock ∈ later, TickFits maxElements clock) :
    readTicks strict later.length clocks (later.flatMap writeTick ++ rest) = .ok (final, rest) := by
  induction later generalizing clocks with
  | nil =>
    rw [List.append_nil] at split
    rw [LogicalClockTicks.eq_of_entries split]
    rfl
  | cons clock later ih =>
    have ordered := final.ordered
    rw [split, List.pairwise_append] at ordered
    have above : ∀ other ∈ clocks.entries, other.1 < clock.1 :=
      fun other listed => ordered.2.2 other listed clock (by simp)
    obtain ⟨next, emplaced, entries⟩ := emplace_last clock.2 above
    have inOrder : throwIf (strict = true ∧ ∃ other ∈ clocks.entries, ¬ other.1 < clock.1) notCanonical = .ok () :=
      throwIf_of_not fun failing => failing.2.elim fun other bad => bad.2 (above other bad.1)
    have here := each clock (by simp)
    rw [List.flatMap_cons, List.append_assoc, writeTick, List.flatten_cons, List.flatten_cons, List.flatten_nil,
      List.append_nil, List.append_assoc, List.length_cons, readTicks, Reader.bind_eq,
      (codes_string : Codes strict _ _ _).restores _ here.identity, ok_bind, Reader.bind_eq,
      (codes_i64 : Codes strict _ _ _).restores _ here.tick, ok_bind, Reader.bind_lift inOrder,
      Reader.bind_lift emplaced]
    refine ih ?_ fun other listed => each other (by simp [listed])
    rw [split, entries, List.append_assoc, List.singleton_append]

theorem ticks_accepted {clocks final : LogicalClockTicks} {count : ℕ} {bytes rest : Bytes}
    (ran : readTicks strict count clocks bytes = .ok (final, rest)) :
    final.entries.length = clocks.entries.length + count ∧
      ((∀ clock ∈ clocks.entries, TickFits maxElements clock) →
        ∀ clock ∈ final.entries, TickFits maxElements clock) ∧
      (strict = true → ∃ later, later.length = count ∧ final.entries = clocks.entries ++ later ∧
        bytes = later.flatMap writeTick ++ rest) := by
  induction count generalizing clocks bytes with
  | zero =>
    cases ran
    exact ⟨rfl, id, fun _ => ⟨[], by simp⟩⟩
  | succ count ih =>
    rw [readTicks, Reader.bind_eq, bind_ok] at ran
    obtain ⟨⟨identity, afterIdentity⟩, identityRead, ran⟩ := ran
    rw [Reader.bind_eq, bind_ok] at ran
    obtain ⟨⟨tick, afterTick⟩, tickRead, ran⟩ := ran
    rw [Reader.bind_eq, bind_ok] at ran
    obtain ⟨⟨_, unmoved⟩, checked, ran⟩ := ran
    obtain ⟨inOrder, rfl⟩ := Reader.lift_ok.mp checked
    rw [Reader.bind_eq, bind_ok] at ran
    obtain ⟨⟨next, same⟩, added, ran⟩ := ran
    obtain ⟨emplaced, rfl⟩ := Reader.lift_ok.mp added
    obtain ⟨length, fits, strictly⟩ := ih ran
    obtain ⟨nextLength, nextMem⟩ := emplace_ok emplaced
    dsimp only at length
    refine ⟨by omega, fun each => fits fun clock listed => ?_, fun isStrict => ?_⟩
    · rcases nextMem clock listed with rfl | known
      · exact ⟨(codes_string : Codes true _ _ _).sound identityRead, (codes_i64 : Codes true _ _ _).sound tickRead⟩
      · exact each clock known
    · obtain ⟨later, width, split, tail⟩ := strictly isStrict
      rw [throwIf_ok] at inOrder
      have above : ∀ clock ∈ clocks.entries, clock.1 < identity := fun clock listed =>
        not_not.mp fun notBelow => inOrder ⟨isStrict, clock, listed, notBelow⟩
      obtain ⟨last, alsoEmplaced, entries⟩ := emplace_last tick above
      rw [emplaced, Except.ok.injEq] at alsoEmplaced
      subst alsoEmplaced
      have identityBytes := codes_string.written identityRead
      have tickBytes := codes_i64.written tickRead
      dsimp only at tickBytes tail
      refine ⟨(identity, tick) :: later, by rw [List.length_cons, width], ?_, ?_⟩
      · rw [split, entries, List.append_assoc, List.singleton_append]
      · rw [identityBytes, tickBytes, tail, List.flatMap_cons, writeTick, List.flatten_cons, List.flatten_cons,
          List.flatten_nil, List.append_nil, List.append_assoc, List.append_assoc]

theorem codes_logicalClocks :
    Codes strict (fun clocks : LogicalClockTicks => clocks.entries.length ≤ maxElements ∧
        ∀ clock ∈ clocks.entries, TickFits maxElements clock)
      (fun clocks => container writeTick clocks.entries) (readLogicalClocks strict) := by
  refine completes_size (fun clocks : LogicalClockTicks => clocks.entries.length) (by norm_num)
    (fun _ holds => holds.1) (fun clocks _ => ?_) fun count few => ?_
  · rw [List.flatten_cons, List.flatten_nil, List.append_nil]
    exact flatMap_length_ge writeTick_length clocks.entries
  refine ⟨fun {clocks} rest holds knows => ?_, fun {bytes clocks rest} ran => ?_⟩
  · rw [List.flatten_cons, List.flatten_nil, List.append_nil, ← knows.1]
    exact ticks_restored rest rfl holds.2
  · obtain ⟨length, fits, strictly⟩ := ticks_accepted ran
    rw [noClocks, List.length_nil, Nat.zero_add] at length
    refine ⟨⟨length.trans_le few, fits (by simp [noClocks])⟩, fun isStrict => ⟨⟨length, trivial⟩, ?_⟩⟩
    obtain ⟨later, -, split, written⟩ := strictly isStrict
    rw [noClocks, List.nil_append] at split
    rw [List.flatten_cons, List.flatten_nil, List.append_nil, split]
    exact written

section
variable [BitsDouble T]

/-- The budget that a reader is given covers the interface fragments. -/
def Affordable (budget : Option InterfaceFluxLedgerBudget) (fragments : List (InterfaceFluxFragment T (List T))) : Prop :=
  ∀ limit ∈ budget, fragments.length ≤ limit.maxFragmentsPerWindow ∧
    payloadTerms fragments ≤ limit.maxPayloadTermsPerWindow

theorem interfaceFragmentImage_length (fragment : InterfaceFluxFragment T (List T)) :
    256 ≤ (interfaceFragmentImage fragment).length := by
  simp only [interfaceFragmentImage, writeClockWindow, writeClock, writeRational, List.flatten_cons, List.flatten_nil,
    List.append_nil, List.length_append, string_length, i64_length, u64_length, real_length]
  omega

theorem writeClock_length (clock : ClockStamp T) : (writeClock clock).length = 40 := by
  simp [writeClock, writeRational]

theorem writeHistory_length (history : AmrProgramHistoryDescriptor) : 64 ≤ (writeHistory history).length := by
  simp only [writeHistory, List.flatten_cons, List.flatten_nil, List.append_nil, List.length_append, string_length,
    i64_length]
  omega

theorem writeHistorySlot_length (slot : AmrProgramHistorySlotProvenance T) : 48 ≤ (writeHistorySlot slot).length := by
  simp only [writeHistorySlot, List.flatten_cons, List.flatten_nil, List.append_nil, List.length_append, string_length,
    i64_length, u64_length, real_length]
  omega

theorem writePendingRemap_length (pending : AmrProgramPendingHistoryRemap T) :
    104 ≤ (writePendingRemap pending).length := by
  simp only [writePendingRemap, List.flatten_cons, List.flatten_nil, List.append_nil, List.length_append,
    string_length, i64_length, u64_length, real_length]
  omega

theorem writeEvent_length (event : AmrProgramSynchronizationEvent T) : 72 ≤ (writeEvent event).length := by
  simp only [writeEvent, List.flatten_cons, List.flatten_nil, List.append_nil, List.length_append, string_length,
    i64_length, writeClock_length]
  omega

theorem writeIndex_length (value : Fin d → ℤ) : (writeIndex value).length = 8 * d := by
  induction d with
  | zero => rfl
  | succ d ih =>
    rw [writeIndex, List.ofFn_succ, List.flatten_cons, List.length_append, i64_length]
    have rest := ih fun axis => value axis.succ
    rw [writeIndex] at rest
    rw [rest]
    ring

theorem faceFragmentImage_length (fragment : FaceFluxFragment d T (List T)) :
    (24 + 2 * d) * 8 ≤ (faceFragmentImage fragment).length := by
  simp only [faceFragmentImage, container, writeRational, List.flatten_cons, List.flatten_nil, List.append_nil,
    List.length_append, string_length, i64_length, u64_length, real_length, writeClock_length, writeIndex_length]
  omega

theorem codes_interfaceFlux (budget : Option InterfaceFluxLedgerBudget) :
    Codes strict (fun fragments : List (InterfaceFluxFragment T (List T)) => (fragments.length ≤ maxElements ∧
        ∀ fragment ∈ fragments, InterfaceFragmentFits maxElements fragment) ∧ Affordable budget fragments)
      (container interfaceFragmentImage) (readInterfaceFlux strict budget) := by
  refine completes_size List.length (by norm_num) (fun _ holds => holds.1.1) (fun fragments _ => ?_)
    fun count few => ?_
  · rw [List.flatten_cons, List.flatten_nil, List.append_nil]
    exact flatMap_length_ge interfaceFragmentImage_length fragments
  refine Completes.check ?_ fun passed => ?_
  · rintro fragments holds ⟨rfl, -⟩
    refine throwIf_of_not ?_
    rintro ⟨limit, given, tooMany⟩
    exact absurd (holds.2 limit given).1 (not_le.mpr tooMany)
  rw [throwIf_ok] at passed
  have all := (codes_interfaceFragments count (budget.map (·.maxPayloadTermsPerWindow)) :
    Codes strict (_ : List (InterfaceFluxFragment T (List T)) → Prop) _ _)
  refine ⟨fun rest holds knows => ?_, fun ran => ?_⟩
  · rw [List.flatten_cons, List.flatten_nil, List.append_nil]
    refine all.restores rest ⟨knows.1, holds.1.2, fun terms given => ?_⟩
    obtain ⟨limit, known, rfl⟩ := Option.mem_map.mp given
    exact (holds.2 limit known).2
  · obtain ⟨width, each, affordable⟩ := all.sound ran
    refine ⟨⟨⟨width.trans_le few, each⟩, fun limit given => ⟨?_, affordable _ (Option.mem_map_of_mem _ given)⟩⟩,
      fun isStrict => ⟨⟨width, trivial⟩, ?_⟩⟩
    · rw [width]
      exact not_lt.mp fun tooMany => passed ⟨limit, given, tooMany⟩
    · subst isStrict
      rw [List.flatten_cons, List.flatten_nil, List.append_nil]
      exact all.written ran

variable [MetricDouble T]

/-- What `write_state` writes. -/
def stateImage (state : AmrProgramAcceptedState d T) : Bytes :=
  [magic, i64 d, string state.spatialContract, u64 state.topologyEpoch, u64 state.materializationGeneration,
    container writeClock state.levelClocks, container writeTick state.logicalClockTicks.entries,
    container writeHistory state.histories, container writeHistorySlot state.historySlots,
    container writePendingRemap state.pendingHistoryRemaps, string state.historyFluxPayload,
    temporalPartitionImage state.temporalPartition, string state.taggingHysteresisState,
    string state.fluxBudgetContract, string state.couplingContract,
    (List.ofFn fun axis => container faceFragmentImage (state.acceptedFaceFlux axis)).flatten,
    container interfaceFragmentImage state.acceptedInterfaceFlux,
    container writeEvent state.synchronizationEvents].flatten

theorem codes_faces :
    Codes strict (fun faces : Fin d → List (FaceFluxFragment d T (List T)) => ∀ axis,
        (faces axis).length ≤ maxElements ∧ ∀ fragment ∈ faces axis, FaceFragmentFits maxElements fragment ∧
          validateFaceFluxFragment fragment.key fragment.measure = .ok ())
      (fun faces => (List.ofFn fun axis => container faceFragmentImage (faces axis)).flatten)
      ((readContainer ((24 + 2 * d) * 8) (readFaceFragment strict)).axes d) :=
  (codes_container codes_faceFragment (by omega) faceFragmentImage_length).axes d

theorem codes_state (dimension : d ≤ 3) (budget : Option InterfaceFluxLedgerBudget) :
    Codes strict (fun state : AmrProgramAcceptedState d T => StateFits maxElements state ∧
        TemporalPartition.validate state.temporalPartition = .ok () ∧
        (∀ axis, ∀ fragment ∈ state.acceptedFaceFlux axis,
          validateFaceFluxFragment fragment.key fragment.measure = .ok ()) ∧
        Affordable budget state.acceptedInterfaceFlux)
      stateImage (readState strict d budget) := by
  refine Completes.field (fun _ => ()) (Codes.expect magic) (fun _ _ _ => trivial) fun _ _ => ?_
  refine Completes.field (fun _ => (d : ℤ)) codes_i32
    (fun _ _ _ => by unfold FitsInt intMin intMax; omega) fun dimension _ => ?_
  refine Completes.check ?_ fun knownDimension => ?_
  · rintro state - ⟨rfl, -⟩
    exact throwIf_of_not (by simp)
  rw [throwIf_ok, ne_eq, not_not] at knownDimension
  refine Completes.field AmrProgramAcceptedState.spatialContract codes_string
    (fun _ holds _ => holds.1.spatialContract) fun contract contractFits => ?_
  refine Completes.field AmrProgramAcceptedState.topologyEpoch codes_u64
    (fun _ holds _ => holds.1.topologyEpoch) fun epoch epochFits => ?_
  refine Completes.field AmrProgramAcceptedState.materializationGeneration codes_u64
    (fun _ holds _ => holds.1.materializationGeneration) fun generation generationFits => ?_
  refine Completes.field AmrProgramAcceptedState.levelClocks
    (codes_container codes_clock (by norm_num) fun clock => (writeClock_length clock).ge)
    (fun _ holds _ => holds.1.levelClocks) fun clocks clocksFit => ?_
  refine Completes.field AmrProgramAcceptedState.logicalClockTicks codes_logicalClocks
    (fun _ holds _ => holds.1.logicalClockTicks) fun ticks ticksFit => ?_
  refine Completes.field AmrProgramAcceptedState.histories
    (codes_container codes_history (by norm_num) writeHistory_length)
    (fun _ holds _ => holds.1.histories) fun histories historiesFit => ?_
  refine Completes.field AmrProgramAcceptedState.historySlots
    (codes_container codes_historySlot (by norm_num) writeHistorySlot_length)
    (fun _ holds _ => holds.1.historySlots) fun slots slotsFit => ?_
  refine Completes.field AmrProgramAcceptedState.pendingHistoryRemaps
    (codes_container codes_pendingRemap (by norm_num) writePendingRemap_length)
    (fun _ holds _ => holds.1.pendingHistoryRemaps) fun pending pendingFit => ?_
  refine Completes.field AmrProgramAcceptedState.historyFluxPayload codes_string
    (fun _ holds _ => holds.1.historyFluxPayload) fun payload payloadFits => ?_
  refine Completes.field AmrProgramAcceptedState.temporalPartition codes_temporalPartition
    (fun _ holds _ => ⟨holds.1.temporalPartition, holds.2.1⟩) fun temporal temporalFits => ?_
  refine Completes.field AmrProgramAcceptedState.taggingHysteresisState codes_string
    (fun _ holds _ => holds.1.taggingHysteresisState) fun tagging taggingFits => ?_
  refine Completes.field AmrProgramAcceptedState.fluxBudgetContract codes_string
    (fun _ holds _ => holds.1.fluxBudgetContract) fun fluxBudget fluxBudgetFits => ?_
  refine Completes.field AmrProgramAcceptedState.couplingContract codes_string
    (fun _ holds _ => holds.1.couplingContract) fun coupling couplingFits => ?_
  refine Completes.field AmrProgramAcceptedState.acceptedFaceFlux codes_faces
    (fun _ holds _ axis => ⟨(holds.1.acceptedFaceFlux axis).1, fun fragment listed =>
      ⟨(holds.1.acceptedFaceFlux axis).2 fragment listed, holds.2.2.1 axis fragment listed⟩⟩)
    fun faces facesFit => ?_
  refine Completes.field AmrProgramAcceptedState.acceptedInterfaceFlux (codes_interfaceFlux budget)
    (fun _ holds _ => ⟨holds.1.acceptedInterfaceFlux, holds.2.2.2⟩) fun interfaces interfacesFit => ?_
  refine Completes.field AmrProgramAcceptedState.synchronizationEvents
    (codes_container codes_event (by norm_num) writeEvent_length)
    (fun _ holds _ => holds.1.synchronizationEvents) fun events eventsFit => ?_
  apply Completes.done
  · exact ⟨⟨contractFits, epochFits, generationFits, clocksFit, ticksFit, historiesFit, slotsFit, pendingFit,
      payloadFits, temporalFits.1, taggingFits, fluxBudgetFits, couplingFits,
      fun axis => ⟨(facesFit axis).1, fun fragment listed => ((facesFit axis).2 fragment listed).1⟩,
      interfacesFit.1, eventsFit⟩, temporalFits.2,
      fun axis fragment listed => ((facesFit axis).2 fragment listed).2, interfacesFit.2⟩
  · exact ⟨rfl, rfl, rfl, rfl, rfl, rfl, rfl, rfl, rfl, rfl, rfl, rfl, rfl, rfl, rfl, rfl, knownDimension.symm,
      rfl, trivial⟩
  · rintro ⟨⟩ ⟨rfl, rfl, rfl, rfl, rfl, rfl, rfl, rfl, rfl, rfl, rfl, rfl, rfl, rfl, rfl, rfl, -⟩
    rfl

private theorem checked_image {check : Checked Unit} {image bytes : Bytes} :
    (do check; return image) = Except.ok bytes ↔ check = .ok () ∧ bytes = image := by
  rw [bind_ok, unit_exists, pure_ok, eq_comm (b := bytes)]

theorem writeTemporalPartition_ok {value : CellTemporalPartitionAcceptedState} {bytes : Bytes} :
    writeTemporalPartition value = .ok bytes ↔
      TemporalPartition.validate value = .ok () ∧ bytes = temporalPartitionImage value :=
  checked_image

theorem writeFaceFragment_ok {fragment : FaceFluxFragment d T (List T)} {bytes : Bytes} :
    writeFaceFragment fragment = .ok bytes ↔
      validateFaceFluxFragment fragment.key fragment.measure = .ok () ∧ bytes = faceFragmentImage fragment :=
  checked_image

theorem writeInterfaceFragment_ok {fragment : InterfaceFluxFragment T (List T)} {bytes : Bytes} :
    writeInterfaceFragment fragment = .ok bytes ↔
      InterfaceFlux.validateFragment fragment.key fragment.measure fragment.key.topologyEpoch = .ok () ∧
        bytes = interfaceFragmentImage fragment :=
  checked_image

theorem sized_map {α : Type} (image : α → Bytes) (items : List α) : sized (items.map image) = container image items := by
  rw [sized, container, List.length_map, List.flatMap_def]

variable {state : AmrProgramAcceptedState d T}

theorem writeState_ok {bytes : Bytes} :
    writeState state = .ok bytes ↔
      (TemporalPartition.validate state.temporalPartition = .ok () ∧
        (∀ axis, ∀ fragment ∈ state.acceptedFaceFlux axis,
          validateFaceFluxFragment fragment.key fragment.measure = .ok ()) ∧
        ∀ fragment ∈ state.acceptedInterfaceFlux,
          InterfaceFlux.validateFragment fragment.key fragment.measure fragment.key.topologyEpoch = .ok ()) ∧
      bytes = stateImage state := by
  have face axis (results : List Bytes) := @mapM_ok_map _ _ _ _ _ _ (state.acceptedFaceFlux axis) results
    fun fragment _ result => @writeFaceFragment_ok _ _ _ _ fragment result
  have interfaces (results : List Bytes) := @mapM_ok_map _ _ _ _ _ _ state.acceptedInterfaceFlux results
    fun fragment _ result => @writeInterfaceFragment_ok _ _ _ fragment result
  simp only [writeState, bind_ok, pure_ok, axes_ok, writeTemporalPartition_ok, face, interfaces]
  constructor
  · rintro ⟨_, ⟨temporal, rfl⟩, faces, eachFace, _, ⟨eachInterface, rfl⟩, rfl⟩
    refine ⟨⟨temporal, fun axis => (eachFace axis).1, eachInterface⟩, ?_⟩
    have facesEq : faces = fun axis => (state.acceptedFaceFlux axis).map faceFragmentImage :=
      funext fun axis => (eachFace axis).2
    rw [stateImage, facesEq]
    simp only [sized_map]
  · rintro ⟨⟨temporal, eachFace, eachInterface⟩, rfl⟩
    refine ⟨_, ⟨temporal, rfl⟩, fun axis => (state.acceptedFaceFlux axis).map faceFragmentImage,
      fun axis => ⟨eachFace axis, rfl⟩, _, ⟨eachInterface, rfl⟩, ?_⟩
    rw [stateImage]
    simp only [sized_map]

omit [BitsDouble T] in
theorem interfaces_valid (valid : validateState state = .ok ()) :
    ∀ fragment ∈ state.acceptedInterfaceFlux,
      InterfaceFlux.validateFragment fragment.key fragment.measure fragment.key.topologyEpoch = .ok () := by
  simp only [validateState, bind_ok, unit_exists] at valid
  obtain ⟨-, -, -, -, -, _, -, _, -, -, _, -, -, -, last, ran, -⟩ := valid
  have each := foldlM_ok_invariant
    (fun done _ => ∀ fragment ∈ done,
      InterfaceFlux.validateFragment fragment.key fragment.measure state.topologyEpoch = .ok ())
    (fun done fragment previous next seen step => ?_) state.acceptedInterfaceFlux none last [] (by simp) ran
  · intro fragment listed
    have valid := each fragment (by simpa using listed)
    have epoch : fragment.key.topologyEpoch = state.topologyEpoch := by
      simp only [InterfaceFlux.validateFragment, bind_ok, unit_exists, throwIf_ok, not_not, ne_eq] at valid
      exact valid.1
    rw [epoch]
    exact valid
  · simp only [validateInterfaceFragment, bind_ok, unit_exists] at step
    intro other listed
    rcases List.mem_append.mp listed with earlier | here
    · exact seen other earlier
    · rw [List.mem_singleton.mp here]
      exact step.1

theorem serialize_ok {bytes : Bytes} :
    serialize state = .ok bytes ↔ validateState state = .ok () ∧ writeState state = .ok bytes := by
  simp only [serialize, bind_ok, unit_exists]

theorem deserializeWith_ok {budget : Option InterfaceFluxLedgerBudget} {bytes : Bytes} :
    deserializeWith strict budget bytes = .ok state ↔
      readState strict d budget bytes = .ok (state, []) ∧ validateState state = .ok () := by
  simp only [deserializeWith, bind_ok, unit_exists, throwIf_ok, pure_ok, ne_eq, not_not]
  constructor
  · rintro ⟨⟨found, left⟩, read, rfl, valid, rfl⟩
    exact ⟨read, valid⟩
  · rintro ⟨read, valid⟩
    exact ⟨(state, []), read, rfl, valid, rfl⟩

theorem restores_iff (dimension : d ≤ 3) (budget : Option InterfaceFluxLedgerBudget) {bytes : Bytes}
    (written : serialize state = .ok bytes) :
    deserializeWith strict budget bytes = .ok state ↔
      StateFits maxElements state ∧ Affordable budget state.acceptedInterfaceFlux := by
  obtain ⟨valid, ⟨⟨temporal, faces, -⟩, rfl⟩⟩ := serialize_ok.mp written |>.imp_right writeState_ok.mp
  rw [deserializeWith_ok]
  constructor
  · rintro ⟨read, -⟩
    have holds := (codes_state dimension budget).sound read
    exact ⟨holds.1, holds.2.2.2⟩
  · rintro ⟨fits, affordable⟩
    have read := (codes_state dimension budget : Codes strict _ _ _).restores [] ⟨fits, temporal, faces, affordable⟩
    rw [List.append_nil] at read
    exact ⟨read, valid⟩

/-- An accepted checkpoint is read back from its bytes as the state it was
written from, exactly when its integers fit their types and none of its
containers has more elements than a reader believes. -/
theorem checkpoint_round_trip (dimension : d ≤ 3) {state : AmrProgramAcceptedState d T} {bytes : Bytes}
    (written : serialize state = .ok bytes) : deserialize none bytes = .ok state ↔ StateFits maxElements state := by
  rw [deserialize, restores_iff dimension none written]
  refine ⟨And.left, fun fits => ⟨fits, ?_⟩⟩
  rintro _ ⟨⟩

/-! A state of two levels with a logical clock, a history and an event. -/

def zeroSeconds : Binary64 := .ofNat 0

/-- Any identity. -/
def authority : Bytes := ascii "authority"

/-- A slot of the history on one of the levels, before it is filled. -/
def emptySlot (level slot : Fin 2) : AmrProgramHistorySlotProvenance Binary64 :=
  ⟨authority, level.val, slot.val, zeroSeconds, false, 0⟩

def coarse : Fin 2 := ⟨0, Nat.two_pos⟩
def fine : Fin 2 := ⟨1, Nat.one_lt_two⟩

def smallState : AmrProgramAcceptedState 1 Binary64 where
  spatialContract := authority
  topologyEpoch := 0
  materializationGeneration := 0
  levelClocks := [⟨0, 0, .zero, zeroSeconds⟩, ⟨1, 0, .zero, zeroSeconds⟩]
  logicalClockTicks := ⟨[(authority, 3)], List.pairwise_singleton _ _⟩
  histories := [⟨authority, 0, authority, authority, authority, authority, 2, 1⟩]
  historySlots := [emptySlot coarse coarse, emptySlot coarse fine, emptySlot fine coarse, emptySlot fine fine]
  pendingHistoryRemaps := []
  historyFluxPayload := []
  temporalPartition := {}
  taggingHysteresisState := authority
  fluxBudgetContract := []
  couplingContract := []
  acceptedFaceFlux := fun _ => []
  acceptedInterfaceFlux := []
  synchronizationEvents := [⟨0, 1, 0, ascii "reflux", ⟨0, 0, .zero, zeroSeconds⟩⟩]

theorem emptySlot_fits {limit : ℕ} (room : 32 ≤ limit) (level slot : Fin 2) :
    HistorySlotFits limit (emptySlot level slot) where
  name := (by decide : authority.length ≤ 32).trans room
  level := (by decide : ∀ level : Fin 2, FitsInt level.val) level
  slot := (by decide : ∀ slot : Fin 2, FitsInt slot.val) slot
  fillCount := (by decide : FitsInt 0)

theorem smallState_fits {limit : ℕ} (room : 32 ≤ limit) : StateFits limit smallState where
  spatialContract := (by decide : smallState.spatialContract.length ≤ 32).trans room
  topologyEpoch := by decide
  materializationGeneration := by decide
  levelClocks := ⟨(by decide : smallState.levelClocks.length ≤ 32).trans room, by
    intro clock listed
    rcases List.mem_cons.mp listed with rfl | listed
    · exact ⟨by decide, by decide⟩
    · rw [List.mem_singleton.mp listed]
      exact ⟨by decide, by decide⟩⟩
  logicalClockTicks := ⟨(by decide : smallState.logicalClockTicks.entries.length ≤ 32).trans room, by
    intro clock listed
    rw [List.mem_singleton.mp listed]
    exact ⟨(by decide : authority.length ≤ 32).trans room, by decide⟩⟩
  histories := ⟨(by decide : smallState.histories.length ≤ 32).trans room, by
    have short : authority.length ≤ limit := (by decide : authority.length ≤ 32).trans room
    intro history listed
    rw [List.mem_singleton.mp listed]
    exact ⟨short, by decide, short, short, short, short, by decide, by decide⟩⟩
  historySlots := ⟨(by decide : smallState.historySlots.length ≤ 32).trans room, by
    simp only [smallState, List.forall_mem_cons, emptySlot_fits room, true_and]
    exact fun slot listed => absurd listed List.not_mem_nil⟩
  pendingHistoryRemaps := ⟨Nat.zero_le _, by simp [smallState]⟩
  historyFluxPayload := Nat.zero_le _
  temporalPartition :=
    ⟨(by decide +kernel : smallState.temporalPartition.providerIdentity.length ≤ 32).trans room, by decide, by decide,
      by decide, Nat.zero_le _, by simp [smallState]⟩
  taggingHysteresisState := (by decide : authority.length ≤ 32).trans room
  fluxBudgetContract := Nat.zero_le _
  couplingContract := Nat.zero_le _
  acceptedFaceFlux := fun _ => ⟨Nat.zero_le _, by simp [smallState]⟩
  acceptedInterfaceFlux := ⟨Nat.zero_le _, by simp [smallState]⟩
  synchronizationEvents := ⟨(by decide : smallState.synchronizationEvents.length ≤ 32).trans room, by
    intro event listed
    rw [List.mem_singleton.mp listed]
    exact ⟨by decide, by decide, by decide, (by decide : (ascii "reflux").length ≤ 32).trans room,
      ⟨by decide, by decide⟩⟩⟩

theorem smallState_serializes : ∃ bytes, serialize smallState = .ok bytes :=
  exists_of_isOk (by decide +kernel)

/-- A history, its slots and an event are read back from the bytes they were written to. -/
theorem small_checkpoint_round_trip :
    ∃ bytes, serialize smallState = .ok bytes ∧ deserialize none bytes = .ok smallState := by
  obtain ⟨bytes, written⟩ := smallState_serializes
  exact ⟨bytes, written, (checkpoint_round_trip (by norm_num) written).mpr (smallState_fits (by decide))⟩

/-- The same state with one byte more of tagging state than a reader believes. -/
def oversizedState : AmrProgramAcceptedState 1 Binary64 :=
  { smallState with taggingHysteresisState := List.replicate (maxElements + 1) (byteOf 0) }

theorem oversized_checkpoint_not_restored :
    ∃ bytes, StateFits sizeMax oversizedState ∧ serialize oversizedState = .ok bytes ∧
      deserialize none bytes ≠ .ok oversizedState := by
  obtain ⟨bytes, written⟩ := smallState_serializes
  obtain ⟨valid, wrote⟩ := serialize_ok.mp written
  obtain ⟨checked, -⟩ := writeState_ok.mp wrote
  have oversizedWritten : serialize oversizedState = .ok (stateImage oversizedState) :=
    serialize_ok.mpr ⟨valid, writeState_ok.mpr ⟨checked, rfl⟩⟩
  refine ⟨stateImage oversizedState, ?_, oversizedWritten, fun restored => ?_⟩
  · have room : (List.replicate (maxElements + 1) (byteOf 0)).length ≤ sizeMax := by
      rw [List.length_replicate]
      decide
    exact { smallState_fits (by decide) with taggingHysteresisState := room }
  · have fits := ((restores_iff (by norm_num) none oversizedWritten).mp restored).1.taggingHysteresisState
    rw [oversizedState, List.length_replicate] at fits
    exact absurd fits (Nat.not_succ_le_self maxElements)

/-- Bytes that are accepted are those of their state exactly when a strict
reading accepts them. -/
theorem checkpoint_canonical_iff (dimension : d ≤ 3) {budget : Option InterfaceFluxLedgerBudget} {bytes : Bytes}
    {state : AmrProgramAcceptedState d T} (accepted : deserialize budget bytes = .ok state) :
    serialize state = .ok bytes ↔
      ∃ same : AmrProgramAcceptedState d T, deserializeWith true budget bytes = .ok same := by
  obtain ⟨read, valid⟩ := deserializeWith_ok.mp accepted
  have holds := (codes_state dimension budget).sound read
  constructor
  · intro written
    exact ⟨state, (restores_iff dimension budget written).mpr ⟨holds.1, holds.2.2.2⟩⟩
  · rintro ⟨same, strictly⟩
    obtain ⟨strictRead, alsoValid⟩ := deserializeWith_ok.mp strictly
    have bytesEq := (codes_state dimension budget).written strictRead
    have fine := (codes_state dimension budget).sound strictRead
    rw [List.append_nil] at bytesEq
    have written : serialize same = .ok bytes :=
      serialize_ok.mpr ⟨alsoValid, writeState_ok.mpr ⟨⟨fine.2.1, fine.2.2.1, interfaces_valid alsoValid⟩, bytesEq⟩⟩
    have restored := (restores_iff dimension budget written : deserializeWith false _ _ = _ ↔ _).mpr ⟨fine.1, fine.2.2.2⟩
    rw [deserialize, restored, Except.ok.injEq] at accepted
    rw [← accepted]
    exact written

end

/-! The bytes of a state of one level, with the phase of its level clock and its
logical clocks as they are given. -/

def smallImage (phase : Bytes) (ticks : List (Bytes × ℤ)) : Bytes :=
  [magic, i64 1, string authority, u64 0, u64 0, u64 1, i64 0, i64 0, phase, real zeroSeconds,
    container writeTick ticks, u64 0, u64 0, u64 0, u64 0, temporalPartitionImage {}, u64 0, u64 0, u64 0, u64 0,
    u64 0, u64 0].flatten

/-- Reduced rationals and ordered clocks pass a strict reading, and are the bytes of their state. -/
theorem small_checkpoint_canonical_iff :
    ∃ state : AmrProgramAcceptedState 1 Binary64,
      deserialize none (smallImage (writeRational .zero) [(ascii "aft", 3), (authority, 3)]) = .ok state ∧
        serialize state = .ok (smallImage (writeRational .zero) [(ascii "aft", 3), (authority, 3)]) := by
  obtain ⟨state, accepted⟩ : ∃ state : AmrProgramAcceptedState 1 Binary64,
      deserialize none (smallImage (writeRational .zero) [(ascii "aft", 3), (authority, 3)]) = .ok state :=
    exists_of_isOk (by decide +kernel)
  exact ⟨state, accepted, (checkpoint_canonical_iff (by norm_num) accepted).mpr (exists_of_isOk (by decide +kernel))⟩

/-- Whether the state of accepted bytes is written as other bytes. -/
def rewritten (bytes : Bytes) : Checked Bool := do
  let state : AmrProgramAcceptedState 1 Binary64 ← deserialize none bytes
  let again ← serialize state
  return again ≠ bytes

/-- Bytes that are accepted, and written back as other bytes. -/
def AcceptedOtherwise (bytes : Bytes) : Prop :=
  ∃ state : AmrProgramAcceptedState 1 Binary64, deserialize none bytes = .ok state ∧ serialize state ≠ .ok bytes

theorem rewritten_ok {bytes : Bytes} (differs : rewritten bytes = .ok true) : AcceptedOtherwise bytes := by
  simp only [rewritten, bind_ok, pure_ok] at differs
  obtain ⟨state, accepted, again, written, different⟩ := differs
  refine ⟨state, accepted, fun same => ?_⟩
  rw [written, Except.ok.injEq] at same
  exact of_decide_eq_true different same

/-- The phase `0/2` and two clocks out of order are accepted. -/
theorem noncanonical_checkpoints_accepted :
    AcceptedOtherwise (smallImage [i64 0, i64 2].flatten [(authority, 3)]) ∧
      AcceptedOtherwise (smallImage (writeRational .zero) [(authority, 3), (ascii "aft", 3)]) := by
  constructor
  · exact rewritten_ok (by decide +kernel)
  · exact rewritten_ok (by decide +kernel)

end Pops.Checkpoint
