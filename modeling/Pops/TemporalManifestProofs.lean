import Pops.TemporalScheduleProofs

/-!
The manifest that a Program resolves, and its validation: the ticks of a clock
are the product of the counts up to the primary clock, and the rows are those of
the nodes, the clocks and the histories.
-/
namespace Pops.TemporalSchedule

variable {digest : Clock → Bytes} {program : Program} {manifest : ProgramSchedule}

/-- Two nodes of one clock that are subcycles have one parent and one count. -/
def Node.Agree (known node : Node) : Prop :=
  known.clock = node.clock → known.op.parent.isSome = true → node.op.parent.isSome = true →
    known.op.parent = node.op.parent

/-- The schedule of a node is one of its clock and its point. -/
def Node.Sited (node : Node) : Prop :=
  ∀ schedule ∈ node.schedule, schedule.clock = node.clock ∧ ∀ moment ∈ schedule.moment, moment = node.point

theorem admitNode_ok (seen : List Node) (node : Node) :
    admitNode seen node = .ok () ↔ node.Sited ∧ ∀ known ∈ seen, known.Agree node := by
  simp only [admitNode, bind_ok, unit_exists, throwIf_ok, not_exists, not_and, not_not, ne_eq, Node.Sited, Node.Agree]
  constructor
  · rintro ⟨agree, clocks, moments⟩
    exact ⟨fun schedule listed => ⟨clocks schedule listed, moments schedule listed⟩, agree⟩
  · rintro ⟨sited, agree⟩
    exact ⟨agree, fun schedule listed => (sited schedule listed).1, fun schedule listed => (sited schedule listed).2⟩

variable {parent : Clock} {clock : Clock} {relation : Relation}

theorem op_of_parent {op : NodeOp} {count : ℤ} (subcycle : op.parent = some (parent, count)) :
    op = .subcycle parent count := by
  cases op with
  | subcycle other times =>
    cases subcycle
    rfl
  | synchronize source relation => cases subcycle
  | other => cases subcycle

theorem mem_clocks : clock ∈ program.clocks ↔ clock = program.clock ∨
    (∃ node ∈ program.nodes, clock = node.clock ∨ node.op.related = some clock) ∨
      ∃ state ∈ program.timeStates, state.clock = clock := by
  simp only [Program.clocks, List.mem_dedup, List.mem_append, List.mem_cons, List.mem_flatMap, List.mem_map,
    Option.mem_toList, or_assoc]

theorem mem_of_parentOf {clock parent : Clock} {count : ℤ} (related : program.parentOf clock = some (parent, count)) :
    ∃ node ∈ program.nodes, node.clock = clock ∧ node.op = .subcycle parent count := by
  obtain ⟨node, listed, found⟩ := List.exists_of_findSome?_eq_some related
  split at found
  · rename_i same
    exact ⟨node, listed, same, op_of_parent found⟩
  · cases found

/-- The clocks that are visited are those of distinct nodes, so that one more call
than there are nodes is enough. -/
theorem resolve_enough (extra : ℕ) {fuel : ℕ} {visiting : List Clock} (distinct : visiting.Nodup)
    (visited : visiting ⊆ program.nodes.map (·.clock)) (enough : program.nodes.length < fuel + visiting.length) :
    program.resolve (fuel + extra) clock visiting = program.resolve fuel clock visiting := by
  induction fuel generalizing clock visiting with
  | zero =>
    have few := (distinct.subperm visited).length_le
    rw [List.length_map] at few
    omega
  | succ fuel ih =>
    rw [Nat.add_right_comm, Program.resolve, Program.resolve]
    by_cases fresh : clock ∈ visiting
    · simp only [fresh, throwIf, if_true, error_bind]
    · cases related : program.parentOf clock with
      | none => rfl
      | some relation =>
        obtain ⟨parent, count⟩ := relation
        obtain ⟨node, listed, same, -⟩ := mem_of_parentOf related
        have known : clock :: visiting ⊆ program.nodes.map (·.clock) :=
          List.cons_subset.mpr ⟨List.mem_map.mpr ⟨node, listed, same⟩, visited⟩
        have again := @ih parent (clock :: visiting) (List.nodup_cons.mpr ⟨fresh, distinct⟩) known (by rw [List.length_cons]; omega)
        simp only [again]

/-- A clock descends from the primary one, with the product of the counts. -/
inductive Descends (program : Program) : Clock → ℤ → Prop where
  | primary : Descends program program.clock 1
  | subcycle {clock parent : Clock} {count ticks : ℤ} (other : clock ≠ program.clock)
    (related : program.parentOf clock = some (parent, count)) (above : Descends program parent ticks) :
    Descends program clock (ticks * count)

theorem resolve_ok {fuel : ℕ} {visiting : List Clock} {ticks : ℤ}
    (ran : program.resolve fuel clock visiting = .ok ticks) : Descends program clock ticks := by
  induction fuel generalizing clock visiting ticks with
  | zero => cases ran
  | succ fuel ih =>
    rw [Program.resolve] at ran
    split at ran
    · rename_i same
      cases ran
      exact same ▸ .primary
    · rename_i other
      simp only [bind_ok, unit_exists, throwIf_ok] at ran
      obtain ⟨-, ran⟩ := ran
      split at ran
      · cases ran
      · rename_i parent count related
        rw [bind_ok] at ran
        obtain ⟨above, resolved, ran⟩ := ran
        cases ran
        exact .subcycle other related (ih resolved)

namespace Descends

theorem unique {first second : ℤ} (one : Descends program clock first)
    (another : Descends program clock second) : first = second := by
  induction one generalizing second with
  | primary =>
    cases another with
    | primary => rfl
    | subcycle other => exact absurd rfl other
  | subcycle other related above ih =>
    cases another with
    | primary => exact absurd rfl other
    | subcycle _ again below =>
      cases related.symm.trans again
      rw [ih below]

theorem positive {ticks : ℤ} (descends : Descends program clock ticks) : 0 < ticks := by
  induction descends with
  | primary => exact Int.one_pos
  | subcycle other related above ih =>
    obtain ⟨node, -, -, subcycle⟩ := mem_of_parentOf related
    exact Int.mul_pos ih (node.positive _ _ (by rw [subcycle]; rfl))

end Descends

/-- A history of a Program whose contract is that of a relation. -/
def Program.Keeps (program : Program) (contract : HistoryContract) (history : History) : Prop :=
  ∃ kept ∈ program.contracts.lookup history.name, kept.state = contract.state ∧ kept.space = contract.space ∧
    kept.depth = contract.depth ∧ kept.validity = contract.validity ∧ kept.interpolation = contract.interpolation ∧
    kept.clock = contract.clock

instance (contract : HistoryContract) (history : History) : Decidable (program.Keeps contract history) :=
  inferInstanceAs (Decidable (∃ kept ∈ program.contracts.lookup history.name, _))

/-- A synchronization that interpolates a history names a contract on its source
clock, and one history of the Program has that contract. -/
def RelationsHold (program : Program) : Prop :=
  ∀ node ∈ program.nodes, ∀ source relation, node.op = .synchronize source relation →
    relation.kind = ascii "history_interpolation" → ∀ contract ∈ relation.contract, contract.clock = source ∧
      (program.histories.filter fun history => program.Keeps contract history).length = 1

/-- A relation of the library, over a source on a clock: it samples and holds, or
interpolates a history of the Program that is kept on that clock. -/
inductive Provided (program : Program) (source : Clock) : Relation → Prop where
  | sampleAndHold : Provided program source sampleAndHold
  | interpolateHistory {history : History} {contract : HistoryContract} (listed : history ∈ program.histories)
    (typed : program.contracts.lookup history.name = some contract) (same : contract.clock = source) :
    Provided program source (interpolateHistory contract)

/-- What the author has checked of a relation leaves its clock and its history. -/
theorem validateSynchronizationRelationData_ok (source : SourceContext)
    (authored : validateSynchronizationRelationData relation none = .ok ()) :
    validateSynchronizationRelationData relation (some source) = .ok () ↔
      (relation.kind = ascii "history_interpolation" → ∀ contract ∈ relation.contract, contract.clock = source.clock ∧
        (source.histories.filter fun row => Retains contract source.clockId row).length = 1) := by
  unfold validateSynchronizationRelationData at authored ⊢
  simp only [bind_ok, unit_exists, throwIf_ok] at authored ⊢
  obtain ⟨kind, provider, authored⟩ := authored
  simp only [kind, provider, not_false_eq_true, true_and]
  split at authored
  · rename_i interpolates
    simp only [bind_ok, unit_exists, throwIf_ok] at authored
    obtain ⟨typed, authored⟩ := authored
    cases carried : relation.contract with
    | none =>
      rw [carried] at authored
      cases authored
    | some contract =>
      rw [carried] at authored
      simp only [bind_ok, unit_exists, throwIf_ok] at authored
      obtain ⟨complete, capability, -⟩ := authored
      simp [interpolates, typed, complete, capability, bind_ok, throwIf_ok]
  · rename_i other
    simp [other]

/-- A manifest that `build_temporal_manifest` returns, with what its rows are. -/
structure Built (digest : Clock → Bytes) (program : Program) (manifest : ProgramSchedule) : Prop where
  sited : ∀ node ∈ program.nodes, node.Sited
  agree : program.nodes.Pairwise Node.Agree
  header : manifest.schemaVersion = 1 ∧ manifest.kind = ascii "pops.temporal-program-schedule" ∧
    manifest.primaryClock = qualifiedId digest program.clock
  clocks : ∃ rows, program.clocks.mapM (program.clockData digest) = .ok rows ∧ manifest.clocks.Perm rows
  subcycles : manifest.subcycles.Perm (program.nodes.filterMap (Program.subcycleRow digest))
  synchronizations : manifest.synchronizations.Perm (program.nodes.filterMap (Program.synchronizationRow digest))
  schedules : manifest.schedules.Perm (program.nodes.filterMap Program.scheduleRow)
  histories : program.histories.mapM (program.historyRow digest) = .ok manifest.histories

theorem buildTemporalManifest_ok (ran : program.buildTemporalManifest digest = .ok manifest) :
    Built digest program manifest := by
  simp only [Program.buildTemporalManifest, bind_ok, unit_exists, throwIf_ok, pure_ok, checkEach_ok admitNode_ok] at ran
  obtain ⟨⟨sited, agree⟩, clocks, resolved, -, histories, retained, rfl⟩ := ran
  exact ⟨sited, agree, ⟨rfl, rfl, rfl⟩, ⟨clocks, resolved, List.mergeSort_perm _ _⟩, List.mergeSort_perm _ _,
    List.mergeSort_perm _ _, List.mergeSort_perm _ _, retained⟩

namespace Built

section
variable (built : Built digest program manifest)
include built

theorem clock_row (known : clock ∈ program.clocks) : ∃ row ∈ manifest.clocks,
    row.id = qualifiedId digest clock ∧ row.descriptor = clock ∧ Descends program clock row.ticksPerMacro := by
  obtain ⟨rows, resolved, same⟩ := built.clocks
  obtain ⟨row, listed, ran⟩ := exists_of_mapM_ok resolved known
  rw [Program.clockData, bind_ok] at ran
  obtain ⟨ticks, resolved, made⟩ := ran
  cases made
  exact ⟨_, same.mem_iff.mpr listed, rfl, rfl, resolve_ok resolved⟩

theorem row_clock {row : ClockRow} (listed : row ∈ manifest.clocks) : row.descriptor ∈ program.clocks ∧
    row.id = qualifiedId digest row.descriptor ∧ Descends program row.descriptor row.ticksPerMacro := by
  obtain ⟨rows, resolved, same⟩ := built.clocks
  obtain ⟨clock, known, ran⟩ := mem_of_mapM_ok resolved (same.mem_iff.mp listed)
  rw [Program.clockData, bind_ok] at ran
  obtain ⟨ticks, resolved, made⟩ := ran
  cases made
  exact ⟨known, rfl, resolve_ok resolved⟩

theorem subcycle_node {row : SubcycleRow} (listed : row ∈ manifest.subcycles) : ∃ node ∈ program.nodes,
    ∃ parent count, node.op = .subcycle parent count ∧
      row = ⟨node.id, qualifiedId digest parent, qualifiedId digest node.clock, count⟩ := by
  obtain ⟨node, known, made⟩ := List.mem_filterMap.mp (built.subcycles.mem_iff.mp listed)
  unfold Program.subcycleRow at made
  split at made
  · rename_i parent count subcycle
    cases made
    exact ⟨node, known, parent, count, subcycle, rfl⟩
  · cases made

theorem node_subcycle {node : Node} (known : node ∈ program.nodes) {count : ℤ}
    (subcycle : node.op = .subcycle parent count) :
    (⟨node.id, qualifiedId digest parent, qualifiedId digest node.clock, count⟩ : SubcycleRow) ∈ manifest.subcycles := by
  refine built.subcycles.mem_iff.mpr (List.mem_filterMap.mpr ⟨node, known, ?_⟩)
  rw [Program.subcycleRow, subcycle]

theorem synchronization_node {row : SynchronizationRow} (listed : row ∈ manifest.synchronizations) :
    ∃ node ∈ program.nodes, ∃ source relation, node.op = .synchronize source relation ∧
      row = ⟨node.id, qualifiedId digest source, qualifiedId digest node.clock, relation, node.point⟩ := by
  obtain ⟨node, known, made⟩ := List.mem_filterMap.mp (built.synchronizations.mem_iff.mp listed)
  unfold Program.synchronizationRow at made
  split at made
  · rename_i source relation synchronize
    cases made
    exact ⟨node, known, source, relation, synchronize, rfl⟩
  · cases made

theorem node_synchronization {node : Node} (known : node ∈ program.nodes) {source : Clock}
    (synchronize : node.op = .synchronize source relation) :
    (⟨node.id, qualifiedId digest source, qualifiedId digest node.clock, relation, node.point⟩ : SynchronizationRow) ∈
      manifest.synchronizations := by
  refine built.synchronizations.mem_iff.mpr (List.mem_filterMap.mpr ⟨node, known, ?_⟩)
  rw [Program.synchronizationRow, synchronize]

theorem parentOf_of_mem {node : Node} (known : node ∈ program.nodes) {count : ℤ}
    (subcycle : node.op = .subcycle parent count) : program.parentOf node.clock = some (parent, count) := by
  have symmetric : Std.Symm Node.Agree :=
    ⟨fun known node agree same first second => (agree same.symm second first).symm⟩
  have agree := List.Pairwise.forall_of_forall (fun _ _ _ _ _ => rfl) built.agree
  have relation : node.op.parent = some (parent, count) := by rw [subcycle]; rfl
  cases found : program.parentOf node.clock with
  | none =>
    have absent := List.findSome?_eq_none_iff.mp found node known
    rw [if_pos rfl, relation] at absent
    cases absent
  | some other =>
    obtain ⟨witness, listed, same, op⟩ := mem_of_parentOf found
    have known' : witness.op.parent = some other := by rw [op]; rfl
    rw [← relation, ← known']
    exact agree listed known same (by rw [known']; rfl) (by rw [relation]; rfl)

theorem nodes_apart : program.nodes.Pairwise fun known node => (known.id : ℤ) ≠ node.id ∧ known.Agree node := by
  have distinct : program.nodes.Pairwise fun known node => known.id ≠ node.id := List.pairwise_map.mp program.ids
  exact distinct.imp₂ (fun known node differ agree => ⟨Int.ofNat_inj.not.mpr differ, agree⟩) built.agree

omit built in
theorem node_clock {node : Node} (known : node ∈ program.nodes) : node.clock ∈ program.clocks :=
  mem_clocks.mpr (.inr (.inl ⟨node, known, .inl rfl⟩))

omit built in
theorem historyClock_mem {name : Bytes} (listed : clock ∈ program.historyClocks name) :
    clock ∈ program.clocks := by
  simp only [Program.historyClocks, List.mem_dedup, List.mem_append, List.mem_filterMap,
    Option.ite_none_right_eq_some, Option.some.injEq] at listed
  rcases listed with ⟨node, nodeKnown, -, rfl⟩ | ⟨state, stateKnown, -, rfl⟩
  · exact node_clock nodeKnown
  · exact mem_clocks.mpr (.inr (.inr ⟨state, stateKnown, rfl⟩))

variable (injective : Set.InjOn digest {clock | clock ∈ program.clocks})
include injective

omit built in
theorem qualifiedId_inj {first second : Clock} (known : first ∈ program.clocks) (other : second ∈ program.clocks) :
    qualifiedId digest first = qualifiedId digest second ↔ first = second :=
  ⟨fun same => injective known other (List.append_cancel_left same), fun same => by rw [same]⟩

theorem clocks_apart : manifest.clocks.Pairwise fun known row => known.id ≠ row.id := by
  obtain ⟨rows, resolved, same⟩ := built.clocks
  refine (same.pairwise_iff fun differ => differ.symm).mpr ?_
  have ids : rows.map (·.id) = program.clocks.map (qualifiedId digest) := by
    refine map_of_mapM_ok (fun clock row ran => ?_) resolved
    rw [Program.clockData, bind_ok] at ran
    obtain ⟨ticks, -, made⟩ := ran
    cases made
    rfl
  have distinct : (program.clocks.map (qualifiedId digest)).Nodup :=
    List.Nodup.map_on (fun first known second other => (qualifiedId_inj injective known other).mp)
      (List.nodup_dedup _)
  exact List.pairwise_map.mp (ids ▸ distinct)

theorem ticks_of_clock (known : clock ∈ program.clocks) : ∃ ticks,
    ticksOf manifest.clocks (qualifiedId digest clock) = some ticks ∧ Descends program clock ticks := by
  obtain ⟨row, listed, id, rfl, descends⟩ := built.clock_row known
  exact ⟨_, id ▸ ticksOf_of_mem (built.clocks_apart injective) listed, descends⟩

theorem declared (known : clock ∈ program.clocks) :
    ticksOf manifest.clocks (qualifiedId digest clock) ≠ none := by
  obtain ⟨ticks, found, -⟩ := built.ticks_of_clock injective known
  rw [found]
  exact Option.some_ne_none ticks

theorem subcycle_valid {node : Node} (known : node ∈ program.nodes) {count : ℤ}
    (subcycle : node.op = .subcycle parent count) (other : node.clock ≠ program.clock) :
    SubcycleRow.Valid manifest.clocks
      ⟨node.id, qualifiedId digest parent, qualifiedId digest node.clock, count⟩ := by
  have parentKnown : parent ∈ program.clocks :=
    mem_clocks.mpr (.inr (.inl ⟨node, known, .inr (by rw [subcycle]; rfl)⟩))
  have positive := node.positive parent count (by rw [subcycle]; rfl)
  have distinct : parent ≠ node.clock := fun same => node.distinct (by rw [subcycle, ← same]; rfl)
  obtain ⟨parentTicks, parentFound, above⟩ := built.ticks_of_clock injective parentKnown
  obtain ⟨childTicks, childFound, descends⟩ := built.ticks_of_clock injective (node_clock known)
  have product : childTicks = parentTicks * count :=
    descends.unique (.subcycle other (built.parentOf_of_mem known subcycle) above)
  refine ⟨Int.natCast_nonneg _, positive, ?_, ?_, ?_, ?_⟩
  · exact built.declared injective parentKnown
  · exact built.declared injective (node_clock known)
  · exact fun same => distinct ((qualifiedId_inj injective parentKnown (node_clock known)).mp same)
  · dsimp only
    rw [childFound, parentFound, product]
    rfl

theorem subcycles_apart : manifest.subcycles.Pairwise SubcycleRow.Apart := by
  have symmetric {known row : SubcycleRow} (apart : known.Apart row) : row.Apart known :=
    ⟨apart.1.symm, fun same => (apart.2 same.symm).imp Eq.symm Eq.symm⟩
  refine (built.subcycles.pairwise_iff symmetric).mpr (List.pairwise_filterMap.mpr ?_)
  refine built.nodes_apart.imp_of_mem fun {known node} knownListed nodeListed apart first firstMade second secondMade => ?_
  unfold Program.subcycleRow at firstMade secondMade
  split at firstMade
  · rename_i parent count subcycle
    split at secondMade
    · rename_i other times again
      cases firstMade
      cases secondMade
      refine ⟨apart.1, fun same => ?_⟩
      have clocks := (qualifiedId_inj injective (node_clock knownListed) (node_clock nodeListed)).mp same
      have relations := apart.2 clocks (by rw [subcycle]; rfl) (by rw [again]; rfl)
      rw [subcycle, again] at relations
      cases relations
      exact ⟨rfl, rfl⟩
    · cases secondMade
  · cases firstMade

omit injective in
theorem parent_row {row : ClockRow} (listed : row ∈ manifest.clocks) (other : row.id ≠ manifest.primaryClock) :
    row.id ∈ manifest.subcycles.map (·.childClock) := by
  obtain ⟨-, id, descends⟩ := built.row_clock listed
  rw [id, built.header.2.2] at other
  generalize row.descriptor = clock at id descends other
  generalize row.ticksPerMacro = ticks at descends
  cases descends with
  | primary => exact absurd rfl other
  | subcycle _ related =>
    obtain ⟨node, nodeKnown, same, subcycle⟩ := mem_of_parentOf related
    rw [id, ← same]
    exact List.mem_map_of_mem (built.node_subcycle nodeKnown subcycle)

theorem synchronizations_valid {row : SynchronizationRow} (listed : row ∈ manifest.synchronizations) :
    row.Valid manifest.clocks := by
  obtain ⟨node, known, source, relation, synchronize, rfl⟩ := built.synchronization_node listed
  have sourceKnown : source ∈ program.clocks :=
    mem_clocks.mpr (.inr (.inl ⟨node, known, .inr (by rw [synchronize]; rfl)⟩))
  have distinct : source ≠ node.clock := fun same => node.distinct (by rw [synchronize, ← same]; rfl)
  exact ⟨Int.natCast_nonneg _, built.declared injective sourceKnown, built.declared injective (node_clock known),
    fun same => distinct ((qualifiedId_inj injective sourceKnown (node_clock known)).mp same)⟩

omit injective in
theorem synchronizations_apart : manifest.synchronizations.Pairwise fun known row => known.nodeId ≠ row.nodeId := by
  refine (built.synchronizations.pairwise_iff fun differ => differ.symm).mpr (List.pairwise_filterMap.mpr ?_)
  refine built.nodes_apart.imp fun {known node} apart first firstMade second secondMade => ?_
  unfold Program.synchronizationRow at firstMade secondMade
  split at firstMade
  · split at secondMade
    · cases firstMade
      cases secondMade
      exact apart.1
    · cases secondMade
  · cases firstMade

omit injective in
theorem schedules_apart : manifest.schedules.Pairwise fun known row => known.nodeId ≠ row.nodeId := by
  refine (built.schedules.pairwise_iff fun differ => differ.symm).mpr (List.pairwise_filterMap.mpr ?_)
  refine built.nodes_apart.imp fun {known node} apart first firstMade second secondMade => ?_
  obtain ⟨one, -, rfl⟩ := Option.map_eq_some_iff.mp firstMade
  obtain ⟨another, -, rfl⟩ := Option.map_eq_some_iff.mp secondMade
  exact apart.1

theorem schedules_valid {row : ScheduleRow} (listed : row ∈ manifest.schedules) : row.Valid digest manifest.clocks := by
  obtain ⟨node, known, made⟩ := List.mem_filterMap.mp (built.schedules.mem_iff.mp listed)
  obtain ⟨schedule, present, rfl⟩ := Option.map_eq_some_iff.mp made
  refine ⟨Int.natCast_nonneg _, ?_⟩
  dsimp only
  rw [(built.sited node known schedule present).1]
  exact built.declared injective (node_clock known)

theorem history_valid {history : History} {row : HistoryRow} (ran : program.historyRow digest history = .ok row) :
    row.name = history.name ∧ row.Valid manifest.clocks := by
  unfold Program.historyRow at ran
  split at ran
  · rename_i clock alone
    simp only [bind_ok, pure_ok] at ran
    obtain ⟨⟨validity, interpolation⟩, -, rfl⟩ := ran
    have known : clock ∈ program.clocks := historyClock_mem (alone ▸ List.mem_singleton_self clock)
    exact ⟨rfl, history.named, built.declared injective known, history.positive, rfl, history.components⟩
  · cases ran

omit built in
/-- The row of a history is that of a contract exactly when the history has the contract. -/
theorem retains_iff {history : History} {row : HistoryRow} (ran : program.historyRow digest history = .ok row)
    {contract : HistoryContract} (sourceKnown : contract.clock ∈ program.clocks) :
    Retains contract (qualifiedId digest contract.clock) row ↔ program.Keeps contract history := by
  unfold Program.historyRow at ran
  split at ran
  · rename_i clock alone
    have known : clock ∈ program.clocks := historyClock_mem (alone ▸ List.mem_singleton_self clock)
    simp only [bind_ok, pure_ok, Program.historyTerms] at ran
    obtain ⟨⟨validity, interpolation⟩, terms, rfl⟩ := ran
    rw [Retains, Program.Keeps]
    cases typed : program.contracts.lookup history.name with
    | none =>
      rw [typed] at terms
      cases terms
      simp
    | some kept =>
      rw [typed] at terms
      simp only [bind_ok, unit_exists, throwIf_ok, pure_ok, not_or, not_not, ne_eq] at terms
      obtain ⟨⟨depth, rfl, state, space⟩, terms⟩ := terms
      cases terms
      simp only [← state, ← space, ← depth, Option.getD_some, Option.mem_some_iff, exists_eq_left',
        qualifiedId_inj injective known sourceKnown, Validity.interval.injEq]
  · cases ran

/-- The relation of a synchronization passes exactly when it finds its history. -/
theorem relation_iff {node : Node} (known : node ∈ program.nodes) {source : Clock}
    (synchronize : node.op = .synchronize source relation) :
    validateRelation manifest.clocks manifest.histories
        ⟨node.id, qualifiedId digest source, qualifiedId digest node.clock, relation, node.point⟩ = .ok () ↔
      (relation.kind = ascii "history_interpolation" → ∀ contract ∈ relation.contract, contract.clock = source ∧
        (program.histories.filter fun history => program.Keeps contract history).length = 1) := by
  have sourceKnown : source ∈ program.clocks :=
    mem_clocks.mpr (.inr (.inl ⟨node, known, .inr (by rw [synchronize]; rfl)⟩))
  have counts {contract : HistoryContract} (same : contract.clock = source) :
      (manifest.histories.filter fun row => Retains contract (qualifiedId digest source) row).length =
        (program.histories.filter fun history => program.Keeps contract history).length := by
    have marks : manifest.histories.map (fun row => decide (Retains contract (qualifiedId digest source) row)) =
        program.histories.map fun history => decide (program.Keeps contract history) := by
      refine map_of_mapM_ok (fun history row ran => decide_eq_decide.mpr ?_) built.histories
      exact same ▸ retains_iff injective ran (same ▸ sourceKnown)
    rw [← List.countP_eq_length_filter, ← List.countP_eq_length_filter]
    exact (List.countP_map (p := id)).symm.trans (marks ▸ List.countP_map (p := id))
  obtain ⟨row, listed, id, descriptor, -⟩ := built.clock_row sourceKnown
  have found := find_of_mem (built.clocks_apart injective) listed
  rw [id] at found
  rw [validateRelation]
  dsimp only
  rw [found]
  dsimp only
  rw [descriptor, validateSynchronizationRelationData_ok _ (node.authored source relation synchronize)]
  exact forall₃_congr fun _ _ _ => and_congr_right fun same => by rw [counts same]

/-- The manifest of a Program is accepted exactly when the primary clock is the child of no subcycle and
its relations find their histories. -/
theorem accepted_iff : Accepted digest manifest ↔
    (∀ node ∈ program.nodes, node.op.parent.isSome = true → node.clock ≠ program.clock) ∧
      RelationsHold program := by
  have primaryKnown : program.clock ∈ program.clocks := mem_clocks.mpr (.inl rfl)
  constructor
  · intro accepted
    refine ⟨fun node known subcycle same => ?_, fun node known source relation synchronize => ?_⟩
    · obtain ⟨⟨parent, count⟩, related⟩ := Option.isSome_iff_exists.mp subcycle
      have child := (accepted.children _ (built.node_subcycle known (op_of_parent related))).1
      rw [built.header.2.2, same] at child
      exact child rfl
    · exact (built.relation_iff injective known synchronize).mp
        (accepted.relations _ (built.node_synchronization known synchronize))
  · rintro ⟨children, relations⟩
    have notPrimary {node : Node} (known : node ∈ program.nodes) {parent : Clock} {count : ℤ}
        (subcycle : node.op = .subcycle parent count) : node.clock ≠ program.clock :=
      children node known (by rw [subcycle]; rfl)
    obtain ⟨version, kind, primary⟩ := built.header
    obtain ⟨primaryTicks, primaryFound, descends⟩ := built.ticks_of_clock injective primaryKnown
    obtain ⟨primaryRow, primaryListed, -⟩ := built.clock_row primaryKnown
    have names : manifest.histories.map (·.name) = program.histories.map (·.name) :=
      map_of_mapM_ok (fun history row ran => (built.history_valid injective ran).1) built.histories
    exact {
      header := ⟨version, kind, by rw [primary, qualifiedId]; simp [ascii], List.ne_nil_of_mem primaryListed⟩
      clocks := ⟨fun row listed => ⟨(built.row_clock listed).2.1, (built.row_clock listed).2.2.positive⟩,
        built.clocks_apart injective⟩
      primary := by rw [primary, primaryFound, descends.unique .primary]
      subcycles := by
        refine ⟨fun row listed => ?_, built.subcycles_apart injective⟩
        obtain ⟨node, known, parent, count, subcycle, rfl⟩ := built.subcycle_node listed
        exact built.subcycle_valid injective known subcycle (notPrimary known subcycle)
      parents := fun row listed other => built.parent_row listed other
      children := by
        intro row listed
        obtain ⟨node, known, parent, count, subcycle, rfl⟩ := built.subcycle_node listed
        obtain ⟨clock, clockListed, id, -⟩ := built.clock_row (node_clock known)
        refine ⟨fun same => notPrimary known subcycle ?_, id ▸ List.mem_map_of_mem clockListed⟩
        exact (qualifiedId_inj injective (node_clock known) primaryKnown).mp (same.trans primary)
      synchronizations := ⟨fun row listed => built.synchronizations_valid injective listed, built.synchronizations_apart⟩
      schedules := ⟨fun row listed => built.schedules_valid injective listed, built.schedules_apart⟩
      histories := by
        refine ⟨fun row listed => ?_, List.pairwise_map.mp (names ▸ program.names)⟩
        obtain ⟨history, -, ran⟩ := mem_of_mapM_ok built.histories listed
        exact (built.history_valid injective ran).2
      relations := by
        intro row listed
        obtain ⟨node, known, source, relation, synchronize, rfl⟩ := built.synchronization_node listed
        exact (built.relation_iff injective known synchronize).mpr (relations node known source relation synchronize) }

end

end Built

private theorem mem_of_lookup {name : Bytes} {contract : HistoryContract}
    (typed : program.contracts.lookup name = some contract) : (name, contract) ∈ program.contracts := by
  obtain ⟨before, after, same, -⟩ := List.lookup_eq_some_iff.mp typed
  exact same ▸ List.mem_append_right before List.mem_cons_self

/-- The relations of the library find their histories: a contract is that of one state. -/
theorem relationsHold_of_provided (provided : ∀ node ∈ program.nodes, ∀ source relation,
    node.op = .synchronize source relation → Provided program source relation) : RelationsHold program := by
  intro node known source relation synchronize kind contract carried
  cases provided node known source relation synchronize with
  | sampleAndHold => cases carried
  | @interpolateHistory history kept listed typed same =>
    cases carried
    refine ⟨same, ?_⟩
    have keeps (other : History) : program.Keeps contract other ↔ other.name = history.name := by
      constructor
      · rintro ⟨otherKept, otherTyped, state, -⟩
        exact program.states _ (mem_of_lookup otherTyped) _ (mem_of_lookup typed) state
      · exact fun name => ⟨contract, name ▸ typed, rfl, rfl, rfl, rfl, rfl, rfl⟩
    have once := List.count_eq_one_of_mem program.names (List.mem_map_of_mem listed)
    rw [List.count, List.countP_map, List.countP_eq_length_filter] at once
    rw [← once]
    refine congrArg List.length (List.filter_congr fun other _ => Bool.eq_iff_iff.mpr ?_)
    rw [decide_eq_true_iff, keeps other, Function.comp_apply, beq_iff_eq]

/-! Clocks whose names are their digests. -/

def letter (index : ℕ) : Clock := ⟨[byteOf index], none, List.cons_ne_nil _ _⟩

def nameDigest (clock : Clock) : Bytes := clock.name

/-- A subcycle of one clock in another. -/
def subcycleNode (id child parent : ℕ) (count : ℤ) (positive : 0 < count) (distinct : letter parent ≠ letter child) :
    Node where
  id := id
  clock := letter child
  point := ⟨letter child, count, []⟩
  op := .subcycle (letter parent) count
  schedule := none
  history := none
  positive := by
    rintro other times same
    cases same
    exact positive
  distinct := fun same => distinct (Option.some.inj same)
  authored := by
    rintro source relation same
    cases same

/-- The contract of a history of two accepted ticks of a clock. -/
def letterContract : HistoryContract where
  schemaVersion := 1
  owner := none
  state := ⟨ascii "state", true, []⟩
  space := ⟨ascii "state", false, []⟩
  clock := letter 1
  validity := ⟨1, ⟨letter 1, -2, []⟩, ⟨letter 1, 0, []⟩⟩
  interpolation := ⟨ascii "linear", false, []⟩
  depth := 2

/-- A history of a clock, interpolated on the primary one. -/
def interpolateNode (id : ℕ) : Node where
  id := id
  clock := letter 0
  point := ⟨letter 0, 1, []⟩
  op := .synchronize (letter 1) (interpolateHistory letterContract)
  schedule := none
  history := none
  positive := by
    rintro parent count same
    cases same
  distinct := by decide
  authored := by
    rintro source relation same
    cases same
    decide

/-- The history of the contract. -/
def letterHistory : History where
  name := [byteOf 9]
  depth := 2
  owner := none
  state := some letterContract.state
  space := some letterContract.space
  ncomp := none
  checkpointPolicy := none
  named := List.cons_ne_nil _ _
  positive := Int.natCast_pos.mpr (Nat.succ_pos 1)
  components := by
    rintro count same
    cases same

private theorem letters_differ : letter 0 ≠ letter 1 ∧ letter 1 ≠ letter 0 := by decide

/-- A clock with four ticks in each of the primary one, where its history is interpolated. -/
def nested : Program where
  clock := letter 0
  nodes := [subcycleNode 0 1 0 4 (Int.natCast_pos.mpr (Nat.succ_pos 3)) letters_differ.1, interpolateNode 1]
  timeStates := [⟨letter 1, some letterHistory.name⟩]
  histories := [letterHistory]
  contracts := [(letterHistory.name, letterContract)]
  ids := by decide
  names := List.nodup_singleton _
  states := by
    intro known listed other otherListed same
    rw [List.mem_singleton.mp listed, List.mem_singleton.mp otherListed]

/-- The primary clock and another one, each subcycled in the other. -/
def primaryChild : Program :=
  ⟨letter 0, [subcycleNode 0 1 0 2 (Int.natCast_pos.mpr (Nat.succ_pos 1)) letters_differ.1,
      subcycleNode 1 0 1 2 (Int.natCast_pos.mpr (Nat.succ_pos 1)) letters_differ.2], [], [], [],
    by decide, List.nodup_nil, fun known listed => absurd listed List.not_mem_nil⟩

/-- Two clocks that are subcycled once in each other, apart from the primary one. -/
def unitCycle : ProgramSchedule where
  schemaVersion := 1
  kind := ascii "pops.temporal-program-schedule"
  primaryClock := qualifiedId nameDigest (letter 0)
  clocks := [⟨qualifiedId nameDigest (letter 0), letter 0, 1⟩, ⟨qualifiedId nameDigest (letter 1), letter 1, 5⟩,
    ⟨qualifiedId nameDigest (letter 2), letter 2, 5⟩]
  subcycles := [⟨0, qualifiedId nameDigest (letter 1), qualifiedId nameDigest (letter 2), 1⟩,
    ⟨1, qualifiedId nameDigest (letter 2), qualifiedId nameDigest (letter 1), 1⟩]
  synchronizations := []
  schedules := []
  histories := []

end Pops.TemporalSchedule
