import Mathlib.Data.List.Pairwise
import Pops.TemporalSchedule

/-!
A validated schedule describes a tree of clocks exactly when no relations whose
counts are all one form a cycle: the ticks grow from a parent to a child by the
count, so that no other cycle is consistent. The manifest of a Program is
validated exactly when its primary clock is nobody's child and its relations
find their histories.
-/
namespace Pops.TemporalSchedule

variable {digest : Clock → Bytes} {clocks : List ClockRow} {data : ProgramSchedule}

theorem validateNode_ok {seen : List ℤ} {nodeId : ℤ} :
    validateNode seen nodeId = .ok () ↔ 0 ≤ nodeId ∧ nodeId ∉ seen := by
  simp only [validateNode, bind_ok, unit_exists, throwIf_ok, not_lt]

/-- A row of `clocks` that passes on its own. -/
def ClockRow.Valid (digest : Clock → Bytes) (row : ClockRow) : Prop :=
  row.id = qualifiedId digest row.descriptor ∧ 0 < row.ticksPerMacro

/-- A row of `subcycles` that passes on its own. -/
def SubcycleRow.Valid (clocks : List ClockRow) (row : SubcycleRow) : Prop :=
  0 ≤ row.nodeId ∧ 0 < row.count ∧ ticksOf clocks row.parentClock ≠ none ∧ ticksOf clocks row.childClock ≠ none ∧
    row.parentClock ≠ row.childClock ∧
    ticksOf clocks row.childClock = (ticksOf clocks row.parentClock).map (· * row.count)

/-- Two rows of `subcycles` that pass together. -/
def SubcycleRow.Apart (known row : SubcycleRow) : Prop :=
  known.nodeId ≠ row.nodeId ∧
    (known.childClock = row.childClock → known.parentClock = row.parentClock ∧ known.count = row.count)

/-- A row of `synchronizations` that passes on its own. -/
def SynchronizationRow.Valid (clocks : List ClockRow) (row : SynchronizationRow) : Prop :=
  0 ≤ row.nodeId ∧ ticksOf clocks row.sourceClock ≠ none ∧ ticksOf clocks row.targetClock ≠ none ∧
    row.sourceClock ≠ row.targetClock

/-- A row of `schedules` that passes on its own. -/
def ScheduleRow.Valid (digest : Clock → Bytes) (clocks : List ClockRow) (row : ScheduleRow) : Prop :=
  0 ≤ row.nodeId ∧ ticksOf clocks (qualifiedId digest row.clock) ≠ none

/-- A row of `histories` that passes on its own. -/
def HistoryRow.Valid (clocks : List ClockRow) (row : HistoryRow) : Prop :=
  row.name ≠ [] ∧ ticksOf clocks row.clock ≠ none ∧ 0 < row.depth ∧ row.ringSlots = row.depth + 1 ∧
    ∀ ncomp ∈ row.ncomp, 0 < ncomp

theorem not_mem_keys {α κ : Type} {key : α → κ} {seen : List α} {item : κ} :
    item ∉ seen.map key ↔ ∀ known ∈ seen, key known ≠ item := by
  rw [List.mem_map]
  exact ⟨fun fresh known listed same => fresh ⟨known, listed, same⟩,
    fun fresh ⟨known, listed, same⟩ => fresh known listed same⟩

theorem validateClock_ok (seen : List ClockRow) (row : ClockRow) :
    validateClock digest seen row = .ok () ↔ row.Valid digest ∧ ∀ known ∈ seen, known.id ≠ row.id := by
  simp only [validateClock, bind_ok, unit_exists, throwIf_ok, not_not, not_le, not_mem_keys, ne_eq, ClockRow.Valid]
  tauto

theorem validateSubcycle_ok (seen : List SubcycleRow) (row : SubcycleRow) :
    validateSubcycle clocks seen row = .ok () ↔ row.Valid clocks ∧ ∀ known ∈ seen, known.Apart row := by
  have apart : (∀ known ∈ seen, known.Apart row) ↔ (∀ known ∈ seen, known.nodeId ≠ row.nodeId) ∧
      ¬ ∃ known ∈ seen, known.childClock = row.childClock ∧
        ¬ (known.parentClock = row.parentClock ∧ known.count = row.count) := by
    constructor
    · exact fun all => ⟨fun known listed => (all known listed).1,
        fun ⟨known, listed, same, differ⟩ => differ ((all known listed).2 same)⟩
    · exact fun ⟨nodes, agree⟩ known listed => ⟨nodes known listed, fun same =>
        not_not.mp fun differ => agree ⟨known, listed, same, differ⟩⟩
  rw [apart]
  simp only [validateSubcycle, validateNode_ok, bind_ok, unit_exists, throwIf_ok, not_not, not_le, not_mem_keys,
    not_or, ne_eq, SubcycleRow.Valid]
  tauto

theorem validateSynchronization_ok (seen : List SynchronizationRow) (row : SynchronizationRow) :
    validateSynchronization clocks seen row = .ok () ↔
      row.Valid clocks ∧ ∀ known ∈ seen, known.nodeId ≠ row.nodeId := by
  simp only [validateSynchronization, validateNode_ok, bind_ok, unit_exists, throwIf_ok, not_mem_keys, not_or, ne_eq,
    SynchronizationRow.Valid]
  tauto

theorem validateSchedule_ok (seen : List ScheduleRow) (row : ScheduleRow) :
    validateSchedule digest clocks seen row = .ok () ↔
      row.Valid digest clocks ∧ ∀ known ∈ seen, known.nodeId ≠ row.nodeId := by
  simp only [validateSchedule, validateNode_ok, bind_ok, unit_exists, throwIf_ok, not_mem_keys, ne_eq,
    ScheduleRow.Valid]
  tauto

theorem validateHistory_ok (seen : List HistoryRow) (row : HistoryRow) :
    validateHistory clocks seen row = .ok () ↔ row.Valid clocks ∧ ∀ known ∈ seen, known.name ≠ row.name := by
  simp only [validateHistory, bind_ok, unit_exists, throwIf_ok, not_mem_keys, not_or, not_not, not_exists, not_and,
    not_le, ne_eq, HistoryRow.Valid]
  tauto

/-- A schedule that `_validate_program_schedule` accepts. -/
structure Accepted (digest : Clock → Bytes) (data : ProgramSchedule) : Prop where
  header : data.schemaVersion = 1 ∧ data.kind = ascii "pops.temporal-program-schedule" ∧ data.primaryClock ≠ [] ∧
    data.clocks ≠ []
  clocks : (∀ row ∈ data.clocks, row.Valid digest) ∧ data.clocks.Pairwise fun known row => known.id ≠ row.id
  primary : ticksOf data.clocks data.primaryClock = some 1
  subcycles : (∀ row ∈ data.subcycles, row.Valid data.clocks) ∧ data.subcycles.Pairwise SubcycleRow.Apart
  parents : ∀ row ∈ data.clocks, row.id ≠ data.primaryClock → row.id ∈ data.subcycles.map (·.childClock)
  children : ∀ row ∈ data.subcycles, row.childClock ≠ data.primaryClock ∧ row.childClock ∈ data.clocks.map (·.id)
  synchronizations : (∀ row ∈ data.synchronizations, row.Valid data.clocks) ∧
    data.synchronizations.Pairwise fun known row => known.nodeId ≠ row.nodeId
  schedules : (∀ row ∈ data.schedules, row.Valid digest data.clocks) ∧
    data.schedules.Pairwise fun known row => known.nodeId ≠ row.nodeId
  histories : (∀ row ∈ data.histories, row.Valid data.clocks) ∧
    data.histories.Pairwise fun known row => known.name ≠ row.name
  relations : ∀ row ∈ data.synchronizations, validateRelation data.clocks data.histories row = .ok ()

theorem validateProgramSchedule_ok : validateProgramSchedule digest data = .ok () ↔ Accepted digest data := by
  have relations : checkEach (fun _ => validateRelation data.clocks data.histories) [] data.synchronizations = .ok () ↔
      ∀ row ∈ data.synchronizations, validateRelation data.clocks data.histories row = .ok () := by
    have alone := @checkEach_ok _ _ (fun _ => validateRelation data.clocks data.histories)
      (fun row => validateRelation data.clocks data.histories row = .ok ()) (fun _ _ => True)
      (fun seen row => (and_iff_left fun _ _ => trivial).symm) data.synchronizations
    exact alone.trans (and_iff_left (List.pairwise_of_forall fun _ _ => trivial))
  simp only [validateProgramSchedule, bind_ok, unit_exists, throwIf_ok, checkEach_ok validateClock_ok,
    checkEach_ok validateSubcycle_ok, checkEach_ok validateSynchronization_ok, checkEach_ok validateSchedule_ok,
    checkEach_ok validateHistory_ok, relations, not_or, not_not, not_exists, not_and, ne_eq]
  constructor
  · rintro ⟨⟨version, kind⟩, primaryNamed, some, clocks, primary, subcycles, ⟨parents, children⟩, synchronizations,
      schedules, histories, relations⟩
    exact ⟨⟨version, kind, primaryNamed, some⟩, clocks, primary, subcycles, parents, children, synchronizations,
      schedules, histories, relations⟩
  · rintro ⟨⟨version, kind, primaryNamed, some⟩, clocks, primary, subcycles, parents, children, synchronizations,
      schedules, histories, relations⟩
    exact ⟨⟨version, kind⟩, primaryNamed, some, clocks, primary, subcycles, ⟨parents, children⟩, synchronizations,
      schedules, histories, relations⟩

theorem find_of_mem (distinct : clocks.Pairwise fun known row => known.id ≠ row.id) {row : ClockRow}
    (listed : row ∈ clocks) : (clocks.find? fun other => other.id = row.id) = some row := by
  induction clocks with
  | nil => cases listed
  | cons first later ih =>
    obtain ⟨fresh, distinct⟩ := List.pairwise_cons.mp distinct
    rcases List.mem_cons.mp listed with rfl | listed
    · simp
    · rw [List.find?_cons_of_neg (by simpa using fresh row listed)]
      exact ih distinct listed

theorem ticksOf_of_mem (distinct : clocks.Pairwise fun known row => known.id ≠ row.id) {row : ClockRow}
    (listed : row ∈ clocks) : ticksOf clocks row.id = some row.ticksPerMacro := by
  rw [ticksOf, find_of_mem distinct listed, Option.map_some]

theorem mem_of_ticksOf {id : Bytes} (declared : ticksOf clocks id ≠ none) : ∃ row ∈ clocks, row.id = id := by
  cases found : clocks.find? fun row => row.id = id with
  | none =>
    rw [ticksOf, found] at declared
    exact absurd rfl declared
  | some row => exact ⟨row, List.mem_of_find?_eq_some found, by simpa using List.find?_some found⟩

/-- A clock is subcycled by another one. -/
def Above (data : ProgramSchedule) (child parent : Bytes) : Prop :=
  ∃ row ∈ data.subcycles, row.childClock = child ∧ row.parentClock = parent

/-- A clock is subcycled by another one, once in each of its ticks. -/
def AboveOnce (data : ProgramSchedule) (child parent : Bytes) : Prop :=
  ∃ row ∈ data.subcycles, row.childClock = child ∧ row.parentClock = parent ∧ row.count = 1

/-- A chain of relations from a clock to the primary one, with the product of their counts. -/
inductive Chain (data : ProgramSchedule) : Bytes → ℤ → Prop where
  | primary : Chain data data.primaryClock 1
  | subcycle {row : SubcycleRow} {ticks : ℤ} (listed : row ∈ data.subcycles) (parent : Chain data row.parentClock ticks) :
    Chain data row.childClock (ticks * row.count)

/-- The relations form a tree rooted at the primary clock, and the ticks of every
clock are the product of the counts on its chain. -/
structure ClockTree (data : ProgramSchedule) : Prop where
  root : ∀ row ∈ data.subcycles, row.childClock ≠ data.primaryClock
  unique : ∀ row ∈ data.subcycles, ∀ other ∈ data.subcycles, row.childClock = other.childClock →
    row.parentClock = other.parentClock ∧ row.count = other.count
  acyclic : ∀ clock, ¬ Relation.TransGen (Above data) clock clock
  chains : ∀ row ∈ data.clocks, Chain data row.id row.ticksPerMacro

namespace Accepted

/-- The ticks of a clock, and none of one that is not declared. -/
def ticks (data : ProgramSchedule) (clock : Bytes) : ℤ := (ticksOf data.clocks clock).getD 0

theorem subcycle_ticks (accepted : Accepted digest data) {row : SubcycleRow} (listed : row ∈ data.subcycles) :
    ticks data row.childClock = ticks data row.parentClock * row.count ∧ 0 < ticks data row.parentClock ∧
      0 < row.count := by
  obtain ⟨-, count, parent, -, -, consistent⟩ := accepted.subcycles.1 row listed
  obtain ⟨clock, known, same⟩ := mem_of_ticksOf parent
  have parentTicks := ticksOf_of_mem accepted.clocks.2 known
  rw [same] at parentTicks
  have positive := (accepted.clocks.1 clock known).2
  rw [ticks, ticks, consistent, parentTicks]
  exact ⟨rfl, positive, count⟩

theorem above_ticks (accepted : Accepted digest data) {child parent : Bytes} (above : Above data child parent) :
    ticks data parent ≤ ticks data child ∧ (ticks data parent = ticks data child → AboveOnce data child parent) := by
  obtain ⟨row, listed, rfl, rfl⟩ := above
  obtain ⟨product, positive, count⟩ := accepted.subcycle_ticks listed
  rw [product]
  refine ⟨le_mul_of_one_le_right positive.le count, fun same => ⟨row, listed, rfl, rfl, ?_⟩⟩
  exact (mul_eq_left₀ positive.ne').mp same.symm

theorem chain_of_acyclic (accepted : Accepted digest data)
    (acyclic : ∀ clock, ¬ Relation.TransGen (Above data) clock clock) :
    ∀ row ∈ data.clocks, Chain data row.id row.ticksPerMacro := by
  have chains : ∀ clock ∈ {clock | clock ∈ data.clocks.map (·.id)}, ∀ count, ticksOf data.clocks clock = some count →
      Chain data clock count := by
    refine ascent_induction (Above data) (List.finite_toSet _) data.primaryClock ?_
      (fun clock _ => acyclic clock) ?_ ?_
    · rintro clock declared other
      obtain ⟨row, known, rfl⟩ := List.mem_map.mp declared
      obtain ⟨subcycle, listed, child⟩ := List.mem_map.mp (accepted.parents row known other)
      obtain ⟨parent, parentKnown, same⟩ := mem_of_ticksOf (accepted.subcycles.1 subcycle listed).2.2.1
      exact ⟨subcycle.parentClock, same ▸ List.mem_map_of_mem parentKnown, subcycle, listed, child, rfl⟩
    · intro count known
      rw [accepted.primary] at known
      cases known
      exact .primary
    · rintro clock parent - - ⟨subcycle, listed, rfl, rfl⟩ above count known
      obtain ⟨-, -, parentKnown, -, -, consistent⟩ := accepted.subcycles.1 subcycle listed
      obtain ⟨ticks, parentTicks⟩ := Option.ne_none_iff_exists'.mp parentKnown
      rw [consistent, parentTicks] at known
      cases known
      exact .subcycle listed (above ticks parentTicks)
  exact fun row known => chains row.id (List.mem_map_of_mem known) _ (ticksOf_of_mem accepted.clocks.2 known)

theorem unique (accepted : Accepted digest data) : ∀ row ∈ data.subcycles, ∀ other ∈ data.subcycles,
    row.childClock = other.childClock → row.parentClock = other.parentClock ∧ row.count = other.count := by
  have symmetric : Std.Symm fun row other : SubcycleRow => row.childClock = other.childClock →
      row.parentClock = other.parentClock ∧ row.count = other.count := by
    refine ⟨fun row other agree same => ?_⟩
    obtain ⟨parent, count⟩ := agree same.symm
    exact ⟨parent.symm, count.symm⟩
  intro row listed other otherListed
  exact List.Pairwise.forall_of_forall (fun _ _ _ => ⟨rfl, rfl⟩)
    (accepted.subcycles.2.imp fun apart => apart.2) listed otherListed

theorem clockTree_iff (accepted : Accepted digest data) :
    ClockTree data ↔ ∀ clock, ¬ Relation.TransGen (AboveOnce data) clock clock := by
  constructor
  · have weaker : AboveOnce data ≤ Above data := by
      rintro child parent ⟨row, listed, isChild, isParent, -⟩
      exact ⟨row, listed, isChild, isParent⟩
    exact fun tree clock cycle => tree.acyclic clock (Relation.TransGen.mono weaker clock clock cycle)
  · intro level
    have acyclic (clock : Bytes) : ¬ Relation.TransGen (Above data) clock clock := by
      intro cycle
      have steps := (rank_of_transGen (Above data) (ticks data) (fun child parent above => (accepted.above_ticks above).1) cycle).2 rfl
      have once : (fun child parent => Above data child parent ∧ ticks data parent = ticks data child) ≤ AboveOnce data :=
        fun child parent step => (accepted.above_ticks step.1).2 step.2
      exact level clock (Relation.TransGen.mono once clock clock steps)
    exact ⟨fun row listed => (accepted.children row listed).1, accepted.unique, acyclic,
      accepted.chain_of_acyclic acyclic⟩

end Accepted

end Pops.TemporalSchedule
