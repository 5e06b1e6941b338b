import Pops.CanonicalValue
import Pops.Rows

/-!
`build_temporal_manifest` of `time/_program/temporal_manifest.py` and
`_validate_program_schedule` of `runtime/_temporal_restart.py`: the schedule of
the logical clocks of a Program, and its validation at a restart. The rows of a
manifest are typed, so the checks of the keys and the types of JSON data hold by
their types; the numbers and names inside the error texts are left out.
-/
namespace Pops.TemporalSchedule

/-- `Clock`, with the canonical data of its owner. -/
structure Clock where
  name : Bytes
  owner : Option Bytes
  named : name ≠ []
  deriving DecidableEq

/-- `qualified_id`, with the digest of the canonical data of a clock. -/
def qualifiedId (digest : Clock → Bytes) (clock : Clock) : Bytes := ascii "pops.clock.v1::sha256:" ++ digest clock

structure TimePoint where
  clock : Clock
  step : ℤ
  offset : Bytes
  deriving DecidableEq

/-- Canonical data: their kind, whether they refer to a block, and the rest of them. -/
structure TypedData where
  kind : Bytes
  blockRef : Bool
  rest : Bytes
  deriving DecidableEq

/-- The validity interval of a `HistoryContract`. -/
structure ValidityInterval where
  schemaVersion : ℤ
  oldest : TimePoint
  newest : TimePoint
  deriving DecidableEq

/-- The validity of a retained history. -/
inductive Validity where
  | acceptedClockTicks (newestLag oldestLag : ℤ)
  | interval (interval : ValidityInterval)
  | other (data : Bytes)
  deriving DecidableEq

/-- `HistoryContract.to_data`. -/
structure HistoryContract where
  schemaVersion : ℤ
  owner : Option Bytes
  state : TypedData
  space : TypedData
  clock : Clock
  validity : ValidityInterval
  interpolation : TypedData
  depth : ℤ
  deriving DecidableEq

/-- The data of a synchronization relation, with the kind of its provider and the
contract that the provider carries. -/
structure Relation where
  kind : Bytes
  providerKind : Bytes
  interpolation : Option TypedData
  contract : Option HistoryContract
  deriving DecidableEq

/-- `SampleAndHold.to_data`. -/
def sampleAndHold : Relation := ⟨ascii "sample_and_hold", ascii "latest_accepted_sample", none, none⟩

/-- `InterpolateHistory.to_data`, of a history with its contract. -/
def interpolateHistory (contract : HistoryContract) : Relation :=
  ⟨ascii "history_interpolation", ascii "typed_history", some contract.interpolation, some contract⟩

/-- A row of `clocks`. -/
structure ClockRow where
  id : Bytes
  descriptor : Clock
  ticksPerMacro : ℤ
  deriving DecidableEq

/-- A row of `subcycles`. -/
structure SubcycleRow where
  nodeId : ℤ
  parentClock : Bytes
  childClock : Bytes
  count : ℤ
  deriving DecidableEq

/-- A row of `synchronizations`. -/
structure SynchronizationRow where
  nodeId : ℤ
  sourceClock : Bytes
  targetClock : Bytes
  relation : Relation
  point : TimePoint

/-- A row of `schedules`, with the clock of the domain of its schedule. -/
structure ScheduleRow where
  nodeId : ℤ
  clock : Clock
  cacheRequired : Bool

/-- A row of `histories`. -/
structure HistoryRow where
  name : Bytes
  owner : Option TypedData
  state : TypedData
  space : TypedData
  clock : Bytes
  depth : ℤ
  ringSlots : ℤ
  ncomp : Option ℤ
  validity : Validity
  interpolation : TypedData
  checkpointPolicy : Option TypedData

/-- A `pops.temporal-program-schedule`. -/
structure ProgramSchedule where
  schemaVersion : ℤ
  kind : Bytes
  primaryClock : Bytes
  clocks : List ClockRow
  subcycles : List SubcycleRow
  synchronizations : List SynchronizationRow
  schedules : List ScheduleRow
  histories : List HistoryRow

def validateHistoryContractData (contract : HistoryContract) : Checked Unit := do
  throwIf (contract.schemaVersion ≠ 1)
    (.invalidArgument "history_interpolation provider has an unsupported contract schema")
  throwIf (contract.depth < 1)
    (.invalidArgument "history_interpolation provider depth must be a positive integer")
  throwIf (contract.owner ≠ contract.clock.owner)
    (.invalidArgument "history_interpolation provider owner does not own its logical clock")
  throwIf (contract.state.kind ≠ ascii "state" ∨ contract.state.blockRef = false)
    (.invalidArgument "history_interpolation provider state is not block-qualified")
  throwIf (contract.space.kind ≠ ascii "state")
    (.invalidArgument "history_interpolation provider space is not a StateSpace")
  throwIf (contract.validity.schemaVersion ≠ 1)
    (.invalidArgument "history_interpolation provider has an invalid validity interval")
  throwIf (contract.validity.oldest.clock ≠ contract.clock ∨ contract.validity.newest.clock ≠ contract.clock)
    (.invalidArgument "history_interpolation provider validity must use its logical clock")
  throwIf (contract.interpolation.kind = [] ∨ contract.interpolation.kind = ascii "none")
    (.invalidArgument "history_interpolation provider has no interpolation/dense-output capability")

/-- A retained history is the one of a contract. -/
def Retains (contract : HistoryContract) (sourceClockId : Bytes) (row : HistoryRow) : Prop :=
  row.state = contract.state ∧ row.space = contract.space ∧ row.depth = contract.depth ∧
    row.validity = .interval contract.validity ∧ row.interpolation = contract.interpolation ∧ row.clock = sourceClockId

instance (contract : HistoryContract) (sourceClockId : Bytes) (row : HistoryRow) :
    Decidable (Retains contract sourceClockId row) := inferInstanceAs (Decidable (_ ∧ _))

/-- The source that a relation is bound to: its clock, and the histories that are retained. -/
structure SourceContext where
  clock : Clock
  clockId : Bytes
  histories : List HistoryRow

/-- `validate_synchronization_relation_data`, where its author or the validator
of a schedule calls it: the second one supplies the source. -/
def validateSynchronizationRelationData (relation : Relation) (source : Option SourceContext) : Checked Unit := do
  throwIf (relation.kind = [])
    (.invalidArgument "synchronization relation to_data() must contain a non-empty kind")
  throwIf (relation.providerKind = [])
    (.invalidArgument "cross-clock synchronization relation must declare an explicit provider")
  if relation.kind = ascii "history_interpolation" then do
    throwIf (relation.providerKind ≠ ascii "typed_history")
      (.invalidArgument "history_interpolation requires a complete typed HistoryContract provider")
    match relation.contract with
    | none => .error (.invalidArgument "history_interpolation requires a complete typed HistoryContract provider")
    | some contract => do
      validateHistoryContractData contract
      throwIf (relation.interpolation ≠ some contract.interpolation)
        (.invalidArgument "history_interpolation relation disagrees with its provider capability")
      throwIf (∃ bound ∈ source, contract.clock ≠ bound.clock)
        (.invalidArgument "history_interpolation provider clock does not match the source clock")
      throwIf (∃ bound ∈ source, (bound.histories.filter fun row => Retains contract bound.clockId row).length ≠ 1)
        (.invalidArgument "history_interpolation provider does not match exactly one retained history")
  else .ok ()

/-- `_node_id`, and its absence among those seen. -/
def validateNode (seen : List ℤ) (nodeId : ℤ) : Checked Unit := do
  throwIf (nodeId < 0) (.invalidArgument "node_id must be a non-negative integer")
  throwIf (nodeId ∈ seen) (.invalidArgument "node_id is duplicated")

/-- `clocks[id]`. -/
def ticksOf (clocks : List ClockRow) (id : Bytes) : Option ℤ :=
  (clocks.find? fun row => row.id = id).map (·.ticksPerMacro)

section
variable (digest : Clock → Bytes) (clocks : List ClockRow)

/-- One row of `clocks`. `_clock_identity` of a descriptor is the identity of its clock. -/
def validateClock (seen : List ClockRow) (row : ClockRow) : Checked Unit := do
  throwIf (row.id ≠ qualifiedId digest row.descriptor)
    (.invalidArgument "temporal program clock identity is not canonical")
  throwIf (row.id ∈ seen.map (·.id)) (.invalidArgument "temporal program schedule declares clock twice")
  throwIf (row.ticksPerMacro ≤ 0) (.invalidArgument "temporal clock ticks_per_macro must be a positive integer")

/-- One row of `subcycles`. -/
def validateSubcycle (seen : List SubcycleRow) (row : SubcycleRow) : Checked Unit := do
  validateNode (seen.map (·.nodeId)) row.nodeId
  throwIf (row.count ≤ 0) (.invalidArgument "temporal subcycle count must be a positive integer")
  throwIf (ticksOf clocks row.parentClock = none ∨ ticksOf clocks row.childClock = none ∨
      row.parentClock = row.childClock)
    (.invalidArgument "temporal subcycle references invalid qualified clocks")
  throwIf (∃ known ∈ seen, known.childClock = row.childClock ∧
      ¬ (known.parentClock = row.parentClock ∧ known.count = row.count))
    (.invalidArgument "temporal child clock has conflicting subcycle parents")
  throwIf (ticksOf clocks row.childClock ≠ (ticksOf clocks row.parentClock).map (· * row.count))
    (.invalidArgument "temporal subcycle ticks_per_macro is inconsistent with count")

/-- One row of `synchronizations`. -/
def validateSynchronization (seen : List SynchronizationRow) (row : SynchronizationRow) : Checked Unit := do
  validateNode (seen.map (·.nodeId)) row.nodeId
  throwIf (ticksOf clocks row.sourceClock = none ∨ ticksOf clocks row.targetClock = none ∨
      row.sourceClock = row.targetClock)
    (.invalidArgument "temporal synchronization references invalid qualified clocks")

/-- One row of `schedules`. -/
def validateSchedule (seen : List ScheduleRow) (row : ScheduleRow) : Checked Unit := do
  validateNode (seen.map (·.nodeId)) row.nodeId
  throwIf (ticksOf clocks (qualifiedId digest row.clock) = none)
    (.invalidArgument "temporal schedule references an undeclared clock")

/-- One row of `histories`. -/
def validateHistory (seen : List HistoryRow) (row : HistoryRow) : Checked Unit := do
  throwIf (row.name = [] ∨ row.name ∈ seen.map (·.name))
    (.invalidArgument "temporal history names must be unique non-empty text")
  throwIf (ticksOf clocks row.clock = none) (.invalidArgument "temporal history references an undeclared clock")
  throwIf (row.depth ≤ 0) (.invalidArgument "temporal history depth must be a positive integer")
  throwIf (row.ringSlots ≠ row.depth + 1) (.invalidArgument "temporal history ring_slots must equal depth + 1")
  throwIf (∃ ncomp ∈ row.ncomp, ncomp ≤ 0) (.invalidArgument "temporal history ncomp must be a positive integer")

/-- The relation of one row of `synchronizations`, with the descriptor of its source clock. -/
def validateRelation (histories : List HistoryRow) (row : SynchronizationRow) : Checked Unit :=
  match clocks.find? fun clock => clock.id = row.sourceClock with
  | none => .error (.outOfRange "clock_descriptors")
  | some clock =>
    validateSynchronizationRelationData row.relation (some ⟨clock.descriptor, row.sourceClock, histories⟩)

end

def validateProgramSchedule (digest : Clock → Bytes) (data : ProgramSchedule) : Checked Unit := do
  throwIf (data.schemaVersion ≠ 1 ∨ data.kind ≠ ascii "pops.temporal-program-schedule")
    (.invalidArgument "unsupported temporal program schedule schema or kind")
  throwIf (data.primaryClock = [])
    (.invalidArgument "temporal program schedule primary_clock must be qualified text")
  throwIf (data.clocks = []) (.invalidArgument "temporal program schedule must declare at least one clock")
  checkEach (validateClock digest) [] data.clocks
  throwIf (ticksOf data.clocks data.primaryClock ≠ some 1)
    (.invalidArgument "primary temporal clock must exist with ticks_per_macro=1")
  checkEach (validateSubcycle data.clocks) [] data.subcycles
  throwIf ((∃ row ∈ data.clocks, row.id ≠ data.primaryClock ∧ row.id ∉ data.subcycles.map (·.childClock)) ∨
      ∃ row ∈ data.subcycles, row.childClock = data.primaryClock ∨ row.childClock ∉ data.clocks.map (·.id))
    (.invalidArgument "every non-primary temporal clock requires one subcycle parent")
  checkEach (validateSynchronization data.clocks) [] data.synchronizations
  checkEach (validateSchedule digest data.clocks) [] data.schedules
  checkEach (validateHistory data.clocks) [] data.histories
  checkEach (fun _ => validateRelation data.clocks data.histories) [] data.synchronizations

/-- `Schedule`: the clock of its domain and the point where it is evaluated. -/
structure Schedule where
  clock : Clock
  moment : Option TimePoint
  cacheRequired : Bool

/-- What the manifest reads of an operation. -/
inductive NodeOp where
  | subcycle (parent : Clock) (count : ℤ)
  | synchronize (source : Clock) (relation : Relation)
  | other

/-- The clock that an operation relates its own one to. -/
def NodeOp.related : NodeOp → Option Clock
  | .subcycle parent _ => some parent
  | .synchronize source _ => some source
  | .other => none

/-- The parent and the count of a subcycle. -/
def NodeOp.parent : NodeOp → Option (Clock × ℤ)
  | .subcycle parent count => some (parent, count)
  | _ => none

/-- A node, with what its author has checked: a subcycle counts up, an operation
relates distinct clocks, and `relation_data` has passed the relation of a
synchronization. -/
structure Node where
  id : ℕ
  clock : Clock
  point : TimePoint
  op : NodeOp
  schedule : Option Schedule
  history : Option Bytes
  positive : ∀ parent count, op.parent = some (parent, count) → 0 < count
  distinct : op.related ≠ some clock
  authored : ∀ source relation, op = .synchronize source relation →
    validateSynchronizationRelationData relation none = .ok ()

/-- A time state, with the name of its history where one is configured. -/
structure TimeState where
  clock : Clock
  history : Option Bytes

/-- A history of a Program. -/
structure History where
  name : Bytes
  depth : ℤ
  owner : Option TypedData
  state : Option TypedData
  space : Option TypedData
  ncomp : Option ℤ
  checkpointPolicy : Option TypedData
  named : name ≠ []
  positive : 0 < depth
  components : ∀ count ∈ ncomp, 0 < count

/-- A Program, with the nodes that `_walk` yields. A contract is listed with the
name of its history, which is that of its block and its state. -/
structure Program where
  clock : Clock
  nodes : List Node
  timeStates : List TimeState
  histories : List History
  contracts : List (Bytes × HistoryContract)
  ids : (nodes.map (·.id)).Nodup
  names : (histories.map (·.name)).Nodup
  states : ∀ known ∈ contracts, ∀ other ∈ contracts, known.2.state = other.2.state → known.1 = other.1

/-- One node of the loop of `build_temporal_manifest`, with `validate_site`. -/
def admitNode (seen : List Node) (node : Node) : Checked Unit := do
  throwIf (∃ known ∈ seen, known.clock = node.clock ∧ known.op.parent.isSome = true ∧ node.op.parent.isSome = true ∧
      known.op.parent ≠ node.op.parent)
    (.invalidArgument "clock has conflicting parent/count subcycle declarations")
  throwIf (∃ schedule ∈ node.schedule, schedule.clock ≠ node.clock)
    (.invalidArgument "schedule clock does not match evaluation clock")
  throwIf (∃ schedule ∈ node.schedule, ∃ moment ∈ schedule.moment, moment ≠ node.point)
    (.invalidArgument "schedule point does not match its typed domain point")

namespace Program
variable (digest : Clock → Bytes) (program : Program)

def clocks : List Clock :=
  (program.clock :: program.nodes.flatMap (fun node => node.clock :: node.op.related.toList) ++
    program.timeStates.map (·.clock)).dedup

/-- `parents.get(clock)`. The relations of one clock all agree. -/
def parentOf (clock : Clock) : Option (Clock × ℤ) :=
  program.nodes.findSome? fun node => if node.clock = clock then node.op.parent else none

/-- `resolve`. What `ticks` already holds of a clock is what would be found
again; a call for another clock visits the clock of another node, so one more
call than there are nodes is fuel enough. -/
def resolve : ℕ → Clock → List Clock → Checked ℤ
  | 0, _, _ => .error (.invalidArgument "nested clock schedule contains a cycle")
  | fuel + 1, clock, visiting =>
    if clock = program.clock then .ok 1
    else do
      throwIf (clock ∈ visiting) (.invalidArgument "nested clock schedule contains a cycle")
      match program.parentOf clock with
      | none => .error (.invalidArgument "clock has no subcycle relation to primary clock")
      | some (parent, count) => do
        let ticks ← resolve fuel parent (clock :: visiting)
        return ticks * count

def clockData (clock : Clock) : Checked ClockRow := do
  let ticks ← program.resolve (program.nodes.length + 1) clock []
  return ⟨qualifiedId digest clock, clock, ticks⟩

/-- The row of a subcycle. -/
def subcycleRow (node : Node) : Option SubcycleRow :=
  match node.op with
  | .subcycle parent count => some ⟨node.id, qualifiedId digest parent, qualifiedId digest node.clock, count⟩
  | _ => none

/-- The row of a synchronization. -/
def synchronizationRow (node : Node) : Option SynchronizationRow :=
  match node.op with
  | .synchronize source relation =>
    some ⟨node.id, qualifiedId digest source, qualifiedId digest node.clock, relation, node.point⟩
  | _ => none

/-- The row of a schedule. -/
def scheduleRow (node : Node) : Option ScheduleRow :=
  node.schedule.map fun schedule => ⟨node.id, schedule.clock, schedule.cacheRequired⟩

/-- `history_clocks[name]`. -/
def historyClocks (name : Bytes) : List Clock :=
  (program.nodes.filterMap (fun node => if node.history = some name then some node.clock else none) ++
    program.timeStates.filterMap fun state => if state.history = some name then some state.clock else none).dedup

/-- The interpolation of a history without a contract. -/
def exactInterpolation : TypedData := ⟨[], false, ascii "exact"⟩

/-- The validity and the interpolation of a history on its clock. -/
def historyTerms (history : History) (clock : Clock) : Checked (Validity × TypedData) :=
  match program.contracts.lookup history.name with
  | none => .ok (.acceptedClockTicks 0 history.depth, exactInterpolation)
  | some contract => do
    throwIf (contract.depth ≠ history.depth ∨ contract.clock ≠ clock ∨ some contract.state ≠ history.state ∨
        some contract.space ≠ history.space)
      (.runtimeError "history disagrees with its typed HistoryContract")
    return (.interval contract.validity, contract.interpolation)

/-- The row of one history. -/
def historyRow (history : History) : Checked HistoryRow :=
  match program.historyClocks history.name with
  | [clock] => do
    let (validity, interpolation) ← program.historyTerms history clock
    return {
      name := history.name
      owner := history.owner
      state := history.state.getD ⟨ascii "scalar_history", false, ascii "scalar-history:" ++ history.name⟩
      space := history.space.getD ⟨ascii "scalar_field", false, []⟩
      clock := qualifiedId digest clock
      depth := history.depth
      ringSlots := history.depth + 1
      ncomp := history.ncomp
      validity
      interpolation
      checkpointPolicy := history.checkpointPolicy }
  | _ => .error (.invalidArgument "history must belong to exactly one logical clock")

/-- `build_temporal_manifest`. The identities of clocks all have one length. -/
def buildTemporalManifest : Checked ProgramSchedule := do
  checkEach admitNode [] program.nodes
  let clocks ← program.clocks.mapM (program.clockData digest)
  throwIf (¬ (program.contracts.map Prod.fst).Nodup)
    (.invalidArgument "history has more than one typed HistoryContract")
  let histories ← program.histories.mapM (program.historyRow digest)
  return {
    schemaVersion := 1
    kind := ascii "pops.temporal-program-schedule"
    primaryClock := qualifiedId digest program.clock
    clocks := clocks.mergeSort fun left right => CanonicalValue.NotAfter left.id right.id
    subcycles := (program.nodes.filterMap (subcycleRow digest)).mergeSort fun left right =>
      left.nodeId ≤ right.nodeId
    synchronizations := (program.nodes.filterMap (synchronizationRow digest)).mergeSort fun left right =>
      left.nodeId ≤ right.nodeId
    schedules := (program.nodes.filterMap scheduleRow).mergeSort fun left right => left.nodeId ≤ right.nodeId
    histories }

end Program

end Pops.TemporalSchedule
