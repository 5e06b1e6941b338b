import Pops.Regrid

/-!
`runtime/amr/amr_runtime.hpp`: the live hierarchy of an AMR runtime, its epochs,
and the publications that are prepared from it.
-/
namespace Pops

namespace AmrRuntime

/-- A field of a level, with its values. -/
structure Field (d : ℕ) (V : Type) where
  metadata : LevelField d
  values : V

/-- An `AmrLevelState`, with the values of its field. -/
structure Level (d : ℕ) (V : Type) where
  state : AmrLevelState d
  values : V

structure LevelStateSpatialContract (d : ℕ) where
  layout : LevelLayoutIdentity d
  localRank : Index d
  components : ℤ
  ghosts : Extent d
  deriving DecidableEq

/-- `AmrHierarchy`, with the values of its fields. -/
structure Hierarchy (d : ℕ) (V : Type) where
  levels : List (Level d V)
  budget : HierarchyValidationBudget

/-- What `exact_runtime_spatial_contract` encodes, less what a runtime never
changes. -/
structure SpatialContract (d : ℕ) where
  topologyEpoch : ℕ
  materializationGeneration : ℕ
  levels : List (LevelStateSpatialContract d)
  deriving DecidableEq

variable {d : ℕ} {V R : Type}

namespace Level

/-- The constructor. -/
def create (layout : LevelLayout d) (field : Field d V) : Checked (Level d V) :=
  match ran : AmrLevelState.validate layout field.metadata with
  | .error exception => .error exception
  | .ok () => .ok ⟨⟨layout, field.metadata, ran⟩, field.values⟩

def spatialContract (level : Level d V) : LevelStateSpatialContract d where
  layout := level.state.layout.exactIdentity
  localRank := level.state.field.localRank
  components := level.state.field.ncomp
  ghosts := level.state.field.ghosts

end Level

namespace Hierarchy

/-- The constructor. -/
def create (levels : List (Level d V)) (budget : HierarchyValidationBudget) : Checked (Hierarchy d V) := do
  let _checked ← AmrHierarchy.create (levels.map (·.state)) budget
  return ⟨levels, budget⟩

def withLevel (hierarchy : Hierarchy d V) (candidate : Level d V) : Checked (Hierarchy d V) := do
  throwIf (candidate.state.layout.level < 0 ∨ candidate.state.layout.level.toNat > hierarchy.levels.length)
    (.outOfRange "AMR hierarchy replacement level is not contiguous")
  create (hierarchy.levels.take candidate.state.layout.level.toNat ++ [candidate]) hierarchy.budget

def truncated (hierarchy : Hierarchy d V) (finest : ℕ) : Checked (Hierarchy d V) := do
  throwIf (finest ≥ hierarchy.levels.length)
    (.outOfRange "AMR hierarchy truncation level lies outside the hierarchy")
  create (hierarchy.levels.take (finest + 1)) hierarchy.budget

end Hierarchy

/-- `PreparedRegridPublication`, with the parent level it was prepared for. -/
structure PreparedRegridPublication (d : ℕ) (V : Type) where
  parentLevel : ℕ
  hierarchy : Hierarchy d V
  sourceTopologyEpoch : ℕ
  sourceMaterializationGeneration : ℕ
  sourceSpatialContract : SpatialContract d
  topologyEpoch : ℕ
  materializationGeneration : ℕ
  exactSpatialContract : SpatialContract d
  changesTopology : Bool

structure PreparedRestorePublication (d : ℕ) (V : Type) where
  hierarchy : Hierarchy d V
  sourceTopologyEpoch : ℕ
  sourceMaterializationGeneration : ℕ
  sourceSpatialContract : SpatialContract d
  topologyEpoch : ℕ
  materializationGeneration : ℕ
  exactSpatialContract : SpatialContract d

/-- `PreparedRebalanceDecision`: whether it was accepted for its benefit, the
epochs it was made from, whether its contracts are authentic, and the
distribution it proposes. -/
structure PreparedRebalanceDecision (d : ℕ) where
  accepted : Bool
  topologyEpoch : ℕ
  materializationGeneration : ℕ
  authentic : Bool
  proposed : Distribution d

end AmrRuntime

open AmrRuntime in
structure AmrRuntime (d : ℕ) (V : Type) where
  hierarchy : Hierarchy d V
  topologyEpoch : ℕ
  materializationGeneration : ℕ
  exactSpatialContract : SpatialContract d

namespace AmrRuntime

variable {d : ℕ} {V R : Type}

def nextGeneration (current : ℕ) (name : String) : Checked ℕ := do
  throwIf (current = 18446744073709551615) (.overflowError (name ++ " exceeds uint64_t"))
  return current + 1

/-- `exact_runtime_spatial_contract`. -/
def exactContract (hierarchy : Hierarchy d V) (topologyEpoch materializationGeneration : ℕ) :
    SpatialContract d :=
  ⟨topologyEpoch, materializationGeneration, hierarchy.levels.map Level.spatialContract⟩

/-- A write in place to the field that `hierarchy().state(level)` refers to. -/
def writeState (runtime : AmrRuntime d V) (level : ℕ) (values : V) : AmrRuntime d V :=
  { runtime with hierarchy := { runtime.hierarchy with
      levels := runtime.hierarchy.levels.modify level fun state => { state with values } } }

/-- `snapshot`: the hierarchy, the epochs and the contract of a runtime. -/
abbrev Snapshot (d : ℕ) (V : Type) := AmrRuntime d V

def prepareRestorePublication (runtime : AmrRuntime d V) (snapshot : Snapshot d V) :
    Checked (PreparedRestorePublication d V) := do
  throwIf (exactContract snapshot.hierarchy snapshot.topologyEpoch snapshot.materializationGeneration ≠
      snapshot.exactSpatialContract)
    (.invalidArgument "AMR runtime rollback snapshot is not authentic")
  return {
    hierarchy := snapshot.hierarchy
    sourceTopologyEpoch := runtime.topologyEpoch
    sourceMaterializationGeneration := runtime.materializationGeneration
    sourceSpatialContract := runtime.exactSpatialContract
    topologyEpoch := snapshot.topologyEpoch
    materializationGeneration := snapshot.materializationGeneration
    exactSpatialContract := snapshot.exactSpatialContract }

def publishPreparedRestore (runtime : AmrRuntime d V) (publication : PreparedRestorePublication d V) :
    Checked (AmrRuntime d V) := do
  throwIf (publication.sourceTopologyEpoch ≠ runtime.topologyEpoch ∨
      publication.sourceMaterializationGeneration ≠ runtime.materializationGeneration ∨
      publication.sourceSpatialContract ≠ runtime.exactSpatialContract)
    (.invalidArgument "prepared AMR restore publication is stale")
  return {
    hierarchy := publication.hierarchy
    topologyEpoch := publication.topologyEpoch
    materializationGeneration := publication.materializationGeneration
    exactSpatialContract := publication.exactSpatialContract }

/-- The candidate of `prepare_regrid_publication`, unless the topology stays. -/
def regridCandidate (runtime : AmrRuntime d V) (parentLevel : ℕ) (prepared : PreparedRegrid d R)
    (childState : Option (Field d V)) : Checked (Option (Hierarchy d V)) :=
  match prepared.fineLayout with
  | none => do
    throwIf (childState.isSome = true) (.invalidArgument "an empty prepared regrid cannot publish child storage")
    if parentLevel + 1 = runtime.hierarchy.levels.length then return none
    else
      let candidate ← runtime.hierarchy.truncated parentLevel
      return some candidate
  | some fineLayout =>
    match childState, prepared.ownership with
    | some field, some ownership => do
      throwIf (fineLayout.level ≠ parentLevel + 1 ∨ fineLayout.distribution ≠ ownership.distribution)
        (.invalidArgument "prepared regrid child layout lost its ownership provenance")
      let child ← Level.create fineLayout field
      let candidate ← runtime.hierarchy.withLevel child
      return some candidate
    | _, _ =>
      .error (.invalidArgument
        "a non-empty prepared regrid requires its authenticated ownership and child storage")

def prepareRegridPublication (runtime : AmrRuntime d V) (parentLevel : ℕ) (prepared : PreparedRegrid d R)
    (childState : Option (Field d V)) : Checked (PreparedRegridPublication d V) := do
  throwIf (¬ ∃ parent ∈ runtime.hierarchy.levels[parentLevel]?, prepared.sourceLevel = parent.state.layout.exactIdentity)
    (.invalidArgument "AMR runtime regrid source is stale for the live hierarchy")
  let candidate ← runtime.regridCandidate parentLevel prepared childState
  match candidate with
  | none =>
    return {
      parentLevel, hierarchy := runtime.hierarchy
      sourceTopologyEpoch := runtime.topologyEpoch
      sourceMaterializationGeneration := runtime.materializationGeneration
      sourceSpatialContract := runtime.exactSpatialContract
      topologyEpoch := runtime.topologyEpoch
      materializationGeneration := runtime.materializationGeneration
      exactSpatialContract := runtime.exactSpatialContract
      changesTopology := false }
  | some hierarchy => do
    let topologyEpoch ← nextGeneration runtime.topologyEpoch "AMR runtime topology epoch"
    let materializationGeneration ←
      nextGeneration runtime.materializationGeneration "AMR runtime materialization generation"
    return {
      parentLevel, hierarchy
      sourceTopologyEpoch := runtime.topologyEpoch
      sourceMaterializationGeneration := runtime.materializationGeneration
      sourceSpatialContract := runtime.exactSpatialContract
      topologyEpoch, materializationGeneration
      exactSpatialContract := exactContract hierarchy topologyEpoch materializationGeneration
      changesTopology := true }

def publishPreparedRegrid (runtime : AmrRuntime d V) (publication : PreparedRegridPublication d V) :
    Checked (AmrRuntime d V) := do
  throwIf (publication.sourceTopologyEpoch ≠ runtime.topologyEpoch ∨
      publication.sourceMaterializationGeneration ≠ runtime.materializationGeneration ∨
      publication.sourceSpatialContract ≠ runtime.exactSpatialContract)
    (.invalidArgument "prepared AMR regrid publication is stale")
  if publication.changesTopology then
    return {
      hierarchy := publication.hierarchy
      topologyEpoch := publication.topologyEpoch
      materializationGeneration := publication.materializationGeneration
      exactSpatialContract := publication.exactSpatialContract }
  else return runtime

/-- `apply_rebalance`, with `commit_hierarchy_`. -/
def applyRebalance (runtime : AmrRuntime d V) (level : ℕ) (decision : PreparedRebalanceDecision d)
    (remappedState : Field d V) : Checked (AmrRuntime d V) :=
  match runtime.hierarchy.levels[level]? with
  | none => .error (.invalidArgument "AMR runtime requires an accepted prepared rebalance decision")
  | some live => do
    throwIf (decision.accepted = false)
      (.invalidArgument "AMR runtime requires an accepted prepared rebalance decision")
    throwIf (decision.topologyEpoch ≠ runtime.topologyEpoch ∨
        decision.materializationGeneration ≠ runtime.materializationGeneration)
      (.invalidArgument "AMR runtime rebalance decision is stale")
    throwIf (decision.authentic = false)
      (.invalidArgument "AMR runtime rebalance decision contract is not authentic")
    let current := live.state.layout
    throwIf (decision.proposed.layout ≠ current.patches ∨
        decision.proposed.rankSpace ≠ current.distribution.rankSpace)
      (.invalidArgument "AMR runtime rebalance proposal targets another level layout")
    let rebalanced ← LevelLayout.create current.level current.domain current.domainFits current.patches decision.proposed
      current.ratioFromParent current.validationBudget
    let replacement ← Level.create rebalanced remappedState
    let hierarchy ← runtime.hierarchy.withLevel replacement
    let topologyEpoch ← nextGeneration runtime.topologyEpoch "AMR runtime topology epoch"
    let materializationGeneration ←
      nextGeneration runtime.materializationGeneration "AMR runtime materialization generation"
    return {
      hierarchy, topologyEpoch, materializationGeneration
      exactSpatialContract := exactContract hierarchy topologyEpoch materializationGeneration }

end AmrRuntime

end Pops
