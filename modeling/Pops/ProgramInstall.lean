import Pops.CacheManager
import Pops.Cadence

/-!
Artifact installation in `runtime/program/program_runtime_state.hpp`: what an
installation may write, the rollback image, and the transaction of the loader.
A `std::function` is empty or a callable of some type `C`; runtime parameters,
checkpoint metadata and the state of an attempt are opaque.
-/
namespace Pops

/-- `HistoryManager`: its maps, by the name of the ring. -/
structure HistoryManager (V K : Type) where
  histories : List (String × List V) := []
  depth : List (String × ℤ) := []
  initialized : List (String × Bool) := []
  fillCount : List (String × ℤ) := []
  storePending : List (String × Bool) := []
  owner : List (String × ℤ) := []
  stateIdentity : List (String × String) := []
  spaceIdentity : List (String × String) := []
  clockIdentity : List (String × String) := []
  interpolationIdentity : List (String × String) := []
  slotDt : List (String × List K) := []

/-- The types of a runtime: callables, fields, numbers, runtime parameters,
checkpoint metadata, and what belongs to an attempt. -/
structure RuntimeTypes where
  C : Type
  V : Type
  K : Type
  P : Type
  M : Type
  A : Type

variable {R : RuntimeTypes}

/-- `ProgramRuntimeState`. `attempt` stands for the profiler, the balance
mailboxes and the projections of an attempt. -/
structure ProgramRuntimeState (R : RuntimeTypes) where
  step : Option R.C
  hierarchyRefresh : Option R.C
  historyRemapAccepted : Option R.C
  restartRegridPreflight : Option R.C
  restartRegrid : Option R.C
  restartResync : Option R.C
  acceptedContextSnapshot : Option R.C
  dtBound : Option R.C
  stepInstallGeneration : ℕ
  installedHash : String
  operatorAuthorities : List (ℕ × ℕ × ℕ × ℕ)
  historyReplayAuthorities : List (String × ℤ)
  checkpointMetadata : R.M
  blockMap : List ℤ
  blockParams : List (ℤ × R.P)
  diagnostics : List (String × R.K)
  cache : CacheManager R.V R.K
  history : HistoryManager R.V R.K
  artifactBacked : Bool
  cadence : Cadence.State R.K
  cadenceDispatchActive : Bool
  attempt : R.A

namespace ProgramRuntimeState

/-- `ArtifactStepInstallSnapshot`. -/
structure Snapshot (R : RuntimeTypes) where
  step : Option R.C
  hierarchyRefresh : Option R.C
  historyRemapAccepted : Option R.C
  restartRegridPreflight : Option R.C
  restartRegrid : Option R.C
  restartResync : Option R.C
  acceptedContextSnapshot : Option R.C
  dtBound : Option R.C
  generation : ℕ
  installedHash : String
  operatorAuthorities : List (ℕ × ℕ × ℕ × ℕ)
  historyReplayAuthorities : List (String × ℤ)
  checkpointMetadata : R.M
  blockMap : List ℤ
  blockParams : List (ℤ × R.P)
  diagnostics : List (String × R.K)
  cache : CacheManager R.V R.K
  history : HistoryManager R.V R.K
  artifactBacked : Bool

/-- `capture_artifact_step_install`. -/
def capture (state : ProgramRuntimeState R) : Snapshot R where
  step := state.step
  hierarchyRefresh := state.hierarchyRefresh
  historyRemapAccepted := state.historyRemapAccepted
  restartRegridPreflight := state.restartRegridPreflight
  restartRegrid := state.restartRegrid
  restartResync := state.restartResync
  acceptedContextSnapshot := state.acceptedContextSnapshot
  dtBound := state.dtBound
  generation := state.stepInstallGeneration
  installedHash := state.installedHash
  operatorAuthorities := state.operatorAuthorities
  historyReplayAuthorities := state.historyReplayAuthorities
  checkpointMetadata := state.checkpointMetadata
  blockMap := state.blockMap
  blockParams := state.blockParams
  diagnostics := state.diagnostics
  cache := state.cache
  history := state.history
  artifactBacked := state.artifactBacked

/-- `rollback_artifact_step_install`. -/
def rollback (state : ProgramRuntimeState R) (snapshot : Snapshot R) : ProgramRuntimeState R :=
  { state with
    step := snapshot.step
    hierarchyRefresh := snapshot.hierarchyRefresh
    historyRemapAccepted := snapshot.historyRemapAccepted
    restartRegridPreflight := snapshot.restartRegridPreflight
    restartRegrid := snapshot.restartRegrid
    restartResync := snapshot.restartResync
    acceptedContextSnapshot := snapshot.acceptedContextSnapshot
    dtBound := snapshot.dtBound
    stepInstallGeneration := snapshot.generation
    installedHash := snapshot.installedHash
    operatorAuthorities := snapshot.operatorAuthorities
    historyReplayAuthorities := snapshot.historyReplayAuthorities
    checkpointMetadata := snapshot.checkpointMetadata
    blockMap := snapshot.blockMap
    blockParams := snapshot.blockParams
    diagnostics := snapshot.diagnostics
    cache := snapshot.cache
    history := snapshot.history
    artifactBacked := snapshot.artifactBacked }

/-- `install_unverified_step`. `noMetadata` is `ProgramCheckpointMetadata{}`. -/
def installUnverifiedStep (noMetadata : R.M) (state : ProgramRuntimeState R) (step : Option R.C) :
    Checked (ProgramRuntimeState R) := do
  throwIf step.isNone (.invalidArgument "Program install requires a non-empty whole-system step")
  throwIf (state.stepInstallGeneration = 18446744073709551615)
    (.overflowError "Program step-install generation overflow")
  return { state with
    step
    hierarchyRefresh := none
    historyRemapAccepted := none
    restartRegridPreflight := none
    restartRegrid := none
    restartResync := none
    acceptedContextSnapshot := none
    dtBound := none
    installedHash := ""
    operatorAuthorities := []
    historyReplayAuthorities := []
    checkpointMetadata := noMetadata
    blockMap := []
    blockParams := []
    artifactBacked := false
    stepInstallGeneration := state.stepInstallGeneration + 1 }

def resetArtifactCandidateState (state : ProgramRuntimeState R) : ProgramRuntimeState R :=
  { state with diagnostics := [], cache := .fresh, history := {} }

def installHierarchyRefresh (runtime : String) (state : ProgramRuntimeState R) (refresh : Option R.C) :
    Checked (ProgramRuntimeState R) := do
  throwIf state.step.isNone
    (.logicError (runtime ++ "::install_program_hierarchy_refresh requires an installed Program"))
  throwIf refresh.isNone
    (.invalidArgument (runtime ++ "::install_program_hierarchy_refresh requires a non-empty hook"))
  return { state with hierarchyRefresh := refresh }

def installHistoryRemapAccepted (runtime : String) (state : ProgramRuntimeState R) (refresh : Option R.C) :
    Checked (ProgramRuntimeState R) := do
  throwIf state.step.isNone
    (.logicError (runtime ++ "::install_program_history_remap_accepted requires an installed Program"))
  throwIf refresh.isNone
    (.invalidArgument (runtime ++ "::install_program_history_remap_accepted requires a non-empty hook"))
  return { state with historyRemapAccepted := refresh }

def installRestartHooks (runtime : String) (state : ProgramRuntimeState R)
    (preflight regrid resync acceptedContextSnapshot : Option R.C) : Checked (ProgramRuntimeState R) := do
  throwIf state.step.isNone
    (.logicError (runtime ++ "::install_program_restart_hooks requires an installed Program"))
  throwIf (preflight.isNone ∨ regrid.isNone ∨ resync.isNone ∨ acceptedContextSnapshot.isNone)
    (.invalidArgument (runtime ++ "::install_program_restart_hooks requires complete accepted-state hooks"))
  return { state with
    restartRegridPreflight := preflight
    restartRegrid := regrid
    restartResync := resync
    acceptedContextSnapshot }

def requireExactArtifactStepInstall (runtime : String) (state : ProgramRuntimeState R) (before : Snapshot R) :
    Checked Unit :=
  throwIf (state.step.isNone ∨ before.generation = 18446744073709551615 ∨
      state.stepInstallGeneration ≠ before.generation + 1 ∨ state.artifactBacked)
    (.runtimeError (runtime ++ " artifact installer must install exactly one new unverified whole-system " ++
      "Program step"))

/-- What an installation does to the state: its own operations, what the loader
publishes, and what the generated prelude stores. -/
inductive InstallOperation (R : RuntimeTypes) where
  | installUnverifiedStep (step : Option R.C)
  | reset
  | installHierarchyRefresh (refresh : Option R.C)
  | installHistoryRemapAccepted (refresh : Option R.C)
  | installRestartHooks (preflight regrid resync acceptedContextSnapshot : Option R.C)
  | publishAuthorities (blockMap : List ℤ) (blockParams : List (ℤ × R.P))
      (operatorAuthorities : List (ℕ × ℕ × ℕ × ℕ)) (historyReplayAuthorities : List (String × ℤ))
      (checkpointMetadata : R.M) (installedHash : String) (dtBound : Option R.C)
  | artifactBacked
  | recordDiagnostics (diagnostics : List (String × R.K))
  | storeCache (cache : CacheManager R.V R.K)
  | storeHistory (history : HistoryManager R.V R.K)

/-- One operation. -/
def InstallOperation.run (runtime : String) (noMetadata : R.M) (state : ProgramRuntimeState R) :
    InstallOperation R → Checked (ProgramRuntimeState R)
  | installUnverifiedStep step => state.installUnverifiedStep noMetadata step
  | reset => .ok state.resetArtifactCandidateState
  | installHierarchyRefresh refresh => state.installHierarchyRefresh runtime refresh
  | installHistoryRemapAccepted refresh => state.installHistoryRemapAccepted runtime refresh
  | installRestartHooks preflight regrid resync acceptedContextSnapshot =>
    state.installRestartHooks runtime preflight regrid resync acceptedContextSnapshot
  | publishAuthorities blockMap blockParams operatorAuthorities historyReplayAuthorities checkpointMetadata
      installedHash dtBound => .ok { state with
        blockMap, blockParams, operatorAuthorities, historyReplayAuthorities, checkpointMetadata, installedHash,
        dtBound }
  | artifactBacked => .ok { state with artifactBacked := true }
  | recordDiagnostics diagnostics => .ok { state with diagnostics }
  | storeCache cache => .ok { state with cache }
  | storeHistory history => .ok { state with history }

/-- An operation that throws changes nothing. -/
def InstallOperation.apply (runtime : String) (noMetadata : R.M) (state : ProgramRuntimeState R)
    (operation : InstallOperation R) : ProgramRuntimeState R :=
  match operation.run runtime noMetadata state with
  | .ok after => after
  | .error _ => state

/-- The operations of an installer up to the first that throws, with that exception. -/
def attemptInstall (runtime : String) (noMetadata : R.M) (state : ProgramRuntimeState R) :
    List (InstallOperation R) → ProgramRuntimeState R × Option Exception
  | [] => (state, none)
  | operation :: later =>
    match operation.run runtime noMetadata state with
    | .error thrown => (state, some thrown)
    | .ok after => attemptInstall runtime noMetadata after later

/-- The transaction of `install_program`: the candidate, its exactness check and
its publication, rolled back when any of them throws. -/
def installProgram (runtime : String) (noMetadata : R.M) (state : ProgramRuntimeState R)
    (installer publication : List (InstallOperation R)) : ProgramRuntimeState R × Option Exception :=
  let before := state.capture
  let candidate := attemptInstall runtime noMetadata state (.reset :: installer)
  match candidate.2 with
  | some thrown => (candidate.1.rollback before, some thrown)
  | none =>
    match candidate.1.requireExactArtifactStepInstall runtime before with
    | .error thrown => (candidate.1.rollback before, some thrown)
    | .ok () =>
      let published := attemptInstall runtime noMetadata candidate.1 publication
      match published.2 with
      | some thrown => (published.1.rollback before, some thrown)
      | none => (published.1, none)

end ProgramRuntimeState

end Pops
