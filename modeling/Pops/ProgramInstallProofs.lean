import Pops.ProgramInstall

/-! Proofs about artifact installation: whatever an installation did, its
rollback brings back the whole runtime state. -/
namespace Pops.ProgramRuntimeState

variable {R : RuntimeTypes} {runtime : String} {noMetadata : R.M} {state after : ProgramRuntimeState R}

/-- What no installation touches. -/
structure Kept (before after : ProgramRuntimeState R) : Prop where
  cadence : after.cadence = before.cadence
  cadenceDispatchActive : after.cadenceDispatchActive = before.cadenceDispatchActive
  attempt : after.attempt = before.attempt

@[refl]
theorem Kept.refl (state : ProgramRuntimeState R) : Kept state state := ⟨rfl, rfl, rfl⟩

theorem Kept.trans {middle : ProgramRuntimeState R} (first : Kept state middle) (second : Kept middle after) :
    Kept state after :=
  ⟨second.cadence.trans first.cadence, second.cadenceDispatchActive.trans first.cadenceDispatchActive,
    second.attempt.trans first.attempt⟩

theorem InstallOperation.run_kept {operation : InstallOperation R}
    (ran : operation.run runtime noMetadata state = .ok after) : Kept state after := by
  cases operation with
  | installUnverifiedStep step =>
    simp only [InstallOperation.run, ProgramRuntimeState.installUnverifiedStep, bind_ok, unit_exists, pure_ok] at ran
    obtain ⟨-, -, rfl⟩ := ran
    exact ⟨rfl, rfl, rfl⟩
  | installHierarchyRefresh refresh =>
    simp only [InstallOperation.run, ProgramRuntimeState.installHierarchyRefresh, bind_ok, unit_exists, pure_ok] at ran
    obtain ⟨-, -, rfl⟩ := ran
    exact ⟨rfl, rfl, rfl⟩
  | installHistoryRemapAccepted refresh =>
    simp only [InstallOperation.run, ProgramRuntimeState.installHistoryRemapAccepted, bind_ok, unit_exists, pure_ok]
      at ran
    obtain ⟨-, -, rfl⟩ := ran
    exact ⟨rfl, rfl, rfl⟩
  | installRestartHooks preflight regrid resync acceptedContextSnapshot =>
    simp only [InstallOperation.run, ProgramRuntimeState.installRestartHooks, bind_ok, unit_exists, pure_ok] at ran
    obtain ⟨-, -, rfl⟩ := ran
    exact ⟨rfl, rfl, rfl⟩
  | reset | publishAuthorities | artifactBacked | recordDiagnostics | storeCache | storeHistory =>
    cases ran
    exact ⟨rfl, rfl, rfl⟩

theorem InstallOperation.apply_kept (operation : InstallOperation R) :
    Kept state (operation.apply runtime noMetadata state) := by
  unfold InstallOperation.apply
  split
  · rename_i ran
    exact run_kept ran
  · rfl

theorem foldl_kept (operations : List (InstallOperation R)) :
    Kept state (operations.foldl (InstallOperation.apply runtime noMetadata) state) := by
  induction operations generalizing state with
  | nil => rfl
  | cons operation later ih => exact (operation.apply_kept).trans ih

theorem attemptInstall_kept (runtime : String) (noMetadata : R.M) (state : ProgramRuntimeState R)
    (operations : List (InstallOperation R)) :
    Kept state (attemptInstall runtime noMetadata state operations).1 := by
  induction operations generalizing state with
  | nil => rfl
  | cons operation later ih =>
    unfold attemptInstall
    split
    · rfl
    · rename_i ran
      exact (InstallOperation.run_kept ran).trans (ih _)

theorem rollback_capture (kept : Kept state after) : after.rollback state.capture = state := by
  obtain ⟨cadence, dispatch, attempt⟩ := kept
  cases state
  cases after
  simp only at cadence dispatch attempt
  subst cadence dispatch attempt
  rfl

/-- Over every sequence of install and reset operations, those that throw
included, a rollback to an earlier image gives the whole state that was
captured; and an installation that throws leaves that state. -/
theorem rollback_restores (runtime : String) (noMetadata : R.M) (state : ProgramRuntimeState R) :
    (∀ operations : List (InstallOperation R),
      (operations.foldl (InstallOperation.apply runtime noMetadata) state).rollback state.capture = state) ∧
    ∀ (installer publication : List (InstallOperation R)) (thrown : Exception),
      (installProgram runtime noMetadata state installer publication).2 = some thrown →
        (installProgram runtime noMetadata state installer publication).1 = state := by
  refine ⟨fun operations => rollback_capture (foldl_kept operations), ?_⟩
  intro installer publication thrown failed
  have candidate := attemptInstall_kept runtime noMetadata state (.reset :: installer)
  unfold installProgram at failed ⊢
  simp only at failed ⊢
  generalize attemptInstall runtime noMetadata state (.reset :: installer) = reached at candidate failed ⊢
  obtain ⟨installed, outcome⟩ := reached
  cases outcome with
  | some exception => exact rollback_capture candidate
  | none =>
    simp only at candidate failed ⊢
    cases exactly : installed.requireExactArtifactStepInstall runtime state.capture with
    | error exception => exact rollback_capture candidate
    | ok checked =>
      have published := attemptInstall_kept runtime noMetadata installed publication
      simp only [exactly] at failed ⊢
      generalize attemptInstall runtime noMetadata installed publication = last at published failed ⊢
      obtain ⟨result, outcome⟩ := last
      cases outcome with
      | some exception => exact rollback_capture (candidate.trans published)
      | none => cases failed

end Pops.ProgramRuntimeState
