import Pops.CadenceDispatch
import Pops.CadenceProofs

/-!
What a dispatch leaves behind when the Program throws in one of its substeps:
everything is as it was except the last dt, which is the one of that substep.
-/
namespace Pops.Cadence.Dispatcher

variable {T : Type} [CadenceDouble T] {runtime : String} {program : Program T} {step : PreparedStep T}
  {dispatcher : Dispatcher T} {exception : Exception}

/-- The substep at which the Program throws first, with what it throws. -/
def firstFailure (runtime : String) (program : Program T) (step : PreparedStep T) (substeps macroStep : ℤ) :
    List ℤ → Option (PreparedSubstep T × Exception)
  | [] => none
  | substep :: rest =>
    match prepareSubstep runtime step substep substeps with
    | .error _ => none
    | .ok partition =>
      match program substep (call partition macroStep) with
      | .error exception => some (partition, exception)
      | .ok _ => firstFailure runtime program step substeps macroStep rest

/-- Everything as it was but the last dt. -/
def withLastDt (dispatcher : Dispatcher T) (lastDt : T) : Dispatcher T :=
  { dispatcher with cadence := { dispatcher.cadence with lastDt } }

theorem body_failed {substeps macroStep : ℤ} {indices : List ℤ} {partition : PreparedSubstep T}
    (failed : firstFailure runtime program step substeps macroStep indices = some (partition, exception)) :
    body runtime program step substeps macroStep indices dispatcher =
      (.error exception, dispatcher.publish partition macroStep) := by
  induction indices generalizing dispatcher with
  | nil => cases failed
  | cons substep rest ih =>
    cases prepared : prepareSubstep runtime step substep substeps with
    | error raised =>
      simp only [firstFailure, prepared] at failed
      cases failed
    | ok reached =>
      cases returned : program substep (call reached macroStep) with
      | error raised =>
        simp only [firstFailure, prepared, returned, Option.some.injEq, Prod.mk.injEq] at failed
        obtain ⟨rfl, rfl⟩ := failed
        simp only [body, prepared, returned]
      | ok result =>
        simp only [firstFailure, prepared, returned] at failed
        simp only [body, prepared, returned]
        exact ih failed

/-- A due step reaches the Program, which throws in the substep of a partition. -/
structure BodyFails (runtime : String) (program : Program T) (dispatcher : Dispatcher T) (dt : T)
    (step : PreparedStep T) (partition : PreparedSubstep T) (exception : Exception) : Prop where
  free : dispatcher.active = false
  prepared : prepareStep runtime dispatcher.cadence dispatcher.cursor dt = .ok step
  counted : dispatcher.cursor.macroStep ≠ intMax
  due : step.due = true
  partitioned : validatePartition runtime step dispatcher.cadence.substeps = .ok ()
  phase : step.windowSteps - 1 ≤ dispatcher.cursor.macroStep
  outside : dispatcher.dueTarget = none
  live : dispatcher.replayActive = false
  window : beginBalanceDueWindow runtime dispatcher.cursor.macroStep = .ok ()
  failed : firstFailure runtime program step dispatcher.cadence.substeps
    (dispatcher.cursor.macroStep - (step.windowSteps - 1)) (substepIndices dispatcher.cadence.substeps) =
      some (partition, exception)

variable {dt : T} {partition : PreparedSubstep T}

omit [CadenceDouble T] in
theorem runBalanceDueWindow_open (dispatcher : Dispatcher T) (macroStep : ℤ) (inner : Dispatcher T → Run T)
    (outside : dispatcher.dueTarget = none) (live : dispatcher.replayActive = false)
    (window : beginBalanceDueWindow runtime macroStep = .ok ()) :
    dispatcher.runBalanceDueWindow runtime macroStep inner =
      ((inner { dispatcher with dueTarget := some (macroStep + 1) }).1,
        { (inner { dispatcher with dueTarget := some (macroStep + 1) }).2 with dueTarget := none }) := by
  simp only [runBalanceDueWindow, outside, live, window]
  rfl

theorem dispatch_failed (fails : BodyFails runtime program dispatcher dt step partition exception) :
    dispatch runtime (some program) dt dispatcher =
      (.error exception, dispatcher.withLastDt (CadenceDouble.toReal partition.dt)) := by
  have opened := runBalanceDueWindow_open { dispatcher with active := true } dispatcher.cursor.macroStep
    (body runtime program step dispatcher.cadence.substeps
      (dispatcher.cursor.macroStep - (step.windowSteps - 1)) (substepIndices dispatcher.cadence.substeps))
    fails.outside fails.live fails.window
  rw [body_failed fails.failed] at opened
  have left : attempt runtime program step { dispatcher with active := true } =
      (.error exception, { dispatcher with
        active := true
        dueTarget := none
        cursor := ⟨partition.start, dispatcher.cursor.macroStep - (step.windowSteps - 1)⟩
        cadence := { dispatcher.cadence with lastDt := CadenceDouble.toReal partition.dt } }) := by
    simp only [attempt, runDue, fails.due, if_true, fails.partitioned, if_neg (not_lt.mpr fails.phase), opened]
    rfl
  have free : ¬ dispatcher.active = true := by simp [fails.free]
  simp only [dispatch, if_neg free, fails.prepared, if_neg fails.counted, left]
  have outside := fails.outside
  have unmarked := fails.free
  obtain ⟨cadence, cursor, active, dueTarget, replayActive, stepCompleted, programWasDue⟩ := dispatcher
  cases outside
  cases unmarked
  rfl

/-- A new runtime that holds a last dt. -/
def started (lastDt : Binary64) : Dispatcher Binary64 :=
  ⟨{ fresh with lastDt }, ⟨zero, 0⟩, false, none, false, false, false⟩

def throwing : Program Binary64 := fun _ _ => .error (.runtimeError "injected cadence substep failure")

/-- The step over the first unit of time. -/
def firstStep : PreparedStep Binary64 := prepared fresh ⟨zero, 0⟩ (Binary64.rounded 1)

theorem firstStep_prepared (lastDt : Binary64) :
    prepareStep "System" (started lastDt).cadence (started lastDt).cursor (Binary64.rounded 1) = .ok firstStep := by
  have numbers : Representable (fresh : State Binary64) ⟨zero, 0⟩ (Binary64.rounded 1) := by
    constructor <;> decide +kernel
  have sound : Sound (fresh : State Binary64) inactive ⟨zero, 0⟩ := by
    constructor <;> decide +kernel
  apply prepareStep_ok.mpr
  refine ⟨rfl, sound.congr rfl rfl, ?_, rfl⟩
  exact ⟨numbers.finite, numbers.positive, numbers.endFinite, numbers.advances, numbers.effectiveFinite, numbers.grows,
    numbers.numericalFinite, numbers.numericalPositive, numbers.coherent⟩

theorem firstStep_partition :
    prepareSubstep "System" firstStep 0 1 = .ok ⟨firstStep.windowStart, firstStep.windowEnd, firstStep.numericalDt⟩ := by
  have partitioned : ¬ ((1 : ℤ) < 1 ∨ (0 : ℤ) < 0 ∨ (0 : ℤ) ≥ 1) := by decide
  have coherent : ¬ (Double.isFinite (firstStep.endpoint 1 0) = false ∨
      Double.isFinite (firstStep.endpoint 1 (0 + 1)) = false ∨ Double.isFinite firstStep.numericalDt = false ∨
      Double.less (firstStep.endpoint 1 0) (firstStep.endpoint 1 (0 + 1)) = false ∨
      isPositive firstStep.numericalDt = false ∨
      CadenceDouble.equal (Double.add (firstStep.endpoint 1 0) firstStep.numericalDt)
        (firstStep.endpoint 1 (0 + 1)) = false) := by
    decide +kernel
  have due : ¬ firstStep.due = false := by decide +kernel
  rw [prepareSubstep, throwIf_of_not due, ok_bind, throwIf_of_not partitioned, ok_bind]
  simp only [if_true]
  rw [throwIf_of_not coherent]
  rfl

theorem started_fails (lastDt : Binary64) :
    BodyFails "System" throwing (started lastDt) (Binary64.rounded 1) firstStep
      ⟨firstStep.windowStart, firstStep.windowEnd, firstStep.numericalDt⟩
      (.runtimeError "injected cadence substep failure") where
  free := rfl
  prepared := firstStep_prepared lastDt
  counted := (by decide : (0 : ℤ) ≠ intMax)
  due := by decide +kernel
  partitioned := (by decide +kernel : validatePartition "System" firstStep 1 = .ok ())
  phase := (by decide +kernel : firstStep.windowSteps - 1 ≤ 0)
  outside := rfl
  live := rfl
  window := rfl
  failed := by
    have loop : substepIndices (started lastDt).cadence.substeps = [0] := rfl
    rw [loop, firstFailure]
    have opened : prepareSubstep "System" firstStep 0 (started lastDt).cadence.substeps = _ := firstStep_partition
    rw [opened]
    rfl

/-- The state before is back, and a retry runs as if nothing had been tried, exactly when the substep
that failed has the dt that was the last one. -/
theorem failed_dispatch_restores_iff
    (fails : BodyFails runtime program dispatcher dt step partition exception) :
    ((dispatch runtime (some program) dt dispatcher).2 = dispatcher ∧
        ∀ retried other, dispatch runtime retried other (dispatch runtime (some program) dt dispatcher).2 =
          dispatch runtime retried other dispatcher) ↔
      CadenceDouble.toReal partition.dt = dispatcher.cadence.lastDt := by
  rw [dispatch_failed fails]
  constructor
  · rintro ⟨restored, -⟩
    exact congrArg (fun left : Dispatcher T => left.cadence.lastDt) restored
  · intro same
    have restored : dispatcher.withLastDt (CadenceDouble.toReal partition.dt) = dispatcher := by
      rw [same]
      rfl
    refine ⟨restored, ?_⟩
    intro retried other
    rw [restored]

/-- A runtime that steps by one all the time is as it was after a step by one has failed. -/
theorem steady_dispatch_restores :
    (dispatch "System" (some throwing) (Binary64.rounded 1) (started (Binary64.rounded 1))).2 =
        started (Binary64.rounded 1) ∧
      ∀ retried other, dispatch "System" retried other
          (dispatch "System" (some throwing) (Binary64.rounded 1) (started (Binary64.rounded 1))).2 =
        dispatch "System" retried other (started (Binary64.rounded 1)) :=
  (failed_dispatch_restores_iff (started_fails (Binary64.rounded 1))).mpr (by decide +kernel)

/-- The first step of a runtime fails and stays behind as its last dt. -/
theorem first_dispatch_leaves_dt :
    (dispatch "System" (some throwing) (Binary64.rounded 1) (started zero)).1 =
        .error (.runtimeError "injected cadence substep failure") ∧
      (started zero).cadence.lastDt = zero ∧
      (dispatch "System" (some throwing) (Binary64.rounded 1) (started zero)).2.cadence.lastDt = Binary64.rounded 1 ∧
      Binary64.rounded 1 ≠ zero := by
  rw [dispatch_failed (started_fails zero)]
  exact ⟨rfl, rfl, rfl, by decide +kernel⟩

end Pops.Cadence.Dispatcher
