import Pops.Cadence

/-!
`dispatch_cadence_step` of `runtime/program/program_runtime_state.hpp` with the
state it leaves when it throws. The clock is put back by hand, the marks of the
dispatch and of the due window are taken away on the way out.
-/
namespace Pops.Cadence

variable {T : Type} [CadenceDouble T]

/-- What the dispatcher reads and writes. -/
structure Dispatcher (T : Type) where
  cadence : State T
  cursor : Cursor T
  /-- `cadence_dispatch_active_`. -/
  active : Bool
  /-- `balance_due_target_step_`, inside an active due window only. -/
  dueTarget : Option ℤ
  replayActive : Bool
  stepCompleted : Bool
  programWasDue : Bool

namespace Dispatcher

/-- A call that may throw, with what it leaves. -/
abbrev Run (T : Type) := Checked Unit × Dispatcher T

/-- The start of a substep is published before the Program is called. -/
def publish (dispatcher : Dispatcher T) (partition : PreparedSubstep T) (macroStep : ℤ) : Dispatcher T :=
  { dispatcher with
    cursor := ⟨partition.start, macroStep⟩
    cadence := { dispatcher.cadence with lastDt := CadenceDouble.toReal partition.dt } }

/-- The call that a substep makes. -/
def call (partition : PreparedSubstep T) (macroStep : ℤ) : Call T := ⟨partition.start, macroStep, partition.dt⟩

/-- The loop over the substeps of a due window. -/
def body (runtime : String) (program : Program T) (step : PreparedStep T) (substeps macroStep : ℤ) :
    List ℤ → Dispatcher T → Run T
  | [], dispatcher => (.ok (), dispatcher)
  | substep :: rest, dispatcher =>
    match prepareSubstep runtime step substep substeps with
    | .error exception => (.error exception, dispatcher)
    | .ok partition =>
      match program substep (call partition macroStep) with
      | .error exception => (.error exception, dispatcher.publish partition macroStep)
      | .ok _ =>
        body runtime program step substeps macroStep rest
          { dispatcher.publish partition macroStep with cursor := ⟨partition.stop, macroStep⟩ }

def runBalanceDueWindow (runtime : String) (macroStep : ℤ) (inner : Dispatcher T → Run T)
    (dispatcher : Dispatcher T) : Run T :=
  if dispatcher.dueTarget.isSome then
    (.error (.logicError (runtime ++ " balance due window is already active")), dispatcher)
  else if dispatcher.replayActive then
    (.error (.logicError (runtime ++ " cannot enter a public-step window during balance replay")), dispatcher)
  else
    match beginBalanceDueWindow runtime macroStep with
    | .error exception => (.error exception, dispatcher)
    | .ok _ =>
      let left := inner { dispatcher with dueTarget := some (macroStep + 1) }
      (left.1, { left.2 with dueTarget := none })

/-- The Program calls of a step, if it is due. -/
def runDue (runtime : String) (program : Program T) (step : PreparedStep T) (dispatcher : Dispatcher T) : Run T :=
  if step.due then
    match validatePartition runtime step dispatcher.cadence.substeps with
    | .error exception => (.error exception, dispatcher)
    | .ok _ =>
      if dispatcher.cursor.macroStep < step.windowSteps - 1 then
        (.error (.logicError (runtime ++ " Program cadence window starts before macro-step zero")), dispatcher)
      else
        let left := dispatcher.runBalanceDueWindow runtime dispatcher.cursor.macroStep
          (body runtime program step dispatcher.cadence.substeps
            (dispatcher.cursor.macroStep - (step.windowSteps - 1))
            (substepIndices dispatcher.cadence.substeps))
        match left with
        | (.error exception, left) => (.error exception, left)
        | (.ok _, left) => (.ok (), { left with cursor := dispatcher.cursor })
  else (.ok (), dispatcher)

/-- The commit of the window and of the public clock. -/
def commit (runtime : String) (step : PreparedStep T) (dispatcher : Dispatcher T) : Run T :=
  match commitStep runtime dispatcher.cadence step with
  | .error exception => (.error exception, dispatcher)
  | .ok cadence =>
    (.ok (), { dispatcher with
      cadence
      cursor := ⟨step.windowEnd, dispatcher.cursor.macroStep + 1⟩
      stepCompleted := true
      programWasDue := step.due })

/-- The body of the `try`. -/
def attempt (runtime : String) (program : Program T) (step : PreparedStep T) (dispatcher : Dispatcher T) : Run T :=
  match dispatcher.runDue runtime program step with
  | (.error exception, left) => (.error exception, left)
  | (.ok _, left) => left.commit runtime step

/-- `dispatch_cadence_step`. -/
def dispatch (runtime : String) (program : Option (Program T)) (dt : T) (dispatcher : Dispatcher T) : Run T :=
  if dispatcher.active then
    (.error (.logicError (runtime ++ " Program cadence dispatch is non-reentrant")), dispatcher)
  else
    match program with
    | none =>
      (.error (.logicError (runtime ++ " Program cadence dispatch requires an installed whole-system Program")),
        dispatcher)
    | some program =>
      match prepareStep runtime dispatcher.cadence dispatcher.cursor dt with
      | .error exception => (.error exception, dispatcher)
      | .ok step =>
        if dispatcher.cursor.macroStep = intMax then
          (.error (.overflowError (runtime ++ " Program cadence macro-step counter overflow")), dispatcher)
        else
          match attempt runtime program step { dispatcher with active := true } with
          | (.error exception, left) =>
            (.error exception, { left with cursor := dispatcher.cursor, active := false })
          | (.ok _, left) => (.ok (), { left with active := false })

end Dispatcher

end Pops.Cadence
