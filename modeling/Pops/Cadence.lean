import Pops.Binary64

/-!
The cadence of `runtime/program/program_runtime_state.hpp`: which public steps
run the Program, over which windows of time, and how a checkpoint of a held
window comes back. An operation that throws leaves the window and the clock as
they were.
-/
namespace Pops

/-- `double` with the comparisons and conversions of the cadence. `toReal` is
a value after a cast to `Real`. -/
class CadenceDouble (T : Type) extends Double T where
  equal : T → T → Bool
  sameBits : T → T → Bool
  toReal : T → T

instance : CadenceDouble Binary64 where
  equal := MetricDouble.equal
  sameBits left right := left.bits = right.bits
  toReal value := value

variable {T : Type} [CadenceDouble T]

namespace Cadence

/-- `0.0`. -/
def zero : T := Double.ofInt64 0

/-- `value < 0.0`. -/
def isNegative (value : T) : Bool := Double.less value zero

/-- `value > 0.0`. -/
def isPositive (value : T) : Bool := Double.less zero value

/-- A held window: its duration, its count of steps and its start. -/
structure Window (T : Type) where
  dt : T
  steps : ℤ
  startTime : T

/-- `cadence_clock_restore_*`: a staged checkpoint. -/
structure RestoreImage (T : Type) where
  window : Window T
  lastDt : T
  acceptedTime : T
  macroStep : ℤ

/-- The cadence members of `ProgramRuntimeState`. -/
structure State (T : Type) where
  substeps : ℤ
  stride : ℤ
  window : Window T
  restore : Option (RestoreImage T)
  lastDt : T

/-- The clock that the runtime lends. -/
structure Cursor (T : Type) where
  time : T
  macroStep : ℤ

/-- The canonical image without held steps. -/
def inactive : Window T := ⟨zero, 0, zero⟩

/-- A new `ProgramRuntimeState`. -/
def fresh : State T := ⟨1, 1, inactive, none, zero⟩

def setCadence (runtime : String) (state : State T) (substeps stride : ℤ) : Checked (State T) := do
  throwIf (substeps < 1) (.invalidArgument
    (runtime ++ "::set_program_cadence: substeps >= 1 required (got " ++ toString substeps ++ ")"))
  throwIf (stride < 1) (.invalidArgument
    (runtime ++ "::set_program_cadence: stride >= 1 required (got " ++ toString stride ++ ")"))
  throwIf
    ((state.window.steps ≠ 0 ∨ CadenceDouble.equal state.window.dt zero = false ∨
        CadenceDouble.equal state.window.startTime zero = false ∨ state.restore.isSome) ∧
      (substeps ≠ state.substeps ∨ stride ≠ state.stride))
    (.logicError (runtime ++ "::set_program_cadence cannot change an active or restoring stride window"))
  return { state with substeps, stride }

/-- `validate_cadence_window_image`. -/
def validateWindowImage (runtime : String) (state : State T) (window : Window T) (macroStep : ℤ) :
    Checked Unit := do
  throwIf (macroStep < 0) (.invalidArgument (runtime ++ " Program cadence requires macro_step >= 0"))
  throwIf (state.stride < 1 ∨ state.substeps < 1)
    (.logicError (runtime ++ " Program cadence configuration is invalid"))
  throwIf (window.steps < 0 ∨ window.steps ≥ state.stride)
    (.runtimeError (runtime ++ " Program cadence window has an invalid held-step count"))
  throwIf (window.steps ≠ macroStep.tmod state.stride)
    (.runtimeError (runtime ++ " Program cadence window phase differs from the authoritative macro-step; " ++
      "restore the strict cadence-window checkpoint state before set_clock"))
  throwIf (Double.isFinite window.dt = false ∨ isNegative window.dt)
    (.runtimeError (runtime ++ " Program cadence window duration must be finite and non-negative"))
  throwIf (Double.isFinite window.startTime = false)
    (.runtimeError (runtime ++ " Program cadence window start time must be finite"))
  throwIf (decide (window.steps = 0) ≠ CadenceDouble.equal window.dt zero)
    (.runtimeError (runtime ++ " Program cadence window duration/count are inconsistent " ++
      "(zero iff no step is held)"))
  throwIf (window.steps = 0 ∧ CadenceDouble.equal window.startTime zero = false)
    (.runtimeError (runtime ++ " Program cadence inactive window must use the canonical zero start time"))

/-- `validate_cadence_window_time_image`. -/
def validateWindowTimeImage (runtime : String) (window : Window T) (acceptedTime : T) : Checked Unit := do
  throwIf (Double.isFinite acceptedTime = false)
    (.invalidArgument (runtime ++ " Program cadence requires a finite accepted time"))
  throwIf (window.steps ≠ 0 ∧ Double.less window.startTime acceptedTime = false)
    (.runtimeError (runtime ++ " Program cadence active window start must precede the accepted physical time"))

/-- `PreparedCadenceStep`. -/
structure PreparedStep (T : Type) where
  due : Bool
  effectiveDt : T
  windowStart : T
  windowEnd : T
  numericalDt : T
  windowSteps : ℤ

/-- `prepare_cadence_step`. -/
def prepareStep (runtime : String) (state : State T) (cursor : Cursor T) (dt : T) : Checked (PreparedStep T) := do
  throwIf state.restore.isSome
    (.runtimeError (runtime ++ " Program cadence clock restore was not completed by set_clock"))
  validateWindowImage runtime state state.window cursor.macroStep
  validateWindowTimeImage runtime state.window cursor.time
  throwIf (Double.isFinite dt = false ∨ isPositive dt = false)
    (.invalidArgument (runtime ++ " Program cadence requires a finite positive dt"))
  let finalTime := Double.add cursor.time dt
  throwIf (Double.isFinite finalTime = false ∨ Double.less cursor.time finalTime = false)
    (.overflowError (runtime ++ " Program cadence dt does not advance the finite physical clock"))
  let effectiveDt := Double.add state.window.dt dt
  throwIf (Double.isFinite effectiveDt = false ∨ Double.less state.window.dt effectiveDt = false)
    (.overflowError (runtime ++ " Program cadence dt does not advance the accumulated window duration"))
  let windowStart := if state.window.steps = 0 then cursor.time else state.window.startTime
  let numericalDt := if state.window.steps = 0 then dt else Double.sub finalTime windowStart
  throwIf (Double.isFinite numericalDt = false ∨ isPositive numericalDt = false ∨
      CadenceDouble.equal (Double.add windowStart numericalDt) finalTime = false)
    (.overflowError (runtime ++ " Program cadence cannot represent one coherent facade/Program window endpoint"))
  let windowSteps := state.window.steps + 1
  throwIf (windowSteps < 1 ∨ windowSteps > state.stride)
    (.logicError (runtime ++ " Program cadence window crossed its configured stride"))
  return ⟨windowSteps = state.stride, effectiveDt, windowStart, finalTime, numericalDt, windowSteps⟩

/-- `PreparedCadenceSubstep`. -/
structure PreparedSubstep (T : Type) where
  start : T
  stop : T
  dt : T

/-- A boundary of the partition of a window. -/
def PreparedStep.endpoint (step : PreparedStep T) (substeps boundary : ℤ) : T :=
  if boundary = 0 then step.windowStart
  else if boundary = substeps then step.windowEnd
  else Double.add step.windowStart
    (Double.mul step.numericalDt (Double.div (Double.ofInt64 boundary) (Double.ofInt64 substeps)))

/-- `prepare_cadence_substep`. -/
def prepareSubstep (runtime : String) (step : PreparedStep T) (substep substeps : ℤ) :
    Checked (PreparedSubstep T) := do
  throwIf (step.due = false) (.logicError (runtime ++ " Program cadence cannot partition a held window"))
  throwIf (substeps < 1 ∨ substep < 0 ∨ substep ≥ substeps)
    (.logicError (runtime ++ " Program cadence received an invalid substep partition"))
  let start := step.endpoint substeps substep
  let stop := step.endpoint substeps (substep + 1)
  let dt := if substeps = 1 then step.numericalDt else Double.sub stop start
  throwIf (Double.isFinite start = false ∨ Double.isFinite stop = false ∨ Double.isFinite dt = false ∨
      Double.less start stop = false ∨ isPositive dt = false ∨
      CadenceDouble.equal (Double.add start dt) stop = false)
    (.overflowError (runtime ++ " Program cadence partition cannot represent a positive coherent substep endpoint"))
  return ⟨start, stop, dt⟩

/-- The substeps of a loop. -/
def substepIndices (substeps : ℤ) : List ℤ := (List.range substeps.toNat).map Int.ofNat

/-- A window that spans no time, or does not end where it should. -/
def PreparedStep.Incoherent (step : PreparedStep T) : Prop :=
  Double.isFinite step.windowStart = false ∨ Double.isFinite step.windowEnd = false ∨
    Double.isFinite step.numericalDt = false ∨ Double.less step.windowStart step.windowEnd = false ∨
    isPositive step.numericalDt = false ∨
    CadenceDouble.equal (Double.add step.windowStart step.numericalDt) step.windowEnd = false

instance (step : PreparedStep T) : Decidable step.Incoherent := by
  unfold PreparedStep.Incoherent
  infer_instance

/-- `validate_cadence_partition`. -/
def validatePartition (runtime : String) (step : PreparedStep T) (substeps : ℤ) : Checked Unit := do
  throwIf (substeps < 1 ∨ step.due = false ∨ step.Incoherent)
    (.logicError (runtime ++ " Program cadence prepared an invalid numerical window"))
  (substepIndices substeps).forM fun substep => do
    let _ ← prepareSubstep runtime step substep substeps

/-- `commit_cadence_step`. -/
def commitStep (runtime : String) (state : State T) (step : PreparedStep T) : Checked (State T) := do
  throwIf (step.windowSteps ≠ state.window.steps + 1 ∨ step.windowSteps < 1 ∨ step.windowSteps > state.stride ∨
      step.due ≠ decide (step.windowSteps = state.stride) ∨ Double.isFinite step.effectiveDt = false ∨
      isPositive step.effectiveDt = false ∨ step.Incoherent)
    (.logicError (runtime ++ " Program cadence attempted to commit an invalid step image"))
  if step.due then return { state with window := inactive }
  else return { state with window := ⟨step.effectiveDt, step.windowSteps, step.windowStart⟩ }

/-- What the Program sees of one substep: the clock and its step. -/
structure Call (T : Type) where
  time : T
  macroStep : ℤ
  dt : T

/-- `step_`: what the Program does in a substep of a window. -/
abbrev Program (T : Type) := ℤ → Call T → Checked Unit

/-- The substeps of a due window, run one by one. -/
def runSubsteps (runtime : String) (program : Program T) (step : PreparedStep T) (substeps macroStep : ℤ) :
    Checked (List (Call T)) :=
  (substepIndices substeps).mapM fun substep => do
    let partition ← prepareSubstep runtime step substep substeps
    let call := ⟨partition.start, macroStep, partition.dt⟩
    program substep call
    return call

/-- `begin_balance_due_window`, of a step that no other window encloses. -/
def beginBalanceDueWindow (runtime : String) (macroStep : ℤ) : Checked Unit :=
  throwIf (macroStep < 0 ∨ macroStep = intMax)
    (.overflowError (runtime ++ " balance due target step is not representable"))

/-- The Program calls of a step. -/
def runStep (runtime : String) (program : Program T) (state : State T) (step : PreparedStep T) (macroStep : ℤ) :
    Checked (List (Call T)) := do
  if step.due then
    validatePartition runtime step state.substeps
    let heldBeforeDue := step.windowSteps - 1
    throwIf (macroStep < heldBeforeDue)
      (.logicError (runtime ++ " Program cadence window starts before macro-step zero"))
    beginBalanceDueWindow runtime macroStep
    runSubsteps runtime program step state.substeps (macroStep - heldBeforeDue)
  else return []

/-- `dispatch_cadence_step`: the state and the clock after it, and the Program
calls it made. -/
def dispatchStep (runtime : String) (program : Option (Program T)) (state : State T) (cursor : Cursor T) (dt : T) :
    Checked (State T × Cursor T × List (Call T)) := do
  match program with
  | none => .error (.logicError (runtime ++ " Program cadence dispatch requires an installed whole-system Program"))
  | some program =>
    let step ← prepareStep runtime state cursor dt
    throwIf (cursor.macroStep = intMax) (.overflowError (runtime ++ " Program cadence macro-step counter overflow"))
    let calls ← runStep runtime program state step cursor.macroStep
    let lastDt := (calls.getLast?.map fun call => CadenceDouble.toReal call.dt).getD state.lastDt
    let committed ← commitStep runtime { state with lastDt } step
    return (committed, ⟨step.windowEnd, cursor.macroStep + 1⟩, calls)

/-- `restore_cadence_window`. -/
def restoreWindow (runtime : String) (state : State T) (image : RestoreImage T) : Checked (State T) := do
  throwIf state.restore.isSome
    (.logicError (runtime ++ " Program cadence already has a pending clock-restore transaction"))
  validateWindowImage runtime state image.window image.macroStep
  validateWindowTimeImage runtime image.window image.acceptedTime
  throwIf (Double.isFinite image.lastDt = false ∨ isNegative image.lastDt)
    (.runtimeError (runtime ++ " Program accepted last dt must be finite and non-negative"))
  throwIf (Double.isFinite (CadenceDouble.toReal image.lastDt) = false ∨
      CadenceDouble.equal (CadenceDouble.toReal image.lastDt) image.lastDt = false)
    (.runtimeError (runtime ++ " Program accepted last dt is not exactly representable by the runtime precision"))
  return { state with restore := some image }

/-- `cancel_cadence_clock_restore`. -/
def cancelRestore (state : State T) : State T := { state with restore := none }

/-- `consume_cadence_clock_restore`. -/
def consumeRestore (runtime : String) (state : State T) (acceptedTime : T) (macroStep : ℤ) :
    Checked (State T) := do
  match state.restore with
  | some image =>
    throwIf (macroStep ≠ image.macroStep ∨ CadenceDouble.sameBits acceptedTime image.acceptedTime = false)
      (.runtimeError (runtime ++ " set_clock accepted time or macro-step differs from the restored cadence window"))
    validateWindowImage runtime state image.window image.macroStep
    validateWindowTimeImage runtime image.window image.acceptedTime
    return cancelRestore { state with window := image.window, lastDt := CadenceDouble.toReal image.lastDt }
  | none =>
    validateWindowImage runtime state state.window macroStep
    validateWindowTimeImage runtime state.window acceptedTime
    throwIf (state.window.steps ≠ 0)
      (.runtimeError (runtime ++ " set_clock cannot reuse an active stride window; restore its strict " ++
        "checkpoint image"))
    return state

def setClock (runtime : String) (state : State T) (time : T) (macroStep : ℤ) : Checked (State T × Cursor T) := do
  throwIf (macroStep < 0) (.runtimeError (runtime ++ "::set_clock : macro_step >= 0 (restart)"))
  throwIf (Double.isFinite time = false) (.runtimeError (runtime ++ "::set_clock : time must be finite"))
  let consumed ← consumeRestore runtime state time macroStep
  return (consumed, ⟨time, macroStep⟩)

/-- What a runtime asks of its cadence. `cancelRestore` is what a `set_clock`
that throws leaves behind. -/
inductive Operation (T : Type) where
  | setCadence (substeps stride : ℤ)
  | dispatch (program : Option (Program T)) (dt : T)
  | restoreWindow (image : RestoreImage T)
  | setClock (time : T) (macroStep : ℤ)
  | cancelRestore

/-- A runtime: the cadence and the clock. -/
structure Runtime (T : Type) where
  state : State T
  cursor : Cursor T

/-- One operation. -/
def Operation.run (name : String) (runtime : Runtime T) : Operation T → Checked (Runtime T)
  | setCadence substeps stride => do
    let state ← Cadence.setCadence name runtime.state substeps stride
    return { runtime with state }
  | dispatch program dt => do
    let (state, cursor, _) ← dispatchStep name program runtime.state runtime.cursor dt
    return ⟨state, cursor⟩
  | restoreWindow image => do
    let state ← Cadence.restoreWindow name runtime.state image
    return { runtime with state }
  | setClock time macroStep => do
    let (state, cursor) ← Cadence.setClock name runtime.state time macroStep
    return ⟨state, cursor⟩
  | cancelRestore => return { runtime with state := Cadence.cancelRestore runtime.state }

/-- Steps dispatched one after the other, with the Program calls of each. -/
def dispatchAll (name : String) (runtime : Runtime T) (steps : List (Option (Program T) × T)) :
    Checked (Runtime T × List (List (Call T))) :=
  steps.foldlM (fun done step => do
    let (state, cursor, calls) ← dispatchStep name step.1 done.1.state done.1.cursor step.2
    return (⟨state, cursor⟩, done.2 ++ [calls])) (runtime, [])

end Cadence

end Pops
