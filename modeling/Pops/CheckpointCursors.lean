import Pops.ConsumerTransaction

/-!
The consumer transactions of one accepted step, and the cursors that its checkpoint seals.
The cursors are predicted while the transactions are staged, and computed again once they
are accepted.
-/
namespace Pops.CheckpointCursors
open ConsumerTransaction

/-- The plan of one clock, and how the publisher's calls end while it is staged and accepted. -/
structure Planned where
  plan : EffectPlan
  staging : List Outcome
  acceptance : List Outcome

def skips (effect : AcceptedSideEffect) : Bool :=
  match effect.failureAction with
  | .skipSampleReported => true
  | _ => false

/-- The cursors after the effects, in their order. -/
def predicted (cursors : CursorSet) (effects : List AcceptedSideEffect) : CursorSet :=
  effects.foldl (fun cursors effect => cursors.replace effect.cursorAfter) cursors

/-- `_checkpoint_cursor_override` as `_stage_consumers` sets it, or why it refuses. -/
def checkpointOverride (isCheckpoint : String → Bool) (cursors : CursorSet) (effects : List AcceptedSideEffect) :
    Except String (Option CursorSet) :=
  let checkpointEffects := effects.filter fun effect => isCheckpoint effect.consumerId
  if checkpointEffects.isEmpty then .ok none
  else if checkpointEffects.length ≠ 1 ∨ !(effects.getLast?.any fun effect => isCheckpoint effect.consumerId) then
    .error "an accepted transaction may publish exactly one checkpoint and it must be the final ConsumerGraph effect"
  else if effects.any skips then
    .error "a checkpoint transaction cannot predict restart cursors when another effect may skip its sample"
  else .ok (some (predicted cursors effects))

/-- A transaction constructed in `_stage_consumers`, where a checkpoint seals `snapshot`. -/
def stage (cursors snapshot : CursorSet) (p : Planned) : State :=
  run cursors snapshot (construct p.plan cursors) (p.staging.map .returned)

/-- The transaction accepted. The override is reset by then, so that a checkpoint prepared
again seals the cursors the runtime still holds. -/
def accept (cursors snapshot : CursorSet) (p : Planned) : State :=
  run cursors cursors (step cursors cursors (stage cursors snapshot p) .accept) (p.acceptance.map .returned)

def isStaged (s : State) : Bool :=
  match s.control, s.status with
  | .idle, .staged => true
  | _, _ => false

def isAccepted (s : State) : Bool :=
  match s.control, s.status with
  | .idle, .accepted => true
  | _, _ => false

/-- The transactions of an accepted step, and the cursors the runtime holds after it. -/
structure Accepted where
  transactions : List State
  cursors : CursorSet

/-- The plans that have effects. -/
def duePlans (planned : List Planned) : List Planned := planned.filter fun p => !p.plan.effects.isEmpty

/-- The effects of all due plans. -/
def allEffects (planned : List Planned) : List AcceptedSideEffect := (duePlans planned).flatMap fun p => p.plan.effects

/-- `_stage_consumers` and `_accept_consumers`, when the step is accepted. -/
def acceptedStep (isCheckpoint : String → Bool) (cursors : CursorSet) (planned : List Planned) : Option Accepted :=
  let plans := duePlans planned
  match checkpointOverride isCheckpoint cursors (allEffects planned) with
  | .error _ => none
  | .ok override =>
    let snapshot := override.getD cursors
    if plans.all (fun p => isStaged (stage cursors snapshot p) && isAccepted (accept cursors snapshot p)) then
      let transactions := plans.map (accept cursors snapshot)
      some { transactions, cursors := (transactions.flatMap State.cursorUpdates).foldl CursorSet.replace cursors }
    else none

/-- A `publish` of the checkpoint fails while the transaction is accepted, along its outcomes. -/
def retried (isCheckpoint : String → Bool) (cursors : CursorSet) : State → List Outcome → Bool
  | _, [] => false
  | s, outcome :: outcomes =>
    (match s.control, outcome with
      | .publish _ _, .ok => false
      | .publish held _, _ => isCheckpoint held.effect.consumerId
      | _, _ => false) || retried isCheckpoint cursors (step cursors cursors s (.returned outcome)) outcomes

end Pops.CheckpointCursors
