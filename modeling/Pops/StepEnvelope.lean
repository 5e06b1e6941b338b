import Pops.CheckpointCursors

/-!
`_accepted_step_transaction_body`: one native attempt with the consumers it fires, inside the
native step transaction. Native stores, the temporal cursors and the controller are any data;
a rollback of the native transaction restores the native stores.
-/
namespace Pops.StepEnvelope
open ConsumerTransaction
open CheckpointCursors (checkpointOverride isStaged isAccepted)

/-- `_temporal_restart_state`: the counters of unsuccessful attempts, and all the rest. -/
structure Temporal (T : Type) where
  accepted : T
  rejected : ℕ
  failed : ℕ

/-- The stores of the runtime instance. -/
structure Runtime (N T C : Type) where
  attempt : ℕ
  consumerCursors : CursorSet
  consumerReports : List Report
  checkpointCursorOverride : Option CursorSet
  temporal : Temporal T
  controller : C
  native : N

/-- How `advance` ends. The deadline is checked after the attempt was accepted. -/
inductive Advance (N T C : Type) where
  | accepted (native : N) (temporal : T) (controller : C) (attempts : ℕ)
  | crossed (native : N) (temporal : T) (controller : C)
  | rejected (native : N) (controller : C)
  | failed (native : N) (controller : C)

/-- A due plan, and how the publisher's calls for it end: while it is staged, while it is
accepted, and while it is aborted before or after that. -/
structure Due where
  plan : EffectPlan
  staging : List Outcome
  acceptance : List Outcome
  cleanupStaged : List Outcome
  cleanupAccepted : List Outcome

/-- How the calls of one step end. A native call leaves the native stores somewhere and may
raise. -/
structure Calls (N T C : Type) where
  beforeBeginRaises : Bool
  beginNative : N
  beginRaises : Bool
  advance : Advance N T C
  planningRaises : Bool
  due : List Due
  commitNative : N
  commitRaises : Bool
  finalizeNative : N
  finalizeRaises : Bool

/-- What a step leaves, and the transactions it opened. -/
structure Result (N T C : Type) where
  runtime : Runtime N T C
  accepted : Bool
  transactions : List State
  compensated : Bool

variable {N T C : Type}

/-- The control is with the caller. -/
def isIdle (s : State) : Bool :=
  match s.control with
  | .idle => true
  | _ => false

/-- `_stage_consumers`: the transactions constructed, and whether all of them are staged. There
is none while a call of the publisher has not returned. -/
def stageConsumers (cursors snapshot : CursorSet) : List Due → Option (List (State × Due) × Bool)
  | [] => some ([], true)
  | due :: later =>
    let transaction := run cursors snapshot (construct due.plan cursors) (due.staging.map .returned)
    if isStaged transaction then
      (stageConsumers cursors snapshot later).map fun staged => ((transaction, due) :: staged.1, staged.2)
    else if isIdle transaction then some ([(transaction, due)], false)
    else none

/-- `_accept_consumers`: the transactions with the outcomes of a later abort, and whether all
of them are accepted. -/
def acceptConsumers (cursors : CursorSet) : List (State × Due) → Option (List (State × List Outcome) × Bool)
  | [] => some ([], true)
  | (transaction, due) :: later =>
    let accepted := run cursors cursors (step cursors cursors transaction .accept) (due.acceptance.map .returned)
    if isAccepted accepted then
      (acceptConsumers cursors later).map fun rest => ((accepted, due.cleanupAccepted) :: rest.1, rest.2)
    else if isIdle accepted then
      some ((accepted, due.cleanupAccepted) :: later.map fun staged => (staged.1, staged.2.cleanupStaged), false)
    else none

/-- One transaction of `_abort_consumers`. -/
def abort (cursors : CursorSet) (transaction : State × List Outcome) : State :=
  run cursors cursors (step cursors cursors transaction.1 .abort) (transaction.2.map .returned)

/-- The handler before native finalization: the consumers are aborted, the native transaction
is rolled back when it was entered, and the envelope is restored, except for the unsuccessful
attempts counted meanwhile. -/
def raised (s : Runtime N T C) (native : N) (temporal : Temporal T) (entered : Bool)
    (transactions : List (State × List Outcome)) : Option (Result N T C) :=
  let aborted := transactions.map (abort s.consumerCursors)
  if aborted.all isIdle then
    some
      { runtime :=
          { s with
            native := if entered then s.native else native
            temporal :=
              { s.temporal with
                rejected := s.temporal.rejected + (temporal.rejected - s.temporal.rejected)
                failed := s.temporal.failed + (temporal.failed - s.temporal.failed) } }
        accepted := false, transactions := aborted, compensated := true }
  else none

/-- From `commit` on, with every due plan staged. -/
def finish (s : Runtime N T C) (calls : Calls N T C) (temporal : Temporal T) (controller : C) (attempts : ℕ)
    (staged : List (State × Due)) : Option (Result N T C) :=
  if calls.commitRaises then
    raised s calls.commitNative temporal true (staged.map fun transaction => (transaction.1, transaction.2.cleanupStaged))
  else
    match acceptConsumers s.consumerCursors staged with
    | none => none
    | some (transactions, false) => raised s calls.commitNative temporal true transactions
    | some (transactions, true) =>
      if calls.finalizeRaises then raised s calls.finalizeNative temporal true transactions
      else
        -- whether or not sealing raises, what was accepted stays
        let accepted := transactions.map Prod.fst
        some
          { runtime :=
              { attempt := s.attempt + attempts
                consumerCursors := (accepted.flatMap State.cursorUpdates).foldl CursorSet.replace s.consumerCursors
                consumerReports := s.consumerReports ++ accepted.filterMap State.report
                checkpointCursorOverride := s.checkpointCursorOverride
                temporal, controller, native := calls.finalizeNative }
            accepted := true, transactions := accepted, compensated := false }

/-- `_accepted_step_transaction_body`, once every call it makes has returned. -/
def acceptedStepTransaction (isCheckpoint : String → Bool) (s : Runtime N T C) (calls : Calls N T C) :
    Option (Result N T C) :=
  if calls.beforeBeginRaises then raised s s.native s.temporal false []
  else if calls.beginRaises then raised s calls.beginNative s.temporal true []
  else
    match calls.advance with
    | .rejected native _ => raised s native { s.temporal with rejected := s.temporal.rejected + 1 } true []
    | .failed native _ => raised s native { s.temporal with failed := s.temporal.failed + 1 } true []
    | .crossed native temporal _ => raised s native { s.temporal with accepted := temporal } true []
    | .accepted native temporal controller attempts =>
      let advanced := { s.temporal with accepted := temporal }
      if attempts = 0 ∨ calls.planningRaises then raised s native advanced true []
      else
        let due := calls.due.filter fun due => !due.plan.effects.isEmpty
        match checkpointOverride isCheckpoint s.consumerCursors (due.flatMap fun due => due.plan.effects) with
        | .error _ => raised s native advanced true []
        | .ok override =>
          match stageConsumers s.consumerCursors (override.getD s.consumerCursors) due with
          | none => none
          | some (staged, false) =>
            raised s native advanced true (staged.map fun transaction => (transaction.1, transaction.2.cleanupStaged))
          | some (staged, true) => finish s calls advanced controller attempts staged

end Pops.StepEnvelope
