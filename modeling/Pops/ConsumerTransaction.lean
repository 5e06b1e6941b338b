import Mathlib
import Pops.OrderedMap

/-!
The transaction over the publications of one effect plan. Every call of the publisher is one
step, and so is every call of a method: the lists and locals of the source are the state, and
the control point says which call is next.
-/
namespace Pops.ConsumerTransaction

/-- `FailRun`, `Retry` and `SkipSampleReported`. -/
inductive FailureAction where
  | failRun
  | retry (maxAttempts : ℕ) (atLeast : 2 ≤ maxAttempts)
  | skipSampleReported

structure ScheduleCursor where
  consumerId : String
  lastOccurrence : Option String
  committedSamples : ℕ
  deriving DecidableEq

/-- `ConsumerCursorSet`: the cursors by consumer id. -/
abbrev CursorSet := List (String × ScheduleCursor)

namespace CursorSet

/-- `for_consumer`. -/
def forConsumer (cursors : CursorSet) (consumerId : String) : ScheduleCursor :=
  (OrderedMap.find (fun left right => decide (left < right)) consumerId cursors).getD
    { consumerId, lastOccurrence := none, committedSamples := 0 }

/-- `replace`. -/
def replace (cursors : CursorSet) (cursor : ScheduleCursor) : CursorSet :=
  OrderedMap.update (fun left right => decide (left < right)) cursor.consumerId (fun _ => cursor) cursors

end CursorSet

/-- `AcceptedSideEffect`, with what `__post_init__` checks. -/
structure AcceptedSideEffect where
  ordinal : ℕ
  consumerId : String
  occurrence : String
  failureAction : FailureAction
  cursorBefore : ScheduleCursor
  cursorAfter : ScheduleCursor
  before_consumer : cursorBefore.consumerId = consumerId
  after_consumer : cursorAfter.consumerId = consumerId
  after_occurrence : cursorAfter.lastOccurrence = some occurrence
  after_samples : cursorAfter.committedSamples = cursorBefore.committedSamples + 1

/-- `EffectPlan`: the ordinals of the effects are contiguous. -/
structure EffectPlan where
  effects : List AcceptedSideEffect
  contiguous : effects.map AcceptedSideEffect.ordinal = List.range effects.length

/-- `_attempt_limit`. -/
def attemptLimit (effect : AcceptedSideEffect) : ℕ :=
  match effect.failureAction with
  | .retry maxAttempts _ => maxAttempts
  | _ => 1

/-- A publication the transaction obtained: the effect, which of the publisher's objects it
is, the attempt that made it, and the cursors a checkpoint seals when it is prepared. -/
structure Held where
  effect : AcceptedSideEffect
  id : ℕ
  attempts : ℕ
  sealedCursors : CursorSet

/-- How a call of the publisher ends. An unauthenticated value is returned and then refused;
a raised one may have had its effect before. `interrupted` is any `BaseException` that is not
an `Exception`. -/
inductive Outcome where
  | ok
  | unauthenticated
  | failed (effective : Bool)
  | interrupted (effective : Bool)

/-- The artifact is as the call would leave it. -/
def Outcome.effective : Outcome → Bool
  | .ok | .unauthenticated => true
  | .failed effective | .interrupted effective => effective

/-- What a loop over `discard` or `rollback` is for. -/
inductive Purpose where
  | failing
  | rejecting
  | compensating
  | rollingBack

/-- Where the transaction stands: with its caller, or before a call of the publisher. -/
inductive Control where
  | idle
  | prepare (effect : AcceptedSideEffect) (attempts : ℕ) (todo : List AcceptedSideEffect)
  | publish (held : Held) (pending : List Held)
  | rollback (held : Held) (pending : List Held)
  | reprepare (effect : AcceptedSideEffect) (attempts : ℕ) (pending : List Held)
  | cleanup (held : Held) (later : List Held) (clean : Bool) (purpose : Purpose)

inductive Status where
  | preparing
  | staged
  | accepted
  | rejected
  | failed

/-- `ConsumerTransactionReport`: the publications its receipts name. -/
structure Report where
  status : Status
  cursors : CursorSet
  published : List ℕ

/-- The transaction and what its calls have done: how many objects it obtained, which of their
artifacts are visible, and which were discarded or rolled back, with success or without. -/
structure State where
  status : Status
  prepared : List Held
  accepted : List Held
  cursorUpdates : List ScheduleCursor
  skipped : List ℕ
  cursors : CursorSet
  published : List ℕ
  report : Option Report
  control : Control
  obtained : ℕ
  visible : List ℕ
  cleaned : List ℕ
  troubled : List ℕ
  attempted : List ℕ

/-- A call of the publisher ends, or the caller calls a method. -/
inductive Event where
  | returned (outcome : Outcome)
  | accept
  | reject
  | rollbackAccepted
  | abort

/-- `_prepare_all` goes on with the next effect. -/
def prepareNext (s : State) : List AcceptedSideEffect → State
  | [] => { s with status := .staged, control := .idle }
  | effect :: todo => { s with control := .prepare effect 0 todo }

/-- `ConsumerTransaction.__init__`. A stale plan is refused before anything is prepared. -/
def construct (plan : EffectPlan) (cursors : CursorSet) : State :=
  let fresh : State :=
    { status := .preparing, prepared := [], accepted := [], cursorUpdates := [], skipped := [], cursors,
      published := [], report := none, control := .idle, obtained := 0, visible := [], cleaned := [],
      troubled := [], attempted := [] }
  if plan.effects.all fun effect => cursors.forConsumer effect.consumerId = effect.cursorBefore then
    prepareNext fresh plan.effects
  else fresh

/-- What a cleanup loop leaves once every publication of it was called. -/
def cleanupDone (initial : CursorSet) (s : State) (clean : Bool) : Purpose → State
  | .failing =>
    { s with prepared := [], status := .failed, control := .idle,
             report := some { status := .failed, cursors := initial, published := [] } }
  | .rejecting =>
    let status := if clean then Status.rejected else .failed
    { s with prepared := [], status, control := .idle,
             report := some { status, cursors := initial, published := [] } }
  | .compensating =>
    let s := { s with accepted := [], cursorUpdates := [] }
    match s.prepared.reverse with
    | [] =>
      { s with status := .failed, control := .idle,
               report := some { status := .failed, cursors := initial, published := [] } }
    | held :: later => { s with control := .cleanup held later true .failing }
  | .rollingBack =>
    let status := if clean then Status.rejected else .failed
    { s with accepted := [], cursorUpdates := [], status, control := .idle,
             report := some { status, cursors := initial, published := [] } }

/-- `_discard_staged` and `_rollback_accepted`, over what is left of the reversed list. -/
def cleanupNext (initial : CursorSet) (s : State) (clean : Bool) (purpose : Purpose) : List Held → State
  | [] => cleanupDone initial s clean purpose
  | held :: later => { s with control := .cleanup held later clean purpose }

/-- The failure of `accept`: what is pending is staged again, the accepted is rolled back,
and `_failed` discards the staged. -/
def failAccept (initial : CursorSet) (s : State) (pending : List Held) : State :=
  cleanupNext initial { s with prepared := s.prepared ++ pending } true .compensating s.accepted.reverse

/-- The `while` of `accept`. -/
def acceptNext (s : State) : List Held → State
  | [] =>
    { s with status := .accepted, control := .idle,
             cursorUpdates := s.accepted.map fun held => held.effect.cursorAfter,
             report := some { status := .accepted, cursors := s.cursors, published := s.published } }
  | held :: pending => { s with control := .publish held pending }

/-- The attempt of `_prepare_one` is counted, and so is an object that was returned. -/
def attempt (s : State) (effect : AcceptedSideEffect) : Outcome → State
  | .ok | .unauthenticated => { s with attempted := effect.ordinal :: s.attempted, obtained := s.obtained + 1 }
  | .failed _ | .interrupted _ => { s with attempted := effect.ordinal :: s.attempted }

/-- A call of `discard` or `rollback`, with the transfer of its recoveries. -/
def clean (s : State) (held : Held) : Outcome → State
  | .ok => { s with cleaned := held.id :: s.cleaned, visible := s.visible.filter (· ≠ held.id) }
  | outcome =>
    { s with cleaned := held.id :: s.cleaned, troubled := held.id :: s.troubled,
             visible := if outcome.effective then s.visible.filter (· ≠ held.id) else s.visible }

/-- A call of `publish`. -/
def makeVisible (s : State) (held : Held) (outcome : Outcome) : State :=
  if outcome.effective then { s with visible := held.id :: s.visible } else s

/-- A call of `prepare` from `_prepare_all` ends. -/
def prepareReturned (initial snapshot : CursorSet) (s : State) (effect : AcceptedSideEffect) (attempts : ℕ)
    (todo : List AcceptedSideEffect) (outcome : Outcome) : State :=
  let called := attempt s effect outcome
  match outcome with
  | .ok =>
    let held : Held := { effect, id := s.obtained, attempts := attempts + 1, sealedCursors := snapshot }
    prepareNext { called with prepared := called.prepared ++ [held] } todo
  | .unauthenticated | .failed _ =>
    if attempts + 1 < attemptLimit effect then { called with control := .prepare effect (attempts + 1) todo }
    else
      match effect.failureAction with
      | .skipSampleReported => prepareNext { called with skipped := called.skipped ++ [effect.ordinal] } todo
      | _ => cleanupNext initial called true .failing called.prepared.reverse
  | .interrupted _ => { called with control := .idle }

/-- A call of `publish` ends. -/
def publishReturned (s : State) (held : Held) (pending : List Held) (outcome : Outcome) : State :=
  let called := makeVisible s held outcome
  match outcome with
  | .ok =>
    acceptNext { called with published := called.published ++ [held.id], accepted := called.accepted ++ [held],
                             cursors := called.cursors.replace held.effect.cursorAfter } pending
  | .unauthenticated | .failed _ => { called with control := .rollback held pending }
  | .interrupted _ => { called with control := .idle }

/-- The call of `rollback` after a failed `publish` ends. -/
def rollbackReturned (initial : CursorSet) (s : State) (held : Held) (pending : List Held) (outcome : Outcome) : State :=
  let called := clean s held outcome
  match outcome, held.effect.failureAction with
  | .interrupted _, _ => { called with control := .idle }
  | .ok, .retry maxAttempts _ =>
    if held.attempts < maxAttempts then { called with control := .reprepare held.effect held.attempts pending }
    else failAccept initial called pending
  | .ok, .skipSampleReported => acceptNext { called with skipped := called.skipped ++ [held.effect.ordinal] } pending
  | _, .skipSampleReported =>
    failAccept initial { called with skipped := called.skipped ++ [held.effect.ordinal] } pending
  | _, _ => failAccept initial called pending

/-- A call of `prepare` for a publication that is tried again ends. -/
def reprepareReturned (initial snapshot : CursorSet) (s : State) (effect : AcceptedSideEffect) (attempts : ℕ)
    (pending : List Held) (outcome : Outcome) : State :=
  let called := attempt s effect outcome
  match outcome with
  | .ok =>
    let held : Held := { effect, id := s.obtained, attempts := attempts + 1, sealedCursors := snapshot }
    acceptNext called (held :: pending)
  | .unauthenticated | .failed _ =>
    if attempts + 1 < attemptLimit effect then { called with control := .reprepare effect (attempts + 1) pending }
    else failAccept initial called pending
  | .interrupted _ => { called with control := .idle }

/-- A call of a cleanup loop ends. An interrupted loop clears nothing. -/
def cleanupReturned (initial : CursorSet) (s : State) (held : Held) (later : List Held) (tidy : Bool) (purpose : Purpose)
    (outcome : Outcome) : State :=
  let called := clean s held outcome
  match outcome with
  | .ok => cleanupNext initial called tidy purpose later
  | .unauthenticated | .failed _ => cleanupNext initial called false purpose later
  | .interrupted _ => { called with control := .idle }

/-- `accept`, `reject` and `rollback_accepted` as they are called. -/
def enterAccept (initial : CursorSet) (s : State) : State :=
  acceptNext { s with cursors := initial, published := [], prepared := [] } s.prepared

def enterReject (initial : CursorSet) (s : State) : State :=
  cleanupNext initial s true .rejecting s.prepared.reverse

def enterRollback (initial : CursorSet) (s : State) : State :=
  cleanupNext initial s true .rollingBack s.accepted.reverse

/-- One event. A method that the status refuses raises and changes nothing. -/
def step (initial snapshot : CursorSet) (s : State) (event : Event) : State :=
  match s.control, event with
  | .prepare effect attempts todo, .returned outcome => prepareReturned initial snapshot s effect attempts todo outcome
  | .publish held pending, .returned outcome => publishReturned s held pending outcome
  | .rollback held pending, .returned outcome => rollbackReturned initial s held pending outcome
  | .reprepare effect attempts pending, .returned outcome =>
    reprepareReturned initial snapshot s effect attempts pending outcome
  | .cleanup held later tidy purpose, .returned outcome => cleanupReturned initial s held later tidy purpose outcome
  | .idle, .accept => match s.status with | .staged => enterAccept initial s | _ => s
  | .idle, .reject => match s.status with | .staged => enterReject initial s | _ => s
  | .idle, .rollbackAccepted => match s.status with | .accepted => enterRollback initial s | _ => s
  | .idle, .abort =>
    match s.status with
    | .staged => enterReject initial s
    | .accepted => enterRollback initial s
    | _ => s
  | _, _ => s

/-- A run: the events in order. -/
def run (initial snapshot : CursorSet) (s : State) (events : List Event) : State :=
  events.foldl (step initial snapshot) s

/-- One effect of one consumer, its first sample. -/
def sampleEffect : AcceptedSideEffect where
  ordinal := 0
  consumerId := "output"
  occurrence := "0"
  failureAction := .retry 2 (Nat.le_refl 2)
  cursorBefore := { consumerId := "output", lastOccurrence := none, committedSamples := 0 }
  cursorAfter := { consumerId := "output", lastOccurrence := some "0", committedSamples := 1 }
  before_consumer := rfl
  after_consumer := rfl
  after_occurrence := rfl
  after_samples := rfl

def samplePlan : EffectPlan where
  effects := [sampleEffect]
  contiguous := rfl

end Pops.ConsumerTransaction
