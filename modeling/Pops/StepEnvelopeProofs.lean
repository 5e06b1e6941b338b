import Pops.StepEnvelope
import Pops.ConsumerTransactionProofs

/-!
A step ends accepted, or it leaves the stores of before it and nothing published, as long as
the calls of the publisher are orderly.
-/
namespace Pops.StepEnvelope
open ConsumerTransaction
open CheckpointCursors (checkpointOverride isStaged isAccepted)

variable {N T C : Type}

/-- The calls of the publisher for a due plan are orderly, whichever of them are made. -/
structure OrderlyDue (cursors snapshot : CursorSet) (due : Due) : Prop where
  staging : OrderlyRun cursors snapshot (construct due.plan cursors) (due.staging.map .returned)
  cleanupStaged : OrderlyRun cursors cursors
    (step cursors cursors (run cursors snapshot (construct due.plan cursors) (due.staging.map .returned)) .abort)
    (due.cleanupStaged.map .returned)
  acceptance : OrderlyRun cursors cursors
    (step cursors cursors (run cursors snapshot (construct due.plan cursors) (due.staging.map .returned)) .accept)
    (due.acceptance.map .returned)
  cleanupAccepted : OrderlyRun cursors cursors
    (step cursors cursors
      (run cursors cursors
        (step cursors cursors (run cursors snapshot (construct due.plan cursors) (due.staging.map .returned)) .accept)
        (due.acceptance.map .returned)) .abort)
    (due.cleanupAccepted.map .returned)

/-- What a step seals in a checkpoint prepared while its consumers are staged. -/
def snapshot (isCheckpoint : String → Bool) (s : Runtime N T C) (calls : Calls N T C) : CursorSet :=
  match checkpointOverride isCheckpoint s.consumerCursors
      ((calls.due.filter fun due => !due.plan.effects.isEmpty).flatMap fun due => due.plan.effects) with
  | .ok override => override.getD s.consumerCursors
  | .error _ => s.consumerCursors

/-- The attempts of the step that count as rejected or failed. -/
def unsuccessful (calls : Calls N T C) : ℕ × ℕ :=
  if calls.beforeBeginRaises ∨ calls.beginRaises then (0, 0)
  else
    match calls.advance with
    | .rejected _ _ => (1, 0)
    | .failed _ _ => (0, 1)
    | _ => (0, 0)

/-- The stores of before the step, but for its unsuccessful attempts. -/
def Restored (s : Runtime N T C) (calls : Calls N T C) : Runtime N T C :=
  { s with temporal :=
    { s.temporal with
      rejected := s.temporal.rejected + (unsuccessful calls).1
      failed := s.temporal.failed + (unsuccessful calls).2 } }

/-- Every publication was discarded or rolled back, once, and is visible only where that failed. -/
structure Undone (transaction : State) : Prop where
  resolved : ∀ id < transaction.obtained, transaction.cleaned.count id = 1
  invisible : ∀ id ∈ transaction.visible, id ∈ transaction.troubled

/-- The report of an accepted transaction names the visible artifacts and their cursors. -/
structure Published (cursors : CursorSet) (transaction : State) : Prop where
  status : transaction.status = .accepted
  reported : Reported cursors transaction
  visible : ∀ id, id ∈ transaction.visible ↔ id ∈ ids transaction.accepted

/-- A step is fully accepted without any compensation, or undone. -/
def Atomic (s : Runtime N T C) (calls : Calls N T C) (r : Result N T C) : Prop :=
  r.accepted = true ∧ r.compensated = false ∧ (∀ transaction ∈ r.transactions, Published s.consumerCursors transaction) ∧
      r.runtime.consumerReports = s.consumerReports ++ r.transactions.filterMap State.report ∧
      r.runtime.consumerCursors = (r.transactions.flatMap State.cursorUpdates).foldl CursorSet.replace s.consumerCursors ∨
    r.accepted = false ∧ r.runtime = Restored s calls ∧ ∀ transaction ∈ r.transactions, Undone transaction

/-- A transaction that is being aborted. -/
def Closing (s : State) : Prop :=
  match s.control with
  | .idle => s.prepared = [] ∧ s.accepted = []
  | .cleanup .. => True
  | _ => False

theorem cleanupNext_closing {cursors : CursorSet} {s : State} {left : List Held} {tidy : Bool} {purpose : Purpose}
    (cleaning : Cleaning s left purpose) : Closing (cleanupNext cursors s tidy purpose left) := by
  cases left with
  | cons held later => trivial
  | nil =>
    have empty := cleaning.empty
    cases purpose with
    | failing | rejecting => exact ⟨rfl, empty⟩
    | rollingBack => exact ⟨empty, rfl⟩
    | compensating =>
      cases staged : s.prepared.reverse with
      | nil =>
        simp only [cleanupNext, cleanupDone, staged]
        exact ⟨List.reverse_eq_nil_iff.mp staged, rfl⟩
      | cons held later =>
        simp only [cleanupNext, cleanupDone, staged]
        trivial

section Abort
variable {plan : EffectPlan} {cursors sealedCursors : CursorSet} {s : State}

theorem step_closing {outcome : Outcome} (inv : Inv plan cursors s) (orderly : Orderly s outcome)
    (closing : Closing s) : Closing (step cursors sealedCursors s (.returned outcome)) := by
  cases control : s.control with
  | idle => simpa [step, control] using closing
  | prepare | publish | rollback | reprepare => simp [Closing, control] at closing
  | cleanup held later tidy purpose =>
    have following := cleaning_clean outcome (inv.cleaning control)
    simp only [step, control, cleanupReturned]
    cases outcome with
    | ok | unauthenticated | failed effective => exact cleanupNext_closing following
    | interrupted effective => simp [Orderly, control] at orderly

theorem run_closing {outcomes : List Outcome} (inv : Inv plan cursors s)
    (orderly : OrderlyRun cursors sealedCursors s (outcomes.map .returned)) (closing : Closing s) :
    Closing (run cursors sealedCursors s (outcomes.map .returned)) := by
  induction outcomes generalizing s with
  | nil => exact closing
  | cons outcome outcomes ih => exact ih (step_inv inv orderly.1) orderly.2 (step_closing inv orderly.1 closing)

theorem abort_closing (inv : Inv plan cursors s) (idle : s.control = .idle) :
    Closing (step cursors sealedCursors s .abort) := by
  have shape := inv.shape
  cases status : s.status with
  | staged =>
    simp only [step, idle, status]
    exact cleanupNext_closing (inv.staged_cleaning idle status)
  | accepted =>
    simp only [step, idle, status]
    exact cleanupNext_closing (inv.accepted_cleaning idle status)
  | preparing =>
    simp only [Shape, idle, status] at shape
    simpa [step, Closing, idle, status] using shape
  | rejected | failed =>
    simp only [Shape, idle, status] at shape
    simpa [step, Closing, idle, status] using And.intro shape.1 shape.2.1

theorem Closing.undone (closing : Closing s) (inv : Inv plan cursors s) (idle : s.control = .idle) : Undone s := by
  simp only [Closing, idle] at closing
  obtain ⟨prepared, accepted⟩ := closing
  constructor
  · intro id known
    have once := inv.balanced id
    simpa [owned, idle, prepared, accepted, known] using once
  · intro id member
    simpa [shown, idle, accepted] using inv.visible id member

end Abort

theorem isIdle_iff {s : State} : isIdle s = true ↔ s.control = .idle := by
  cases control : s.control <;> simp [isIdle, control]

theorem isStaged_idle {s : State} (staged : isStaged s = true) : s.control = .idle := by
  unfold isStaged at staged
  split at staged
  · assumption
  · cases staged

theorem isAccepted_idle {s : State} (accepted : isAccepted s = true) : s.control = .idle := by
  unfold isAccepted at accepted
  split at accepted
  · assumption
  · cases accepted

theorem isAccepted_status {s : State} (accepted : isAccepted s = true) : s.status = .accepted := by
  unfold isAccepted at accepted
  split at accepted
  · assumption
  · cases accepted

/-- A transaction that is with its caller, and whose abort will be orderly. -/
structure Abortable (cursors : CursorSet) (transaction : State × List Outcome) : Prop where
  inv : ∃ plan, Inv plan cursors transaction.1
  idle : transaction.1.control = .idle
  orderly : OrderlyRun cursors cursors (step cursors cursors transaction.1 .abort) (transaction.2.map .returned)

theorem Abortable.undone {cursors : CursorSet} {transaction : State × List Outcome}
    (abortable : Abortable cursors transaction) (idle : isIdle (abort cursors transaction) = true) :
    Undone (abort cursors transaction) := by
  obtain ⟨⟨plan, inv⟩, free, orderly⟩ := abortable
  have entered : Inv plan cursors (step cursors cursors transaction.1 .abort) := step_inv inv trivial
  have closing := run_closing entered orderly (abort_closing inv free)
  exact closing.undone (run_inv entered orderly) (isIdle_iff.mp idle)

theorem raised_atomic {s : Runtime N T C} {calls : Calls N T C} {r : Result N T C} {native : N} {temporal : Temporal T}
    {entered : Bool} {transactions : List (State × List Outcome)}
    (abortable : ∀ transaction ∈ transactions, Abortable s.consumerCursors transaction)
    (untouched : entered = false → native = s.native)
    (counted : (temporal.rejected, temporal.failed) =
      (s.temporal.rejected + (unsuccessful calls).1, s.temporal.failed + (unsuccessful calls).2))
    (done : raised s native temporal entered transactions = some r) : Atomic s calls r := by
  simp only [raised] at done
  split at done
  · rename_i idle
    injection done with made
    subst made
    refine .inr ⟨rfl, ?_, ?_⟩
    · injection counted with rejected failed
      cases entered with
      | true => simp [Restored, rejected, failed]
      | false => simp [Restored, rejected, failed, untouched rfl]
    · intro transaction member
      obtain ⟨before, listed, rfl⟩ := List.mem_map.mp member
      exact (abortable before listed).undone (List.all_eq_true.mp idle _ member)
  · cases done

/-- A transaction of `_stage_consumers` whose later calls are orderly. -/
structure Built (cursors snapshot : CursorSet) (transaction : State × Due) : Prop where
  orderly : OrderlyDue cursors snapshot transaction.2
  built : transaction.1 =
    run cursors snapshot (construct transaction.2.plan cursors) (transaction.2.staging.map .returned)
  idle : transaction.1.control = .idle

section Consumers
variable {cursors snapshot : CursorSet}

theorem Built.inv {transaction : State × Due} (built : Built cursors snapshot transaction) :
    Inv transaction.2.plan cursors transaction.1 :=
  built.built ▸ run_inv (construct_inv ..) built.orderly.staging

theorem Built.abortable {transaction : State × Due} (built : Built cursors snapshot transaction) :
    Abortable cursors (transaction.1, transaction.2.cleanupStaged) :=
  ⟨⟨_, built.inv⟩, built.idle, built.built ▸ built.orderly.cleanupStaged⟩

theorem stageConsumers_built {due : List Due} {staged : List (State × Due)} {complete : Bool}
    (orderly : ∀ plan ∈ due, OrderlyDue cursors snapshot plan)
    (done : stageConsumers cursors snapshot due = some (staged, complete)) :
    ∀ transaction ∈ staged, Built cursors snapshot transaction := by
  induction due generalizing staged complete with
  | nil =>
    cases done
    exact fun _ impossible => absurd impossible List.not_mem_nil
  | cons plan later ih =>
    simp only [stageConsumers] at done
    have mine := orderly plan (List.mem_cons_self ..)
    split at done
    · rename_i isStaged
      obtain ⟨⟨rest, whole⟩, following, made⟩ := Option.map_eq_some_iff.mp done
      cases made
      have others := ih (fun other member => orderly other (List.mem_cons_of_mem _ member)) following
      exact List.forall_mem_cons.mpr ⟨⟨mine, rfl, isStaged_idle isStaged⟩, others⟩
    · split at done
      · rename_i isIdle
        cases done
        exact List.forall_mem_singleton.mpr ⟨mine, rfl, isIdle_iff.mp isIdle⟩
      · cases done

theorem acceptConsumers_abortable {staged : List (State × Due)} {transactions : List (State × List Outcome)}
    {complete : Bool} (built : ∀ transaction ∈ staged, Built cursors snapshot transaction)
    (done : acceptConsumers cursors staged = some (transactions, complete)) :
    ∀ transaction ∈ transactions, Abortable cursors transaction ∧ (complete = true → isAccepted transaction.1 = true) := by
  induction staged generalizing transactions complete with
  | nil =>
    cases done
    exact fun _ impossible => absurd impossible List.not_mem_nil
  | cons transaction later ih =>
    obtain ⟨state, due⟩ := transaction
    have mine := built (state, due) (List.mem_cons_self ..)
    have same : state = run cursors snapshot (construct due.plan cursors) (due.staging.map .returned) := mine.built
    have others := fun other member => built other (List.mem_cons_of_mem _ member)
    have accepted : Inv due.plan cursors
        (run cursors cursors (step cursors cursors state .accept) (due.acceptance.map .returned)) :=
      run_inv (step_inv mine.inv trivial) (same ▸ mine.orderly.acceptance)
    have aborted := mine.orderly.cleanupAccepted
    rw [← same] at aborted
    simp only [acceptConsumers] at done
    split at done
    · rename_i isAccepted
      obtain ⟨⟨rest, whole⟩, following, made⟩ := Option.map_eq_some_iff.mp done
      cases made
      refine List.forall_mem_cons.mpr ⟨⟨⟨⟨_, accepted⟩, isAccepted_idle isAccepted, aborted⟩, fun _ => isAccepted⟩, ?_⟩
      exact ih others following
    · split at done
      · rename_i isIdle
        cases done
        refine List.forall_mem_cons.mpr ⟨⟨⟨⟨_, accepted⟩, isIdle_iff.mp isIdle, aborted⟩, fun impossible => ?_⟩, ?_⟩
        · cases impossible
        · intro other member
          obtain ⟨before, listed, rfl⟩ := List.mem_map.mp member
          exact ⟨(others before listed).abortable, fun impossible => by cases impossible⟩
      · cases done

theorem Abortable.published {transaction : State × List Outcome} (abortable : Abortable cursors transaction)
    (accepted : isAccepted transaction.1 = true) : Published cursors transaction.1 := by
  obtain ⟨plan, inv⟩ := abortable.inv
  have status := isAccepted_status accepted
  obtain ⟨reported, visible⟩ := inv.allOrNothing.reported abortable.idle status
  exact ⟨status, reported, visible⟩

end Consumers

theorem finish_atomic {s : Runtime N T C} {calls : Calls N T C} {r : Result N T C} {temporal : Temporal T} {controller : C}
    {attempts : ℕ} {staged : List (State × Due)} {sealedCursors : CursorSet}
    (built : ∀ transaction ∈ staged, Built s.consumerCursors sealedCursors transaction)
    (counted : (temporal.rejected, temporal.failed) =
      (s.temporal.rejected + (unsuccessful calls).1, s.temporal.failed + (unsuccessful calls).2))
    (done : finish s calls temporal controller attempts staged = some r) : Atomic s calls r := by
  have entered : true = false → calls.commitNative = s.native := fun impossible => by cases impossible
  simp only [finish] at done
  split at done
  · refine raised_atomic ?_ entered counted done
    intro transaction member
    obtain ⟨before, listed, rfl⟩ := List.mem_map.mp member
    exact (built before listed).abortable
  · split at done
    · cases done
    · rename_i transactions accepting
      have abortable := acceptConsumers_abortable built accepting
      exact raised_atomic (fun transaction member => (abortable transaction member).1) entered counted done
    · rename_i transactions accepting
      have abortable := acceptConsumers_abortable built accepting
      split at done
      · exact raised_atomic (fun transaction member => (abortable transaction member).1)
          (fun impossible => by cases impossible) counted done
      · injection done with made
        subst made
        refine .inl ⟨rfl, rfl, ?_, rfl, rfl⟩
        intro transaction member
        obtain ⟨before, listed, rfl⟩ := List.mem_map.mp member
        obtain ⟨safe, accepted⟩ := abortable before listed
        exact safe.published (accepted rfl)

/-- A step whose publisher is orderly is atomic, wherever it raises. -/
theorem step_atomic (isCheckpoint : String → Bool) (s : Runtime N T C) (calls : Calls N T C) (r : Result N T C)
    (orderly : ∀ due ∈ calls.due.filter fun due => !due.plan.effects.isEmpty,
      OrderlyDue s.consumerCursors (snapshot isCheckpoint s calls) due)
    (done : acceptedStepTransaction isCheckpoint s calls = some r) : Atomic s calls r := by
  have nothing : ∀ transaction ∈ ([] : List (State × List Outcome)), Abortable s.consumerCursors transaction :=
    fun _ impossible => absurd impossible List.not_mem_nil
  have entered (native : N) : true = false → native = s.native := fun impossible => by cases impossible
  simp only [acceptedStepTransaction] at done
  split at done
  · rename_i before
    exact raised_atomic nothing (fun _ => rfl) (by simp [unsuccessful, before]) done
  · rename_i before
    split at done
    · rename_i begun
      exact raised_atomic nothing (entered _) (by simp [unsuccessful, begun]) done
    · rename_i begun
      cases advance : calls.advance with
      | rejected native controller =>
        simp only [advance] at done
        exact raised_atomic nothing (entered _) (by simp [unsuccessful, before, begun, advance]) done
      | failed native controller =>
        simp only [advance] at done
        exact raised_atomic nothing (entered _) (by simp [unsuccessful, before, begun, advance]) done
      | crossed native temporal controller =>
        simp only [advance] at done
        exact raised_atomic nothing (entered _) (by simp [unsuccessful, before, begun, advance]) done
      | accepted native temporal controller attempts =>
        have counted : (s.temporal.rejected, s.temporal.failed) =
            (s.temporal.rejected + (unsuccessful calls).1, s.temporal.failed + (unsuccessful calls).2) := by
          simp [unsuccessful, before, begun, advance]
        simp only [advance] at done
        split at done
        · exact raised_atomic nothing (entered _) counted done
        · split at done
          · exact raised_atomic nothing (entered _) counted done
          · rename_i override overridden
            have sealedEq : snapshot isCheckpoint s calls = override.getD s.consumerCursors := by
              simp only [snapshot, overridden]
            rw [sealedEq] at orderly
            split at done
            · cases done
            · rename_i staged staging
              have built := stageConsumers_built orderly staging
              refine raised_atomic ?_ (entered _) counted done
              intro transaction member
              obtain ⟨earlier, listed, rfl⟩ := List.mem_map.mp member
              exact (built earlier listed).abortable
            · rename_i staged staging
              refine finish_atomic (stageConsumers_built orderly staging) ?_ done
              exact counted

def sampleRuntime : Runtime Unit Unit Unit where
  attempt := 0
  consumerCursors := []
  consumerReports := []
  checkpointCursorOverride := none
  temporal := { accepted := (), rejected := 0, failed := 0 }
  controller := ()
  native := ()

/-- One due plan is staged, and the call that commits the native step may raise. -/
def sampleCalls (acceptance cleanupStaged : List Outcome) (commitRaises : Bool) : Calls Unit Unit Unit where
  beforeBeginRaises := false
  beginNative := ()
  beginRaises := false
  advance := .accepted () () () 1
  planningRaises := false
  due := [{ plan := samplePlan, staging := [.ok], acceptance, cleanupStaged, cleanupAccepted := [] }]
  commitNative := ()
  commitRaises
  finalizeNative := ()
  finalizeRaises := false

theorem step_atomic_sample : ∃ r,
    acceptedStepTransaction (fun _ => false) sampleRuntime (sampleCalls [.ok] [.ok] true) = some r ∧
      Atomic sampleRuntime (sampleCalls [.ok] [.ok] true) r := by
  refine ⟨_, rfl, step_atomic (fun _ => false) _ _ _ ?_ rfl⟩
  refine List.forall_mem_singleton.mpr ⟨?_, ?_, ?_, ?_⟩
  · exact ⟨trivial, trivial⟩
  · exact ⟨trivial, trivial⟩
  · exact ⟨trivial, trivial⟩
  · exact trivial

/-- A publication interrupted after it became visible outlives the step it belongs to. -/
theorem interrupted_step_published :
    ¬∀ (isCheckpoint : String → Bool) (s : Runtime Unit Unit Unit) (calls : Calls Unit Unit Unit)
        (r : Result Unit Unit Unit),
      acceptedStepTransaction isCheckpoint s calls = some r → Atomic s calls r := by
  intro promised
  rcases promised (fun _ => false) sampleRuntime (sampleCalls [.interrupted true] [] false) _ rfl with
    ⟨accepted, -⟩ | ⟨-, -, undone⟩
  · cases accepted
  · cases (undone _ (List.mem_singleton_self _)).resolved 0 Nat.zero_lt_one

end Pops.StepEnvelope
