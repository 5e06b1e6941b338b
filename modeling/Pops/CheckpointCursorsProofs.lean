import Pops.CheckpointCursors

/-!
A published checkpoint seals the cursors the runtime holds after the step exactly when its
first publication call succeeded: one prepared again during acceptance seals the cursors of
before the step.
-/
namespace Pops.CheckpointCursors
open ConsumerTransaction

/-- The checkpoint of the plan is published at the first call. -/
def PublishedAtOnce (isCheckpoint : String → Bool) (cursors snapshot : CursorSet) (p : Planned) : Prop :=
  retried isCheckpoint cursors (step cursors cursors (stage cursors snapshot p) .accept) p.acceptance = false

/-- Every published checkpoint seals the cursors the runtime holds after the step. -/
def SealsExactly (isCheckpoint : String → Bool) (accepted : Accepted) : Prop :=
  ∀ transaction ∈ accepted.transactions, ∀ held ∈ transaction.accepted,
    isCheckpoint held.effect.consumerId → held.sealedCursors = accepted.cursors

section Staging
variable {cursors snapshot : CursorSet} {plan : EffectPlan}

/-- What the constructor has prepared of a plan without skips. -/
def Staging (plan : EffectPlan) (snapshot : CursorSet) (s : State) : Prop :=
  (∀ held ∈ s.prepared, held.sealedCursors = snapshot) ∧ s.accepted = [] ∧
    match s.control with
    | .prepare effect _ todo => s.status = .preparing ∧ s.prepared.map Held.effect ++ effect :: todo = plan.effects
    | .idle => s.status = .staged → s.prepared.map Held.effect = plan.effects
    | .cleanup _ _ _ .failing => s.status = .preparing
    | _ => False

theorem prepareNext_staging {s : State} {todo : List AcceptedSideEffect}
    (same : ∀ held ∈ s.prepared, held.sealedCursors = snapshot) (accepted : s.accepted = []) (status : s.status = .preparing)
    (order : s.prepared.map Held.effect ++ todo = plan.effects) : Staging plan snapshot (prepareNext s todo) := by
  cases todo with
  | nil => exact ⟨same, accepted, fun _ => by simpa [prepareNext] using order⟩
  | cons effect todo => exact ⟨same, accepted, status, order⟩

theorem cleanupNext_staging {s : State} {left : List Held} {tidy : Bool}
    (same : ∀ held ∈ s.prepared, held.sealedCursors = snapshot) (accepted : s.accepted = []) (status : s.status = .preparing) :
    Staging plan snapshot (cleanupNext cursors s tidy .failing left) := by
  cases left with
  | nil => exact ⟨by simp [cleanupNext, cleanupDone], accepted, fun staged => by simp [cleanupNext, cleanupDone] at staged⟩
  | cons held later => exact ⟨same, accepted, status⟩

theorem step_staging {s : State} {outcome : Outcome} (firm : ∀ effect ∈ plan.effects, skips effect = false)
    (staging : Staging plan snapshot s) : Staging plan snapshot (step cursors snapshot s (.returned outcome)) := by
  have waiting := staging
  obtain ⟨same, accepted, shape⟩ := staging
  cases control : s.control with
  | idle =>
    have still : step cursors snapshot s (.returned outcome) = s := by simp [step, control]
    rw [still]
    exact waiting
  | prepare effect attempts todo =>
    simp only [control] at shape
    obtain ⟨status, order⟩ := shape
    simp only [step, control]
    cases outcome with
    | ok =>
      refine prepareNext_staging ?_ accepted status (by simpa [attempt] using order)
      intro held member
      rcases List.mem_append.mp member with known | fresh
      · exact same held known
      · rw [List.mem_singleton.mp fresh]
    | unauthenticated | failed _ =>
      all_goals
        simp only [prepareReturned]
        split
        · exact ⟨same, accepted, status, order⟩
        · have solid := firm effect (order ▸ List.mem_append_right _ (List.mem_cons_self ..))
          split
          · rename_i skipped
            simp [skips, skipped] at solid
          · exact cleanupNext_staging same accepted status
    | interrupted _ => exact ⟨same, accepted, fun staged => by simp [prepareReturned, attempt, status] at staged⟩
  | publish held pending | rollback held pending => simp [control] at shape
  | reprepare effect attempts pending => simp [control] at shape
  | cleanup held later tidy purpose =>
    cases purpose with
    | rejecting | compensating | rollingBack => simp [control] at shape
    | failing =>
      simp only [control] at shape
      simp only [step, control]
      cases outcome with
      | ok | unauthenticated | failed _ => exact cleanupNext_staging same accepted shape
      | interrupted _ => exact ⟨same, accepted, fun staged => by simp [cleanupReturned, clean, shape] at staged⟩

theorem run_staging {s : State} (outcomes : List Outcome) (firm : ∀ effect ∈ plan.effects, skips effect = false)
    (staging : Staging plan snapshot s) : Staging plan snapshot (run cursors snapshot s (outcomes.map .returned)) := by
  induction outcomes generalizing s with
  | nil => exact staging
  | cons outcome outcomes ih => exact ih (step_staging firm staging)

theorem staged_holds {p : Planned} (firm : ∀ effect ∈ p.plan.effects, skips effect = false)
    (staged : isStaged (stage cursors snapshot p) = true) :
    (stage cursors snapshot p).control = .idle ∧ (stage cursors snapshot p).status = .staged ∧
      (stage cursors snapshot p).accepted = [] ∧
      (stage cursors snapshot p).prepared.map Held.effect = p.plan.effects ∧
      ∀ held ∈ (stage cursors snapshot p).prepared, held.sealedCursors = snapshot := by
  have start : Staging p.plan snapshot (construct p.plan cursors) := by
    simp only [construct]
    split
    · exact prepareNext_staging (by simp) rfl rfl rfl
    · exact ⟨by simp, rfl, fun impossible => by cases impossible⟩
  have finish : Staging p.plan snapshot (stage cursors snapshot p) := run_staging p.staging firm start
  obtain ⟨same, accepted, shape⟩ := finish
  unfold isStaged at staged
  split at staged
  · rename_i idle status
    refine ⟨idle, status, accepted, ?_, same⟩
    simp only [idle] at shape
    exact shape status
  · cases staged

end Staging

section Accepting
variable {isCheckpoint : String → Bool} {cursors snapshot : CursorSet} {plan : EffectPlan} {again : Bool}

/-- A checkpoint seals the prediction, or the old cursors once its publication was tried again. -/
def Sealed (isCheckpoint : String → Bool) (cursors snapshot : CursorSet) (again : Bool) (held : Held) : Prop :=
  isCheckpoint held.effect.consumerId → held.sealedCursors = if again then cursors else snapshot

/-- What holds while a plan without skips is accepted. -/
def Sealing (isCheckpoint : String → Bool) (plan : EffectPlan) (cursors snapshot : CursorSet) (again : Bool) (s : State) : Prop :=
  (∀ held ∈ s.accepted, Sealed isCheckpoint cursors snapshot again held) ∧
    match s.control with
    | .publish held pending =>
      s.status = .staged ∧ s.accepted.map Held.effect ++ (held :: pending).map Held.effect = plan.effects ∧
        ∀ other ∈ held :: pending, Sealed isCheckpoint cursors snapshot again other
    | .rollback held pending =>
      s.status = .staged ∧ s.accepted.map Held.effect ++ (held :: pending).map Held.effect = plan.effects ∧
        (∀ other ∈ pending, Sealed isCheckpoint cursors snapshot again other) ∧
        (isCheckpoint held.effect.consumerId → again = true)
    | .reprepare effect _ pending =>
      s.status = .staged ∧ s.accepted.map Held.effect ++ effect :: pending.map Held.effect = plan.effects ∧
        (∀ other ∈ pending, Sealed isCheckpoint cursors snapshot again other) ∧
        (isCheckpoint effect.consumerId → again = true)
    | .idle => s.status = .accepted → s.accepted.map Held.effect = plan.effects ∧
        s.cursorUpdates = s.accepted.map fun held => held.effect.cursorAfter
    | .prepare .. => False
    | .cleanup .. => s.status ≠ .accepted

theorem acceptNext_sealing {s : State} {pending : List Held}
    (accepted : ∀ held ∈ s.accepted, Sealed isCheckpoint cursors snapshot again held) (status : s.status = .staged)
    (order : s.accepted.map Held.effect ++ pending.map Held.effect = plan.effects)
    (later : ∀ held ∈ pending, Sealed isCheckpoint cursors snapshot again held) :
    Sealing isCheckpoint plan cursors snapshot again (acceptNext s pending) := by
  cases pending with
  | nil => exact ⟨accepted, fun _ => ⟨by simpa [acceptNext] using order, rfl⟩⟩
  | cons held pending => exact ⟨accepted, status, order, later⟩

theorem cleanupNext_sealing {s : State} {left : List Held} {tidy : Bool} {purpose : Purpose}
    (accepted : ∀ held ∈ s.accepted, Sealed isCheckpoint cursors snapshot again held) (status : s.status ≠ .accepted) :
    Sealing isCheckpoint plan cursors snapshot again (cleanupNext cursors s tidy purpose left) := by
  cases left with
  | cons held later => exact ⟨accepted, status⟩
  | nil =>
    cases purpose with
    | failing => exact ⟨accepted, fun impossible => by cases impossible⟩
    | rejecting => exact ⟨accepted, fun impossible => by cases tidy <;> cases impossible⟩
    | rollingBack => exact ⟨by simp [cleanupNext, cleanupDone], fun impossible => by cases tidy <;> cases impossible⟩
    | compensating =>
      cases staged : s.prepared.reverse with
      | nil =>
        simp only [cleanupNext, cleanupDone, staged]
        exact ⟨by simp, fun impossible => by cases impossible⟩
      | cons held later =>
        simp only [cleanupNext, cleanupDone, staged]
        exact ⟨by simp, status⟩

theorem checkpoint_alone {before after : List AcceptedSideEffect} {effect : AcceptedSideEffect}
    (few : ((before ++ effect :: after).filter fun effect => isCheckpoint effect.consumerId).length ≤ 1)
    (mine : isCheckpoint effect.consumerId = true) :
    (∀ other ∈ before, isCheckpoint other.consumerId = false) ∧ ∀ other ∈ after, isCheckpoint other.consumerId = false := by
  have kept : (effect :: after).filter (fun effect => isCheckpoint effect.consumerId) =
      effect :: after.filter fun effect => isCheckpoint effect.consumerId := by simp [mine]
  rw [List.filter_append, kept, List.length_append, List.length_cons] at few
  have none : ∀ effects : List AcceptedSideEffect,
      (effects.filter fun effect => isCheckpoint effect.consumerId).length = 0 →
        ∀ other ∈ effects, isCheckpoint other.consumerId = false := by
    intro effects empty other member
    simpa using List.filter_eq_nil_iff.mp (List.length_eq_zero_iff.mp empty) other member
  exact ⟨none before (by omega), none after (by omega)⟩

/-- Whether a checkpoint's publication fails at this call. -/
def fails (isCheckpoint : String → Bool) (s : State) (outcome : Outcome) : Bool :=
  match s.control, outcome with
  | .publish _ _, .ok => false
  | .publish held _, _ => isCheckpoint held.effect.consumerId
  | _, _ => false

theorem retried_cons (s : State) (outcome : Outcome) (outcomes : List Outcome) :
    retried isCheckpoint cursors s (outcome :: outcomes) =
      (fails isCheckpoint s outcome || retried isCheckpoint cursors (step cursors cursors s (.returned outcome)) outcomes) := rfl

theorem publish_fails {s : State} {held : Held} {pending : List Held} {outcome : Outcome}
    (single : (plan.effects.filter fun effect => isCheckpoint effect.consumerId).length ≤ 1)
    (control : s.control = .publish held pending) (refused : outcome ≠ .ok)
    (sealing : Sealing isCheckpoint plan cursors snapshot again s) :
    (∀ other ∈ s.accepted, Sealed isCheckpoint cursors snapshot (again || fails isCheckpoint s outcome) other) ∧
      (∀ other ∈ pending, Sealed isCheckpoint cursors snapshot (again || fails isCheckpoint s outcome) other) ∧
      (isCheckpoint held.effect.consumerId → (again || fails isCheckpoint s outcome) = true) := by
  obtain ⟨accepted, shape⟩ := sealing
  simp only [control] at shape
  obtain ⟨-, order, later⟩ := shape
  have known : fails isCheckpoint s outcome = isCheckpoint held.effect.consumerId := by
    cases outcome <;> simp_all [fails]
  rw [known]
  cases mine : isCheckpoint held.effect.consumerId with
  | false =>
    simp only [Bool.or_false]
    exact ⟨accepted, fun other member => later other (List.mem_cons_of_mem _ member), fun impossible => by cases impossible⟩
  | true =>
    rw [← order, List.map_cons] at single
    obtain ⟨before, after⟩ := checkpoint_alone single mine
    refine ⟨fun other member checkpoint => ?_, fun other member checkpoint => ?_, fun _ => Bool.or_true _⟩
    · exact absurd (before other.effect (List.mem_map_of_mem member)) (by simp [checkpoint])
    · exact absurd (after other.effect (List.mem_map_of_mem member)) (by simp [checkpoint])

/-- One call of the publisher while a plan without skips is accepted. -/
theorem step_sealing {s : State} {outcome : Outcome} (firm : ∀ effect ∈ plan.effects, skips effect = false)
    (single : (plan.effects.filter fun effect => isCheckpoint effect.consumerId).length ≤ 1)
    (sealing : Sealing isCheckpoint plan cursors snapshot again s) :
    Sealing isCheckpoint plan cursors snapshot (again || fails isCheckpoint s outcome)
      (step cursors cursors s (.returned outcome)) := by
  have before := sealing
  obtain ⟨accepted, shape⟩ := sealing
  cases control : s.control with
  | prepare effect attempts todo => simp [control] at shape
  | idle =>
    have still : step cursors cursors s (.returned outcome) = s := by simp [step, control]
    have quiet : fails isCheckpoint s outcome = false := by simp [fails, control]
    rw [still, quiet, Bool.or_false]
    exact before
  | publish held pending =>
    simp only [control] at shape
    obtain ⟨status, order, later⟩ := shape
    cases outcome with
    | ok =>
      have quiet : fails isCheckpoint s .ok = false := by simp [fails, control]
      rw [quiet, Bool.or_false]
      simp only [step, control]
      refine acceptNext_sealing ?_ status ?_ fun other member => later other (List.mem_cons_of_mem _ member)
      · intro other member
        rcases List.mem_append.mp member with known | fresh
        · exact accepted other known
        · rw [List.mem_singleton.mp fresh]
          exact later held (List.mem_cons_self ..)
      · simpa [makeVisible, Outcome.effective] using order
    | unauthenticated =>
      obtain ⟨known, following, mark⟩ := publish_fails single control (show Outcome.unauthenticated ≠ .ok by simp) before
      simp only [step, control]
      exact ⟨known, status, order, following, mark⟩
    | failed effective =>
      obtain ⟨known, following, mark⟩ := publish_fails single control (show Outcome.failed effective ≠ .ok by simp) before
      simp only [step, control]
      cases effective <;> exact ⟨known, status, order, following, mark⟩
    | interrupted effective =>
      obtain ⟨known, -, -⟩ := publish_fails single control (show Outcome.interrupted effective ≠ .ok by simp) before
      simp only [step, control]
      cases effective <;> exact ⟨known, fun impossible => by simp [publishReturned, makeVisible, Outcome.effective, status] at impossible⟩
  | rollback held pending =>
    have quiet : fails isCheckpoint s outcome = false := by simp [fails, control]
    rw [quiet, Bool.or_false]
    simp only [control] at shape
    obtain ⟨status, order, later, mark⟩ := shape
    have solid : skips held.effect = false := firm held.effect (order ▸ by simp)
    have failing (s' : State) (same : s'.accepted = s.accepted) (status' : s'.status = s.status) :
        Sealing isCheckpoint plan cursors snapshot again (failAccept cursors s' pending) :=
      cleanupNext_sealing (by simpa [same] using accepted) (by simp [status', status])
    simp only [step, control]
    cases outcome with
    | interrupted effective =>
      exact ⟨accepted, fun impossible => by simp [rollbackReturned, clean, status] at impossible⟩
    | unauthenticated | failed effective =>
      all_goals
        simp only [rollbackReturned]
        cases held.effect.failureAction with
        | failRun | skipSampleReported | retry _ _ => exact failing _ rfl rfl
    | ok =>
      simp only [rollbackReturned]
      cases action : held.effect.failureAction with
      | failRun => exact failing _ rfl rfl
      | skipSampleReported => simp [skips, action] at solid
      | retry maxAttempts atLeast =>
        simp only
        split
        · exact ⟨accepted, status, order, later, mark⟩
        · exact failing _ rfl rfl
  | reprepare effect attempts pending =>
    have quiet : fails isCheckpoint s outcome = false := by simp [fails, control]
    rw [quiet, Bool.or_false]
    simp only [control] at shape
    obtain ⟨status, order, later, mark⟩ := shape
    simp only [step, control]
    cases outcome with
    | ok =>
      refine acceptNext_sealing accepted status (by simpa [attempt] using order) ?_
      intro other member
      rcases List.mem_cons.mp member with rfl | known
      · intro checkpoint
        simp [mark checkpoint]
      · exact later other known
    | unauthenticated | failed effective =>
      all_goals
        simp only [reprepareReturned]
        split
        · exact ⟨accepted, status, order, later, mark⟩
        · exact cleanupNext_sealing accepted (by simp [attempt, status])
    | interrupted effective =>
      exact ⟨accepted, fun impossible => by simp [reprepareReturned, attempt, status] at impossible⟩
  | cleanup held later tidy purpose =>
    have quiet : fails isCheckpoint s outcome = false := by simp [fails, control]
    rw [quiet, Bool.or_false]
    simp only [control] at shape
    simp only [step, control]
    cases outcome with
    | ok | unauthenticated | failed _ => exact cleanupNext_sealing accepted shape
    | interrupted _ => exact ⟨accepted, fun impossible => absurd impossible shape⟩

theorem run_sealing {s : State} (outcomes : List Outcome) (firm : ∀ effect ∈ plan.effects, skips effect = false)
    (single : (plan.effects.filter fun effect => isCheckpoint effect.consumerId).length ≤ 1)
    (sealing : Sealing isCheckpoint plan cursors snapshot again s) :
    Sealing isCheckpoint plan cursors snapshot (again || retried isCheckpoint cursors s outcomes)
      (run cursors cursors s (outcomes.map .returned)) := by
  induction outcomes generalizing s again with
  | nil => simpa [retried, run] using sealing
  | cons outcome outcomes ih =>
    rw [retried_cons, ← Bool.or_assoc]
    exact ih (step_sealing firm single sealing)

end Accepting

variable {isCheckpoint : String → Bool} {cursors snapshot : CursorSet}

theorem start_sealing {p : Planned} (firm : ∀ effect ∈ p.plan.effects, skips effect = false)
    (staged : isStaged (stage cursors snapshot p) = true) :
    Sealing isCheckpoint p.plan cursors snapshot false (step cursors cursors (stage cursors snapshot p) .accept) := by
  obtain ⟨idle, status, none, order, same⟩ := staged_holds firm staged
  simp only [step, idle, status]
  refine acceptNext_sealing (by simp [none]) status (by simpa [none] using order) ?_
  intro held member _
  exact same held member

theorem accepted_holds {p : Planned} (firm : ∀ effect ∈ p.plan.effects, skips effect = false)
    (single : (p.plan.effects.filter fun effect => isCheckpoint effect.consumerId).length ≤ 1)
    (staged : isStaged (stage cursors snapshot p) = true) (accepted : isAccepted (accept cursors snapshot p) = true) :
    (accept cursors snapshot p).accepted.map Held.effect = p.plan.effects ∧
      (accept cursors snapshot p).cursorUpdates = p.plan.effects.map AcceptedSideEffect.cursorAfter ∧
      ∀ held ∈ (accept cursors snapshot p).accepted, Sealed isCheckpoint cursors snapshot
        (retried isCheckpoint cursors (step cursors cursors (stage cursors snapshot p) .accept) p.acceptance) held := by
  have finish := run_sealing p.acceptance firm single (start_sealing firm staged)
  rw [Bool.false_or] at finish
  obtain ⟨sealedAs, shape⟩ := finish
  unfold isAccepted at accepted
  split at accepted
  · rename_i idle' status'
    unfold accept at idle' status'
    simp only [idle'] at shape
    obtain ⟨order', updates⟩ := shape status'
    refine ⟨order', ?_, sealedAs⟩
    rw [← order', List.map_map]
    exact updates
  · cases accepted

theorem staged_fresh {p : Planned} (staged : isStaged (stage cursors snapshot p) = true) :
    ∀ effect ∈ p.plan.effects, cursors.forConsumer effect.consumerId = effect.cursorBefore := by
  by_contra stale
  have refused : ¬(p.plan.effects.all fun effect => cursors.forConsumer effect.consumerId = effect.cursorBefore) = true := by
    simpa using stale
  have still : ∀ outcomes : List Outcome, run cursors snapshot (construct p.plan cursors) (outcomes.map .returned) =
      construct p.plan cursors := by
    intro outcomes
    induction outcomes with
    | nil => rfl
    | cons outcome outcomes ih =>
      have unmoved : step cursors snapshot (construct p.plan cursors) (.returned outcome) = construct p.plan cursors := by
        simp [construct, refused, step]
      simpa only [List.map_cons, run, List.foldl_cons, unmoved] using ih
  simp only [stage, still] at staged
  simp [isStaged, construct, refused] at staged

theorem predicted_append (effects : List AcceptedSideEffect) (effect : AcceptedSideEffect) :
    predicted cursors (effects ++ [effect]) = (predicted cursors effects).replace effect.cursorAfter := by
  simp [predicted, List.foldl_append]

theorem predicted_ne {effects : List AcceptedSideEffect} {effect : AcceptedSideEffect}
    (last : effects.getLast? = some effect) (fresh : cursors.forConsumer effect.consumerId = effect.cursorBefore) :
    predicted cursors effects ≠ cursors := by
  intro same
  obtain ⟨before, rfl⟩ := List.getLast?_eq_some_iff.mp last
  rw [predicted_append] at same
  have found : cursors.forConsumer effect.consumerId = effect.cursorAfter := by
    rw [← same, CursorSet.forConsumer, CursorSet.replace, effect.after_consumer,
      OrderedMap.find_update_self (fun left right => decide_eq_true_iff)]
    rfl
  have advanced := effect.after_samples
  rw [fresh] at found
  rw [← found] at advanced
  omega

theorem override_some {effects : List AcceptedSideEffect} {override : Option CursorSet}
    (set : checkpointOverride isCheckpoint cursors effects = .ok override)
    (due : ∃ effect ∈ effects, isCheckpoint effect.consumerId = true) :
    override = some (predicted cursors effects) ∧ (∀ effect ∈ effects, skips effect = false) ∧
      (effects.filter fun effect => isCheckpoint effect.consumerId).length = 1 ∧
      ∃ effect, effects.getLast? = some effect ∧ isCheckpoint effect.consumerId = true := by
  obtain ⟨effect, member, checkpoint⟩ := due
  have nonempty : ¬(effects.filter fun effect => isCheckpoint effect.consumerId).isEmpty = true := by
    simpa using ⟨effect, member, checkpoint⟩
  simp only [checkpointOverride, if_neg nonempty] at set
  split at set
  · cases set
  · rename_i alone
    split at set
    · cases set
    · rename_i firm
      cases set
      push Not at alone
      refine ⟨rfl, by simpa using firm, alone.1, ?_⟩
      simpa [Option.any_eq_true] using alone.2

theorem foldl_replace (plans : List Planned) (transactions : Planned → State)
    (updates : ∀ p ∈ plans, (transactions p).cursorUpdates = p.plan.effects.map AcceptedSideEffect.cursorAfter) :
    ((plans.map transactions).flatMap State.cursorUpdates).foldl CursorSet.replace cursors =
      predicted cursors (plans.flatMap fun p => p.plan.effects) := by
  induction plans generalizing cursors with
  | nil => rfl
  | cons p plans ih =>
    have mine := updates p (List.mem_cons_self ..)
    simp only [List.map_cons, List.flatMap_cons, List.foldl_append, predicted, mine, List.foldl_map]
    exact ih fun q member => updates q (List.mem_cons_of_mem _ member)

theorem retried_checkpoint {plan : EffectPlan} {s : State} {again : Bool} (outcomes : List Outcome)
    (firm : ∀ effect ∈ plan.effects, skips effect = false)
    (single : (plan.effects.filter fun effect => isCheckpoint effect.consumerId).length ≤ 1)
    (sealing : Sealing isCheckpoint plan cursors snapshot again s) (failed : retried isCheckpoint cursors s outcomes = true) :
    ∃ effect ∈ plan.effects, isCheckpoint effect.consumerId = true := by
  induction outcomes generalizing s again with
  | nil => cases failed
  | cons outcome outcomes ih =>
    rw [retried_cons, Bool.or_eq_true] at failed
    rcases failed with now | later
    · obtain ⟨-, shape⟩ := sealing
      unfold fails at now
      split at now
      · cases now
      · rename_i held pending control _
        simp only [control] at shape
        exact ⟨held.effect, shape.2.1 ▸ by simp, now⟩
      · cases now
    · exact ih (step_sealing firm single sealing) later

/-- In every accepted step with a checkpoint, what the checkpoint seals are the cursors held
after the step exactly when its first publication call succeeded. -/
theorem seals_exactly_iff (isCheckpoint : String → Bool) (cursors : CursorSet) (planned : List Planned) (accepted : Accepted)
    (done : acceptedStep isCheckpoint cursors planned = some accepted)
    (due : ∃ effect ∈ allEffects planned, isCheckpoint effect.consumerId = true) :
    SealsExactly isCheckpoint accepted ↔ ∀ p ∈ duePlans planned,
      PublishedAtOnce isCheckpoint cursors (predicted cursors (allEffects planned)) p := by
  simp only [acceptedStep] at done
  split at done
  · cases done
  rename_i override set
  obtain ⟨rfl, firm, alone, last, ends, final⟩ := override_some set due
  rw [Option.getD_some] at done
  split at done
  · rename_i went
    cases done
    have ran : ∀ p ∈ duePlans planned, isStaged (stage cursors (predicted cursors (allEffects planned)) p) = true ∧
        isAccepted (accept cursors (predicted cursors (allEffects planned)) p) = true := by
      simpa using went
    have solid : ∀ p ∈ duePlans planned, ∀ effect ∈ p.plan.effects, skips effect = false := fun p listed effect member =>
      firm effect (List.mem_flatMap.mpr ⟨p, listed, member⟩)
    have single : ∀ p ∈ duePlans planned,
        (p.plan.effects.filter fun effect => isCheckpoint effect.consumerId).length ≤ 1 := by
      intro p listed
      have within : p.plan.effects.Sublist (allEffects planned) := List.sublist_flatten_of_mem (List.mem_map_of_mem listed)
      exact alone ▸ (within.filter _).length_le
    have held := fun p listed => @accepted_holds isCheckpoint cursors (predicted cursors (allEffects planned)) p
      (solid p listed) (single p listed) (ran p listed).1 (ran p listed).2
    have cursorsAfter := @foldl_replace cursors (duePlans planned) _ fun p listed => (held p listed).2.1
    have moved : predicted cursors (allEffects planned) ≠ cursors := by
      obtain ⟨p, listed, member⟩ := List.mem_flatMap.mp (List.mem_of_getLast? ends)
      exact predicted_ne ends (staged_fresh (ran p listed).1 last member)
    constructor
    · intro precise p listed
      by_contra failed
      rw [PublishedAtOnce, Bool.not_eq_false] at failed
      obtain ⟨order, -, sealedAs⟩ := held p listed
      obtain ⟨effect, member, checkpoint⟩ := retried_checkpoint p.acceptance (solid p listed) (single p listed)
        (start_sealing (solid p listed) (ran p listed).1) failed
      obtain ⟨h, listedHeld, rfl⟩ := List.mem_map.mp (order ▸ member)
      have old := sealedAs h listedHeld checkpoint
      rw [failed, if_pos rfl] at old
      have new := precise _ (List.mem_map_of_mem listed) h listedHeld checkpoint
      rw [old] at new
      exact moved (cursorsAfter.symm.trans new.symm)
    · intro immediate transaction listedTransaction h listedHeld checkpoint
      obtain ⟨p, listed, rfl⟩ := List.mem_map.mp listedTransaction
      have sealedAs := (held p listed).2.2 h listedHeld checkpoint
      rw [immediate p listed] at sealedAs
      exact sealedAs.trans cursorsAfter.symm
  · cases done

/-- One checkpoint, whose publication fails once and is tried again. -/
def retriedOnce : Planned where
  plan := samplePlan
  staging := [.ok]
  acceptance := [.failed false, .ok, .ok, .ok]

/-- One checkpoint, published at once. -/
def immediate : Planned where
  plan := samplePlan
  staging := [.ok]
  acceptance := [.ok]

theorem seals_exactly_iff_immediate :
    SealsExactly (fun _ => true)
        { transactions := [accept [] (predicted [] samplePlan.effects) immediate],
          cursors := predicted [] samplePlan.effects } ↔
      ∀ p ∈ duePlans [immediate], PublishedAtOnce (fun _ => true) [] (predicted [] (allEffects [immediate])) p :=
  seals_exactly_iff (fun _ => true) [] [immediate] _ rfl ⟨sampleEffect, List.mem_singleton.mpr rfl, rfl⟩

/-- A checkpoint published at the second call seals that nothing was ever published. -/
theorem retried_checkpoint_stale :
    ¬∀ (isCheckpoint : String → Bool) (cursors : CursorSet) (planned : List Planned) (accepted : Accepted),
      acceptedStep isCheckpoint cursors planned = some accepted →
        (∃ effect ∈ allEffects planned, isCheckpoint effect.consumerId = true) → SealsExactly isCheckpoint accepted := by
  intro promised
  have old := promised (fun _ => true) [] [retriedOnce] _ rfl ⟨sampleEffect, List.mem_singleton.mpr rfl, rfl⟩ _
    (List.mem_singleton.mpr rfl) _ (List.mem_singleton.mpr rfl) rfl
  cases old

end Pops.CheckpointCursors
