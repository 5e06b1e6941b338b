import Pops.ConsumerTransaction

/-!
A transaction is all-or-nothing as long as no call that holds something is interrupted and
every prepared object authenticates its effect: each publication is then owned by a list of
the transaction or was discarded or rolled back once.
-/
namespace Pops.ConsumerTransaction

/-- The publications of a list. -/
def ids (helds : List Held) : List ℕ := helds.map Held.id

/-- An effect and the attempts spent on it. -/
abbrev Task := AcceptedSideEffect × ℕ

def heldTasks (helds : List Held) : List Task := helds.map fun held => (held.effect, held.attempts)

/-- The publications that the transaction still has to resolve or to keep. -/
def owned (s : State) : List ℕ :=
  match s.control with
  | .idle => ids s.prepared ++ ids s.accepted
  | .prepare .. => ids s.prepared
  | .publish held pending | .rollback held pending => held.id :: ids pending ++ ids s.accepted
  | .reprepare _ _ pending => ids pending ++ ids s.accepted
  | .cleanup held later _ .compensating => held.id :: ids later ++ ids s.prepared
  | .cleanup held later _ _ => held.id :: ids later

/-- The effects that may be attempted again. -/
def tasks (s : State) : List Task :=
  match s.control with
  | .idle => match s.status with
    | .staged => heldTasks s.prepared
    | _ => []
  | .prepare effect attempts todo => (effect, attempts) :: todo.map (·, 0) ++ heldTasks s.prepared
  | .publish held pending | .rollback held pending => heldTasks (held :: pending)
  | .reprepare effect attempts pending => (effect, attempts) :: heldTasks pending
  | .cleanup .. => []

/-- The publications whose artifact may be visible without a cleanup having gone wrong. -/
def shown (s : State) : List ℕ :=
  match s.control with
  | .idle | .publish .. | .reprepare .. => ids s.accepted
  | .prepare .. => []
  | .rollback held _ => held.id :: ids s.accepted
  | .cleanup held later _ .compensating | .cleanup held later _ .rollingBack => held.id :: ids later
  | .cleanup .. => []

/-- The cursors after the accepted publications, in their order. -/
def advance (initial : CursorSet) (accepted : List Held) : CursorSet :=
  accepted.foldl (fun cursors held => cursors.replace held.effect.cursorAfter) initial

/-- Every object obtained is either owned, once, or was cleaned up, once. -/
def Balanced (obtained : ℕ) (cleaned owned : List ℕ) : Prop :=
  ∀ id, cleaned.count id + owned.count id = if id < obtained then 1 else 0

/-- The attempts of every effect are within its limit, and those spent on a task are known. -/
structure Tracked (plan : EffectPlan) (attempted : List ℕ) (tasks : List Task) : Prop where
  distinct : (tasks.map fun task => task.1.ordinal).Nodup
  listed : ∀ task ∈ tasks, task.1 ∈ plan.effects
  counted : ∀ task ∈ tasks, attempted.count task.1.ordinal = task.2
  bounded : ∀ effect ∈ plan.effects, attempted.count effect.ordinal ≤ attemptLimit effect

/-- The loop of `accept` is under way. -/
structure Accepting (initial : CursorSet) (s : State) : Prop where
  status : s.status = .staged
  prepared : s.prepared = []
  troubled : s.troubled = []
  published : s.published = ids s.accepted
  cursors : s.cursors = advance initial s.accepted
  visible : ∀ id ∈ s.published, id ∈ s.visible

/-- A report that nothing was published, with the initial cursors. -/
def Undone (initial : CursorSet) (s : State) : Prop :=
  ∃ status, s.report = some { status, cursors := initial, published := [] }

/-- What is reported of an accepted transaction. -/
def Reported (initial : CursorSet) (s : State) : Prop :=
  s.report = some { status := .accepted, cursors := advance initial s.accepted, published := ids s.accepted }

/-- What holds at each control point. -/
def Shape (initial : CursorSet) (s : State) : Prop :=
  match s.control with
  | .idle => match s.status with
    | .preparing => s.prepared = [] ∧ s.accepted = []
    | .staged => s.accepted = [] ∧ s.troubled = []
    | .accepted => s.prepared = [] ∧ s.troubled = [] ∧ Reported initial s ∧ ∀ id ∈ ids s.accepted, id ∈ s.visible
    | .rejected | .failed => s.prepared = [] ∧ s.accepted = [] ∧ Undone initial s
  | .prepare effect attempts _ =>
    s.status = .preparing ∧ s.accepted = [] ∧ s.troubled = [] ∧ attempts < attemptLimit effect
  | .publish .. | .rollback .. => Accepting initial s
  | .reprepare effect attempts _ => Accepting initial s ∧ attempts < attemptLimit effect
  | .cleanup _ _ _ .compensating => True
  | .cleanup _ _ _ .rollingBack => s.prepared = []
  | .cleanup .. => s.accepted = []

/-- The invariant of a transaction. -/
structure Inv (plan : EffectPlan) (initial : CursorSet) (s : State) : Prop where
  balanced : Balanced s.obtained s.cleaned (owned s)
  tracked : Tracked plan s.attempted (tasks s)
  visible : ∀ id ∈ s.visible, id ∈ s.troubled ∨ id ∈ shown s
  shape : Shape initial s

section Balance
variable {obtained id : ℕ} {cleaned owned other : List ℕ}

theorem Balanced.perm (h : Balanced obtained cleaned owned) (same : owned.Perm other) :
    Balanced obtained cleaned other := by
  intro id
  rw [← same.count_eq]
  exact h id

theorem Balanced.obtain (h : Balanced obtained cleaned owned) :
    Balanced (obtained + 1) cleaned (obtained :: owned) := by
  intro id
  have before := h id
  rw [List.count_cons]
  by_cases same : obtained = id
  · subst same
    simp only [lt_irrefl, if_false] at before
    simp
    omega
  · have later : (id < obtained + 1) = (id < obtained) := by
      apply propext
      omega
    simp only [beq_iff_eq, same, if_false, later]
    exact before

theorem Balanced.clean (h : Balanced obtained cleaned (id :: owned)) : Balanced obtained (id :: cleaned) owned := by
  intro other
  have before := h other
  simp only [List.count_cons] at before ⊢
  omega

theorem Balanced.not_mem (h : Balanced obtained cleaned (id :: owned)) : id ∉ owned := by
  intro member
  have before := h id
  have present : 0 < owned.count id := List.count_pos_iff.mpr member
  rw [List.count_cons_self] at before
  split at before <;> omega

end Balance

section Tracking
variable {plan : EffectPlan} {attempted : List ℕ} {tasks other : List Task} {effect : AcceptedSideEffect} {attempts : ℕ}

theorem Tracked.mono (h : Tracked plan attempted tasks) (fewer : other.Sublist tasks) : Tracked plan attempted other where
  distinct := (fewer.map _).nodup h.distinct
  listed := fun task member => h.listed task (fewer.subset member)
  counted := fun task member => h.counted task (fewer.subset member)
  bounded := h.bounded

theorem Tracked.perm (h : Tracked plan attempted tasks) (same : tasks.Perm other) : Tracked plan attempted other where
  distinct := ((same.map _).nodup_iff).mp h.distinct
  listed := fun task member => h.listed task (same.mem_iff.mpr member)
  counted := fun task member => h.counted task (same.mem_iff.mpr member)
  bounded := h.bounded

theorem Tracked.nothing (h : Tracked plan attempted tasks) : Tracked plan attempted [] := h.mono (List.nil_sublist _)

theorem ordinal_injective {left right : AcceptedSideEffect} (hl : left ∈ plan.effects) (hr : right ∈ plan.effects)
    (same : left.ordinal = right.ordinal) : left = right := by
  have distinct : (plan.effects.map AcceptedSideEffect.ordinal).Nodup := plan.contiguous ▸ List.nodup_range
  exact List.inj_on_of_nodup_map distinct hl hr same

theorem Tracked.attempt (h : Tracked plan attempted ((effect, attempts) :: tasks)) (few : attempts < attemptLimit effect) :
    Tracked plan (effect.ordinal :: attempted) ((effect, attempts + 1) :: tasks) where
  distinct := h.distinct
  listed := fun task member => by
    rcases List.mem_cons.mp member with rfl | later
    · exact h.listed (effect, attempts) (List.mem_cons_self ..)
    · exact h.listed task (List.mem_cons_of_mem _ later)
  counted := fun task member => by
    rcases List.mem_cons.mp member with rfl | later
    · have spent := h.counted (effect, attempts) (List.mem_cons_self ..)
      simpa using spent
    · have different : effect.ordinal ≠ task.1.ordinal := by
        intro same
        exact (List.nodup_cons.mp h.distinct).1 (List.mem_map.mpr ⟨task, later, same.symm⟩)
      rw [List.count_cons_of_ne different]
      exact h.counted task (List.mem_cons_of_mem _ later)
  bounded := fun other member => by
    have mine := h.listed (effect, attempts) (List.mem_cons_self ..)
    by_cases same : effect.ordinal = other.ordinal
    · obtain rfl := ordinal_injective mine member same
      have spent := h.counted (effect, attempts) (List.mem_cons_self ..)
      rw [List.count_cons_self, spent]
      exact few
    · rw [List.count_cons_of_ne same]
      exact h.bounded other member

end Tracking

theorem attemptLimit_pos (effect : AcceptedSideEffect) : 0 < attemptLimit effect := by
  unfold attemptLimit
  split
  · rename_i atLeast _
    omega
  · exact one_pos

@[simp] theorem ids_nil : ids [] = [] := rfl
@[simp] theorem ids_cons (held : Held) (later : List Held) : ids (held :: later) = held.id :: ids later := rfl
@[simp] theorem ids_append (left right : List Held) : ids (left ++ right) = ids left ++ ids right := List.map_append ..
@[simp] theorem ids_reverse (helds : List Held) : ids helds.reverse = (ids helds).reverse := List.map_reverse ..
@[simp] theorem heldTasks_nil : heldTasks [] = [] := rfl
@[simp] theorem heldTasks_cons (held : Held) (later : List Held) :
    heldTasks (held :: later) = (held.effect, held.attempts) :: heldTasks later := rfl
@[simp] theorem heldTasks_append (left right : List Held) :
    heldTasks (left ++ right) = heldTasks left ++ heldTasks right := List.map_append ..

variable {plan : EffectPlan} {initial snapshot : CursorSet}

theorem prepareNext_inv {s : State} {todo : List AcceptedSideEffect} (status : s.status = .preparing)
    (accepted : s.accepted = []) (troubled : s.troubled = [])
    (balanced : Balanced s.obtained s.cleaned (ids s.prepared))
    (tracked : Tracked plan s.attempted (todo.map (·, 0) ++ heldTasks s.prepared)) (visible : s.visible = []) :
    Inv plan initial (prepareNext s todo) := by
  cases todo with
  | nil =>
    refine ⟨?_, ?_, ?_, ?_⟩
    · simpa [prepareNext, owned, accepted] using balanced
    · simpa [prepareNext, tasks] using tracked
    · simp [prepareNext, visible]
    · simp [prepareNext, Shape, accepted, troubled]
  | cons effect todo =>
    refine ⟨?_, ?_, ?_, ?_⟩
    · simpa [prepareNext, owned] using balanced
    · simpa [prepareNext, tasks] using tracked
    · simp [prepareNext, visible]
    · simp [prepareNext, Shape, status, accepted, troubled, attemptLimit_pos]

variable {pending : List Held} {purpose : Purpose} {outcome : Outcome} {later : List Held}

theorem acceptNext_inv {s : State} (accepting : Accepting initial s)
    (balanced : Balanced s.obtained s.cleaned (ids pending ++ ids s.accepted))
    (tracked : Tracked plan s.attempted (heldTasks pending))
    (visible : ∀ id ∈ s.visible, id ∈ ids s.accepted) : Inv plan initial (acceptNext s pending) := by
  cases pending with
  | nil =>
    refine ⟨?_, ?_, ?_, ?_⟩
    · simpa [acceptNext, owned, accepting.prepared] using balanced
    · simpa [acceptNext, tasks] using tracked
    · simpa [acceptNext, shown] using fun id member => Or.inr (visible id member)
    · simp only [acceptNext, Shape]
      refine ⟨accepting.prepared, accepting.troubled, ?_, ?_⟩
      · simp [Reported, accepting.cursors, accepting.published]
      · rw [← accepting.published]
        exact accepting.visible
  | cons held pending =>
    refine ⟨?_, ?_, ?_, ?_⟩
    · simpa [acceptNext, owned] using balanced
    · simpa [acceptNext, tasks] using tracked
    · simpa [acceptNext, shown] using fun id member => Or.inr (visible id member)
    · simp only [acceptNext, Shape]
      exact ⟨accepting.status, accepting.prepared, accepting.troubled, accepting.published, accepting.cursors,
        accepting.visible⟩

/-- What a cleanup loop leaves to a later one. -/
def rest (s : State) : Purpose → List ℕ
  | .compensating => ids s.prepared
  | _ => []

/-- What a cleanup loop makes invisible. -/
def hides (left : List Held) : Purpose → List ℕ
  | .compensating | .rollingBack => ids left
  | _ => []

/-- What holds before each call of a cleanup loop, and after the last. -/
structure Cleaning (s : State) (left : List Held) (purpose : Purpose) : Prop where
  balanced : Balanced s.obtained s.cleaned (ids left ++ rest s purpose)
  visible : ∀ id ∈ s.visible, id ∈ s.troubled ∨ id ∈ hides left purpose
  empty : match purpose with
    | .compensating => True
    | .rollingBack => s.prepared = []
    | _ => s.accepted = []

theorem cleanupNext_inv {s : State} {left : List Held} {tidy : Bool} (cleaning : Cleaning s left purpose)
    (tracked : Tracked plan s.attempted []) :
    Inv plan initial (cleanupNext initial s tidy purpose left) := by
  obtain ⟨balanced, visible, empty⟩ := cleaning
  cases left with
  | cons held later =>
    refine ⟨?_, ?_, ?_, ?_⟩
    · cases purpose <;> simpa [cleanupNext, owned, rest] using balanced
    · simpa [cleanupNext, tasks] using tracked
    · cases purpose <;> simpa [cleanupNext, shown, hides] using visible
    · cases purpose with
      | compensating => trivial
      | failing | rejecting | rollingBack => exact empty
  | nil =>
    cases purpose with
    | failing =>
      refine ⟨?_, ?_, ?_, ?_⟩
      · simpa [cleanupNext, cleanupDone, owned, empty, rest] using balanced
      · simpa [cleanupNext, cleanupDone, tasks] using tracked
      · simpa [cleanupNext, cleanupDone, shown, hides, empty] using visible
      · simpa [cleanupNext, cleanupDone, Shape, Undone] using empty
    | rejecting =>
      refine ⟨?_, ?_, ?_, ?_⟩
      · simpa [cleanupNext, cleanupDone, owned, empty, rest] using balanced
      · cases tidy <;> simpa [cleanupNext, cleanupDone, tasks] using tracked
      · simpa [cleanupNext, cleanupDone, shown, hides, empty] using visible
      · cases tidy <;> simpa [cleanupNext, cleanupDone, Shape, Undone] using empty
    | rollingBack =>
      refine ⟨?_, ?_, ?_, ?_⟩
      · simpa [cleanupNext, cleanupDone, owned, empty, rest] using balanced
      · cases tidy <;> simpa [cleanupNext, cleanupDone, tasks] using tracked
      · simpa [cleanupNext, cleanupDone, shown, hides] using visible
      · cases tidy <;> simpa [cleanupNext, cleanupDone, Shape, Undone] using empty
    | compensating =>
      -- what is staged is discarded next
      have reversed : Balanced s.obtained s.cleaned (ids s.prepared.reverse) := by
        rw [ids_reverse]
        exact Balanced.perm (by simpa [rest] using balanced) (List.reverse_perm _).symm
      cases staged : s.prepared.reverse with
      | nil =>
        have none : s.prepared = [] := List.reverse_eq_nil_iff.mp staged
        refine ⟨?_, ?_, ?_, ?_⟩
        · simpa [cleanupNext, cleanupDone, owned, none, rest] using balanced
        · simpa [cleanupNext, cleanupDone, tasks, staged] using tracked
        · simpa [cleanupNext, cleanupDone, shown, hides, staged] using visible
        · simp [cleanupNext, cleanupDone, Shape, Undone, none]
      | cons held later =>
        rw [staged] at reversed
        refine ⟨?_, ?_, ?_, ?_⟩
        · simpa [cleanupNext, cleanupDone, owned, staged] using reversed
        · simpa [cleanupNext, cleanupDone, tasks, staged] using tracked
        · simpa [cleanupNext, cleanupDone, shown, hides, staged] using visible
        · simp [cleanupNext, cleanupDone, Shape, staged]

theorem failAccept_inv {s : State} (prepared : s.prepared = [])
    (balanced : Balanced s.obtained s.cleaned (ids pending ++ ids s.accepted))
    (tracked : Tracked plan s.attempted [])
    (visible : ∀ id ∈ s.visible, id ∈ s.troubled ∨ id ∈ ids s.accepted) : Inv plan initial (failAccept initial s pending) := by
  refine cleanupNext_inv ⟨?_, ?_, trivial⟩ tracked
  · refine balanced.perm ?_
    simp only [ids_reverse, rest, prepared, List.nil_append]
    exact List.perm_append_comm.trans ((List.reverse_perm _).symm.append_right _)
  · simpa [hides] using visible

theorem clean_frame (s : State) (held : Held) (outcome : Outcome) :
    (clean s held outcome).cleaned = held.id :: s.cleaned ∧ (clean s held outcome).obtained = s.obtained ∧
      (clean s held outcome).attempted = s.attempted ∧ (clean s held outcome).prepared = s.prepared ∧
      (clean s held outcome).accepted = s.accepted := by
  cases outcome <;> exact ⟨rfl, rfl, rfl, rfl, rfl⟩

theorem clean_visible {s : State} {held : Held} {id : ℕ} {others : List ℕ}
    (visible : id ∈ s.visible → id ∈ s.troubled ∨ id ∈ held.id :: others)
    (member : id ∈ (clean s held outcome).visible) :
    id ∈ (clean s held outcome).troubled ∨ id ∈ others := by
  have before : id ∈ s.visible := by
    cases outcome with
    | ok | unauthenticated => exact (List.mem_filter.mp member).1
    | failed effective | interrupted effective =>
      cases effective with
      | false => exact member
      | true => exact (List.mem_filter.mp member).1
  have left : outcome = .ok → id ≠ held.id := by
    rintro rfl
    simpa using (List.mem_filter.mp member).2
  have kept : id ∈ s.troubled → id ∈ (clean s held outcome).troubled := by
    intro trouble
    cases outcome with
    | ok => exact trouble
    | unauthenticated | failed _ | interrupted _ => exact List.mem_cons_of_mem _ trouble
  rcases visible before with trouble | member
  · exact .inl (kept trouble)
  · rcases List.mem_cons.mp member with rfl | other
    · cases outcome with
      | ok => exact absurd rfl (left rfl)
      | unauthenticated | failed _ | interrupted _ => exact .inl (List.mem_cons_self ..)
    · exact .inr other

theorem cleaning_clean {s : State} {held : Held} (outcome : Outcome)
    (cleaning : Cleaning s (held :: later) purpose) : Cleaning (clean s held outcome) later purpose := by
  obtain ⟨cleanedEq, obtainedEq, -, preparedEq, acceptedEq⟩ := clean_frame s held outcome
  refine ⟨?_, ?_, ?_⟩
  · rw [cleanedEq, obtainedEq]
    refine Balanced.clean (cleaning.balanced.perm (.of_eq ?_))
    cases purpose <;> simp [rest, preparedEq]
  · intro id member
    refine clean_visible (fun before => ?_) member
    have known := cleaning.visible id before
    cases purpose with
    | failing | rejecting => exact known.imp_right fun impossible => absurd impossible List.not_mem_nil
    | compensating | rollingBack => exact known
  · have empty := cleaning.empty
    cases purpose with
    | failing | rejecting => exact acceptedEq.trans empty
    | compensating => trivial
    | rollingBack => exact preparedEq.trans empty

/-- A call of the publisher that holds nothing may be interrupted; an object it prepares
authenticates its effect. -/
def Orderly (s : State) (outcome : Outcome) : Prop :=
  match s.control, outcome with
  | .prepare .., .unauthenticated | .reprepare .., .unauthenticated => False
  | .prepare .., .interrupted _ => s.prepared = []
  | .reprepare _ _ pending, .interrupted _ => pending = [] ∧ s.accepted = []
  | .idle, _ => True
  | _, .interrupted _ => False
  | _, _ => True

theorem prepareReturned_inv {s : State} {effect : AcceptedSideEffect} {attempts : ℕ}
    {todo : List AcceptedSideEffect} (control : s.control = .prepare effect attempts todo)
    (inv : Inv plan initial s) (orderly : Orderly s outcome) :
    Inv plan initial (prepareReturned initial snapshot s effect attempts todo outcome) := by
  obtain ⟨balanced, tracked, visible, shape⟩ := inv
  simp only [owned, control] at balanced
  simp only [tasks, control] at tracked
  simp only [shown, control, List.not_mem_nil, or_false] at visible
  simp only [Shape, control] at shape
  obtain ⟨status, accepted, troubled, few⟩ := shape
  have invisible : s.visible = [] := List.eq_nil_iff_forall_not_mem.mpr fun id member => by
    simpa [troubled] using visible id member
  have spent := tracked.attempt few
  cases outcome with
  | ok =>
    refine prepareNext_inv status accepted troubled ?_ ?_ invisible
    · simp only [attempt, ids_append, ids_cons, ids_nil]
      exact balanced.obtain.perm (List.perm_append_singleton _ _).symm
    · simp only [attempt, heldTasks_append, heldTasks_cons, heldTasks_nil]
      refine spent.perm ?_
      rw [← List.append_assoc]
      exact (List.perm_append_singleton _ _).symm
  | unauthenticated => simp [Orderly, control] at orderly
  | interrupted effective =>
    simp only [Orderly, control] at orderly
    refine ⟨?_, ?_, ?_, ?_⟩
    · simpa [prepareReturned, attempt, owned, orderly, accepted] using balanced
    · simpa [prepareReturned, attempt, tasks, status] using spent.nothing
    · simp [prepareReturned, attempt, invisible]
    · simp [prepareReturned, attempt, Shape, status, orderly, accepted]
  | failed effective =>
    have others := spent.mono (List.sublist_cons_self _ _)
    simp only [prepareReturned]
    split
    · rename_i again
      refine ⟨?_, ?_, ?_, ?_⟩
      · simpa [attempt, owned] using balanced
      · simpa [attempt, tasks] using spent
      · simp [attempt, invisible]
      · simp [attempt, Shape, status, accepted, troubled, again]
    · split
      · exact prepareNext_inv status accepted troubled (by simpa [attempt] using balanced) (by simpa [attempt] using others)
          (by simpa [attempt] using invisible)
      · refine cleanupNext_inv ⟨?_, ?_, accepted⟩ spent.nothing
        · simp only [attempt, ids_reverse, rest, List.append_nil]
          exact balanced.perm (List.reverse_perm _).symm
        · simp [attempt, invisible]

theorem advance_append (initial : CursorSet) (accepted : List Held) (held : Held) :
    advance initial (accepted ++ [held]) = (advance initial accepted).replace held.effect.cursorAfter := by
  simp [advance, List.foldl_append]

theorem publishReturned_inv {s : State} {held : Held} (control : s.control = .publish held pending)
    (inv : Inv plan initial s) (orderly : Orderly s outcome) :
    Inv plan initial (publishReturned s held pending outcome) := by
  obtain ⟨balanced, tracked, visible, accepting⟩ := inv
  simp only [owned, control] at balanced
  simp only [tasks, control, heldTasks_cons] at tracked
  simp only [shown, control] at visible
  simp only [Shape, control] at accepting
  have settled : ∀ id ∈ s.visible, id ∈ ids s.accepted := fun id member => by
    simpa [accepting.troubled] using visible id member
  have refused (seen : List ℕ) (bounded : ∀ id ∈ seen, id ∈ held.id :: s.visible) (kept : ∀ id ∈ s.visible, id ∈ seen) :
      Inv plan initial { s with visible := seen, control := .rollback held pending } := by
    refine ⟨?_, ?_, ?_, ?_⟩
    · simpa [owned] using balanced
    · simpa [tasks] using tracked
    · intro id member
      rcases List.mem_cons.mp (bounded id member) with rfl | before
      · exact .inr (List.mem_cons_self ..)
      · exact .inr (List.mem_cons_of_mem _ (settled id before))
    · exact ⟨accepting.status, accepting.prepared, accepting.troubled, accepting.published, accepting.cursors,
        fun id member => kept id (accepting.visible id member)⟩
  have seen := refused (held.id :: s.visible) (fun _ member => member) (fun _ member => List.mem_cons_of_mem _ member)
  cases outcome with
  | interrupted effective => simp [Orderly, control] at orderly
  | ok =>
    refine acceptNext_inv ⟨accepting.status, accepting.prepared, accepting.troubled, ?_, ?_, ?_⟩ ?_ ?_ ?_
    · simp [makeVisible, Outcome.effective, accepting.published]
    · simp only [makeVisible, Outcome.effective, if_true, advance_append, accepting.cursors]
    · intro id member
      simp only [makeVisible, Outcome.effective, if_true, List.mem_append, List.mem_singleton] at member ⊢
      rcases member with known | rfl
      · exact List.mem_cons_of_mem _ (accepting.visible id known)
      · exact List.mem_cons_self ..
    · simp only [makeVisible, Outcome.effective, if_true, ids_append, ids_cons, ids_nil]
      refine balanced.perm ?_
      rw [← List.append_assoc]
      exact (List.perm_append_singleton _ _).symm
    · exact tracked.mono (List.sublist_cons_self _ _)
    · intro id member
      simp only [makeVisible, Outcome.effective, if_true, List.mem_cons] at member
      simp only [makeVisible, Outcome.effective, if_true, ids_append, ids_cons, ids_nil, List.mem_append,
        List.mem_singleton]
      exact member.symm.imp_left (settled id)
  | unauthenticated => exact seen
  | failed effective =>
    cases effective with
    | false => exact refused s.visible (fun _ member => List.mem_cons_of_mem _ member) (fun _ member => member)
    | true => exact seen

theorem rollbackReturned_inv {s : State} {held : Held} (control : s.control = .rollback held pending)
    (inv : Inv plan initial s) (orderly : Orderly s outcome) :
    Inv plan initial (rollbackReturned initial s held pending outcome) := by
  obtain ⟨balanced, tracked, visible, accepting⟩ := inv
  simp only [owned, control] at balanced
  simp only [tasks, control, heldTasks_cons] at tracked
  simp only [shown, control] at visible
  simp only [Shape, control] at accepting
  obtain ⟨cleanedEq, obtainedEq, attemptedEq, preparedEq, acceptedEq⟩ := clean_frame s held outcome
  have released : Balanced (clean s held outcome).obtained (clean s held outcome).cleaned
      (ids pending ++ ids (clean s held outcome).accepted) := by
    rw [cleanedEq, obtainedEq, acceptedEq]
    exact Balanced.clean balanced
  have remaining : ∀ id ∈ (clean s held outcome).visible,
      id ∈ (clean s held outcome).troubled ∨ id ∈ ids (clean s held outcome).accepted := by
    intro id member
    rw [acceptedEq]
    exact clean_visible (visible id) member
  have others : Tracked plan (clean s held outcome).attempted (heldTasks pending) :=
    attemptedEq ▸ tracked.mono (List.sublist_cons_self _ _)
  have prepared : (clean s held outcome).prepared = [] := preparedEq.trans accepting.prepared
  have failing (skipped : List ℕ) : Inv plan initial (failAccept initial { clean s held outcome with skipped } pending) :=
    failAccept_inv prepared released others.nothing remaining
  cases outcome with
  | interrupted effective => simp [Orderly, control] at orderly
  | unauthenticated | failed effective =>
    all_goals
      simp only [rollbackReturned]
      cases held.effect.failureAction with
      | failRun | skipSampleReported | retry _ _ => exact failing _
  | ok =>
    have clear : Accepting initial (clean s held .ok) := by
      refine ⟨accepting.status, accepting.prepared, accepting.troubled, accepting.published, accepting.cursors, ?_⟩
      intro id member
      refine List.mem_filter.mpr ⟨accepting.visible id member, ?_⟩
      have apart : held.id ∉ ids pending ++ ids s.accepted := Balanced.not_mem balanced
      have inside : id ∈ ids s.accepted := accepting.published ▸ member
      simpa using fun same : id = held.id => apart (List.mem_append.mpr (.inr (same ▸ inside)))
    have settled : ∀ id ∈ (clean s held .ok).visible, id ∈ ids s.accepted := fun id member => by
      have known := remaining id member
      rw [clear.troubled] at known
      simpa [acceptedEq] using known
    simp only [rollbackReturned]
    cases action : held.effect.failureAction with
    | failRun => exact failing _
    | skipSampleReported =>
      exact acceptNext_inv ⟨clear.status, clear.prepared, clear.troubled, clear.published, clear.cursors, clear.visible⟩
        released others settled
    | retry maxAttempts atLeast =>
      simp only
      split
      · rename_i again
        refine ⟨?_, ?_, ?_, ?_⟩
        · simpa [owned] using released
        · simpa [tasks, clean] using tracked
        · simpa [shown] using remaining
        · refine ⟨⟨clear.status, clear.prepared, clear.troubled, clear.published, clear.cursors, clear.visible⟩, ?_⟩
          simpa [attemptLimit, action] using again
      · exact failing _

theorem reprepareReturned_inv {s : State} {effect : AcceptedSideEffect} {attempts : ℕ}
    (control : s.control = .reprepare effect attempts pending) (inv : Inv plan initial s)
    (orderly : Orderly s outcome) :
    Inv plan initial (reprepareReturned initial snapshot s effect attempts pending outcome) := by
  obtain ⟨balanced, tracked, visible, shape⟩ := inv
  simp only [owned, control] at balanced
  simp only [tasks, control] at tracked
  simp only [shown, control] at visible
  simp only [Shape, control] at shape
  obtain ⟨accepting, few⟩ := shape
  have spent := tracked.attempt few
  have settled : ∀ id ∈ s.visible, id ∈ ids s.accepted := fun id member => by
    simpa [accepting.troubled] using visible id member
  cases outcome with
  | unauthenticated => simp [Orderly, control] at orderly
  | ok =>
    simp only [reprepareReturned]
    refine acceptNext_inv ⟨accepting.status, accepting.prepared, accepting.troubled,
      accepting.published, accepting.cursors, accepting.visible⟩ ?_ ?_ settled
    · simpa [attempt] using balanced.obtain
    · simpa [attempt] using spent
  | interrupted effective =>
    simp only [Orderly, control] at orderly
    obtain ⟨rfl, none⟩ := orderly
    refine ⟨?_, ?_, ?_, ?_⟩
    · simpa [reprepareReturned, attempt, owned, accepting.prepared] using balanced
    · simpa [reprepareReturned, attempt, tasks, accepting.status, accepting.prepared] using spent.nothing
    · simpa [reprepareReturned, attempt, shown] using visible
    · simpa [reprepareReturned, attempt, Shape, accepting.status] using ⟨none, accepting.troubled⟩
  | failed effective =>
    simp only [reprepareReturned]
    split
    · rename_i again
      refine ⟨?_, ?_, ?_, ?_⟩
      · simpa [attempt, owned] using balanced
      · simpa [attempt, tasks] using spent
      · simpa [attempt, shown] using visible
      · exact ⟨⟨accepting.status, accepting.prepared, accepting.troubled, accepting.published, accepting.cursors,
          accepting.visible⟩, again⟩
    · exact failAccept_inv accepting.prepared (by simpa [attempt] using balanced) (by simpa [attempt] using spent.nothing)
        (by simpa [attempt] using visible)

theorem Inv.cleaning {s : State} {held : Held} {tidy : Bool} (inv : Inv plan initial s)
    (control : s.control = .cleanup held later tidy purpose) :
    Cleaning s (held :: later) purpose := by
  obtain ⟨balanced, -, visible, shape⟩ := inv
  simp only [owned, control] at balanced
  simp only [shown, control] at visible
  simp only [Shape, control] at shape
  cases purpose with
  | compensating => exact ⟨balanced, visible, trivial⟩
  | failing | rejecting => exact ⟨by simpa [rest] using balanced, visible, shape⟩
  | rollingBack => exact ⟨by simpa [rest] using balanced, visible, shape⟩

theorem cleanupReturned_inv {s : State} {held : Held} {tidy : Bool}
    (control : s.control = .cleanup held later tidy purpose) (inv : Inv plan initial s)
    (orderly : Orderly s outcome) :
    Inv plan initial (cleanupReturned initial s held later tidy purpose outcome) := by
  have following := cleaning_clean outcome (inv.cleaning control)
  have tracked := inv.tracked
  simp only [tasks, control] at tracked
  have same : Tracked plan (clean s held outcome).attempted [] := (clean_frame s held outcome).2.2.1 ▸ tracked
  cases outcome with
  | ok => exact cleanupNext_inv following same
  | unauthenticated | failed effective => exact cleanupNext_inv following same
  | interrupted effective => simp [Orderly, control] at orderly

theorem Inv.staged_cleaning {s : State} (inv : Inv plan initial s) (control : s.control = .idle)
    (status : s.status = .staged) : Cleaning s s.prepared.reverse .rejecting := by
  obtain ⟨balanced, -, visible, shape⟩ := inv
  simp only [owned, control] at balanced
  simp only [shown, control] at visible
  simp only [Shape, control, status] at shape
  obtain ⟨accepted, troubled⟩ := shape
  refine ⟨?_, ?_, accepted⟩
  · refine balanced.perm ?_
    simp [rest, accepted]
  · simpa [hides, accepted] using visible

theorem Inv.accepted_cleaning {s : State} (inv : Inv plan initial s) (control : s.control = .idle)
    (status : s.status = .accepted) : Cleaning s s.accepted.reverse .rollingBack := by
  obtain ⟨balanced, -, visible, shape⟩ := inv
  simp only [owned, control] at balanced
  simp only [shown, control] at visible
  simp only [Shape, control, status] at shape
  obtain ⟨prepared, -, -, -⟩ := shape
  refine ⟨?_, ?_, prepared⟩
  · refine balanced.perm ?_
    simp [rest, prepared]
  · simpa [hides] using visible

theorem enterReject_inv {s : State} (control : s.control = .idle) (status : s.status = .staged)
    (inv : Inv plan initial s) : Inv plan initial (enterReject initial s) :=
  cleanupNext_inv (inv.staged_cleaning control status) inv.tracked.nothing

theorem enterRollback_inv {s : State} (control : s.control = .idle) (status : s.status = .accepted)
    (inv : Inv plan initial s) : Inv plan initial (enterRollback initial s) :=
  cleanupNext_inv (inv.accepted_cleaning control status) inv.tracked.nothing

theorem enterAccept_inv {s : State} (control : s.control = .idle) (status : s.status = .staged)
    (inv : Inv plan initial s) : Inv plan initial (enterAccept initial s) := by
  obtain ⟨balanced, tracked, visible, shape⟩ := inv
  simp only [owned, control] at balanced
  simp only [tasks, control, status] at tracked
  simp only [shown, control] at visible
  simp only [Shape, control, status] at shape
  obtain ⟨accepted, troubled⟩ := shape
  refine acceptNext_inv ⟨status, rfl, troubled, ?_, ?_, ?_⟩ balanced tracked ?_
  · simp [accepted]
  · simp [accepted, advance]
  · simp
  · simpa [troubled] using visible

/-- The events of a run are orderly: those that end a call, in the state they find. -/
def OrderlyEvent (s : State) : Event → Prop
  | .returned outcome => Orderly s outcome
  | _ => True

theorem step_inv {s : State} {event : Event} (inv : Inv plan initial s) (orderly : OrderlyEvent s event) :
    Inv plan initial (step initial snapshot s event) := by
  cases control : s.control with
  | idle =>
    cases event with
    | returned outcome => simpa [step, control] using inv
    | accept =>
      cases status : s.status with
      | staged => simpa [step, control, status] using enterAccept_inv control status inv
      | preparing | accepted | rejected | failed => simpa [step, control, status] using inv
    | reject =>
      cases status : s.status with
      | staged => simpa [step, control, status] using enterReject_inv control status inv
      | preparing | accepted | rejected | failed => simpa [step, control, status] using inv
    | rollbackAccepted =>
      cases status : s.status with
      | accepted => simpa [step, control, status] using enterRollback_inv control status inv
      | preparing | staged | rejected | failed => simpa [step, control, status] using inv
    | abort =>
      cases status : s.status with
      | staged => simpa [step, control, status] using enterReject_inv control status inv
      | accepted => simpa [step, control, status] using enterRollback_inv control status inv
      | preparing | rejected | failed => simpa [step, control, status] using inv
  | prepare effect attempts todo =>
    cases event with
    | returned outcome => simpa [step, control] using prepareReturned_inv control inv orderly
    | accept | reject | rollbackAccepted | abort => simpa [step, control] using inv
  | publish held pending =>
    cases event with
    | returned outcome => simpa [step, control] using publishReturned_inv control inv orderly
    | accept | reject | rollbackAccepted | abort => simpa [step, control] using inv
  | rollback held pending =>
    cases event with
    | returned outcome => simpa [step, control] using rollbackReturned_inv control inv orderly
    | accept | reject | rollbackAccepted | abort => simpa [step, control] using inv
  | reprepare effect attempts pending =>
    cases event with
    | returned outcome => simpa [step, control] using reprepareReturned_inv control inv orderly
    | accept | reject | rollbackAccepted | abort => simpa [step, control] using inv
  | cleanup held later tidy purpose =>
    cases event with
    | returned outcome => simpa [step, control] using cleanupReturned_inv control inv orderly
    | accept | reject | rollbackAccepted | abort => simpa [step, control] using inv

theorem construct_inv (plan : EffectPlan) (initial : CursorSet) : Inv plan initial (construct plan initial) := by
  have distinct : (plan.effects.map AcceptedSideEffect.ordinal).Nodup := plan.contiguous ▸ List.nodup_range
  have tracked : Tracked plan [] (plan.effects.map (·, 0)) := by
    refine ⟨by simpa [List.map_map, Function.comp_def] using distinct, ?_, ?_, ?_⟩
    · simp
    · simp
    · simp
  have balanced : Balanced 0 [] [] := by simp [Balanced]
  simp only [construct]
  split
  · exact prepareNext_inv rfl rfl rfl balanced (by simpa using tracked) rfl
  · exact ⟨by simpa [owned] using balanced, by simpa [tasks] using tracked.nothing, by simp, by simp [Shape]⟩

/-- Every event of a run is orderly in the state it finds. -/
def OrderlyRun (initial snapshot : CursorSet) : State → List Event → Prop
  | _, [] => True
  | s, event :: events => OrderlyEvent s event ∧ OrderlyRun initial snapshot (step initial snapshot s event) events

theorem run_inv {s : State} {events : List Event} (inv : Inv plan initial s) (orderly : OrderlyRun initial snapshot s events) :
    Inv plan initial (run initial snapshot s events) := by
  induction events generalizing s with
  | nil => exact inv
  | cons event events ih => exact ih (step_inv inv orderly.1) orderly.2

/-- What a transaction promises. -/
structure AllOrNothing (plan : EffectPlan) (initial : CursorSet) (s : State) : Prop where
  /-- Every publication is still listed, once, or was discarded or rolled back, once. -/
  resolved : s.control = .idle → ∀ id < s.obtained, s.cleaned.count id + (ids s.prepared ++ ids s.accepted).count id = 1
  /-- Nothing stays staged when the transaction is resolved, nor accepted unless it was accepted. -/
  closed : s.control = .idle → match s.status with
    | .rejected | .failed => s.prepared = [] ∧ s.accepted = []
    | .accepted => s.prepared = []
    | _ => True
  attempts : ∀ effect ∈ plan.effects, s.attempted.count effect.ordinal ≤ attemptLimit effect
  /-- The receipts and the cursors of an accepted report are those of the visible artifacts. -/
  reported : s.control = .idle → s.status = .accepted →
    Reported initial s ∧ ∀ id, id ∈ s.visible ↔ id ∈ ids s.accepted
  /-- A rejected or failed transaction leaves only what a cleanup could not remove. -/
  undone : s.control = .idle → s.status = .rejected ∨ s.status = .failed →
    Undone initial s ∧ ∀ id ∈ s.visible, id ∈ s.troubled

theorem Inv.allOrNothing {s : State} (inv : Inv plan initial s) : AllOrNothing plan initial s := by
  obtain ⟨balanced, tracked, visible, shape⟩ := inv
  refine ⟨?_, ?_, tracked.bounded, ?_, ?_⟩
  · intro idle id known
    have once := balanced id
    simp only [owned, idle] at once
    rw [once, if_pos known]
  · intro idle
    simp only [Shape, idle] at shape
    cases status : s.status with
    | rejected | failed =>
      simp only [status] at shape
      exact ⟨shape.1, shape.2.1⟩
    | accepted =>
      simp only [status] at shape
      exact shape.1
    | preparing | staged => trivial
  · intro idle accepted
    simp only [Shape, idle, accepted] at shape
    obtain ⟨-, troubled, reported, kept⟩ := shape
    refine ⟨reported, fun id => ⟨fun member => ?_, kept id⟩⟩
    simpa [troubled, shown, idle] using visible id member
  · intro idle resolved
    have undone : s.accepted = [] ∧ Undone initial s := by
      simp only [Shape, idle] at shape
      rcases resolved with status | status
      · simp only [status] at shape
        exact shape.2
      · simp only [status] at shape
        exact shape.2
    exact ⟨undone.2, fun id member => by simpa [shown, idle, undone.1] using visible id member⟩

/-- In every orderly run of a transaction, every state reached keeps the promises. -/
theorem run_allOrNothing (plan : EffectPlan) (initial snapshot : CursorSet) (events : List Event)
    (orderly : OrderlyRun initial snapshot (construct plan initial) events) :
    AllOrNothing plan initial (run initial snapshot (construct plan initial) events) :=
  (run_inv (construct_inv plan initial) orderly).allOrNothing

theorem run_allOrNothing_sample :
    AllOrNothing samplePlan [] (run [] [] (construct samplePlan [])
      [.returned .ok, .accept, .returned (.failed true), .returned .ok, .returned .ok, .returned .ok]) :=
  run_allOrNothing samplePlan [] [] _ ⟨trivial, trivial, trivial, trivial, trivial, trivial, trivial⟩

/-- A publication interrupted after it became visible is not touched by the abort that follows. -/
theorem interrupted_publication_lost :
    ¬∀ (plan : EffectPlan) (initial snapshot : CursorSet) (events : List Event),
      AllOrNothing plan initial (run initial snapshot (construct plan initial) events) := by
  intro promised
  have lost := (promised samplePlan [] [] [.returned .ok, .accept, .returned (.interrupted true), .abort]).resolved rfl 0
    Nat.zero_lt_one
  cases lost

end Pops.ConsumerTransaction
