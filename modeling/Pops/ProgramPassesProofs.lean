import Pops.ProgramPasses

/-!
Dropping the dead nodes of a program changes nothing that it commits or does: the live
set is closed under every reference, and what is dropped has no effect of its own.
-/
namespace Pops.ProgramPasses

variable {Data V S R : Type}

section Walk
variable {known : List ℕ} {expand : ℕ → List ℕ}

theorem walk_closed (live stack : List ℕ)
    (pending : ∀ id ∈ live, ∀ next ∈ expand id, next ∈ known → next ∈ live ∨ next ∈ stack) :
    (∀ id ∈ live, id ∈ walk known expand live stack) ∧
      (∀ id ∈ stack, id ∈ known → id ∈ walk known expand live stack) ∧
      ∀ id ∈ walk known expand live stack, ∀ next ∈ expand id, next ∈ known →
        next ∈ walk known expand live stack := by
  induction live, stack using walk.induct known expand with
  | case1 live =>
    rw [walk]
    refine ⟨fun _ listed => listed, by simp, fun id listed next follows present => ?_⟩
    rcases pending id listed next follows present with here | later
    · exact here
    · cases later
  | case2 live id stack skip ih =>
    rw [walk, if_pos skip]
    obtain ⟨kept, visited, closed⟩ := ih (by
      intro other listed next follows present
      rcases pending other listed next follows present with here | later
      · exact .inl here
      · rcases List.mem_cons.mp later with rfl | later
        · rcases skip with here | absent
          · exact .inl here
          · exact absurd present absent
        · exact .inr later)
    refine ⟨kept, fun other listed present => ?_, closed⟩
    rcases List.mem_cons.mp listed with rfl | later
    · rcases skip with here | absent
      · exact kept other here
      · exact absurd present absent
    · exact visited other later present
  | case3 live id stack fresh ih =>
    rw [walk, if_neg fresh]
    obtain ⟨kept, visited, closed⟩ := ih (by
      intro other listed next follows present
      rcases List.mem_cons.mp listed with rfl | earlier
      · exact .inr (List.mem_append_left _ follows)
      · rcases pending other earlier next follows present with here | later
        · exact .inl (List.mem_cons_of_mem _ here)
        · rcases List.mem_cons.mp later with rfl | later
          · exact .inl List.mem_cons_self
          · exact .inr (List.mem_append_right _ later))
    refine ⟨fun other listed => kept other (List.mem_cons_of_mem _ listed), fun other listed present => ?_, closed⟩
    rcases List.mem_cons.mp listed with rfl | later
    · exact kept other List.mem_cons_self
    · exact visited other (List.mem_append_right _ later) present

/-- What the walk collects is in any set that holds its start and is closed under its edges. -/
theorem walk_sound {P : ℕ → Prop} (live stack : List ℕ) (closed : ∀ id, P id → ∀ next ∈ expand id, P next)
    (held : ∀ id ∈ live, P id) (pending : ∀ id ∈ stack, P id) : ∀ id ∈ walk known expand live stack, P id := by
  induction live, stack using walk.induct known expand with
  | case1 live =>
    rw [walk]
    exact held
  | case2 live id stack skip ih =>
    rw [walk, if_pos skip]
    exact ih held fun other later => pending other (List.mem_cons_of_mem id later)
  | case3 live id stack fresh ih =>
    rw [walk, if_neg fresh]
    have here := pending id List.mem_cons_self
    apply ih
    · intro other listed
      rcases List.mem_cons.mp listed with rfl | earlier
      · exact here
      · exact held other earlier
    · intro other listed
      rcases List.mem_append.mp listed with follows | later
      · exact closed id here other follows
      · exact pending other (List.mem_cons_of_mem id later)

end Walk

mutual

theorem mem_attrRefs {attrs : Attrs Data} {v : ProgramValue Data} (listed : v ∈ attrNodes attrs) :
    v.id ∈ attrRefs attrs := by
  cases attrs with
  | none => simp [attrNodes] at listed
  | ref key id rest => exact List.mem_cons_of_mem _ (mem_attrRefs (by simpa [attrNodes] using listed))
  | affine key terms rest =>
    exact List.mem_append_right _ (mem_attrRefs (by simpa [attrNodes] using listed))
  | schedule cond rest =>
    exact List.mem_append_right _ (mem_attrRefs (by simpa [attrNodes] using listed))
  | block key nodes rest =>
    rw [attrNodes, List.mem_append] at listed
    rw [attrRefs, List.mem_append]
    exact listed.imp mem_blockRefs mem_attrRefs
  | data key value rest =>
    rw [attrNodes] at listed
    rw [attrRefs]
    exact mem_attrRefs listed

theorem mem_blockRefs {nodes : Block Data} {v : ProgramValue Data} (listed : v ∈ blockNodes nodes) :
    v.id ∈ blockRefs nodes := by
  cases nodes with
  | nil => simp [blockNodes] at listed
  | cons first rest =>
    obtain ⟨id, op, inputs, attrs⟩ := first
    rw [blockNodes, List.mem_append, List.mem_cons] at listed
    rw [blockRefs, List.mem_append, List.mem_append, List.mem_cons]
    rcases listed with (rfl | nested) | later
    · exact .inl (.inl (.inl rfl))
    · exact .inl (.inr (mem_attrRefs nested))
    · exact .inr (mem_blockRefs later)

end

section Liveness
variable {p : Program Data} {v : ProgramValue Data} {id next : ℕ}

theorem known_of_values (listed : v ∈ p.values) : v.id ∈ p.known :=
  List.mem_append_left _ (List.mem_map_of_mem listed)

theorem known_of_byId (found : p.byId id = some v) : id ∈ p.known := by
  have same : v.id = id := by simpa using List.find?_some found
  have listed := List.mem_of_find?_eq_some found
  rcases List.mem_append.mp listed with flat | nested
  · exact same ▸ known_of_values flat
  · obtain ⟨owner, owned, inside⟩ := List.mem_flatMap.mp nested
    exact same ▸ List.mem_append_right _ (List.mem_flatMap.mpr ⟨owner, owned, mem_attrRefs inside⟩)

private theorem live_closed (p : Program Data) :
    (∀ id ∈ p.roots, id ∈ p.known → id ∈ liveValueIds p) ∧
      ∀ id ∈ liveValueIds p, ∀ next ∈ p.expand id, next ∈ p.known → next ∈ liveValueIds p :=
  (walk_closed [] p.roots (by simp)).2

theorem byId_flat (listed : v ∈ p.values) : p.byId v.id = some v := by
  have unique : ∀ values : List (ProgramValue Data), (values.map ProgramValue.id).Nodup → v ∈ values →
      values.find? (fun other => other.id == v.id) = some v := by
    intro values distinct listed
    induction values with
    | nil => cases listed
    | cons first rest ih =>
      rw [List.map_cons, List.nodup_cons] at distinct
      rcases List.mem_cons.mp listed with rfl | later
      · simp
      · have different : first.id ≠ v.id := fun same => distinct.1 (same ▸ List.mem_map_of_mem later)
        rw [List.find?_cons_of_neg (by simpa using different)]
        exact ih distinct.2 later
  rw [Program.byId, List.find?_append, unique p.values p.unique listed]
  rfl

/-- What a commit, an effect or something live depends on. -/
inductive Needed (p : Program Data) : ℕ → Prop where
  | commit {commit : ℕ × ℕ} (listed : commit ∈ p.commits) : Needed p commit.2
  | effect {v : ProgramValue Data} (listed : v ∈ p.values) (kept : v.op ∉ removableOps) : Needed p v.id
  | read {id next : ℕ} {v : ProgramValue Data} (needed : Needed p id) (found : p.byId id = some v)
      (reads : next ∈ reads v) : Needed p next

theorem Needed.live (needed : Needed p id) (present : id ∈ p.known) : id ∈ liveValueIds p := by
  induction needed with
  | commit listed => exact (live_closed p).1 _ (List.mem_append_left _ (List.mem_map_of_mem listed)) present
  | effect listed kept =>
    apply (live_closed p).1 _ _ present
    apply List.mem_append_right
    exact List.mem_map_of_mem (List.mem_filter.mpr ⟨listed, by simpa using kept⟩)
  | read needed found follows ih =>
    apply (live_closed p).2 _ (ih (known_of_byId found)) _ _ present
    rw [Program.expand, found]
    exact follows

theorem Needed.of_live (live : id ∈ liveValueIds p) : Needed p id := by
  apply walk_sound [] p.roots _ (by simp) _ id live
  · intro id needed next follows
    unfold Program.expand at follows
    split at follows
    · exact .read needed ‹_› follows
    · cases follows
  · intro id listed
    rcases List.mem_append.mp listed with committed | kept
    · obtain ⟨commit, member, rfl⟩ := List.mem_map.mp committed
      exact .commit member
    · obtain ⟨v, member, rfl⟩ := List.mem_map.mp kept
      obtain ⟨member, removable⟩ := List.mem_filter.mp member
      exact .effect member (by simpa using removable)

theorem reads_live (listed : v ∈ p.values) (live : v.id ∈ liveValueIds p) (follows : next ∈ reads v)
    (present : next ∈ p.known) : next ∈ liveValueIds p := by
  apply (live_closed p).2 v.id live next _ present
  rw [Program.expand, byId_flat listed]
  exact follows

theorem removable_of_dead (listed : v ∈ p.values) (dead : v.id ∉ liveValueIds p) : v.op ∈ removableOps := by
  by_contra kept
  exact dead ((Needed.effect listed kept).live (known_of_values listed))

end Liveness

/-- Two runs that agree on everything but dead values. -/
structure Agrees (p : Program Data) (whole pruned : Run V S) : Prop where
  env : ∀ id, id ∈ liveValueIds p ∨ id ∉ p.known → pruned.env id = whole.env id
  store : pruned.store = whole.store
  effects : pruned.effects = whole.effects

/-- Both attempts are rejected for one reason, or both runs go on and agree. -/
inductive Together (p : Program Data) : Except R (Run V S) → Except R (Run V S) → Prop where
  | rejected (reason : R) : Together p (.error reason) (.error reason)
  | agrees {whole pruned : Run V S} (agrees : Agrees p whole pruned) : Together p (.ok whole) (.ok pruned)

section Runs
variable {lower : Lowering Data V S R} {p : Program Data} {whole pruned : Run V S} {v : ProgramValue Data}

theorem Agrees.live (agrees : Agrees p whole pruned) (listed : v ∈ p.values) (live : v.id ∈ liveValueIds p) :
    Together p (step lower whole v) (step lower pruned v) := by
  have same : (reads v).map pruned.env = (reads v).map whole.env := by
    apply List.map_congr_left
    intro next follows
    apply agrees.env
    by_cases present : next ∈ p.known
    · exact .inl (reads_live listed live follows present)
    · exact .inr present
  rw [step, step, same, agrees.store]
  cases lower v ((reads v).map whole.env) whole.store with
  | error reason => exact .rejected reason
  | ok done =>
    refine .agrees ⟨fun id kept => ?_, rfl, ?_⟩
    · simp only [Run.after]
      by_cases here : id = v.id
      · rw [here, Function.update_self, Function.update_self]
      · rw [Function.update_of_ne here, Function.update_of_ne here, agrees.env id kept]
    · simp only [Run.after, same, agrees.effects]

/-- A dead value whose operation touches nothing shared only defines itself. -/
theorem Agrees.dead (agrees : Agrees p whole pruned) (local_ops : lower.Local) (listed : v ∈ p.values)
    (dead : v.id ∉ liveValueIds p) (quiet : v.op ∉ contextOps) :
    ∃ next, step lower whole v = .ok next ∧ Agrees p next pruned := by
  have removable := removable_of_dead listed dead
  obtain ⟨value, lowered⟩ := local_ops v removable quiet ((reads v).map whole.env) whole.store
  refine ⟨whole.after v (value, whole.store), by rw [step, lowered], fun id kept => ?_, agrees.store, ?_⟩
  · have different : id ≠ v.id := by
      rintro rfl
      rcases kept with live | unknown
      · exact dead live
      · exact unknown (known_of_values listed)
    simp only [Run.after]
    rw [Function.update_of_ne different, agrees.env id kept]
  · simp only [Run.after, List.contains_eq_mem, removable, decide_true, if_true, agrees.effects]

theorem Agrees.steps (local_ops : lower.Local)
    (quiet : ∀ v ∈ p.values, v.id ∉ liveValueIds p → v.op ∉ contextOps) (values : List (ProgramValue Data))
    (within : ∀ v ∈ values, v ∈ p.values) (agrees : Agrees p whole pruned) :
    Together p (steps lower values whole)
      (ProgramPasses.steps lower (values.filter fun v => (liveValueIds p).contains v.id) pruned) := by
  induction values generalizing whole pruned with
  | nil => exact .agrees agrees
  | cons v rest ih =>
    have listed := within v List.mem_cons_self
    have later : ∀ other ∈ rest, other ∈ p.values := fun other member => within other (List.mem_cons_of_mem v member)
    by_cases live : v.id ∈ liveValueIds p
    · rw [List.filter_cons_of_pos (by simpa using live), ProgramPasses.steps, ProgramPasses.steps]
      have stepped : Together p (step lower whole v) (step lower pruned v) := agrees.live listed live
      revert stepped
      generalize step lower whole v = wholeNext
      generalize step lower pruned v = prunedNext
      rintro (reason | next)
      · exact .rejected reason
      · exact ih later next
    · rw [List.filter_cons_of_neg (by simpa using live), ProgramPasses.steps]
      obtain ⟨next, stepped, still⟩ := agrees.dead local_ops listed live (quiet v listed live)
      rw [stepped]
      exact ih later still

end Runs

/-- The pruned program is rejected like the whole one, or has its effects, its store and its commits. -/
def SameOutcome (p : Program Data) : Prop :=
  ∀ (V S R : Type) (lower : Lowering Data V S R), lower.Local → ∀ (absent : V) (store : S),
    (eliminateDeadNodes p).attempt lower absent store = p.attempt lower absent store

/-- Everything that may touch what is shared is needed. -/
def ContextNeeded (p : Program Data) : Prop := ∀ v ∈ p.values, v.op ∈ contextOps → Needed p v.id

variable {p : Program Data}

theorem sameOutcome_of_contextNeeded (needed : ContextNeeded p) : SameOutcome p := by
  intro V S R lower local_ops absent store
  have quiet : ∀ v ∈ p.values, v.id ∉ liveValueIds p → v.op ∉ contextOps := fun v listed dead touches =>
    dead ((needed v listed touches).live (known_of_values listed))
  have start : Agrees p (⟨fun _ => absent, store, []⟩ : Run V S) ⟨fun _ => absent, store, []⟩ :=
    ⟨fun _ _ => rfl, rfl, rfl⟩
  have done := start.steps local_ops quiet p.values fun _ listed => listed
  unfold Program.attempt
  rw [show (eliminateDeadNodes p).values = p.values.filter fun v => (liveValueIds p).contains v.id from rfl]
  revert done
  generalize ProgramPasses.steps lower (p.values.filter _) _ = pruned
  generalize ProgramPasses.steps lower p.values _ = whole
  rintro (reason | agrees)
  · rfl
  · rename_i wholeRun prunedRun
    have committed : p.commits.map (fun commit => (commit.1, prunedRun.env commit.2)) =
        p.commits.map fun commit => (commit.1, wholeRun.env commit.2) := by
      apply List.map_congr_left
      intro commit listed
      congr 1
      apply agrees.env
      by_cases present : commit.2 ∈ p.known
      · exact .inl ((Needed.commit listed).live present)
      · exact .inr present
    simp only [agrees.effects, agrees.store]
    rw [show (eliminateDeadNodes p).commits = p.commits from rfl, committed]

/-- The operation of one value rejects every attempt, all others do nothing. -/
def rejecting (id : ℕ) : Lowering Data Unit Unit Unit := fun v _ _ =>
  if v.id = id ∧ v.op ∈ contextOps then .error () else .ok ((), ())

theorem rejecting_local (id : ℕ) : (rejecting id : Lowering Data Unit Unit Unit).Local :=
  fun _ _ quiet _ _ => ⟨(), if_neg fun here => quiet here.2⟩

theorem steps_rejecting {id : ℕ} (values : List (ProgramValue Data)) (run : Run Unit Unit) :
    (∃ done, steps (rejecting id) values run = .ok done) ↔ ∀ v ∈ values, ¬ (v.id = id ∧ v.op ∈ contextOps) := by
  induction values generalizing run with
  | nil => simp [steps]
  | cons v rest ih =>
    rw [steps, List.forall_mem_cons]
    by_cases here : v.id = id ∧ v.op ∈ contextOps
    · have rejected : step (rejecting id) run v = .error () := by simp only [step, rejecting, if_pos here]
      rw [rejected]
      simp [here]
    · have stepped : step (rejecting id) run v = .ok (run.after v ((), ())) := by
        simp only [step, rejecting, if_neg here]
      rw [stepped]
      simp only [ih, here, not_false_eq_true, true_and]

theorem attempt_ok {lower : Lowering Data Unit Unit Unit} :
    (∃ done, p.attempt lower () () = .ok done) ↔
      ∃ done, steps lower p.values ⟨fun _ => (), (), []⟩ = .ok done := by
  unfold Program.attempt
  cases steps lower p.values ⟨fun _ => (), (), []⟩ <;> simp

theorem contextNeeded_of_sameOutcome (same : SameOutcome p) : ContextNeeded p := by
  intro v listed touches
  by_contra useless
  have dead : v.id ∉ liveValueIds p := fun live => useless (.of_live live)
  have pruned : ∃ done, (eliminateDeadNodes p).attempt (rejecting v.id) () () = .ok done := by
    refine attempt_ok.mpr ((steps_rejecting _ _).mpr fun other kept here => dead ?_)
    rw [← here.1]
    simpa using (List.mem_filter.mp kept).2
  rw [same Unit Unit Unit (rejecting v.id) (rejecting_local v.id)] at pruned
  exact (steps_rejecting _ _).mp (attempt_ok.mp pruned) v listed ⟨rfl, touches⟩

/-- A step along a rate, a combination that nothing reads, and a stored history. -/
def steppedProgram : Program Unit where
  values := [.mk 0 "state" [] .none, .mk 1 "rhs" [0] .none, .mk 2 "linear_combine" [0] .none,
    .mk 3 "linear_combine" [0, 1] .none, .mk 4 "store_history" [3] .none]
  commits := [(0, 3)]
  unique := by decide

/-- A state, a transform that nothing reads, and the state committed. -/
def transformedProgram : Program Unit where
  values := [.mk 0 "state" [] .none, .mk 1 "local_transform" [0] .none]
  commits := [(0, 0)]
  unique := by decide

/-- The store is the state; the transform rejects a negative one. -/
def positiveTransform : Lowering Unit Int Int String := fun v read store =>
  if v.op = "local_transform" then
    if read.headD 0 < 0 then .error "out-of-domain state" else .ok (read.headD 0, store)
  else .ok (store, store)

end Pops.ProgramPasses
