import Pops.AmrRuntime
import Pops.RegridProofs

/-! Proofs about the AMR runtime: what a regrid that was prepared before it is
published does to the levels it keeps. -/
namespace Pops.AmrRuntime

variable {d : ℕ} {V R : Type}

/-- The levels up to a parent are the same. -/
def Keeps (parentLevel : ℕ) (before after : Hierarchy d V) : Prop :=
  ∀ level ≤ parentLevel, after.levels[level]? = before.levels[level]?

private theorem keeps_take {hierarchy candidate : Hierarchy d V} (added : List (Level d V)) {parentLevel : ℕ}
    (inside : parentLevel < hierarchy.levels.length)
    (levels : candidate.levels = hierarchy.levels.take (parentLevel + 1) ++ added) :
    Keeps parentLevel hierarchy candidate := by
  intro level below
  rw [levels, List.getElem?_append_left (by rw [List.length_take]; omega), List.getElem?_take_of_lt (by omega)]

/-- A candidate names the epochs and the contract of the runtime. -/
def Names (runtime : AmrRuntime d V) (publication : PreparedRegridPublication d V) : Prop :=
  publication.sourceTopologyEpoch = runtime.topologyEpoch ∧
    publication.sourceMaterializationGeneration = runtime.materializationGeneration ∧
    publication.sourceSpatialContract = runtime.exactSpatialContract

/-- Publishing a candidate throws, or keeps what the levels up to its parent hold. -/
def LosesNoUpdate (runtime : AmrRuntime d V) (publication : PreparedRegridPublication d V) : Prop :=
  publishPreparedRegrid runtime publication =
      .error (.invalidArgument "prepared AMR regrid publication is stale") ∨
    ∃ after, publishPreparedRegrid runtime publication = .ok after ∧
      Keeps publication.parentLevel runtime.hierarchy after.hierarchy

variable {runtime after : AmrRuntime d V} {publication : PreparedRegridPublication d V}

theorem publishPreparedRegrid_ok : publishPreparedRegrid runtime publication = .ok after ↔
    Names runtime publication ∧
      after = if publication.changesTopology then
        { hierarchy := publication.hierarchy, topologyEpoch := publication.topologyEpoch
          materializationGeneration := publication.materializationGeneration
          exactSpatialContract := publication.exactSpatialContract }
      else runtime := by
  simp only [publishPreparedRegrid, bind_ok, throwIf_ok, unit_exists, not_or, ne_eq, not_not, Names, pure, Except.pure]
  split <;> simp [eq_comm]

/-- A publication loses an update exactly when its candidate is taken for the
live source, changes the topology, and was copied before the update. -/
theorem losesNoUpdate_iff : LosesNoUpdate runtime publication ↔
    (Names runtime publication → publication.changesTopology = true →
      Keeps publication.parentLevel runtime.hierarchy publication.hierarchy) := by
  constructor
  · intro keeps names changes
    have published := publishPreparedRegrid_ok.mpr ⟨names, rfl⟩
    rcases keeps with stale | ⟨after, returned, kept⟩
    · rw [published] at stale
      cases stale
    · rw [published, if_pos changes, Except.ok.injEq] at returned
      rw [← returned] at kept
      exact kept
  · intro keeps
    by_cases names : Names runtime publication
    · refine .inr ⟨_, publishPreparedRegrid_ok.mpr ⟨names, rfl⟩, ?_⟩
      by_cases changes : publication.changesTopology = true
      · rw [if_pos changes]
        exact keeps names changes
      · rw [if_neg changes]
        exact fun _ _ => rfl
    · have stale : publication.sourceTopologyEpoch ≠ runtime.topologyEpoch ∨
          publication.sourceMaterializationGeneration ≠ runtime.materializationGeneration ∨
          publication.sourceSpatialContract ≠ runtime.exactSpatialContract := by
        by_contra agrees
        simp only [not_or, ne_eq, not_not] at agrees
        exact names agrees
      refine .inl ?_
      unfold publishPreparedRegrid throwIf
      rw [if_pos stale]
      rfl

private theorem create_ok {levels : List (Level d V)} {budget : HierarchyValidationBudget} {hierarchy : Hierarchy d V}
    (created : Hierarchy.create levels budget = .ok hierarchy) : hierarchy.levels = levels := by
  simp only [Hierarchy.create, bind_ok, pure, Except.pure, Except.ok.injEq] at created
  obtain ⟨checked, -, rfl⟩ := created
  rfl

private theorem createLevel_ok {layout : LevelLayout d} {field : Field d V} {level : Level d V}
    (created : Level.create layout field = .ok level) : level.state.layout = layout := by
  unfold Level.create at created
  split at created
  · cases created
  · rw [Except.ok.injEq] at created
    rw [← created]

theorem regridCandidate_keeps {parentLevel : ℕ} {prepared : PreparedRegrid d R} {childState : Option (Field d V)}
    {candidate : Hierarchy d V} (inside : parentLevel < runtime.hierarchy.levels.length)
    (returned : regridCandidate runtime parentLevel prepared childState = .ok (some candidate)) :
    Keeps parentLevel runtime.hierarchy candidate := by
  unfold regridCandidate at returned
  cases fine : prepared.fineLayout with
  | none =>
    simp only [fine, bind_ok, throwIf_ok, unit_exists] at returned
    obtain ⟨-, returned⟩ := returned
    split at returned
    · cases returned
    · simp only [Hierarchy.truncated, bind_ok, throwIf_ok, unit_exists, pure, Except.pure, Except.ok.injEq,
        Option.some.injEq] at returned
      obtain ⟨taken, ⟨-, created⟩, rfl⟩ := returned
      apply keeps_take [] inside
      rw [create_ok created, List.append_nil]
  | some fineLayout =>
    simp only [fine] at returned
    split at returned
    · rename_i field ownership _
      simp only [Hierarchy.withLevel, bind_ok, throwIf_ok, unit_exists, not_or, ne_eq, not_not, pure, Except.pure,
        Except.ok.injEq, Option.some.injEq] at returned
      obtain ⟨⟨level, -⟩, child, made, replaced, ⟨-, created⟩, rfl⟩ := returned
      have position : child.state.layout.level.toNat = parentLevel + 1 := by
        rw [createLevel_ok made]
        omega
      apply keeps_take [child] inside
      rw [create_ok created, position]
    · cases returned

private theorem nextGeneration_ok {current next : ℕ} {name : String} (returned : nextGeneration current name = .ok next) :
    next = current + 1 := by
  simp only [nextGeneration, bind_ok, throwIf_ok, unit_exists, pure, Except.pure, Except.ok.injEq] at returned
  exact returned.2.symm

/-- A candidate names the runtime it was prepared from, keeps its levels, and
moves to the next epoch when it changes the topology. -/
theorem prepareRegridPublication_ok {parentLevel : ℕ} {prepared : PreparedRegrid d R} {childState : Option (Field d V)}
    (returned : prepareRegridPublication runtime parentLevel prepared childState = .ok publication) :
    Names runtime publication ∧ publication.parentLevel = parentLevel ∧
      (publication.changesTopology = true → publication.topologyEpoch = runtime.topologyEpoch + 1 ∧
        Keeps parentLevel runtime.hierarchy publication.hierarchy) := by
  simp only [prepareRegridPublication, bind_ok, throwIf_ok, unit_exists, not_not] at returned
  obtain ⟨⟨parent, found, -⟩, candidate, selected, returned⟩ := returned
  have inside : parentLevel < runtime.hierarchy.levels.length := (List.getElem?_eq_some_iff.mp found).1
  cases candidate with
  | none =>
    simp only [pure, Except.pure, Except.ok.injEq] at returned
    subst returned
    exact ⟨⟨rfl, rfl, rfl⟩, rfl, fun changes => by cases changes⟩
  | some hierarchy =>
    simp only [bind_ok, pure, Except.pure, Except.ok.injEq] at returned
    obtain ⟨topologyEpoch, advanced, materializationGeneration, -, rfl⟩ := returned
    exact ⟨⟨rfl, rfl, rfl⟩, rfl, fun _ => ⟨nextGeneration_ok advanced, regridCandidate_keeps inside selected⟩⟩

theorem applyRebalance_ok {level : ℕ} {decision : PreparedRebalanceDecision d} {remappedState : Field d V}
    (returned : applyRebalance runtime level decision remappedState = .ok after) :
    after.topologyEpoch = runtime.topologyEpoch + 1 := by
  unfold applyRebalance at returned
  split at returned
  · cases returned
  · simp only [bind_ok, throwIf_ok, unit_exists, pure, Except.pure, Except.ok.injEq] at returned
    obtain ⟨-, -, -, -, rebalanced, -, replacement, -, hierarchy, -, topologyEpoch, advanced, generation, -, rfl⟩ := returned
    exact nextGeneration_ok advanced

/-- A runtime, and the publications that wait for it. -/
structure System (d : ℕ) (V : Type) where
  runtime : AmrRuntime d V
  regrids : List (PreparedRegridPublication d V) := []
  restores : List (PreparedRestorePublication d V) := []

/-- A call on the runtime. -/
inductive Operation (d : ℕ) (V R : Type) where
  | writeState (level : ℕ) (values : V)
  | prepareRegrid (parentLevel : ℕ) (prepared : PreparedRegrid d R) (childState : Option (Field d V))
  | publishRegrid (index : ℕ)
  | discardRegrid (index : ℕ)
  | prepareRestore (snapshot : Snapshot d V)
  | publishRestore (index : ℕ)
  | discardRestore (index : ℕ)
  | applyRebalance (level : ℕ) (decision : PreparedRebalanceDecision d)
      (remappedState : Field d V)

/-- What a call leaves: one that throws changes nothing, and a publication is
used up by its call. -/
def perform (system : System d V) : Operation d V R → System d V
  | .writeState level values => { system with runtime := system.runtime.writeState level values }
  | .prepareRegrid parentLevel prepared childState =>
    match system.runtime.prepareRegridPublication parentLevel prepared childState with
    | .ok publication => { system with regrids := system.regrids ++ [publication] }
    | .error _ => system
  | .publishRegrid index =>
    match system.regrids[index]? with
    | none => system
    | some publication =>
      match system.runtime.publishPreparedRegrid publication with
      | .ok runtime => { system with runtime, regrids := system.regrids.eraseIdx index }
      | .error _ => { system with regrids := system.regrids.eraseIdx index }
  | .discardRegrid index => { system with regrids := system.regrids.eraseIdx index }
  | .prepareRestore snapshot =>
    match system.runtime.prepareRestorePublication snapshot with
    | .ok publication => { system with restores := system.restores ++ [publication] }
    | .error _ => system
  | .publishRestore index =>
    match system.restores[index]? with
    | none => system
    | some publication =>
      match system.runtime.publishPreparedRestore publication with
      | .ok runtime => { system with runtime, restores := system.restores.eraseIdx index }
      | .error _ => { system with restores := system.restores.eraseIdx index }
  | .discardRestore index => { system with restores := system.restores.eraseIdx index }
  | .applyRebalance level decision remappedState =>
    match system.runtime.applyRebalance level decision remappedState with
    | .ok runtime => { system with runtime }
    | .error _ => system

/-- A call that no pending candidate can miss: it does not change a level that a
live candidate would replace by its copy, and rolls back to no epoch at which one
waits with other copies. -/
def Quiet (system : System d V) : Operation d V R → Prop
  | .writeState level values => ∀ publication ∈ system.regrids,
      Names system.runtime publication → publication.changesTopology = true →
        publication.parentLevel < level ∨ ∀ state ∈ system.runtime.hierarchy.levels[level]?, state.values = values
  | .publishRestore index => ∀ restore ∈ system.restores[index]?,
      ∀ next, system.runtime.publishPreparedRestore restore = .ok next →
        ∀ publication ∈ system.regrids, publication.changesTopology = true →
          publication.sourceTopologyEpoch ≤ next.topologyEpoch ∧
            (publication.sourceTopologyEpoch = next.topologyEpoch →
              Keeps publication.parentLevel next.hierarchy publication.hierarchy)
  | _ => True

/-- A run whose calls are all quiet. -/
def QuietRun : System d V → List (Operation d V R) → Prop
  | _, [] => True
  | system, operation :: rest => Quiet system operation ∧ QuietRun (perform system operation) rest

/-- No candidate that changes the topology comes from a later epoch, and those
that name the runtime hold what its levels hold. -/
structure Current (system : System d V) : Prop where
  past : ∀ publication ∈ system.regrids, publication.changesTopology = true →
    publication.sourceTopologyEpoch ≤ system.runtime.topologyEpoch
  next : ∀ publication ∈ system.regrids, publication.changesTopology = true →
    publication.topologyEpoch = publication.sourceTopologyEpoch + 1
  copies : ∀ publication ∈ system.regrids, Names system.runtime publication → publication.changesTopology = true →
    Keeps publication.parentLevel system.runtime.hierarchy publication.hierarchy

variable {system : System d V}

private theorem Current.fewer (current : Current system) {regrids : List (PreparedRegridPublication d V)}
    {restores : List (PreparedRestorePublication d V)} (fewer : ∀ publication ∈ regrids, publication ∈ system.regrids) :
    Current { system with regrids, restores } :=
  ⟨fun publication listed => current.past publication (fewer publication listed),
    fun publication listed => current.next publication (fewer publication listed),
    fun publication listed => current.copies publication (fewer publication listed)⟩

private theorem Current.advance (current : Current system) {later : AmrRuntime d V}
    (epoch : later.topologyEpoch = system.runtime.topologyEpoch + 1)
    {regrids : List (PreparedRegridPublication d V)} (fewer : ∀ publication ∈ regrids, publication ∈ system.regrids) :
    Current { system with runtime := later, regrids } := by
  refine ⟨fun publication listed changes => ?_, fun publication listed => current.next publication (fewer publication listed),
    fun publication listed names changes => ?_⟩
  · have past := current.past publication (fewer publication listed) changes
    simp only
    omega
  · have past := current.past publication (fewer publication listed) changes
    have same := names.1
    simp only at same
    omega

private theorem Current.writeState (current : Current system) {level : ℕ} {values : V}
    (quiet : Quiet (R := R) system (.writeState level values)) :
    Current { system with runtime := system.runtime.writeState level values } := by
  refine ⟨current.past, current.next, fun publication listed names changes below inside => ?_⟩
  rw [current.copies publication listed names changes below inside]
  rcases quiet publication listed names changes with beyond | same
  · have apart : level ≠ below := by omega
    exact (List.getElem?_modify_ne _ _ apart).symm
  · change system.runtime.hierarchy.levels[below]? = (system.runtime.hierarchy.levels.modify level _)[below]?
    by_cases here : level = below
    · subst here
      rw [List.getElem?_modify_eq]
      cases found : system.runtime.hierarchy.levels[level]? with
      | none => rfl
      | some state =>
        have field := same state found
        subst field
        rfl
    · exact (List.getElem?_modify_ne _ _ here).symm

/-- A quiet call keeps the candidates current. -/
theorem Current.step (current : Current system) {operation : Operation d V R} (quiet : Quiet system operation) :
    Current (perform system operation) := by
  cases operation with
  | writeState level values => exact current.writeState quiet
  | prepareRegrid parentLevel prepared childState =>
    simp only [perform]
    split
    · rename_i publication returned
      obtain ⟨names, parent, changed⟩ := prepareRegridPublication_ok returned
      refine ⟨fun other listed changes => ?_, fun other listed changes => ?_, fun other listed live changes => ?_⟩
      · rcases List.mem_append.mp listed with earlier | added
        · exact current.past other earlier changes
        · rw [List.mem_singleton.mp added]
          exact names.1.le
      · rcases List.mem_append.mp listed with earlier | added
        · exact current.next other earlier changes
        · rw [List.mem_singleton.mp added] at changes ⊢
          rw [(changed changes).1, names.1]
      · rcases List.mem_append.mp listed with earlier | added
        · exact current.copies other earlier live changes
        · rw [List.mem_singleton.mp added] at changes ⊢
          rw [parent]
          exact (changed changes).2
    · exact current
  | publishRegrid index =>
    simp only [perform]
    split
    · exact current
    · rename_i publication found
      have listed := List.mem_of_getElem? found
      split
      · rename_i runtime published
        obtain ⟨names, rfl⟩ := publishPreparedRegrid_ok.mp published
        by_cases changes : publication.changesTopology = true
        · rw [if_pos changes]
          refine current.advance ?_ fun other kept => List.mem_of_mem_eraseIdx kept
          rw [current.next publication listed changes, names.1]
        · rw [if_neg changes]
          exact current.fewer fun other kept => List.mem_of_mem_eraseIdx kept
      · exact current.fewer fun other kept => List.mem_of_mem_eraseIdx kept
  | discardRegrid index => exact current.fewer fun other kept => List.mem_of_mem_eraseIdx kept
  | prepareRestore snapshot =>
    simp only [perform]
    split
    · exact current.fewer fun _ listed => listed
    · exact current
  | publishRestore index =>
    simp only [perform]
    split
    · exact current
    · rename_i restore found
      split
      · rename_i next published
        have waits := quiet restore found next published
        exact ⟨fun publication listed changes => (waits publication listed changes).1, current.next,
          fun publication listed names changes => (waits publication listed changes).2 names.1⟩
      · exact current.fewer fun _ listed => listed
  | discardRestore index => exact current.fewer fun _ listed => listed
  | applyRebalance level decision remappedState =>
    simp only [perform]
    split
    · rename_i runtime rebalances
      exact current.advance (applyRebalance_ok rebalances) fun _ listed => listed
    · exact current

/-- After a quiet run, no pending candidate loses an update. -/
theorem quiet_runs_lose_no_update (system : System d V) (operations : List (Operation d V R))
    (fresh : system.regrids = []) (quiet : QuietRun system operations) :
    ∀ publication ∈ (operations.foldl perform system).regrids,
      LosesNoUpdate (operations.foldl perform system).runtime publication := by
  have start : Current system := by
    refine ⟨?_, ?_, ?_⟩ <;> simp [fresh]
  clear fresh
  induction operations generalizing system with
  | nil => exact fun publication listed => losesNoUpdate_iff.mpr (start.copies publication listed)
  | cons operation rest ih => exact ih (perform system operation) quiet.2 (start.step quiet.1)

section Line
open BergerRigoutsos Regrid

/-- A field of the line's coarse level. -/
def lineField (values : ℕ) : Field 1 ℕ :=
  ⟨⟨lineLevel.patches, lineLevel.distribution, fun _ => 0, 1, fun _ => 0⟩, values⟩

/-- A runtime of the line, whose coarse field holds some values. -/
def lineSystem (values : ℕ) : Checked (System 1 ℕ) := do
  let coarse ← Level.create lineLevel (lineField values)
  let hierarchy ← Hierarchy.create [coarse] ⟨2, 8⟩
  return { runtime := ⟨hierarchy, 0, 0, exactContract hierarchy 0 0⟩ }

/-- The preparation of the child level of the line. -/
def lineRegrid : Checked (Operation 1 ℕ ℚ) := do
  let result ← cluster lineSizes [lineMask] lineOptions
  let prepared ← prepareRegrid lineLevel double result oneOwner lineBudget lineLane
  return .prepareRegrid 0 prepared
    (prepared.fineLayout.map fun child => ⟨⟨child.patches, child.distribution, fun _ => 0, 1, fun _ => 0⟩, 7⟩)

/-- A write before the preparation is quiet. -/
theorem quiet_runs_lose_no_update_line : ∃ system operation, lineSystem 5 = .ok system ∧ lineRegrid = .ok operation ∧
    ∀ publication ∈ ([.writeState 0 6, operation].foldl perform system).regrids,
      LosesNoUpdate ([.writeState 0 6, operation].foldl perform system).runtime publication := by
  obtain ⟨system, built⟩ := exists_of_isOk (show (lineSystem 5).isOk = true by decide +kernel)
  obtain ⟨operation, prepares⟩ := exists_of_isOk (show lineRegrid.isOk = true by decide +kernel)
  refine ⟨system, operation, built, prepares, ?_⟩
  have fresh : system.regrids = [] := by
    simp only [lineSystem, bind_ok, pure, Except.pure, Except.ok.injEq] at built
    obtain ⟨coarse, -, hierarchy, -, rfl⟩ := built
    rfl
  have prepare : ∃ prepared childState, operation = .prepareRegrid 0 prepared childState := by
    simp only [lineRegrid, bind_ok, pure, Except.pure, Except.ok.injEq] at prepares
    obtain ⟨result, -, prepared, -, rfl⟩ := prepares
    exact ⟨prepared, _, rfl⟩
  obtain ⟨prepared, childState, rfl⟩ := prepare
  apply quiet_runs_lose_no_update
  · exact fresh
  · refine ⟨fun publication listed => ?_, trivial, trivial⟩
    rw [fresh] at listed
    cases listed

/-- The candidate is not stale after the write, and its old copy replaces the
written level. -/
theorem write_lost_by_regrid : ∃ system operation, lineSystem 5 = .ok system ∧ lineRegrid = .ok operation ∧
    ¬ ∀ publication ∈ ([operation, .writeState 0 6].foldl perform system).regrids,
      LosesNoUpdate ([operation, .writeState 0 6].foldl perform system).runtime publication := by
  have loses : (do
      let system ← lineSystem 5
      let operation ← lineRegrid
      let later := [operation, .writeState 0 6].foldl perform system
      return later.regrids.any fun publication =>
        decide (publication.sourceTopologyEpoch = later.runtime.topologyEpoch) &&
        decide (publication.sourceMaterializationGeneration = later.runtime.materializationGeneration) &&
        decide (publication.sourceSpatialContract = later.runtime.exactSpatialContract) &&
        publication.changesTopology &&
        decide (publication.hierarchy.levels[0]?.map (·.values) ≠ later.runtime.hierarchy.levels[0]?.map (·.values))
      : Checked Bool) = .ok true := by
    decide +kernel
  simp only [bind_ok, pure, Except.pure, Except.ok.injEq, List.any_eq_true, Bool.and_eq_true, decide_eq_true_eq] at loses
  obtain ⟨system, built, operation, prepares, publication, listed, ⟨⟨⟨⟨epoch, generation⟩, contract⟩, changes⟩, differs⟩⟩ :=
    loses
  refine ⟨system, operation, built, prepares, fun keeps => ?_⟩
  have kept := losesNoUpdate_iff.mp (keeps publication listed) ⟨epoch, generation, contract⟩ changes 0 (Nat.zero_le _)
  exact differs (congrArg (Option.map (·.values)) kept)

end Line

end Pops.AmrRuntime
