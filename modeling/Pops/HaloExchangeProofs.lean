import Mathlib
import Pops.HaloExchange
import Pops.HaloScheduleProofs

/-!
A halo exchange is all or nothing. Every phase before the publication leaves
the memories alone, and its decision is the same on all ranks: whichever rank
fails, all of them seal and reject. What the receives of one rank expect is what
the sends of the others carry, so without a failure every rank publishes.
-/
namespace Pops
open MixedRadix PeerPlans Rounds

variable {d : ℕ} {V : Type}

namespace HaloExchange
variable {faults : Faults} {calls : ℕ → Call d} {size rank : ℕ} {start reached after : ℕ → Rank d V}
variable {rejection : ℕ → Rank d V × Outcome} {exchange : HaloExchange d V} {exception : Exception}

/-- How a rank ends when a call is rejected: sealed, with the memory it had, and
with an exception, unless its own drain cannot be proven. -/
structure Withheld (faults : Faults) (start : ℕ → Rank d V) (exception : Exception) (rank : ℕ)
    (result : Rank d V × Outcome) : Prop where
  isSealed : result.1.exchange.isSealed = true
  memory : result.1.memory = (start rank).memory
  outcome : result.2 = .threw exception ∨
    result.2 = .terminated ∧ (start rank).exchange.drainFails faults rank = true

/-- What the phases before the publication do not touch. -/
def Untouched (start reached : ℕ → Rank d V) : Prop :=
  ∀ rank, (reached rank).memory = (start rank).memory ∧
    (reached rank).exchange.context = (start rank).exchange.context

theorem Untouched.refl (start : ℕ → Rank d V) : Untouched start start := fun _ => ⟨rfl, rfl⟩

theorem Untouched.drainFails (untouched : Untouched start reached) (rank : ℕ) :
    (reached rank).exchange.drainFails faults rank = (start rank).exchange.drainFails faults rank := by
  unfold HaloExchange.drainFails
  rw [(untouched rank).2]

@[simp]
theorem sealAt_isSealed (stage : HaloExchangeDiagnosticStage) : (exchange.sealAt stage).isSealed = true := by
  unfold sealAt
  split
  · assumption
  · rfl

@[simp]
theorem sealAt_sendRequests (stage : HaloExchangeDiagnosticStage) :
    (exchange.sealAt stage).sendRequests = exchange.sendRequests := by
  unfold sealAt
  split <;> rfl

private theorem withheld_of_throw (untouched : Untouched start reached) {final : HaloExchange d V}
    (stopped : final.isSealed = true) :
    Withheld faults start exception rank (⟨final, (reached rank).memory⟩, .threw exception) :=
  ⟨stopped, (untouched rank).1, .inl rfl⟩

private theorem withheld_of_drain (untouched : Untouched start reached)
    {drained : HaloExchange d V × Bool} {settle : HaloExchange d V → HaloExchange d V}
    (stopped : drained.1.isSealed = true) (keeps : (settle drained.1).isSealed = drained.1.isSealed)
    (proven : (reached rank).exchange.drainFails faults rank = false → drained.2 = true) :
    Withheld faults start exception rank
      (requireProvenDrain drained settle (reached rank).memory exception) := by
  unfold requireProvenDrain
  cases drainedToo : drained.2 with
  | true => exact ⟨keeps.trans stopped, (untouched rank).1, .inl rfl⟩
  | false =>
    refine ⟨stopped, (untouched rank).1, .inr ⟨rfl, ?_⟩⟩
    rw [← untouched.drainFails rank]
    by_contra healthy
    rw [Bool.not_eq_true] at healthy
    rw [proven healthy] at drainedToo
    cases drainedToo

private theorem drainReceives_isSealed (failed : Bool) :
    (drainReceives failed exchange).1.isSealed = exchange.isSealed := by
  unfold drainReceives
  split <;> rfl

private theorem drainReceives_proven {failed : Bool} (idle : exchange.sendRequests = []) (healthy : failed = false) :
    (drainReceives failed exchange).2 = true := by
  unfold drainReceives
  rw [healthy, if_neg Bool.false_ne_true, idle]
  rfl

private theorem drainAll_isSealed (failed : Bool) :
    (drainAll failed exchange).1.isSealed = exchange.isSealed := by
  unfold drainAll
  split
  · rfl
  · exact drainReceives_isSealed failed

private theorem drainAll_proven {failed : Bool} (healthy : failed = false) :
    (drainAll failed exchange).2 = true := by
  unfold drainAll
  rw [healthy, if_neg Bool.false_ne_true]
  exact drainReceives_proven rfl rfl

theorem packRank_ok {packed : HaloExchange d V} {fields : HaloFields d} {memory : ℤ → V}
    (ran : exchange.packRank fields memory = .ok packed) :
    ∃ localBuffer sends, exchange.schedule.authenticate fields = .ok () ∧
      exchange.schedule.packLocal fields memory exchange.localBuffer = .ok localBuffer ∧
      (exchange.sends.mapM fun peer => do
        let device ← exchange.schedule.packJobs fields memory peer.plan.jobs peer.plan.elements peer.device
        return { peer with device, host := device }) = .ok sends ∧
      packed = { exchange with activeStorage := fields.storage, localBuffer, sends } := by
  simp only [packRank, bind_ok, unit_exists, pure_ok] at ran
  obtain ⟨authentic, localBuffer, packedLocal, sends, packedSends, rfl⟩ := ran
  exact ⟨localBuffer, sends, authentic, packedLocal, packedSends, rfl⟩

theorem packing_act (faults : Faults) (calls : ℕ → Call d) (start : ℕ → Rank d V) (rank : ℕ) :
    ∃ storage localBuffer sends, (packing faults calls).act start rank =
      ⟨{ (start rank).exchange with activeStorage := storage, localBuffer, sends }, (start rank).memory⟩ := by
  simp only [packing]
  cases ran : (start rank).exchange.packRank (calls rank).fields (start rank).memory with
  | error failure => exact ⟨(start rank).exchange.activeStorage, (start rank).exchange.localBuffer, (start rank).exchange.sends, rfl⟩
  | ok packed =>
    obtain ⟨localBuffer, sends, -, -, -, rfl⟩ := packRank_ok ran
    exact ⟨_, localBuffer, sends, rfl⟩

private theorem packing_untouched (faults : Faults) (calls : ℕ → Call d) (start : ℕ → Rank d V) :
    Untouched start ((packing faults calls).act start) := by
  intro rank
  obtain ⟨storage, localBuffer, sends, same⟩ := packing_act faults calls start rank
  rw [same]
  exact ⟨rfl, rfl⟩

private theorem receivePost_untouched (untouched : Untouched start reached) :
    Untouched start ((receivePost faults).act reached) := untouched

private theorem sendPost_untouched (untouched : Untouched start reached) :
    Untouched start ((sendPost faults).act reached) := untouched

/-- What makes a rank fail in `begin`. -/
def BeginFails (faults : Faults) (call : Call d) (state : Rank d V) (rank : ℕ) : Prop :=
  state.exchange.BeginInvalid call ∨ (state.exchange.packRank call.fields state.memory).isOk = false ∨
    faults.packing rank = true ∨ state.exchange.receives.any (state.exchange.receivePostFails faults rank) = true ∨
    state.exchange.sends.any (state.exchange.sendPostFails faults rank) = true

private theorem someFails_iff {phase : Phase ℕ (Rank d V) Outcome} :
    phase.SomeFails (List.range size) reached ↔ ∃ rank < size, phase.fails reached rank = true := by
  unfold Phase.SomeFails
  simp only [List.mem_range]

private theorem any_congr {fails other : HaloPeer d V → Bool} {changed peers : List (HaloPeer d V)}
    (same : changed.map (·.mpiRank) = peers.map (·.mpiRank))
    (agree : ∀ left right : HaloPeer d V, left.mpiRank = right.mpiRank → fails left = other right) :
    changed.any fails = peers.any other := by
  induction changed generalizing peers with
  | nil =>
    cases peers with
    | nil => rfl
    | cons peer rest => cases same
  | cons first rest ih =>
    cases peers with
    | nil => cases same
    | cons peer later =>
      rw [List.map_cons, List.map_cons, List.cons.injEq] at same
      rw [List.any_cons, List.any_cons, agree first peer same.1, ih same.2]

theorem packing_mpiRanks (faults : Faults) (calls : ℕ → Call d) (start : ℕ → Rank d V) (rank : ℕ) :
    ((packing faults calls).act start rank).exchange.sends.map (·.mpiRank) =
      (start rank).exchange.sends.map (·.mpiRank) := by
  simp only [packing]
  cases ran : (start rank).exchange.packRank (calls rank).fields (start rank).memory with
  | error failure => rfl
  | ok packed =>
    obtain ⟨localBuffer, sends, -, -, packedSends, rfl⟩ := packRank_ok ran
    refine map_of_mapM_ok (fun peer sent packedPeer => ?_) packedSends
    simp only [bind_ok, pure_ok] at packedPeer
    obtain ⟨device, -, rfl⟩ := packedPeer
    rfl

private theorem posts_fail_alike (faults : Faults) (calls : ℕ → Call d) (start : ℕ → Rank d V) (rank : ℕ) :
    (receivePost faults).fails ((packing faults calls).act start) rank =
        (start rank).exchange.receives.any ((start rank).exchange.receivePostFails faults rank) ∧
      (sendPost faults).fails ((receivePost faults).act ((packing faults calls).act start)) rank =
        (start rank).exchange.sends.any ((start rank).exchange.sendPostFails faults rank) := by
  have ranks := packing_mpiRanks faults calls start rank
  obtain ⟨storage, localBuffer, sends, same⟩ := packing_act faults calls start rank
  simp only [receivePost, sendPost, same] at ranks ⊢
  refine ⟨rfl, any_congr ranks fun left right equal => ?_⟩
  simp only [sendPostFails, equal]

theorem beginOn_decided : (∃ rank < size, BeginFails faults (calls rank) (start rank) rank) ↔
    ∃ rejection, beginOn faults calls size start = .error rejection := by
  have rejected : (∃ rejection, beginOn faults calls size start = .error rejection) ↔
      ∃ rejection, run (List.range size) [beginBinding calls, packing faults calls, receivePost faults,
        sendPost faults] start = .error rejection := by
    unfold beginOn
    cases run (List.range size) [beginBinding calls, packing faults calls, receivePost faults, sendPost faults] start with
    | error refused => simp
    | ok sent => simp [pure, Except.pure]
  have bindingStays : (beginBinding calls).act start = start := rfl
  have receivesFail (rank : ℕ) := (posts_fail_alike faults calls start rank).1
  have sendsFail (rank : ℕ) := (posts_fail_alike faults calls start rank).2
  rw [rejected, run_cons_rejected, run_cons_rejected, run_cons_rejected, run_cons_rejected, run_nil, bindingStays]
  simp only [someFails_iff, receivesFail, sendsFail, BeginFails]
  simp only [beginBinding, packing, decide_eq_true_eq, Bool.or_eq_true, Bool.not_eq_true', reduceCtorEq,
    exists_false, or_false]
  simp only [← exists_or, ← and_or_left, or_assoc]

theorem beginOn_rejected (ran : beginOn faults calls size start = .error rejection) :
    ∃ exception, ∀ rank < size, Withheld faults start exception rank (rejection rank) := by
  have refused : run (List.range size) [beginBinding calls, packing faults calls, receivePost faults,
      sendPost faults] start = .error rejection := by
    unfold beginOn at ran
    cases ranPhases : run (List.range size) [beginBinding calls, packing faults calls, receivePost faults,
        sendPost faults] start with
    | error refused =>
      rw [ranPhases] at ran
      exact ran
    | ok sent =>
      rw [ranPhases] at ran
      cases ran
  have packed := packing_untouched faults calls start
  rcases run_cons_error.mp refused with ⟨-, rfl⟩ | ⟨bound, refused⟩
  · exact ⟨_, fun rank _ => withheld_of_throw (.refl start) (sealAt_isSealed _)⟩
  rcases run_cons_error.mp refused with ⟨-, rfl⟩ | ⟨-, refused⟩
  · exact ⟨_, fun rank _ => withheld_of_throw packed (sealAt_isSealed _)⟩
  rcases run_cons_error.mp refused with ⟨-, rfl⟩ | ⟨-, refused⟩
  · refine ⟨_, fun rank known => withheld_of_drain (receivePost_untouched packed) ?_ rfl fun healthy => ?_⟩
    · rw [drainReceives_isSealed, sealAt_isSealed]
    · -- the sends are posted later, and none was live before
      refine drainReceives_proven ?_ healthy
      have idle : (start rank).exchange.liveRequestCount = 0 := by
        by_contra busy
        refine bound (someFails_iff.mpr ⟨rank, known, decide_eq_true ?_⟩)
        exact .inr (.inr (.inr (.inl busy)))
      obtain ⟨storage, localBuffer, sends, same⟩ := packing_act faults calls start rank
      rw [sealAt_sendRequests]
      simp only [receivePost, show (beginBinding calls).act start = start from rfl, same]
      unfold liveRequestCount at idle
      exact List.eq_nil_of_length_eq_zero (by omega)
  rcases run_cons_error.mp refused with ⟨-, rfl⟩ | ⟨-, accepted⟩
  · refine ⟨_, fun rank _ => withheld_of_drain (sendPost_untouched (receivePost_untouched packed)) ?_ rfl
      fun healthy => drainAll_proven healthy⟩
    rw [drainAll_isSealed, sealAt_isSealed]
  · cases accepted

/-- What an accepted `begin` leaves on a rank. -/
structure Begun (call : Call d) (start after : Rank d V) : Prop where
  memory : after.memory = start.memory
  valid : ¬ start.exchange.BeginInvalid call
  packed : ∃ packed, start.exchange.packRank call.fields start.memory = .ok packed ∧
    after.exchange = { packed with
      receiveRequests := packed.receives.map (·.mpiRank)
      sendRequests := packed.sends.map (·.mpiRank)
      activeFields := some call.fields.handle
      inFlight := true }

private theorem posted_all {fails : HaloPeer d V → Bool} {peers : List (HaloPeer d V)}
    (none : peers.any fails = false) : posted fails peers = peers.map (·.mpiRank) := by
  unfold posted
  congr 1
  induction peers with
  | nil => rfl
  | cons peer rest ih =>
    rw [List.any_cons, Bool.or_eq_false_iff] at none
    rw [List.takeWhile_cons, none.1, ih none.2]
    rfl

theorem beginOn_ok (ran : beginOn faults calls size start = .ok after) {rank : ℕ} (known : rank < size) :
    Begun (calls rank) (start rank) (after rank) := by
  have healthy : ¬ BeginFails faults (calls rank) (start rank) rank := by
    intro fails
    obtain ⟨rejection, refused⟩ := beginOn_decided.mp ⟨rank, known, fails⟩
    rw [refused] at ran
    cases ran
  unfold BeginFails at healthy
  push Not at healthy
  obtain ⟨valid, packs, -, receives, sends⟩ := healthy
  simp only [beginOn, bind_ok, pure_ok, run_cons_ok, run_nil, Except.ok.injEq] at ran
  obtain ⟨sent, ⟨-, -, -, -, rfl⟩, rfl⟩ := ran
  obtain ⟨packed, ranPack⟩ := exists_of_isOk (by simpa using packs)
  have ranks := packing_mpiRanks faults calls start rank
  refine ⟨rfl, valid, packed, ranPack, ?_⟩
  simp only [sendPost, receivePost, packing, beginBinding, ranPack, Except.toOption, Option.getD_some] at ranks ⊢
  obtain ⟨localBuffer, packedSends, -, -, -, rfl⟩ := packRank_ok ranPack
  have noReceive : (start rank).exchange.receives.any ((start rank).exchange.receivePostFails faults rank) = false := by
    simpa using receives
  have noSend : (start rank).exchange.sends.any ((start rank).exchange.sendPostFails faults rank) = false := by
    simpa using sends
  congr 1
  · exact posted_all noReceive
  · refine posted_all ((any_congr ranks fun left right equal => ?_).trans noSend)
    simp only [sendPostFails, equal]

/-- What makes a rank fail in `complete` before the publication. -/
def CompleteFails (faults : Faults) (call : Call d) (state : Rank d V) (rank : ℕ) : Prop :=
  state.exchange.CompleteInvalid call ∨ faults.waiting rank = true ∨
    injected state.exchange.context.failWaitRank rank = true ∨ faults.staging rank = true ∨
    injected state.exchange.context.failStagingRank rank = true

private theorem waiting_untouched (faults : Faults) (start : ℕ → Rank d V) : Untouched start ((waiting faults).act start) := by
  intro rank
  simp only [waiting]
  split
  · exact ⟨rfl, rfl⟩
  · exact ⟨rfl, rfl⟩

private theorem staging_untouched (untouched : Untouched start reached) : 
    Untouched start ((staging faults).act reached) :=
  untouched

theorem receiveOn_rejected (ran : receiveOn faults calls size start = .error rejection) :
    ∃ exception, ∀ rank < size, Withheld faults start exception rank (rejection rank) := by
  have waited := waiting_untouched faults start
  rcases run_cons_error.mp ran with ⟨-, rfl⟩ | ⟨-, refused⟩
  · refine ⟨_, fun rank _ => withheld_of_drain (.refl start) ?_ rfl fun healthy => drainAll_proven healthy⟩
    rw [drainAll_isSealed, sealAt_isSealed]
  rcases run_cons_error.mp refused with ⟨-, rfl⟩ | ⟨-, refused⟩
  · refine ⟨_, fun rank _ => withheld_of_drain waited ?_ rfl fun healthy => drainAll_proven healthy⟩
    rw [drainAll_isSealed, sealAt_isSealed]
  rcases run_cons_error.mp refused with ⟨-, rfl⟩ | ⟨-, accepted⟩
  · exact ⟨_, fun rank _ => withheld_of_throw (staging_untouched waited) (sealAt_isSealed _)⟩
  · cases accepted

/-- Before the publication `complete` is rejected exactly when some rank fails,
provided that the receives of a valid call find what they expect. -/
theorem receiveOn_decided (delivered : (∀ rank < size, ¬ (start rank).exchange.CompleteInvalid (calls rank)) →
      ∀ rank < size, ∃ receives, waitReceives start rank = .ok receives) :
    (∃ rank < size, CompleteFails faults (calls rank) (start rank) rank) ↔
      ∃ rejection, receiveOn faults calls size start = .error rejection := by
  have bindingStays : (completeBinding faults calls).act start = start := rfl
  have stagingFails (rank : ℕ) : (staging faults).fails ((waiting faults).act start) rank =
      (faults.staging rank || injected (start rank).exchange.context.failStagingRank rank) := by
    simp only [staging]
    rw [(waiting_untouched faults start rank).2]
  unfold receiveOn
  rw [run_cons_rejected, run_cons_rejected, run_cons_rejected, run_nil, bindingStays]
  simp only [someFails_iff, stagingFails]
  by_cases valid : ∀ rank < size, ¬ (start rank).exchange.CompleteInvalid (calls rank)
  · have arrives (rank : ℕ) (known : rank < size) : (waitReceives start rank).isOk = true := by
      obtain ⟨receives, ran⟩ := delivered valid rank known
      rw [ran]
      rfl
    constructor
    · rintro ⟨rank, known, fails⟩
      rcases fails with invalid | fails | fails | fails | fails
      · exact absurd invalid (valid rank known)
      · exact .inr (.inl ⟨rank, known, by simp [waiting, fails]⟩)
      · exact .inr (.inl ⟨rank, known, by simp [waiting, fails]⟩)
      · exact .inr (.inr (.inl ⟨rank, known, by simp [fails]⟩))
      · exact .inr (.inr (.inl ⟨rank, known, by simp [fails]⟩))
    · rintro (⟨rank, known, fails⟩ | ⟨rank, known, fails⟩ | ⟨rank, known, fails⟩ | ⟨rejection, refused⟩)
      · exact absurd (of_decide_eq_true fails) (valid rank known)
      · simp only [waiting, arrives rank known, Bool.not_true, Bool.or_false, Bool.or_eq_true] at fails
        exact ⟨rank, known, fails.elim (fun fails => .inr (.inl fails)) fun fails => .inr (.inr (.inl fails))⟩
      · rw [Bool.or_eq_true] at fails
        exact ⟨rank, known, .inr (.inr (.inr fails))⟩
      · cases refused
  · push Not at valid
    obtain ⟨rank, known, invalid⟩ := valid
    exact iff_of_true ⟨rank, known, .inl invalid⟩ (.inl ⟨rank, known, decide_eq_true invalid⟩)

end HaloExchange

/-- A schedule is what its constructor makes. -/
def HaloSchedule.Built (schedule : HaloSchedule d) : Prop :=
  ∃ budget, HaloSchedule.create schedule.layout schedule.distribution schedule.localRank schedule.domain
    schedule.ghosts schedule.topology schedule.ncomp schedule.coverage budget = .ok schedule

theorem HaloSchedule.built_of_create {layout : BoxArray d} {distribution : Distribution d} {localRank : Index d}
    {domain : Box d} {ghosts : Extent d} {topology : BoundaryTopology d} {ncomp : ℤ} {coverage : HaloLayoutCoverage}
    {budget : HaloScheduleBudget} {schedule : HaloSchedule d}
    (ran : create layout distribution localRank domain ghosts topology ncomp coverage budget = .ok schedule) :
    schedule.Built := by
  have made := ran
  simp only [create, bind_ok, unit_exists, pure_ok, Prod.exists] at made
  obtain ⟨-, -, -, -, _, _, -, -, _, -, _, -, -, _, -, _, -, rfl⟩ := made
  exact ⟨budget, ran⟩

/-- The schedules of the ranks of a communicator, as the constructors accept them. -/
structure HaloTeam (size : ℕ) (schedules : ℕ → HaloSchedule d) : Prop where
  built : ∀ rank < size, (schedules rank).Built
  ranked : ∀ rank < size,
    (schedules rank).distribution.rankSpace.linearRank (schedules rank).localRank = .ok rank
  sizes : ∀ rank < size, (schedules rank).distribution.rankSpace.size = size
  distribution : ∀ rank < size, (schedules rank).distribution = (schedules 0).distribution
  jobs : ∀ rank < size, (schedules rank).canonicalJobs = (schedules 0).canonicalJobs

namespace HaloExchange

/-- The buffers of one direction belong to its plans, one each. -/
structure Carries (schedule : HaloSchedule d) (plans : List (PeerPlan (Index d) (HaloJob d)))
    (peers : List (HaloPeer d V)) : Prop where
  planned : ∀ peer ∈ peers, peer.plan ∈ plans
  ranked : ∀ peer ∈ peers, schedule.distribution.rankSpace.linearRank peer.plan.peer = .ok peer.mpiRank
  bounded : ∀ peer ∈ peers, (peer.plan.elements : ℤ) ≤ intMax
  device : ∀ peer ∈ peers, peer.device.extent = peer.plan.elements
  host : ∀ peer ∈ peers, peer.host.extent = peer.plan.elements
  complete : ∀ plan ∈ plans, ∃ peer ∈ peers, peer.plan = plan
  distinct : (peers.map (·.mpiRank)).Nodup

/-- An exchange has the storage its schedule needs. -/
structure Equipped (schedule : HaloSchedule d) (exchange : HaloExchange d V) : Prop where
  scheduled : exchange.schedule = schedule
  sends : Carries schedule schedule.classes.send exchange.sends
  receives : Carries schedule schedule.classes.receive exchange.receives
  own : exchange.localBuffer.extent = schedule.classes.localElements

section Construction
variable [Inhabited V] {schedule : HaloSchedule d} {lane : HaloLane} {context : HaloExchangeContext}
variable {schedules : ℕ → HaloSchedule d} {lanes : ℕ → HaloLane} {contexts : ℕ → HaloExchangeContext}

private theorem carries_of_mapM {plans : List (PeerPlan (Index d) (HaloJob d))} {peers : List (HaloPeer d V)}
    (ran : plans.mapM (addPeer schedule) = .ok peers) (distinct : (peers.map (·.mpiRank)).Nodup) :
    Carries schedule plans (sortPeers peers) := by
  have same : (sortPeers peers).Perm peers := List.mergeSort_perm _ _
  have each (peer : HaloPeer d V) (listed : peer ∈ sortPeers peers) :
      ∃ plan ∈ plans, schedule.distribution.rankSpace.linearRank plan.peer = .ok peer.mpiRank ∧
        (plan.elements : ℤ) ≤ intMax ∧ peer = ⟨peer.mpiRank, plan, allocate plan.elements, allocate plan.elements⟩ := by
    obtain ⟨plan, planned, added⟩ := mem_of_mapM_ok ran (same.mem_iff.mp listed)
    simp only [addPeer, bind_ok, throwIf_ok, unit_exists, pure_ok] at added
    obtain ⟨linear, ranked, small, rfl⟩ := added
    exact ⟨plan, planned, ranked, by omega, rfl⟩
  constructor
  · intro peer listed
    obtain ⟨plan, planned, -, -, made⟩ := each peer listed
    rw [made]
    exact planned
  · intro peer listed
    obtain ⟨plan, -, ranked, -, made⟩ := each peer listed
    rw [made]
    exact ranked
  · intro peer listed
    obtain ⟨plan, -, -, small, made⟩ := each peer listed
    rw [made]
    exact small
  · intro peer listed
    obtain ⟨plan, -, -, -, made⟩ := each peer listed
    rw [made]
    rfl
  · intro peer listed
    obtain ⟨plan, -, -, -, made⟩ := each peer listed
    rw [made]
    rfl
  · intro plan planned
    obtain ⟨peer, listed, added⟩ := exists_of_mapM_ok ran planned
    simp only [addPeer, bind_ok, throwIf_ok, unit_exists, pure_ok] at added
    obtain ⟨linear, -, -, rfl⟩ := added
    exact ⟨_, same.mem_iff.mpr listed, rfl⟩
  · exact (same.map _).nodup_iff.mpr distinct

theorem prepareStorage_ok {prepared : HaloExchange d V} (ran : prepareStorage schedule lane context = .ok prepared) :
    Equipped schedule prepared ∧ prepared.isSealed = false ∧ prepared.inFlight = false := by
  simp only [prepareStorage, bind_ok, throwIf_ok, unit_exists, pure_ok, not_not] at ran
  obtain ⟨-, sends, ranSends, sendsDistinct, receives, ranReceives, receivesDistinct, rfl⟩ := ran
  exact ⟨⟨rfl, carries_of_mapM ranSends sendsDistinct, carries_of_mapM ranReceives receivesDistinct, rfl⟩, rfl, rfl⟩

private theorem distribution_ext {first second : Distribution d} (layouts : first.layout = second.layout)
    (origins : first.rankSpace.origin = second.rankSpace.origin)
    (extents : first.rankSpace.extent = second.rankSpace.extent) (modes : first.mode = second.mode)
    (owners : first.owners = second.owners) : first = second := by
  obtain ⟨layout, ⟨origin, extent, originFits, checked⟩, mode, owned, valid⟩ := first
  obtain ⟨otherLayout, ⟨otherOrigin, otherExtent, otherFits, otherChecked⟩, otherMode, otherOwned, otherValid⟩ := second
  cases layouts
  cases origins
  cases extents
  cases modes
  cases owners
  rfl

private theorem restored {schedule : HaloSchedule d} {budget : HaloScheduleBudget}
    (ran : HaloSchedule.create schedule.layout schedule.distribution schedule.localRank schedule.domain
      schedule.ghosts schedule.topology schedule.ncomp schedule.coverage budget = .ok schedule) :
    ((schedule.canonicalJobs.map fun job => (job.sourceBox, job.destinationBox, job.destinationRegion,
      job.sourceFromDestination, job.elements)).map fun written =>
        HaloJob.mk written.1 written.2.1 written.2.2.1 written.2.2.2.1 0 written.2.2.2.2) =
      schedule.canonicalJobs := by
  rw [List.map_map]
  refine (List.map_congr_left fun job listed => ?_).trans (List.map_id _)
  have unplaced := (HaloSchedule.canonical_sizes ran job listed).2.2.1
  simp only [Function.comp_apply, id]
  rw [← unplaced]

theorem same_of_contract {first second : HaloSchedule d} (built : first.Built) (otherBuilt : second.Built)
    {otherLane : HaloLane} {otherContext : HaloExchangeContext}
    (agree : canonicalContract first lane context = canonicalContract second otherLane otherContext) :
    first.distribution = second.distribution ∧ first.canonicalJobs = second.canonicalJobs := by
  obtain ⟨budget, ran⟩ := built
  obtain ⟨otherBudget, otherRan⟩ := otherBuilt
  simp only [canonicalContract, HaloContract.mk.injEq] at agree
  obtain ⟨-, -, -, -, boxes, modes, origins, extents, -, owners, -, -, -, -, -, jobs⟩ := agree
  constructor
  · refine distribution_ext ?_ origins extents modes owners
    rw [(HaloSchedule.create_ok ran).1, (HaloSchedule.create_ok otherRan).1]
    cases layout : first.layout
    cases otherLayout : second.layout
    rw [layout, otherLayout] at boxes
    cases boxes
    rfl
  · rw [← restored ran, ← restored otherRan, jobs]

theorem construct_ok {exchanges : ℕ → HaloExchange d V} (built : ∀ rank < size, (schedules rank).Built)
    (ran : construct size faults schedules lanes contexts = .ok exchanges) :
    HaloTeam size schedules ∧ ∀ rank < size, Equipped (schedules rank) (exchanges rank) ∧
      (exchanges rank).isSealed = false ∧ (exchanges rank).inFlight = false := by
  simp only [construct, bind_ok, throwIf_ok, unit_exists, pure_ok, not_exists, not_and, not_or, List.mem_range,
    not_not, ne_eq] at ran
  obtain ⟨bound, -, agree, prepared, rfl⟩ := ran
  constructor
  · constructor
    · exact built
    · intro rank known
      have valid := bound rank known
      simp only [BindingInvalid, not_or, not_not] at valid
      exact valid.2.2.2.2.2.2.2.2.1
    · intro rank known
      have valid := bound rank known
      simp only [BindingInvalid, not_or, not_not] at valid
      exact valid.2.2.2.2.2.2.2.1.symm
    · exact fun rank known => (same_of_contract (built rank known) (built 0 (by omega)) (agree rank known)).1
    · exact fun rank known => (same_of_contract (built rank known) (built 0 (by omega)) (agree rank known)).2
  · intro rank known
    obtain ⟨exchange, ranStorage⟩ := exists_of_isOk (by simpa using (prepared rank known).1)
    simp only [ranStorage, Except.toOption, Option.getD_some]
    exact prepareStorage_ok ranStorage

end Construction

end HaloExchange

namespace HaloSchedule
variable {schedule : HaloSchedule d} {job : HaloJob d}

theorem Built.destination_local (built : schedule.Built) (listed : job ∈ schedule.classes.localJobs ∨
      ∃ plan ∈ schedule.classes.receive, job ∈ plan.jobs) :
    job.destinationBox < schedule.layout.boxes.length ∧
      schedule.distribution.IsLocal job.destinationBox schedule.localRank := by
  obtain ⟨budget, ran⟩ := built
  have filed := create_classified ran
  have boxes := canonical_boxes ran
  have layoutIs := (create_ok ran).1
  have here (canonical : HaloJob d) (known : canonical ∈ schedule.canonicalJobs)
      (routed : routeOf schedule.distribution schedule.localRank canonical = .copy ∨
        ∃ peer, (routeOf schedule.distribution schedule.localRank canonical).receivePeer = some peer) :
      schedule.distribution.IsLocal canonical.destinationBox schedule.localRank := by
    unfold routeOf at routed
    cases mode : schedule.distribution.mode with
    | replicated => exact .inl mode
    | partitioned =>
      have lengths := (Distribution.partitioned_owners mode).1
      rw [layoutIs] at lengths
      refine (isLocal_iff mode (by rw [lengths]; exact (boxes canonical known).2) _).mpr ?_
      simp only [mode, Route.between_copy, Route.between_receive] at routed
      rcases routed with copied | ⟨peer, received⟩
      · exact copied.2
      · exact received.2.1
  rcases listed with copied | ⟨plan, planned, received⟩
  · rw [filed.copies] at copied
    obtain ⟨canonical, isCopy, made⟩ := mem_place copied
    obtain ⟨known, routed⟩ := List.mem_filter.mp isCopy
    rw [made]
    exact ⟨(boxes canonical known).2, here canonical known (.inl (of_decide_eq_true routed))⟩
  · rw [filed.receives.exact plan planned] at received
    obtain ⟨canonical, isReceive, made⟩ := mem_place received
    obtain ⟨known, routed⟩ := mem_jobsOf.mp isReceive
    rw [made]
    exact ⟨(boxes canonical known).2, here canonical known (.inr ⟨_, routed⟩)⟩

theorem Built.lower_received (built : schedule.Built) {plan : PeerPlan (Index d) (HaloJob d)}
    (planned : plan ∈ schedule.classes.receive) (bounded : (plan.elements : ℤ) ≤ intMax)
    (listed : job ∈ plan.jobs) : ∃ lowered, schedule.lowerJob job = .ok lowered := by
  obtain ⟨budget, ran⟩ := built
  have planIs := (create_classified ran).receives.exact plan planned
  rw [planIs] at listed bounded
  obtain ⟨canonical, isReceive, made⟩ := mem_place listed
  obtain ⟨components, nonempty, -, elements⟩ := canonical_sizes ran canonical (mem_jobsOf.mp isReceive).1
  have bounds := (bounds_of_mem_place listed).2
  have within : (job.offset + job.elements : ℤ) ≤ intMax := by
    rw [zero_add] at bounds
    exact le_trans (by exact_mod_cast bounds) bounded
  have sameElements : job.elements = canonical.elements := by
    rw [made]
    rfl
  have sameRegion : job.destinationRegion = canonical.destinationRegion := by
    rw [made]
    rfl
  have cells : 0 < volume canonical.destinationRegion.counts (List.finRange d) :=
    volume_pos fun axis _ => Box.counts_pos nonempty axis
  have some : job.elements ≠ 0 := by
    rw [sameElements, elements]
    exact Nat.mul_ne_zero (by omega) (by omega)
  have whole : job.elements % schedule.ncomp.toNat = 0 := by
    rw [sameElements, elements, Nat.mul_mod_left]
  unfold lowerJob
  rw [throwIf_of_not, ok_bind, throwIf_of_not, ok_bind]
  · exact ⟨_, rfl⟩
  · rintro ⟨axis, flat⟩
    rw [sameRegion] at flat
    have := Box.length_pos nonempty axis
    omega
  · unfold intMax at within
    unfold int64Max
    omega

end HaloSchedule

namespace RankSpace

theorem linearRank_injective {space : RankSpace d} {first second : Index d} {rank : ℕ}
    (ranked : space.linearRank first = .ok rank) (otherRanked : space.linearRank second = .ok rank) :
    rank < space.size ∧ first = second := by
  have below := linearRank_lt ranked
  obtain ⟨coordinate, ran⟩ := coordinate_exists below
  exact ⟨below, (coordinate_linearRank ranked ran).symm.trans (coordinate_linearRank otherRanked ran)⟩

end RankSpace

namespace HaloExchange
variable {schedules : ℕ → HaloSchedule d} {states : ℕ → Rank d V}

/-- The exchanges have their storage, and those in flight have posted all their
receives and can lower their own jobs again. -/
structure Sound (size : ℕ) (schedules : ℕ → HaloSchedule d) (states : ℕ → Rank d V) : Prop where
  equipped : ∀ rank < size, Equipped (schedules rank) (states rank).exchange
  posted : ∀ rank < size, (states rank).exchange.inFlight = true →
    (states rank).exchange.receiveRequests.length = (states rank).exchange.receives.length
  loaded : ∀ rank < size, (states rank).exchange.inFlight = true → (schedules rank).classes.localElements ≠ 0 →
    ∀ job ∈ (schedules rank).classes.localJobs, ∃ lowered, (schedules rank).lowerJob job = .ok lowered

theorem deliver_returns (team : HaloTeam size schedules) (sound : Sound size schedules states) {rank : ℕ}
    (known : rank < size) {peer : HaloPeer d V} (listed : peer ∈ (states rank).exchange.receives) :
    ∃ host : StagingBuffer V, host.extent = peer.plan.elements ∧ deliver states rank peer = .ok { peer with host } := by
  have mine := sound.equipped rank known
  have ranked := mine.receives.ranked peer listed
  -- the peer is the rank whose coordinate the plan names
  have sender : peer.mpiRank < size := by
    have := (RankSpace.linearRank_injective ranked ranked).1
    rwa [team.sizes rank known] at this
  have named : peer.plan.peer = (schedules peer.mpiRank).localRank := by
    have senderRanked := team.ranked peer.mpiRank sender
    rw [team.distribution _ sender, ← team.distribution rank known] at senderRanked
    exact (RankSpace.linearRank_injective ranked senderRanked).2
  obtain ⟨budget, ran⟩ := team.built rank known
  obtain ⟨otherBudget, otherRan⟩ := team.built peer.mpiRank sender
  have filed := HaloSchedule.create_classified ran
  have otherFiled := HaloSchedule.create_classified otherRan
  rw [team.distribution rank known, team.jobs rank known] at filed
  rw [team.distribution _ sender, team.jobs _ sender] at otherFiled
  have sent : ⟨(schedules rank).localRank, peer.plan.jobs, peer.plan.elements⟩ ∈
      (schedules peer.mpiRank).classes.send := by
    rw [HaloSchedule.sent_iff_received otherFiled filed, ← named]
    exact mine.receives.planned peer listed
  have theirs := (sound.equipped peer.mpiRank sender).sends
  obtain ⟨message, isMessage, planned⟩ := theirs.complete _ sent
  have messageHere : message.mpiRank = rank := by
    have messageRanked := theirs.ranked message isMessage
    rw [planned, team.distribution _ sender, ← team.distribution rank known] at messageRanked
    exact Except.ok.inj (messageRanked.symm.trans (team.ranked rank known))
  have addressed (other : HaloPeer d V) (isOther : other ∈ (states peer.mpiRank).exchange.sends)
      (here : other.mpiRank = rank) : other = message :=
    List.inj_on_of_nodup_map theirs.distinct isOther isMessage (here.trans messageHere.symm)
  have present : ((states peer.mpiRank).exchange.sends.find? fun message => message.mpiRank = rank).isSome := by
    rw [List.find?_isSome]
    exact ⟨message, isMessage, decide_eq_true messageHere⟩
  obtain ⟨first, found⟩ := Option.isSome_iff_exists.mp present
  obtain rfl := addressed first (List.mem_of_find?_eq_some found) (by simpa using List.find?_some found)
  have elements : first.plan.elements = peer.plan.elements := by rw [planned]
  refine ⟨first.host, (theirs.host first isMessage).trans elements, ?_⟩
  unfold deliver
  rw [found]
  exact if_pos elements

/-- A peer with other contents in its buffers. -/
def Refilled (peer refilled : HaloPeer d V) : Prop :=
  refilled.mpiRank = peer.mpiRank ∧ refilled.plan = peer.plan ∧
    refilled.device.extent = peer.plan.elements ∧ refilled.host.extent = peer.plan.elements

theorem Carries.refill {schedule : HaloSchedule d} {plans : List (PeerPlan (Index d) (HaloJob d))}
    {peers refilled : List (HaloPeer d V)} (carries : Carries schedule plans peers)
    (each : List.Forall₂ Refilled peers refilled) : Carries schedule plans refilled := by
  have sameRanks : refilled.map (·.mpiRank) = peers.map (·.mpiRank) := by
    clear carries
    induction each with
    | nil => rfl
    | cons head rest ih => rw [List.map_cons, List.map_cons, head.1, ih]
  constructor
  · intro peer listed
    obtain ⟨before, known, -, plan, -⟩ := exists_of_forall₂ each listed
    rw [plan]
    exact carries.planned before known
  · intro peer listed
    obtain ⟨before, known, rank, plan, -⟩ := exists_of_forall₂ each listed
    rw [plan, rank]
    exact carries.ranked before known
  · intro peer listed
    obtain ⟨before, known, -, plan, -⟩ := exists_of_forall₂ each listed
    rw [plan]
    exact carries.bounded before known
  · intro peer listed
    obtain ⟨before, known, -, plan, device, -⟩ := exists_of_forall₂ each listed
    rw [plan, device]
  · intro peer listed
    obtain ⟨before, known, -, plan, -, host⟩ := exists_of_forall₂ each listed
    rw [plan, host]
  · intro plan planned
    obtain ⟨before, known, same⟩ := carries.complete plan planned
    obtain ⟨peer, listed, -, samePlan, -⟩ := exists_of_forall₂_left each known
    exact ⟨peer, listed, samePlan.trans same⟩
  · rw [sameRanks]
    exact carries.distinct

theorem waitReceives_returns (team : HaloTeam size schedules) (sound : Sound size schedules states) {rank : ℕ}
    (known : rank < size) (flying : (states rank).exchange.inFlight = true) :
    ∃ receives, waitReceives states rank = .ok receives ∧
      Carries (schedules rank) (schedules rank).classes.receive
        (receives.map fun peer => { peer with device := peer.host }) := by
  have mine := (sound.equipped rank known).receives
  have posted := sound.posted rank known flying
  have staged {receives : List (HaloPeer d V)} (each : List.Forall₂ (fun expected received =>
      ∃ host : StagingBuffer V, host.extent = expected.plan.elements ∧ received = { expected with host })
      (states rank).exchange.receives receives) :
      Carries (schedules rank) (schedules rank).classes.receive
        (receives.map fun peer => { peer with device := peer.host }) := by
    refine mine.refill (List.forall₂_map_right_iff.mpr (each.imp fun expected received filled => ?_))
    obtain ⟨host, extent, rfl⟩ := filled
    exact ⟨rfl, rfl, extent, extent⟩
  unfold waitReceives
  by_cases none : (states rank).exchange.receiveRequests.isEmpty = true
  · refine ⟨_, if_pos none, staged ?_⟩
    rw [List.forall₂_same]
    exact fun peer listed => ⟨peer.host, mine.host peer listed, rfl⟩
  · obtain ⟨receives, ran⟩ := exists_mapM_ok fun peer listed =>
      (deliver_returns team sound known listed).elim fun host found => ⟨_, found.2⟩
    have lengths := (mapM_ok.mp ran).length_eq
    refine ⟨receives, ?_, staged ?_⟩
    · simp only [if_neg none, ran, ok_bind]
      rw [throwIf_of_not (by omega)]
      rfl
    · have delivered (expected) (listed : expected ∈ (states rank).exchange.receives) (received : HaloPeer d V)
          (found : deliver states rank expected = .ok received) : ∃ host : StagingBuffer V,
            host.extent = expected.plan.elements ∧ received = { expected with host } := by
        obtain ⟨host, extent, same⟩ := deliver_returns team sound known listed
        rw [same] at found
        cases found
        exact ⟨host, extent, rfl⟩
      refine ((List.forall₂_and_left _ _).mpr ⟨fun expected listed => listed, mapM_ok.mp ran⟩).imp ?_
      exact fun expected received filled => delivered expected filled.1 received filled.2

private theorem unpackJobs_returns {schedule : HaloSchedule d} {fields : HaloFields d} {jobs : List (HaloJob d)}
    {elements : ℕ} {buffer : StagingBuffer V} (extent : buffer.extent = elements)
    (each : ∀ job ∈ jobs, job.destinationBox ∈ fields.localBoxes ∧ ∃ lowered, schedule.lowerJob job = .ok lowered)
    (memory : ℤ → V) : ∃ after, schedule.unpackJobs fields jobs elements buffer memory = .ok after := by
  unfold HaloSchedule.unpackJobs
  rw [throwIf_of_not (not_not.mpr extent), ok_bind]
  refine exists_foldlM_ok (fun current job listed => ?_) memory
  obtain ⟨here, lowered, ran⟩ := each job listed
  unfold HaloSchedule.unpackJob HaloFields.fabGlobal
  rw [if_pos here, ok_bind, ran, ok_bind]
  exact ⟨_, rfl⟩

theorem publishRank_returns (team : HaloTeam size schedules) (sound : Sound size schedules states) {rank : ℕ}
    (known : rank < size) {call : Call d} (valid : ¬ (states rank).exchange.CompleteInvalid call)
    {receives : List (HaloPeer d V)} (carries : Carries (schedules rank) (schedules rank).classes.receive receives)
    (final : HaloExchange d V) (schedule : final.schedule = schedules rank) (receivesIs : final.receives = receives)
    (own : final.localBuffer = (states rank).exchange.localBuffer) (memory : ℤ → V) :
    ∃ published, final.publishRank call.fields memory = .ok published := by
  simp only [CompleteInvalid, StorageMatches, not_or, not_and_or, not_not, Bool.not_eq_false] at valid
  obtain ⟨-, flying, -, -, authentic, -⟩ := valid
  rw [(sound.equipped rank known).scheduled] at authentic
  simp only [HaloSchedule.authenticate, throwIf_ok, not_or, not_not] at authentic
  obtain ⟨sameLayout, sameDistribution, sameRank, -, -⟩ := authentic
  have built := team.built rank known
  have writable {job : HaloJob d} (listed : job ∈ (schedules rank).classes.localJobs ∨
      ∃ plan ∈ (schedules rank).classes.receive, job ∈ plan.jobs) : job.destinationBox ∈ call.fields.localBoxes := by
    obtain ⟨inside, isLocal⟩ := built.destination_local listed
    rw [HaloFields.localBoxes, List.mem_filter, List.mem_range, sameLayout, sameDistribution, sameRank]
    exact ⟨inside, decide_eq_true isLocal⟩
  obtain ⟨received, ranReceives⟩ : ∃ received, receives.foldlM (fun current peer =>
      (schedules rank).unpackJobs call.fields peer.plan.jobs peer.plan.elements peer.device current) memory =
        .ok received := by
    refine exists_foldlM_ok (fun current peer listed => ?_) memory
    have planned := carries.planned peer listed
    exact unpackJobs_returns (carries.device peer listed) (fun job member => ⟨writable (.inr ⟨_, planned, member⟩),
      built.lower_received planned (carries.bounded peer listed) member⟩) current
  unfold publishRank
  rw [schedule, receivesIs, ranReceives, ok_bind]
  simp only [HaloSchedule.unpackLocal]
  split
  · exact ⟨_, rfl⟩
  · rename_i some
    refine unpackJobs_returns ?_ (fun job member => ⟨writable (.inl member),
      sound.loaded rank known flying some job member⟩) received
    rw [own]
    exact (sound.equipped rank known).own

private theorem lower_of_packJobs {schedule : HaloSchedule d} {fields : HaloFields d} {memory : ℤ → V}
    {jobs : List (HaloJob d)} {elements : ℕ} {buffer packed : StagingBuffer V}
    (ran : schedule.packJobs fields memory jobs elements buffer = .ok packed) :
    packed.extent = buffer.extent ∧ ∀ job ∈ jobs, ∃ lowered, schedule.lowerJob job = .ok lowered := by
  simp only [HaloSchedule.packJobs, bind_ok, unit_exists, pure_ok] at ran
  obtain ⟨-, values, ranJobs, rfl⟩ := ran
  have facts := foldlM_ok_invariant (fun done (_ : ℕ → V) =>
      ∀ job ∈ done, ∃ lowered, schedule.lowerJob job = .ok lowered)
    (fun done job before after held stepped => by
      simp only [HaloSchedule.packJob, bind_ok, pure_ok] at stepped
      obtain ⟨view, -, lowered, ranLower, -⟩ := stepped
      intro other listed
      rcases List.mem_append.mp listed with earlier | last
      · exact held other earlier
      · rw [List.mem_singleton.mp last]
        exact ⟨lowered, ranLower⟩)
    jobs buffer.values values [] (by simp) ranJobs
  exact ⟨rfl, by simpa using facts⟩

theorem packRank_equipped {schedule : HaloSchedule d} {exchange packed : HaloExchange d V} {fields : HaloFields d}
    {memory : ℤ → V} (equipped : Equipped schedule exchange) (ran : exchange.packRank fields memory = .ok packed) :
    Equipped schedule packed ∧ packed.receives = exchange.receives ∧
      (schedule.classes.localElements ≠ 0 →
        ∀ job ∈ schedule.classes.localJobs, ∃ lowered, schedule.lowerJob job = .ok lowered) := by
  obtain ⟨localBuffer, sends, -, packedLocal, packedSends, rfl⟩ := packRank_ok ran
  obtain ⟨rfl, sendsCarry, receivesCarry, own⟩ := equipped
  have refilled : List.Forall₂ Refilled exchange.sends sends := by
    have each := (List.forall₂_and_left _ _).mpr
      ⟨fun (peer : HaloPeer d V) (listed : peer ∈ exchange.sends) => listed, mapM_ok.mp packedSends⟩
    refine each.imp fun peer sent packedPeer => ?_
    obtain ⟨listed, made⟩ := packedPeer
    simp only [bind_ok, pure_ok] at made
    obtain ⟨device, ranDevice, rfl⟩ := made
    have extent := (lower_of_packJobs ranDevice).1.trans (sendsCarry.device peer listed)
    exact ⟨rfl, rfl, extent, extent⟩
  unfold HaloSchedule.packLocal at packedLocal
  simp only at packedLocal
  split at packedLocal
  · rename_i none
    cases packedLocal
    exact ⟨⟨rfl, sendsCarry.refill refilled, receivesCarry, own⟩, rfl, fun some => absurd none some⟩
  · obtain ⟨extent, lowers⟩ := lower_of_packJobs packedLocal
    exact ⟨⟨rfl, sendsCarry.refill refilled, receivesCarry, extent.trans own⟩, rfl, fun _ => lowers⟩

theorem Sound.begun (sound : Sound size schedules states) {after : ℕ → Rank d V}
    (ran : beginOn faults calls size states = .ok after) : Sound size schedules after := by
  have facts (rank : ℕ) (known : rank < size) : Equipped (schedules rank) (after rank).exchange ∧
      (after rank).exchange.receiveRequests.length = (after rank).exchange.receives.length ∧
      ((schedules rank).classes.localElements ≠ 0 → ∀ job ∈ (schedules rank).classes.localJobs,
        ∃ lowered, (schedules rank).lowerJob job = .ok lowered) := by
    obtain ⟨-, -, packed, ranPack, exchangeIs⟩ := beginOn_ok ran known
    obtain ⟨⟨scheduled, sends, receives, own⟩, -, lowers⟩ := packRank_equipped (sound.equipped rank known) ranPack
    rw [exchangeIs]
    exact ⟨⟨scheduled, sends, receives, own⟩, by simp, lowers⟩
  exact ⟨fun rank known => (facts rank known).1, fun rank known _ => (facts rank known).2.1,
    fun rank known _ => (facts rank known).2.2⟩

/-- An exchange whose transfers are complete, with the received buffers staged. -/
def stagedWith (exchange : HaloExchange d V) (receives : List (HaloPeer d V)) : HaloExchange d V :=
  { exchange with
    receives := receives.map fun peer => { peer with device := peer.host }
    receiveRequests := []
    sendRequests := [] }

/-- What an accepted `complete` leaves on a rank: the received buffers and its
own have been written to its memory. -/
structure Published (states : ℕ → Rank d V) (call : Call d) (rank : ℕ) (after : Rank d V) : Prop where
  valid : ¬ (states rank).exchange.CompleteInvalid call
  published : ∃ receives, waitReceives states rank = .ok receives ∧
    ((states rank).exchange.stagedWith receives).publishRank call.fields (states rank).memory = .ok after.memory ∧
    after.exchange = ((states rank).exchange.stagedWith receives).resetInFlight

theorem receiveOn_ok {staged : ℕ → Rank d V} (ran : receiveOn faults calls size states = .ok staged) {rank : ℕ}
    (known : rank < size) : ¬ (states rank).exchange.CompleteInvalid (calls rank) ∧
      ∃ receives, waitReceives states rank = .ok receives ∧
        staged rank = ⟨(states rank).exchange.stagedWith receives, (states rank).memory⟩ := by
  simp only [receiveOn, run_cons_ok, run_nil, Except.ok.injEq] at ran
  obtain ⟨bound, waited, -, rfl⟩ := ran
  simp only [someFails_iff, not_exists, not_and, Bool.not_eq_true] at bound waited
  have valid := bound rank known
  have waits := waited rank known
  simp only [completeBinding, decide_eq_false_iff_not] at valid
  simp only [waiting, completeBinding, Bool.or_eq_false_iff, Bool.not_eq_false'] at waits
  obtain ⟨receives, found⟩ := exists_of_isOk waits.1.2
  refine ⟨valid, receives, found, ?_⟩
  simp only [staging, waiting, completeBinding, waits.1.1, found, Except.toOption, Option.getD_some,
    Bool.false_eq_true, if_false]
  rfl

theorem completeOn_ok {after : ℕ → Rank d V} (ran : completeOn faults calls size states = .ok after) {rank : ℕ}
    (known : rank < size) : Published states (calls rank) rank (after rank) := by
  simp only [completeOn, bind_ok, pure_ok, Phase.run_ok] at ran
  obtain ⟨staged, ranReceive, published, ⟨passed, rfl⟩, rfl⟩ := ran
  obtain ⟨valid, receives, found, stagedIs⟩ := receiveOn_ok ranReceive known
  simp only [someFails_iff, not_exists, not_and, Bool.not_eq_true] at passed
  have publishes := passed rank known
  simp only [publication, stagedIs, Bool.or_eq_false_iff, Bool.not_eq_false'] at publishes
  obtain ⟨memory, written⟩ := exists_of_isOk publishes.1.1
  refine ⟨valid, receives, found, ?_, ?_⟩
  · simp only [publication, stagedIs, written]
    rfl
  · simp only [publication, stagedIs]

theorem completeOn_returns (team : HaloTeam size schedules) (sound : Sound size schedules states)
    (healthy : ∀ rank < size, ¬ CompleteFails faults (calls rank) (states rank) rank)
    (publishes : ∀ rank < size, faults.publication rank = false ∧
      injected (states rank).exchange.context.failPublicationRank rank = false) :
    ∃ after, completeOn faults calls size states = .ok after := by
  have delivered : (∀ rank < size, ¬ (states rank).exchange.CompleteInvalid (calls rank)) →
      ∀ rank < size, ∃ receives, waitReceives states rank = .ok receives := by
    intro valid rank known
    have flying := valid rank known
    simp only [CompleteInvalid, not_or, Bool.not_eq_false] at flying
    obtain ⟨receives, found, -⟩ := waitReceives_returns team sound known flying.2.1
    exact ⟨receives, found⟩
  cases ranReceive : receiveOn faults calls size states with
  | error rejection =>
    obtain ⟨rank, known, fails⟩ := (receiveOn_decided delivered).mpr ⟨rejection, ranReceive⟩
    exact absurd fails (healthy rank known)
  | ok staged =>
    have passed : ¬ (publication faults calls).SomeFails (List.range size) staged := by
      rw [someFails_iff]
      rintro ⟨rank, known, failed⟩
      obtain ⟨valid, receives, found, stagedIs⟩ := receiveOn_ok ranReceive known
      have flying := valid
      simp only [CompleteInvalid, not_or, Bool.not_eq_false] at flying
      obtain ⟨others, foundToo, carries⟩ := waitReceives_returns team sound known flying.2.1
      rw [found] at foundToo
      cases foundToo
      obtain ⟨memory, written⟩ := publishRank_returns team sound known valid carries
        ((states rank).exchange.stagedWith receives) (sound.equipped rank known).scheduled rfl rfl
        (states rank).memory
      have seam : injected ((states rank).exchange.stagedWith receives).context.failPublicationRank rank = false :=
        (publishes rank known).2
      simp only [publication, stagedIs, written, (publishes rank known).1, seam] at failed
      cases failed
    exact ⟨_, by rw [completeOn, ranReceive, ok_bind, Phase.run_ok.mpr ⟨passed, rfl⟩, ok_bind]; rfl⟩

theorem Sound.completed (team : HaloTeam size schedules) (sound : Sound size schedules states)
    {after : ℕ → Rank d V} (ran : completeOn faults calls size states = .ok after) : Sound size schedules after := by
  have facts (rank : ℕ) (known : rank < size) : Equipped (schedules rank) (after rank).exchange ∧
      (after rank).exchange.inFlight = false := by
    obtain ⟨valid, receives, found, -, exchangeIs⟩ := completeOn_ok ran known
    simp only [CompleteInvalid, not_or, Bool.not_eq_false] at valid
    obtain ⟨others, foundToo, carries⟩ := waitReceives_returns team sound known valid.2.1
    rw [found] at foundToo
    cases foundToo
    obtain ⟨scheduled, sends, -, own⟩ := sound.equipped rank known
    rw [exchangeIs]
    exact ⟨⟨scheduled, sends, carries, own⟩, rfl⟩
  refine ⟨fun rank known => (facts rank known).1, fun rank known flying => ?_, fun rank known flying => ?_⟩
  · rw [(facts rank known).2] at flying
    cases flying
  · rw [(facts rank known).2] at flying
    cases flying

/-- The states that constructors and calls lead to, with the memories changed
in between by anything else. A rank that terminated ends the run. -/
inductive Reachable [Inhabited V] (size : ℕ) (schedules : ℕ → HaloSchedule d) : (ℕ → Rank d V) → Prop where
  | constructed {faults : Faults} {lanes : ℕ → HaloLane} {contexts : ℕ → HaloExchangeContext}
      {exchanges : ℕ → HaloExchange d V} (built : ∀ rank < size, (schedules rank).Built)
      (ran : construct size faults schedules lanes contexts = .ok exchanges) (memory : ℕ → ℤ → V) :
      Reachable size schedules fun rank => ⟨exchanges rank, memory rank⟩
  | computed {states : ℕ → Rank d V} (reachable : Reachable size schedules states) (memory : ℕ → ℤ → V) :
      Reachable size schedules fun rank => ⟨(states rank).exchange, memory rank⟩
  | begun {faults : Faults} {calls : ℕ → Call d} {states after : ℕ → Rank d V} (reachable : Reachable size schedules states)
      (ran : beginOn faults calls size states = .ok after) : Reachable size schedules after
  | completed {faults : Faults} {calls : ℕ → Call d} {states after : ℕ → Rank d V} (reachable : Reachable size schedules states)
      (ran : completeOn faults calls size states = .ok after) : Reachable size schedules after
  | beginRejected {faults : Faults} {calls : ℕ → Call d} {states : ℕ → Rank d V} {rejection : ℕ → Rank d V × Outcome}
      (reachable : Reachable size schedules states) (ran : beginOn faults calls size states = .error rejection)
      (survived : ∀ rank < size, (rejection rank).2 ≠ .terminated) :
      Reachable size schedules fun rank => (rejection rank).1
  | completeRejected {faults : Faults} {calls : ℕ → Call d} {states : ℕ → Rank d V} {rejection : ℕ → Rank d V × Outcome}
      (reachable : Reachable size schedules states) (ran : completeOn faults calls size states = .error rejection)
      (survived : ∀ rank < size, (rejection rank).2 ≠ .terminated) :
      Reachable size schedules fun rank => (rejection rank).1

/-- Some exchange was sealed, and with it all of them. -/
def Sealed (size : ℕ) (states : ℕ → Rank d V) : Prop := ∀ rank < size, (states rank).exchange.isSealed = true

theorem completeOn_rejected_sealed (ran : completeOn faults calls size states = .error rejection) :
    ∀ rank < size, (rejection rank).1.exchange.isSealed = true := by
  intro rank known
  cases ranReceive : receiveOn faults calls size states with
  | error refused =>
    rw [completeOn, ranReceive] at ran
    cases ran
    obtain ⟨exception, withheld⟩ := receiveOn_rejected ranReceive
    exact (withheld rank known).isSealed
  | ok staged =>
    rw [completeOn, ranReceive, ok_bind] at ran
    cases ranPublish : (publication faults calls).run (List.range size) staged with
    | error refused =>
      rw [ranPublish] at ran
      cases ran
      obtain ⟨-, rfl⟩ := Phase.run_error.mp ranPublish
      exact sealAt_isSealed _
    | ok published =>
      rw [ranPublish] at ran
      cases ran

theorem Reachable.invariant [Inhabited V] (reachable : Reachable size schedules states) :
    HaloTeam size schedules ∧ (Sealed size states ∨ Sound size schedules states) := by
  induction reachable with
  | constructed built ran memory =>
    obtain ⟨team, made⟩ := construct_ok built ran
    refine ⟨team, .inr ⟨fun rank known => (made rank known).1, fun rank known flying => ?_, fun rank known flying => ?_⟩⟩
    · rw [(made rank known).2.2] at flying
      cases flying
    · rw [(made rank known).2.2] at flying
      cases flying
  | computed reachable memory ih =>
    exact ⟨ih.1, ih.2.imp id fun sound => ⟨sound.equipped, sound.posted, sound.loaded⟩⟩
  | begun reachable ran ih =>
    obtain ⟨team, stopped | sound⟩ := ih
    · rcases Nat.eq_zero_or_pos size with rfl | some
      · exact ⟨team, .inl fun rank known => absurd known (by omega)⟩
      · exact absurd (.inl (stopped 0 some)) (beginOn_ok ran some).valid
    · exact ⟨team, .inr (sound.begun ran)⟩
  | completed reachable ran ih =>
    obtain ⟨team, stopped | sound⟩ := ih
    · rcases Nat.eq_zero_or_pos size with rfl | some
      · exact ⟨team, .inl fun rank known => absurd known (by omega)⟩
      · exact absurd (.inl (stopped 0 some)) (completeOn_ok ran some).valid
    · exact ⟨team, .inr (sound.completed team ran)⟩
  | beginRejected reachable ran survived ih =>
    obtain ⟨exception, withheld⟩ := beginOn_rejected ran
    exact ⟨ih.1, .inl fun rank known => (withheld rank known).isSealed⟩
  | completeRejected reachable ran survived ih =>
    exact ⟨ih.1, .inl (completeOn_rejected_sealed ran)⟩

/-- The exchange is all or nothing, in every reachable state. A failure while it
is prepared makes the constructor throw on all ranks. Whichever ranks fail in
`begin`, or in `complete` before the publication, all ranks seal their exchange
and keep their memory, and each throws the same exception unless its own drain
cannot be proven. When no rank fails, all ranks begin and all ranks publish. -/
theorem exchange_all_or_nothing [Inhabited V] (reachable : Reachable size schedules states) (faults : Faults)
    (calls : ℕ → Call d) :
    (∀ lanes contexts, (∃ rank < size, faults.serialization rank = true ∨ faults.allocation rank = true ∨
        injected (contexts rank).failAllocationRank rank = true) →
      ∃ exception, (construct size faults schedules lanes contexts : Checked (ℕ → HaloExchange d V)) = .error exception) ∧
    ((∃ rank < size, BeginFails faults (calls rank) (states rank) rank) →
      ∃ rejection exception, beginOn faults calls size states = .error rejection ∧
        ∀ rank < size, Withheld faults states exception rank (rejection rank)) ∧
    ((∀ rank < size, ¬ BeginFails faults (calls rank) (states rank) rank) →
      ∃ after, beginOn faults calls size states = .ok after ∧
        ∀ rank < size, Begun (calls rank) (states rank) (after rank)) ∧
    ((∃ rank < size, CompleteFails faults (calls rank) (states rank) rank) →
      ∃ rejection exception, completeOn faults calls size states = .error rejection ∧
        ∀ rank < size, Withheld faults states exception rank (rejection rank)) ∧
    ((∀ rank < size, ¬ CompleteFails faults (calls rank) (states rank) rank) →
      (∀ rank < size, faults.publication rank = false ∧
        injected (states rank).exchange.context.failPublicationRank rank = false) →
      ∃ after, completeOn faults calls size states = .ok after ∧
        ∀ rank < size, Published states (calls rank) rank (after rank)) := by
  obtain ⟨team, invariant⟩ := reachable.invariant
  have delivered : (∀ rank < size, ¬ (states rank).exchange.CompleteInvalid (calls rank)) →
      ∀ rank < size, ∃ receives, waitReceives states rank = .ok receives := by
    intro valid rank known
    have flying := valid rank known
    simp only [CompleteInvalid, not_or, Bool.not_eq_true, Bool.not_eq_false] at flying
    rcases invariant with stopped | sound
    · rw [stopped rank known] at flying
      cases flying.1
    · obtain ⟨receives, found, -⟩ := waitReceives_returns team sound known flying.2.1
      exact ⟨receives, found⟩
  refine ⟨?_, ?_, ?_, ?_, ?_⟩
  · rintro lanes contexts ⟨rank, known, failed⟩
    cases ran : (construct size faults schedules lanes contexts : Checked (ℕ → HaloExchange d V)) with
    | error exception => exact ⟨exception, rfl⟩
    | ok exchanges =>
      simp only [construct, bind_ok, throwIf_ok, unit_exists, pure_ok, not_exists, not_and, not_or, List.mem_range] at ran
      obtain ⟨-, serialized, -, prepared, -⟩ := ran
      rcases failed with failed | failed | failed
      · exact absurd failed (serialized rank known)
      · exact absurd failed (prepared rank known).2.2
      · exact absurd failed (prepared rank known).2.1
  · intro failed
    obtain ⟨rejection, ran⟩ := beginOn_decided.mp failed
    obtain ⟨exception, withheld⟩ := beginOn_rejected ran
    exact ⟨rejection, exception, ran, withheld⟩
  · intro healthy
    cases ran : beginOn faults calls size states with
    | error rejection =>
      obtain ⟨rank, known, fails⟩ := beginOn_decided.mpr ⟨rejection, ran⟩
      exact absurd fails (healthy rank known)
    | ok after => exact ⟨after, rfl, fun rank known => beginOn_ok ran known⟩
  · intro failed
    obtain ⟨rejection, ran⟩ := (receiveOn_decided delivered).mp failed
    obtain ⟨exception, withheld⟩ := receiveOn_rejected ran
    exact ⟨rejection, exception, by rw [completeOn, ran]; rfl, withheld⟩
  · intro healthy publishes
    have sound : Sound size schedules states := by
      rcases invariant with stopped | sound
      · rcases Nat.eq_zero_or_pos size with none | some
        · exact ⟨fun rank known => by omega, fun rank known => by omega, fun rank known => by omega⟩
        · exact absurd (.inl (.inl (stopped 0 some))) (healthy 0 some)
      · exact sound
    obtain ⟨after, ran⟩ := completeOn_returns team sound healthy publishes
    exact ⟨after, ran, fun rank known => completeOn_ok ran known⟩

/-! The ring of two patches on two ranks, in whose exchange the first rank fails
to wait and then cannot prove its drain. -/

instance (faults : Faults) (call : Call d) (state : Rank d V) (rank : ℕ) :
    Decidable (BeginFails faults call state rank) := inferInstanceAs (Decidable (_ ∨ _))

instance (faults : Faults) (call : Call d) (state : Rank d V) (rank : ℕ) :
    Decidable (CompleteFails faults call state rank) := inferInstanceAs (Decidable (_ ∨ _))

def ringLane : HaloLane := ⟨1, [0], true, true, some 100⟩

def ringContext : HaloExchangeContext :=
  { contextGeneration := 1, scheduleGeneration := 1, failWaitRank := 0, failDrainRank := 0 }

def ringSchedules : Checked (ℕ → HaloSchedule 1) := do
  let first ← HaloSchedule.ringSchedule (-1)
  let second ← HaloSchedule.ringSchedule 0
  return fun rank => if rank = 0 then first else second

private theorem corner_fits : ∀ axis : Fin 1, FitsInt ((fun _ => -5 : Index 1) axis) := by decide

/-- A call for fields that a schedule authenticates, with five ghosts on both
sides of two cells. -/
def ringCall (schedule : HaloSchedule 1) : Call 1 where
  fields := ⟨7, schedule.layout, schedule.distribution, schedule.localRank, schedule.ghosts, schedule.ncomp,
    fun box => ⟨1000 * (box + 1), fun _ => -5, corner_fits, fun _ => 12, fun _ => 1, 2, 12⟩⟩
  lane := ringLane

def ringStart (schedules : ℕ → HaloSchedule 1) : Checked (ℕ → HaloExchange 1 ℤ) :=
  construct 2 .none schedules (fun _ => ringLane) fun _ => ringContext

/-- The same construction when the second rank cannot allocate. -/
def ringStarved (schedules : ℕ → HaloSchedule 1) : Checked (ℕ → HaloExchange 1 ℤ) :=
  construct 2 { Faults.none with allocation := fun rank => rank = 1 } schedules (fun _ => ringLane) fun _ => ringContext

/-- How the first rank of the ring ends a call of `complete` after a `begin`. -/
def ringEnding (schedules : ℕ → HaloSchedule 1) (exchanges : ℕ → HaloExchange 1 ℤ) : Option Outcome :=
  match beginOn .none (fun rank => ringCall (schedules rank)) 2 fun rank => ⟨exchanges rank, fun address => address⟩ with
  | .error _ => none
  | .ok begun =>
    match completeOn .none (fun rank => ringCall (schedules rank)) 2 begun with
    | .error rejection => some (rejection 0).2
    | .ok _ => none

private theorem ring_runs : ((do
    let schedules ← ringSchedules
    let exchanges ← ringStart schedules
    return (decide (∀ rank ∈ List.range 2, ¬ BeginFails .none (ringCall (schedules rank))
        ⟨exchanges rank, fun address => address⟩ rank) &&
      ringEnding schedules exchanges = some .terminated && !(ringStarved schedules).isOk) : Checked Bool)) = .ok true := by
  decide +kernel

private theorem exists_ring : ∃ schedules exchanges, ringSchedules = .ok schedules ∧
    ringStart schedules = .ok exchanges ∧ (∀ rank < 2, ¬ BeginFails .none (ringCall (schedules rank))
      ⟨exchanges rank, fun address => address⟩ rank) ∧ ringEnding schedules exchanges = some .terminated ∧
    (ringStarved schedules).isOk = false := by
  have ran := ring_runs
  simp only [bind_ok, pure_ok, Bool.and_eq_true, decide_eq_true_eq, List.mem_range, Bool.not_eq_true'] at ran
  obtain ⟨schedules, made, exchanges, started, ⟨healthy, ending⟩, starved⟩ := ran
  exact ⟨schedules, exchanges, made, started, healthy, ending, starved⟩

/-- The ring begins on both ranks. -/
theorem ring_exchange_begins : ∃ schedules exchanges after, ringStart schedules = .ok exchanges ∧
    beginOn .none (fun rank => ringCall (schedules rank)) 2 (fun rank => ⟨exchanges rank, fun address => address⟩) =
      .ok after ∧
    ∀ rank < 2, Begun (ringCall (schedules rank)) ⟨exchanges rank, fun address => address⟩ (after rank) := by
  obtain ⟨schedules, exchanges, made, started, healthy, -, -⟩ := exists_ring
  have built : ∀ rank < 2, (schedules rank).Built := by
    intro rank _
    simp only [ringSchedules, bind_ok, pure_ok] at made
    obtain ⟨first, ranFirst, second, ranSecond, rfl⟩ := made
    dsimp only
    split
    · exact HaloSchedule.built_of_create ranFirst
    · exact HaloSchedule.built_of_create ranSecond
  obtain ⟨-, -, begins, -⟩ := exchange_all_or_nothing (.constructed built started fun _ address => address) .none
    fun rank => ringCall (schedules rank)
  obtain ⟨after, ran, begun⟩ := begins healthy
  exact ⟨schedules, exchanges, after, started, ran, begun⟩

/-- When a rank fails to wait and cannot prove its drain, it terminates instead
of throwing; and a failed preparation leaves no exchange to seal. -/
theorem ring_exchange_terminates : ∃ schedules exchanges begun rejection,
    (ringStarved schedules).isOk = false ∧ ringStart schedules = .ok exchanges ∧
    beginOn .none (fun rank => ringCall (schedules rank)) 2 (fun rank => ⟨exchanges rank, fun address => address⟩) =
      .ok begun ∧
    completeOn .none (fun rank => ringCall (schedules rank)) 2 begun = .error rejection ∧
    (rejection 0).2 = .terminated := by
  obtain ⟨schedules, exchanges, -, started, -, ending, starved⟩ := exists_ring
  unfold ringEnding at ending
  split at ending
  · cases ending
  · rename_i begun ran
    split at ending
    · rename_i rejection refused
      exact ⟨schedules, exchanges, begun, rejection, starved, started, ran, refused, Option.some.inj ending⟩
    · cases ending

end HaloExchange

end Pops
