import Pops.PeerPlans

/-!
Jobs filed by peer without a staging buffer: a plan is opened at the end of the
list when the first job of its peer comes, and jobs keep their order inside it.
The library is about any jobs and any ranks.
-/
namespace Pops

/-- The jobs exchanged with one peer. -/
structure PeerGroup (Rank Job : Type) where
  peer : Rank
  jobs : List Job
  deriving DecidableEq

namespace PeerPlans
variable {Rank Job : Type} [DecidableEq Rank]

/-- Put a job at the end of the group of its peer. -/
def pushJob (peer : Rank) (job : Job) : List (PeerGroup Rank Job) → List (PeerGroup Rank Job)
  | [] => [⟨peer, [job]⟩]
  | group :: rest =>
    if group.peer = peer then ⟨group.peer, group.jobs ++ [job]⟩ :: rest else group :: pushJob peer job rest

/-- The jobs of the first group of a peer, none where it has no group. -/
def jobsWith (peer : Rank) : List (PeerGroup Rank Job) → List Job
  | [] => []
  | group :: rest => if group.peer = peer then group.jobs else jobsWith peer rest

variable {groups : List (PeerGroup Rank Job)} {group : PeerGroup Rank Job} {peer other : Rank} {job : Job}

theorem jobsWith_pushJob_self : jobsWith peer (pushJob peer job groups) = jobsWith peer groups ++ [job] := by
  induction groups with
  | nil => simp [pushJob, jobsWith]
  | cons group rest ih =>
    unfold pushJob
    split
    · rename_i here
      simp [jobsWith, here]
    · rename_i elsewhere
      simp [jobsWith, elsewhere, ih]

theorem jobsWith_pushJob_ne (different : other ≠ peer) :
    jobsWith other (pushJob peer job groups) = jobsWith other groups := by
  induction groups with
  | nil => simp [pushJob, jobsWith, different.symm]
  | cons group rest ih =>
    unfold pushJob
    split
    · rename_i here
      simp [jobsWith, here, different.symm]
    · simp only [jobsWith, ih]

theorem mem_pushJob (listed : group ∈ pushJob peer job groups) :
    group ∈ groups ∨ group.peer = peer ∧ group.jobs ≠ [] := by
  induction groups with
  | nil =>
    obtain rfl := List.mem_singleton.mp listed
    exact .inr ⟨rfl, by simp⟩
  | cons head rest ih =>
    unfold pushJob at listed
    split at listed
    · rename_i here
      rcases List.mem_cons.mp listed with rfl | later
      · exact .inr ⟨here, by simp⟩
      · exact .inl (List.mem_cons_of_mem _ later)
    · rcases List.mem_cons.mp listed with rfl | later
      · exact .inl List.mem_cons_self
      · exact (ih later).imp_left (List.mem_cons_of_mem _)

theorem pushJob_distinct (distinct : (groups.map (·.peer)).Nodup) :
    ((pushJob peer job groups).map (·.peer)).Nodup := by
  induction groups with
  | nil => simp [pushJob]
  | cons head rest ih =>
    obtain ⟨fresh, restDistinct⟩ := List.nodup_cons.mp distinct
    unfold pushJob
    split
    · exact distinct
    · rename_i elsewhere
      refine List.nodup_cons.mpr ⟨fun listed => ?_, ih restDistinct⟩
      obtain ⟨group, known, same⟩ := List.mem_map.mp listed
      rcases mem_pushJob known with earlier | ⟨here, -⟩
      · exact fresh (List.mem_map.mpr ⟨group, earlier, same⟩)
      · exact elsewhere (same.symm.trans here)

theorem jobsWith_of_mem (distinct : (groups.map (·.peer)).Nodup) (listed : group ∈ groups) :
    jobsWith group.peer groups = group.jobs := by
  induction groups with
  | nil => cases listed
  | cons head rest ih =>
    obtain ⟨fresh, restDistinct⟩ := List.nodup_cons.mp distinct
    rcases List.mem_cons.mp listed with rfl | later
    · simp [jobsWith]
    · have elsewhere : head.peer ≠ group.peer := fun same =>
        fresh (List.mem_map.mpr ⟨group, later, same.symm⟩)
      simp only [jobsWith, if_neg elsewhere, ih restDistinct later]

theorem exists_of_jobsWith (some : jobsWith peer groups ≠ []) :
    ∃ group ∈ groups, group.peer = peer ∧ group.jobs = jobsWith peer groups := by
  induction groups with
  | nil => exact absurd rfl some
  | cons head rest ih =>
    unfold jobsWith at some ⊢
    split
    · rename_i here
      exact ⟨head, List.mem_cons_self, here, rfl⟩
    · rename_i elsewhere
      rw [if_neg elsewhere] at some
      obtain ⟨group, listed, facts⟩ := ih some
      exact ⟨group, List.mem_cons_of_mem _ listed, facts⟩

/-- The groups are those of the peers that have jobs, one each, with their jobs in order. -/
structure Groups (peerOf : Job → Option Rank) (jobs : List Job) (groups : List (PeerGroup Rank Job)) : Prop where
  distinct : (groups.map (·.peer)).Nodup
  needed : ∀ group ∈ groups, group.jobs ≠ []
  exact : ∀ peer, jobsWith peer groups = jobsOf peerOf peer jobs

namespace Groups
variable {peerOf : Job → Option Rank} {jobs : List Job}

theorem nil (peerOf : Job → Option Rank) : Groups peerOf [] ([] : List (PeerGroup Rank Job)) :=
  ⟨.nil, by simp, fun _ => rfl⟩

theorem skip (filed : Groups peerOf jobs groups) (aside : peerOf job = none) :
    Groups peerOf (jobs ++ [job]) groups := by
  refine ⟨filed.distinct, filed.needed, fun peer => ?_⟩
  rw [filed.exact, jobsOf_append]
  simp [jobsOf, aside]

theorem push (filed : Groups peerOf jobs groups) (routed : peerOf job = some peer) :
    Groups peerOf (jobs ++ [job]) (pushJob peer job groups) := by
  refine ⟨pushJob_distinct filed.distinct, fun group listed => ?_, fun other => ?_⟩
  · rcases mem_pushJob listed with earlier | ⟨-, some⟩
    · exact filed.needed group earlier
    · exact some
  · rw [jobsOf_append]
    by_cases same : other = peer
    · subst same
      rw [jobsWith_pushJob_self, filed.exact]
      simp [jobsOf, routed]
    · rw [jobsWith_pushJob_ne same, filed.exact]
      simp [jobsOf, routed, Ne.symm same]

theorem jobs_eq (filed : Groups peerOf jobs groups) (listed : group ∈ groups) :
    group.jobs = jobsOf peerOf group.peer jobs := by
  rw [← filed.exact, jobsWith_of_mem filed.distinct listed]

theorem mem_flatMap (filed : Groups peerOf jobs groups) :
    job ∈ groups.flatMap (·.jobs) ↔ job ∈ jobs ∧ ∃ peer, peerOf job = some peer := by
  rw [List.mem_flatMap]
  constructor
  · rintro ⟨group, listed, member⟩
    rw [filed.jobs_eq listed, mem_jobsOf] at member
    exact ⟨member.1, group.peer, member.2⟩
  · rintro ⟨known, peer, routed⟩
    have member : job ∈ jobsWith peer groups := by
      rw [filed.exact, mem_jobsOf]
      exact ⟨known, routed⟩
    obtain ⟨group, listed, -, same⟩ := exists_of_jobsWith (List.ne_nil_of_mem member)
    exact ⟨group, listed, same ▸ member⟩

theorem nodup_flatMap (filed : Groups peerOf jobs groups) (distinct : jobs.Nodup) :
    (groups.flatMap (·.jobs)).Nodup := by
  refine List.nodup_flatMap.mpr ⟨fun group listed => ?_, ?_⟩
  · rw [filed.jobs_eq listed]
    exact distinct.filter _
  · refine (List.pairwise_map.mp filed.distinct).imp_of_mem fun {left right} leftListed rightListed different => ?_
    intro job inLeft inRight
    dsimp only at inLeft inRight
    rw [filed.jobs_eq leftListed, mem_jobsOf] at inLeft
    rw [filed.jobs_eq rightListed, mem_jobsOf] at inRight
    exact different (Option.some.inj (inLeft.2.symm.trans inRight.2))

end Groups

/-- The jobs of one rank, in the order of the list they were filed from. -/
structure FiledJobs (Rank Job : Type) where
  localJobs : List Job := []
  send : List (PeerGroup Rank Job) := []
  receive : List (PeerGroup Rank Job) := []
  deriving DecidableEq

/-- File one more job. -/
def FiledJobs.file (state : FiledJobs Rank Job) (job : Job) : Route Rank → FiledJobs Rank Job
  | .aside => state
  | .copy => { state with localJobs := state.localJobs ++ [job] }
  | .send peer => { state with send := pushJob peer job state.send }
  | .receive peer => { state with receive := pushJob peer job state.receive }

/-- The jobs of a list are filed as their routes say. -/
structure Filed (route : Job → Route Rank) (jobs : List Job) (state : FiledJobs Rank Job) : Prop where
  copies : state.localJobs = jobs.filter fun job => route job = .copy
  sends : Groups (fun job => (route job).sendPeer) jobs state.send
  receives : Groups (fun job => (route job).receivePeer) jobs state.receive

namespace Filed
variable {route : Job → Route Rank} {jobs : List Job} {state : FiledJobs Rank Job}

theorem nil (route : Job → Route Rank) : Filed route [] ({} : FiledJobs Rank Job) := ⟨rfl, .nil _, .nil _⟩

theorem step (filed : Filed route jobs state) : Filed route (jobs ++ [job]) (state.file job (route job)) := by
  obtain ⟨copies, sends, receives⟩ := filed
  have others (here : route job ≠ .copy) :
      ((jobs ++ [job]).filter fun job => route job = .copy) = jobs.filter fun job => route job = .copy := by
    simp [List.filter_append, here]
  cases way : route job with
  | aside =>
    exact ⟨by rw [others (by simp [way])]; exact copies, sends.skip (by simp [way, Route.sendPeer]),
      receives.skip (by simp [way, Route.receivePeer])⟩
  | copy =>
    refine ⟨?_, sends.skip (by simp [way, Route.sendPeer]), receives.skip (by simp [way, Route.receivePeer])⟩
    simp [FiledJobs.file, List.filter_append, way, copies]
  | send peer =>
    exact ⟨by rw [others (by simp [way])]; exact copies, sends.push (by simp [way, Route.sendPeer]),
      receives.skip (by simp [way, Route.receivePeer])⟩
  | receive peer =>
    exact ⟨by rw [others (by simp [way])]; exact copies, sends.skip (by simp [way, Route.sendPeer]),
      receives.push (by simp [way, Route.receivePeer])⟩

theorem run (route : Job → Route Rank) (jobs : List Job) :
    Filed route jobs (jobs.foldl (fun state job => state.file job (route job)) {}) := by
  have later (done rest : List Job) (state : FiledJobs Rank Job) (filed : Filed route done state) :
      Filed route (done ++ rest) (rest.foldl (fun state job => state.file job (route job)) state) := by
    induction rest generalizing done state with
    | nil => simpa using filed
    | cons job rest ih =>
      rw [List.foldl_cons, List.append_cons]
      exact ih _ _ filed.step
  exact later [] jobs {} (.nil route)

theorem mirrored {source destination : Job → Rank} {self peer : Rank} {own others : FiledJobs Rank Job}
    (sender : Filed (fun job => .between (source job) (destination job) self) jobs own)
    (receiver : Filed (fun job => .between (source job) (destination job) peer) jobs others) :
    jobsWith peer own.send = jobsWith self others.receive := by
  rw [sender.sends.exact, receiver.receives.exact]
  apply List.filter_congr
  intro job _
  rw [decide_eq_decide, Route.between_send, Route.between_receive]

end Filed

end PeerPlans

end Pops
