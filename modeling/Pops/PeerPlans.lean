import Mathlib.Algebra.GroupWithZero.Nat
import Mathlib.Data.List.Sort
import Pops.Checked

/-!
Per-peer transfer plans. A rank walks one list of jobs, the same on all ranks,
and files every job under the peer it is sent to or received from; within a
plan the jobs are laid out one behind the other. The library is about any jobs
with a size and a place, and any ranks.
-/
namespace Pops

/-- A job that takes `elements` consecutive places of a staging buffer, from
`offset` on. -/
class StagedJob (Job : Type) where
  elements : Job → ℕ
  offset : Job → ℕ
  placedAt : Job → ℕ → Job
  elements_placedAt : ∀ job start, elements (placedAt job start) = elements job
  offset_placedAt : ∀ job start, offset (placedAt job start) = start

/-- The jobs exchanged with one peer, and the size of their buffer. -/
structure PeerPlan (Rank Job : Type) where
  peer : Rank
  jobs : List Job
  elements : ℕ
  deriving DecidableEq

namespace PeerPlans
open StagedJob
variable {Rank Job : Type} [StagedJob Job]

/-- The jobs at consecutive places from `start` on. -/
def place : ℕ → List Job → List Job
  | _, [] => []
  | start, job :: rest => placedAt job start :: place (start + elements job) rest

/-- The size of a buffer that holds all the jobs. -/
def total (jobs : List Job) : ℕ := (jobs.map elements).sum

@[simp] theorem total_nil : total ([] : List Job) = 0 := rfl

@[simp] theorem total_cons (job : Job) (rest : List Job) :
    total (job :: rest) = elements job + total rest := by
  simp [total]

@[simp] theorem total_append (jobs later : List Job) : total (jobs ++ later) = total jobs + total later := by
  simp [total]

theorem place_append (start : ℕ) (jobs later : List Job) :
    place start (jobs ++ later) = place start jobs ++ place (start + total jobs) later := by
  induction jobs generalizing start with
  | nil => simp [place]
  | cons job rest ih => simp [place, ih, Nat.add_assoc]

theorem mem_place {start : ℕ} {jobs : List Job} {placed : Job} (member : placed ∈ place start jobs) :
    ∃ job ∈ jobs, placed = placedAt job (offset placed) := by
  induction jobs generalizing start with
  | nil => simp [place] at member
  | cons job rest ih =>
    rcases List.mem_cons.mp member with rfl | later
    · exact ⟨job, by simp, by rw [offset_placedAt]⟩
    · obtain ⟨source, listed, same⟩ := ih later
      exact ⟨source, by simp [listed], same⟩

theorem exists_place {jobs : List Job} {job : Job} (listed : job ∈ jobs) (start : ℕ) :
    ∃ place' , placedAt job place' ∈ place start jobs := by
  induction jobs generalizing start with
  | nil => simp at listed
  | cons head rest ih =>
    rcases List.mem_cons.mp listed with rfl | later
    · exact ⟨start, by simp [place]⟩
    · obtain ⟨found, member⟩ := ih later (start + elements head)
      exact ⟨found, by simp [place, member]⟩

theorem bounds_of_mem_place {start : ℕ} {jobs : List Job} {placed : Job}
    (member : placed ∈ place start jobs) :
    start ≤ offset placed ∧ offset placed + elements placed ≤ start + total jobs := by
  induction jobs generalizing start with
  | nil => simp [place] at member
  | cons job rest ih =>
    rw [total_cons]
    rcases List.mem_cons.mp member with rfl | later
    · rw [offset_placedAt, elements_placedAt]
      omega
    · have := ih later
      omega

theorem place_ordered (start : ℕ) (jobs : List Job) :
    (place start jobs).Pairwise fun earlier later => offset earlier + elements earlier ≤ offset later := by
  induction jobs generalizing start with
  | nil => exact .nil
  | cons job rest ih =>
    apply List.pairwise_cons.mpr
    refine ⟨fun later member => ?_, ih _⟩
    rw [offset_placedAt, elements_placedAt]
    exact (bounds_of_mem_place member).1

theorem place_unique {start : ℕ} {jobs : List Job} {first second : Job}
    (firstListed : first ∈ place start jobs) (secondListed : second ∈ place start jobs)
    {element other : ℕ} (within : element < elements first) (otherWithin : other < elements second)
    (same : offset first + element = offset second + other) : first = second ∧ element = other := by
  induction jobs generalizing start with
  | nil => simp [place] at firstListed
  | cons job rest ih =>
    have ordered := List.pairwise_cons.mp (place_ordered start (job :: rest))
    rcases List.mem_cons.mp firstListed with rfl | firstLater <;>
      rcases List.mem_cons.mp secondListed with rfl | secondLater
    · exact ⟨rfl, by omega⟩
    · have := ordered.1 second secondLater
      omega
    · have := ordered.1 first firstLater
      omega
    · exact ih firstLater secondLater

/-- `checked_add`: add to a total that has a limit. -/
def checkedAdd (sum value limit : ℕ) (message : String) : Checked ℕ := do
  throwIf (sum > limit ∨ value > limit - sum) (.lengthError message)
  return sum + value

variable [DecidableEq Rank]

/-- `peer_plan`: the plan of a peer exists after it, opened at the end of the
list when there was none. -/
def peerPlan (plans : List (PeerPlan Rank Job)) (peer : Rank) (limit : ℕ) (message : String) :
    Checked (List (PeerPlan Rank Job)) :=
  if plans.any (·.peer = peer) then .ok plans
  else do
    throwIf (plans.length ≥ limit) (.lengthError message)
    return plans ++ [⟨peer, [], 0⟩]

/-- A plan with one more job at its end. -/
def PeerPlan.extend (plan : PeerPlan Rank Job) (job : Job) : PeerPlan Rank Job :=
  ⟨plan.peer, plan.jobs ++ [placedAt job plan.elements], plan.elements + elements job⟩

/-- Place the job at the end of the first plan of its peer. -/
def appendJob (peer : Rank) (job : Job) (limit : ℕ) (message : String) :
    List (PeerPlan Rank Job) → Checked (List (PeerPlan Rank Job))
  | [] => .ok []
  | plan :: rest =>
    if plan.peer = peer then do
      let _ ← checkedAdd plan.elements (elements job) limit message
      return PeerPlan.extend plan job :: rest
    else do
      let filled ← appendJob peer job limit message rest
      return plan :: filled

/-- The jobs a route assigns to a peer, in the order of the list. -/
def jobsOf (peerOf : Job → Option Rank) (peer : Rank) (jobs : List Job) : List Job :=
  jobs.filter fun job => peerOf job = some peer

/-- The plan of a peer for a list of jobs. -/
def planFor (peer : Rank) (jobs : List Job) : PeerPlan Rank Job := ⟨peer, place 0 jobs, total jobs⟩

/-- The plans are those of the peers that have jobs, one each. -/
structure Lists (peerOf : Job → Option Rank) (jobs : List Job) (plans : List (PeerPlan Rank Job)) :
    Prop where
  distinct : (plans.map (·.peer)).Nodup
  exact : ∀ plan ∈ plans, plan = planFor plan.peer (jobsOf peerOf plan.peer jobs)
  needed : ∀ plan ∈ plans, jobsOf peerOf plan.peer jobs ≠ []
  complete : ∀ peer, jobsOf peerOf peer jobs ≠ [] → ∃ plan ∈ plans, plan.peer = peer

variable {peerOf : Job → Option Rank} {jobs : List Job} {plans opened filled : List (PeerPlan Rank Job)}
variable {peer : Rank} {job : Job} {limit : ℕ} {message : String}

theorem checkedAdd_ok {sum value result : ℕ} (ran : checkedAdd sum value limit message = .ok result) :
    result = sum + value ∧ sum + value ≤ limit := by
  simp only [checkedAdd, bind_ok, throwIf_ok, unit_exists, pure_ok, not_or, not_lt] at ran
  omega

omit [StagedJob Job] in
theorem peerPlan_ok (ran : peerPlan plans peer limit message = .ok opened) :
    opened = plans ∧ (∃ plan ∈ plans, plan.peer = peer) ∨
      opened = plans ++ [⟨peer, [], 0⟩] ∧ ∀ plan ∈ plans, plan.peer ≠ peer := by
  unfold peerPlan at ran
  split at ran
  · rename_i found
    cases ran
    exact .inl ⟨rfl, by simpa using found⟩
  · rename_i absent
    simp only [bind_ok, throwIf_ok, unit_exists, pure_ok] at ran
    exact .inr ⟨ran.2.symm, by simpa using absent⟩

theorem appendJob_ok (distinct : (plans.map (·.peer)).Nodup)
    (ran : appendJob peer job limit message plans = .ok filled) :
    filled = plans.map fun plan => if plan.peer = peer then PeerPlan.extend plan job else plan := by
  induction plans generalizing filled with
  | nil =>
    cases ran
    rfl
  | cons plan rest ih =>
    obtain ⟨fresh, restDistinct⟩ := List.nodup_cons.mp distinct
    unfold appendJob at ran
    split at ran
    · rename_i here
      simp only [bind_ok, pure_ok] at ran
      obtain ⟨sum, -, rfl⟩ := ran
      rw [List.map_cons, if_pos here]
      congr 1
      symm
      refine (List.map_congr_left fun other member => if_neg fun same => ?_).trans (List.map_id rest)
      exact fresh (List.mem_map.mpr ⟨other, member, same.trans here.symm⟩)
    · rename_i elsewhere
      simp only [bind_ok, pure_ok] at ran
      obtain ⟨tail, ranTail, rfl⟩ := ran
      rw [List.map_cons, if_neg elsewhere, ih restDistinct ranTail]

omit [StagedJob Job] in
theorem jobsOf_append (peerOf : Job → Option Rank) (peer : Rank) (jobs later : List Job) :
    jobsOf peerOf peer (jobs ++ later) = jobsOf peerOf peer jobs ++ jobsOf peerOf peer later :=
  List.filter_append ..

omit [StagedJob Job] in
theorem mem_jobsOf : job ∈ jobsOf peerOf peer jobs ↔ job ∈ jobs ∧ peerOf job = some peer := by
  simp [jobsOf]

omit [DecidableEq Rank] in
theorem planFor_extend (peer : Rank) (jobs : List Job) (job : Job) :
    PeerPlan.extend (planFor peer jobs) job = planFor peer (jobs ++ [job]) := by
  simp [PeerPlan.extend, planFor, place_append, place]

namespace Lists

theorem nil (peerOf : Job → Option Rank) : Lists peerOf [] ([] : List (PeerPlan Rank Job)) :=
  ⟨.nil, by simp, by simp, by simp [jobsOf]⟩

theorem skip (lists : Lists peerOf jobs plans) (aside : peerOf job = none) :
    Lists peerOf (jobs ++ [job]) plans := by
  have same (peer : Rank) : jobsOf peerOf peer (jobs ++ [job]) = jobsOf peerOf peer jobs := by
    rw [jobsOf_append]
    simp [jobsOf, aside]
  exact ⟨lists.distinct, by simpa only [same] using lists.exact, by simpa only [same] using lists.needed,
    by simpa only [same] using lists.complete⟩

/-- A job that goes to a peer is filed at the end of the plan of that peer. -/
theorem append (lists : Lists peerOf jobs plans) (routed : peerOf job = some peer)
    {openMessage fillMessage : String} {plansLimit elementsLimit : ℕ}
    (ranOpen : peerPlan plans peer plansLimit openMessage = .ok opened)
    (ranFill : appendJob peer job elementsLimit fillMessage opened = .ok filled) :
    Lists peerOf (jobs ++ [job]) filled := by
  have here : jobsOf peerOf peer (jobs ++ [job]) = jobsOf peerOf peer jobs ++ [job] := by
    rw [jobsOf_append]
    simp [jobsOf, routed]
  have away {other : Rank} (different : other ≠ peer) :
      jobsOf peerOf other (jobs ++ [job]) = jobsOf peerOf other jobs := by
    rw [jobsOf_append]
    simp [jobsOf, routed, different.symm]
  -- the plans just opened: as before, with an empty one for a new peer
  have openedDistinct : (opened.map (·.peer)).Nodup := by
    rcases peerPlan_ok ranOpen with ⟨rfl, -⟩ | ⟨rfl, fresh⟩
    · exact lists.distinct
    · rw [List.map_append, List.nodup_append]
      refine ⟨lists.distinct, by simp, ?_⟩
      intro known member other single same
      obtain ⟨plan, listed, rfl⟩ := List.mem_map.mp member
      simp only [List.map_cons, List.map_nil, List.mem_singleton] at single
      exact fresh plan listed (same.trans single)
  have openedExact (plan) (member : plan ∈ opened) :
      plan = planFor plan.peer (jobsOf peerOf plan.peer jobs) := by
    rcases peerPlan_ok ranOpen with ⟨rfl, -⟩ | ⟨rfl, fresh⟩
    · exact lists.exact plan member
    · rcases List.mem_append.mp member with known | new
      · exact lists.exact plan known
      · rw [List.mem_singleton] at new
        subst new
        have none : jobsOf peerOf peer jobs = [] := by
          by_contra some
          obtain ⟨plan, listed, same⟩ := lists.complete peer some
          exact fresh plan listed same
        simp [planFor, none, place]
  have openedComplete (other) (some : jobsOf peerOf other (jobs ++ [job]) ≠ []) :
      ∃ plan ∈ opened, plan.peer = other := by
    by_cases same : other = peer
    · subst same
      rcases peerPlan_ok ranOpen with ⟨rfl, known⟩ | ⟨rfl, -⟩
      · exact known
      · exact ⟨⟨other, [], 0⟩, by simp, rfl⟩
    · rw [away same] at some
      obtain ⟨plan, listed, found⟩ := lists.complete other some
      rcases peerPlan_ok ranOpen with ⟨rfl, -⟩ | ⟨rfl, -⟩
      · exact ⟨plan, listed, found⟩
      · exact ⟨plan, by simp [listed], found⟩
  have openedNeeded (plan) (member : plan ∈ opened) : plan.peer = peer ∨ plan ∈ plans := by
    rcases peerPlan_ok ranOpen with ⟨rfl, -⟩ | ⟨rfl, -⟩
    · exact .inr member
    · rcases List.mem_append.mp member with known | new
      · exact .inr known
      · exact .inl (by rw [List.mem_singleton.mp new])
  -- filling the plan of the peer keeps every peer
  obtain rfl := appendJob_ok openedDistinct ranFill
  have keeps (plan : PeerPlan Rank Job) :
      (if plan.peer = peer then PeerPlan.extend plan job else plan).peer = plan.peer := by
    split <;> rfl
  refine ⟨?_, ?_, ?_, ?_⟩
  · rw [List.map_map]
    simpa only [Function.comp_def, keeps] using openedDistinct
  · intro plan member
    obtain ⟨before, listed, rfl⟩ := List.mem_map.mp member
    rw [keeps]
    by_cases same : before.peer = peer
    · rw [if_pos same, same, here, ← planFor_extend, ← same, ← openedExact before listed]
    · rw [if_neg same, away same]
      exact openedExact before listed
  · intro plan member
    obtain ⟨before, listed, rfl⟩ := List.mem_map.mp member
    rw [keeps]
    by_cases same : before.peer = peer
    · rw [same, here]
      simp
    · rw [away same]
      exact lists.needed before ((openedNeeded before listed).resolve_left same)
  · intro other some
    obtain ⟨plan, listed, same⟩ := openedComplete other some
    exact ⟨_, List.mem_map.mpr ⟨plan, listed, rfl⟩, by rw [keeps, same]⟩

theorem perm (lists : Lists peerOf jobs plans) (same : plans.Perm opened) : Lists peerOf jobs opened where
  distinct := (same.map _).nodup_iff.mp lists.distinct
  exact plan member := lists.exact plan (same.mem_iff.mpr member)
  needed plan member := lists.needed plan (same.mem_iff.mpr member)
  complete peer some := by
    obtain ⟨plan, listed, found⟩ := lists.complete peer some
    exact ⟨plan, same.mem_iff.mp listed, found⟩

theorem mem_iff (lists : Lists peerOf jobs plans) {plan : PeerPlan Rank Job} :
    plan ∈ plans ↔ jobsOf peerOf plan.peer jobs ≠ [] ∧
      plan = planFor plan.peer (jobsOf peerOf plan.peer jobs) := by
  constructor
  · exact fun member => ⟨lists.needed plan member, lists.exact plan member⟩
  · rintro ⟨some, same⟩
    obtain ⟨known, listed, found⟩ := lists.complete plan.peer some
    rw [same, ← found, ← lists.exact known listed]
    exact listed

end Lists

/-- What a rank does with a job. -/
inductive Route (Rank : Type) where
  | aside
  | copy
  | send (peer : Rank)
  | receive (peer : Rank)
  deriving DecidableEq

namespace Route

def sendPeer : Route Rank → Option Rank
  | .send peer => some peer
  | _ => none

def receivePeer : Route Rank → Option Rank
  | .receive peer => some peer
  | _ => none

/-- The route of a job that moves data from one rank to another. -/
def between (source destination self : Rank) : Route Rank :=
  if source = self ∧ destination = self then .copy
  else if source = self then .send destination
  else if destination = self then .receive source
  else .aside

theorem between_copy {source destination self : Rank} :
    between source destination self = .copy ↔ source = self ∧ destination = self := by
  unfold between
  split <;> [simp [*]; skip]
  split <;> [simp_all; skip]
  split <;> simp_all

theorem between_send {source destination self peer : Rank} :
    (between source destination self).sendPeer = some peer ↔
      source = self ∧ destination = peer ∧ self ≠ peer := by
  unfold between
  split <;> [(simp [sendPeer]; grind); skip]
  split <;> [(simp [sendPeer]; grind); skip]
  split <;> (simp [sendPeer]; grind)

theorem between_receive {source destination self peer : Rank} :
    (between source destination self).receivePeer = some peer ↔
      source = peer ∧ destination = self ∧ peer ≠ self := by
  unfold between
  split <;> [(simp [receivePeer]; grind); skip]
  split <;> [(simp [receivePeer]; grind); skip]
  split <;> (simp [receivePeer]; grind)

end Route

/-- The limits of a classification. -/
structure TransferLimits where
  peerPlans : ℕ
  localElements : ℕ
  sendElements : ℕ
  receiveElements : ℕ
  deriving DecidableEq

/-- The text of the exception at each limit. -/
structure TransferMessages where
  peerPlans : String
  localElements : String
  peerSend : String
  sendElements : String
  peerReceive : String
  receiveElements : String

/-- The jobs of one rank, in the order of the list they were classified from. -/
structure Classification (Rank Job : Type) where
  localJobs : List Job := []
  send : List (PeerPlan Rank Job) := []
  receive : List (PeerPlan Rank Job) := []
  localElements : ℕ := 0
  sendElements : ℕ := 0
  receiveElements : ℕ := 0
  deriving DecidableEq

/-- The classification of one more job. -/
def classify (limits : TransferLimits) (messages : TransferMessages) (state : Classification Rank Job)
    (route : Route Rank) (job : Job) : Checked (Classification Rank Job) :=
  match route with
  | .aside => .ok state
  | .copy => do
    let sum ← checkedAdd state.localElements (elements job) limits.localElements messages.localElements
    return { state with
      localJobs := state.localJobs ++ [placedAt job state.localElements], localElements := sum }
  | .send peer => do
    let opened ← peerPlan state.send peer limits.peerPlans messages.peerPlans
    let plans ← appendJob peer job limits.sendElements messages.peerSend opened
    let sum ← checkedAdd state.sendElements (elements job) limits.sendElements messages.sendElements
    return { state with send := plans, sendElements := sum }
  | .receive peer => do
    let opened ← peerPlan state.receive peer limits.peerPlans messages.peerPlans
    let plans ← appendJob peer job limits.receiveElements messages.peerReceive opened
    let sum ← checkedAdd state.receiveElements (elements job) limits.receiveElements messages.receiveElements
    return { state with receive := plans, receiveElements := sum }

/-- `std::sort` of the plans by the linear rank of their peers. -/
def sortPlans (rankOf : Rank → ℕ) (plans : List (PeerPlan Rank Job)) : List (PeerPlan Rank Job) :=
  plans.mergeSort fun left right => rankOf left.peer ≤ rankOf right.peer

/-- The jobs of a list are filed as their routes say. -/
structure Classified (route : Job → Route Rank) (jobs : List Job) (state : Classification Rank Job) :
    Prop where
  copies : state.localJobs = place 0 (jobs.filter fun job => route job = .copy)
  copied : state.localElements = total (jobs.filter fun job => route job = .copy)
  sends : Lists (fun job => (route job).sendPeer) jobs state.send
  receives : Lists (fun job => (route job).receivePeer) jobs state.receive

namespace Classified
variable {route : Job → Route Rank} {state next : Classification Rank Job}
variable {limits : TransferLimits} {messages : TransferMessages}

theorem nil (route : Job → Route Rank) : Classified route [] ({} : Classification Rank Job) :=
  ⟨rfl, rfl, .nil _, .nil _⟩

theorem step (classified : Classified route jobs state)
    (ran : classify limits messages state (route job) job = .ok next) :
    Classified route (jobs ++ [job]) next := by
  obtain ⟨copies, copied, sends, receives⟩ := classified
  have others (here : route job ≠ .copy) :
      ((jobs ++ [job]).filter fun job => route job = .copy) = jobs.filter fun job => route job = .copy := by
    simp [List.filter_append, here]
  cases way : route job with
  | aside =>
    rw [way] at ran
    cases ran
    rw [← others (by simp [way])] at copies copied
    exact ⟨copies, copied, sends.skip (by simp [way, Route.sendPeer]),
      receives.skip (by simp [way, Route.receivePeer])⟩
  | copy =>
    rw [way] at ran
    simp only [classify, bind_ok, pure_ok] at ran
    obtain ⟨sum, ranSum, rfl⟩ := ran
    have extended : ((jobs ++ [job]).filter fun job => route job = .copy) =
        (jobs.filter fun job => route job = .copy) ++ [job] := by
      simp [List.filter_append, way]
    refine ⟨?_, ?_, sends.skip (by simp [way, Route.sendPeer]),
      receives.skip (by simp [way, Route.receivePeer])⟩
    · rw [extended, place_append, copies, copied]
      simp [place]
    · rw [extended, total_append, (checkedAdd_ok ranSum).1, copied]
      simp
  | send peer =>
    rw [way] at ran
    simp only [classify, bind_ok, pure_ok] at ran
    obtain ⟨opened, ranOpen, plans, ranFill, sum, -, rfl⟩ := ran
    rw [← others (by simp [way])] at copies copied
    exact ⟨copies, copied, sends.append (by simp [way, Route.sendPeer]) ranOpen ranFill,
      receives.skip (by simp [way, Route.receivePeer])⟩
  | receive peer =>
    rw [way] at ran
    simp only [classify, bind_ok, pure_ok] at ran
    obtain ⟨opened, ranOpen, plans, ranFill, sum, -, rfl⟩ := ran
    rw [← others (by simp [way])] at copies copied
    exact ⟨copies, copied, sends.skip (by simp [way, Route.sendPeer]),
      receives.append (by simp [way, Route.receivePeer]) ranOpen ranFill⟩

theorem localElements_le {way : Route Rank} (bounded : state.localElements ≤ limits.localElements)
    (ran : classify limits messages state way job = .ok next) : next.localElements ≤ limits.localElements := by
  cases way with
  | aside =>
    cases ran
    exact bounded
  | copy =>
    simp only [classify, bind_ok, pure_ok] at ran
    obtain ⟨sum, ranSum, rfl⟩ := ran
    obtain ⟨rfl, within⟩ := checkedAdd_ok ranSum
    exact within
  | send peer =>
    simp only [classify, bind_ok, pure_ok] at ran
    obtain ⟨_, -, _, -, _, -, rfl⟩ := ran
    exact bounded
  | receive peer =>
    simp only [classify, bind_ok, pure_ok] at ran
    obtain ⟨_, -, _, -, _, -, rfl⟩ := ran
    exact bounded

theorem sorted (classified : Classified route jobs state) (rankOf : Rank → ℕ) :
    Classified route jobs { state with
      send := sortPlans rankOf state.send, receive := sortPlans rankOf state.receive } :=
  ⟨classified.copies, classified.copied, classified.sends.perm (List.mergeSort_perm _ _).symm,
    classified.receives.perm (List.mergeSort_perm _ _).symm⟩

/-- What one rank sends to another is what the other receives from it: the
same jobs, in the same order, at the same places. -/
theorem mirrored {source destination : Job → Rank} {self peer : Rank} {own others : Classification Rank Job}
    (sender : Classified (fun job => .between (source job) (destination job) self) jobs own)
    (receiver : Classified (fun job => .between (source job) (destination job) peer) jobs others)
    (planned : List Job) (size : ℕ) :
    ⟨peer, planned, size⟩ ∈ own.send ↔ ⟨self, planned, size⟩ ∈ others.receive := by
  have same : jobsOf (fun job => (Route.between (source job) (destination job) self).sendPeer) peer jobs =
      jobsOf (fun job => (Route.between (source job) (destination job) peer).receivePeer) self jobs := by
    apply List.filter_congr
    intro job _
    rw [decide_eq_decide, Route.between_send, Route.between_receive]
  rw [sender.sends.mem_iff, receiver.receives.mem_iff]
  simp only [planFor, PeerPlan.mk.injEq, true_and, same]

end Classified

end PeerPlans

end Pops
