import Pops.RegionTransfer

/-!
Proofs about region transport. Every rank files the same jobs, so the plans of
two ranks mirror each other. A run reads every source before it writes any
destination: what it writes is known from the memories it started from, one
write per element of the jobs, and disjoint destinations keep the writes apart.
-/
namespace Pops
open MixedRadix PeerPlans Staging

variable {d : ℕ}

/-- What the checks of a job establish. -/
structure RegionTransferJob.Sized (job : RegionTransferJob d) (ncomp : ℤ) : Prop where
  positive : 0 < ncomp
  sourceNonempty : ¬ job.sourceRegion.Empty
  destinationNonempty : ¬ job.destinationRegion.Empty
  shape : job.sourceRegion.counts = job.destinationRegion.counts
  elements : job.elements = volume job.sourceRegion.counts (List.finRange d) * ncomp.toNat

namespace RegionTransferJob
variable {job : RegionTransferJob d} {ncomp : ℤ}

theorem checkedElements_ok {elements : ℕ} (ran : job.checkedElements ncomp = .ok elements) :
    Sized { job with elements } ncomp := by
  simp only [checkedElements, bind_ok, throwIf_ok, unit_exists, pure_ok] at ran
  obtain ⟨guards, cells, counted, -, rfl⟩ := ran
  push Not at guards
  obtain ⟨sourceNonempty, destinationNonempty, lengths, positive⟩ := guards
  refine ⟨by omega, sourceNonempty, destinationNonempty, ?_, ?_⟩
  · funext axis
    exact congrArg Int.toNat (lengths axis)
  · rw [Box.numPts_ok sourceNonempty counted, Int.toNat_natCast]

theorem Sized.cells_pos (sized : job.Sized ncomp) : 0 < volume job.sourceRegion.counts (List.finRange d) :=
  volume_pos fun axis _ => Box.counts_pos sized.sourceNonempty axis

theorem Sized.component_lt (sized : job.Sized ncomp) {element : ℕ} (within : element < job.elements) :
    element / volume job.sourceRegion.counts (List.finRange d) < ncomp.toNat := by
  rw [sized.elements] at within
  exact Nat.div_lt_of_lt_mul within

/-- The cell of the source region an element stands for. -/
def sourceCell (job : RegionTransferJob d) (element : ℕ) : Index d :=
  job.sourceRegion.indexAt (element % volume job.sourceRegion.counts (List.finRange d))

/-- The cell of the destination region an element stands for. -/
def destinationCell (job : RegionTransferJob d) (element : ℕ) : Index d :=
  job.destinationRegion.indexAt (element % volume job.sourceRegion.counts (List.finRange d))

/-- The component an element stands for. -/
def componentOf (job : RegionTransferJob d) (element : ℕ) : ℤ :=
  (element / volume job.sourceRegion.counts (List.finRange d) : ℕ)

theorem Sized.component_bounds (sized : job.Sized ncomp) {element : ℕ} (within : element < job.elements) :
    0 ≤ job.componentOf element ∧ job.componentOf element < ncomp := by
  have below := Int.ofNat_lt.mpr (sized.component_lt within)
  rw [Int.toNat_of_nonneg sized.positive.le] at below
  exact ⟨Int.natCast_nonneg _, below⟩

theorem Sized.destinationCell_mem (sized : job.Sized ncomp) (element : ℕ) :
    job.destinationCell element ∈ job.destinationRegion.cells :=
  (Box.indexAt_mem job.destinationFits sized.destinationNonempty _).1

/-- Source and destination cells of an element lie at the same distance from
the lower corners. -/
theorem Sized.sourceCell_eq (sized : job.Sized ncomp) (element : ℕ) (axis : Fin d) :
    job.sourceCell element axis =
      job.destinationCell element axis + (job.sourceRegion.lo axis - job.destinationRegion.lo axis) := by
  unfold sourceCell destinationCell
  rw [(Box.indexAt_mem job.sourceFits sized.sourceNonempty _).2 axis,
    (Box.indexAt_mem job.destinationFits sized.destinationNonempty _).2 axis, sized.shape]
  ring

theorem Sized.exists_element (sized : job.Sized ncomp) {index : Index d}
    (member : index ∈ job.destinationRegion.cells) {component : ℤ} (nonnegative : 0 ≤ component)
    (below : component < ncomp) :
    ∃ element < job.elements, job.destinationCell element = index ∧ job.componentOf element = component := by
  obtain ⟨ordinal, ordinalBelow, found⟩ := Box.exists_indexAt job.destinationFits member
  rw [← sized.shape] at ordinalBelow
  set cells := volume job.sourceRegion.counts (List.finRange d) with cellsEq
  have positive : 0 < cells := sized.cells_pos
  have remainder : (ordinal + cells * component.toNat) % cells = ordinal := by
    rw [Nat.add_mul_mod_self_left, Nat.mod_eq_of_lt ordinalBelow]
  have quotient : (ordinal + cells * component.toNat) / cells = component.toNat := by
    rw [Nat.add_mul_div_left _ _ positive, Nat.div_eq_of_lt ordinalBelow, zero_add]
  refine ⟨ordinal + cells * component.toNat, ?_, ?_, ?_⟩
  · rw [sized.elements, ← cellsEq]
    calc ordinal + cells * component.toNat
        < cells + cells * component.toNat := by omega
      _ = cells * (component.toNat + 1) := by ring
      _ ≤ cells * ncomp.toNat := Nat.mul_le_mul_left _ (by omega)
  · rw [destinationCell, ← cellsEq, remainder, found]
  · rw [componentOf, ← cellsEq, quotient]
    omega

theorem Sized.element_unique (sized : job.Sized ncomp) {first second : ℕ}
    (cell : job.destinationCell first = job.destinationCell second)
    (component : job.componentOf first = job.componentOf second) : first = second := by
  have positive := sized.cells_pos
  set cells := volume job.sourceRegion.counts (List.finRange d) with cellsEq
  have below (element : ℕ) : element % cells < volume job.destinationRegion.counts (List.finRange d) := by
    rw [← sized.shape]
    exact Nat.mod_lt _ positive
  have remainders : first % cells = second % cells :=
    Box.indexAt_injective job.destinationFits sized.destinationNonempty (below first) (below second) cell
  have quotients : first / cells = second / cells := by
    unfold componentOf at component
    rw [← cellsEq] at component
    exact_mod_cast component
  rw [← Nat.div_add_mod first cells, ← Nat.div_add_mod second cells, remainders, quotients]

end RegionTransferJob

namespace RegionTransferPlan
variable {plan : RegionTransferPlan d} {localRank : Index d}

/-- The route of a job on a rank. -/
def route (localRank : Index d) (job : RegionTransferJob d) : Route (Index d) :=
  .between job.sourceRank job.destinationRank localRank

theorem sized_ok {input job : RegionTransferJob d} (ran : plan.sized input = .ok job) :
    job.Sized plan.ncomp ∧ (∃ elements, job = { input with elements }) ∧
      plan.rankSpace.Contains job.sourceRank ∧ plan.rankSpace.Contains job.destinationRank := by
  simp only [sized, bind_ok, throwIf_ok, unit_exists, pure_ok] at ran
  obtain ⟨known, elements, checked, rfl⟩ := ran
  push Not at known
  exact ⟨RegionTransferJob.checkedElements_ok checked, ⟨elements, rfl⟩, known⟩

theorem classify_ok {canonical : List (RegionTransferJob d)}
    {classes : Classification (Index d) (RegionTransferJob d)}
    (ran : plan.classify localRank = .ok (canonical, classes)) :
    plan.canonicalInput.mapM plan.sized = .ok canonical ∧
      Classified (route localRank) canonical classes ∧ classes.localElements ≤ plan.budget.localElements := by
  simp only [classify, bind_ok, throwIf_ok, unit_exists, pure_ok, Prod.mk.injEq] at ran
  obtain ⟨-, -, ⟨jobs, filed⟩, looped, rfl, rfl⟩ := ran
  have facts := foldlM_ok_invariant
    (fun done (prepared : List (RegionTransferJob d) × Classification (Index d) (RegionTransferJob d)) =>
      List.Forall₂ (fun input job => plan.sized input = .ok job) done prepared.1 ∧
        Classified (route localRank) prepared.1 prepared.2 ∧
        prepared.2.localElements ≤ plan.limits.localElements)
    (fun done input before after held stepped => by
      simp only [classifyJob, bind_ok, pure_ok] at stepped
      obtain ⟨job, sized, classes, filed, rfl⟩ := stepped
      exact ⟨List.rel_append held.1 (.cons sized .nil), held.2.1.step filed,
        Classified.localElements_le held.2.2 filed⟩)
    _ _ _ [] ⟨.nil, .nil _, Nat.zero_le _⟩ looped
  rw [List.nil_append] at facts
  exact ⟨mapM_ok.mpr facts.1, facts.2.1.sorted _, facts.2.2⟩

theorem prepareRank_ok {classes : Classification (Index d) (RegionTransferJob d)}
    (ran : plan.prepareRank localRank = .ok classes) :
    (∃ canonical, plan.canonicalInput.mapM plan.sized = .ok canonical ∧
      Classified (route localRank) canonical classes ∧ classes.localElements ≤ plan.budget.localElements) ∧
    ∀ peer ∈ classes.send ++ classes.receive, (peer.elements : ℤ) ≤ intMax := by
  simp only [prepareRank, prepareStorage, bind_ok, throwIf_ok, unit_exists, pure_ok] at ran
  obtain ⟨⟨canonical, filed⟩, classified, ⟨sizes, -⟩, rfl⟩ := ran
  push Not at sizes
  exact ⟨⟨canonical, classify_ok classified⟩, fun peer listed => (sizes peer listed).2⟩

theorem prepareCollectively_ok {transport : RegionTransport d}
    (ran : plan.prepareCollectively = .ok transport) : transport.plan = plan ∧ transport.isSealed = false := by
  unfold prepareCollectively at ran
  split at ran
  · simp only [bind_ok, throwIf_ok, unit_exists] at ran
    obtain ⟨-, ran⟩ := ran
    split at ran
    · cases ran
      exact ⟨rfl, rfl⟩
    · cases ran
  · cases ran

end RegionTransferPlan

namespace RegionTransport
variable {transport : RegionTransport d} {V : Type} [Inhabited V]

/-- The value of an element of a job, before the run. -/
def readAt (source : Accessor d) (memory : ℤ → V) (job : RegionTransferJob d) (element : ℕ) : V :=
  match source job.sourcePatch with
  | .ok view => memory (view.address (job.sourceCell element) (job.componentOf element))
  | .error _ => default

/-- The address an element of a job is written to. -/
def writeAt (destination : Accessor d) (job : RegionTransferJob d) (element : ℕ) : ℤ :=
  match destination job.destinationPatch with
  | .ok view => view.address (job.destinationCell element) (job.componentOf element)
  | .error _ => 0

variable {job : RegionTransferJob d} {jobs : List (RegionTransferJob d)}
  {peer : PeerPlan (Index d) (RegionTransferJob d)}

theorem lower_ok {lowered : KernelJob d} (sized : job.Sized transport.plan.ncomp)
    (ran : transport.lower job = .ok lowered) :
    lowered.elements = job.elements ∧ lowered.offset = job.offset ∧
      (∀ element, lowered.index lowered.sourceLower element = job.sourceCell element) ∧
      (∀ element, lowered.index lowered.destinationLower element = job.destinationCell element) ∧
      ∀ element < job.elements, lowered.component element = job.componentOf element := by
  simp only [lower, bind_ok, throwIf_ok, unit_exists, pure_ok] at ran
  obtain ⟨-, rfl⟩ := ran
  have cells : job.elements / transport.plan.ncomp.toNat = volume job.sourceRegion.counts (List.finRange d) := by
    rw [sized.elements, Nat.mul_div_cancel _ (by have := sized.positive; omega)]
  refine ⟨rfl, rfl, fun element => ?_, fun element => ?_, fun element within => ?_⟩
  · funext axis
    simp only [KernelJob.index, cells]
    rfl
  · funext axis
    simp only [KernelJob.index, cells, sized.shape, RegionTransferJob.destinationCell]
    rfl
  · have bounds := sized.component_bounds within
    have fits : FitsInt (job.componentOf element) :=
      ⟨by unfold intMin; omega, (bounds.2.le).trans transport.plan.ncompFits.2⟩
    simp only [KernelJob.component, cells]
    exact castInt_of_fits fits

variable {buffer : ℕ → V} {environment : Environment d} {source destination : Index d → Accessor d}

theorem packJobs_ok {source : Accessor d} {memory : ℤ → V} (sized : ∀ job ∈ jobs, job.Sized transport.plan.ncomp)
    (ran : transport.packJobs source memory jobs = .ok buffer) :
    buffer = pack (readAt source memory) jobs fun _ => default := by
  unfold packJobs at ran
  generalize (fun _ => default : ℕ → V) = before at ran ⊢
  induction jobs generalizing before with
  | nil =>
    rw [List.foldlM_nil, pure_ok] at ran
    exact ran.symm
  | cons job rest ih =>
    rw [List.foldlM_cons, bind_ok] at ran
    obtain ⟨next, first, later⟩ := ran
    rw [ih (fun other listed => sized other (by simp [listed])) _ later]
    simp only [packJob, bind_ok, pure_ok] at first
    obtain ⟨lowered, ranLower, view, found, rfl⟩ := first
    obtain ⟨elements, offset, cell, -, component⟩ := lower_ok (sized job (by simp)) ranLower
    rw [pack, pack, kernelWrites_cons, store_append, elements]
    refine congrArg (fun writes => store (store before writes) _) ?_
    refine List.map_congr_left fun element range => Prod.ext (by rw [offset]; rfl) ?_
    simp only [readAt, found]
    rw [cell, component element (List.mem_range.mp range)]

omit [Inhabited V] in
theorem unpackJobs_ok {destination : Accessor d} (sized : ∀ job ∈ jobs, job.Sized transport.plan.ncomp)
    {memory after : ℤ → V} (ran : transport.unpackJobs destination jobs buffer memory = .ok after) :
    after = store memory (unpackWrites (writeAt destination) jobs buffer) := by
  unfold unpackJobs at ran
  induction jobs generalizing memory with
  | nil =>
    rw [List.foldlM_nil, pure_ok] at ran
    exact ran.symm
  | cons job rest ih =>
    rw [List.foldlM_cons, bind_ok] at ran
    obtain ⟨next, first, later⟩ := ran
    rw [ih (fun other listed => sized other (by simp [listed])) later]
    simp only [unpackJob, bind_ok, pure_ok] at first
    obtain ⟨lowered, ranLower, view, found, rfl⟩ := first
    obtain ⟨elements, offset, -, cell, component⟩ := lower_ok (sized job (by simp)) ranLower
    rw [unpackWrites, unpackWrites, kernelWrites_cons, store_append, elements]
    refine congrArg (fun writes => store (store memory writes) _) ?_
    refine List.map_congr_left fun element range => Prod.ext ?_ (by rw [offset]; rfl)
    simp only [writeAt, found]
    rw [cell, component element (List.mem_range.mp range)]

/-- The jobs of all ranks, and what each rank files of them. -/
structure Filed (transport : RegionTransport d) (canonical : List (RegionTransferJob d)) : Prop where
  sized : ∀ job ∈ canonical, job.Sized transport.plan.ncomp
  known : ∀ job ∈ canonical, transport.plan.rankSpace.Contains job.sourceRank ∧
    transport.plan.rankSpace.Contains job.destinationRank
  origin : ∀ job ∈ canonical, ∃ input ∈ transport.plan.canonicalInput, ∃ elements, job = { input with elements }
  classified : ∀ rank ∈ transport.plan.rankSpace.ranks,
    Classified (RegionTransferPlan.route rank) canonical (transport.classes rank)
  bounded : ∀ rank ∈ transport.plan.rankSpace.ranks,
    ∀ peer ∈ (transport.classes rank).send ++ (transport.classes rank).receive, (peer.elements : ℤ) ≤ intMax
  copied : ∀ rank ∈ transport.plan.rankSpace.ranks,
    (transport.classes rank).localElements ≤ transport.plan.budget.localElements

theorem exists_filed (transport : RegionTransport d) :
    ∃ canonical, transport.plan.canonicalInput.mapM transport.plan.sized = .ok canonical ∧
      transport.Filed canonical := by
  obtain ⟨first, firstKnown⟩ := List.exists_mem_of_ne_nil _ (RankSpace.ranks_ne_nil transport.occupied)
  obtain ⟨⟨canonical, mapped, -⟩, -⟩ := RegionTransferPlan.prepareRank_ok (transport.prepared first firstKnown)
  refine ⟨canonical, mapped, fun job listed => ?_, fun job listed => ?_, fun job listed => ?_,
    fun rank known => ?_,
    fun rank known => (RegionTransferPlan.prepareRank_ok (transport.prepared rank known)).2, fun rank known => ?_⟩
  · obtain ⟨input, -, sized⟩ := mem_of_mapM_ok mapped listed
    exact (RegionTransferPlan.sized_ok sized).1
  · obtain ⟨input, -, sized⟩ := mem_of_mapM_ok mapped listed
    exact (RegionTransferPlan.sized_ok sized).2.2
  · obtain ⟨input, inputListed, sized⟩ := mem_of_mapM_ok mapped listed
    exact ⟨input, inputListed, (RegionTransferPlan.sized_ok sized).2.1⟩
  · obtain ⟨⟨others, otherMapped, classified, -⟩, -⟩ :=
      RegionTransferPlan.prepareRank_ok (transport.prepared rank known)
    rw [mapped] at otherMapped
    cases otherMapped
    exact classified
  · obtain ⟨⟨others, -, -, copied⟩, -⟩ := RegionTransferPlan.prepareRank_ok (transport.prepared rank known)
    exact copied

variable {canonical : List (RegionTransferJob d)} {rank : Index d}

namespace Filed

theorem sized_placed (filed : transport.Filed canonical) {start : ℕ} (within : ∀ job ∈ jobs, job ∈ canonical) :
    ∀ job ∈ place start jobs, job.Sized transport.plan.ncomp := by
  intro placed member
  obtain ⟨job, listed, same⟩ := mem_place member
  obtain ⟨positive, source, destination, shape, elements⟩ := filed.sized job (within job listed)
  rw [same]
  exact ⟨positive, source, destination, shape, elements⟩

theorem sized_local (filed : transport.Filed canonical) (known : rank ∈ transport.plan.rankSpace.ranks) :
    ∀ job ∈ (transport.classes rank).localJobs, job.Sized transport.plan.ncomp := by
  rw [(filed.classified rank known).copies]
  exact filed.sized_placed fun job listed => List.mem_of_mem_filter listed

theorem sized_send (filed : transport.Filed canonical) (known : rank ∈ transport.plan.rankSpace.ranks)
    (planned : peer ∈ (transport.classes rank).send) :
    ∀ job ∈ peer.jobs, job.Sized transport.plan.ncomp := by
  rw [(filed.classified rank known).sends.exact peer planned]
  exact filed.sized_placed fun job listed => (mem_jobsOf.mp listed).1

theorem sized_receive (filed : transport.Filed canonical) (known : rank ∈ transport.plan.rankSpace.ranks)
    (planned : peer ∈ (transport.classes rank).receive) :
    ∀ job ∈ peer.jobs, job.Sized transport.plan.ncomp := by
  rw [(filed.classified rank known).receives.exact peer planned]
  exact filed.sized_placed fun job listed => (mem_jobsOf.mp listed).1

theorem peer_known (filed : transport.Filed canonical) (known : rank ∈ transport.plan.rankSpace.ranks)
    (planned : peer ∈ (transport.classes rank).receive) :
    peer.peer ∈ transport.plan.rankSpace.ranks := by
  obtain ⟨job, listed⟩ := List.exists_mem_of_ne_nil _ ((filed.classified rank known).receives.needed peer planned)
  obtain ⟨member, routed⟩ := mem_jobsOf.mp listed
  obtain ⟨source, -, -⟩ := Route.between_receive.mp routed
  rw [← source]
  exact RankSpace.mem_ranks.mpr (filed.known job member).1

theorem message_jobs (filed : transport.Filed canonical) (known : rank ∈ transport.plan.rankSpace.ranks)
    {peer message : PeerPlan (Index d) (RegionTransferJob d)} (planned : peer ∈ (transport.classes rank).receive)
    (sent : message ∈ (transport.classes peer.peer).send) (addressed : message.peer = rank) :
    message.jobs = peer.jobs ∧ message.elements = peer.elements := by
  have mirror := Classified.mirrored (filed.classified peer.peer (filed.peer_known known planned))
    (filed.classified rank known) message.jobs message.elements
  have expected : ⟨peer.peer, message.jobs, message.elements⟩ ∈ (transport.classes rank).receive := by
    apply mirror.mp
    rw [← addressed]
    exact sent
  have same : (⟨peer.peer, message.jobs, message.elements⟩ : PeerPlan _ _) = peer :=
    ((filed.classified rank known).receives.exact _ expected).trans
      ((filed.classified rank known).receives.exact _ planned).symm
  rw [← same]
  exact ⟨rfl, rfl⟩

end Filed

theorem packRank_ok (filed : transport.Filed canonical) (known : rank ∈ transport.plan.rankSpace.ranks)
    {source : Accessor d} {memory : ℤ → V} {packed : Packed d V}
    (ran : transport.packRank source memory rank = .ok packed) :
    packed.own = pack (readAt source memory) (transport.classes rank).localJobs (fun _ => default) ∧
      (∀ message ∈ packed.sends, message.1 ∈ (transport.classes rank).send ∧
        message.2 = pack (readAt source memory) message.1.jobs fun _ => default) ∧
      ∀ peer ∈ (transport.classes rank).send, ∃ message ∈ packed.sends, message.1 = peer := by
  simp only [packRank, bind_ok, pure_ok] at ran
  obtain ⟨own, ranOwn, sends, ranSends, rfl⟩ := ran
  refine ⟨packJobs_ok (filed.sized_local known) ranOwn, fun message listed => ?_, fun peer planned => ?_⟩
  · obtain ⟨peer, planned, found⟩ := mem_of_mapM_ok ranSends listed
    simp only [bind_ok, pure_ok] at found
    obtain ⟨buffer, ranPeer, rfl⟩ := found
    exact ⟨planned, packJobs_ok (filed.sized_send known planned) ranPeer⟩
  · obtain ⟨message, listed, found⟩ := exists_of_mapM_ok ranSends planned
    simp only [bind_ok, pure_ok] at found
    obtain ⟨buffer, -, rfl⟩ := found
    exact ⟨_, listed, rfl⟩

omit [Inhabited V] in
theorem deliver_ok {sent : List (Filled d V)} {received : Filled d V}
    (ran : deliver sent rank peer = .ok received) :
    received.1 = peer ∧ ∃ message ∈ sent, message.1.peer = rank ∧ received.2 = message.2 := by
  unfold deliver at ran
  split at ran
  · rename_i message found
    split at ran
    · cases ran
      exact ⟨rfl, message, List.mem_of_find?_eq_some found, by simpa using List.find?_some found, rfl⟩
    · cases ran
  · cases ran

/-- The writes of a publication, message by message. -/
def publication (destination : Accessor d) (jobs : List (RegionTransferJob d)) (own : ℕ → V)
    (received : List (Filled d V)) : List (ℤ × V) :=
  unpackWrites (writeAt destination) jobs own ++
    received.flatMap fun message => unpackWrites (writeAt destination) message.1.jobs message.2

omit [Inhabited V] in
theorem unpackRank_ok (filed : transport.Filed canonical) (known : rank ∈ transport.plan.rankSpace.ranks)
    {destination : Accessor d} {own : ℕ → V} {received : List (Filled d V)} {memory after : ℤ → V}
    (expected : ∀ message ∈ received, message.1 ∈ (transport.classes rank).receive)
    (ran : transport.unpackRank destination own received rank memory = .ok after) :
    after = store memory (publication destination (transport.classes rank).localJobs own received) := by
  simp only [unpackRank, bind_ok] at ran
  obtain ⟨copied, ranOwn, ranPeers⟩ := ran
  rw [publication, store_append, ← unpackJobs_ok (filed.sized_local known) ranOwn]
  clear ranOwn
  induction received generalizing copied with
  | nil =>
    rw [List.foldlM_nil, pure_ok] at ranPeers
    exact ranPeers.symm
  | cons message rest ih =>
    rw [List.foldlM_cons, bind_ok] at ranPeers
    obtain ⟨next, first, later⟩ := ranPeers
    rw [ih (fun other listed => expected other (by simp [listed])) next later, List.flatMap_cons, store_append,
      ← unpackJobs_ok (filed.sized_receive known (expected message (by simp))) first]

/-- A run that passed every gate but the last one: what each rank packed,
received and is about to publish. -/
structure Exchanged (transport : RegionTransport d) (source : Index d → Accessor d)
    (memory : Index d → ℤ → V) (packed : Index d → Packed d V) (received : Index d → List (Filled d V)) :
    Prop where
  packs : ∀ rank ∈ transport.plan.rankSpace.ranks,
    transport.packRank (source rank) (memory rank) rank = .ok (packed rank)
  receives : ∀ rank ∈ transport.plan.rankSpace.ranks,
    transport.receiveRank (fun peer => (packed peer).sends) rank = .ok (received rank)

namespace Exchanged
variable {source : Index d → Accessor d} {memory : Index d → ℤ → V} {packed : Index d → Packed d V}
variable {received : Index d → List (Filled d V)}

theorem expected (exchanged : transport.Exchanged source memory packed received)
    (known : rank ∈ transport.plan.rankSpace.ranks) :
    ∀ message ∈ received rank, message.1 ∈ (transport.classes rank).receive := by
  intro message listed
  obtain ⟨peer, planned, delivered⟩ := mem_of_mapM_ok (exchanged.receives rank known) listed
  rw [(deliver_ok delivered).1]
  exact planned

theorem received_buffer (exchanged : transport.Exchanged source memory packed received)
    (filed : transport.Filed canonical) (known : rank ∈ transport.plan.rankSpace.ranks)
    {message : Filled d V} (listed : message ∈ received rank) :
    message.2 = pack (readAt (source message.1.peer) (memory message.1.peer)) message.1.jobs
      fun _ => default := by
  obtain ⟨peer, planned, delivered⟩ := mem_of_mapM_ok (exchanged.receives rank known) listed
  obtain ⟨same, sentMessage, sent, addressed, buffer⟩ := deliver_ok delivered
  subst same
  have peerKnown := filed.peer_known known planned
  obtain ⟨-, sends, -⟩ := packRank_ok filed peerKnown (exchanged.packs _ peerKnown)
  obtain ⟨sentPlanned, packedBuffer⟩ := sends sentMessage sent
  rw [buffer, packedBuffer, (filed.message_jobs known planned sentPlanned addressed).1]

/-- A publication writes every element of every job into this rank once or
more, always with the value its source had, and nothing else. -/
theorem mem_publication (exchanged : transport.Exchanged source memory packed received)
    (filed : transport.Filed canonical) (known : rank ∈ transport.plan.rankSpace.ranks)
    {destination : Accessor d} {write : ℤ × V} :
    write ∈ publication destination (transport.classes rank).localJobs (packed rank).own (received rank) ↔
      ∃ job ∈ canonical, job.destinationRank = rank ∧ ∃ element < job.elements,
        write = (writeAt destination job element,
          readAt (source job.sourceRank) (memory job.sourceRank) job element) := by
  have classified := filed.classified rank known
  have ownBuffer := (packRank_ok filed known (exchanged.packs rank known)).1
  rw [publication, List.mem_append, List.mem_flatMap]
  constructor
  · rintro (own | ⟨message, listed, ofPeer⟩)
    · rw [ownBuffer, classified.copies, unpackWrites_pack, mem_kernelWrites] at own
      obtain ⟨placed, member, element, within, rfl⟩ := own
      obtain ⟨job, filtered, same⟩ := mem_place member
      obtain ⟨jobListed, copied⟩ := List.mem_filter.mp filtered
      obtain ⟨fromHere, toHere⟩ := Route.between_copy.mp (of_decide_eq_true copied)
      rw [same] at within ⊢
      rw [← fromHere]
      exact ⟨job, jobListed, toHere.trans fromHere.symm, element, within, rfl⟩
    · rw [exchanged.received_buffer filed known listed,
        classified.receives.exact message.1 (exchanged.expected known message listed)] at ofPeer
      rw [planFor, unpackWrites_pack, mem_kernelWrites] at ofPeer
      obtain ⟨placed, member, element, within, rfl⟩ := ofPeer
      obtain ⟨job, filtered, same⟩ := mem_place member
      obtain ⟨jobListed, routed⟩ := mem_jobsOf.mp filtered
      obtain ⟨fromPeer, toHere, -⟩ := Route.between_receive.mp routed
      rw [same] at within ⊢
      rw [← fromPeer]
      exact ⟨job, jobListed, toHere, element, within, rfl⟩
  · rintro ⟨job, jobListed, toHere, element, within, rfl⟩
    by_cases fromHere : job.sourceRank = rank
    · left
      have filtered : job ∈ canonical.filter fun job => RegionTransferPlan.route rank job = .copy :=
        List.mem_filter.mpr ⟨jobListed, decide_eq_true (Route.between_copy.mpr ⟨fromHere, toHere⟩)⟩
      obtain ⟨start, member⟩ := exists_place filtered 0
      rw [ownBuffer, classified.copies, unpackWrites_pack, mem_kernelWrites, fromHere]
      exact ⟨_, member, element, within, rfl⟩
    · right
      have filtered : job ∈ jobsOf (fun job => (RegionTransferPlan.route rank job).receivePeer)
          job.sourceRank canonical :=
        mem_jobsOf.mpr ⟨jobListed, Route.between_receive.mpr ⟨rfl, toHere, fromHere⟩⟩
      obtain ⟨peer, planned, same⟩ := classified.receives.complete job.sourceRank (List.ne_nil_of_mem filtered)
      obtain ⟨message, listed, delivered⟩ := exists_of_mapM_ok (exchanged.receives rank known) planned
      obtain ⟨messagePlan, -⟩ := deliver_ok delivered
      obtain ⟨start, member⟩ := exists_place filtered 0
      refine ⟨message, listed, ?_⟩
      rw [exchanged.received_buffer filed known listed, messagePlan, classified.receives.exact peer planned,
        same]
      rw [planFor, unpackWrites_pack, mem_kernelWrites]
      exact ⟨_, member, element, within, rfl⟩

end Exchanged

omit [Inhabited V] in
theorem require_ok {passed : Bool} {failure : TransportFailure} {u : Unit} :
    require passed failure = .ok u ↔ passed = true := by
  unfold require
  split <;> simp_all

omit [Inhabited V] in
/-- Without remote jobs there is nothing to receive; with them the exchange has
authenticated every message. -/
theorem receiveRank_of_exchange (filed : transport.Filed canonical) {sent : Index d → List (Filled d V)} {u : Unit}
    (ran : transport.exchange environment sent = .ok u) (known : rank ∈ transport.plan.rankSpace.ranks) :
    ∃ messages, transport.receiveRank sent rank = .ok messages := by
  unfold exchange at ran
  split at ran
  · simp only [exchangeRemote, bind_ok, require_ok, unit_exists, gate_iff, Bool.not_eq_false',
      Bool.or_eq_false_iff] at ran
    exact exists_of_isOk (ran.2.2.1 rank known).1
  · rename_i noneRemote
    have nothing : (transport.classes rank).receive = [] := by
      apply List.eq_nil_iff_forall_not_mem.mpr
      intro peer planned
      obtain ⟨job, listed⟩ :=
        List.exists_mem_of_ne_nil _ ((filed.classified rank known).receives.needed peer planned)
      obtain ⟨member, routed⟩ := mem_jobsOf.mp listed
      obtain ⟨source, destination, different⟩ := Route.between_receive.mp routed
      obtain ⟨input, inputListed, same⟩ := filed.origin job member
      apply noneRemote
      apply List.any_eq_true.mpr
      refine ⟨input, inputListed, decide_eq_true ?_⟩
      obtain ⟨elements, rfl⟩ := same
      rw [show input.sourceRank = peer.peer from source, show input.destinationRank = rank from destination]
      exact different
    exact ⟨[], by rw [receiveRank, nothing]; rfl⟩

theorem execute_ok {memory after : Index d → ℤ → V} (filed : transport.Filed canonical)
    (ran : transport.execute environment source destination memory = .ok after) :
    transport.Exchanged source memory (transport.packed source memory)
        (transport.received (transport.packed source memory)) ∧
      (∀ rank ∈ transport.plan.rankSpace.ranks,
        transport.validate (source rank) (destination rank) rank = .ok ()) ∧
      (∀ rank ∈ transport.plan.rankSpace.ranks, after rank = store (memory rank)
        (publication (destination rank) (transport.classes rank).localJobs
          (transport.packed source memory rank).own
          (transport.received (transport.packed source memory) rank))) ∧
      ∀ rank ∉ transport.plan.rankSpace.ranks, after rank = memory rank := by
  simp only [execute, bind_ok, require_ok, unit_exists, pure_ok, gate_iff, Bool.not_eq_false',
    Bool.or_eq_false_iff] at ran
  obtain ⟨-, validated, packs, exchanged, publishes, rfl⟩ := ran
  have packsOk (rank) (known : rank ∈ transport.plan.rankSpace.ranks) :
      transport.packRank (source rank) (memory rank) rank = .ok (transport.packed source memory rank) := by
    obtain ⟨result, found⟩ := exists_of_isOk (packs rank known).1
    rw [packed, found]
    rfl
  have receivesOk (rank) (known : rank ∈ transport.plan.rankSpace.ranks) :
      transport.receiveRank (fun peer => (transport.packed source memory peer).sends) rank =
        .ok (transport.received (transport.packed source memory) rank) := by
    obtain ⟨messages, found⟩ := receiveRank_of_exchange filed exchanged known
    rw [received, found]
    rfl
  have both : transport.Exchanged source memory (transport.packed source memory)
      (transport.received (transport.packed source memory)) := ⟨packsOk, receivesOk⟩
  refine ⟨both, fun rank known => ?_, fun rank known => ?_, fun rank unknown => if_neg unknown⟩
  · obtain ⟨_, found⟩ := exists_of_isOk (validated rank known)
    exact found
  · simp only [if_pos known]
    obtain ⟨result, found⟩ := exists_of_isOk (publishes rank known).1
    rw [found]
    exact unpackRank_ok filed known (both.expected known) found

omit [Inhabited V] in
theorem Filed.destination_listed (filed : transport.Filed canonical) (known : rank ∈ transport.plan.rankSpace.ranks)
    (listed : job ∈ canonical) (toHere : job.destinationRank = rank) :
    (∃ start, StagedJob.placedAt job start ∈ (transport.classes rank).localJobs) ∨
      ∃ peer ∈ (transport.classes rank).receive, ∃ start, StagedJob.placedAt job start ∈ peer.jobs := by
  have classified := filed.classified rank known
  by_cases fromHere : job.sourceRank = rank
  · left
    rw [classified.copies]
    exact exists_place (List.mem_filter.mpr
      ⟨listed, decide_eq_true (Route.between_copy.mpr ⟨fromHere, toHere⟩)⟩) 0
  · right
    have filtered : job ∈ jobsOf (fun job => (RegionTransferPlan.route rank job).receivePeer)
        job.sourceRank canonical :=
      mem_jobsOf.mpr ⟨listed, Route.between_receive.mpr ⟨rfl, toHere, fromHere⟩⟩
    obtain ⟨peer, planned, same⟩ := classified.receives.complete job.sourceRank (List.ne_nil_of_mem filtered)
    refine ⟨peer, planned, ?_⟩
    rw [classified.receives.exact peer planned, same]
    exact exists_place filtered 0

theorem validate_destination (filed : transport.Filed canonical) (known : rank ∈ transport.plan.rankSpace.ranks)
    {source destination : Accessor d} (validated : transport.validate source destination rank = .ok ())
    (listed : job ∈ canonical) (toHere : job.destinationRank = rank) :
    ∃ view, destination job.destinationPatch = .ok view ∧
      view.Covers job.destinationRegion transport.plan.ncomp := by
  simp only [validate, validateDestinations, bind_ok, unit_exists, forM_ok, throwIf_ok, not_not] at validated
  obtain ⟨-, own, -, peers⟩ := validated
  rcases filed.destination_listed known listed toHere with ⟨start, member⟩ | ⟨peer, planned, start, member⟩
  · exact own (StagedJob.placedAt job start) member
  · exact peers peer planned (StagedJob.placedAt job start) member

end RegionTransport

/-- The indices a view has storage for. -/
def FieldView.window (view : FieldView d) : Box d where
  lo := view.origin
  hi axis := view.origin axis + view.extents axis - 1

theorem FieldView.Covers.subset {view : FieldView d} {region : Box d} {ncomp : ℤ}
    (covers : view.Covers region ncomp) : region.cells ⊆ view.window.cells := by
  intro index member
  rw [Box.mem_cells] at member ⊢
  intro axis
  have bounds := member axis
  obtain ⟨-, low, high⟩ := covers.2.2 axis
  exact ⟨low.trans bounds.1, bounds.2.trans high⟩

/-- The storage of a rank: patches do not share an address, and neither do two
elements of one patch. -/
def SeparateStorage (destination : Accessor d) (ncomp : ℤ) : Prop :=
  ∀ patch other view otherView, destination patch = .ok view → destination other = .ok otherView →
    ∀ index ∈ view.window.cells, ∀ otherIndex ∈ otherView.window.cells, ∀ component otherComponent,
      0 ≤ component → component < ncomp → 0 ≤ otherComponent → otherComponent < ncomp →
      view.address index component = otherView.address otherIndex otherComponent →
      patch = other ∧ index = otherIndex ∧ component = otherComponent

/-- The jobs do not write to a common cell. -/
def RegionTransferJob.Apart (job other : RegionTransferJob d) : Prop :=
  job.destinationRank = other.destinationRank → job.destinationPatch = other.destinationPatch →
    Disjoint job.destinationRegion.cells other.destinationRegion.cells

instance : Std.Symm (RegionTransferJob.Apart (d := d)) :=
  ⟨fun _ _ apart rank patch => (apart rank.symm patch.symm).symm⟩

namespace RegionTransferPlan

/-- No two jobs write to the same cell of the same patch on the same rank. -/
def DisjointDestinations (plan : RegionTransferPlan d) : Prop :=
  plan.canonicalInput.Pairwise RegionTransferJob.Apart

/-- Every destination cell has the value its source cell had before, and no
other address has changed. -/
structure SimultaneousCopy {V : Type} (plan : RegionTransferPlan d) (source destination : Index d → Accessor d)
    (memory after : Index d → ℤ → V) : Prop where
  copied : ∀ job ∈ plan.canonicalInput, ∀ sourceView destinationView,
    source job.sourceRank job.sourcePatch = .ok sourceView →
    destination job.destinationRank job.destinationPatch = .ok destinationView →
    ∀ index ∈ job.destinationRegion.cells, ∀ component, 0 ≤ component → component < plan.ncomp →
      after job.destinationRank (destinationView.address index component) =
        memory job.sourceRank (sourceView.address
          (fun axis => index axis + (job.sourceRegion.lo axis - job.destinationRegion.lo axis)) component)
  kept : ∀ rank address, (∀ job ∈ plan.canonicalInput, job.destinationRank = rank → ∀ view,
      destination rank job.destinationPatch = .ok view → ∀ index ∈ job.destinationRegion.cells,
      ∀ component, 0 ≤ component → component < plan.ncomp → view.address index component ≠ address) →
    after rank address = memory rank address

end RegionTransferPlan

namespace RegionTransport
variable {transport : RegionTransport d} {V : Type} [Inhabited V]
variable {canonical : List (RegionTransferJob d)} {rank : Index d}

theorem disjoint_canonical (mapped : transport.plan.canonicalInput.mapM transport.plan.sized = .ok canonical)
    (apart : transport.plan.DisjointDestinations) :
    canonical.Pairwise RegionTransferJob.Apart := by
  let key := fun job : RegionTransferJob d => (job.destinationRank, job.destinationPatch, job.destinationRegion)
  have keys : canonical.map key = transport.plan.canonicalInput.map key := by
    refine map_of_mapM_ok (fun input job ran => ?_) mapped
    obtain ⟨-, ⟨elements, rfl⟩, -⟩ := RegionTransferPlan.sized_ok ran
    rfl
  have transferred : (canonical.map key).Pairwise fun left right => left.1 = right.1 → left.2.1 = right.2.1 →
      Disjoint left.2.2.cells right.2.2.cells := by
    rw [keys, List.pairwise_map]
    exact apart
  rw [List.pairwise_map] at transferred
  exact transferred

theorem writeAt_unique (filed : transport.Filed canonical) (known : rank ∈ transport.plan.rankSpace.ranks)
    (mapped : transport.plan.canonicalInput.mapM transport.plan.sized = .ok canonical)
    (apart : transport.plan.DisjointDestinations) {source destination : Accessor d}
    (validated : transport.validate source destination rank = .ok ())
    (storage : SeparateStorage destination transport.plan.ncomp) {job other : RegionTransferJob d}
    (listed : job ∈ canonical) (otherListed : other ∈ canonical) (toHere : job.destinationRank = rank)
    (otherToHere : other.destinationRank = rank) {element otherElement : ℕ} (within : element < job.elements)
    (otherWithin : otherElement < other.elements)
    (same : writeAt destination job element = writeAt destination other otherElement) :
    job = other ∧ element = otherElement := by
  have sized := filed.sized job listed
  have otherSized := filed.sized other otherListed
  obtain ⟨view, found, covers⟩ := validate_destination filed known validated listed toHere
  obtain ⟨otherView, otherFound, otherCovers⟩ :=
    validate_destination filed known validated otherListed otherToHere
  simp only [writeAt, found, otherFound] at same
  have bounds := sized.component_bounds within
  have otherBounds := otherSized.component_bounds otherWithin
  have here := sized.destinationCell_mem element
  have there := otherSized.destinationCell_mem otherElement
  obtain ⟨patch, cell, component⟩ := storage _ _ view otherView found otherFound _ (covers.subset here) _
    (otherCovers.subset there) _ _ bounds.1 bounds.2 otherBounds.1 otherBounds.2 same
  have jobs : job = other := by
    by_contra different
    have disjoint := (disjoint_canonical mapped apart).forall listed otherListed different
      (toHere.trans otherToHere.symm) patch
    rw [← cell] at there
    exact Finset.disjoint_left.mp disjoint here there
  subst jobs
  exact ⟨rfl, sized.element_unique cell component⟩

theorem execute_simultaneous (apart : transport.plan.DisjointDestinations)
    (storage : ∀ rank, SeparateStorage (destination rank) transport.plan.ncomp) {memory after : Index d → ℤ → V}
    (ran : transport.execute environment source destination memory = .ok after) :
    transport.plan.SimultaneousCopy source destination memory after := by
  obtain ⟨canonical, mapped, filed⟩ := transport.exists_filed
  obtain ⟨exchanged, validated, published, elsewhere⟩ := execute_ok filed ran
  constructor
  · intro input inputListed sourceView destinationView sourceFound destinationFound index member component
      nonnegative below
    obtain ⟨job, listed, sizedInput⟩ := exists_of_mapM_ok mapped inputListed
    obtain ⟨sized, ⟨elements, rfl⟩, -, contained⟩ := RegionTransferPlan.sized_ok sizedInput
    have known := RankSpace.mem_ranks.mpr contained
    obtain ⟨element, within, cell, componentSame⟩ := sized.exists_element member nonnegative below
    have address : writeAt (destination input.destinationRank) { input with elements } element =
        destinationView.address index component := by
      simp only [writeAt, destinationFound, cell, componentSame]
    have value : readAt (source input.sourceRank) (memory input.sourceRank) { input with elements } element =
        memory input.sourceRank (sourceView.address
          (fun axis => index axis + (input.sourceRegion.lo axis - input.destinationRegion.lo axis)) component) := by
      simp only [readAt, sourceFound, componentSame]
      congr 2
      funext axis
      rw [sized.sourceCell_eq, cell]
    rw [published _ known, ← value, ← address]
    refine store_of_mem ((exchanged.mem_publication filed known).mpr
      ⟨_, listed, rfl, element, within, rfl⟩) fun write writeListed same => ?_
    obtain ⟨other, otherListed, toHere, otherElement, otherWithin, rfl⟩ :=
      (exchanged.mem_publication filed known).mp writeListed
    obtain ⟨rfl, rfl⟩ := writeAt_unique filed known mapped apart (validated _ known) (storage _)
      otherListed listed toHere rfl otherWithin within same
    rfl
  · intro rank address untouched
    by_cases known : rank ∈ transport.plan.rankSpace.ranks
    · rw [published rank known]
      refine store_of_not_mem fun write writeListed same => ?_
      obtain ⟨job, listed, toHere, element, within, rfl⟩ :=
        (exchanged.mem_publication filed known).mp writeListed
      have sized := filed.sized job listed
      obtain ⟨view, found, -⟩ := validate_destination filed known (validated rank known) listed toHere
      obtain ⟨input, inputListed, elements, rfl⟩ := filed.origin job listed
      have bounds := sized.component_bounds within
      refine untouched input inputListed toHere view found _ (sized.destinationCell_mem element) _
        bounds.1 bounds.2 ?_
      simpa only [writeAt, found] using same
    · rw [elsewhere rank known]

omit [Inhabited V] in
theorem lower_returns (sized : job.Sized transport.plan.ncomp)
    (bounded : (job.offset + job.elements : ℤ) ≤ int64Max) : ∃ lowered, transport.lower job = .ok lowered := by
  have cells := sized.cells_pos
  have positive := sized.positive
  have some : 0 < job.elements := by
    rw [sized.elements]
    exact Nat.mul_pos cells (by omega)
  have whole : job.elements % transport.plan.ncomp.toNat = 0 := by
    rw [sized.elements, Nat.mul_mod_left]
  unfold lower
  rw [throwIf_of_not (by omega)]
  exact ⟨_, rfl⟩

theorem packJobs_returns {source : Accessor d} {memory : ℤ → V}
    (each : ∀ job ∈ jobs, (∃ lowered, transport.lower job = .ok lowered) ∧ ∃ view, source job.sourcePatch = .ok view) :
    ∃ buffer, transport.packJobs source memory jobs = .ok buffer := by
  refine exists_foldlM_ok (fun buffer job listed => ?_) _
  obtain ⟨⟨lowered, ranLower⟩, view, found⟩ := each job listed
  unfold packJob
  rw [ranLower, ok_bind, found, ok_bind]
  exact ⟨_, rfl⟩

omit [Inhabited V] in
theorem unpackJobs_returns {destination : Accessor d}
    (each : ∀ job ∈ jobs, (∃ lowered, transport.lower job = .ok lowered) ∧ ∃ view, destination job.destinationPatch = .ok view)
    (memory : ℤ → V) :
    ∃ after, transport.unpackJobs destination jobs buffer memory = .ok after := by
  refine exists_foldlM_ok (fun current job listed => ?_) _
  obtain ⟨⟨lowered, ranLower⟩, view, found⟩ := each job listed
  unfold unpackJob
  rw [ranLower, ok_bind, found, ok_bind]
  exact ⟨_, rfl⟩

theorem lower_placed (filed : transport.Filed canonical) (within : ∀ job ∈ jobs, job ∈ canonical)
    (bounded : (total jobs : ℤ) ≤ int64Max) :
    ∀ job ∈ place 0 jobs, ∃ lowered, transport.lower job = .ok lowered := by
  intro job listed
  refine lower_returns (filed.sized_placed within job listed) ?_
  have bounds := (bounds_of_mem_place listed).2
  have : (job.offset + job.elements : ℤ) ≤ total jobs := by
    rw [zero_add] at bounds
    exact_mod_cast bounds
  omega

namespace Filed

theorem lower_local (filed : transport.Filed canonical) (known : rank ∈ transport.plan.rankSpace.ranks)
    (bounded : ((transport.classes rank).localElements : ℤ) ≤ int64Max) :
    ∀ job ∈ (transport.classes rank).localJobs, ∃ lowered, transport.lower job = .ok lowered := by
  have classified := filed.classified rank known
  rw [classified.copied] at bounded
  rw [classified.copies]
  exact lower_placed filed (fun job listed => List.mem_of_mem_filter listed) bounded

theorem lower_peer (filed : transport.Filed canonical) (known : rank ∈ transport.plan.rankSpace.ranks)
    (planned : peer ∈ (transport.classes rank).send ++ (transport.classes rank).receive) :
    ∀ job ∈ peer.jobs, ∃ lowered, transport.lower job = .ok lowered := by
  have bounded := filed.bounded rank known peer planned
  have classified := filed.classified rank known
  have small : (peer.elements : ℤ) ≤ int64Max := bounded.trans (by decide)
  rcases List.mem_append.mp planned with sent | received
  · rw [classified.sends.exact peer sent] at small ⊢
    exact lower_placed filed (fun job listed => (mem_jobsOf.mp listed).1) small
  · rw [classified.receives.exact peer received] at small ⊢
    exact lower_placed filed (fun job listed => (mem_jobsOf.mp listed).1) small

end Filed

theorem validate_ok {source destination : Accessor d}
    (validated : transport.validate source destination rank = .ok ()) :
    (∀ job ∈ (transport.classes rank).localJobs,
      (∃ view, source job.sourcePatch = .ok view) ∧ ∃ view, destination job.destinationPatch = .ok view) ∧
    (∀ peer ∈ (transport.classes rank).send, ∀ job ∈ peer.jobs, ∃ view, source job.sourcePatch = .ok view) ∧
    ∀ peer ∈ (transport.classes rank).receive, ∀ job ∈ peer.jobs,
      ∃ view, destination job.destinationPatch = .ok view := by
  simp only [validate, validateSources, validateDestinations, bind_ok, unit_exists, forM_ok] at validated
  obtain ⟨sources, destinations, sends, receives⟩ := validated
  refine ⟨fun job listed => ⟨?_, ?_⟩, fun peer planned job listed => ?_, fun peer planned job listed => ?_⟩
  · exact (sources job listed).imp fun _ found => found.1
  · exact (destinations job listed).imp fun _ found => found.1
  · exact (sends peer planned job listed).imp fun _ found => found.1
  · exact (receives peer planned job listed).imp fun _ found => found.1

end RegionTransport

/-- Every job has a view of its source and a view of its destination, on the
ranks it runs between. -/
def RegionTransferPlan.Bound (plan : RegionTransferPlan d) (source destination : Index d → Accessor d) : Prop :=
  ∀ job ∈ plan.canonicalInput,
    (∃ view, source job.sourceRank job.sourcePatch = .ok view ∧ view.Covers job.sourceRegion plan.ncomp) ∧
    ∃ view, destination job.destinationRank job.destinationPatch = .ok view ∧
      view.Covers job.destinationRegion plan.ncomp

namespace RegionTransport
variable {transport : RegionTransport d} {V : Type} [Inhabited V]
variable {canonical : List (RegionTransferJob d)} {rank : Index d}

omit [Inhabited V] in
theorem validate_returns (filed : transport.Filed canonical) (known : rank ∈ transport.plan.rankSpace.ranks)
    (bound : transport.plan.Bound source destination) :
    transport.validate (source rank) (destination rank) rank = .ok () := by
  have classified := filed.classified rank known
  have viewed {job placed : RegionTransferJob d} (listed : job ∈ canonical)
      (same : placed = StagedJob.placedAt job (StagedJob.offset placed)) :
      (∃ view, source placed.sourceRank placed.sourcePatch = .ok view ∧
        view.Covers placed.sourceRegion transport.plan.ncomp) ∧
      ∃ view, destination placed.destinationRank placed.destinationPatch = .ok view ∧
        view.Covers placed.destinationRegion transport.plan.ncomp := by
    obtain ⟨input, inputListed, elements, rfl⟩ := filed.origin job listed
    rw [same]
    exact bound input inputListed
  simp only [validate, validateSources, validateDestinations, bind_ok, unit_exists, forM_ok, throwIf_ok, not_not]
  refine ⟨fun placed member => ?_, fun placed member => ?_, fun peer planned placed member => ?_,
    fun peer planned placed member => ?_⟩
  · rw [classified.copies] at member
    obtain ⟨job, filtered, same⟩ := mem_place member
    obtain ⟨listed, copied⟩ := List.mem_filter.mp filtered
    have fromHere : placed.sourceRank = rank := by
      rw [same]
      exact (Route.between_copy.mp (of_decide_eq_true copied)).1
    rw [← fromHere]
    exact (viewed listed same).1
  · rw [classified.copies] at member
    obtain ⟨job, filtered, same⟩ := mem_place member
    obtain ⟨listed, copied⟩ := List.mem_filter.mp filtered
    have toHere : placed.destinationRank = rank := by
      rw [same]
      exact (Route.between_copy.mp (of_decide_eq_true copied)).2
    rw [← toHere]
    exact (viewed listed same).2
  · rw [classified.sends.exact peer planned] at member
    obtain ⟨job, filtered, same⟩ := mem_place member
    obtain ⟨listed, routed⟩ := mem_jobsOf.mp filtered
    have fromHere : placed.sourceRank = rank := by
      rw [same]
      exact (Route.between_send.mp routed).1
    rw [← fromHere]
    exact (viewed listed same).1
  · rw [classified.receives.exact peer planned] at member
    obtain ⟨job, filtered, same⟩ := mem_place member
    obtain ⟨listed, routed⟩ := mem_jobsOf.mp filtered
    have toHere : placed.destinationRank = rank := by
      rw [same]
      exact (Route.between_receive.mp routed).2.1
    rw [← toHere]
    exact (viewed listed same).2

theorem packRank_returns (filed : transport.Filed canonical) (known : rank ∈ transport.plan.rankSpace.ranks)
    {source destination : Accessor d} (validated : transport.validate source destination rank = .ok ())
    (bounded : ((transport.classes rank).localElements : ℤ) ≤ int64Max) (memory : ℤ → V) :
    ∃ packed, transport.packRank source memory rank = .ok packed := by
  obtain ⟨own, sends, -⟩ := validate_ok validated
  have ownPacked : ∃ buffer, transport.packJobs source memory (transport.classes rank).localJobs = .ok buffer :=
    packJobs_returns fun job listed => ⟨filed.lower_local known bounded job listed, (own job listed).1⟩
  have sendPacked (peer) (planned : peer ∈ (transport.classes rank).send) :
      ∃ buffer, transport.packJobs source memory peer.jobs = .ok buffer :=
    packJobs_returns fun job listed =>
      ⟨filed.lower_peer known (List.mem_append_left _ planned) job listed, sends peer planned job listed⟩
  obtain ⟨buffer, ranOwn⟩ := ownPacked
  obtain ⟨messages, ranSends⟩ : ∃ messages, (transport.classes rank).send.mapM
      (fun peer => do
        let buffer ← transport.packJobs source memory peer.jobs
        return (peer, buffer)) = .ok messages := by
    refine exists_mapM_ok fun peer planned => ?_
    obtain ⟨buffer, ran⟩ := sendPacked peer planned
    exact ⟨(peer, buffer), by rw [ran]; rfl⟩
  exact ⟨⟨buffer, messages⟩, by rw [packRank, ranOwn, ok_bind, ranSends]; rfl⟩

theorem receiveRank_returns (filed : transport.Filed canonical) (known : rank ∈ transport.plan.rankSpace.ranks)
    {source : Index d → Accessor d} {memory : Index d → ℤ → V} {packed : Index d → Packed d V}
    (packs : ∀ rank ∈ transport.plan.rankSpace.ranks,
      transport.packRank (source rank) (memory rank) rank = .ok (packed rank)) :
    ∃ messages, transport.receiveRank (fun peer => (packed peer).sends) rank = .ok messages := by
  refine exists_mapM_ok fun peer planned => ?_
  have peerKnown := filed.peer_known known planned
  have sent : ⟨rank, peer.jobs, peer.elements⟩ ∈ (transport.classes peer.peer).send :=
    (Classified.mirrored (filed.classified _ peerKnown) (filed.classified rank known) _ _).mpr planned
  obtain ⟨-, sends, complete⟩ := packRank_ok filed peerKnown (packs _ peerKnown)
  obtain ⟨message, listed, same⟩ := complete _ sent
  have present : ((packed peer.peer).sends.find? fun message => message.1.peer = rank).isSome := by
    rw [List.find?_isSome]
    exact ⟨message, listed, decide_eq_true (by rw [same])⟩
  obtain ⟨first, found⟩ := Option.isSome_iff_exists.mp present
  have firstPlanned := (sends first (List.mem_of_find?_eq_some found)).1
  have firstAddressed : first.1.peer = rank := by simpa using List.find?_some found
  have elements := (filed.message_jobs known planned firstPlanned firstAddressed).2
  refine ⟨(peer, first.2), ?_⟩
  unfold deliver
  rw [found]
  exact if_pos elements

omit [Inhabited V] in
theorem unpackRank_returns (filed : transport.Filed canonical) (known : rank ∈ transport.plan.rankSpace.ranks)
    {source destination : Accessor d} (validated : transport.validate source destination rank = .ok ())
    (bounded : ((transport.classes rank).localElements : ℤ) ≤ int64Max) {received : List (Filled d V)}
    (expected : ∀ message ∈ received, message.1 ∈ (transport.classes rank).receive) (own : ℕ → V)
    (memory : ℤ → V) : ∃ after, transport.unpackRank destination own received rank memory = .ok after := by
  obtain ⟨locals, -, receives⟩ := validate_ok validated
  have ownUnpacked : ∃ after,
      transport.unpackJobs destination (transport.classes rank).localJobs own memory = .ok after :=
    unpackJobs_returns (fun job listed =>
      ⟨filed.lower_local known bounded job listed, (locals job listed).2⟩) memory
  obtain ⟨copied, ranOwn⟩ := ownUnpacked
  unfold unpackRank
  rw [ranOwn, ok_bind]
  refine exists_foldlM_ok (fun current message listed => ?_) copied
  have planned := expected message listed
  exact unpackJobs_returns (fun job member =>
    ⟨filed.lower_peer known (List.mem_append_right _ planned) job member,
      receives message.1 planned job member⟩) current

theorem execute_returns (unsealed : transport.isSealed = false) (bound : transport.plan.Bound source destination)
    (small : (transport.plan.budget.localElements : ℤ) ≤ int64Max) (memory : Index d → ℤ → V) :
    ∃ after, transport.execute .healthy source destination memory = .ok after := by
  obtain ⟨canonical, mapped, filed⟩ := transport.exists_filed
  have valid (rank) (known : rank ∈ transport.plan.rankSpace.ranks) :
      transport.validate (source rank) (destination rank) rank = .ok () := validate_returns filed known bound
  have bounded (rank) (known : rank ∈ transport.plan.rankSpace.ranks) :
      ((transport.classes rank).localElements : ℤ) ≤ int64Max := by
    have := filed.copied rank known
    omega
  have packs (rank) (known : rank ∈ transport.plan.rankSpace.ranks) :
      transport.packRank (source rank) (memory rank) rank = .ok (transport.packed source memory rank) := by
    obtain ⟨result, ran⟩ := packRank_returns filed known (valid rank known) (bounded rank known) (memory rank)
    rw [packed, ran]
    rfl
  have receives (rank) (known : rank ∈ transport.plan.rankSpace.ranks) :
      transport.receiveRank (fun peer => (transport.packed source memory peer).sends) rank =
        .ok (transport.received (transport.packed source memory) rank) := by
    obtain ⟨messages, ran⟩ := receiveRank_returns filed known packs
    rw [received, ran]
    rfl
  have exchanged : transport.Exchanged source memory (transport.packed source memory)
      (transport.received (transport.packed source memory)) := ⟨packs, receives⟩
  have exchange : transport.exchange .healthy
      (fun rank => (transport.packed source memory rank).sends) = .ok () := by
    unfold RegionTransport.exchange
    split
    · simp only [exchangeRemote, bind_ok, require_ok, unit_exists, gate_iff]
      exact ⟨fun _ _ => rfl, fun _ _ => rfl, fun rank known => by rw [receives rank known]; rfl,
        fun _ _ => rfl⟩
    · rfl
  have publishes (rank) (known : rank ∈ transport.plan.rankSpace.ranks) :
      ∃ after, transport.unpackRank (destination rank) (transport.packed source memory rank).own
        (transport.received (transport.packed source memory) rank) rank (memory rank) = .ok after :=
    unpackRank_returns filed known (valid rank known) (bounded rank known) (exchanged.expected known) _ _
  simp only [execute, bind_ok, require_ok, unit_exists, pure_ok, gate_iff]
  refine ⟨_, by rw [unsealed]; rfl, fun rank known => by rw [valid rank known]; rfl,
    fun rank known => by rw [packs rank known]; rfl, exchange, fun rank known => ?_, rfl⟩
  obtain ⟨after, ran⟩ := publishes rank known
  rw [ran]
  rfl

end RegionTransport

/-- A prepared transport copies simultaneously. The plans of any two ranks
mirror each other; with disjoint destinations every run that publishes gives
each destination cell what its source cell held before, and when nothing fails
a run publishes. -/
theorem RegionTransferPlan.transport_is_simultaneous {plan : RegionTransferPlan d}
    {transport : RegionTransport d} (prepared : plan.prepareCollectively = .ok transport) :
    (∀ self ∈ plan.rankSpace.ranks, ∀ peer ∈ plan.rankSpace.ranks, ∀ jobs elements,
      ⟨peer, jobs, elements⟩ ∈ (transport.classes self).send ↔
        ⟨self, jobs, elements⟩ ∈ (transport.classes peer).receive) ∧
    ∀ (V : Type) [Inhabited V] (source destination : Index d → Accessor d), plan.DisjointDestinations →
      (∀ rank, SeparateStorage (destination rank) plan.ncomp) →
      (∀ environment (memory after : Index d → ℤ → V),
        transport.execute environment source destination memory = .ok after →
          plan.SimultaneousCopy source destination memory after) ∧
      (plan.Bound source destination → (plan.budget.localElements : ℤ) ≤ int64Max →
        ∀ memory : Index d → ℤ → V, ∃ after,
          transport.execute .healthy source destination memory = .ok after) := by
  obtain ⟨rfl, unsealed⟩ := prepareCollectively_ok prepared
  constructor
  · intro self selfKnown peer peerKnown jobs elements
    obtain ⟨canonical, -, filed⟩ := transport.exists_filed
    exact Classified.mirrored (filed.classified self selfKnown) (filed.classified peer peerKnown) jobs elements
  · intro V _ source destination apart storage
    constructor
    · intro environment memory after ran
      exact RegionTransport.execute_simultaneous apart storage ran
    · intro bound small memory
      exact RegionTransport.execute_returns unsealed bound small memory

/-! A line of five cells on the first of two ranks and a line of two on the
second: the first shifts its own cells by one, and the two exchange cells that
are overwritten in the same run. -/

private theorem line_originFits : ∀ axis : Fin 1, FitsInt ((fun _ => 0 : Index 1) axis) := by decide

private theorem line_checked :
    ∀ axis, RankSpace.checkAxis (fun _ => 0 : Index 1) (fun _ => 2) axis = .ok () := fun _ => rfl

def linePair : RankSpace 1 := ⟨fun _ => 0, fun _ => 2, line_originFits, line_checked⟩

def lineCells (lower upper : ℤ) : Box 1 := ⟨fun _ => lower, fun _ => upper⟩

private theorem lineCells_fits {lower upper : ℤ} (low : FitsInt lower) (high : FitsInt upper) :
    (lineCells lower upper).Fits := fun _ => ⟨low, high⟩

private theorem fits_small {value : ℤ} (low : 0 ≤ value) (high : value ≤ 9) : FitsInt value := by
  unfold FitsInt intMin intMax
  omega

/-- A job between two lines, over the length of its source. -/
def lineJob (sourceRank source first count destinationRank destination start : ℕ) (small : first + count ≤ 9)
    (smallToo : start + count ≤ 9) : RegionTransferJob 1 where
  sourcePatch := source
  destinationPatch := destination
  sourceRank _ := sourceRank
  destinationRank _ := destinationRank
  sourceRegion := lineCells first (first + count)
  destinationRegion := lineCells start (start + count)
  sourceFits := lineCells_fits (fits_small (by omega) (by omega)) (fits_small (by omega) (by omega))
  destinationFits := lineCells_fits (fits_small (by omega) (by omega)) (fits_small (by omega) (by omega))

private theorem one_fits_int : FitsInt 1 := fits_small (by omega) (by omega)

def linePlan : RegionTransferPlan 1 where
  rankSpace := linePair
  ncomp := 1
  ncompFits := one_fits_int
  canonicalInput := [
    lineJob 0 0 0 1 0 0 1 (by omega) (by omega),
    lineJob 0 0 2 0 1 1 0 (by omega) (by omega),
    lineJob 1 1 0 1 0 0 3 (by omega) (by omega)]
  budget := ⟨3, 1, 4, 4, 4⟩

/-- The lines: five cells of patch 0, two of patch 1. -/
def lineView (patch : ℕ) : Checked (FieldView 1) :=
  if patch < 2 then .ok ⟨800 * (patch + 1), fun _ => 0, line_originFits, fun _ => 5 - 3 * patch, fun _ => 1, 1, 8⟩
  else .error (.outOfRange "line")

private theorem lines_separate (rank : Index 1) : SeparateStorage ((fun _ => lineView : Index 1 → Accessor 1) rank) 1 := by
  intro patch other view otherView found otherFound index member otherIndex otherMember component otherComponent
    low high otherLow otherHigh same
  simp only [lineView] at found otherFound
  split at found <;> [skip; cases found]
  split at otherFound <;> [skip; cases otherFound]
  cases found
  cases otherFound
  have bounds := Box.mem_cells.mp member 0
  have otherBounds := Box.mem_cells.mp otherMember 0
  simp only [FieldView.window, FieldView.address, FieldView.offset, Finset.univ_unique, Fin.default_eq_zero,
    Finset.sum_singleton, sizeofReal] at bounds otherBounds same
  refine ⟨by omega, funext fun axis => ?_, by omega⟩
  rw [Subsingleton.elim axis 0]
  omega

private theorem linePlan_apart : linePlan.DisjointDestinations := by
  have ranks : (fun _ => 0 : Index 1) ≠ fun _ => 1 := fun same => absurd (congrFun same 0) (by decide)
  simp only [RegionTransferPlan.DisjointDestinations, linePlan, List.pairwise_cons, List.mem_cons,
    List.not_mem_nil, or_false, forall_eq_or_imp, forall_eq, RegionTransferJob.Apart, lineJob, Nat.cast_zero,
    Nat.cast_one]
  refine ⟨⟨fun same => absurd same ranks, fun _ _ => ?_⟩, fun same => absurd same.symm ranks, by simp⟩
  refine Finset.disjoint_left.mpr fun index here there => ?_
  have first := Box.mem_cells.mp here 0
  have second := Box.mem_cells.mp there 0
  simp only [lineCells] at first second
  omega

private theorem linePlan_bound : linePlan.Bound (fun _ => lineView) fun _ => lineView := by
  simp only [RegionTransferPlan.Bound, linePlan, List.mem_cons, List.not_mem_nil, or_false, forall_eq_or_imp,
    forall_eq]
  refine ⟨⟨⟨_, rfl, ?_⟩, _, rfl, ?_⟩, ⟨⟨_, rfl, ?_⟩, _, rfl, ?_⟩, ⟨_, rfl, ?_⟩, _, rfl, ?_⟩ <;> decide

/-- The transport of the lines runs, and the last cells of the first line end
with the values the second line had at the start. -/
theorem linePlan_simultaneous : ∃ transport after, linePlan.prepareCollectively = .ok transport ∧
    transport.execute .healthy (fun _ => lineView) (fun _ => lineView) (fun rank address => (rank 0, address)) =
      .ok after ∧
    linePlan.SimultaneousCopy (fun _ => lineView) (fun _ => lineView) (fun rank address => (rank 0, address))
      after := by
  obtain ⟨transport, prepared⟩ : ∃ transport, linePlan.prepareCollectively = .ok transport :=
    exists_of_isOk (by decide +kernel)
  obtain ⟨-, runs⟩ := RegionTransferPlan.transport_is_simultaneous prepared
  obtain ⟨copies, returns⟩ := runs (ℤ × ℤ) (fun _ => lineView) (fun _ => lineView) linePlan_apart lines_separate
  obtain ⟨after, ran⟩ := returns linePlan_bound (by decide) fun rank address => (rank 0, address)
  exact ⟨transport, after, prepared, ran, copies _ _ _ ran⟩

end Pops
