import Pops.BoxTraversal
import Pops.Collective
import Pops.FieldView
import Pops.Staging

/-!
`mesh/parallel/region_transfer.hpp`: the transport of mesh regions between
ranks. Every rank holds the same canonical jobs, so the plan is one value and
the rank is an argument; the memories of the ranks are functions of addresses.
What can go wrong outside the modelled code is a parameter of a run.
-/
namespace Pops
open MixedRadix PeerPlans Staging

variable {d : ℕ}

structure RegionTransferBudget where
  canonicalJobs : ℕ
  peerPlans : ℕ
  localElements : ℕ
  sendElements : ℕ
  receiveElements : ℕ
  deriving DecidableEq

/-- `RegionTransferJob`; the corners of its regions are `int` values. -/
structure RegionTransferJob (d : ℕ) where
  sourcePatch : ℕ
  destinationPatch : ℕ
  sourceRank : Index d
  destinationRank : Index d
  sourceRegion : Box d
  destinationRegion : Box d
  sourceFits : sourceRegion.Fits
  destinationFits : destinationRegion.Fits
  offset : ℕ := 0
  elements : ℕ := 0

private theorem RegionTransferJob.eq_iff {job other : RegionTransferJob d} :
    (job.sourcePatch = other.sourcePatch ∧ job.destinationPatch = other.destinationPatch ∧
      job.sourceRank = other.sourceRank ∧ job.destinationRank = other.destinationRank ∧
      job.sourceRegion = other.sourceRegion ∧ job.destinationRegion = other.destinationRegion ∧
      job.offset = other.offset ∧ job.elements = other.elements) ↔ job = other := by
  cases job
  cases other
  simp

instance : DecidableEq (RegionTransferJob d) := fun _ _ => decidable_of_iff _ RegionTransferJob.eq_iff

instance : StagedJob (RegionTransferJob d) where
  elements job := job.elements
  offset job := job.offset
  placedAt job start := { job with offset := start }
  elements_placedAt _ _ := rfl
  offset_placedAt _ _ := rfl

def RegionTransferJob.checkedElements (job : RegionTransferJob d) (ncomp : ℤ) : Checked ℕ := do
  throwIf (job.sourceRegion.Empty ∨ job.destinationRegion.Empty ∨
      (∃ axis, job.sourceRegion.length axis ≠ job.destinationRegion.length axis) ∨ ncomp < 1)
    (.invalidArgument "region transfer requires non-empty equal-rank source/destination regions")
  let cells ← job.sourceRegion.numPts
  throwIf (cells ≤ 0 ∨ cells.toNat > sizeMax / ncomp.toNat)
    (.overflowError "region transfer payload exceeds size_t")
  return cells.toNat * ncomp.toNat

/-- `RegionTransferPlan`, as all ranks hold it. -/
structure RegionTransferPlan (d : ℕ) where
  rankSpace : RankSpace d
  ncomp : ℤ
  ncompFits : FitsInt ncomp
  canonicalInput : List (RegionTransferJob d)
  budget : RegionTransferBudget

namespace RegionTransferPlan

def hasRemoteJobs (plan : RegionTransferPlan d) : Bool :=
  plan.canonicalInput.any fun job => job.sourceRank ≠ job.destinationRank

/-- The limits `classify_` applies. -/
def limits (plan : RegionTransferPlan d) : TransferLimits where
  peerPlans := plan.budget.peerPlans
  localElements := plan.budget.localElements
  sendElements := plan.budget.sendElements
  receiveElements := plan.budget.receiveElements

/-- The texts of the exceptions of `classify_`. -/
def messages : TransferMessages where
  peerPlans := "region transfer peer-plan budget exceeded"
  localElements := "region transfer local-element budget exceeded"
  peerSend := "region transfer peer send budget exceeded"
  sendElements := "region transfer send-element budget exceeded"
  peerReceive := "region transfer peer receive budget exceeded"
  receiveElements := "region transfer receive-element budget exceeded"

/-- The checks of one job, which also count its elements. -/
def sized (plan : RegionTransferPlan d) (job : RegionTransferJob d) : Checked (RegionTransferJob d) := do
  throwIf (¬ plan.rankSpace.Contains job.sourceRank ∨ ¬ plan.rankSpace.Contains job.destinationRank)
    (.invalidArgument "region transfer job rank is outside its rank space")
  let elements ← job.checkedElements plan.ncomp
  return { job with elements }

/-- One turn of the loop of `classify_`: the canonical jobs and their classes. -/
def classifyJob (plan : RegionTransferPlan d) (localRank : Index d)
    (prepared : List (RegionTransferJob d) × Classification (Index d) (RegionTransferJob d))
    (input : RegionTransferJob d) :
    Checked (List (RegionTransferJob d) × Classification (Index d) (RegionTransferJob d)) := do
  let job ← plan.sized input
  let classes ← PeerPlans.classify plan.limits messages prepared.2
    (.between job.sourceRank job.destinationRank localRank) job
  return (prepared.1 ++ [job], classes)

def classify (plan : RegionTransferPlan d) (localRank : Index d) :
    Checked (List (RegionTransferJob d) × Classification (Index d) (RegionTransferJob d)) := do
  throwIf (¬ plan.rankSpace.Contains localRank ∨ plan.ncomp < 1)
    (.invalidArgument "region transfer rank space or components are invalid")
  throwIf (plan.canonicalInput.length > plan.budget.canonicalJobs)
    (.lengthError "region transfer canonical-job budget exceeded")
  let (canonical, classes) ← plan.canonicalInput.foldlM (plan.classifyJob localRank) ([], {})
  return (canonical, { classes with
    send := sortPlans plan.rankSpace.order classes.send
    receive := sortPlans plan.rankSpace.order classes.receive })

/-- The checks of `prepare_storage_`. -/
def prepareStorage (plan : RegionTransferPlan d) (classes : Classification (Index d) (RegionTransferJob d)) :
    Checked Unit := do
  throwIf (∃ peer ∈ classes.send ++ classes.receive,
      (plan.rankSpace.order peer.peer : ℤ) > intMax ∨ (peer.elements : ℤ) > intMax)
    (.overflowError "region transfer peer payload exceeds MPI int range")
  throwIf (¬ (classes.send.map (·.peer)).Nodup ∨ ¬ (classes.receive.map (·.peer)).Nodup)
    (.logicError "region transfer has a duplicate peer plan")

/-- What a rank prepares for itself. -/
def prepareRank (plan : RegionTransferPlan d) (localRank : Index d) :
    Checked (Classification (Index d) (RegionTransferJob d)) := do
  let (_, classes) ← plan.classify localRank
  plan.prepareStorage classes
  return classes

end RegionTransferPlan

/-- A transport all ranks have prepared. -/
structure RegionTransport (d : ℕ) where
  plan : RegionTransferPlan d
  occupied : plan.rankSpace.size ≠ 0
  classes : Index d → Classification (Index d) (RegionTransferJob d)
  prepared : ∀ rank ∈ plan.rankSpace.ranks, plan.prepareRank rank = .ok (classes rank)
  isSealed : Bool

/-- `prepare_collectively`, on a lane that has one rank per process of the plan. -/
def RegionTransferPlan.prepareCollectively (plan : RegionTransferPlan d) : Checked (RegionTransport d) :=
  if occupied : plan.rankSpace.size ≠ 0 ∧ (plan.rankSpace.size : ℤ) ≤ intMax then do
    throwIf (∃ job ∈ plan.canonicalInput, (job.checkedElements plan.ncomp).isOk = false)
      (.runtimeError "region transfer contract serialization failed collectively")
    if ready : ∀ rank ∈ plan.rankSpace.ranks, (plan.prepareRank rank).isOk = true then
      return {
        plan
        occupied := occupied.1
        classes := fun rank => (plan.prepareRank rank).toOption.getD {}
        prepared := fun rank known => by
          obtain ⟨classes, ran⟩ := exists_of_isOk (ready rank known)
          rw [ran]
          rfl
        isSealed := false }
    else .error (.runtimeError
      "region transfer classification or storage preparation failed collectively")
  else .error (.invalidArgument "region transfer requires its exact owning duplicated ExecutionLane")

/-- A source or destination accessor: the view of a patch, or an exception. -/
abbrev Accessor (d : ℕ) := ℕ → Checked (FieldView d)

/-- `detail::contains`. -/
def FieldView.Covers (view : FieldView d) (region : Box d) (ncomp : ℤ) : Prop :=
  view.data ≠ 0 ∧ view.ncomp = ncomp ∧ ∀ axis, 0 < view.extents axis ∧
    view.origin axis ≤ region.lo axis ∧ region.hi axis ≤ view.origin axis + view.extents axis - 1

instance (view : FieldView d) (region : Box d) (ncomp : ℤ) : Decidable (view.Covers region ncomp) :=
  inferInstanceAs (Decidable (_ ∧ _))

structure KernelJob (d : ℕ) where
  sourceLower : Index d
  destinationLower : Index d
  extent : Fin d → ℕ
  cells : ℕ
  offset : ℕ
  elements : ℕ

namespace KernelJob

/-- The cell a kernel visits at an element, from a lower corner on. -/
def index (job : KernelJob d) (lower : Index d) (element : ℕ) : Index d := fun axis =>
  castInt (lower axis + (decode job.extent (List.finRange d) (element % job.cells) fun _ => 0).1 axis)

/-- The component a kernel visits at an element. -/
def component (job : KernelJob d) (element : ℕ) : ℤ := castInt ((element / job.cells : ℕ) : ℤ)

end KernelJob

namespace RegionTransport
variable {V : Type}

def lower (transport : RegionTransport d) (job : RegionTransferJob d) : Checked (KernelJob d) := do
  throwIf (job.elements = 0 ∨ (job.elements : ℤ) > int64Max ∨ (job.offset : ℤ) > int64Max ∨
      (job.elements : ℤ) > int64Max - job.offset ∨ job.elements % transport.plan.ncomp.toNat ≠ 0)
    (.overflowError "region transfer job exceeds execution range")
  return {
    sourceLower := job.sourceRegion.lo
    destinationLower := job.destinationRegion.lo
    extent := job.sourceRegion.counts
    cells := job.elements / transport.plan.ncomp.toNat
    offset := job.offset
    elements := job.elements }

/-- `validate_jobs_`, for the sources. -/
def validateSources (transport : RegionTransport d) (source : Accessor d) (jobs : List (RegionTransferJob d)) :
    Checked Unit :=
  jobs.forM fun job => do
    let view ← source job.sourcePatch
    throwIf (¬ view.Covers job.sourceRegion transport.plan.ncomp)
      (.invalidArgument "region transfer source view is stale or incomplete")

/-- `validate_jobs_`, for the destinations. -/
def validateDestinations (transport : RegionTransport d) (destination : Accessor d)
    (jobs : List (RegionTransferJob d)) : Checked Unit :=
  jobs.forM fun job => do
    let view ← destination job.destinationPatch
    throwIf (¬ view.Covers job.destinationRegion transport.plan.ncomp)
      (.invalidArgument "region transfer destination view is stale or incomplete")

/-- The validation of a rank. -/
def validate (transport : RegionTransport d) (source destination : Accessor d) (rank : Index d) :
    Checked Unit := do
  let classes := transport.classes rank
  transport.validateSources source classes.localJobs
  transport.validateDestinations destination classes.localJobs
  classes.send.forM fun peer => transport.validateSources source peer.jobs
  classes.receive.forM fun peer => transport.validateDestinations destination peer.jobs

/-- `PackKernel`, for one job. -/
def packJob (transport : RegionTransport d) (source : Accessor d) (memory : ℤ → V) (buffer : ℕ → V)
    (job : RegionTransferJob d) : Checked (ℕ → V) := do
  let lowered ← transport.lower job
  let view ← source job.sourcePatch
  return store buffer ((List.range lowered.elements).map fun element =>
    (lowered.offset + element,
      memory (view.address (lowered.index lowered.sourceLower element) (lowered.component element))))

/-- `UnpackKernel`, for one job. -/
def unpackJob (transport : RegionTransport d) (destination : Accessor d) (buffer : ℕ → V) (memory : ℤ → V)
    (job : RegionTransferJob d) : Checked (ℤ → V) := do
  let lowered ← transport.lower job
  let view ← destination job.destinationPatch
  return store memory ((List.range lowered.elements).map fun element =>
    (view.address (lowered.index lowered.destinationLower element) (lowered.component element),
      buffer (lowered.offset + element)))

/-- A plan of a peer with the contents of its buffer. -/
abbrev Filled (d : ℕ) (V : Type) := PeerPlan (Index d) (RegionTransferJob d) × (ℕ → V)

/-- The packed buffers of a rank: its own and one per peer it sends to. -/
structure Packed (d : ℕ) (V : Type) where
  own : ℕ → V
  sends : List (Filled d V)

variable [Inhabited V]

/-- `pack_jobs_`, into a buffer as it was allocated. -/
def packJobs (transport : RegionTransport d) (source : Accessor d) (memory : ℤ → V)
    (jobs : List (RegionTransferJob d)) : Checked (ℕ → V) :=
  jobs.foldlM (transport.packJob source memory) fun _ => default

def unpackJobs (transport : RegionTransport d) (destination : Accessor d)
    (jobs : List (RegionTransferJob d)) (buffer : ℕ → V) (memory : ℤ → V) : Checked (ℤ → V) :=
  jobs.foldlM (transport.unpackJob destination buffer) memory

/-- The packing of a rank: every source is read before anything is written. -/
def packRank (transport : RegionTransport d) (source : Accessor d) (memory : ℤ → V) (rank : Index d) :
    Checked (Packed d V) := do
  let own ← transport.packJobs source memory (transport.classes rank).localJobs
  let sends ← (transport.classes rank).send.mapM fun peer => do
    let buffer ← transport.packJobs source memory peer.jobs
    return (peer, buffer)
  return ⟨own, sends⟩

/-- The message a receive from a peer completes with: the one this peer sent
here, if it has the expected count. -/
def deliver (sent : List (Filled d V)) (rank : Index d) (peer : PeerPlan (Index d) (RegionTransferJob d)) :
    Checked (Filled d V) :=
  match sent.find? fun message => message.1.peer = rank with
  | some message =>
    if message.1.elements = peer.elements then .ok (peer, message.2)
    else .error (.runtimeError "MPI_ERR_OTHER")
  | none => .error (.runtimeError "MPI_ERR_OTHER")

/-- What a rank has received after `exchange_remote_`. -/
def receiveRank (transport : RegionTransport d) (sent : Index d → List (Filled d V)) (rank : Index d) :
    Checked (List (Filled d V)) :=
  (transport.classes rank).receive.mapM fun peer => deliver (sent peer.peer) rank peer

/-- The publication of a rank: its own jobs, then those of each peer. -/
def unpackRank (transport : RegionTransport d) (destination : Accessor d) (own : ℕ → V)
    (received : List (Filled d V)) (rank : Index d) (memory : ℤ → V) : Checked (ℤ → V) := do
  let copied ← transport.unpackJobs destination (transport.classes rank).localJobs own memory
  received.foldlM (fun current message =>
    transport.unpackJobs destination message.1.jobs message.2 current) copied

/-- How a run ends that does not publish: every rank throws, or a rank calls
`std::terminate`. -/
inductive TransportFailure where
  | rejected (exception : Exception) (isSealed : Bool)
  | terminated
  deriving DecidableEq

/-- What fails on a rank outside the modelled code: a device operation while
packing, staging or publishing, an MPI call, or the drain after one. -/
structure Environment (d : ℕ) where
  packing : Index d → Bool
  receivePosting : Index d → Bool
  sendPosting : Index d → Bool
  waiting : Index d → Bool
  staging : Index d → Bool
  draining : Index d → Bool
  publication : Index d → Bool

/-- An environment in which nothing fails. -/
def Environment.healthy : Environment d :=
  ⟨fun _ => false, fun _ => false, fun _ => false, fun _ => false, fun _ => false, fun _ => false, fun _ => false⟩

/-- Go on only when every rank passed its phase. -/
def require (passed : Bool) (failure : TransportFailure) : Except TransportFailure Unit :=
  if passed then .ok () else .error failure

/-- `coordinated_failure_after_consensus_`. -/
def coordinatedFailure (transport : RegionTransport d) (environment : Environment d) (message : String) :
    TransportFailure :=
  if gate transport.plan.rankSpace.ranks environment.draining then .rejected (.runtimeError message) true
  else .terminated

def exchangeRemote (transport : RegionTransport d) (environment : Environment d)
    (sent : Index d → List (Filled d V)) : Except TransportFailure Unit := do
  let ranks := transport.plan.rankSpace.ranks
  require (gate ranks environment.receivePosting) (transport.coordinatedFailure environment
    "region transfer receive posting failed collectively")
  require (gate ranks environment.sendPosting) (transport.coordinatedFailure environment
    "region transfer send posting failed collectively")
  require (gate ranks fun rank => !(transport.receiveRank sent rank).isOk || environment.waiting rank)
    (transport.coordinatedFailure environment
      "region transfer receive authentication or MPI wait failed collectively")
  require (gate ranks environment.staging) (.rejected (.runtimeError
    "region transfer receive staging failed collectively after a safe drain") true)

/-- The exchange of a run; without remote jobs there is none. -/
def exchange (transport : RegionTransport d) (environment : Environment d)
    (sent : Index d → List (Filled d V)) : Except TransportFailure Unit :=
  if transport.plan.hasRemoteJobs then transport.exchangeRemote environment sent else .ok ()

/-- The buffers of every rank after packing. -/
def packed (transport : RegionTransport d) (source : Index d → Accessor d) (memory : Index d → ℤ → V)
    (rank : Index d) : Packed d V :=
  (transport.packRank (source rank) (memory rank) rank).toOption.getD ⟨fun _ => default, []⟩

/-- The messages of every rank after the exchange. -/
def received (transport : RegionTransport d) (buffers : Index d → Packed d V) (rank : Index d) :
    List (Filled d V) :=
  (transport.receiveRank (fun peer => (buffers peer).sends) rank).toOption.getD []

/-- `execute`, on all ranks: the memories after publication. -/
def execute (transport : RegionTransport d) (environment : Environment d)
    (source destination : Index d → Accessor d) (memory : Index d → ℤ → V) :
    Except TransportFailure (Index d → ℤ → V) := do
  let ranks := transport.plan.rankSpace.ranks
  require (!transport.isSealed) (.rejected (.runtimeError
    "region transfer is sealed after a collective failure") true)
  require (gate ranks fun rank => !(transport.validate (source rank) (destination rank) rank).isOk)
    (.rejected (.invalidArgument
      "region transfer source/destination binding failed collectively") false)
  require (gate ranks fun rank => !(transport.packRank (source rank) (memory rank) rank).isOk ||
      environment.packing rank)
    (.rejected (.runtimeError "region transfer packing failed collectively") false)
  let buffers := transport.packed source memory
  transport.exchange environment fun rank => (buffers rank).sends
  let published := fun rank => transport.unpackRank (destination rank) (buffers rank).own
    (transport.received buffers rank) rank (memory rank)
  require (gate ranks fun rank => !(published rank).isOk || environment.publication rank) .terminated
  return fun rank => if rank ∈ ranks then (published rank).toOption.getD (memory rank) else memory rank

end RegionTransport

end Pops
