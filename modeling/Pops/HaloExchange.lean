import Pops.BoxTraversal
import Pops.FieldView
import Pops.HaloSchedule
import Pops.Rounds
import Pops.Staging

/-!
`mesh/boundary/halo_exchange.hpp`: the reusable begin/complete transport of a
halo schedule. A rank is named by its number in the communicator of its lane.
Every phase ends in a reduction that returns the same value on all ranks; what
can fail outside the modelled code is a parameter of a call.
-/
namespace Pops
open MixedRadix PeerPlans Staging Rounds

variable {d : ℕ} {V : Type}

/-- An `ExecutionLane`, as an exchange uses it. Its rank and size are those of the
communicator. -/
structure HaloLane where
  handle : ℕ
  identity : Bytes
  active : Bool
  ownsCommunicator : Bool
  tagUpperBound : Option ℤ

def haloMessageTag : ℤ := 0

/-- `HaloExchangeContext`, with its private failure seams. -/
structure HaloExchangeContext where
  contextGeneration : ℕ := 0
  scheduleGeneration : ℕ := 0
  tag : ℤ := haloMessageTag
  failAllocationRank : ℤ := -1
  failReceivePostRank : ℤ := -1
  failSendPostRank : ℤ := -1
  failWaitRank : ℤ := -1
  failStagingRank : ℤ := -1
  failPublicationRank : ℤ := -1
  failDrainRank : ℤ := -1

inductive HaloExchangeDiagnosticStage where
  | none
  | binding
  | packing
  | receivePost
  | sendPost
  | wait
  | staging
  | publication
  deriving DecidableEq

/-- A `MultiFab` of one rank: its identity, what it was allocated for, and the
views of its local patches by global patch. -/
structure HaloFields (d : ℕ) where
  handle : ℕ
  layout : BoxArray d
  distribution : Distribution d
  localRank : Index d
  ghosts : Extent d
  ncomp : ℤ
  view : ℕ → FieldView d

namespace HaloFields

/-- The global patches of the local fabs, in order. -/
def localBoxes (fields : HaloFields d) : List ℕ :=
  (List.range fields.layout.boxes.length).filter fun box => fields.distribution.IsLocal box fields.localRank

/-- `fab_global(box).view()`. -/
def fabGlobal (fields : HaloFields d) (box : ℕ) : Checked (FieldView d) :=
  if box ∈ fields.localBoxes then .ok (fields.view box)
  else .error (.outOfRange "MultiFab global patch is not local")

/-- `bind_storage_`: the pointers of the local fabs. -/
def storage (fields : HaloFields d) : List ℕ := fields.localBoxes.map fun box => (fields.view box).data

end HaloFields

def HaloSchedule.authenticate (schedule : HaloSchedule d) (fields : HaloFields d) : Checked Unit :=
  throwIf (fields.layout ≠ schedule.layout ∨ fields.distribution ≠ schedule.distribution ∨
      fields.localRank ≠ schedule.localRank ∨ fields.ghosts ≠ schedule.ghosts ∨ fields.ncomp ≠ schedule.ncomp)
    (.invalidArgument "pops::HaloSchedule does not match the destination MultiFab")

/-- A `Kokkos::View` used for staging. -/
structure StagingBuffer (V : Type) where
  extent : ℕ
  values : ℕ → V

/-- One direction of a `PeerStorage`. -/
structure HaloPeer (d : ℕ) (V : Type) where
  mpiRank : ℕ
  plan : PeerPlan (Index d) (HaloJob d)
  device : StagingBuffer V
  host : StagingBuffer V

/-- `HaloExchange` on one rank. The request lists hold the ranks of the requests
that are not null. -/
structure HaloExchange (d : ℕ) (V : Type) where
  schedule : HaloSchedule d
  lane : HaloLane
  context : HaloExchangeContext
  sends : List (HaloPeer d V)
  receives : List (HaloPeer d V)
  localBuffer : StagingBuffer V
  activeStorage : List ℕ := []
  activeFields : Option ℕ := none
  inFlight : Bool := false
  isSealed : Bool := false
  diagnosticStage : HaloExchangeDiagnosticStage := .none
  receiveRequests : List ℕ := []
  sendRequests : List ℕ := []

/-- `HaloExchange::KernelJob`. -/
structure HaloKernelJob (d : ℕ) where
  destinationLower : Index d
  destinationExtent : Fin d → ℕ
  sourceTranslation : Index d
  cellsPerComponent : ℕ
  offset : ℕ
  elements : ℕ

namespace HaloKernelJob

/-- The coordinate of an element, before a kernel casts it. -/
def coordinate (job : HaloKernelJob d) (element : ℕ) : Index d := fun axis =>
  job.destinationLower axis +
    (decode job.destinationExtent (List.finRange d) (element % job.cellsPerComponent) fun _ => 0).1 axis

/-- The cell `UnpackKernel` writes. -/
def destinationIndex (job : HaloKernelJob d) (element : ℕ) : Index d := fun axis =>
  castInt (job.coordinate element axis)

/-- The cell `PackKernel` reads. -/
def sourceIndex (job : HaloKernelJob d) (element : ℕ) : Index d := fun axis =>
  castInt (job.coordinate element axis + job.sourceTranslation axis)

/-- The component of an element. -/
def component (job : HaloKernelJob d) (element : ℕ) : ℤ := castInt ((element / job.cellsPerComponent : ℕ) : ℤ)

end HaloKernelJob

namespace HaloSchedule

def lowerJob (schedule : HaloSchedule d) (job : HaloJob d) : Checked (HaloKernelJob d) := do
  throwIf (job.elements = 0 ∨ (job.elements : ℤ) > int64Max ∨ (job.offset : ℤ) > int64Max ∨
      (job.elements : ℤ) > int64Max - job.offset ∨ job.elements % schedule.ncomp.toNat ≠ 0)
    (.overflowError "pops::HaloExchange job exceeds execution range")
  throwIf (∃ axis, job.destinationRegion.length axis ≤ 0)
    (.invalidArgument "pops::HaloExchange job region must be non-empty")
  return {
    destinationLower := job.destinationRegion.lo
    destinationExtent := job.destinationRegion.counts
    sourceTranslation := job.sourceFromDestination
    cellsPerComponent := job.elements / schedule.ncomp.toNat
    offset := job.offset
    elements := job.elements }

/-- `PackKernel`, for one job. -/
def packJob (schedule : HaloSchedule d) (fields : HaloFields d) (memory : ℤ → V) (buffer : ℕ → V)
    (job : HaloJob d) : Checked (ℕ → V) := do
  let source ← fields.fabGlobal job.sourceBox
  let lowered ← schedule.lowerJob job
  return store buffer ((List.range lowered.elements).map fun element =>
    (lowered.offset + element, memory (source.address (lowered.sourceIndex element) (lowered.component element))))

def packJobs (schedule : HaloSchedule d) (fields : HaloFields d) (memory : ℤ → V) (jobs : List (HaloJob d))
    (elements : ℕ) (buffer : StagingBuffer V) : Checked (StagingBuffer V) := do
  throwIf (buffer.extent ≠ elements)
    (.invalidArgument "pops::HaloExchange pack buffer does not match its job plan")
  let values ← jobs.foldlM (schedule.packJob fields memory) buffer.values
  return { buffer with values }

/-- `UnpackKernel`, for one job. -/
def unpackJob (schedule : HaloSchedule d) (fields : HaloFields d) (buffer : ℕ → V) (memory : ℤ → V)
    (job : HaloJob d) : Checked (ℤ → V) := do
  let destination ← fields.fabGlobal job.destinationBox
  let lowered ← schedule.lowerJob job
  return store memory ((List.range lowered.elements).map fun element =>
    (destination.address (lowered.destinationIndex element) (lowered.component element),
      buffer (lowered.offset + element)))

def unpackJobs (schedule : HaloSchedule d) (fields : HaloFields d) (jobs : List (HaloJob d)) (elements : ℕ)
    (buffer : StagingBuffer V) (memory : ℤ → V) : Checked (ℤ → V) := do
  throwIf (buffer.extent ≠ elements)
    (.invalidArgument "pops::HaloExchange unpack buffer does not match its job plan")
  jobs.foldlM (schedule.unpackJob fields buffer.values) memory

/-- The packing of the local jobs, when there are any. -/
def packLocal (schedule : HaloSchedule d) (fields : HaloFields d) (memory : ℤ → V) (buffer : StagingBuffer V) :
    Checked (StagingBuffer V) :=
  let classes := schedule.classes
  if classes.localElements = 0 then .ok buffer
  else schedule.packJobs fields memory classes.localJobs classes.localElements buffer

/-- The publication of the local jobs, when there are any. -/
def unpackLocal (schedule : HaloSchedule d) (fields : HaloFields d) (buffer : StagingBuffer V) (memory : ℤ → V) :
    Checked (ℤ → V) :=
  let classes := schedule.classes
  if classes.localElements = 0 then .ok memory
  else schedule.unpackJobs fields classes.localJobs classes.localElements buffer memory

end HaloSchedule

/-- The values whose bytes `canonical_contract_` writes. -/
structure HaloContract (d : ℕ) where
  identity : Bytes
  contextGeneration : ℕ
  scheduleGeneration : ℕ
  tag : ℤ
  boxes : List (Box d)
  mode : DistributionMode
  origin : Index d
  extent : Extent d
  boxCount : ℕ
  owners : List (Index d)
  domain : Box d
  coverage : HaloLayoutCoverage
  faces : List BoundaryFaceKind
  ghosts : Extent d
  ncomp : ℤ
  jobs : List (ℕ × ℕ × Box d × Index d × ℕ)
  deriving DecidableEq

namespace HaloExchange

/-- `canonical_contract_`. The stored owners of a replicated layout are none. -/
def canonicalContract (schedule : HaloSchedule d) (lane : HaloLane) (context : HaloExchangeContext) :
    HaloContract d where
  identity := lane.identity
  contextGeneration := context.contextGeneration
  scheduleGeneration := context.scheduleGeneration
  tag := context.tag
  boxes := schedule.layout.boxes
  mode := schedule.distribution.mode
  origin := schedule.distribution.rankSpace.origin
  extent := schedule.distribution.rankSpace.extent
  boxCount := schedule.distribution.layout.boxes.length
  owners := schedule.distribution.owners
  domain := schedule.domain
  coverage := schedule.coverage
  faces := (List.finRange d).flatMap fun axis =>
    [schedule.topology.kind ⟨axis, .lower⟩, schedule.topology.kind ⟨axis, .upper⟩]
  ghosts := schedule.ghosts
  ncomp := schedule.ncomp
  jobs := schedule.canonicalJobs.map fun job =>
    (job.sourceBox, job.destinationBox, job.destinationRegion, job.sourceFromDestination, job.elements)

/-- A failure seam names this rank. -/
def injected (seam : ℤ) (rank : ℕ) : Bool := seam = rank

/-- What fails on a rank outside the modelled code: an allocation, a device
operation, an MPI call by the rank of the peer it is for, or a drain. -/
structure Faults where
  serialization : ℕ → Bool
  allocation : ℕ → Bool
  packing : ℕ → Bool
  receivePosting : ℕ → ℕ → Bool
  sendPosting : ℕ → ℕ → Bool
  waiting : ℕ → Bool
  staging : ℕ → Bool
  publication : ℕ → Bool
  draining : ℕ → Bool

/-- An environment in which nothing fails. -/
def Faults.none : Faults :=
  ⟨fun _ => false, fun _ => false, fun _ => false, fun _ _ => false, fun _ _ => false, fun _ => false,
    fun _ => false, fun _ => false, fun _ => false⟩

/-- The first check of the constructor. -/
def BindingInvalid (size rank : ℕ) (schedule : HaloSchedule d) (lane : HaloLane)
    (context : HaloExchangeContext) : Prop :=
  lane.active = false ∨ lane.ownsCommunicator = false ∨ lane.identity.isEmpty ∨ context.contextGeneration = 0 ∨
    context.scheduleGeneration = 0 ∨ context.tag ≠ haloMessageTag ∨
    (schedule.distribution.rankSpace.size : ℤ) > intMax ∨ size ≠ schedule.distribution.rankSpace.size ∨
    schedule.distribution.rankSpace.linearRank schedule.localRank ≠ .ok rank ∨
    ¬ lane.tagUpperBound.any (context.tag ≤ ·)

instance (size rank : ℕ) (schedule : HaloSchedule d) (lane : HaloLane) (context : HaloExchangeContext) :
    Decidable (BindingInvalid size rank schedule lane context) := inferInstanceAs (Decidable (_ ∨ _))

variable [Inhabited V]

/-- A buffer as it is allocated. -/
def allocate (extent : ℕ) : StagingBuffer V := ⟨extent, fun _ => default⟩

/-- `add` of `initialize_peers_`, with the buffers of `allocate_peer_storage_`. -/
def addPeer (schedule : HaloSchedule d) (plan : PeerPlan (Index d) (HaloJob d)) : Checked (HaloPeer d V) := do
  let linear ← schedule.distribution.rankSpace.linearRank plan.peer
  throwIf ((linear : ℤ) > intMax ∨ (plan.elements : ℤ) > intMax)
    (.overflowError "pops::HaloExchange peer payload exceeds MPI int range")
  return ⟨linear, plan, allocate plan.elements, allocate plan.elements⟩

/-- `std::sort` of the peers by their rank. -/
def sortPeers (peers : List (HaloPeer d V)) : List (HaloPeer d V) :=
  peers.mergeSort fun left right => left.mpiRank ≤ right.mpiRank

/-- `initialize_peers_` and `allocate_peer_storage_`. -/
def prepareStorage (schedule : HaloSchedule d) (lane : HaloLane) (context : HaloExchangeContext) :
    Checked (HaloExchange d V) := do
  throwIf ((schedule.classes.send.length + schedule.classes.receive.length : ℤ) > intMax)
    (.lengthError "pops::HaloExchange request capacity is invalid")
  let sends ← schedule.classes.send.mapM (addPeer schedule)
  throwIf (¬ (sends.map (·.mpiRank)).Nodup) (.logicError "pops::HaloExchange duplicate peer plan")
  let receives ← schedule.classes.receive.mapM (addPeer schedule)
  throwIf (¬ (receives.map (·.mpiRank)).Nodup) (.logicError "pops::HaloExchange duplicate peer plan")
  return {
    schedule, lane, context
    sends := sortPeers sends
    receives := sortPeers receives
    localBuffer := allocate schedule.classes.localElements }

/-- `validate_and_prepare_collectively_`, on the ranks of a communicator. -/
def construct (size : ℕ) (faults : Faults) (schedules : ℕ → HaloSchedule d) (lanes : ℕ → HaloLane)
    (contexts : ℕ → HaloExchangeContext) : Checked (ℕ → HaloExchange d V) := do
  throwIf (∃ rank ∈ List.range size, BindingInvalid size rank (schedules rank) (lanes rank) (contexts rank))
    (.invalidArgument "pops::HaloExchange lane or schedule binding is invalid")
  throwIf (∃ rank ∈ List.range size, faults.serialization rank = true)
    (.runtimeError "pops::HaloExchange canonical contract serialization failed collectively")
  throwIf (∃ rank ∈ List.range size, canonicalContract (schedules rank) (lanes rank) (contexts rank) ≠
      canonicalContract (schedules 0) (lanes 0) (contexts 0))
    (.invalidArgument "pops::HaloExchange canonical schedule contract differs between ranks")
  let prepared (rank : ℕ) : Checked (HaloExchange d V) :=
    prepareStorage (schedules rank) (lanes rank) (contexts rank)
  throwIf (∃ rank ∈ List.range size, (prepared rank).isOk = false ∨
      injected (contexts rank).failAllocationRank rank = true ∨ faults.allocation rank = true)
    (.runtimeError "pops::HaloExchange reusable staging preparation failed collectively")
  return fun rank => (prepared rank).toOption.getD
    ⟨schedules rank, lanes rank, contexts rank, [], [], allocate 0, [], none, false, false, .none, [], []⟩

/-- The arguments of a call on one rank. -/
structure Call (d : ℕ) where
  fields : HaloFields d
  lane : HaloLane

/-- An exchange with the memory its rank addresses. -/
structure Rank (d : ℕ) (V : Type) where
  exchange : HaloExchange d V
  memory : ℤ → V

/-- How a call ends on a rank that does not return. -/
inductive Outcome where
  | threw (exception : Exception)
  | terminated
  deriving DecidableEq

omit [Inhabited V]

/-- `seal_`. -/
def sealAt (stage : HaloExchangeDiagnosticStage) (exchange : HaloExchange d V) : HaloExchange d V :=
  if exchange.isSealed then exchange else { exchange with isSealed := true, diagnosticStage := stage }

def liveRequestCount (exchange : HaloExchange d V) : ℕ :=
  exchange.receiveRequests.length + exchange.sendRequests.length

/-- The lane of a call is not the bound one, or it is not usable. -/
def LaneInvalid (exchange : HaloExchange d V) (call : Call d) : Prop :=
  call.lane.handle ≠ exchange.lane.handle ∨ call.lane.active = false ∨ call.lane.ownsCommunicator = false

instance (exchange : HaloExchange d V) (call : Call d) : Decidable (exchange.LaneInvalid call) :=
  inferInstanceAs (Decidable (_ ∨ _))

/-- `invalid_state` of `begin`. -/
def BeginInvalid (exchange : HaloExchange d V) (call : Call d) : Prop :=
  exchange.isSealed = true ∨ exchange.inFlight = true ∨ exchange.activeFields ≠ none ∨
    exchange.liveRequestCount ≠ 0 ∨ exchange.LaneInvalid call

instance (exchange : HaloExchange d V) (call : Call d) : Decidable (exchange.BeginInvalid call) :=
  inferInstanceAs (Decidable (_ ∨ _))

def StorageMatches (exchange : HaloExchange d V) (fields : HaloFields d) : Prop :=
  exchange.schedule.authenticate fields = .ok () ∧ fields.storage = exchange.activeStorage

instance (exchange : HaloExchange d V) (fields : HaloFields d) : Decidable (exchange.StorageMatches fields) :=
  inferInstanceAs (Decidable (_ ∧ _))

/-- `invalid_binding` of `complete`. -/
def CompleteInvalid (exchange : HaloExchange d V) (call : Call d) : Prop :=
  exchange.isSealed = true ∨ exchange.inFlight = false ∨ exchange.activeFields ≠ some call.fields.handle ∨
    exchange.LaneInvalid call ∨ ¬ exchange.StorageMatches call.fields

instance (exchange : HaloExchange d V) (call : Call d) : Decidable (exchange.CompleteInvalid call) :=
  inferInstanceAs (Decidable (_ ∨ _))

/-- Validation and packing of a rank: authenticate, bind, pack, copy to the host. -/
def packRank (exchange : HaloExchange d V) (fields : HaloFields d) (memory : ℤ → V) :
    Checked (HaloExchange d V) := do
  exchange.schedule.authenticate fields
  let localBuffer ← exchange.schedule.packLocal fields memory exchange.localBuffer
  let sends ← exchange.sends.mapM fun peer => do
    let device ← exchange.schedule.packJobs fields memory peer.plan.jobs peer.plan.elements peer.device
    return { peer with device, host := device }
  return { exchange with activeStorage := fields.storage, localBuffer, sends }

/-- Posting a receive fails. -/
def receivePostFails (faults : Faults) (exchange : HaloExchange d V) (rank : ℕ) (peer : HaloPeer d V) : Bool :=
  injected exchange.context.failReceivePostRank rank || faults.receivePosting rank peer.mpiRank

/-- Posting a send fails. -/
def sendPostFails (faults : Faults) (exchange : HaloExchange d V) (rank : ℕ) (peer : HaloPeer d V) : Bool :=
  injected exchange.context.failSendPostRank rank || faults.sendPosting rank peer.mpiRank

/-- The requests of the posts before the first that fails. -/
def posted (fails : HaloPeer d V → Bool) (peers : List (HaloPeer d V)) : List ℕ :=
  (peers.takeWhile fun peer => !fails peer).map (·.mpiRank)

/-- The drain of a rank is not proven. -/
def drainFails (faults : Faults) (exchange : HaloExchange d V) (rank : ℕ) : Bool :=
  faults.draining rank || injected exchange.context.failDrainRank rank

def drainReceives (failed : Bool) (exchange : HaloExchange d V) : HaloExchange d V × Bool :=
  if failed then (exchange, false)
  else ({ exchange with receiveRequests := [] }, exchange.sendRequests.isEmpty)

/-- `drain_after_send_failure_` and `drain_after_wait_failure_`. -/
def drainAll (failed : Bool) (exchange : HaloExchange d V) : HaloExchange d V × Bool :=
  if failed then (exchange, false) else drainReceives failed { exchange with sendRequests := [] }

def resetInFlight (exchange : HaloExchange d V) : HaloExchange d V :=
  { exchange with inFlight := false, activeFields := none, activeStorage := [] }

/-- `active_storage_.clear()`. -/
def clearStorage (exchange : HaloExchange d V) : HaloExchange d V := { exchange with activeStorage := [] }

/-- `require_proven_drain_`, then the rest of a rejected phase. -/
def requireProvenDrain (drained : HaloExchange d V × Bool) (after : HaloExchange d V → HaloExchange d V)
    (memory : ℤ → V) (exception : Exception) : Rank d V × Outcome :=
  if drained.2 then (⟨after drained.1, memory⟩, .threw exception) else (⟨drained.1, memory⟩, .terminated)

/-- The message a receive completes with: the one its peer sent here, if it has
the expected count. All tags are `haloMessageTag`. -/
def deliver (ranks : ℕ → Rank d V) (rank : ℕ) (peer : HaloPeer d V) : Checked (HaloPeer d V) :=
  match (ranks peer.mpiRank).exchange.sends.find? fun message => message.mpiRank = rank with
  | some message =>
    if message.plan.elements = peer.plan.elements then .ok { peer with host := message.host }
    else .error (.runtimeError "MPI_ERR_OTHER")
  | none => .error (.runtimeError "MPI_ERR_OTHER")

/-- `wait_receives_authenticated_`. -/
def waitReceives (ranks : ℕ → Rank d V) (rank : ℕ) : Checked (List (HaloPeer d V)) := do
  let exchange := (ranks rank).exchange
  if exchange.receiveRequests.isEmpty then return exchange.receives
  else do
    let receives ← exchange.receives.mapM (deliver ranks rank)
    throwIf (receives.length ≠ exchange.receiveRequests.length) (.runtimeError "MPI_ERR_OTHER")
    return receives

/-- The publication of a rank: the receives, then its own jobs. -/
def publishRank (exchange : HaloExchange d V) (fields : HaloFields d) (memory : ℤ → V) : Checked (ℤ → V) := do
  let received ← exchange.receives.foldlM (fun current peer =>
    exchange.schedule.unpackJobs fields peer.plan.jobs peer.plan.elements peer.device current) memory
  exchange.schedule.unpackLocal fields exchange.localBuffer received

section Phases
variable (faults : Faults) (calls : ℕ → Call d)

/-- The binding phase of `begin`. -/
def beginBinding : Phase ℕ (Rank d V) Outcome where
  act ranks rank := ranks rank
  fails ranks rank := (ranks rank).exchange.BeginInvalid (calls rank)
  reject _ state := (⟨state.exchange.sealAt .binding, state.memory⟩,
    .threw (.runtimeError "pops::HaloExchange begin binding is invalid collectively"))

/-- The packing phase. -/
def packing : Phase ℕ (Rank d V) Outcome where
  act ranks rank := ⟨((ranks rank).exchange.packRank (calls rank).fields (ranks rank).memory).toOption.getD
    (ranks rank).exchange, (ranks rank).memory⟩
  fails ranks rank :=
    !((ranks rank).exchange.packRank (calls rank).fields (ranks rank).memory).isOk || faults.packing rank
  reject _ state := (⟨(state.exchange.sealAt .packing).clearStorage, state.memory⟩,
    .threw (.runtimeError "pops::HaloExchange validation, packing, or host staging failed collectively"))

/-- The phase that posts the receives. -/
def receivePost : Phase ℕ (Rank d V) Outcome where
  act ranks rank :=
    let exchange := (ranks rank).exchange
    ⟨{ exchange with receiveRequests := posted (exchange.receivePostFails faults rank) exchange.receives },
      (ranks rank).memory⟩
  fails ranks rank :=
    (ranks rank).exchange.receives.any ((ranks rank).exchange.receivePostFails faults rank)
  reject rank state :=
    requireProvenDrain (drainReceives (state.exchange.drainFails faults rank) (state.exchange.sealAt .receivePost))
      clearStorage state.memory (.runtimeError "pops::HaloExchange receive posting failed collectively")

/-- The phase that posts the sends. -/
def sendPost : Phase ℕ (Rank d V) Outcome where
  act ranks rank :=
    let exchange := (ranks rank).exchange
    ⟨{ exchange with sendRequests := posted (exchange.sendPostFails faults rank) exchange.sends },
      (ranks rank).memory⟩
  fails ranks rank := (ranks rank).exchange.sends.any ((ranks rank).exchange.sendPostFails faults rank)
  reject rank state :=
    requireProvenDrain (drainAll (state.exchange.drainFails faults rank) (state.exchange.sealAt .sendPost))
      clearStorage state.memory (.runtimeError "pops::HaloExchange send posting failed collectively")

/-- The binding phase of `complete`. -/
def completeBinding : Phase ℕ (Rank d V) Outcome where
  act ranks rank := ranks rank
  fails ranks rank := (ranks rank).exchange.CompleteInvalid (calls rank)
  reject rank state :=
    requireProvenDrain (drainAll (state.exchange.drainFails faults rank) (state.exchange.sealAt .binding))
      resetInFlight state.memory (.runtimeError "pops::HaloExchange complete binding is invalid collectively")

/-- The phase that waits for the transfers. -/
def waiting : Phase ℕ (Rank d V) Outcome where
  act ranks rank :=
    let exchange := (ranks rank).exchange
    if faults.waiting rank then ranks rank
    else ⟨{ exchange with
      receives := (waitReceives ranks rank).toOption.getD exchange.receives
      receiveRequests := [], sendRequests := [] }, (ranks rank).memory⟩
  fails ranks rank := faults.waiting rank || !(waitReceives ranks rank).isOk ||
    injected (ranks rank).exchange.context.failWaitRank rank
  reject rank state :=
    requireProvenDrain (drainAll (state.exchange.drainFails faults rank) (state.exchange.sealAt .wait))
      resetInFlight state.memory
      (.runtimeError "pops::HaloExchange receive authentication or MPI_Waitall failed collectively")

/-- The phase that stages the received buffers. -/
def staging : Phase ℕ (Rank d V) Outcome where
  act ranks rank :=
    let exchange := (ranks rank).exchange
    ⟨{ exchange with receives := exchange.receives.map fun peer => { peer with device := peer.host } },
      (ranks rank).memory⟩
  fails ranks rank := faults.staging rank || injected (ranks rank).exchange.context.failStagingRank rank
  reject _ state := (⟨(state.exchange.sealAt .staging).resetInFlight, state.memory⟩,
    .threw (.runtimeError "pops::HaloExchange receive staging failed collectively"))

/-- The publication, which no rank survives that fails it. -/
def publication : Phase ℕ (Rank d V) Outcome where
  act ranks rank := ⟨(ranks rank).exchange,
    ((ranks rank).exchange.publishRank (calls rank).fields (ranks rank).memory).toOption.getD (ranks rank).memory⟩
  fails ranks rank :=
    !((ranks rank).exchange.publishRank (calls rank).fields (ranks rank).memory).isOk ||
      faults.publication rank || injected (ranks rank).exchange.context.failPublicationRank rank
  reject _ state := (⟨state.exchange.sealAt .publication, state.memory⟩, .terminated)

/-- `begin`, on all ranks. -/
def beginOn (size : ℕ) (ranks : ℕ → Rank d V) : Except (ℕ → Rank d V × Outcome) (ℕ → Rank d V) := do
  let sent ← run (List.range size) [beginBinding calls, packing faults calls, receivePost faults, sendPost faults] ranks
  return fun rank => { sent rank with
    exchange := { (sent rank).exchange with activeFields := some (calls rank).fields.handle, inFlight := true } }

/-- The phases of `complete` before the publication. -/
def receiveOn (size : ℕ) (ranks : ℕ → Rank d V) : Except (ℕ → Rank d V × Outcome) (ℕ → Rank d V) :=
  run (List.range size) [completeBinding faults calls, waiting faults, staging faults] ranks

/-- `complete`, on all ranks. -/
def completeOn (size : ℕ) (ranks : ℕ → Rank d V) : Except (ℕ → Rank d V × Outcome) (ℕ → Rank d V) := do
  let staged ← receiveOn faults calls size ranks
  let published ← (publication faults calls).run (List.range size) staged
  return fun rank => { published rank with exchange := (published rank).exchange.resetInFlight }

end Phases

end HaloExchange

end Pops
