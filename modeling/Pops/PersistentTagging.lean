import Pops.Box
import Pops.ByteCodec
import Pops.OrderedMap

/-!
`runtime/amr/persistent_tagging_state.hpp`: the hysteresis of AMR tagging, its
checkpoint image, and the request that `prepare_cluster_shards` of
`runtime/amr/amr_system.cpp` makes for a cell whose refinement should change.
Copies of a state share storage in the source and detach before they change, so
a state is a value here.
-/
namespace Pops.PersistentTagging

variable {d : ℕ}

inductive Decision where
  | refine
  | coarsen
  deriving DecidableEq

/-- The underlying value of a decision. -/
def Decision.value : Decision → ℕ
  | refine => 1
  | coarsen => 2

@[ext]
structure CellKey (d : ℕ) where
  parentLevel : ℤ
  cell : Index d

/-- The axis loop of `operator<`. -/
def lessAxes (left right : Index d) : List (Fin d) → Bool
  | [] => false
  | axis :: inner => if left axis ≠ right axis then left axis < right axis else lessAxes left right inner

/-- `operator<`: the highest axis is the outermost. -/
def CellKey.less (left right : CellKey d) : Bool :=
  if left.parentLevel ≠ right.parentLevel then left.parentLevel < right.parentLevel
  else lessAxes left.cell right.cell (List.finRange d).reverse

structure Entry where
  decisionCycle : ℕ
  decision : Decision
  deriving DecidableEq

structure PersistentTaggingState (d : ℕ) where
  cycle : ℕ := 0
  entries : List (CellKey d × Entry) := []

/-! ### Cycles and requests -/

def requireMinCycles (minCycles : ℤ) : Checked Unit :=
  throwIf (minCycles < 0) (.invalidArgument "AMR tagging hysteresis min_cycles must be non-negative")

/-- The difference of two `std::uint64_t`. -/
def uint64Sub (left right : ℕ) : ℕ := (left + 18446744073709551616 - right) % 18446744073709551616

namespace PersistentTaggingState

def beginCycle (state : PersistentTaggingState d) (minCycles : ℤ) : Checked (PersistentTaggingState d) := do
  requireMinCycles minCycles
  if minCycles = 0 then return {}
  else do
    throwIf (state.cycle = sizeMax) (.overflowError "AMR tagging hysteresis cycle overflow")
    let cycle := state.cycle + 1
    return ⟨cycle, state.entries.filter fun entry => uint64Sub cycle entry.2.decisionCycle < minCycles.toNat⟩

def transitionAllowed (state : PersistentTaggingState d) (key : CellKey d) (minCycles : ℤ) : Checked Bool := do
  requireMinCycles minCycles
  if minCycles = 0 then return true
  else
    return match OrderedMap.find CellKey.less key state.entries with
      | none => true
      | some entry => uint64Sub state.cycle entry.decisionCycle ≥ minCycles.toNat

def record (state : PersistentTaggingState d) (key : CellKey d) (decision : Decision) (minCycles : ℤ) :
    Checked (PersistentTaggingState d) := do
  requireMinCycles minCycles
  if minCycles = 0 then return state
  else do
    throwIf (key.parentLevel < 0)
      (.invalidArgument "AMR tagging hysteresis parent level must be non-negative")
    return { state with
      entries := OrderedMap.update CellKey.less key (fun _ => ⟨state.cycle, decision⟩) state.entries }

/-- The transition of a cell in `prepare_cluster_shards`: recorded if it is allowed. -/
def request (state : PersistentTaggingState d) (key : CellKey d) (decision : Decision) (minCycles : ℤ) :
    Checked (PersistentTaggingState d) := do
  let allowed ← state.transitionAllowed key minCycles
  if allowed then state.record key decision minCycles else return state

/-! ### The checkpoint image -/

/-- `max_size()` of a vector of bytes. -/
def maximumBytes : ℕ := 9223372036854775807

def appendSigned (value : ℤ) : Bytes := littleEndian 4 (value % 4294967296).toNat

def magic : Bytes := ascii "POPSHYS2"

/-- One record of the image. -/
def writeRecord (record : CellKey d × Entry) : Bytes :=
  [appendSigned record.1.parentLevel, (List.ofFn fun axis => appendSigned (record.1.cell axis)).flatten,
    littleEndian 8 record.2.decisionCycle, littleEndian 1 record.2.decision.value].flatten

/-- The image of records, in the order given. -/
def image (minCycles : ℤ) (providerIdentity : Bytes) (cycle : ℕ) (records : List (CellKey d × Entry)) : Bytes :=
  [magic, littleEndian 4 d, littleEndian 4 minCycles.toNat, littleEndian 8 cycle,
    littleEndian 8 providerIdentity.length, providerIdentity, littleEndian 8 records.length,
    records.flatMap writeRecord].flatten

/-- `encode`; a vector of bytes past its maximal size throws. -/
def encode (state : PersistentTaggingState d) (minCycles : ℤ) (providerIdentity : Bytes) : Checked Bytes := do
  requireMinCycles minCycles
  if minCycles = 0 then do
    throwIf (state.entries ≠ [] ∨ state.cycle ≠ 0)
      (.logicError "disabled AMR tagging hysteresis retained persistent state")
    return []
  else do
    throwIf (providerIdentity = []) (.invalidArgument "AMR tagging hysteresis has no provider identity")
    let result := image minCycles providerIdentity state.cycle state.entries
    throwIf (result.length > maximumBytes) (.lengthError "vector::_M_range_insert")
    return result

/-- The exception of a payload that ends early. -/
def truncated : Exception := .invalidArgument "AMR checkpoint tagging hysteresis payload is truncated"

def readUnsigned (size : ℕ) : Reader ℕ := do
  let bytes ← Reader.take size truncated
  return fromLittleEndian bytes

def readSigned : Reader ℤ := do
  let value ← readUnsigned 4
  return castInt value

/-- What a record of the image must satisfy. -/
def RecordValid (minCycles : ℤ) (parentDomains : List (Box d)) (cycle : ℕ) (key : CellKey d) (decisionCycle raw : ℕ) :
    Prop :=
  0 ≤ key.parentLevel ∧ (∃ domain ∈ parentDomains[key.parentLevel.toNat]?, domain.Contains key.cell) ∧
    decisionCycle ≤ cycle ∧ uint64Sub cycle decisionCycle < minCycles.toNat ∧
    (raw = Decision.refine.value ∨ raw = Decision.coarsen.value)

instance (minCycles : ℤ) (parentDomains : List (Box d)) (cycle : ℕ) (key : CellKey d) (decisionCycle raw : ℕ) :
    Decidable (RecordValid minCycles parentDomains cycle key decisionCycle raw) :=
  inferInstanceAs (Decidable (_ ∧ _))

/-- One record. -/
def readRecord (minCycles : ℤ) (parentDomains : List (Box d)) (cycle : ℕ) : Reader (CellKey d × Entry) := do
  let parentLevel ← readSigned
  let cell ← readSigned.axes d
  let decisionCycle ← readUnsigned 8
  let raw ← Reader.take 1 (.invalidArgument "AMR checkpoint tagging hysteresis decision is truncated")
  let value := fromLittleEndian raw
  Reader.lift (throwIf (¬RecordValid minCycles parentDomains cycle ⟨parentLevel, cell⟩ decisionCycle value)
    (.invalidArgument "AMR checkpoint tagging hysteresis record is invalid"))
  return (⟨parentLevel, cell⟩, ⟨decisionCycle, if value = Decision.refine.value then .refine else .coarsen⟩)

/-- The record loop of `decode`: an entry is added unless its key is there already. -/
def readRecords (minCycles : ℤ) (parentDomains : List (Box d)) (cycle : ℕ) :
    ℕ → List (CellKey d × Entry) → Reader (List (CellKey d × Entry))
  | 0, entries => pure entries
  | count + 1, entries => do
    let (key, entry) ← readRecord minCycles parentDomains cycle
    Reader.lift (throwIf (OrderedMap.find CellKey.less key entries ≠ none)
      (.invalidArgument "AMR checkpoint tagging hysteresis has duplicate cell state"))
    readRecords minCycles parentDomains cycle count (OrderedMap.update CellKey.less key (fun _ => entry) entries)

def recordSize (d : ℕ) : ℕ := 4 * (1 + d) + 8 + 1

/-- The image `decode` reads. -/
def readState (minCycles : ℤ) (providerIdentity : Bytes) (parentDomains : List (Box d)) :
    Reader (PersistentTaggingState d) := do
  let unsupported : Exception := .invalidArgument "AMR checkpoint has an unsupported tagging hysteresis schema"
  Reader.expect magic unsupported unsupported
  let encodedDimension ← readUnsigned 4
  let encodedMinCycles ← readUnsigned 4
  let cycle ← readUnsigned 8
  let identitySize ← readUnsigned 8
  let encodedIdentity ← Reader.take identitySize
    (.invalidArgument "AMR checkpoint tagging provider identity is truncated")
  Reader.lift (throwIf (encodedDimension ≠ d ∨ encodedMinCycles ≠ minCycles.toNat ∨ encodedIdentity ≠ providerIdentity)
    (.invalidArgument "AMR checkpoint tagging hysteresis does not match the bound predicate graph"))
  let count ← readUnsigned 8
  let left ← Reader.left
  Reader.lift (throwIf (count > left.length / recordSize d)
    (.invalidArgument "AMR checkpoint tagging hysteresis record count is invalid"))
  let entries ← readRecords minCycles parentDomains cycle count []
  return ⟨cycle, entries⟩

def decode (payload : Bytes) (minCycles : ℤ) (providerIdentity : Bytes) (parentDomains : List (Box d)) :
    Checked (PersistentTaggingState d) := do
  requireMinCycles minCycles
  if minCycles = 0 then do
    throwIf (payload ≠ [])
      (.invalidArgument "AMR checkpoint carries hysteresis state for a graph with min_cycles=0")
    return {}
  else do
    throwIf (providerIdentity = [] ∨ parentDomains = [])
      (.invalidArgument "AMR tagging hysteresis restore lacks bound graph topology")
    let (state, rest) ← (readState minCycles providerIdentity parentDomains).run payload
    throwIf (rest ≠ []) (.invalidArgument "AMR checkpoint tagging hysteresis has trailing bytes")
    return state

end PersistentTaggingState

end Pops.PersistentTagging
