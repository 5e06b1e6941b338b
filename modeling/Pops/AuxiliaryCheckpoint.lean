import Pops.CheckpointWire
import Pops.Clock

/-!
`runtime/system/auxiliary_checkpoint.hpp`, and the records of
`runtime/system/derived_aux_provider.hpp` that its image holds: the accepted
state of the auxiliary providers, its validation, and its bytes both ways.
-/
namespace Pops.AuxiliaryCheckpoint

open Checkpoint (u64 i64 real string container maxElements)

variable {d : ℕ} {T α : Type}

/-- `append_contract_unsigned`. -/
def appendUnsigned (count value : ℕ) : Bytes := (littleEndian count value).reverse

/-- `append_contract_frame`. -/
def frame (kind : String) (payload : Bytes) : Bytes :=
  [ascii kind, appendUnsigned 8 payload.length, payload].flatten

/-- `text`. -/
def contractText (value : Bytes) : Bytes := frame "t" value

/-- `scalar` of a `std::uint32_t`. -/
def contractUnsigned (value : ℕ) : Bytes := frame "s" [ascii "u", [byteOf 4], appendUnsigned 4 value].flatten

/-- `scalar` of an `int`. -/
def contractInt (value : ℤ) : Bytes :=
  frame "s" [ascii "i", [byteOf 4], appendUnsigned 4 (value % 4294967296).toNat].flatten

inductive AuxiliaryProviderKind where
  | input
  | derived
  | fieldOutput
  deriving DecidableEq

inductive AuxiliaryEvaluationEvent where
  | initialization
  | beforeResidual
  | beforeFieldSolve
  | nonlinearIteration
  | afterRegrid
  | output
  deriving DecidableEq

structure AuxiliaryComponentKey where
  ownerQid : Bytes
  spaceKind : Bytes
  spaceName : Bytes
  component : Bytes
  deriving DecidableEq

def AuxiliaryComponentKey.validate (key : AuxiliaryComponentKey) : Checked Unit :=
  throwIf (key.ownerQid = [] ∨ key.spaceKind = [] ∨ key.spaceName = [] ∨ key.component = [])
    (.invalidArgument "auxiliary component key requires non-empty owner/space kind/space name/component")

def AuxiliaryComponentKey.exactKey (key : AuxiliaryComponentKey) : Checked Bytes := do
  key.validate
  return [contractText (ascii "pops.auxiliary-component-key"), contractUnsigned 1, contractText key.ownerQid,
    contractText key.spaceKind, contractText key.spaceName, contractText key.component].flatten

structure AuxiliaryComponentContract where
  representation : Bytes
  centering : Bytes
  unit : Option Bytes
  layout : Bytes
  valueKind : Option Bytes
  deriving DecidableEq

def AuxiliaryComponentContract.validate (contract : AuxiliaryComponentContract) : Checked Unit := do
  throwIf (contract.representation = [] ∨ contract.centering = [] ∨ contract.layout = [])
    (.invalidArgument "auxiliary component contract requires representation, centering, and layout")
  throwIf (contract.unit = some [] ∨ contract.valueKind = some [])
    (.invalidArgument "auxiliary component optional unit/value kind must be non-empty when provided")

structure AuxiliaryStorageShape (d : ℕ) where
  spatialRank : ℤ
  valueComponents : ℤ
  halo : Fin d → ℤ

instance : DecidableEq (AuxiliaryStorageShape d) := fun left right =>
  decidable_of_iff
    (left.spatialRank = right.spatialRank ∧ left.valueComponents = right.valueComponents ∧ left.halo = right.halo)
    (by cases left; cases right; simp)

def AuxiliaryStorageShape.validate (shape : AuxiliaryStorageShape d) : Checked Unit := do
  throwIf (shape.spatialRank ≠ d)
    (.invalidArgument "auxiliary storage shape rank differs from native dimension")
  throwIf (shape.valueComponents ≠ 1)
    (.invalidArgument "one AuxiliaryComponentKey denotes exactly one scalar provider value")
  throwIf (∃ axis, shape.halo axis < 0)
    (.invalidArgument "auxiliary storage shape halo extent must be non-negative")

def AuxiliaryStorageShape.serializeExact (shape : AuxiliaryStorageShape d) : Checked Bytes := do
  shape.validate
  return [contractText (ascii "pops.auxiliary-storage-shape"), contractUnsigned 1, contractInt shape.spatialRank,
    contractInt shape.valueComponents, (List.ofFn fun axis => contractInt (shape.halo axis)).flatten].flatten

/-- `AuxiliaryStorageGroupKey::exact_key`. -/
def storageGroupKey (contract : AuxiliaryComponentContract) (shape : AuxiliaryStorageShape d) : Checked Bytes := do
  let exactShape ← shape.serializeExact
  return [contractText (ascii "pops.auxiliary-storage-group"), contractUnsigned 1,
    contractText contract.representation, contractText contract.centering, contractText contract.layout,
    exactShape].flatten

structure AuxiliaryStorageAddress where
  group : Bytes
  component : ℕ
  deriving DecidableEq

structure AuxiliaryEvaluationPoint where
  clock : Bytes
  acceptedStep : ℕ
  layoutGeneration : ℕ
  level : ℤ
  substep : ℤ
  stage : ℤ
  nonlinearIteration : ℤ
  event : AuxiliaryEvaluationEvent

def AuxiliaryEvaluationPoint.validate (point : AuxiliaryEvaluationPoint) : Checked Unit :=
  throwIf (point.clock = [] ∨ point.level < 0 ∨ point.substep < 0 ∨ point.stage < 0 ∨ point.nonlinearIteration < 0)
    (.invalidArgument
      "auxiliary evaluation point requires a clock and non-negative level/substep/stage/iteration")

structure AuxiliaryCheckpointStorageGroup (d : ℕ) (T : Type) where
  identity : Bytes
  contract : AuxiliaryComponentContract
  shape : AuxiliaryStorageShape d
  componentCount : ℕ
  payload : List T

structure AuxiliaryCheckpointComponent (d : ℕ) where
  providerIdentity : Bytes
  providerKind : AuxiliaryProviderKind
  key : AuxiliaryComponentKey
  contract : AuxiliaryComponentContract
  shape : AuxiliaryStorageShape d
  address : AuxiliaryStorageAddress

structure AuxiliaryCheckpointProviderPublication where
  identity : Bytes
  kind : AuxiliaryProviderKind
  acceptedPoint : Option AuxiliaryEvaluationPoint

structure AuxiliaryCheckpointAcceptedState (d : ℕ) (T : Type) where
  registryContract : Bytes
  acceptedGeneration : ℕ
  groups : List (AuxiliaryCheckpointStorageGroup d T)
  components : List (AuxiliaryCheckpointComponent d)
  providers : List AuxiliaryCheckpointProviderPublication

/-- What `validate_state` throws. -/
def invalid (reason : String) : Exception := .invalidArgument ("auxiliary checkpoint " ++ reason)

/-- One group of its loop, after the groups `seen`. -/
def validateGroup [Double T] (seen : List (AuxiliaryCheckpointStorageGroup d T))
    (group : AuxiliaryCheckpointStorageGroup d T) : Checked (List (AuxiliaryCheckpointStorageGroup d T)) := do
  group.contract.validate
  group.shape.validate
  throwIf (group.identity = [] ∨ group.componentCount = 0 ∨ (group.componentCount : ℤ) > intMax)
    (invalid "group is incomplete")
  let expected ← storageGroupKey group.contract group.shape
  throwIf (group.identity ≠ expected) (invalid "group identity differs from its shape")
  throwIf (∃ other ∈ seen, other.identity = group.identity) (invalid "has duplicate group identity")
  throwIf (∃ value ∈ group.payload, Double.isFinite value = false) (invalid "group payload must be finite")
  return group :: seen

/-- One provider of its loop, after the providers `seen`. -/
def validateProvider (seen : List AuxiliaryCheckpointProviderPublication)
    (provider : AuxiliaryCheckpointProviderPublication) : Checked (List AuxiliaryCheckpointProviderPublication) := do
  throwIf (provider.identity = []) (invalid "provider identity is empty")
  provider.acceptedPoint.elim (.ok ()) AuxiliaryEvaluationPoint.validate
  throwIf (∃ other ∈ seen, other.identity = provider.identity) (invalid "has duplicate provider identity")
  return provider :: seen

/-- One component of its loop, after the components `seen`. -/
def validateComponent (groups : List (AuxiliaryCheckpointStorageGroup d T))
    (providers : List AuxiliaryCheckpointProviderPublication) (seen : List (AuxiliaryCheckpointComponent d))
    (component : AuxiliaryCheckpointComponent d) : Checked (List (AuxiliaryCheckpointComponent d)) := do
  component.key.validate
  component.contract.validate
  component.shape.validate
  match groups.find? fun group => group.identity = component.address.group with
  | none => .error (invalid "component has an invalid group address")
  | some group =>
    throwIf (component.providerIdentity = [] ∨ component.address.component ≥ group.componentCount)
      (invalid "component has an invalid group address")
    throwIf (component.contract ≠ group.contract ∨ component.shape ≠ group.shape)
      (invalid "component differs from its storage group")
  let provider := providers.find? fun provider => provider.identity = component.providerIdentity
  throwIf (provider.map AuxiliaryCheckpointProviderPublication.kind ≠ some component.providerKind)
    (invalid "component has invalid provider ownership")
  let key ← component.key.exactKey
  throwIf (∃ other ∈ seen, other.key.exactKey = .ok key ∨ other.address = component.address)
    (invalid "has duplicate component ownership")
  return component :: seen

def validateState [Double T] (state : AuxiliaryCheckpointAcceptedState d T) : Checked Unit := do
  throwIf (state.registryContract = []) (invalid "requires a sealed registry contract")
  let _ ← state.groups.foldlM validateGroup []
  let _ ← state.providers.foldlM validateProvider []
  let _ ← state.components.foldlM (validateComponent state.groups state.providers) []
  throwIf (∃ group ∈ state.groups, ∃ index < group.componentCount,
      ∀ component ∈ state.components, component.address ≠ ⟨group.identity, index⟩)
    (invalid "group has an unowned component")

/-- An optional value behind its presence. -/
def optional (write : α → Bytes) : Option α → Bytes
  | none => u64 0
  | some value => [u64 1, write value].flatten

/-- The underlying value of a kind. -/
def AuxiliaryProviderKind.value : AuxiliaryProviderKind → ℕ
  | .input => 0
  | .derived => 1
  | .fieldOutput => 2

/-- The underlying value of an event. -/
def AuxiliaryEvaluationEvent.value : AuxiliaryEvaluationEvent → ℕ
  | .initialization => 0
  | .beforeResidual => 1
  | .beforeFieldSolve => 2
  | .nonlinearIteration => 3
  | .afterRegrid => 4
  | .output => 5

/-- What `write_key` writes. -/
def keyImage (key : AuxiliaryComponentKey) : Bytes :=
  [string key.ownerQid, string key.spaceKind, string key.spaceName, string key.component].flatten

def writeKey (key : AuxiliaryComponentKey) : Checked Bytes := do
  key.validate
  return keyImage key

/-- What `write_contract` writes. -/
def contractImage (contract : AuxiliaryComponentContract) : Bytes :=
  [string contract.representation, string contract.centering, optional string contract.unit, string contract.layout,
    optional string contract.valueKind].flatten

def writeContract (contract : AuxiliaryComponentContract) : Checked Bytes := do
  contract.validate
  return contractImage contract

/-- What `write_shape` writes. -/
def shapeImage (shape : AuxiliaryStorageShape d) : Bytes :=
  [i64 shape.spatialRank, i64 shape.valueComponents, (List.ofFn fun axis => i64 (shape.halo axis)).flatten].flatten

def writeShape (shape : AuxiliaryStorageShape d) : Checked Bytes := do
  shape.validate
  return shapeImage shape

/-- What `write_point` writes. -/
def pointImage (point : AuxiliaryEvaluationPoint) : Bytes :=
  [string point.clock, u64 point.acceptedStep, u64 point.layoutGeneration, i64 point.level, i64 point.substep,
    i64 point.stage, i64 point.nonlinearIteration, u64 point.event.value].flatten

def writePoint (point : AuxiliaryEvaluationPoint) : Checked Bytes := do
  point.validate
  return pointImage point

/-- One storage group. -/
def writeGroup [BitsDouble T] (group : AuxiliaryCheckpointStorageGroup d T) : Checked Bytes := do
  let contract ← writeContract group.contract
  let shape ← writeShape group.shape
  return [string group.identity, contract, shape, u64 group.componentCount, container real group.payload].flatten

/-- One component. -/
def writeComponent (component : AuxiliaryCheckpointComponent d) : Checked Bytes := do
  let key ← writeKey component.key
  let contract ← writeContract component.contract
  let shape ← writeShape component.shape
  return [string component.providerIdentity, u64 component.providerKind.value, key, contract, shape,
    string component.address.group, u64 component.address.component].flatten

/-- One provider. -/
def writeProvider (provider : AuxiliaryCheckpointProviderPublication) : Checked Bytes := do
  let point ← match provider.acceptedPoint with
    | none => .ok []
    | some point => writePoint point
  return [string provider.identity, u64 provider.kind.value, u64 (if provider.acceptedPoint.isSome then 1 else 0),
    point].flatten

/-- `kMagic`. -/
def magic : Bytes := ascii "POPSAUX2"

/-- The bytes of a container whose elements were written already. -/
def sized (elements : List Bytes) : Bytes := [u64 elements.length, elements.flatten].flatten

/-- `serialize_auxiliary_checkpoint_state`. -/
def serialize [Double T] [BitsDouble T] (state : AuxiliaryCheckpointAcceptedState d T) : Checked Bytes := do
  validateState state
  let groups ← state.groups.mapM writeGroup
  let components ← state.components.mapM writeComponent
  let providers ← state.providers.mapM writeProvider
  return [magic, i64 d, string state.registryContract, u64 state.acceptedGeneration, sized groups, sized components,
    sized providers].flatten

/-- `fail_`, and the other exceptions of a reading. -/
def failure (reason : String) : Exception := .runtimeError ("invalid exact auxiliary checkpoint: " ++ reason)

/-- `require_` fails. -/
def truncatedPayload : Exception := failure "truncated payload"

/-- `u64`, and `index`. -/
def readU64 : Reader ℕ := do
  let word ← Reader.take 8 truncatedPayload
  return fromLittleEndian word

/-- `i32`. -/
def readI32 : Reader ℤ := do
  let bits ← readU64
  Reader.lift (throwIf (ofWord bits < intMin ∨ ofWord bits > intMax) (failure "integer is outside native int range"))
  return ofWord bits

/-- `real`. -/
def readReal [BitsDouble T] : Reader T := do
  let bits ← readU64
  return BitsDouble.ofBits bits

/-- `size`, next to what is left of the payload. -/
def readSize (elementBytes : ℕ) : Reader ℕ := do
  let value ← readU64
  let left ← Reader.left
  Reader.lift (throwIf (elementBytes = 0 ∨ value > maxElements ∨ value > left.length / elementBytes)
    (failure "container length is not credible"))
  return value

/-- `string`. -/
def readString : Reader Bytes := do
  let count ← readSize 1
  Reader.take count truncatedPayload

/-- A container of elements that take `elementBytes` at least. -/
def readContainer (elementBytes : ℕ) (read : Reader α) : Reader (List α) := do
  let count ← readSize elementBytes
  read.times count

/-- A value of an enumeration whose last underlying value is `last`. -/
def readEnum (last : ℕ) (ofValue : ℕ → α) (exception : Exception) : Reader α := do
  let value ← readU64
  Reader.lift (throwIf (value > last) exception)
  return ofValue value

/-- An optional value, behind its presence. -/
def readOptional (read : Reader α) (exception : Exception) : Reader (Option α) := do
  let present ← readEnum 1 (fun value => value != 0) exception
  if present then
    let value ← read
    return some value
  else return none

def readOptionalString : Reader (Option Bytes) := readOptional readString (failure "invalid optional-string tag")

def readKey : Reader AuxiliaryComponentKey := do
  let ownerQid ← readString
  let spaceKind ← readString
  let spaceName ← readString
  let component ← readString
  return { ownerQid, spaceKind, spaceName, component }

def readContract : Reader AuxiliaryComponentContract := do
  let representation ← readString
  let centering ← readString
  let unit ← readOptionalString
  let layout ← readString
  let valueKind ← readOptionalString
  return { representation, centering, unit, layout, valueKind }

def readShape (d : ℕ) : Reader (AuxiliaryStorageShape d) := do
  let spatialRank ← readI32
  let valueComponents ← readI32
  let halo ← readI32.axes d
  return { spatialRank, valueComponents, halo }

/-- The event of an underlying value. -/
def eventOf : ℕ → AuxiliaryEvaluationEvent
  | 0 => .initialization
  | 1 => .beforeResidual
  | 2 => .beforeFieldSolve
  | 3 => .nonlinearIteration
  | 4 => .afterRegrid
  | _ => .output

/-- The kind of an underlying value. -/
def kindOf : ℕ → AuxiliaryProviderKind
  | 0 => .input
  | 1 => .derived
  | _ => .fieldOutput

def readPoint : Reader AuxiliaryEvaluationPoint := do
  let clock ← readString
  let acceptedStep ← readU64
  let layoutGeneration ← readU64
  let level ← readI32
  let substep ← readI32
  let stage ← readI32
  let nonlinearIteration ← readI32
  let event ← readEnum 5 eventOf (failure "invalid evaluation event")
  return { clock, acceptedStep, layoutGeneration, level, substep, stage, nonlinearIteration, event }

def readKind : Reader AuxiliaryProviderKind := readEnum 2 kindOf (failure "invalid provider kind")

/-- One storage group. -/
def readGroup [BitsDouble T] (d : ℕ) : Reader (AuxiliaryCheckpointStorageGroup d T) := do
  let identity ← readString
  let contract ← readContract
  let shape ← readShape d
  let componentCount ← readU64
  let payload ← readContainer 8 readReal
  return { identity, contract, shape, componentCount, payload }

/-- One component. -/
def readComponent (d : ℕ) : Reader (AuxiliaryCheckpointComponent d) := do
  let providerIdentity ← readString
  let providerKind ← readKind
  let key ← readKey
  let contract ← readContract
  let shape ← readShape d
  let group ← readString
  let component ← readU64
  return { providerIdentity, providerKind, key, contract, shape, address := ⟨group, component⟩ }

/-- One provider. -/
def readProvider : Reader AuxiliaryCheckpointProviderPublication := do
  let identity ← readString
  let kind ← readKind
  let acceptedPoint ← readOptional readPoint (failure "invalid point tag")
  return { identity, kind, acceptedPoint }

/-- `read_state`, but for `finish`. -/
def readState [BitsDouble T] (d : ℕ) : Reader (AuxiliaryCheckpointAcceptedState d T) := do
  Reader.expect magic truncatedPayload (failure "unsupported magic/version")
  let dimension ← readI32
  Reader.lift (throwIf (dimension ≠ d) (failure "native dimension differs"))
  let registryContract ← readString
  let acceptedGeneration ← readU64
  let groups ← readContainer ((10 + d) * 8) (readGroup d)
  let components ← readContainer ((15 + d) * 8) (readComponent d)
  let providers ← readContainer 24 readProvider
  return { registryContract, acceptedGeneration, groups, components, providers }

/-- `deserialize_auxiliary_checkpoint_state`. -/
def deserialize [Double T] [BitsDouble T] (bytes : Bytes) : Checked (AuxiliaryCheckpointAcceptedState d T) := do
  let (state, left) ← readState d bytes
  throwIf (left ≠ []) (failure "trailing bytes")
  validateState state
  return state

end Pops.AuxiliaryCheckpoint
