import Pops.AuxiliaryCheckpoint
import Pops.Binary64
import Mathlib.Tactic.IntervalCases

/-!
An auxiliary checkpoint is read back as it was written as long as the reader
believes its sizes, and whatever is accepted is the bytes of its state. The
readers agree with those of the Program checkpoint up to what they throw, so
that their laws are the same.
-/
namespace Pops.AuxiliaryCheckpoint

open Checkpoint (u64 i64 real string container maxElements u64_length i64_length string_length)

variable {d : ℕ} {T α : Type} {strict : Bool} {fits : α → Prop} {write : α → Bytes} {read : Reader α}

theorem agrees_u64 : readU64.Agrees Checkpoint.readU64 :=
  (Reader.agrees_take 8 _ _).bind fun _ => .refl _

theorem codes_u64 : Codes strict (fun value => value < 18446744073709551616) u64 readU64 :=
  Checkpoint.codes_u64.of_agrees agrees_u64

theorem codes_i32 : Codes strict FitsInt i64 readI32 := by
  refine Checkpoint.codes_i32.of_agrees ?_
  rw [Checkpoint.readI32, Checkpoint.readI64, bind_assoc]
  refine agrees_u64.bind fun bits => ?_
  rw [pure_bind]
  exact (Reader.agrees_throwIf _ _ _).bind fun _ => .refl _

theorem codes_real [BitsDouble T] : Codes strict (fun _ : T => True) real readReal :=
  Checkpoint.codes_real.of_agrees (agrees_u64.bind fun _ => .refl _)

theorem agrees_size (elementBytes : ℕ) : (readSize elementBytes).Agrees (Checkpoint.readSize elementBytes) :=
  agrees_u64.bind fun _ => (Reader.Agrees.refl _).bind fun _ =>
    (Reader.agrees_throwIf _ _ _).bind fun _ => .refl _

theorem codes_string : Codes strict (fun value => value.length ≤ maxElements) string readString :=
  Checkpoint.codes_string.of_agrees ((agrees_size 1).bind fun _ => Reader.agrees_take _ _ _)

theorem codes_container {elementBytes : ℕ} (item : Codes strict fits write read) (positive : 0 < elementBytes)
    (wide : ∀ value, elementBytes ≤ (write value).length) :
    Codes strict (fun items => items.length ≤ maxElements ∧ ∀ value ∈ items, fits value) (container write)
      (readContainer elementBytes read) :=
  (Checkpoint.codes_container item positive wide).of_agrees ((agrees_size elementBytes).bind fun _ => .refl _)

theorem codes_enum {last : ℕ} {ofValue : ℕ → α} {value : α → ℕ} {exception : Exception}
    (small : last < 18446744073709551616) (bounded : ∀ a, value a ≤ last) (back : ∀ a, ofValue (value a) = a)
    (forth : ∀ n ≤ last, value (ofValue n) = n) :
    Codes strict (fun _ => True) (fun a => u64 (value a)) (readEnum last ofValue exception) := by
  refine Codes.intro (fun a rest _ => ?_) (fun bytes a rest ran => ?_)
  · have passes : throwIf (value a > last) exception = .ok () := throwIf_of_not (Nat.not_lt.mpr (bounded a))
    rw [readEnum, Reader.bind_eq, (codes_u64 : Codes strict _ _ _).restores rest ((bounded a).trans_lt small), ok_bind,
      Reader.bind_lift passes, Reader.pure_eq, back]
  · rw [readEnum, Reader.bind_eq, bind_ok] at ran
    obtain ⟨⟨found, middle⟩, taken, checked⟩ := ran
    rw [Reader.bind_eq, bind_ok] at checked
    obtain ⟨⟨_, after⟩, test, returned⟩ := checked
    obtain ⟨passed, rfl⟩ := Reader.lift_ok.mp test
    rw [throwIf_ok, gt_iff_lt, Nat.not_lt] at passed
    rw [Reader.pure_eq, Except.ok.injEq, Prod.mk.injEq] at returned
    obtain ⟨rfl, rfl⟩ := returned
    refine ⟨trivial, fun _ => ?_⟩
    rw [forth found passed]
    exact codes_u64.written taken

theorem codes_present {exception : Exception} :
    Codes strict (fun _ : Bool => True) (fun present => u64 (if present then 1 else 0))
      (readEnum 1 (fun value => value != 0) exception) := by
  refine codes_enum (by norm_num) (fun present => ?_) (fun present => ?_) fun n small => ?_
  · cases present <;> simp
  · cases present <;> rfl
  · interval_cases n <;> rfl

theorem codes_kind : Codes strict (fun _ => True) (fun kind => u64 kind.value) readKind := by
  refine codes_enum (by norm_num) (fun kind => ?_) (fun kind => ?_) fun n small => ?_
  · cases kind <;> simp [AuxiliaryProviderKind.value]
  · cases kind <;> rfl
  · interval_cases n <;> rfl

theorem codes_event {exception : Exception} :
    Codes strict (fun _ => True) (fun event => u64 event.value) (readEnum 5 eventOf exception) := by
  refine codes_enum (by norm_num) (fun event => ?_) (fun event => ?_) fun n small => ?_
  · cases event <;> simp [AuxiliaryEvaluationEvent.value]
  · cases event <;> rfl
  · interval_cases n <;> rfl

theorem optional_eq (value : Option α) :
    optional write value = [u64 (if value.isSome then 1 else 0), value.elim [] write].flatten := by
  cases value <;> simp [optional]

theorem codes_optional {exception : Exception} (item : Codes strict fits write read) :
    Codes strict (fun value => ∀ a ∈ value, fits a) (optional write) (readOptional read exception) := by
  have pieces : optional write = fun value => (u64 (if value.isSome then 1 else 0) :: [value.elim [] write]).flatten :=
    funext optional_eq
  rw [pieces]
  refine Completes.field Option.isSome codes_present (fun _ _ _ => trivial) fun present _ => ?_
  cases present with
  | false =>
    refine ⟨fun {value} rest _ knows => ?_, fun ran => ?_⟩
    · rw [Option.isSome_eq_false_iff.mp knows.1 |> Option.isNone_iff_eq_none.mp]
      rfl
    · cases ran
      exact ⟨fun a listed => (nomatch listed), fun _ => ⟨⟨rfl, trivial⟩, rfl⟩⟩
  | true =>
    refine ⟨fun {value} rest holds knows => ?_, fun {bytes value rest} ran => ?_⟩
    · obtain ⟨a, rfl⟩ := Option.isSome_iff_exists.mp knows.1
      simp only [Option.elim_some, List.flatten_cons, List.flatten_nil, List.append_nil, if_true]
      rw [Reader.bind_eq, item.restores rest (holds a rfl)]
      rfl
    · rw [if_pos rfl, Reader.bind_eq, bind_ok] at ran
      obtain ⟨⟨a, after⟩, read, returned⟩ := ran
      cases returned
      refine ⟨fun other listed => ?_, fun isStrict => ⟨⟨rfl, trivial⟩, ?_⟩⟩
      · cases listed
        exact item.sound read
      · subst isStrict
        simpa using item.written read

/-! ### What fits a checkpoint

The integers fit the types of the source, and no container has more than
`limit` elements. -/

structure KeyFits (limit : ℕ) (key : AuxiliaryComponentKey) : Prop where
  ownerQid : key.ownerQid.length ≤ limit
  spaceKind : key.spaceKind.length ≤ limit
  spaceName : key.spaceName.length ≤ limit
  component : key.component.length ≤ limit

structure ContractFits (limit : ℕ) (contract : AuxiliaryComponentContract) : Prop where
  representation : contract.representation.length ≤ limit
  centering : contract.centering.length ≤ limit
  unit : ∀ text ∈ contract.unit, text.length ≤ limit
  layout : contract.layout.length ≤ limit
  valueKind : ∀ text ∈ contract.valueKind, text.length ≤ limit

structure ShapeFits (shape : AuxiliaryStorageShape d) : Prop where
  spatialRank : FitsInt shape.spatialRank
  valueComponents : FitsInt shape.valueComponents
  halo : ∀ axis, FitsInt (shape.halo axis)

structure PointFits (limit : ℕ) (point : AuxiliaryEvaluationPoint) : Prop where
  clock : point.clock.length ≤ limit
  acceptedStep : point.acceptedStep < 18446744073709551616
  layoutGeneration : point.layoutGeneration < 18446744073709551616
  level : FitsInt point.level
  substep : FitsInt point.substep
  stage : FitsInt point.stage
  nonlinearIteration : FitsInt point.nonlinearIteration

structure GroupFits (limit : ℕ) (group : AuxiliaryCheckpointStorageGroup d T) : Prop where
  identity : group.identity.length ≤ limit
  contract : ContractFits limit group.contract
  shape : ShapeFits group.shape
  componentCount : group.componentCount < 18446744073709551616
  payload : group.payload.length ≤ limit

structure ComponentFits (limit : ℕ) (component : AuxiliaryCheckpointComponent d) : Prop where
  providerIdentity : component.providerIdentity.length ≤ limit
  key : KeyFits limit component.key
  contract : ContractFits limit component.contract
  shape : ShapeFits component.shape
  group : component.address.group.length ≤ limit
  component : component.address.component < 18446744073709551616

structure ProviderFits (limit : ℕ) (provider : AuxiliaryCheckpointProviderPublication) : Prop where
  identity : provider.identity.length ≤ limit
  acceptedPoint : ∀ point ∈ provider.acceptedPoint, PointFits limit point

structure StateFits (limit : ℕ) (state : AuxiliaryCheckpointAcceptedState d T) : Prop where
  registryContract : state.registryContract.length ≤ limit
  acceptedGeneration : state.acceptedGeneration < 18446744073709551616
  groups : state.groups.length ≤ limit ∧ ∀ group ∈ state.groups, GroupFits limit group
  components : state.components.length ≤ limit ∧ ∀ component ∈ state.components, ComponentFits limit component
  providers : state.providers.length ≤ limit ∧ ∀ provider ∈ state.providers, ProviderFits limit provider

theorem codes_key : Codes strict (KeyFits maxElements) keyImage readKey := by
  refine Completes.field AuxiliaryComponentKey.ownerQid codes_string (fun _ holds _ => holds.ownerQid)
    fun owner ownerFits => ?_
  refine Completes.field AuxiliaryComponentKey.spaceKind codes_string (fun _ holds _ => holds.spaceKind)
    fun kind kindFits => ?_
  refine Completes.field AuxiliaryComponentKey.spaceName codes_string (fun _ holds _ => holds.spaceName)
    fun name nameFits => ?_
  refine Completes.field AuxiliaryComponentKey.component codes_string (fun _ holds _ => holds.component)
    fun component componentFits => ?_
  apply Completes.done (AuxiliaryComponentKey.mk owner kind name component)
  · exact ⟨ownerFits, kindFits, nameFits, componentFits⟩
  · exact ⟨rfl, rfl, rfl, rfl, trivial⟩
  · rintro ⟨⟩ ⟨rfl, rfl, rfl, rfl, -⟩
    rfl

theorem codes_contract : Codes strict (ContractFits maxElements) contractImage readContract := by
  refine Completes.field AuxiliaryComponentContract.representation codes_string
    (fun _ holds _ => holds.representation) fun representation representationFits => ?_
  refine Completes.field AuxiliaryComponentContract.centering codes_string (fun _ holds _ => holds.centering)
    fun centering centeringFits => ?_
  refine Completes.field AuxiliaryComponentContract.unit (codes_optional codes_string) (fun _ holds _ => holds.unit)
    fun unit unitFits => ?_
  refine Completes.field AuxiliaryComponentContract.layout codes_string (fun _ holds _ => holds.layout)
    fun layout layoutFits => ?_
  refine Completes.field AuxiliaryComponentContract.valueKind (codes_optional codes_string)
    (fun _ holds _ => holds.valueKind) fun valueKind valueKindFits => ?_
  apply Completes.done (AuxiliaryComponentContract.mk representation centering unit layout valueKind)
  · exact ⟨representationFits, centeringFits, unitFits, layoutFits, valueKindFits⟩
  · exact ⟨rfl, rfl, rfl, rfl, rfl, trivial⟩
  · rintro ⟨⟩ ⟨rfl, rfl, rfl, rfl, rfl, -⟩
    rfl

theorem codes_shape : Codes strict ShapeFits (shapeImage (d := d)) (readShape d) := by
  refine Completes.field AuxiliaryStorageShape.spatialRank codes_i32 (fun _ holds _ => holds.spatialRank)
    fun rank rankFits => ?_
  refine Completes.field AuxiliaryStorageShape.valueComponents codes_i32 (fun _ holds _ => holds.valueComponents)
    fun components componentsFit => ?_
  refine Completes.field AuxiliaryStorageShape.halo (codes_i32.axes d) (fun _ holds _ => holds.halo)
    fun halo haloFits => ?_
  apply Completes.done (AuxiliaryStorageShape.mk rank components halo)
  · exact ⟨rankFits, componentsFit, haloFits⟩
  · exact ⟨rfl, rfl, rfl, trivial⟩
  · rintro ⟨⟩ ⟨rfl, rfl, rfl, -⟩
    rfl

theorem codes_point : Codes strict (PointFits maxElements) pointImage readPoint := by
  refine Completes.field AuxiliaryEvaluationPoint.clock codes_string (fun _ holds _ => holds.clock)
    fun clock clockFits => ?_
  refine Completes.field AuxiliaryEvaluationPoint.acceptedStep codes_u64 (fun _ holds _ => holds.acceptedStep)
    fun step stepFits => ?_
  refine Completes.field AuxiliaryEvaluationPoint.layoutGeneration codes_u64
    (fun _ holds _ => holds.layoutGeneration) fun generation generationFits => ?_
  refine Completes.field AuxiliaryEvaluationPoint.level codes_i32 (fun _ holds _ => holds.level)
    fun level levelFits => ?_
  refine Completes.field AuxiliaryEvaluationPoint.substep codes_i32 (fun _ holds _ => holds.substep)
    fun substep substepFits => ?_
  refine Completes.field AuxiliaryEvaluationPoint.stage codes_i32 (fun _ holds _ => holds.stage)
    fun stage stageFits => ?_
  refine Completes.field AuxiliaryEvaluationPoint.nonlinearIteration codes_i32
    (fun _ holds _ => holds.nonlinearIteration) fun iteration iterationFits => ?_
  refine Completes.field AuxiliaryEvaluationPoint.event codes_event (fun _ _ _ => trivial) fun event _ => ?_
  apply Completes.done (AuxiliaryEvaluationPoint.mk clock step generation level substep stage iteration event)
  · exact ⟨clockFits, stepFits, generationFits, levelFits, substepFits, stageFits, iterationFits⟩
  · exact ⟨rfl, rfl, rfl, rfl, rfl, rfl, rfl, rfl, trivial⟩
  · rintro ⟨⟩ ⟨rfl, rfl, rfl, rfl, rfl, rfl, rfl, rfl, -⟩
    rfl

/-- What `writeGroup` writes. -/
def groupImage [BitsDouble T] (group : AuxiliaryCheckpointStorageGroup d T) : Bytes :=
  [string group.identity, contractImage group.contract, shapeImage group.shape, u64 group.componentCount,
    container real group.payload].flatten

/-- What `writeComponent` writes. -/
def componentImage (component : AuxiliaryCheckpointComponent d) : Bytes :=
  [string component.providerIdentity, u64 component.providerKind.value, keyImage component.key,
    contractImage component.contract, shapeImage component.shape, string component.address.group,
    u64 component.address.component].flatten

/-- What `writeProvider` writes. -/
def providerImage (provider : AuxiliaryCheckpointProviderPublication) : Bytes :=
  [string provider.identity, u64 provider.kind.value, optional pointImage provider.acceptedPoint].flatten

theorem codes_group [BitsDouble T] :
    Codes strict (GroupFits maxElements) (groupImage (d := d) (T := T)) (readGroup d) := by
  refine Completes.field AuxiliaryCheckpointStorageGroup.identity codes_string (fun _ holds _ => holds.identity)
    fun identity identityFits => ?_
  refine Completes.field AuxiliaryCheckpointStorageGroup.contract codes_contract (fun _ holds _ => holds.contract)
    fun contract contractFits => ?_
  refine Completes.field AuxiliaryCheckpointStorageGroup.shape codes_shape (fun _ holds _ => holds.shape)
    fun shape shapeFits => ?_
  refine Completes.field AuxiliaryCheckpointStorageGroup.componentCount codes_u64
    (fun _ holds _ => holds.componentCount) fun count countFits => ?_
  refine Completes.field AuxiliaryCheckpointStorageGroup.payload
    (codes_container codes_real (by norm_num) fun value => (Checkpoint.real_length value).ge)
    (fun _ holds _ => ⟨holds.payload, fun _ _ => trivial⟩) fun payload payloadFits => ?_
  apply Completes.done (AuxiliaryCheckpointStorageGroup.mk identity contract shape count payload)
  · exact ⟨identityFits, contractFits, shapeFits, countFits, payloadFits.1⟩
  · exact ⟨rfl, rfl, rfl, rfl, rfl, trivial⟩
  · rintro ⟨⟩ ⟨rfl, rfl, rfl, rfl, rfl, -⟩
    rfl

theorem codes_component :
    Codes strict (ComponentFits maxElements) (componentImage (d := d)) (readComponent d) := by
  refine Completes.field AuxiliaryCheckpointComponent.providerIdentity codes_string
    (fun _ holds _ => holds.providerIdentity) fun identity identityFits => ?_
  refine Completes.field AuxiliaryCheckpointComponent.providerKind codes_kind (fun _ _ _ => trivial)
    fun kind _ => ?_
  refine Completes.field AuxiliaryCheckpointComponent.key codes_key (fun _ holds _ => holds.key)
    fun key keyFits => ?_
  refine Completes.field AuxiliaryCheckpointComponent.contract codes_contract (fun _ holds _ => holds.contract)
    fun contract contractFits => ?_
  refine Completes.field AuxiliaryCheckpointComponent.shape codes_shape (fun _ holds _ => holds.shape)
    fun shape shapeFits => ?_
  refine Completes.field (fun component : AuxiliaryCheckpointComponent d => component.address.group) codes_string
    (fun _ holds _ => holds.group) fun group groupFits => ?_
  refine Completes.field (fun component : AuxiliaryCheckpointComponent d => component.address.component) codes_u64
    (fun _ holds _ => holds.component) fun index indexFits => ?_
  apply Completes.done (AuxiliaryCheckpointComponent.mk identity kind key contract shape ⟨group, index⟩)
  · exact ⟨identityFits, keyFits, contractFits, shapeFits, groupFits, indexFits⟩
  · exact ⟨rfl, rfl, rfl, rfl, rfl, rfl, rfl, trivial⟩
  · rintro ⟨_, _, _, _, _, ⟨⟩⟩ ⟨rfl, rfl, rfl, rfl, rfl, rfl, rfl, -⟩
    rfl

theorem codes_provider : Codes strict (ProviderFits maxElements) providerImage readProvider := by
  refine Completes.field AuxiliaryCheckpointProviderPublication.identity codes_string
    (fun _ holds _ => holds.identity) fun identity identityFits => ?_
  refine Completes.field AuxiliaryCheckpointProviderPublication.kind codes_kind (fun _ _ _ => trivial)
    fun kind _ => ?_
  refine Completes.field AuxiliaryCheckpointProviderPublication.acceptedPoint (codes_optional codes_point)
    (fun _ holds _ => holds.acceptedPoint) fun point pointFits => ?_
  apply Completes.done (AuxiliaryCheckpointProviderPublication.mk identity kind point)
  · exact ⟨identityFits, pointFits⟩
  · exact ⟨rfl, rfl, rfl, trivial⟩
  · rintro ⟨⟩ ⟨rfl, rfl, rfl, -⟩
    rfl

/-! The least that a record takes is what `readState` counts on. -/

theorem optional_length (value : Option α) : 8 ≤ (optional write value).length := by
  cases value <;> simp [optional]

theorem contractImage_length (contract : AuxiliaryComponentContract) : 40 ≤ (contractImage contract).length := by
  have unit := @optional_length _ string contract.unit
  have valueKind := @optional_length _ string contract.valueKind
  simp only [contractImage, List.flatten_cons, List.flatten_nil, List.append_nil, List.length_append, string_length]
  omega

theorem shapeImage_length (shape : AuxiliaryStorageShape d) : (shapeImage shape).length = (2 + d) * 8 := by
  simp only [shapeImage, List.flatten_cons, List.flatten_nil, List.append_nil, List.length_append, i64_length,
    List.length_flatten, List.map_ofFn, Function.comp_def, List.ofFn_const, List.sum_replicate, smul_eq_mul]
  omega

theorem groupImage_length [BitsDouble T] (group : AuxiliaryCheckpointStorageGroup d T) :
    (10 + d) * 8 ≤ (groupImage group).length := by
  have contract := contractImage_length group.contract
  simp only [groupImage, container, List.flatten_cons, List.flatten_nil, List.append_nil, List.length_append,
    string_length, u64_length, shapeImage_length]
  omega

theorem componentImage_length (component : AuxiliaryCheckpointComponent d) :
    (15 + d) * 8 ≤ (componentImage component).length := by
  have contract := contractImage_length component.contract
  simp only [componentImage, keyImage, List.flatten_cons, List.flatten_nil, List.append_nil, List.length_append,
    string_length, u64_length, shapeImage_length]
  omega

theorem providerImage_length (provider : AuxiliaryCheckpointProviderPublication) :
    24 ≤ (providerImage provider).length := by
  have point := @optional_length _ pointImage provider.acceptedPoint
  simp only [providerImage, List.flatten_cons, List.flatten_nil, List.append_nil, List.length_append, string_length,
    u64_length]
  omega

/-- What `serialize` writes. -/
def stateImage [BitsDouble T] (state : AuxiliaryCheckpointAcceptedState d T) : Bytes :=
  [magic, i64 d, string state.registryContract, u64 state.acceptedGeneration, container groupImage state.groups,
    container componentImage state.components, container providerImage state.providers].flatten

theorem codes_state [BitsDouble T] (dimension : d ≤ 3) :
    Codes strict (StateFits maxElements) (stateImage (d := d) (T := T)) (readState d) := by
  refine Completes.field (fun _ => ()) (Codes.expect magic) (fun _ _ _ => trivial) fun _ _ => ?_
  refine Completes.field (fun _ => (d : ℤ)) codes_i32
    (fun _ _ _ => by unfold FitsInt intMin intMax; omega) fun dimension _ => ?_
  refine Completes.check ?_ fun knownDimension => ?_
  · rintro state - ⟨rfl, -⟩
    exact throwIf_of_not (by simp)
  rw [throwIf_ok, ne_eq, not_not] at knownDimension
  refine Completes.field AuxiliaryCheckpointAcceptedState.registryContract codes_string
    (fun _ holds _ => holds.registryContract) fun contract contractFits => ?_
  refine Completes.field AuxiliaryCheckpointAcceptedState.acceptedGeneration codes_u64
    (fun _ holds _ => holds.acceptedGeneration) fun generation generationFits => ?_
  refine Completes.field AuxiliaryCheckpointAcceptedState.groups
    (codes_container codes_group (by omega) groupImage_length) (fun _ holds _ => holds.groups)
    fun groups groupsFit => ?_
  refine Completes.field AuxiliaryCheckpointAcceptedState.components
    (codes_container codes_component (by omega) componentImage_length) (fun _ holds _ => holds.components)
    fun components componentsFit => ?_
  refine Completes.field AuxiliaryCheckpointAcceptedState.providers
    (codes_container codes_provider (by norm_num) providerImage_length) (fun _ holds _ => holds.providers)
    fun providers providersFit => ?_
  apply Completes.done (AuxiliaryCheckpointAcceptedState.mk contract generation groups components providers)
  · exact ⟨contractFits, generationFits, groupsFit, componentsFit, providersFit⟩
  · exact ⟨rfl, rfl, rfl, rfl, rfl, knownDimension.symm, rfl, trivial⟩
  · rintro ⟨⟩ ⟨rfl, rfl, rfl, rfl, rfl, -⟩
    rfl

/-- What the writer of a record checks. -/
def GroupChecked (group : AuxiliaryCheckpointStorageGroup d T) : Prop :=
  group.contract.validate = .ok () ∧ group.shape.validate = .ok ()

def ComponentChecked (component : AuxiliaryCheckpointComponent d) : Prop :=
  component.key.validate = .ok () ∧ component.contract.validate = .ok () ∧ component.shape.validate = .ok ()

def ProviderChecked (provider : AuxiliaryCheckpointProviderPublication) : Prop :=
  ∀ point ∈ provider.acceptedPoint, point.validate = .ok ()

theorem writeGroup_ok [BitsDouble T] {group : AuxiliaryCheckpointStorageGroup d T} {bytes : Bytes} :
    writeGroup group = .ok bytes ↔ GroupChecked group ∧ bytes = groupImage group := by
  simp only [writeGroup, writeContract, writeShape, bind_ok, unit_exists, pure_ok, GroupChecked, groupImage]
  constructor
  · rintro ⟨_, ⟨contract, rfl⟩, _, ⟨shape, rfl⟩, rfl⟩
    exact ⟨⟨contract, shape⟩, rfl⟩
  · rintro ⟨⟨contract, shape⟩, rfl⟩
    exact ⟨_, ⟨contract, rfl⟩, _, ⟨shape, rfl⟩, rfl⟩

theorem writeComponent_ok {component : AuxiliaryCheckpointComponent d} {bytes : Bytes} :
    writeComponent component = .ok bytes ↔ ComponentChecked component ∧ bytes = componentImage component := by
  simp only [writeComponent, writeKey, writeContract, writeShape, bind_ok, unit_exists, pure_ok, ComponentChecked,
    componentImage]
  constructor
  · rintro ⟨_, ⟨key, rfl⟩, _, ⟨contract, rfl⟩, _, ⟨shape, rfl⟩, rfl⟩
    exact ⟨⟨key, contract, shape⟩, rfl⟩
  · rintro ⟨⟨key, contract, shape⟩, rfl⟩
    exact ⟨_, ⟨key, rfl⟩, _, ⟨contract, rfl⟩, _, ⟨shape, rfl⟩, rfl⟩

theorem writeProvider_ok {provider : AuxiliaryCheckpointProviderPublication} {bytes : Bytes} :
    writeProvider provider = .ok bytes ↔ ProviderChecked provider ∧ bytes = providerImage provider := by
  obtain ⟨identity, kind, point⟩ := provider
  cases point with
  | none =>
    simp only [writeProvider, ok_bind, pure_ok, ProviderChecked, providerImage, optional, eq_comm (a := bytes)]
    simp
  | some point =>
    simp only [writeProvider, writePoint, bind_ok, unit_exists, pure_ok, ProviderChecked, providerImage, optional,
      eq_comm (a := bytes)]
    simp

theorem sized_map (image : α → Bytes) (items : List α) : sized (items.map image) = container image items := by
  rw [sized, container, List.length_map, List.flatMap_def]

/-- The records of a state pass what their writers check. -/
def RecordsChecked (state : AuxiliaryCheckpointAcceptedState d T) : Prop :=
  (∀ group ∈ state.groups, GroupChecked group) ∧ (∀ component ∈ state.components, ComponentChecked component) ∧
    ∀ provider ∈ state.providers, ProviderChecked provider

theorem each_checked {step : List α → α → Checked (List α)} {holds : α → Prop}
    (checks : ∀ seen item next, step seen item = .ok next → holds item) {items seen last : List α}
    (ran : items.foldlM step seen = .ok last) : ∀ item ∈ items, holds item := by
  refine foldlM_ok_invariant (fun done _ => ∀ item ∈ done, holds item) (fun done item seen next earlier ran => ?_)
    items seen last [] (by simp) ran
  intro other listed
  rcases List.mem_append.mp listed with before | here
  · exact earlier other before
  · rw [List.mem_singleton.mp here]
    exact checks seen item next ran

theorem records_checked [Double T] {state : AuxiliaryCheckpointAcceptedState d T}
    (valid : validateState state = .ok ()) : RecordsChecked state := by
  simp only [validateState, bind_ok, unit_exists] at valid
  obtain ⟨-, _, groups, _, providers, _, components, -⟩ := valid
  refine ⟨each_checked (fun seen group next ran => ?_) groups, each_checked (fun seen component next ran => ?_) components,
    each_checked (fun seen provider next ran => ?_) providers⟩
  · simp only [validateGroup, bind_ok, unit_exists] at ran
    exact ⟨ran.1, ran.2.1⟩
  · simp only [validateComponent, bind_ok, unit_exists] at ran
    exact ⟨ran.1, ran.2.1, ran.2.2.1⟩
  · simp only [validateProvider, bind_ok, unit_exists] at ran
    intro point stored
    have checked := ran.2.1
    rw [Option.mem_def.mp stored] at checked
    exact checked

section
variable [Double T] [BitsDouble T]

theorem serialize_ok {state : AuxiliaryCheckpointAcceptedState d T} {bytes : Bytes} :
    serialize state = .ok bytes ↔ validateState state = .ok () ∧ bytes = stateImage state := by
  have groups (results : List Bytes) := @mapM_ok_map _ _ _ _ _ _ state.groups results
    fun group _ result => @writeGroup_ok _ _ _ group result
  have components (results : List Bytes) := @mapM_ok_map _ _ _ _ _ _ state.components results
    fun component _ result => @writeComponent_ok _ component result
  have providers (results : List Bytes) := @mapM_ok_map _ _ _ _ _ _ state.providers results
    fun provider _ result => @writeProvider_ok provider result
  simp only [serialize, bind_ok, unit_exists, pure_ok, groups, components, providers]
  constructor
  · rintro ⟨valid, _, ⟨-, rfl⟩, _, ⟨-, rfl⟩, _, ⟨-, rfl⟩, rfl⟩
    refine ⟨valid, ?_⟩
    simp only [sized_map, stateImage]
  · rintro ⟨valid, rfl⟩
    obtain ⟨eachGroup, eachComponent, eachProvider⟩ := records_checked valid
    refine ⟨valid, _, ⟨eachGroup, rfl⟩, _, ⟨eachComponent, rfl⟩, _, ⟨eachProvider, rfl⟩, ?_⟩
    simp only [sized_map, stateImage]

theorem deserialize_ok {bytes : Bytes} {state : AuxiliaryCheckpointAcceptedState d T} :
    deserialize bytes = .ok state ↔ readState d bytes = .ok (state, []) ∧ validateState state = .ok () := by
  simp only [deserialize, bind_ok, unit_exists, throwIf_ok, pure_ok, ne_eq, not_not]
  constructor
  · rintro ⟨⟨found, left⟩, read, rfl, valid, rfl⟩
    exact ⟨read, valid⟩
  · rintro ⟨read, valid⟩
    exact ⟨(state, []), read, rfl, valid, rfl⟩

/-- The bytes of a state are read back as that state exactly when the reader
believes its sizes, and whatever is accepted is the bytes of its state. -/
theorem auxiliary_checkpoint_round_trip (dimension : d ≤ 3) :
    (∀ (state : AuxiliaryCheckpointAcceptedState d T) (bytes : Bytes), serialize state = .ok bytes →
        (deserialize bytes = .ok state ↔ StateFits maxElements state)) ∧
      ∀ (bytes : Bytes) (state : AuxiliaryCheckpointAcceptedState d T), deserialize bytes = .ok state →
        serialize state = .ok bytes := by
  constructor
  · intro state bytes written
    obtain ⟨valid, rfl⟩ := serialize_ok.mp written
    rw [deserialize_ok]
    constructor
    · rintro ⟨read, -⟩
      exact (codes_state dimension : Codes true _ _ _).sound read
    · intro fits
      have read := (codes_state dimension : Codes true _ _ _).restores [] fits
      rw [List.append_nil] at read
      exact ⟨read, valid⟩
  · intro bytes state accepted
    obtain ⟨read, valid⟩ := deserialize_ok.mp accepted
    have written := (codes_state dimension).written read
    rw [List.append_nil] at written
    exact serialize_ok.mpr ⟨valid, written⟩

end

/-! The state of a registry without providers. -/

/-- It has nothing but its contract. -/
def emptyState (registryContract : Bytes) : AuxiliaryCheckpointAcceptedState 1 Binary64 :=
  ⟨registryContract, 0, [], [], []⟩

theorem emptyState_serializes (contract : Bytes) (sealed : contract ≠ []) :
    serialize (emptyState contract) = .ok (stateImage (emptyState contract)) := by
  refine serialize_ok.mpr ⟨?_, rfl⟩
  have passes : throwIf ((emptyState contract).registryContract = [])
      (invalid "requires a sealed registry contract") = .ok () := throwIf_of_not sealed
  rw [validateState, passes]
  rfl

def cellContract : AuxiliaryComponentContract := ⟨ascii "scalar", ascii "cell", some (ascii "K"), ascii "dense", none⟩

def haloShape : AuxiliaryStorageShape 1 := ⟨1, 1, fun _ => 2⟩

/-- The identity of the one group. -/
def cellGroup : Bytes := (storageGroupKey cellContract haloShape).toOption.getD []

/-- A derived temperature in one group of two values, accepted before a residual. -/
def temperature : AuxiliaryCheckpointAcceptedState 1 Binary64 where
  registryContract := ascii "sealed"
  acceptedGeneration := 3
  groups := [⟨cellGroup, cellContract, haloShape, 1, [.ofNat 0x3FF0000000000000, .ofNat 0xC000000000000000]⟩]
  components := [⟨ascii "heat", .derived, ⟨ascii "case", ascii "field", ascii "T", ascii "value"⟩, cellContract,
    haloShape, ⟨cellGroup, 0⟩⟩]
  providers := [⟨ascii "heat", .derived, some ⟨ascii "macro", 7, 1, 0, 0, 2, 1, .beforeResidual⟩⟩]

theorem temperature_fits : StateFits maxElements temperature := by
  have contract : ContractFits maxElements cellContract := ⟨by decide, by decide, by decide, by decide, by decide⟩
  have shape : ShapeFits haloShape := ⟨by decide, by decide, by decide⟩
  refine ⟨by decide, by decide, ⟨by decide, ?_⟩, ⟨by decide, ?_⟩, ⟨by decide, ?_⟩⟩
  · rintro _ (_ | ⟨_, ⟨⟩⟩)
    exact ⟨by decide +kernel, contract, shape, by decide, by decide⟩
  · rintro _ (_ | ⟨_, ⟨⟩⟩)
    exact ⟨by decide, ⟨by decide, by decide, by decide, by decide⟩, contract, shape, by decide +kernel, by decide⟩
  · rintro _ (_ | ⟨_, ⟨⟩⟩)
    refine ⟨by decide, ?_⟩
    rintro _ ⟨⟩
    exact ⟨by decide, by decide, by decide, by decide, by decide, by decide, by decide⟩

theorem temperature_round_trip :
    ∃ bytes, serialize temperature = .ok bytes ∧
      (deserialize bytes = .ok temperature ↔ StateFits maxElements temperature) ∧ StateFits maxElements temperature := by
  obtain ⟨bytes, written⟩ := exists_of_isOk (show (serialize temperature).isOk = true by decide +kernel)
  exact ⟨bytes, written, (auxiliary_checkpoint_round_trip (by norm_num)).1 _ _ written, temperature_fits⟩
/-- A contract of one byte more than the reader believes is written and not read back. -/
theorem oversized_auxiliary_checkpoint_not_restored :
    ∃ bytes, StateFits sizeMax (emptyState (List.replicate (maxElements + 1) (byteOf 0))) ∧
      serialize (emptyState (List.replicate (maxElements + 1) (byteOf 0))) = .ok bytes ∧
      deserialize bytes ≠ .ok (emptyState (List.replicate (maxElements + 1) (byteOf 0))) := by
  have written := emptyState_serializes (List.replicate (maxElements + 1) (byteOf 0)) (by simp)
  refine ⟨_, ⟨?_, by decide, by simp [emptyState], by simp [emptyState], by simp [emptyState]⟩, written,
    fun restored => ?_⟩
  · rw [emptyState, List.length_replicate]
    decide
  · obtain ⟨read, -⟩ := deserialize_ok.mp restored
    have fits := ((codes_state (by norm_num) : Codes true _ _ _).sound read).registryContract
    rw [emptyState, List.length_replicate] at fits
    exact absurd fits (Nat.not_succ_le_self maxElements)

end Pops.AuxiliaryCheckpoint
