import Pops.PersistentTagging

/-!
The hysteresis image and the hold law. A reachable state keeps its entries in
key order and within their hold, which is what the decoder asks of records,
except for their order: it takes them in any.
-/
namespace Pops.PersistentTagging

variable {d : ℕ}

/-- The coordinates of a key, outermost first. -/
def CellKey.rank (key : CellKey d) : List ℤ := key.parentLevel :: (List.finRange d).reverse.map key.cell

theorem CellKey.rank_injective : Function.Injective (CellKey.rank (d := d)) := by
  intro left right same
  obtain ⟨level, cells⟩ := List.cons.inj same
  exact CellKey.ext level (funext fun axis => List.map_inj_left.mp cells axis (by simp))

instance : LinearOrder (CellKey d) := LinearOrder.lift' CellKey.rank CellKey.rank_injective

theorem lessAxes_iff (left right : Index d) (axes : List (Fin d)) :
    lessAxes left right axes = true ↔ axes.map left < axes.map right := by
  induction axes with
  | nil => simp [lessAxes]
  | cons axis inner ih =>
    rw [lessAxes, List.map_cons, List.map_cons, List.cons_lt_cons_iff]
    split
    · rename_i different
      simp [different]
    · rename_i same
      rw [ne_eq, not_not] at same
      simp [same, ih]

theorem CellKey.less_iff (left right : CellKey d) : left.less right = true ↔ left < right := by
  change _ ↔ left.rank < right.rank
  rw [CellKey.less, CellKey.rank, CellKey.rank, List.cons_lt_cons_iff]
  split
  · rename_i different
    simp [different]
  · rename_i same
    rw [ne_eq, not_not] at same
    simp [same, lessAxes_iff]

namespace PersistentTaggingState

theorem take_ok {count : ℕ} {exception : Exception} {bytes value rest : Bytes} :
    Reader.take count exception bytes = .ok (value, rest) ↔ value.length = count ∧ bytes = value ++ rest := by
  have codes : Codes true (fun bytes => bytes.length = count) (fun bytes => bytes) (Reader.take count exception) :=
    Codes.take count
  refine ⟨fun ran => ⟨codes.sound ran, codes.written ran⟩, ?_⟩
  rintro ⟨width, rfl⟩
  exact codes.restores rest width

theorem codes_unsigned (size : ℕ) :
    Codes true (fun value => value < 256 ^ size) (fun value => littleEndian size value) (readUnsigned size) := by
  refine Codes.intro (fun value rest small => ?_) (fun bytes value rest ran => ?_)
  · have taken : Reader.take size truncated (littleEndian size value ++ rest) = .ok (littleEndian size value, rest) :=
      take_ok.mpr ⟨littleEndian_length size value, rfl⟩
    rw [readUnsigned, Reader.bind_eq, taken, ok_bind, Reader.pure_eq, fromLittleEndian_littleEndian, Nat.mod_eq_of_lt small]
  · rw [readUnsigned, Reader.bind_eq, bind_ok] at ran
    obtain ⟨⟨word, middle⟩, taken, made⟩ := ran
    obtain ⟨width, rfl⟩ := take_ok.mp taken
    cases made
    subst width
    exact ⟨fromLittleEndian_lt word, fun _ => by rw [littleEndian_fromLittleEndian]⟩

theorem codes_signed : Codes true FitsInt appendSigned readSigned := by
  refine Codes.intro (fun value rest fits => ?_) (fun bytes value rest ran => ?_)
  · have small : (value % 4294967296).toNat < 256 ^ 4 := by omega
    have back : ((value % 4294967296).toNat : ℤ) = value % 4294967296 := Int.toNat_of_nonneg (by omega)
    rw [readSigned, Reader.bind_eq, appendSigned, (codes_unsigned 4).restores rest small, ok_bind, Reader.pure_eq, back, castInt]
    rw [show (value % 4294967296).bmod 4294967296 = value from (Int.emod_bmod ..).trans (castInt_of_fits fits)]
  · rw [readSigned, Reader.bind_eq, bind_ok] at ran
    obtain ⟨⟨word, middle⟩, read, made⟩ := ran
    have small := (codes_unsigned 4).sound read
    have written := (codes_unsigned 4).written read
    rw [Reader.pure_eq, Except.ok.injEq, Prod.mk.injEq] at made
    obtain ⟨rfl, rfl⟩ := made
    have wrapped : castInt word % 4294967296 = word := by
      rw [castInt]
      exact (Int.bmod_emod ..).trans (by omega)
    have low := @Int.le_bmod word 4294967296 (by norm_num)
    have high := @Int.bmod_lt word 4294967296 (by norm_num)
    refine ⟨by dsimp only; unfold FitsInt castInt intMin intMax; omega, fun _ => ?_⟩
    rw [appendSigned, wrapped, Int.toNat_natCast]
    exact written

/-- The records that fit the image. -/
structure RecordFits (minCycles : ℤ) (parentDomains : List (Box d)) (cycle : ℕ) (record : CellKey d × Entry) : Prop where
  level : FitsInt record.1.parentLevel
  cell : ∀ axis, FitsInt (record.1.cell axis)
  decisionCycle : record.2.decisionCycle < 256 ^ 8
  valid : RecordValid minCycles parentDomains cycle record.1 record.2.decisionCycle record.2.decision.value

variable {minCycles : ℤ} {providerIdentity : Bytes} {parentDomains : List (Box d)} {cycle : ℕ}

theorem fromLittleEndian_decision (decision : Decision) : fromLittleEndian (littleEndian 1 decision.value) = decision.value := by
  cases decision <;> rfl

theorem codes_record : Codes true (RecordFits minCycles parentDomains cycle) writeRecord
    (readRecord minCycles parentDomains cycle) := by
  refine Completes.field (fun record : CellKey d × Entry => record.1.parentLevel) codes_signed (fun _ holds _ => holds.level) fun level levelFits => ?_
  refine Completes.field (fun record : CellKey d × Entry => record.1.cell) (codes_signed.axes d) (fun _ holds _ => holds.cell) fun cell cellFits => ?_
  refine Completes.field (fun record : CellKey d × Entry => record.2.decisionCycle) (codes_unsigned 8) (fun _ holds _ => holds.decisionCycle)
    fun decisionCycle cycleFits => ?_
  refine Completes.field (fun record : CellKey d × Entry => littleEndian 1 record.2.decision.value) (Codes.take 1)
    (fun _ _ _ => littleEndian_length ..) fun raw width => ?_
  refine Completes.check (fun record holds known => ?_) fun passed => ?_
  · obtain ⟨rfl, rfl, rfl, rfl, -⟩ := known
    rw [throwIf_ok, not_not, fromLittleEndian_decision]
    exact holds.valid
  · rw [throwIf_ok, not_not] at passed
    have back := littleEndian_fromLittleEndian raw
    rw [width] at back
    have decided : (if fromLittleEndian raw = Decision.refine.value then Decision.refine else .coarsen).value =
        fromLittleEndian raw := by
      rcases passed.2.2.2.2 with refine' | coarsen
      · rw [if_pos refine', refine']
      · rw [if_neg (by rw [coarsen]; decide), coarsen]
    apply Completes.done
    · exact ⟨levelFits, cellFits, cycleFits, by rw [decided]; exact passed⟩
    · exact ⟨by rw [decided, back], rfl, rfl, rfl, trivial⟩
    · rintro ⟨⟨_, _⟩, ⟨_, decision⟩⟩ ⟨rfl, rfl, rfl, rfl, -⟩
      rw [fromLittleEndian_decision]
      cases decision <;> rfl

theorem appendSigned_length (value : ℤ) : (appendSigned value).length = 4 := littleEndian_length ..

theorem writeRecord_length (record : CellKey d × Entry) : (writeRecord record).length = recordSize d := by
  have cells : (List.ofFn fun axis => appendSigned (record.1.cell axis)).flatten.length = d * 4 := by
    rw [List.length_flatten, List.map_ofFn]
    simp [Function.comp_def, appendSigned_length]
  simp only [writeRecord, List.flatten_cons, List.flatten_nil, List.append_nil, List.length_append, cells,
    appendSigned_length, littleEndian_length, recordSize]
  ring

theorem records_length (records : List (CellKey d × Entry)) :
    (records.flatMap writeRecord).length = records.length * recordSize d := by
  induction records with
  | nil => simp
  | cons record records ih =>
    rw [List.flatMap_cons, List.length_append, ih, writeRecord_length, List.length_cons]
    ring

/-- The records behind their count. -/
def readCounted (minCycles : ℤ) (parentDomains : List (Box d)) (cycle : ℕ) : Reader (List (CellKey d × Entry)) := do
  let count ← readUnsigned 8
  let left ← Reader.left
  Reader.lift (throwIf (count > left.length / recordSize d)
    (.invalidArgument "AMR checkpoint tagging hysteresis record count is invalid"))
  (readRecord minCycles parentDomains cycle).times count

theorem codes_counted : Codes true
    (fun records => records.length < 256 ^ 8 ∧ ∀ record ∈ records, RecordFits minCycles parentDomains cycle record)
    (fun records => [littleEndian 8 records.length, records.flatMap writeRecord].flatten)
    (readCounted minCycles parentDomains cycle) := by
  have positive : 0 < recordSize d := Nat.succ_pos _
  refine Codes.intro (fun records rest fits => ?_) (fun bytes records rest ran => ?_)
  · have room : ¬records.length > (records.flatMap writeRecord ++ rest).length / recordSize d := by
      rw [List.length_append, records_length, gt_iff_lt, not_lt, Nat.le_div_iff_mul_le positive]
      exact Nat.le_add_right ..
    rw [readCounted, Reader.bind_eq, List.flatten_cons, List.append_assoc, (codes_unsigned 8).restores _ fits.1, ok_bind,
      Reader.bind_left, List.flatten_singleton, Reader.bind_lift (throwIf_of_not room)]
    exact (codes_record.times records.length).restores rest ⟨rfl, fits.2⟩
  · rw [readCounted, Reader.bind_eq, bind_ok] at ran
    obtain ⟨⟨count, middle⟩, read, ran⟩ := ran
    have small := (codes_unsigned 8).sound read
    have written := (codes_unsigned 8).written read
    rw [Reader.bind_left, Reader.bind_eq, bind_ok] at ran
    obtain ⟨⟨_, after⟩, test, ran⟩ := ran
    obtain ⟨-, rfl⟩ := Reader.lift_ok.mp test
    have each := (codes_record.times count).sound ran
    have records' := (codes_record.times count).written ran
    dsimp only at records' written
    obtain ⟨rfl, fits⟩ := each
    refine ⟨⟨small, fits⟩, fun _ => ?_⟩
    rw [written, records', List.flatten_cons, List.flatten_singleton, List.append_assoc]

/-- The image without the state it makes. -/
def readImage (minCycles : ℤ) (providerIdentity : Bytes) (parentDomains : List (Box d)) :
    Reader (ℕ × List (CellKey d × Entry)) := do
  let unsupported : Exception := .invalidArgument "AMR checkpoint has an unsupported tagging hysteresis schema"
  Reader.expect magic unsupported unsupported
  let encodedDimension ← readUnsigned 4
  let encodedMinCycles ← readUnsigned 4
  let cycle ← readUnsigned 8
  let identitySize ← readUnsigned 8
  let encodedIdentity ← Reader.take identitySize
    (.invalidArgument "AMR checkpoint tagging provider identity is truncated")
  Reader.lift (throwIf (encodedDimension ≠ d ∨ encodedMinCycles ≠ minCycles.toNat ∨ encodedIdentity ≠ providerIdentity)
    (.invalidArgument "AMR checkpoint tagging hysteresis does not match the bound predicate graph"))
  let records ← readCounted minCycles parentDomains cycle
  return (cycle, records)

/-- What an image can hold. -/
structure ImageFits (minCycles : ℤ) (providerIdentity : Bytes) (parentDomains : List (Box d))
    (value : ℕ × List (CellKey d × Entry)) : Prop where
  dimension : d < 256 ^ 4
  cycles : minCycles.toNat < 256 ^ 4
  cycle : value.1 < 256 ^ 8
  identity : providerIdentity.length < 256 ^ 8
  count : value.2.length < 256 ^ 8
  records : ∀ record ∈ value.2, RecordFits minCycles parentDomains value.1 record

theorem codes_image : Codes true (ImageFits minCycles providerIdentity parentDomains)
    (fun value => image minCycles providerIdentity value.1 value.2)
    (readImage minCycles providerIdentity parentDomains) := by
  have pieces : (fun value : ℕ × List (CellKey d × Entry) => image minCycles providerIdentity value.1 value.2) =
      fun value => [magic, littleEndian 4 d, littleEndian 4 minCycles.toNat, littleEndian 8 value.1,
        littleEndian 8 providerIdentity.length, providerIdentity,
        [littleEndian 8 value.2.length, value.2.flatMap writeRecord].flatten].flatten :=
    funext fun value => by simp [image]
  rw [pieces]
  refine Completes.field (fun _ => ()) (Codes.expect magic) (fun _ _ _ => trivial) fun _ _ => ?_
  refine Completes.field (fun _ => d) (codes_unsigned 4) (fun _ holds _ => holds.dimension) fun dimension dimensionFits => ?_
  refine Completes.field (fun _ => minCycles.toNat) (codes_unsigned 4) (fun _ holds _ => holds.cycles)
    fun cycles cyclesFit => ?_
  refine Completes.field Prod.fst (codes_unsigned 8) (fun _ holds _ => holds.cycle) fun cycle cycleFits => ?_
  refine Completes.field (fun _ => providerIdentity.length) (codes_unsigned 8) (fun _ holds _ => holds.identity)
    fun size sizeFits => ?_
  refine Completes.field (fun _ => providerIdentity) (Codes.take size) (fun _ _ known => known.1) fun identity width => ?_
  refine Completes.check (fun value holds known => ?_) fun passed => ?_
  · obtain ⟨rfl, rfl, rfl, rfl, rfl, -⟩ := known
    simp
  · simp only [throwIf_ok, not_or, not_not, ne_eq] at passed
    obtain ⟨rfl, rfl, rfl⟩ := passed
    refine Completes.field Prod.snd codes_counted (fun value holds known => ?_) fun records recordsFit => ?_
    · obtain ⟨-, -, same, -⟩ := known
      rw [← same]
      exact ⟨holds.count, holds.records⟩
    · apply Completes.done (cycle, records)
      · exact ⟨dimensionFits, cyclesFit, cycleFits, width ▸ sizeFits, recordsFit.1, recordsFit.2⟩
      · exact ⟨rfl, rfl, width, rfl, rfl, rfl, rfl, trivial⟩
      · rintro ⟨_, _⟩ ⟨rfl, -, -, rfl, -⟩
        rfl

/-- Add records to a map, none of them twice. -/
def emplaceAll : List (CellKey d × Entry) → List (CellKey d × Entry) → Checked (List (CellKey d × Entry))
  | [], entries => .ok entries
  | (key, entry) :: later, entries => do
    throwIf (OrderedMap.find CellKey.less key entries ≠ none)
      (.invalidArgument "AMR checkpoint tagging hysteresis has duplicate cell state")
    emplaceAll later (OrderedMap.update CellKey.less key (fun _ => entry) entries)

theorem agrees_records (count : ℕ) (entries : List (CellKey d × Entry)) :
    (readRecords minCycles parentDomains cycle count entries).Agrees
      ((readRecord minCycles parentDomains cycle).times count >>= fun records => Reader.lift (emplaceAll records entries)) := by
  induction count generalizing entries with
  | zero => exact .refl _
  | succ count ih =>
    intro bytes out
    simp only [readRecords, Reader.times, Reader.bind_eq, bind_ok, Reader.pure_eq]
    constructor
    · rintro ⟨⟨⟨key, entry⟩, middle⟩, read, ⟨_, after⟩, test, ran⟩
      obtain ⟨fresh, rfl⟩ := Reader.lift_ok.mp test
      obtain ⟨⟨later, last⟩, readLater, added⟩ := bind_ok.mp ((ih _ _ _).mp ran)
      obtain ⟨final, rest⟩ := out
      obtain ⟨emplaced, rfl⟩ := Reader.lift_ok.mp added
      refine ⟨((key, entry) :: later, last), ⟨_, read, _, readLater, rfl⟩, Reader.lift_ok.mpr ⟨?_, rfl⟩⟩
      rw [emplaceAll, fresh]
      exact emplaced
    · rintro ⟨_, ⟨⟨⟨key, entry⟩, middle⟩, read, ⟨later, last⟩, readLater, made⟩, added⟩
      cases made
      obtain ⟨final, rest⟩ := out
      obtain ⟨emplaced, rfl⟩ := Reader.lift_ok.mp added
      rw [emplaceAll, bind_ok] at emplaced
      obtain ⟨_, fresh, emplaced⟩ := emplaced
      exact ⟨_, read, _, Reader.lift_ok.mpr ⟨fresh, rfl⟩,
        (ih _ _ _).mpr (bind_ok.mpr ⟨_, readLater, Reader.lift_ok.mpr ⟨emplaced, rfl⟩⟩)⟩

theorem readState_ok {bytes rest : Bytes} {state : PersistentTaggingState d} :
    readState minCycles providerIdentity parentDomains bytes = .ok (state, rest) ↔
      ∃ records, readImage minCycles providerIdentity parentDomains bytes = .ok ((state.cycle, records), rest) ∧
        emplaceAll records [] = .ok state.entries := by
  have agrees : (readState minCycles providerIdentity parentDomains).Agrees
      (readImage minCycles providerIdentity parentDomains >>= fun value =>
        Reader.lift (emplaceAll value.2 []) >>= fun entries => pure ⟨value.1, entries⟩) := by
    simp only [readState, readImage, readCounted, bind_assoc, pure_bind]
    refine (Reader.Agrees.refl _).bind fun _ => (Reader.Agrees.refl _).bind fun _ => (Reader.Agrees.refl _).bind fun _ =>
      (Reader.Agrees.refl _).bind fun cycle => (Reader.Agrees.refl _).bind fun _ => (Reader.Agrees.refl _).bind fun _ =>
      (Reader.Agrees.refl _).bind fun _ => (Reader.Agrees.refl _).bind fun count => (Reader.Agrees.refl _).bind fun _ =>
      (Reader.Agrees.refl _).bind fun _ => ?_
    have whole := (@agrees_records d minCycles parentDomains cycle count []).bind
      fun entries => Reader.Agrees.refl (pure (⟨cycle, entries⟩ : PersistentTaggingState d))
    rwa [bind_assoc] at whole
  rw [agrees, Reader.bind_eq, bind_ok]
  constructor
  · rintro ⟨⟨⟨cycle, records⟩, middle⟩, read, ran⟩
    rw [Reader.bind_eq, bind_ok] at ran
    obtain ⟨⟨entries, after⟩, added, made⟩ := ran
    obtain ⟨emplaced, rfl⟩ := Reader.lift_ok.mp added
    cases made
    exact ⟨records, read, emplaced⟩
  · rintro ⟨records, read, emplaced⟩
    refine ⟨_, read, ?_⟩
    rw [Reader.bind_lift emplaced]
    rfl

variable {key : CellKey d}

theorem find_none {entries : List (CellKey d × Entry)}
    (ordered : entries.Pairwise fun left right => left.1 < right.1)
    (absent : OrderedMap.find CellKey.less key entries = none) : ∀ entry ∈ entries, entry.1 ≠ key := by
  rintro ⟨other, entry⟩ listed rfl
  rw [(OrderedMap.find_eq_some CellKey.less_iff ordered).mpr listed] at absent
  cases absent

theorem emplaceAll_ordered (records entries : List (CellKey d × Entry))
    (ordered : (entries ++ records).Pairwise fun left right => left.1 < right.1) :
    emplaceAll records entries = .ok (entries ++ records) := by
  induction records generalizing entries with
  | nil => rw [List.append_nil, emplaceAll]
  | cons record records ih =>
    obtain ⟨key, entry⟩ := record
    have front := (List.pairwise_append.mp ordered).1
    have above (other : CellKey d × Entry) (listed : other ∈ entries) : other.1 < key :=
      (List.pairwise_append.mp ordered).2.2 other listed _ List.mem_cons_self
    have fresh : OrderedMap.find CellKey.less key entries = none := by
      rw [Option.eq_none_iff_forall_ne_some]
      intro value found
      exact (above _ ((OrderedMap.find_eq_some CellKey.less_iff front).mp found)).ne rfl
    have passed : ¬OrderedMap.find CellKey.less key entries ≠ none := by rw [fresh]; simp
    rw [emplaceAll, throwIf_of_not passed, ok_bind, OrderedMap.update_last CellKey.less_iff above, ih]
    · rw [List.append_assoc, List.singleton_append]
    · rwa [List.append_assoc, List.singleton_append]

theorem emplaceAll_perm {records entries final : List (CellKey d × Entry)}
    (ordered : entries.Pairwise fun left right => left.1 < right.1) (ran : emplaceAll records entries = .ok final) :
    final.Pairwise (fun left right => left.1 < right.1) ∧ final.Perm (entries ++ records) := by
  induction records generalizing entries with
  | nil =>
    cases ran
    exact ⟨ordered, by rw [List.append_nil]⟩
  | cons record records ih =>
    obtain ⟨key, entry⟩ := record
    rw [emplaceAll, bind_ok] at ran
    obtain ⟨_, fresh, ran⟩ := ran
    rw [throwIf_ok, ne_eq, not_not] at fresh
    obtain ⟨sorted, perm⟩ := ih (OrderedMap.update_ordered CellKey.less_iff ordered) ran
    refine ⟨sorted, perm.trans ?_⟩
    have added : (OrderedMap.update CellKey.less key (fun _ => entry) entries).Perm ((key, entry) :: entries) :=
      OrderedMap.update_perm CellKey.less_iff (find_none ordered fresh)
    exact (added.append_right records).trans List.perm_middle.symm

/-- A cell of a bound level. -/
structure KeyFits (parentDomains : List (Box d)) (key : CellKey d) : Prop where
  nonneg : 0 ≤ key.parentLevel
  level : FitsInt key.parentLevel
  cell : ∀ axis, FitsInt (key.cell axis)
  inside : ∃ domain ∈ parentDomains[key.parentLevel.toNat]?, domain.Contains key.cell

/-- A tagging cycle opens, or a cell asks for a transition. -/
inductive Event (d : ℕ) where
  | beginCycle
  | request (key : CellKey d) (decision : Decision)

def Event.apply (minCycles : ℤ) (state : PersistentTaggingState d) : Event d → Checked (PersistentTaggingState d)
  | .beginCycle => state.beginCycle minCycles
  | .request key decision => state.request key decision minCycles

/-- The states of a run. -/
def run (minCycles : ℤ) (events : List (Event d)) (state : PersistentTaggingState d) : Checked (PersistentTaggingState d) :=
  events.foldlM (Event.apply minCycles) state

/-- The requests of a run are about cells of bound levels. -/
def Requests (parentDomains : List (Box d)) (events : List (Event d)) : Prop :=
  ∀ key decision, Event.request key decision ∈ events → KeyFits parentDomains key

/-- Entries are in order and within their hold. -/
structure Holds (minCycles : ℤ) (state : PersistentTaggingState d) : Prop where
  nonneg : 0 ≤ minCycles
  cycle : state.cycle ≤ sizeMax
  disabled : minCycles = 0 → state = {}
  ordered : state.entries.Pairwise fun left right => left.1 < right.1
  held : ∀ entry ∈ state.entries, entry.2.decisionCycle ≤ state.cycle ∧
    state.cycle - entry.2.decisionCycle < minCycles.toNat

theorem uint64Sub_eq {left right : ℕ} (above : right ≤ left) (small : left ≤ sizeMax) :
    uint64Sub left right = left - right := by
  unfold uint64Sub
  unfold sizeMax at small
  omega

variable {state next : PersistentTaggingState d}

theorem requireMinCycles_ok : requireMinCycles minCycles = .ok () ↔ 0 ≤ minCycles := by
  rw [requireMinCycles, throwIf_ok, not_lt]

theorem beginCycle_ok (holds : Holds minCycles state) (ran : state.beginCycle minCycles = .ok next) :
    (minCycles = 0 ∧ next = {}) ∨ (0 < minCycles ∧ next.cycle = state.cycle + 1 ∧ next.cycle ≤ sizeMax ∧
      next.entries = state.entries.filter fun entry => next.cycle - entry.2.decisionCycle < minCycles.toNat) := by
  simp only [beginCycle, bind_ok, requireMinCycles_ok, unit_exists] at ran
  obtain ⟨nonneg, ran⟩ := ran
  by_cases disabled : minCycles = 0
  · rw [if_pos disabled, pure_ok] at ran
    exact .inl ⟨disabled, ran.symm⟩
  · simp only [if_neg disabled, bind_ok, throwIf_ok, unit_exists, pure_ok] at ran
    obtain ⟨room, rfl⟩ := ran
    have below : state.cycle + 1 ≤ sizeMax := by
      have := holds.cycle
      omega
    refine .inr ⟨by omega, rfl, below, List.filter_congr fun entry listed => ?_⟩
    rw [uint64Sub_eq (by have := (holds.held entry listed).1; omega) below]

theorem transitionAllowed_ok (holds : Holds minCycles state) {allowed : Bool} :
    state.transitionAllowed key minCycles = .ok allowed ↔
      (allowed = true ↔ ∀ entry, (key, entry) ∈ state.entries → minCycles.toNat ≤ state.cycle - entry.decisionCycle) := by
  have passed := requireMinCycles_ok.mpr holds.nonneg
  rw [transitionAllowed, passed, ok_bind]
  by_cases disabled : minCycles = 0
  · rw [if_pos disabled, pure_ok, holds.disabled disabled]
    simp
  · rw [if_neg disabled, pure_ok]
    cases found : OrderedMap.find CellKey.less key state.entries with
    | none =>
      have absent := find_none holds.ordered found
      simp only
      constructor
      · rintro rfl
        simp only [true_iff]
        exact fun entry listed => absurd rfl (absent _ listed)
      · exact fun same => (same.mpr fun entry listed => absurd rfl (absent _ listed)).symm
    | some entry =>
      have listed := (OrderedMap.find_eq_some CellKey.less_iff holds.ordered).mp found
      have only (other : Entry) : (key, other) ∈ state.entries ↔ other = entry := by
        rw [← OrderedMap.find_eq_some CellKey.less_iff holds.ordered, found, Option.some.injEq, eq_comm]
      simp only [only, forall_eq, uint64Sub_eq (holds.held _ listed).1 holds.cycle, ge_iff_le]
      cases allowed <;> simp

theorem request_ok (holds : Holds minCycles state) {decision : Decision}
    (ran : state.request key decision minCycles = .ok next) :
    next = state ∨ (0 < minCycles ∧
      (∀ entry, (key, entry) ∈ state.entries → minCycles.toNat ≤ state.cycle - entry.decisionCycle) ∧
      next.cycle = state.cycle ∧
      next.entries = OrderedMap.update CellKey.less key (fun _ => ⟨state.cycle, decision⟩) state.entries) := by
  rw [request, bind_ok] at ran
  obtain ⟨allowed, asked, ran⟩ := ran
  rw [transitionAllowed_ok holds] at asked
  cases allowed with
  | false => exact .inl (Except.ok.inj ran).symm
  | true =>
    simp only [if_true, record, bind_ok, requireMinCycles_ok, unit_exists] at ran
    obtain ⟨nonneg, ran⟩ := ran
    by_cases disabled : minCycles = 0
    · rw [if_pos disabled, pure_ok] at ran
      exact .inl ran.symm
    · simp only [if_neg disabled, bind_ok, throwIf_ok, unit_exists, pure_ok] at ran
      obtain ⟨-, rfl⟩ := ran
      exact .inr ⟨by omega, asked.mp rfl, rfl, rfl⟩

theorem Holds.apply (holds : Holds minCycles state) {event : Event d} (ran : event.apply minCycles state = .ok next) :
    Holds minCycles next := by
  cases event with
  | beginCycle =>
    rcases beginCycle_ok holds ran with ⟨disabled, rfl⟩ | ⟨positive, cycle, below, entries⟩
    · exact ⟨holds.nonneg, Nat.zero_le _, fun _ => rfl, .nil, fun _ listed => absurd listed (by simp)⟩
    · refine ⟨holds.nonneg, below, fun disabled => by omega, by rw [entries]; exact holds.ordered.filter _, fun entry listed => ?_⟩
      rw [entries, List.mem_filter, decide_eq_true_eq] at listed
      have := (holds.held entry listed.1).1
      exact ⟨by omega, listed.2⟩
  | request key decision =>
    rcases request_ok holds ran with rfl | ⟨positive, -, cycle, entries⟩
    · exact holds
    · refine ⟨holds.nonneg, cycle ▸ holds.cycle, fun disabled => by omega,
        entries ▸ OrderedMap.update_ordered CellKey.less_iff holds.ordered, fun entry listed => ?_⟩
      rw [entries] at listed
      rcases OrderedMap.update_mem CellKey.less_iff listed with ⟨-, -, made⟩ | before
      · rw [made, cycle]
        exact ⟨le_rfl, by simp only [Nat.sub_self]; omega⟩
      · rw [cycle]
        exact holds.held entry before

theorem Holds.run (holds : Holds minCycles state) {events : List (Event d)} (ran : run minCycles events state = .ok next) :
    Holds minCycles next :=
  foldlM_ok_invariant (fun _ state => Holds minCycles state) (fun _ _ _ _ holds ran => holds.apply ran) events state next []
    holds ran

theorem holds_initial (nonneg : 0 ≤ minCycles) : Holds minCycles ({} : PersistentTaggingState d) :=
  ⟨nonneg, Nat.zero_le _, fun _ => rfl, .nil, fun _ listed => absurd listed (by simp)⟩

theorem run_keys (holds : Holds minCycles state) {events : List (Event d)} (requests : Requests parentDomains events)
    (inside : ∀ entry ∈ state.entries, KeyFits parentDomains entry.1) (ran : run minCycles events state = .ok next) :
    ∀ entry ∈ next.entries, KeyFits parentDomains entry.1 := by
  induction events generalizing state with
  | nil =>
    cases ran
    exact inside
  | cons event events ih =>
    rw [PersistentTaggingState.run, List.foldlM_cons, bind_ok] at ran
    obtain ⟨middle, first, rest⟩ := ran
    refine ih (holds.apply first) (fun key decision listed => requests key decision (List.mem_cons_of_mem _ listed)) ?_ rest
    intro entry listed
    cases event with
    | beginCycle =>
      rcases beginCycle_ok holds first with ⟨-, rfl⟩ | ⟨-, -, -, entries⟩
      · simp at listed
      · rw [entries, List.mem_filter] at listed
        exact inside entry listed.1
    | request key decision =>
      rcases request_ok holds first with rfl | ⟨-, -, -, entries⟩
      · exact inside entry listed
      · rw [entries] at listed
        rcases OrderedMap.update_mem CellKey.less_iff listed with ⟨same, -⟩ | before
        · rw [same]
          exact requests key decision List.mem_cons_self
        · exact inside entry before

/-- A cell whose decision changed at a cycle remembers it, or its hold is over. -/
def Remembers (minCycles : ℤ) (key : CellKey d) (changed : ℕ) (state : PersistentTaggingState d) : Prop :=
  changed + minCycles.toNat ≤ state.cycle ∨ ∃ entry, (key, entry) ∈ state.entries ∧ changed ≤ entry.decisionCycle

theorem Remembers.apply {changed : ℕ} (positive : 0 < minCycles) (holds : Holds minCycles state)
    (remembers : Remembers minCycles key changed state) {event : Event d}
    (ran : event.apply minCycles state = .ok next) :
    Remembers minCycles key changed next := by
  cases event with
  | beginCycle =>
    rcases beginCycle_ok holds ran with ⟨disabled, -⟩ | ⟨-, cycle, -, entries⟩
    · omega
    · rcases remembers with past | ⟨entry, listed, since⟩
      · exact .inl (by omega)
      · by_cases kept : next.cycle - entry.decisionCycle < minCycles.toNat
        · refine .inr ⟨entry, ?_, since⟩
          rw [entries, List.mem_filter]
          exact ⟨listed, decide_eq_true kept⟩
        · exact .inl (by omega)
  | request other decision =>
    rcases request_ok holds ran with rfl | ⟨-, allowed, cycle, entries⟩
    · exact remembers
    · rcases remembers with past | ⟨entry, listed, since⟩
      · exact .inl (by omega)
      · by_cases same : key = other
        · -- the request is about the cell itself, whose hold is then over
          subst same
          have old := allowed entry listed
          exact .inl (by omega)
        · refine .inr ⟨entry, ?_, since⟩
          have ordered := (holds.apply (show Event.apply minCycles state (.request other decision) = .ok next from ran)).ordered
          rw [← OrderedMap.find_eq_some CellKey.less_iff ordered, entries, OrderedMap.find_update_ne CellKey.less_iff same,
            OrderedMap.find_eq_some CellKey.less_iff holds.ordered]
          exact listed

theorem hold {decision : Decision} {events : List (Event d)} {changed after : PersistentTaggingState d}
    (holds : Holds minCycles state) (allowed : state.transitionAllowed key minCycles = .ok true)
    (first : state.request key decision minCycles = .ok changed) (ran : run minCycles events changed = .ok after)
    (again : after.transitionAllowed key minCycles = .ok true) : state.cycle + minCycles.toNat ≤ after.cycle := by
  have kept : Holds minCycles changed := holds.apply (show Event.apply minCycles state (.request key decision) = .ok changed from first)
  have reached := kept.run ran
  rcases holds.nonneg.lt_or_eq with positive | disabled
  · have recorded : Remembers minCycles key state.cycle changed := by
      refine .inr ⟨⟨state.cycle, decision⟩, ?_, le_rfl⟩
      rw [request, allowed, ok_bind, if_pos rfl, PersistentTaggingState.record, requireMinCycles_ok.mpr holds.nonneg, ok_bind,
        if_neg positive.ne', bind_ok] at first
      obtain ⟨_, -, made⟩ := first
      cases made
      rw [← OrderedMap.find_eq_some CellKey.less_iff kept.ordered]
      exact OrderedMap.find_update_self CellKey.less_iff
    have remembers := foldlM_ok_invariant
      (fun _ state => Holds minCycles state ∧ Remembers minCycles key _ state)
      (fun _ _ _ _ both ran => ⟨both.1.apply ran, both.2.apply positive both.1 ran⟩) events changed after [] ⟨kept, recorded⟩ ran
    rcases remembers.2 with past | ⟨entry, listed, since⟩
    · exact past
    · have old := ((transitionAllowed_ok reached).mp again).mp rfl entry listed
      have := (reached.held _ listed).1
      omega
  · rw [holds.disabled disabled.symm, reached.disabled disabled.symm, ← disabled]
    exact le_rfl

theorem image_length_ge (minCycles : ℤ) (providerIdentity : Bytes) (cycle : ℕ) (records : List (CellKey d × Entry)) :
    providerIdentity.length + records.length ≤ (image minCycles providerIdentity cycle records).length := by
  have width : records.length ≤ (records.flatMap writeRecord).length := by
    rw [records_length]
    exact Nat.le_mul_of_pos_right _ (Nat.succ_pos _)
  simp only [image, List.flatten_cons, List.flatten_nil, List.append_nil, List.length_append]
  omega

theorem decode_image {records entries : List (CellKey d × Entry)} (nonneg : 0 ≤ minCycles) (enabled : minCycles ≠ 0)
    (named : providerIdentity ≠ []) (bound : parentDomains ≠ [])
    (fits : ImageFits minCycles providerIdentity parentDomains (cycle, records))
    (emplaced : emplaceAll records [] = .ok entries) :
    decode (image minCycles providerIdentity cycle records) minCycles providerIdentity parentDomains = .ok ⟨cycle, entries⟩ := by
  have read : readState minCycles providerIdentity parentDomains (image minCycles providerIdentity cycle records) =
      .ok (⟨cycle, entries⟩, []) := by
    refine readState_ok.mpr ⟨records, ?_, emplaced⟩
    have restored := codes_image.restores [] fits
    rwa [List.append_nil] at restored
  simp only [decode, requireMinCycles_ok.mpr nonneg, ok_bind, if_neg enabled,
    throwIf_of_not (not_or.mpr ⟨named, bound⟩), StateT.run, read]
  rfl

theorem decode_ok {payload : Bytes} (enabled : minCycles ≠ 0)
    (ran : decode payload minCycles providerIdentity parentDomains = .ok state) :
    0 ≤ minCycles ∧ providerIdentity ≠ [] ∧ parentDomains ≠ [] ∧ ∃ records,
      payload = image minCycles providerIdentity state.cycle records ∧
        ImageFits minCycles providerIdentity parentDomains (state.cycle, records) ∧
        emplaceAll records [] = .ok state.entries := by
  simp only [decode, bind_ok, requireMinCycles_ok, unit_exists, if_neg enabled, throwIf_ok, not_or, pure_ok, ne_eq,
    not_not] at ran
  obtain ⟨nonneg, ⟨named, bound⟩, ⟨read, rest⟩, ran, rfl, rfl⟩ := ran
  obtain ⟨records, imaged, emplaced⟩ := readState_ok.mp ran
  have written := codes_image.written imaged
  rw [List.append_nil] at written
  exact ⟨nonneg, named, bound, records, written, codes_image.sound imaged, emplaced⟩

theorem imageFits_of_reachable (dimension : d ≤ 3) (small : FitsInt minCycles) {events : List (Event d)}
    (requests : Requests parentDomains events) (nonneg : 0 ≤ minCycles) (ran : run minCycles events {} = .ok state)
    (short : (image minCycles providerIdentity state.cycle state.entries).length ≤ maximumBytes) :
    ImageFits minCycles providerIdentity parentDomains (state.cycle, state.entries) := by
  have holds := (holds_initial nonneg).run ran
  have keys := run_keys (holds_initial nonneg) requests (fun _ listed => absurd listed (by simp)) ran
  have bytes := image_length_ge minCycles providerIdentity state.cycle state.entries
  have cycle := holds.cycle
  have high := small.2
  unfold maximumBytes at short
  unfold sizeMax at cycle
  unfold intMax at high
  refine ⟨by omega, by omega, by simp only; omega, by omega, by simp only; omega, fun entry listed => ?_⟩
  obtain ⟨past, young⟩ := holds.held entry listed
  obtain ⟨levelNonneg, level, cell, inside⟩ := keys entry listed
  refine ⟨level, cell, by omega, levelNonneg, inside, past, ?_, ?_⟩
  · rw [uint64Sub_eq past holds.cycle]
    exact young
  · cases entry.2.decision
    · exact .inl rfl
    · exact .inr rfl

/-- Decoding restores reachable states; an accepted payload is the image of its records in some
order, and the image of the state it makes exactly when that is the order of keys; between two
accepted changes of a cell lies its hold. -/
theorem persistent_tagging (dimension : d ≤ 3) (small : FitsInt minCycles) (bound : parentDomains ≠ []) :
    (∀ (events : List (Event d)) (state : PersistentTaggingState d) (payload : Bytes), Requests parentDomains events →
      run minCycles events {} = .ok state → state.encode minCycles providerIdentity = .ok payload →
        decode payload minCycles providerIdentity parentDomains = .ok state) ∧
    (∀ (payload : Bytes) (state : PersistentTaggingState d), payload.length ≤ maximumBytes →
      decode payload minCycles providerIdentity parentDomains = .ok state →
        minCycles = 0 ∧ state.encode minCycles providerIdentity = .ok payload ∨
        ∃ records, payload = image minCycles providerIdentity state.cycle records ∧ records.Perm state.entries ∧
          (state.encode minCycles providerIdentity = .ok payload ↔
            records.Pairwise fun left right => left.1 < right.1)) ∧
    ∀ (before later : List (Event d)) (state changed after : PersistentTaggingState d) (key : CellKey d)
      (decision : Decision), 0 ≤ minCycles → run minCycles before {} = .ok state →
      state.transitionAllowed key minCycles = .ok true → state.request key decision minCycles = .ok changed →
      run minCycles later changed = .ok after → after.transitionAllowed key minCycles = .ok true →
        state.cycle + minCycles.toNat ≤ after.cycle := by
  refine ⟨fun events state payload requests ran encoded => ?_, fun payload state short decoded => ?_,
    fun before later state changed after key decision nonneg reached allowed first ran again =>
      hold ((holds_initial nonneg).run reached) allowed first ran again⟩
  · simp only [encode, bind_ok, requireMinCycles_ok, unit_exists] at encoded
    obtain ⟨nonneg, encoded⟩ := encoded
    have holds := (holds_initial nonneg).run ran
    by_cases disabled : minCycles = 0
    · simp only [if_pos disabled, bind_ok, unit_exists, pure_ok] at encoded
      obtain ⟨-, rfl⟩ := encoded
      rw [holds.disabled disabled, decode, requireMinCycles_ok.mpr nonneg, ok_bind, if_pos disabled]
      rfl
    · simp only [if_neg disabled, bind_ok, throwIf_ok, unit_exists, pure_ok, not_lt, gt_iff_lt] at encoded
      obtain ⟨named, short, rfl⟩ := encoded
      exact decode_image nonneg disabled named bound (imageFits_of_reachable dimension small requests nonneg ran short)
        (by simpa using emplaceAll_ordered state.entries [] holds.ordered)
  · by_cases disabled : minCycles = 0
    · subst disabled
      have passed : requireMinCycles 0 = .ok () := rfl
      simp only [decode, passed, ok_bind, if_true, bind_ok, throwIf_ok, unit_exists, pure_ok, ne_eq, not_not] at decoded
      obtain ⟨rfl, rfl⟩ := decoded
      exact .inl ⟨rfl, rfl⟩
    · obtain ⟨nonneg, named, -, records, rfl, fits, emplaced⟩ := decode_ok disabled decoded
      obtain ⟨ordered, perm⟩ := emplaceAll_perm .nil emplaced
      rw [List.nil_append] at perm
      refine .inr ⟨records, rfl, perm.symm, ?_⟩
      simp only [encode, bind_ok, requireMinCycles_ok, unit_exists, if_neg disabled, throwIf_ok, pure_ok]
      constructor
      · rintro ⟨-, -, -, same⟩
        have other : ImageFits minCycles providerIdentity parentDomains (state.cycle, state.entries) :=
          ⟨fits.dimension, fits.cycles, fits.cycle, fits.identity, by rw [perm.length_eq]; exact fits.count,
            fun entry listed => fits.records entry (perm.mem_iff.mp listed)⟩
        have first := codes_image.restores [] fits
        have second := codes_image.restores [] other
        rw [same, first, Except.ok.injEq, Prod.mk.injEq, Prod.mk.injEq] at second
        rw [second.1.2]
        exact ordered
      · intro sorted
        obtain rfl : state.entries = records := perm.eq_of_pairwise
          (fun left right _ _ below above => absurd (below.trans above) (lt_irrefl _)) ordered sorted
        exact ⟨nonneg, named, by omega, rfl⟩

def cellAt (coordinate : ℤ) : CellKey 1 := ⟨0, fun _ => coordinate⟩

/-- One level of four cells. -/
def fourCells : List (Box 1) := [⟨fun _ => 0, fun _ => 3⟩]

/-- A cell changes in the first cycle, and again two cycles later. -/
theorem persistent_tagging_held : ∃ state changed after,
    run 2 [.beginCycle] ({} : PersistentTaggingState 1) = .ok state ∧
      state.request (cellAt 1) .refine 2 = .ok changed ∧ run 2 [.beginCycle, .beginCycle] changed = .ok after ∧
      after.transitionAllowed (cellAt 1) 2 = .ok true ∧ state.cycle + 2 ≤ after.cycle := by
  obtain ⟨state, reached, allowed, changed, first, after, ran, again⟩ : ∃ state,
      run 2 [.beginCycle] ({} : PersistentTaggingState 1) = .ok state ∧
        state.transitionAllowed (cellAt 1) 2 = .ok true ∧ ∃ changed, state.request (cellAt 1) .refine 2 = .ok changed ∧
        ∃ after, run 2 [.beginCycle, .beginCycle] changed = .ok after ∧ after.transitionAllowed (cellAt 1) 2 = .ok true :=
    ⟨_, rfl, rfl, _, rfl, _, rfl, rfl⟩
  exact ⟨state, changed, after, reached, first, ran, again,
    (@persistent_tagging 1 2 [0] fourCells (by decide) (by decide) (by decide)).2.2 [.beginCycle] _ state changed after
      (cellAt 1) .refine (by decide) reached allowed first ran again⟩

/-- Records of two cells, the second cell first. -/
def reversedRecords : List (CellKey 1 × Entry) := [(cellAt 1, ⟨1, .refine⟩), (cellAt 0, ⟨1, .coarsen⟩)]

private theorem reversedRecords_fit : ImageFits 2 [0] fourCells (1, reversedRecords) := by
  refine ⟨by decide, by decide, by decide, by decide, by decide, ?_⟩
  simp only [reversedRecords, List.forall_mem_cons]
  exact ⟨⟨by decide, by decide, by decide, by decide⟩, ⟨by decide, by decide, by decide, by decide⟩, by simp⟩

/-- The decoder takes them, but their state has another image. -/
theorem decode_takes_any_order : ¬∀ (payload : Bytes) (state : PersistentTaggingState 1),
    decode payload 2 [0] fourCells = .ok state → state.encode 2 [0] = .ok payload := by
  intro canonical
  have decoded : decode (image 2 [0] 1 reversedRecords) 2 [0] fourCells = .ok ⟨1, reversedRecords.reverse⟩ :=
    decode_image (by decide) (by decide) (by decide) (by decide) reversedRecords_fit rfl
  have other : image 2 [0] 1 reversedRecords.reverse = image 2 [0] 1 reversedRecords :=
    Except.ok.inj (canonical _ _ decoded)
  exact absurd other (by decide)

end PersistentTaggingState

end Pops.PersistentTagging
