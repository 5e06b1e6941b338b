import Mathlib.Tactic.Ring
import Pops.ScratchPlan

/-!
The slots of the linear scan are sound for the ranges that it is given. The ranges cover the direct
uses of a value, not those of what an in-place operation gives back, and the assignment has one entry
for a name.
-/
namespace Pops.ScratchPlan

section
variable {α β : Type} {f : β → α → β} {holds : β → Prop}

theorem foldl_keeps {items : List α} (keeps : ∀ state, ∀ item ∈ items, holds state → holds (f state item))
    {state : β} (first : holds state) : holds (items.foldl f state) := by
  induction items generalizing state with
  | nil => exact first
  | cons item rest ih =>
    exact ih (fun state other listed => keeps state other (List.mem_cons_of_mem _ listed))
      (keeps state item List.mem_cons_self first)

theorem foldl_establishes {items : List α} (keeps : ∀ state, ∀ item ∈ items, holds state → holds (f state item))
    {item : α} (listed : item ∈ items) (establishes : ∀ state, holds (f state item)) (state : β) :
    holds (items.foldl f state) := by
  obtain ⟨before, after, rfl⟩ := List.append_of_mem listed
  rw [List.foldl_append, List.foldl_cons]
  exact foldl_keeps (fun state other found => keeps state other (by simp [found])) (establishes _)

end

/-- An entry of `last_use` that is not below an index. -/
def Covers (id index : ℕ) (lastUse : LastUse) : Prop := ∃ last, lastUse id = some last ∧ index ≤ last

section
variable {program : Program} {id index : ℕ}

variable {lastUse : LastUse} {entry : Value × ℕ}

theorem extend_keeps (at_index other : ℕ) (covers : Covers id index lastUse) :
    Covers id index (program.extend at_index lastUse other) := by
  obtain ⟨last, found, below⟩ := covers
  unfold Program.extend
  split
  · exact ⟨last, found, below⟩
  · by_cases same : id = other
    · subst same
      exact ⟨_, Function.update_self .., by rw [found]; exact below.trans (le_max_left _ _)⟩
    · exact ⟨last, by rw [Function.update_of_ne same, found], below⟩

theorem extend_self (flat : (program.order id).isSome) :
    Covers id index (program.extend index lastUse id) := by
  obtain ⟨defined, found⟩ := Option.isSome_iff_exists.mp flat
  unfold Program.extend
  rw [found]
  exact ⟨_, Function.update_self .., le_max_right _ _⟩

theorem close_keeps (inside : index ≤ program.last) (other : ℕ)
    (covers : Covers id index lastUse) : Covers id index (program.close lastUse other) := by
  obtain ⟨last, found, below⟩ := covers
  unfold Program.close
  split
  · exact ⟨last, found, below⟩
  · by_cases same : id = other
    · subst same
      exact ⟨_, Function.update_self .., inside⟩
    · exact ⟨last, by rw [Function.update_of_ne same, found], below⟩

theorem close_self (inside : index ≤ program.last) (flat : (program.order id).isSome) :
    Covers id index (program.close lastUse id) := by
  obtain ⟨defined, found⟩ := Option.isSome_iff_exists.mp flat
  unfold Program.close
  rw [found]
  exact ⟨_, Function.update_self .., inside⟩

theorem scan_keeps (inside : index ≤ program.last) (entry : Value × ℕ)
    (covers : Covers id index lastUse) : Covers id index (program.scan lastUse entry) := by
  have direct : Covers id index (entry.1.reads.foldl (program.extend entry.2) lastUse) :=
    foldl_keeps (fun _ other _ => extend_keeps entry.2 other) covers
  unfold Program.scan
  split
  · exact foldl_keeps (fun _ other _ => close_keeps inside other) direct
  · exact direct

theorem scan_read (inside : entry.2 ≤ program.last) (flat : (program.order id).isSome) (read : id ∈ entry.1.reads) :
    Covers id entry.2 (program.scan lastUse entry) := by
  have direct : Covers id entry.2 (entry.1.reads.foldl (program.extend entry.2) lastUse) :=
    foldl_establishes (fun _ other _ => extend_keeps entry.2 other) read (fun _ => extend_self flat) lastUse
  unfold Program.scan
  split
  · exact foldl_keeps (fun _ other _ => close_keeps inside other) direct
  · exact direct

theorem scan_enclosed (flat : (program.order id).isSome) (owner : entry.1.op ∈ subblockOps)
    (enclosed : id ∈ entry.1.subblockValueRefs) :
    Covers id program.last (program.scan lastUse entry) := by
  unfold Program.scan
  rw [if_pos owner]
  exact foldl_establishes (fun _ other _ => close_keeps le_rfl other) enclosed (fun _ => close_self le_rfl flat) _

theorem index_le_last {value : Value} {position : ℕ} (listed : (value, position) ∈ program.values.zipIdx) :
    position ≤ program.last := by
  have below := (List.getElem?_eq_some_iff.mp (List.mk_mem_zipIdx_iff_getElem?.mp listed)).1
  unfold Program.last
  omega

theorem lastUse_covers (flat : (program.order id).isSome) (used : program.UsedUntil id index) :
    Covers id index program.lastUse := by
  unfold Program.lastUse
  rcases used with ⟨value, listed, read⟩ | ⟨value, member, owner, enclosed, rfl⟩ | ⟨committed, rfl⟩
  · have inside := index_le_last listed
    have scanned : Covers id index (program.values.zipIdx.foldl program.scan fun _ => none) :=
      foldl_establishes (fun _ other _ => scan_keeps inside other) listed
        (fun _ => show Covers id (value, index).2 _ from scan_read inside flat read) _
    exact foldl_keeps (fun _ other _ => extend_keeps _ other) scanned
  · obtain ⟨position, found⟩ := List.getElem?_of_mem member
    have scanned : Covers id program.last (program.values.zipIdx.foldl program.scan fun _ => none) :=
      foldl_establishes (fun _ other _ => scan_keeps le_rfl other) (List.mk_mem_zipIdx_iff_getElem?.mpr found)
        (fun _ => scan_enclosed flat owner enclosed) _
    exact foldl_keeps (fun _ other _ => extend_keeps _ other) scanned
  · exact foldl_establishes (fun _ other _ => extend_keeps _ other) committed (fun _ => extend_self flat) _

theorem Program.UsedAt.until (used : program.UsedAt id index) : ∃ later, program.UsedUntil id later ∧ index ≤ later := by
  rcases used with ⟨value, listed, read | ⟨owner, enclosed⟩⟩ | ⟨committed, rfl⟩
  · exact ⟨index, .inl ⟨value, listed, read⟩, le_rfl⟩
  · have member := List.mem_of_getElem? (List.mk_mem_zipIdx_iff_getElem?.mp listed)
    exact ⟨program.last, .inr (.inl ⟨value, member, owner, enclosed, rfl⟩), index_le_last listed⟩
  · exact ⟨_, .inr (.inr ⟨committed, rfl⟩), le_rfl⟩

theorem order_isSome (listed : entry ∈ program.values.zipIdx) :
    (program.order entry.1.id).isSome := by
  have found := List.mem_of_getElem? (List.mem_zipIdx_iff_getElem?.mp listed)
  rw [Program.order, List.findIdx?_isSome, List.any_eq_true]
  exact ⟨entry.1, found, by simp⟩

end

/-- No last use is before the definition. -/
def Started (program : Program) (lastUse : LastUse) : Prop :=
  ∀ id last defined, lastUse id = some last → program.order id = some defined → defined ≤ last

section
variable {program : Program} {lastUse : LastUse}

theorem order_le_last {id defined : ℕ} (found : program.order id = some defined) : defined ≤ program.last := by
  have below := (List.findIdx?_eq_some_iff_getElem.mp found).1
  unfold Program.last
  omega

theorem extend_started (index id : ℕ) (started : Started program lastUse) :
    Started program (program.extend index lastUse id) := by
  intro other last defined found ordered
  cases flat : program.order id with
  | none =>
    rw [Program.extend, flat] at found
    exact started other last defined found ordered
  | some first =>
    rw [Program.extend, flat] at found
    by_cases same : other = id
    · subst same
      obtain rfl : first = defined := Option.some.inj (flat.symm.trans ordered)
      simp only [Function.update_self, Option.some.injEq] at found
      subst found
      refine le_trans ?_ (le_max_left _ _)
      cases before : lastUse other with
      | none => exact le_rfl
      | some last => exact started other last first before flat
    · simp only [Function.update_of_ne same] at found
      exact started other last defined found ordered

theorem close_started (id : ℕ) (started : Started program lastUse) : Started program (program.close lastUse id) := by
  intro other last defined found ordered
  cases flat : program.order id with
  | none =>
    rw [Program.close, flat] at found
    exact started other last defined found ordered
  | some first =>
    rw [Program.close, flat] at found
    by_cases same : other = id
    · subst same
      simp only [Function.update_self, Option.some.injEq] at found
      exact found ▸ order_le_last ordered
    · simp only [Function.update_of_ne same] at found
      exact started other last defined found ordered

theorem lastUse_started (program : Program) : Started program program.lastUse := by
  have scanned : Started program (program.values.zipIdx.foldl program.scan fun _ => none) := by
    refine foldl_keeps (fun state entry _ started => ?_) fun _ _ _ found => nomatch found
    have direct : Started program (entry.1.reads.foldl (program.extend entry.2) state) :=
      foldl_keeps (fun _ id _ => extend_started entry.2 id) started
    unfold Program.scan
    split
    · exact foldl_keeps (fun _ id _ => close_started id) direct
    · exact direct
  exact foldl_keeps (fun _ id _ => extend_started _ id) scanned

theorem order_eq (listed : entry ∈ program.values.zipIdx) :
    program.order entry.1.id = some entry.2 := by
  obtain ⟨below, found⟩ := List.getElem?_eq_some_iff.mp (List.mem_zipIdx_iff_getElem?.mp listed)
  refine List.findIdx?_eq_some_iff_getElem.mpr ⟨below, by simp [found], fun earlier before => ?_⟩
  intro same
  have ids := List.nodup_iff_injective_get.mp program.distinct
  have equal := @ids ⟨earlier, by simp; omega⟩ ⟨entry.2, by simpa using below⟩
    (by simpa [found] using same)
  exact absurd (Fin.mk.inj equal) before.ne

theorem def_le (listed : entry ∈ program.values.zipIdx) :
    entry.2 ≤ (program.rangeOf entry).lastUseIndex := by
  unfold Program.rangeOf
  cases found : program.lastUse entry.1.id with
  | none => exact le_rfl
  | some last => exact lastUse_started program _ _ _ found (order_eq listed)

end

theorem allocate_fst (ranges : List Range) (free : List ℕ) : (allocate ranges free).map Prod.fst = ranges := by
  induction ranges generalizing free with
  | nil => rfl
  | cons range rest ih => exact congrArg (range :: ·) (ih _)

theorem allocate_free {ranges : List Range} (ordered : ranges.Pairwise fun left right => left.defIndex < right.defIndex)
    {free : List ℕ} {entry : Range × ℕ} (listed : entry ∈ allocate ranges free) {lastUse : ℕ}
    (occupied : free[entry.2]? = some lastUse) : lastUse < entry.1.defIndex := by
  induction ranges generalizing free lastUse with
  | nil => cases listed
  | cons range rest ih =>
    obtain ⟨later, ordered⟩ := List.pairwise_cons.mp ordered
    have chosen {occupant : ℕ} (found : free[freeSlot free range.defIndex]? = some occupant) :
        occupant < range.defIndex := by
      unfold freeSlot at found
      cases search : free.findIdx? (· < range.defIndex) with
      | none =>
        rw [search, Option.getD_none] at found
        rw [List.getElem?_eq_none le_rfl] at found
        cases found
      | some slot =>
        rw [search, Option.getD_some] at found
        obtain ⟨below, dead, -⟩ := List.findIdx?_eq_some_iff_getElem.mp search
        rw [List.getElem?_eq_getElem below] at found
        cases found
        exact of_decide_eq_true dead
    rcases List.mem_cons.mp listed with rfl | deeper
    · exact chosen occupied
    · have sorted : entry.1 ∈ rest := allocate_fst rest _ ▸ List.mem_map_of_mem deeper
      by_cases same : entry.2 = freeSlot free range.defIndex
      · rw [same] at occupied
        exact (chosen occupied).trans (later _ sorted)
      · refine ih ordered deeper ?_
        unfold occupy
        split
        · rw [List.getElem?_set_ne (Ne.symm same), occupied]
        · rw [List.getElem?_append_left (List.getElem?_eq_some_iff.mp occupied).1, occupied]

theorem allocate_disjoint {ranges : List Range}
    (ordered : ranges.Pairwise fun left right => left.defIndex < right.defIndex) (free : List ℕ) :
    (allocate ranges free).Pairwise fun left right => left.2 = right.2 → left.1.lastUseIndex < right.1.defIndex := by
  induction ranges generalizing free with
  | nil => exact .nil
  | cons range rest ih =>
    obtain ⟨-, ordered⟩ := List.pairwise_cons.mp ordered
    refine List.pairwise_cons.mpr ⟨fun entry listed same => allocate_free ordered listed ?_, ih ordered _⟩
    simp only at same
    rw [← same]
    unfold occupy
    split
    · exact List.getElem?_set_self ‹_›
    · have fresh : freeSlot free range.defIndex = free.length := by
        have bounded : freeSlot free range.defIndex ≤ free.length := by
          unfold freeSlot
          cases search : free.findIdx? (· < range.defIndex) with
          | none => exact le_rfl
          | some slot => exact (List.findIdx?_eq_some_iff_getElem.mp search).1.le
        omega
      rw [fresh, List.getElem?_concat_length]

section
variable (program : Program)

theorem scratches_ordered : program.scratches.Pairwise fun left right => left.2 < right.2 := by
  have indices : (program.values.zipIdx.map Prod.snd).Pairwise (· < ·) := by
    rw [List.zipIdx_map_snd]
    exact List.pairwise_lt_range'
  exact (List.pairwise_map.mp indices).filter _

theorem liveness_ordered : program.scratchLiveness.Pairwise fun left right => left.defIndex < right.defIndex :=
  List.pairwise_map.mpr (scratches_ordered program)

theorem slots_eq : program.slots = allocate program.scratchLiveness [] := by
  unfold Program.slots
  rw [List.Pairwise.insertionSort_eq ((liveness_ordered program).imp fun earlier => Nat.le_of_lt earlier)]

theorem exists_slot (listed : entry ∈ program.scratches) :
    ∃ slot, (program.rangeOf entry, slot) ∈ program.slots := by
  have ranged : program.rangeOf entry ∈ program.slots.map Prod.fst := by
    rw [slots_eq, allocate_fst]
    exact List.mem_map_of_mem listed
  obtain ⟨⟨range, slot⟩, found, rfl⟩ := List.mem_map.mp ranged
  exact ⟨slot, found⟩

end

theorem lookup_of_nodup {keys : List (String × ℕ)} (distinct : (keys.map Prod.fst).Nodup) {key : String} {value : ℕ}
    (listed : (key, value) ∈ keys) : keys.lookup key = some value := by
  obtain ⟨before, after, rfl⟩ := List.append_of_mem listed
  refine List.lookup_eq_some_iff.mpr ⟨before, after, rfl, fun other found => ?_⟩
  rw [List.map_append, List.map_cons] at distinct
  have disjoint := (List.nodup_append.mp distinct).2.2 other.1 (List.mem_map_of_mem found) key List.mem_cons_self
  simpa using disjoint.symm

theorem assignment_eq {program : Program} (names : (program.scratches.map fun entry => entry.1.name).Nodup)
    {range : Range} {slot : ℕ} (listed : (range, slot) ∈ program.slots) : program.assignment range.name = some slot := by
  unfold Program.assignment
  refine lookup_of_nodup ?_ (List.mem_map.mpr ⟨(range, slot), List.mem_reverse.mpr listed, rfl⟩)
  rw [List.map_map, List.map_reverse, List.nodup_reverse]
  have names_eq : program.slots.map (Prod.fst ∘ fun entry : Range × ℕ => (entry.1.name, entry.2)) =
      program.scratches.map fun entry => entry.1.name := by
    calc program.slots.map (Prod.fst ∘ fun entry : Range × ℕ => (entry.1.name, entry.2))
        = (program.slots.map Prod.fst).map Range.name := by rw [List.map_map]; rfl
      _ = program.scratchLiveness.map Range.name := by rw [slots_eq, allocate_fst]
      _ = program.scratches.map fun entry => entry.1.name := by rw [Program.scratchLiveness, List.map_map]; rfl
  rw [names_eq]
  exact names

/-- The assignment gives each scratch the buffer that was allocated to it, and no buffer to two that are
live at one time. -/
structure ReuseSound (program : Program) (inPlace : Value → Option ℕ) : Prop where
  own : ∀ entry ∈ program.scratches, ∃ slot, (program.rangeOf entry, slot) ∈ program.slots ∧
    program.assignment entry.1.name = some slot
  disjoint : ∀ first ∈ program.scratches, ∀ second ∈ program.scratches, first ≠ second →
    program.assignment first.1.name = program.assignment second.1.name →
      ∀ time, ¬ (program.LiveAt inPlace first time ∧ program.LiveAt inPlace second time)

/-- What an in-place operation gives back for a scratch is not used after the last use of the scratch,
where one through a sub-block counts to the end. -/
def AliasesEnd (program : Program) (inPlace : Value → Option ℕ) : Prop :=
  ∀ entry ∈ program.scratches, ∀ id index, Alias program inPlace entry.1.id id → program.UsedAt id index →
    ∃ later, program.UsedUntil entry.1.id later ∧ index ≤ later

theorem live_le {program : Program} {inPlace : Value → Option ℕ} (aliases : AliasesEnd program inPlace)
    (listed : entry ∈ program.scratches) {time : ℕ} (live : program.LiveAt inPlace entry time) :
    time ≤ (program.rangeOf entry).lastUseIndex := by
  have flat : entry ∈ program.values.zipIdx := List.mem_of_mem_filter listed
  obtain ⟨-, rfl | ⟨id, index, shares, usedAt, below⟩⟩ := live
  · exact def_le flat
  · obtain ⟨later, direct, after⟩ := aliases entry listed id index shares usedAt
    obtain ⟨last, found, covers⟩ := lastUse_covers (order_isSome flat) direct
    have reported : (program.rangeOf entry).lastUseIndex = last := by
      rw [Program.rangeOf, found]
      rfl
    rw [reported]
    exact below.trans (after.trans covers)

/-- A combination that is projected and read again by the body of a loop, another one, and their sum
with what the loop leaves. -/
def loopedProjection : Program where
  values := [.value 0 "u" "state" [] [] [] [], .value 1 "a" "linear_combine" [0] [] [] [],
    .value 2 "p" "project" [1] [] [] [], .value 3 "w" "while" [0] [] [] [.value 6 "k" "rhs" [1] [] [] []],
    .value 4 "b" "linear_combine" [0] [] [] [], .value 5 "c" "linear_combine" [2, 4, 3] [] [] []]
  commits := [5]
  distinct := by decide

theorem loopedProjection_alias {id other : ℕ} (shares : Alias loopedProjection inPlaceInput id other) :
    other = id ∨ (id = 1 ∧ other = 2) := by
  induction shares with
  | self => exact .inl rfl
  | result listed writes _ ih =>
    simp only [loopedProjection, List.mem_cons, List.not_mem_nil, or_false] at listed
    rcases listed with rfl | rfl | rfl | rfl | rfl | rfl <;> cases writes
    rcases ih with rfl | ⟨_, absurd⟩
    · exact .inr ⟨rfl, rfl⟩
    · cases absurd

/-- A combination that is projected, and another one between the projection and its use. -/
def projected : Program where
  values := [.value 0 "u" "state" [] [] [] [], .value 1 "a" "linear_combine" [0] [] [] [],
    .value 2 "p" "project" [1] [] [] [], .value 3 "b" "linear_combine" [0] [] [] [],
    .value 4 "c" "linear_combine" [2, 3] [] [] []]
  commits := [4]
  distinct := by decide

end Pops.ScratchPlan
