import Pops.BoundaryRegionProofs
import Pops.Rational

/-!
The regions of a boundary schedule split the ghosts of its domain: the slices
of every axis split the grown interval, so their products split the grown
domain, and the first product is the domain itself.
-/
namespace Pops.PhysicalBoundary

variable {d : ℕ} {domain : Box d} {ghosts : Extent d} {topology : BoundaryTopology d} {axis : Fin d}

/-- An index of a slice. -/
def AxisSlice.Has (slice : AxisSlice d) (index : ℤ) : Prop := slice.lower ≤ index ∧ index ≤ slice.upper

/-- Slices without a common index. -/
def Apart (left right : AxisSlice d) : Prop := ∀ index, left.Has index → ¬ right.Has index

/-- What the operation of a ghost slice does along its axis. -/
structure Carries (domain : Box d) (topology : BoundaryTopology d) (axis : Fin d) (slice : AxisSlice d)
    (operation : BoundaryOperation d) : Prop where
  onAxis : operation.face.axis = axis
  periodic : operation.kind = .periodic ↔ topology.IsPeriodic ⟨axis, .lower⟩
  shifts : operation.kind = .periodic → operation.shift axis ≠ 0 ∧ domain.length axis ∣ operation.shift axis ∧
    ∀ index, slice.Has index →
      domain.lo axis ≤ index + operation.shift axis ∧ index + operation.shift axis ≤ domain.hi axis
  native : FitsInt (operation.shift axis)

/-- A slice of ghosts, all within the depth of the axis. -/
structure GhostSlice (domain : Box d) (ghosts : Extent d) (topology : BoundaryTopology d) (axis : Fin d)
    (slice : AxisSlice d) : Prop where
  operated : ∃ operation, slice.operation = some operation ∧ Carries domain topology axis slice operation
  within : ∀ index, slice.Has index → domain.lo axis - ghosts axis ≤ index ∧ index ≤ domain.hi axis + ghosts axis ∧
    ¬ (domain.lo axis ≤ index ∧ index ≤ domain.hi axis)
  native : FitsInt slice.lower ∧ FitsInt slice.upper

/-- The interior first, then ghost slices, no two with a common index. -/
structure AxisSplit (domain : Box d) (ghosts : Extent d) (topology : BoundaryTopology d) (axis : Fin d)
    (slices : List (AxisSlice d)) : Prop where
  depth : 0 ≤ ghosts axis
  split : ∃ rest, slices = ⟨domain.lo axis, domain.hi axis, none⟩ :: rest ∧
    (∀ slice ∈ rest, GhostSlice domain ghosts topology axis slice) ∧ rest.Pairwise Apart

theorem axisShift_self (axis : Fin d) (shift : ℤ) : axisShift axis shift axis = shift := Function.update_self ..

theorem length_eq (nonempty : ¬ domain.Empty) (axis : Fin d) :
    domain.length axis = domain.hi axis - domain.lo axis + 1 := if_neg nonempty

theorem physical_ghosts (physical : ¬ topology.IsPeriodic ⟨axis, .lower⟩) {lower upper : ℤ} {side : BoundarySide}
    (native : FitsInt lower ∧ FitsInt upper)
    (within : ∀ index, lower ≤ index → index ≤ upper → domain.lo axis - ghosts axis ≤ index ∧
      index ≤ domain.hi axis + ghosts axis ∧ ¬ (domain.lo axis ≤ index ∧ index ≤ domain.hi axis)) :
    GhostSlice domain ghosts topology axis ⟨lower, upper, some ⟨⟨axis, side⟩, .physical, 0⟩⟩ where
  operated := ⟨_, rfl, rfl, iff_of_false (fun same => by cases same) physical, fun same => (by cases same),
    show FitsInt 0 by decide⟩
  within index inside := within index inside.1 inside.2
  native := native

theorem periodic_ghosts (periodic : topology.IsPeriodic ⟨axis, .lower⟩) {lower upper shift : ℤ} {side : BoundarySide}
    (native : FitsInt lower ∧ FitsInt upper) (nativeShift : FitsInt shift) (moved : shift ≠ 0)
    (multiple : domain.length axis ∣ shift)
    (within : ∀ index, lower ≤ index → index ≤ upper → domain.lo axis - ghosts axis ≤ index ∧
      index ≤ domain.hi axis + ghosts axis ∧ ¬ (domain.lo axis ≤ index ∧ index ≤ domain.hi axis))
    (lands : ∀ index, lower ≤ index → index ≤ upper → domain.lo axis ≤ index + shift ∧ index + shift ≤ domain.hi axis) :
    GhostSlice domain ghosts topology axis ⟨lower, upper, some ⟨⟨axis, side⟩, .periodic, axisShift axis shift⟩⟩ where
  operated := by
    refine ⟨_, rfl, rfl, iff_of_true rfl periodic, fun _ => ?_, ?_⟩
    · dsimp only
      rw [axisShift_self]
      exact ⟨moved, multiple, fun index inside => lands index inside.1 inside.2⟩
    · dsimp only
      rw [axisShift_self]
      exact nativeShift
  within index inside := within index inside.1 inside.2
  native := native

theorem wrap_ghosts (nonempty : ¬ domain.Empty) (periodic : topology.IsPeriodic ⟨axis, .lower⟩)
    {n : ℕ} {strip : List (AxisSlice d)}
    (made : wrapSlices domain (ghosts axis) (domain.length axis) axis ((n : ℤ) + 1) = .ok strip) :
    (∀ slice ∈ strip, GhostSlice domain ghosts topology axis slice) ∧ strip.Pairwise Apart := by
  obtain ⟨rfl, -, shiftFits, lowerFits, upperFits⟩ := wrapSlices_cases made
  have ordered := Box.not_empty_iff.mp nonempty axis
  have extent := length_eq nonempty axis
  have unfolded : ((n : ℤ) + 1) * domain.length axis = n * domain.length axis + domain.length axis := by ring
  have previous : (n : ℤ) + 1 - 1 = n := by ring
  have steps : 0 ≤ (n : ℤ) * domain.length axis := mul_nonneg (by omega) (by omega)
  rw [unfolded] at shiftFits
  rw [previous, unfolded] at lowerFits upperFits
  rw [previous, unfolded]
  have multiple : domain.length axis ∣ (n : ℤ) * domain.length axis + domain.length axis :=
    ⟨(n : ℤ) + 1, by ring⟩
  generalize (n : ℤ) * domain.length axis = before at *
  have negated : FitsInt (-(before + domain.length axis)) := by
    unfold FitsInt intMin intMax at *
    omega
  refine ⟨fun slice listed => ?_, ?_⟩
  · rcases List.mem_pair.mp listed with rfl | rfl
    · refine periodic_ghosts periodic lowerFits shiftFits (by omega) multiple (fun index low high => ?_)
        fun index low high => ?_
      · omega
      · omega
    · refine periodic_ghosts periodic upperFits negated (by omega) (multiple.neg_right) (fun index low high => ?_)
        fun index low high => ?_
      · omega
      · omega
  · rw [List.pairwise_pair]
    intro index first second
    unfold AxisSlice.Has at first second
    dsimp only at first second
    omega

theorem wraps_apart (nonempty : ¬ domain.Empty) {n m : ℕ} (later : n < m)
    {strip other : List (AxisSlice d)}
    (made : wrapSlices domain (ghosts axis) (domain.length axis) axis ((n : ℤ) + 1) = .ok strip)
    (madeLater : wrapSlices domain (ghosts axis) (domain.length axis) axis ((m : ℤ) + 1) = .ok other) :
    ∀ slice ∈ strip, ∀ far ∈ other, Apart slice far := by
  obtain rfl := wrapSlices_ok made
  obtain rfl := wrapSlices_ok madeLater
  have ordered := Box.not_empty_iff.mp nonempty axis
  have extent := length_eq nonempty axis
  have reached : ((n : ℤ) + 1) * domain.length axis ≤ (m : ℤ) * domain.length axis :=
    mul_le_mul_of_nonneg_right (by omega) (by omega)
  have steps : 0 ≤ (n : ℤ) * domain.length axis := mul_nonneg (by omega) (by omega)
  have stepsLater : 0 ≤ (m : ℤ) * domain.length axis := mul_nonneg (by omega) (by omega)
  have previous (k : ℕ) : (k : ℤ) + 1 - 1 = k := by ring
  rw [previous, previous]
  generalize ((n : ℤ) + 1) * domain.length axis = reach at *
  generalize (n : ℤ) * domain.length axis = start at *
  generalize (m : ℤ) * domain.length axis = startLater at *
  generalize ((m : ℤ) + 1) * domain.length axis = reachLater at *
  intro slice listed far found index first second
  unfold AxisSlice.Has at first second
  rcases List.mem_pair.mp listed with rfl | rfl <;> rcases List.mem_pair.mp found with rfl | rfl <;>
    dsimp only at first second <;> omega

theorem pairwise_of_forall₂ {α β : Type} {made : α → β → Prop} {before : α → α → Prop} {after : β → β → Prop}
    {items : List α} {results : List β} (related : List.Forall₂ made items results) (ordered : items.Pairwise before)
    (carried : ∀ first second result other, before first second → made first result → made second other →
      after result other) : results.Pairwise after := by
  induction related with
  | nil => exact .nil
  | @cons item result items results head rest ih =>
    obtain ⟨earlier, later⟩ := List.pairwise_cons.mp ordered
    refine List.pairwise_cons.mpr ⟨fun other listed => ?_, ih later⟩
    obtain ⟨second, found, madeOther⟩ := exists_of_forall₂ rest listed
    exact carried item second result other (earlier second found) head madeOther

theorem makeAxisSlices_split {slices : List (AxisSlice d)} (nonempty : ¬ domain.Empty)
    (ran : makeAxisSlices domain ghosts topology axis = .ok slices) :
    AxisSplit domain ghosts topology axis slices := by
  have ordered := Box.not_empty_iff.mp nonempty axis
  obtain ⟨depth, kinds⟩ := makeAxisSlices_cases ran
  refine ⟨depth, ?_⟩
  cases kinds with
  | flat depth listed => exact ⟨[], listed, fun slice none => (by cases none), .nil⟩
  | physical depth physical listed lower upper =>
    refine ⟨_, listed, fun slice found => ?_, ?_⟩
    · rcases List.mem_pair.mp found with rfl | rfl
      · exact physical_ghosts physical lower fun index low high => by omega
      · exact physical_ghosts physical upper fun index low high => by omega
    · rw [List.pairwise_pair]
      intro index first second
      unfold AxisSlice.Has at first second
      dsimp only at first second
      omega
  | periodic depth periodic positive strips placed listed =>
    refine ⟨_, listed, fun slice found => ?_, ?_⟩
    · obtain ⟨strip, inside, found⟩ := List.mem_flatten.mp found
      obtain ⟨n, -, made⟩ := mem_of_mapM_ok placed inside
      exact (wrap_ghosts nonempty periodic made).1 slice found
    · refine List.pairwise_flatten.mpr ⟨fun strip inside => ?_, ?_⟩
      · obtain ⟨n, -, made⟩ := mem_of_mapM_ok placed inside
        exact (wrap_ghosts nonempty periodic made).2
      · exact pairwise_of_forall₂ (mapM_ok.mp placed) List.pairwise_lt_range
          fun n m strip other later made madeLater => wraps_apart nonempty later made madeLater

section Axis
variable {slices : List (AxisSlice d)} (split : AxisSplit domain ghosts topology axis slices)
include split

theorem AxisSplit.apart : slices.Pairwise Apart := by
  obtain ⟨rest, rfl, ghost, apart⟩ := split.split
  refine List.pairwise_cons.mpr ⟨fun slice listed index inside found => ?_, apart⟩
  exact ((ghost slice listed).within index found).2.2 inside

theorem AxisSplit.within {slice : AxisSlice d} (listed : slice ∈ slices) {index : ℤ} (inside : slice.Has index) :
    domain.lo axis - ghosts axis ≤ index ∧ index ≤ domain.hi axis + ghosts axis := by
  have depth := split.depth
  obtain ⟨rest, rfl, ghost, -⟩ := split.split
  rcases List.mem_cons.mp listed with rfl | later
  · unfold AxisSlice.Has at inside
    dsimp only at inside
    omega
  · obtain ⟨low, high, -⟩ := (ghost slice later).within index inside
    exact ⟨low, high⟩

theorem AxisSplit.cases {slice : AxisSlice d} (listed : slice ∈ slices) :
    slice = ⟨domain.lo axis, domain.hi axis, none⟩ ∨ GhostSlice domain ghosts topology axis slice := by
  obtain ⟨rest, rfl, ghost, -⟩ := split.split
  exact (List.mem_cons.mp listed).imp_right (ghost slice)

end Axis

theorem composeStep_shift {operations : List (BoundaryOperation d)} {start composed : Option (Fin d) × Index d}
    (ran : operations.foldlM composeStep start = .ok composed) (axis : Fin d) :
    (∃ operation ∈ operations, operation.face.axis = axis ∧ operation.kind = .periodic ∧
        composed.2 axis = operation.shift axis) ∨
      ((∀ operation ∈ operations, operation.face.axis = axis → operation.kind ≠ .periodic) ∧
        composed.2 axis = start.2 axis) := by
  induction operations generalizing start with
  | nil =>
    cases ran
    exact .inr ⟨fun _ none => (by cases none), rfl⟩
  | cons operation operations ih =>
    rw [List.foldlM_cons] at ran
    obtain ⟨next, stepped, later⟩ := bind_ok.mp ran
    rcases ih later with ⟨found, listed, here⟩ | ⟨none, kept⟩
    · exact .inl ⟨found, List.mem_cons_of_mem _ listed, here⟩
    have head : (operation.face.axis = axis ∧ operation.kind = .periodic ∧ next.2 axis = operation.shift axis) ∨
        ((operation.face.axis = axis → operation.kind ≠ .periodic) ∧ next.2 axis = start.2 axis) := by
      obtain ⟨_, -, stepped⟩ := bind_ok.mp stepped
      split at stepped
      · rename_i physical
        obtain ⟨_, -, returned⟩ := bind_ok.mp stepped
        cases returned
        refine .inr ⟨fun _ same => ?_, rfl⟩
        rw [physical] at same
        cases same
      · rename_i periodic
        obtain ⟨_, -, stepped⟩ := bind_ok.mp stepped
        obtain ⟨_, -, stepped⟩ := bind_ok.mp stepped
        obtain ⟨_, -, returned⟩ := bind_ok.mp stepped
        cases returned
        have kind : operation.kind = .periodic := by
          cases found : operation.kind with
          | physical => exact absurd found periodic
          | periodic => rfl
        by_cases here : operation.face.axis = axis
        · refine .inl ⟨here, kind, ?_⟩
          subst here
          exact Function.update_self ..
        · exact .inr ⟨fun same => absurd same here, Function.update_of_ne (Ne.symm here) ..⟩
    rw [kept]
    rcases head with ⟨onAxis, kind, shifted⟩ | ⟨other, same⟩
    · exact .inl ⟨operation, List.mem_cons_self, onAxis, kind, shifted⟩
    · refine .inr ⟨fun found listed => ?_, same⟩
      rcases List.mem_cons.mp listed with rfl | later
      · exact other
      · exact none found later

section Regions
variable {slices : Fin d → List (AxisSlice d)}
  (split : ∀ axis, AxisSplit domain ghosts topology axis (slices axis))

/-- The counts of the slices. -/
abbrev counts (slices : Fin d → List (AxisSlice d)) (axis : Fin d) : ℕ := (slices axis).length

include split

theorem counts_pos (axis : Fin d) : 0 < counts slices axis := by
  obtain ⟨rest, listed, -⟩ := (split axis).split
  rw [counts, listed]
  exact Nat.succ_pos _

theorem digit_lt (ordinal : ℕ) (axis : Fin d) : digit (counts slices) ordinal axis < counts slices axis :=
  MixedRadix.decode_lt (fun axis _ => counts_pos split axis) (List.mem_finRange axis) ordinal _

theorem sliceAt_get (ordinal : ℕ) (axis : Fin d) :
    sliceAt slices ordinal axis = (slices axis).get ⟨_, digit_lt split ordinal axis⟩ := by
  rw [sliceAt, List.getD_eq_getElem?_getD, List.getElem?_eq_getElem (digit_lt split ordinal axis)]
  rfl

theorem sliceAt_mem (ordinal : ℕ) (axis : Fin d) : sliceAt slices ordinal axis ∈ slices axis := by
  rw [sliceAt_get split]
  exact List.get_mem ..

theorem regions_apart {n m : ℕ} (below : n < MixedRadix.volume (counts slices) (List.finRange d))
    (belowToo : m < MixedRadix.volume (counts slices) (List.finRange d)) (different : n ≠ m) :
    ∃ axis, Apart (sliceAt slices n axis) (sliceAt slices m axis) := by
  by_contra none
  refine different (MixedRadix.decode_injective (List.nodup_finRange d) below belowToo (fun _ => 0) fun axis _ => ?_)
  by_contra digits
  refine none ⟨axis, ?_⟩
  have apart := List.pairwise_iff_get.mp (split axis).apart
  rw [sliceAt_get split, sliceAt_get split]
  rcases lt_or_gt_of_ne digits with less | greater
  · exact apart ⟨_, digit_lt split n axis⟩ ⟨_, digit_lt split m axis⟩ less
  · intro index first second
    exact apart ⟨_, digit_lt split m axis⟩ ⟨_, digit_lt split n axis⟩ greater index second first

omit split in
theorem mem_operations {ordinal : ℕ} {operation : BoundaryOperation d} {axis : Fin d}
    (faced : ∀ axis operation, (sliceAt slices ordinal axis).operation = some operation →
      operation.face.axis = axis) (onAxis : operation.face.axis = axis) :
    operation ∈ (List.finRange d).filterMap (fun axis => (sliceAt slices ordinal axis).operation) ↔
      (sliceAt slices ordinal axis).operation = some operation := by
  rw [List.mem_filterMap]
  constructor
  · rintro ⟨other, -, found⟩
    rwa [← onAxis, faced other operation found]
  · exact fun found => ⟨axis, List.mem_finRange axis, found⟩

end Regions

theorem slices_faced {slices : Fin d → List (AxisSlice d)}
    (split : ∀ axis, AxisSplit domain ghosts topology axis (slices axis)) (ordinal : ℕ) (axis : Fin d)
    (operation : BoundaryOperation d) (found : (sliceAt slices ordinal axis).operation = some operation) :
    operation.face.axis = axis := by
  rcases (split axis).cases (sliceAt_mem split ordinal axis) with interior | ghost
  · rw [interior] at found
    cases found
  · obtain ⟨other, same, carries⟩ := ghost.operated
    rw [found] at same
    cases same
    exact carries.onAxis

/-- One entry of a schedule: its cells are ghosts, and its shift takes them into
the domain along the periodic axes that they are outside of. -/
structure Shifts (domain : Box d) (topology : BoundaryTopology d) (plan : BoundaryRegionPlan d) (cell : Index d)
    (axis : Fin d) : Prop where
  lands : topology.IsPeriodic ⟨axis, .lower⟩ →
    domain.lo axis ≤ cell axis + plan.shift axis ∧ cell axis + plan.shift axis ≤ domain.hi axis
  moves : plan.shift axis ≠ 0 ↔ ∃ operation ∈ plan.operations, operation.face.axis = axis ∧ operation.kind = .periodic
  outside : plan.shift axis ≠ 0 ↔
    topology.IsPeriodic ⟨axis, .lower⟩ ∧ ¬ (domain.lo axis ≤ cell axis ∧ cell axis ≤ domain.hi axis)
  multiple : domain.length axis ∣ plan.shift axis

/-- What the shift of a region is along an axis. -/
theorem region_shift {slices : Fin d → List (AxisSlice d)}
    (split : ∀ axis, AxisSplit domain ghosts topology axis (slices axis)) {ordinal : ℕ} {plan : BoundaryRegionPlan d}
    (made : regionPlan slices ordinal = .ok plan) {cell : Index d} (listed : cell ∈ plan.destination.cells)
    (axis : Fin d) : Shifts domain topology plan cell axis ∧ FitsInt (plan.shift axis) := by
  have faced := slices_faced split ordinal
  obtain ⟨destination, operations⟩ := regionPlan_ok faced made
  have inside : (sliceAt slices ordinal axis).Has (cell axis) := by
    rw [destination, Box.mem_cells] at listed
    exact listed axis
  obtain ⟨_, -, made⟩ := bind_ok.mp made
  obtain ⟨_, -, made⟩ := bind_ok.mp made
  obtain ⟨composed, folded, returned⟩ := bind_ok.mp made
  cases returned
  rw [operations_sorted faced] at folded
  have listedShift := composeStep_shift folded axis
  have member (operation : BoundaryOperation d) (onAxis : operation.face.axis = axis) :
      operation ∈ (List.finRange d).filterMap (fun axis => (sliceAt slices ordinal axis).operation) ↔
        (sliceAt slices ordinal axis).operation = some operation := mem_operations faced onAxis
  -- an axis without a periodic operation is not shifted
  have still (none : ∀ operation, (sliceAt slices ordinal axis).operation = some operation →
      operation.kind ≠ .periodic) : composed.2 axis = 0 ∧ ¬ ∃ operation ∈ (List.finRange d).filterMap (fun axis =>
        (sliceAt slices ordinal axis).operation), operation.face.axis = axis ∧ operation.kind = .periodic := by
    have absent : ¬ ∃ operation ∈ (List.finRange d).filterMap (fun axis => (sliceAt slices ordinal axis).operation),
        operation.face.axis = axis ∧ operation.kind = .periodic := by
      rintro ⟨operation, listed, onAxis, kind⟩
      exact none operation ((member operation onAxis).mp listed) kind
    rcases listedShift with ⟨operation, listed, onAxis, kind, -⟩ | ⟨-, kept⟩
    · exact absurd ⟨operation, listed, onAxis, kind⟩ absent
    · exact ⟨kept, absent⟩
  have zeroFits : FitsInt 0 := by decide
  rcases (split axis).cases (sliceAt_mem split ordinal axis) with interior | ghost
  · obtain ⟨zero, absent⟩ := still fun operation found => by
      rw [interior] at found
      cases found
    rw [interior] at inside
    have within : domain.lo axis ≤ cell axis ∧ cell axis ≤ domain.hi axis := inside
    refine ⟨⟨fun _ => ?_, ?_, ?_, ?_⟩, ?_⟩ <;> dsimp only <;> rw [zero]
    · rwa [add_zero]
    · rw [operations_sorted faced]
      exact iff_of_false (fun wrong => wrong rfl) absent
    · exact iff_of_false (fun wrong => wrong rfl) fun wrong => wrong.2 within
    · exact dvd_zero _
    · exact zeroFits
  · obtain ⟨operation, found, carries⟩ := ghost.operated
    have beyond := (ghost.within (cell axis) inside).2.2
    by_cases wraps : operation.kind = .periodic
    · have listed := (member operation carries.onAxis).mpr found
      obtain ⟨moved, multiple, lands⟩ := carries.shifts wraps
      have same : composed.2 axis = operation.shift axis := by
        rcases listedShift with ⟨other, listedToo, onAxis, -, shifted⟩ | ⟨none, -⟩
        · have foundToo := (member other onAxis).mp listedToo
          rw [found] at foundToo
          cases foundToo
          exact shifted
        · exact absurd wraps (none operation listed carries.onAxis)
      refine ⟨⟨fun _ => ?_, ?_, ?_, ?_⟩, ?_⟩ <;> dsimp only <;> rw [same]
      · exact lands (cell axis) inside
      · rw [operations_sorted faced]
        exact iff_of_true moved ⟨operation, listed, carries.onAxis, wraps⟩
      · exact iff_of_true moved ⟨carries.periodic.mp wraps, beyond⟩
      · exact multiple
      · exact carries.native
    · have flat := mt carries.periodic.mpr wraps
      obtain ⟨zero, absent⟩ := still fun other foundToo => by
        rw [found] at foundToo
        cases foundToo
        exact wraps
      refine ⟨⟨fun periodic => absurd periodic flat, ?_, ?_, ?_⟩, ?_⟩ <;> dsimp only <;> rw [zero]
      · rw [operations_sorted faced]
        exact iff_of_false (fun wrong => wrong rfl) absent
      · exact iff_of_false (fun wrong => wrong rfl) fun wrong => flat wrong.1
      · exact dvd_zero _
      · exact zeroFits

/-- What a schedule is to a domain and its ghosts. -/
structure Partition (domain : Box d) (ghosts : Extent d) (topology : BoundaryTopology d)
    (entries : List (BoundaryRegionPlan d)) : Prop where
  nonempty : ∀ plan ∈ entries, plan.destination.cells.Nonempty
  disjoint : entries.Pairwise fun plan other => Disjoint plan.destination.cells other.destination.cells
  covers : ∀ cell, (∃ plan ∈ entries, cell ∈ plan.destination.cells) ↔
    cell ∈ (grown domain ghosts).cells ∧ cell ∉ domain.cells
  shifts : ∀ plan ∈ entries, ∀ cell ∈ plan.destination.cells, ∀ axis, Shifts domain topology plan cell axis

/-- No index leaves its type: what is not tested cannot overflow, what is tested
is exact or refused, and what is stored is native. -/
structure Indexed (domain : Box d) (ghosts : Extent d) (entries : List (BoundaryRegionPlan d)) : Prop where
  untested : domain.Fits → (∀ axis, FitsInt64 (ghosts axis)) → ∀ axis, FitsInt64 (domain.length axis) ∧
    FitsInt64 (-ghosts axis) ∧ FitsInt64 (wraps (ghosts axis) (domain.length axis)) ∧
    FitsInt64 (domain.lo axis - 1) ∧ FitsInt64 (domain.hi axis + 1)
  sums : ∀ left right operation, checkedSum left right operation =
    if FitsInt64 (left + right) then .ok (left + right) else .error (.overflowError operation)
  products : ∀ left right operation, 0 ≤ left → 0 ≤ right → checkedMultiple left right operation =
    if FitsInt64 (left * right) then .ok (left * right) else .error (.overflowError operation)
  native : domain.Fits → ∀ plan ∈ entries, plan.destination.Fits ∧ ∀ axis, FitsInt (plan.shift axis)

theorem checkedSum_eq (left right : ℤ) (operation : String) : checkedSum left right operation =
    if FitsInt64 (left + right) then .ok (left + right) else .error (.overflowError operation) := by
  unfold checkedSum
  by_cases fits : FitsInt64 (left + right)
  · have passes : ¬ (left + right > int64Max ∨ left + right < int64Min) := by
      unfold FitsInt64 at fits
      omega
    rw [throwIf_of_not passes, if_pos fits]
    rfl
  · have thrown : left + right > int64Max ∨ left + right < int64Min := by
      unfold FitsInt64 at fits
      omega
    rw [throwIf, if_pos thrown, if_neg fits]
    rfl

theorem checkedMultiple_eq {left right : ℤ} (operation : String) (leftSign : 0 ≤ left) (rightSign : 0 ≤ right) :
    checkedMultiple left right operation =
      if FitsInt64 (left * right) then .ok (left * right) else .error (.overflowError operation) := by
  have sign : 0 ≤ left * right := mul_nonneg leftSign rightSign
  unfold checkedMultiple
  have signs : ¬ (left < 0 ∨ right < 0) := by omega
  rw [throwIf_of_not signs, ok_bind]
  by_cases fits : FitsInt64 (left * right)
  · have passes : ¬ left * right > int64Max := not_lt.mpr fits.2
    rw [throwIf_of_not passes, if_pos fits]
    rfl
  · have thrown : left * right > int64Max := by
      by_contra below
      refine fits ⟨le_trans ?_ sign, not_lt.mp below⟩
      decide
    rw [throwIf, if_pos thrown, if_neg fits]
    rfl

theorem wraps_bounds {depth extent : ℤ} (depthSign : 0 ≤ depth) (positive : 0 < extent) :
    0 ≤ wraps depth extent ∧ wraps depth extent ≤ depth := by
  unfold wraps
  have quotient := Int.ediv_nonneg depthSign positive.le
  have division := Int.mul_ediv_add_emod depth extent
  have remainder := Int.emod_nonneg depth positive.ne'
  have grows : depth / extent ≤ extent * (depth / extent) := le_mul_of_one_le_left quotient positive
  split <;> omega

theorem untested_fits (nonempty : ¬ domain.Empty) (native : domain.Fits) (depth : 0 ≤ ghosts axis)
    (ghostsFit : FitsInt64 (ghosts axis)) : FitsInt64 (domain.length axis) ∧ FitsInt64 (-ghosts axis) ∧
      FitsInt64 (wraps (ghosts axis) (domain.length axis)) ∧ FitsInt64 (domain.lo axis - 1) ∧
      FitsInt64 (domain.hi axis + 1) := by
  have extent := length_eq nonempty axis
  have ordered := Box.not_empty_iff.mp nonempty axis
  have strips := wraps_bounds depth (show 0 < domain.length axis by omega)
  obtain ⟨low, high⟩ := native axis
  unfold FitsInt intMin intMax at low high
  unfold FitsInt64 int64Min int64Max at *
  omega

/-- A prepared schedule splits the ghosts of its domain into regions that their
shifts take into the domain, and every index on the way is exact. -/
theorem schedule_partitions {budget : ℕ} {entries : List (BoundaryRegionPlan d)}
    (ran : prepareBoundarySchedule domain ghosts topology budget = .ok entries) :
    Partition domain ghosts topology entries ∧ Indexed domain ghosts entries := by
  have covered := (prepareBoundarySchedule_ok ran).covers
  obtain ⟨_, filled, ran⟩ := bind_ok.mp ran
  obtain ⟨numbers, counted, ran⟩ := bind_ok.mp ran
  obtain ⟨count, cartesian, ran⟩ := bind_ok.mp ran
  obtain ⟨_, -, ran⟩ := bind_ok.mp ran
  obtain ⟨slices, sliced, placed⟩ := bind_ok.mp ran
  have nonempty := throwIf_ok.mp filled
  have ordered := Box.not_empty_iff.mp nonempty
  have split : ∀ axis, AxisSplit domain ghosts topology axis (slices axis) := fun axis =>
    makeAxisSlices_split nonempty (axes_ok.mp sliced axis)
  have volume : count = MixedRadix.volume (counts slices) (List.finRange d) := by
    rw [cartesianCount_ok cartesian]
    congr 1
    funext axis
    have one := axes_ok.mp counted axis
    rw [(makeAxisSlices_ok (ordered axis) (axes_ok.mp sliced axis)).2] at one
    exact (Except.ok.inj one).symm
  have region {plan : BoundaryRegionPlan d} (listed : plan ∈ entries) :
      ∃ n, n + 1 < count ∧ regionPlan slices (n + 1) = .ok plan := by
    obtain ⟨n, counted, made⟩ := mem_of_mapM_ok placed listed
    exact ⟨n, by have := List.mem_range.mp counted; omega, made⟩
  have has {n : ℕ} {plan : BoundaryRegionPlan d} (made : regionPlan slices n = .ok plan) (cell : Index d)
      (listed : cell ∈ plan.destination.cells) (axis : Fin d) : (sliceAt slices n axis).Has (cell axis) := by
    rw [(regionPlan_ok (slices_faced split n) made).1, Box.mem_cells] at listed
    exact listed axis
  have filledPlan {plan : BoundaryRegionPlan d} (listed : plan ∈ entries) : ¬ plan.destination.Empty := by
    obtain ⟨n, -, made⟩ := region listed
    obtain ⟨_, some, made⟩ := bind_ok.mp made
    obtain ⟨_, -, made⟩ := bind_ok.mp made
    obtain ⟨composed, -, returned⟩ := bind_ok.mp made
    cases returned
    exact throwIf_ok.mp some
  have some {plan : BoundaryRegionPlan d} (listed : plan ∈ entries) : plan.destination.lo ∈ plan.destination.cells :=
    Box.mem_cells.mpr fun axis => ⟨le_rfl, Box.not_empty_iff.mp (filledPlan listed) axis⟩
  refine ⟨⟨fun plan listed => ⟨_, some listed⟩, ?_, fun cell => ⟨?_, ?_⟩, ?_⟩, ?_⟩
  · refine pairwise_of_forall₂ (mapM_ok.mp placed) (List.Pairwise.and_mem.mp List.pairwise_lt_range) ?_
    rintro n m plan other ⟨nListed, mListed, later⟩ made madeOther
    have nBelow := List.mem_range.mp nListed
    have mBelow := List.mem_range.mp mListed
    obtain ⟨axis, apart⟩ := regions_apart split (show n + 1 < _ by omega) (show m + 1 < _ by omega)
      (show n + 1 ≠ m + 1 by omega)
    refine Finset.disjoint_left.mpr fun cell first second => ?_
    exact apart (cell axis) (has made cell first axis) (has madeOther cell second axis)
  · rintro ⟨plan, listed, inside⟩
    obtain ⟨n, below, made⟩ := region listed
    refine ⟨Box.mem_cells.mpr fun axis => ?_, fun interior => ?_⟩
    · exact (split axis).within (sliceAt_mem split (n + 1) axis) (has made cell inside axis)
    · -- the first product of slices is the domain
      obtain ⟨axis, apart⟩ := regions_apart split (show 0 < _ by omega) (show n + 1 < _ by omega)
        (Nat.succ_ne_zero n).symm
      have first : sliceAt slices 0 axis = ⟨domain.lo axis, domain.hi axis, none⟩ := by
        obtain ⟨rest, listed, -⟩ := (split axis).split
        have zero : digit (fun axis => (slices axis).length) 0 axis = 0 := decode_zero (List.mem_finRange axis) _
        rw [sliceAt, zero, listed]
        rfl
      rw [first] at apart
      exact apart (cell axis) (Box.mem_cells.mp interior axis) (has made cell inside axis)
  · rintro ⟨deep, outside⟩
    refine covered cell (Box.mem_cells.mp deep) ?_
    by_contra none
    exact outside (Box.mem_cells.mpr fun axis => not_not.mp (not_exists.mp none axis))
  · intro plan listed cell inside axis
    obtain ⟨n, -, made⟩ := region listed
    exact (region_shift split made inside axis).1
  · refine ⟨fun native ghostsFit axis => untested_fits nonempty native (split axis).depth (ghostsFit axis),
      checkedSum_eq, fun left right operation leftSign rightSign => checkedMultiple_eq operation leftSign rightSign,
      fun native plan listed => ⟨fun axis => ?_, fun axis => ?_⟩⟩
    · obtain ⟨n, -, made⟩ := region listed
      rw [(regionPlan_ok (slices_faced split (n + 1)) made).1]
      rcases (split axis).cases (sliceAt_mem split (n + 1) axis) with interior | ghost
      · dsimp only
        rw [interior]
        exact native axis
      · exact ghost.native
    · obtain ⟨n, -, made⟩ := region listed
      exact (region_shift split made (some listed) axis).2

/-- Five periodic ghosts around two cells: three strips a side, the last one of a single cell. -/
theorem deep_strips_partition : ∃ entries,
    prepareBoundarySchedule (⟨fun _ => 0, fun _ => 1⟩ : Box 1) (fun _ => 5) (.axisPeriodic fun _ => true) 6 = .ok entries ∧
      Partition (⟨fun _ => 0, fun _ => 1⟩ : Box 1) (fun _ => 5) (.axisPeriodic fun _ => true) entries ∧
      Indexed (⟨fun _ => 0, fun _ => 1⟩ : Box 1) (fun _ => 5) entries := by
  have runs : (prepareBoundarySchedule (⟨fun _ => 0, fun _ => 1⟩ : Box 1) (fun _ => 5) (.axisPeriodic fun _ => true)
      6).isOk = true := by decide +kernel
  obtain ⟨entries, ran⟩ := exists_of_isOk runs
  exact ⟨entries, ran, schedule_partitions ran⟩

end Pops.PhysicalBoundary
