import Pops.PhysicalBoundaryProofs

/-!
The regions of a schedule cover the ghosts of a domain, and the operations of a region are those of
the faces that its cells have crossed.
-/
namespace Pops.PhysicalBoundary

variable {d : ℕ} {domain : Box d} {ghosts : Extent d} {topology : BoundaryTopology d} {axis : Fin d}

/-- A slice of an axis has a physical operation exactly where a physical face has been crossed. -/
structure SliceSound (domain : Box d) (topology : BoundaryTopology d) (axis : Fin d) (slice : AxisSlice d) : Prop where
  faced : ∀ operation, slice.operation = some operation → operation.face.axis = axis
  crossing : ∀ index, slice.lower ≤ index → index ≤ slice.upper →
    ((∃ operation, slice.operation = some operation ∧ operation.kind = .physical) ↔
      ¬ topology.IsPeriodic ⟨axis, .lower⟩ ∧ ¬ (domain.lo axis ≤ index ∧ index ≤ domain.hi axis))
  side : ∀ operation, slice.operation = some operation → operation.kind = .physical → ∀ index, slice.lower ≤ index →
    index ≤ slice.upper → operation.face.side = if index < domain.lo axis then .lower else .upper

/-- The slices of an axis: the domain first, then slices that cover the ghosts. -/
structure SlicesSound (domain : Box d) (ghosts : Extent d) (topology : BoundaryTopology d) (axis : Fin d)
    (slices : List (AxisSlice d)) : Prop where
  sound : ∀ slice ∈ slices, SliceSound domain topology axis slice
  covers : ∃ rest, slices = ⟨domain.lo axis, domain.hi axis, none⟩ :: rest ∧
    ∀ index, domain.lo axis - ghosts axis ≤ index → index ≤ domain.hi axis + ghosts axis →
      ¬ (domain.lo axis ≤ index ∧ index ≤ domain.hi axis) → ∃ slice ∈ rest, slice.lower ≤ index ∧ index ≤ slice.upper

theorem checkedSum_ok {left right sum : ℤ} {operation : String} (ran : checkedSum left right operation = .ok sum) :
    sum = left + right := by
  obtain ⟨_, -, returned⟩ := bind_ok.mp ran
  cases returned
  rfl

theorem checkedMultiple_ok {left right product : ℤ} {operation : String}
    (ran : checkedMultiple left right operation = .ok product) : 0 ≤ left ∧ 0 ≤ right ∧ product = left * right := by
  obtain ⟨_, signs, ran⟩ := bind_ok.mp ran
  obtain ⟨_, -, returned⟩ := bind_ok.mp ran
  cases returned
  rw [throwIf_ok, not_or, not_lt, not_lt] at signs
  exact ⟨signs.1, signs.2, rfl⟩

variable {slices : List (AxisSlice d)}

theorem wrapSlices_cases {depth extent wrap : ℤ} (ran : wrapSlices domain depth extent axis wrap = .ok slices) :
    slices = [⟨domain.lo axis - min depth (wrap * extent), domain.lo axis - (wrap - 1) * extent - 1,
        some ⟨⟨axis, .lower⟩, .periodic, axisShift axis (wrap * extent)⟩⟩,
      ⟨domain.hi axis + (wrap - 1) * extent + 1, domain.hi axis + min depth (wrap * extent),
        some ⟨⟨axis, .upper⟩, .periodic, axisShift axis (-(wrap * extent))⟩⟩] ∧
      0 ≤ wrap * extent ∧ FitsInt (wrap * extent) ∧
      (FitsInt (domain.lo axis - min depth (wrap * extent)) ∧ FitsInt (domain.lo axis - (wrap - 1) * extent - 1)) ∧
      FitsInt (domain.hi axis + (wrap - 1) * extent + 1) ∧ FitsInt (domain.hi axis + min depth (wrap * extent)) := by
  obtain ⟨previous, ran1, ran⟩ := bind_ok.mp ran
  obtain ⟨reached, ran2, ran⟩ := bind_ok.mp ran
  obtain ⟨shift, ran3, ran⟩ := bind_ok.mp ran
  obtain ⟨first, ran4, ran⟩ := bind_ok.mp ran
  obtain ⟨firstIndex, ran5, ran⟩ := bind_ok.mp ran
  obtain ⟨last, ran6, ran⟩ := bind_ok.mp ran
  obtain ⟨lastBelow, ran7, ran⟩ := bind_ok.mp ran
  obtain ⟨lastIndex, ran8, ran⟩ := bind_ok.mp ran
  obtain ⟨start, ran9, ran⟩ := bind_ok.mp ran
  obtain ⟨startAbove, ran10, ran⟩ := bind_ok.mp ran
  obtain ⟨startIndex, ran11, ran⟩ := bind_ok.mp ran
  obtain ⟨stop, ran12, ran⟩ := bind_ok.mp ran
  obtain ⟨stopIndex, ran13, returned⟩ := bind_ok.mp ran
  obtain ⟨-, -, rfl⟩ := checkedMultiple_ok ran1
  obtain ⟨wrapSign, extentSign, rfl⟩ := checkedMultiple_ok ran2
  obtain ⟨shiftFits, rfl⟩ := checkedIndex_ok.mp ran3
  obtain rfl := checkedSum_ok ran4
  obtain ⟨firstFits, rfl⟩ := checkedIndex_ok.mp ran5
  obtain rfl := checkedSum_ok ran6
  obtain rfl := checkedSum_ok ran7
  obtain ⟨lastFits, rfl⟩ := checkedIndex_ok.mp ran8
  obtain rfl := checkedSum_ok ran9
  obtain rfl := checkedSum_ok ran10
  obtain ⟨startFits, rfl⟩ := checkedIndex_ok.mp ran11
  obtain rfl := checkedSum_ok ran12
  obtain ⟨stopFits, rfl⟩ := checkedIndex_ok.mp ran13
  cases returned
  simp only [← sub_eq_add_neg] at firstFits lastFits
  exact ⟨by simp only [← sub_eq_add_neg], mul_nonneg wrapSign extentSign, shiftFits, ⟨firstFits, lastFits⟩, startFits, stopFits⟩

theorem wrapSlices_ok {depth extent wrap : ℤ} (ran : wrapSlices domain depth extent axis wrap = .ok slices) :
    slices = [⟨domain.lo axis - min depth (wrap * extent), domain.lo axis - (wrap - 1) * extent - 1,
        some ⟨⟨axis, .lower⟩, .periodic, axisShift axis (wrap * extent)⟩⟩,
      ⟨domain.hi axis + (wrap - 1) * extent + 1, domain.hi axis + min depth (wrap * extent),
        some ⟨⟨axis, .upper⟩, .periodic, axisShift axis (-(wrap * extent))⟩⟩] :=
  (wrapSlices_cases ran).1

theorem checkedAxisSegmentCount_ok {depth extent : ℤ} {periodic : Prop} [Decidable periodic] {count : ℕ}
    (ran : checkedAxisSegmentCount depth extent periodic = .ok count) : 0 ≤ depth ∧
      (depth = 0 ∧ count = 1 ∨ depth ≠ 0 ∧ ¬ periodic ∧ count = 3 ∨
        depth ≠ 0 ∧ periodic ∧ 0 < extent ∧ count = 1 + 2 * (wraps depth extent).toNat) := by
  obtain ⟨_, nonneg, ran⟩ := bind_ok.mp ran
  refine ⟨not_lt.mp (throwIf_ok.mp nonneg), ?_⟩
  split at ran
  · cases ran
    exact .inl ⟨‹_›, rfl⟩
  · rename_i ghosted
    split at ran
    · cases ran
      exact .inr (.inl ⟨ghosted, ‹_›, rfl⟩)
    · rename_i wrapped
      obtain ⟨_, positive, ran⟩ := bind_ok.mp ran
      obtain ⟨_, -, returned⟩ := bind_ok.mp ran
      cases returned
      exact .inr (.inr ⟨ghosted, not_not.mp wrapped, not_le.mp (throwIf_ok.mp positive), rfl⟩)

theorem interior_sound : SliceSound domain topology axis ⟨domain.lo axis, domain.hi axis, none⟩ where
  faced _ none := by cases none
  crossing index low high := by
    constructor
    · rintro ⟨_, none, -⟩
      cases none
    · intro both
      exact absurd ⟨low, high⟩ both.2
  side _ none := by cases none

theorem periodic_sound (periodic : topology.IsPeriodic ⟨axis, .lower⟩) {lower upper : ℤ} {side : BoundarySide}
    {shift : Index d} : SliceSound domain topology axis ⟨lower, upper, some ⟨⟨axis, side⟩, .periodic, shift⟩⟩ where
  faced _ found := by
    cases found
    rfl
  crossing index low high := by
    constructor
    · rintro ⟨operation, found, physical⟩
      cases found
      cases physical
    · intro both
      exact absurd periodic both.1
  side _ found physical := by
    cases found
    cases physical

theorem physical_sound (physical : ¬ topology.IsPeriodic ⟨axis, .lower⟩) {lower upper : ℤ} {side : BoundarySide}
    (outside : ∀ index, lower ≤ index → index ≤ upper → ¬ (domain.lo axis ≤ index ∧ index ≤ domain.hi axis) ∧
      side = if index < domain.lo axis then .lower else .upper) :
    SliceSound domain topology axis ⟨lower, upper, some ⟨⟨axis, side⟩, .physical, 0⟩⟩ where
  faced _ found := by
    cases found
    rfl
  crossing index low high := ⟨fun _ => ⟨physical, (outside index low high).1⟩, fun _ => ⟨_, rfl, rfl⟩⟩
  side _ found _ index low high := by
    cases found
    exact (outside index low high).2

theorem wraps_reach (depth : ℤ) {extent : ℤ} (positive : 0 < extent) (layer : ℤ) (least : 1 ≤ layer) (most : layer ≤ depth) :
    ∃ n : ℕ, n < (wraps depth extent).toNat ∧ (n : ℤ) * extent < layer ∧ layer ≤ ((n : ℤ) + 1) * extent := by
  have low : 0 ≤ (layer - 1) / extent := Int.ediv_nonneg (by omega) positive.le
  have split := Int.mul_ediv_add_emod (layer - 1) extent
  have remainder := Int.emod_nonneg (layer - 1) positive.ne'
  have below := Int.emod_lt_of_pos (layer - 1) positive
  have depthSplit := Int.mul_ediv_add_emod depth extent
  have depthBelow := Int.emod_lt_of_pos depth positive
  have depthRemainder := Int.emod_nonneg depth positive.ne'
  have monotone : (layer - 1) / extent ≤ depth / extent := Int.ediv_le_ediv positive (by omega)
  refine ⟨((layer - 1) / extent).toNat, ?_, ?_, ?_⟩
  · unfold wraps
    by_cases exact : depth % extent = 0
    · rw [if_pos exact]
      have less : (layer - 1) / extent < depth / extent := by
        apply Int.ediv_lt_of_lt_mul positive
        rw [mul_comm]
        omega
      omega
    · rw [if_neg exact]
      omega
  · rw [Int.toNat_of_nonneg low, mul_comm]
    omega
  · rw [Int.toNat_of_nonneg low, add_mul, one_mul, mul_comm]
    omega

theorem length_flatten_pairs {α : Type} {pairs : List (List α)} (each : ∀ pair ∈ pairs, pair.length = 2) :
    pairs.flatten.length = 2 * pairs.length := by
  induction pairs with
  | nil => rfl
  | cons pair pairs ih =>
    rw [List.flatten_cons, List.length_append, each pair List.mem_cons_self,
      ih fun other listed => each other (List.mem_cons_of_mem _ listed), List.length_cons]
    omega

theorem physical_slices (ordered : domain.lo axis ≤ domain.hi axis) (physical : ¬ topology.IsPeriodic ⟨axis, .lower⟩) :
    SlicesSound domain ghosts topology axis [⟨domain.lo axis, domain.hi axis, none⟩,
      ⟨domain.lo axis + -ghosts axis, domain.lo axis - 1, some ⟨⟨axis, .lower⟩, .physical, 0⟩⟩,
      ⟨domain.hi axis + 1, domain.hi axis + ghosts axis, some ⟨⟨axis, .upper⟩, .physical, 0⟩⟩] := by
  refine ⟨fun slice listed => ?_, _, rfl, fun index low high outside => ?_⟩
  · rcases List.mem_cons.mp listed with rfl | later
    · exact interior_sound
    rcases List.mem_pair.mp later with rfl | rfl
    · exact physical_sound physical fun index low high => ⟨by omega, by rw [if_pos (by omega)]⟩
    · exact physical_sound physical fun index low high => ⟨by omega, by rw [if_neg (by omega)]⟩
  · by_cases below : index < domain.lo axis
    · exact ⟨_, List.mem_cons_self, by dsimp only; omega, by dsimp only; omega⟩
    · exact ⟨_, List.mem_cons_of_mem _ List.mem_cons_self, by dsimp only; omega, by dsimp only; omega⟩

section Strips
variable {strips : List (List (AxisSlice d))}
  (placed : (List.range (wraps (ghosts axis) (domain.length axis)).toNat).mapM (fun (n : ℕ) =>
    wrapSlices domain (ghosts axis) (domain.length axis) axis ((n : ℤ) + 1)) = .ok strips)
include placed

theorem strip_sound (periodic : topology.IsPeriodic ⟨axis, .lower⟩) {strip : List (AxisSlice d)}
    (listed : strip ∈ strips) : strip.length = 2 ∧ ∀ slice ∈ strip, SliceSound domain topology axis slice := by
  obtain ⟨n, -, made⟩ := mem_of_mapM_ok placed listed
  rw [wrapSlices_ok made]
  refine ⟨rfl, fun slice found => ?_⟩
  rcases List.mem_pair.mp found with rfl | rfl
  · exact periodic_sound periodic
  · exact periodic_sound periodic

theorem strips_cover (positive : 0 < domain.length axis) {index : ℤ} (low : domain.lo axis - ghosts axis ≤ index)
    (high : index ≤ domain.hi axis + ghosts axis) (outside : ¬ (domain.lo axis ≤ index ∧ index ≤ domain.hi axis)) :
    ∃ slice ∈ strips.flatten, slice.lower ≤ index ∧ index ≤ slice.upper := by
  by_cases below : index < domain.lo axis
  · obtain ⟨n, wrap, reached, within⟩ := wraps_reach (ghosts axis) positive
      (domain.lo axis - index) (by omega) (by omega)
    obtain ⟨strip, listed, made⟩ := exists_of_mapM_ok placed (List.mem_range.mpr wrap)
    have capped : domain.lo axis - index ≤ min (ghosts axis) (((n : ℤ) + 1) * domain.length axis) :=
      le_min (by omega) within
    refine ⟨_, List.mem_flatten.mpr ⟨strip, listed, by rw [wrapSlices_ok made]; exact List.mem_cons_self⟩, ?_, ?_⟩
    · dsimp only
      omega
    · dsimp only
      rw [add_sub_cancel_right]
      omega
  · obtain ⟨n, wrap, reached, within⟩ := wraps_reach (ghosts axis) positive
      (index - domain.hi axis) (by omega) (by omega)
    obtain ⟨strip, listed, made⟩ := exists_of_mapM_ok placed (List.mem_range.mpr wrap)
    have capped : index - domain.hi axis ≤ min (ghosts axis) (((n : ℤ) + 1) * domain.length axis) :=
      le_min (by omega) within
    refine ⟨_, List.mem_flatten.mpr ⟨strip, listed, by
      rw [wrapSlices_ok made]
      exact List.mem_cons_of_mem _ List.mem_cons_self⟩, ?_, ?_⟩
    · dsimp only
      rw [add_sub_cancel_right]
      omega
    · dsimp only
      omega

theorem periodic_slices (periodic : topology.IsPeriodic ⟨axis, .lower⟩) (positive : 0 < domain.length axis) :
    SlicesSound domain ghosts topology axis (⟨domain.lo axis, domain.hi axis, none⟩ :: strips.flatten) ∧
      strips.flatten.length = 2 * (wraps (ghosts axis) (domain.length axis)).toNat := by
  refine ⟨⟨fun slice listed => ?_, _, rfl, fun index low high outside => strips_cover placed positive low high outside⟩,
    ?_⟩
  · rcases List.mem_cons.mp listed with rfl | later
    · exact interior_sound
    · obtain ⟨strip, inside, found⟩ := List.mem_flatten.mp later
      exact (strip_sound placed periodic inside).2 slice found
  · have number := (mapM_ok.mp placed).length_eq
    rw [List.length_range] at number
    rw [length_flatten_pairs fun strip listed => (strip_sound placed periodic listed).1, number]

end Strips

/-- What the slices of an axis may be, by the kind of the axis. -/
inductive AxisCases (domain : Box d) (ghosts : Extent d) (topology : BoundaryTopology d) (axis : Fin d)
    (slices : List (AxisSlice d)) : Prop where
  | flat (depth : ghosts axis = 0) (listed : slices = [⟨domain.lo axis, domain.hi axis, none⟩])
  | physical (depth : ghosts axis ≠ 0) (physical : ¬ topology.IsPeriodic ⟨axis, .lower⟩)
      (listed : slices = [⟨domain.lo axis, domain.hi axis, none⟩,
        ⟨domain.lo axis + -ghosts axis, domain.lo axis - 1, some ⟨⟨axis, .lower⟩, .physical, 0⟩⟩,
        ⟨domain.hi axis + 1, domain.hi axis + ghosts axis, some ⟨⟨axis, .upper⟩, .physical, 0⟩⟩])
      (lower : FitsInt (domain.lo axis + -ghosts axis) ∧ FitsInt (domain.lo axis - 1))
      (upper : FitsInt (domain.hi axis + 1) ∧ FitsInt (domain.hi axis + ghosts axis))
  | periodic (depth : ghosts axis ≠ 0) (periodic : topology.IsPeriodic ⟨axis, .lower⟩)
      (positive : 0 < domain.length axis) (strips : List (List (AxisSlice d)))
      (placed : (List.range (wraps (ghosts axis) (domain.length axis)).toNat).mapM (fun (n : ℕ) =>
        wrapSlices domain (ghosts axis) (domain.length axis) axis ((n : ℤ) + 1)) = .ok strips)
      (listed : slices = ⟨domain.lo axis, domain.hi axis, none⟩ :: strips.flatten)

theorem makeAxisSlices_cases (ran : makeAxisSlices domain ghosts topology axis = .ok slices) :
    0 ≤ ghosts axis ∧ AxisCases domain ghosts topology axis slices := by
  obtain ⟨count, counted, ran⟩ := bind_ok.mp ran
  obtain ⟨nonneg, cases⟩ := checkedAxisSegmentCount_ok counted
  refine ⟨nonneg, ?_⟩
  obtain ⟨flat, -⟩ | ⟨ghosted, physical, -⟩ | ⟨ghosted, periodic, positive, -⟩ := cases
  · rw [if_pos flat] at ran
    cases ran
    exact .flat flat rfl
  · rw [if_neg ghosted, if_pos physical] at ran
    obtain ⟨first, ran1, ran⟩ := bind_ok.mp ran
    obtain ⟨firstIndex, ran2, ran⟩ := bind_ok.mp ran
    obtain ⟨last, ran3, ran⟩ := bind_ok.mp ran
    obtain ⟨start, ran4, ran⟩ := bind_ok.mp ran
    obtain ⟨stop, ran5, ran⟩ := bind_ok.mp ran
    obtain ⟨stopIndex, ran6, returned⟩ := bind_ok.mp ran
    obtain rfl := checkedSum_ok ran1
    obtain ⟨firstFits, rfl⟩ := checkedIndex_ok.mp ran2
    obtain ⟨lastFits, rfl⟩ := checkedIndex_ok.mp ran3
    obtain ⟨startFits, rfl⟩ := checkedIndex_ok.mp ran4
    obtain rfl := checkedSum_ok ran5
    obtain ⟨stopFits, rfl⟩ := checkedIndex_ok.mp ran6
    cases returned
    exact .physical ghosted physical rfl ⟨firstFits, lastFits⟩ ⟨startFits, stopFits⟩
  · rw [if_neg ghosted, if_neg (not_not.mpr periodic)] at ran
    obtain ⟨strips, placed, returned⟩ := bind_ok.mp ran
    cases returned
    exact .periodic ghosted periodic positive strips placed rfl

theorem makeAxisSlices_ok (ordered : domain.lo axis ≤ domain.hi axis)
    (ran : makeAxisSlices domain ghosts topology axis = .ok slices) :
    SlicesSound domain ghosts topology axis slices ∧
      checkedAxisSegmentCount (ghosts axis) (domain.length axis) (topology.IsPeriodic ⟨axis, .lower⟩) =
        .ok slices.length := by
  obtain ⟨count, counted, -⟩ := bind_ok.mp ran
  obtain ⟨-, counts⟩ := checkedAxisSegmentCount_ok counted
  obtain ⟨-, kinds⟩ := makeAxisSlices_cases ran
  rw [counted]
  cases kinds with
  | flat depth listed =>
    subst listed
    refine ⟨⟨fun slice listed => ?_, [], rfl, fun index low high outside => absurd (by omega) outside⟩, ?_⟩
    · rw [List.mem_singleton.mp listed]
      exact interior_sound
    · obtain ⟨-, rfl⟩ | ⟨ghosted, -⟩ | ⟨ghosted, -⟩ := counts
      · rfl
      · exact absurd depth ghosted
      · exact absurd depth ghosted
  | physical depth physical listed =>
    subst listed
    refine ⟨physical_slices ordered physical, ?_⟩
    obtain ⟨flat, -⟩ | ⟨-, -, rfl⟩ | ⟨-, periodic, -⟩ := counts
    · exact absurd flat depth
    · rfl
    · exact absurd periodic physical
  | periodic depth periodic positive strips placed listed =>
    subst listed
    obtain ⟨sound, number⟩ := periodic_slices placed periodic positive
    refine ⟨sound, congrArg Except.ok ?_⟩
    obtain ⟨flat, -⟩ | ⟨-, physical, -⟩ | ⟨-, -, -, rfl⟩ := counts
    · exact absurd flat depth
    · exact absurd periodic physical
    · rw [List.length_cons, number]
      omega

section Region
variable {slices : Fin d → List (AxisSlice d)} {ordinal : ℕ} {plan : BoundaryRegionPlan d} {cell : Index d}

theorem operations_sorted (faced : ∀ axis operation, (sliceAt slices ordinal axis).operation = some operation →
    operation.face.axis = axis) :
    ((List.finRange d).filterMap fun axis => (sliceAt slices ordinal axis).operation).mergeSort before =
      (List.finRange d).filterMap fun axis => (sliceAt slices ordinal axis).operation := by
  refine List.mergeSort_of_pairwise (List.pairwise_filterMap.mpr ?_)
  refine (List.pairwise_lt_finRange d).imp fun {axis other} less first firstFound second secondFound => ?_
  have firstAxis := faced axis first firstFound
  have secondAxis := faced other second secondFound
  refine decide_eq_true fun wrong => ?_
  unfold FaceLess at wrong
  rw [firstAxis, secondAxis] at wrong
  rcases wrong with greater | ⟨same, -⟩
  · exact absurd greater (not_lt.mpr less.le)
  · exact absurd same less.ne'

theorem regionPlan_ok (faced : ∀ axis operation, (sliceAt slices ordinal axis).operation = some operation →
    operation.face.axis = axis) (made : regionPlan slices ordinal = .ok plan) :
    plan.destination = ⟨fun axis => (sliceAt slices ordinal axis).lower, fun axis => (sliceAt slices ordinal axis).upper⟩ ∧
      plan.operations = (List.finRange d).filterMap fun axis => (sliceAt slices ordinal axis).operation := by
  obtain ⟨_, -, made⟩ := bind_ok.mp made
  obtain ⟨_, -, made⟩ := bind_ok.mp made
  obtain ⟨shift, -, returned⟩ := bind_ok.mp made
  cases returned
  exact ⟨rfl, operations_sorted faced⟩

theorem sliceAt_sound (sound : ∀ axis, ∀ slice ∈ slices axis, SliceSound domain topology axis slice) (ordinal : ℕ)
    (axis : Fin d) : SliceSound domain topology axis (sliceAt slices ordinal axis) := by
  unfold sliceAt
  rw [List.getD_eq_getElem?_getD]
  cases found : (slices axis)[digit (fun axis => (slices axis).length) ordinal axis]? with
  | none =>
    exact ⟨fun _ none => (by cases none), fun index low high => absurd (show (0 : ℤ) ≤ -1 from low.trans high) (by decide),
      fun _ none => by cases none⟩
  | some slice => exact sound axis slice (List.mem_of_getElem? found)

end Region

theorem decode_zero {ι : Type} [DecidableEq ι] {radix : ι → ℕ} {axes : List ι} {axis : ι} (listed : axis ∈ axes)
    (base : ι → ℕ) : (MixedRadix.decode radix axes 0 base).1 axis = 0 := by
  induction axes generalizing base with
  | nil => cases listed
  | cons head axes ih =>
    rw [MixedRadix.decode, Nat.zero_div, Nat.zero_mod]
    by_cases later : axis ∈ axes
    · exact ih later _
    · obtain rfl : axis = head := by simpa [later] using listed
      rw [MixedRadix.decode_of_not_mem later, Function.update_self]

theorem cartesianCount_ok {counts : Fin d → ℕ} {count : ℕ} (ran : cartesianCount counts = .ok count) :
    count = MixedRadix.volume counts (List.finRange d) := by
  unfold cartesianCount at ran
  have general : ∀ (axes : List (Fin d)) (start : ℕ), axes.foldlM (fun count axis => do
      throwIf (counts axis > sizeMax / count)
        (.lengthError "pops::mesh boundary schedule Cartesian size overflows size_t")
      return count * counts axis) start = (Except.ok count : Checked ℕ) → count = start * MixedRadix.volume counts axes := by
    intro axes
    induction axes with
    | nil =>
      intro start ran
      cases ran
      simp
    | cons axis axes ih =>
      intro start ran
      rw [List.foldlM_cons] at ran
      obtain ⟨next, stepped, ran⟩ := bind_ok.mp ran
      obtain ⟨_, -, returned⟩ := bind_ok.mp stepped
      cases returned
      rw [ih _ ran, MixedRadix.volume_cons, mul_assoc]
  rw [general _ 1 ran, one_mul]

/-- What a schedule has of its domain. -/
structure ScheduleSound (domain : Box d) (ghosts : Extent d) (topology : BoundaryTopology d)
    (entries : List (BoundaryRegionPlan d)) : Prop where
  nonempty : ¬ domain.Empty
  regions : ∀ plan ∈ entries, ∃ slice : Fin d → AxisSlice d, (∀ axis, SliceSound domain topology axis (slice axis)) ∧
    plan.destination = ⟨fun axis => (slice axis).lower, fun axis => (slice axis).upper⟩ ∧
      plan.operations = (List.finRange d).filterMap fun axis => (slice axis).operation
  covers : ∀ cell : Index d,
    (∀ axis, domain.lo axis - ghosts axis ≤ cell axis ∧ cell axis ≤ domain.hi axis + ghosts axis) →
      (∃ axis, ¬ (domain.lo axis ≤ cell axis ∧ cell axis ≤ domain.hi axis)) → ∃ plan ∈ entries, cell ∈ plan.destination.cells

theorem prepareBoundarySchedule_ok {budget : ℕ} {entries : List (BoundaryRegionPlan d)}
    (ran : prepareBoundarySchedule domain ghosts topology budget = .ok entries) :
    ScheduleSound domain ghosts topology entries := by
  obtain ⟨_, filled, ran⟩ := bind_ok.mp ran
  obtain ⟨counts, counted, ran⟩ := bind_ok.mp ran
  obtain ⟨count, cartesian, ran⟩ := bind_ok.mp ran
  obtain ⟨_, -, ran⟩ := bind_ok.mp ran
  obtain ⟨slices, sliced, placed⟩ := bind_ok.mp ran
  have nonempty := throwIf_ok.mp filled
  have ordered := Box.not_empty_iff.mp nonempty
  have made := fun axis => makeAxisSlices_ok (ordered axis) (axes_ok.mp sliced axis)
  have lengths : counts = fun axis => (slices axis).length := by
    funext axis
    have one := axes_ok.mp counted axis
    rw [(made axis).2] at one
    exact (Except.ok.inj one).symm
  have sound := fun ordinal => sliceAt_sound (fun axis => (made axis).1.sound) ordinal
  refine ⟨nonempty, fun plan listed => ?_, fun cell deep outside => ?_⟩
  · obtain ⟨n, -, planned⟩ := mem_of_mapM_ok placed listed
    exact ⟨_, sound (n + 1), regionPlan_ok (fun axis => (sound (n + 1) axis).faced) planned⟩
  · have chosen : ∀ axis, ∃ n slice, (slices axis)[n]? = some slice ∧ slice.lower ≤ cell axis ∧ cell axis ≤ slice.upper ∧
        (n = 0 → domain.lo axis ≤ cell axis ∧ cell axis ≤ domain.hi axis) := by
      intro axis
      obtain ⟨rest, split, covers⟩ := (made axis).1.covers
      rw [split]
      by_cases within : domain.lo axis ≤ cell axis ∧ cell axis ≤ domain.hi axis
      · exact ⟨0, _, rfl, within.1, within.2, fun _ => within⟩
      · obtain ⟨slice, listed, low, high⟩ := covers (cell axis) (deep axis).1 (deep axis).2 within
        obtain ⟨n, found⟩ := List.mem_iff_getElem?.mp listed
        exact ⟨n + 1, slice, found, low, high, fun zero => absurd zero (Nat.succ_ne_zero n)⟩
    choose digits slice found low high first using chosen
    have inside : ∀ axis, digits axis < (slices axis).length := fun axis =>
      (List.getElem?_eq_some_iff.mp (found axis)).1
    have ordinal := MixedRadix.encode_lt (fun axis _ => inside axis : ∀ axis ∈ List.finRange d, digits axis < (slices axis).length)
    have decoded : ∀ axis, digit (fun axis => (slices axis).length)
        (MixedRadix.encode (fun axis => (slices axis).length) (List.finRange d) digits) axis = digits axis := fun axis =>
      MixedRadix.decode_encode (List.nodup_finRange d) (fun axis _ => inside axis) _ (List.mem_finRange axis)
    have positive : MixedRadix.encode (fun axis => (slices axis).length) (List.finRange d) digits ≠ 0 := by
      intro zero
      obtain ⟨axis, crossed⟩ := outside
      have same := decoded axis
      rw [zero, digit, decode_zero (List.mem_finRange axis)] at same
      exact crossed (first axis same.symm)
    have volume := cartesianCount_ok cartesian
    rw [lengths] at volume
    obtain ⟨n, number⟩ := Nat.exists_eq_succ_of_ne_zero positive
    obtain ⟨plan, listed, planned⟩ := exists_of_mapM_ok placed (List.mem_range.mpr (show n < count - 1 by omega))
    refine ⟨plan, listed, ?_⟩
    obtain ⟨destination, -⟩ := regionPlan_ok (fun axis => (sound (n + 1) axis).faced) planned
    rw [destination]
    refine Box.mem_cells.mpr fun axis => ?_
    have same := decoded axis
    rw [number] at same
    have here : sliceAt slices (n + 1) axis = slice axis := by
      rw [sliceAt, same, List.getD_eq_getElem?_getD, found]
      rfl
    dsimp only
    rw [here]
    exact ⟨low axis, high axis⟩

end Pops.PhysicalBoundary
