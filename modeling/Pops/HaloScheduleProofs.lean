import Pops.BoxArrayProofs
import Pops.BoxTraversal
import Pops.HaloSchedule
import Pops.Staging

/-!
Proofs about halo schedules. The images of a schedule are the translations by
whole domain lengths that a ghost can need, each once, so a ghost cell has one
image that brings it into the domain; a tiling has one patch there; and cutting
the patch itself out of its grown box leaves the cell in one region.
-/
namespace Pops

variable {d : ℕ}

namespace HaloSchedule
open MixedRadix PeerPlans

/-- The number of domain lengths an option moves by. -/
def wrapsOf (option : ℕ) : ℤ :=
  if option = 0 then 0 else if option % 2 = 1 then 1 + (option - 1) / 2 else -(1 + (option - 1) / 2)

/-- The option that moves by a number of domain lengths. -/
def optionOf (wraps : ℤ) : ℕ := if 0 < wraps then (2 * wraps - 1).toNat else (-2 * wraps).toNat

theorem wrapsOf_optionOf (wraps : ℤ) : wrapsOf (optionOf wraps) = wraps := by
  unfold wrapsOf optionOf
  split <;> split <;> (try split) <;> omega

theorem wrapsOf_injective {first second : ℕ} (same : wrapsOf first = wrapsOf second) : first = second := by
  unfold wrapsOf at same
  split at same <;> split at same <;> (try split at same) <;> (try split at same) <;> omega

/-- The wraps an axis allows each way. -/
def wrapLimit (domain : Box d) (ghosts : Extent d) (topology : BoundaryTopology d) (axis : Fin d) : ℤ :=
  if topology.Wraps axis ∧ ghosts axis ≠ 0 then 1 + (ghosts axis - 1) / domain.length axis else 0

theorem imageCount_ok {domain : Box d} {ghosts : Extent d} {topology : BoundaryTopology d} {axis : Fin d}
    {count : ℕ} (ran : imageCount domain ghosts topology axis = .ok count) :
    0 ≤ ghosts axis ∧ (count : ℤ) = 1 + 2 * wrapLimit domain ghosts topology axis ∧
      0 ≤ wrapLimit domain ghosts topology axis ∧
      (topology.Wraps axis → ghosts axis ≠ 0 → 0 < domain.length axis) := by
  simp only [imageCount, bind_ok, throwIf_ok, unit_exists, not_lt] at ran
  obtain ⟨nonnegative, ran⟩ := ran
  unfold wrapLimit
  split at ran
  · rename_i wraps
    simp only [bind_ok, throwIf_ok, unit_exists, pure_ok, not_le] at ran
    obtain ⟨positive, -, rfl⟩ := ran
    have quotient : 0 ≤ (ghosts axis - 1) / domain.length axis :=
      Int.ediv_nonneg (by omega) positive.le
    replace wraps : topology.Wraps axis ∧ ghosts axis ≠ 0 := wraps
    rw [if_pos wraps]
    exact ⟨nonnegative, by push_cast; omega, by omega, fun _ _ => positive⟩
  · rename_i still
    rw [pure_ok] at ran
    subst ran
    replace still : ¬ (topology.Wraps axis ∧ ghosts axis ≠ 0) := still
    rw [if_neg still]
    exact ⟨nonnegative, rfl, le_rfl, fun wraps some => absurd ⟨wraps, some⟩ still⟩

theorem imageCountsFrom_ok {domain : Box d} {ghosts : Extent d} {topology : BoundaryTopology d}
    (axes : List (Fin d)) (distinct : axes.Nodup) {before after : Fin d → ℕ} {total images : ℕ}
    (ran : imageCountsFrom domain ghosts topology axes before total = .ok (after, images)) :
    (∀ axis ∈ axes, imageCount domain ghosts topology axis = .ok (after axis)) ∧
      (∀ axis ∉ axes, after axis = before axis) ∧ images = total * volume after axes := by
  induction axes generalizing before total with
  | nil =>
    cases ran
    simp
  | cons axis later ih =>
    obtain ⟨fresh, rest⟩ := List.nodup_cons.mp distinct
    simp only [imageCountsFrom, checkedProduct, bind_ok, throwIf_ok, unit_exists, pure_ok] at ran
    obtain ⟨count, counted, product, ⟨-, rfl⟩, ran⟩ := ran
    obtain ⟨listed, others, images⟩ := ih rest ran
    have here : after axis = count := by rw [others axis fresh, Function.update_self]
    refine ⟨fun other member => ?_, fun other unlisted => ?_, ?_⟩
    · rcases List.mem_cons.mp member with rfl | member
      · rw [here, counted]
      · exact listed other member
    · simp only [List.mem_cons, not_or] at unlisted
      rw [others other unlisted.2, Function.update_of_ne unlisted.1]
    · rw [images, volume_cons, here, Nat.mul_assoc]

theorem imageCounts_ok {domain : Box d} {ghosts : Extent d} {topology : BoundaryTopology d}
    {counts : Fin d → ℕ} {images : ℕ} (ran : imageCounts domain ghosts topology = .ok (counts, images)) :
    (∀ axis, imageCount domain ghosts topology axis = .ok (counts axis)) ∧
      images = volume counts (List.finRange d) := by
  obtain ⟨listed, -, total⟩ := imageCountsFrom_ok _ (List.nodup_finRange d) ran
  exact ⟨fun axis => listed axis (List.mem_finRange axis), by rw [total, one_mul]⟩

/-- The option of an image on an axis. -/
def optionAt (counts : Fin d → ℕ) (image : ℕ) (axis : Fin d) : ℕ :=
  (decode counts (List.finRange d) image fun _ => 0).1 axis

/-- The translation of an image. -/
def shiftOf (counts : Fin d → ℕ) (domain : Box d) (image : ℕ) : Index d := fun axis =>
  wrapsOf (optionAt counts image axis) * domain.length axis

theorem imageShiftAxis_ok {option : ℕ} {length shift : ℤ} (ran : imageShiftAxis option length = .ok shift) :
    shift = wrapsOf option * length := by
  unfold imageShiftAxis at ran
  split at ran
  · rename_i zero
    cases ran
    simp [wrapsOf, zero]
  · rename_i some
    simp only [checkedMultiply, bind_ok, throwIf_ok, unit_exists, pure_ok, checkedIndex_ok] at ran
    obtain ⟨-, magnitude, ⟨-, -, rfl⟩, -, rfl⟩ := ran
    have cast : ((1 + (option - 1) / 2 : ℕ) : ℤ) = 1 + ((option : ℤ) - 1) / 2 := by omega
    unfold wrapsOf
    rw [if_neg some, cast]
    split
    · rfl
    · rw [neg_mul]

theorem imageShift_ok {image : ℕ} {counts : Fin d → ℕ} {domain : Box d} {shift : Index d}
    (ran : imageShift image counts domain = .ok shift) : shift = shiftOf counts domain image := by
  rw [imageShift, axes_ok] at ran
  funext axis
  exact imageShiftAxis_ok (ran axis)

theorem negate_ok {value negated : Index d} (ran : negate value = .ok negated) :
    negated = fun axis => -value axis := by
  rw [negate, axes_ok] at ran
  funext axis
  exact (checkedIndex_ok.mp (ran axis)).2.symm

/-- A cell, with the periodic axes reduced into the domain. -/
def reduced (domain : Box d) (topology : BoundaryTopology d) (cell : Index d) : Index d := fun axis =>
  if topology.Wraps axis then domain.lo axis + (cell axis - domain.lo axis) % domain.length axis else cell axis

/-- The box with ghosts around it. -/
def swell (box : Box d) (ghosts : Extent d) : Box d :=
  ⟨fun axis => box.lo axis - ghosts axis, fun axis => box.hi axis + ghosts axis⟩

/-- A cell moved by a translation. -/
def moved (cell shift : Index d) : Index d := fun axis => cell axis + shift axis

section Images
variable {domain : Box d} {ghosts : Extent d} {topology : BoundaryTopology d} {counts : Fin d → ℕ}
variable (counted : ∀ axis, imageCount domain ghosts topology axis = .ok (counts axis))
include counted

theorem counts_pos (axis : Fin d) : 0 < counts axis := by
  obtain ⟨-, count, limit, -⟩ := imageCount_ok (counted axis)
  omega

theorem optionAt_lt (image : ℕ) (axis : Fin d) : optionAt counts image axis < counts axis :=
  decode_lt (fun other _ => counts_pos counted other) (List.mem_finRange axis) image _

theorem shiftOf_still {axis : Fin d} (still : wrapLimit domain ghosts topology axis = 0) (image : ℕ) :
    shiftOf counts domain image axis = 0 := by
  have below := optionAt_lt counted image axis
  obtain ⟨-, count, -⟩ := imageCount_ok (counted axis)
  have zero : optionAt counts image axis = 0 := by omega
  simp [shiftOf, zero, wrapsOf]

theorem moved_eq_reduced (cell : Index d) {image : ℕ}
    (lands : moved cell (shiftOf counts domain image) ∈ domain.cells) :
    moved cell (shiftOf counts domain image) = reduced domain topology cell := by
  funext axis
  have bounds := Box.mem_cells.mp lands axis
  have length := Box.length_of_nonempty (Box.nonempty_of_mem lands) axis
  simp only [moved] at bounds ⊢
  unfold reduced
  by_cases wraps : topology.Wraps axis
  · rw [if_pos wraps]
    have level : (cell axis - domain.lo axis) % domain.length axis =
        cell axis + shiftOf counts domain image axis - domain.lo axis := by
      rw [← Int.emod_eq_of_lt (a := cell axis + shiftOf counts domain image axis - domain.lo axis)
        (b := domain.length axis) (by omega) (by omega)]
      unfold shiftOf
      rw [show cell axis + wrapsOf (optionAt counts image axis) * domain.length axis - domain.lo axis =
        cell axis - domain.lo axis + wrapsOf (optionAt counts image axis) * domain.length axis by ring,
        Int.add_mul_emod_self_right]
    rw [level]
    ring
  · have still : wrapLimit domain ghosts topology axis = 0 := if_neg fun both => wraps both.1
    rw [if_neg wraps, shiftOf_still counted still, add_zero]

omit counted in
theorem shiftOf_injective (nonempty : ¬ domain.Empty) {first second : ℕ}
    (firstBelow : first < volume counts (List.finRange d)) (secondBelow : second < volume counts (List.finRange d))
    (same : shiftOf counts domain first = shiftOf counts domain second) : first = second := by
  refine decode_injective (List.nodup_finRange d) firstBelow secondBelow (fun _ => 0) fun axis _ => ?_
  have positive := Box.length_pos nonempty axis
  have level := congrFun same axis
  unfold shiftOf at level
  exact wrapsOf_injective (Int.eq_of_mul_eq_mul_right positive.ne' level)

/-- A ghost cell of a patch of the domain has an image that reduces it. -/
theorem exists_image {box : Box d} {cell : Index d} (inside : box.cells ⊆ domain.cells) (nonempty : ¬ box.Empty)
    (ghost : cell ∈ (swell box ghosts).cells) :
    ∃ image < volume counts (List.finRange d),
      moved cell (shiftOf counts domain image) = reduced domain topology cell := by
  have domainNonempty : ¬ domain.Empty := Box.nonempty_of_mem (inside (Box.lo_mem nonempty))
  let wraps := fun axis : Fin d =>
    if topology.Wraps axis ∧ ghosts axis ≠ 0 then -((cell axis - domain.lo axis) / domain.length axis) else 0
  have within (axis : Fin d) : optionOf (wraps axis) < counts axis := by
    obtain ⟨nonnegative, count, limit, -⟩ := imageCount_ok (counted axis)
    have positive := Box.length_pos domainNonempty axis
    have length := Box.length_of_nonempty domainNonempty axis
    have low := Box.mem_cells.mp (inside (Box.lo_mem nonempty)) axis
    have high := Box.mem_cells.mp (inside (Box.hi_mem nonempty)) axis
    have bounds := Box.mem_cells.mp ghost axis
    simp only [swell] at bounds
    have reach : -wrapLimit domain ghosts topology axis ≤ wraps axis ∧
        wraps axis ≤ wrapLimit domain ghosts topology axis := by
      simp only [wraps]
      unfold wrapLimit
      split
      · rename_i both
        -- the cell is at most the ghost depth outside the domain
        have down : -(1 + (ghosts axis - 1) / domain.length axis) ≤
            (cell axis - domain.lo axis) / domain.length axis := by
          rw [Int.le_ediv_iff_mul_le positive]
          have floor := Int.emod_nonneg (ghosts axis - 1) positive.ne'
          have ceil := Int.emod_lt_of_pos (ghosts axis - 1) positive
          have parts := Int.mul_ediv_add_emod (ghosts axis - 1) (domain.length axis)
          nlinarith
        have up : (cell axis - domain.lo axis) / domain.length axis ≤
            1 + (ghosts axis - 1) / domain.length axis := by
          have step : cell axis - domain.lo axis ≤ ghosts axis - 1 + domain.length axis * 1 := by omega
          calc (cell axis - domain.lo axis) / domain.length axis
              ≤ (ghosts axis - 1 + domain.length axis * 1) / domain.length axis :=
                Int.ediv_le_ediv positive step
            _ = 1 + (ghosts axis - 1) / domain.length axis := by
                rw [Int.add_mul_ediv_left _ _ positive.ne']
                ring
        omega
      · exact ⟨by omega, le_rfl⟩
    unfold optionOf
    split <;> omega
  refine ⟨encode counts (List.finRange d) fun axis => optionOf (wraps axis),
    encode_lt fun axis _ => within axis, ?_⟩
  funext axis
  have option : optionAt counts (encode counts (List.finRange d) fun axis => optionOf (wraps axis)) axis =
      optionOf (wraps axis) :=
    decode_encode (List.nodup_finRange d) (fun other _ => within other) _ (List.mem_finRange axis)
  simp only [moved, shiftOf, option, wrapsOf_optionOf, wraps]
  unfold reduced
  by_cases wrapping : topology.Wraps axis
  · rw [if_pos wrapping]
    by_cases some : ghosts axis = 0
    · -- no ghosts on this axis: the cell is in the domain already
      have low := Box.mem_cells.mp (inside (Box.lo_mem nonempty)) axis
      have high := Box.mem_cells.mp (inside (Box.hi_mem nonempty)) axis
      have bounds := Box.mem_cells.mp ghost axis
      have length := Box.length_of_nonempty domainNonempty axis
      simp only [swell] at bounds
      rw [if_neg fun both => both.2 some, zero_mul, add_zero, Int.emod_eq_of_lt (by omega) (by omega)]
      ring
    · rw [if_pos ⟨wrapping, some⟩]
      have parts := Int.mul_ediv_add_emod (cell axis - domain.lo axis) (domain.length axis)
      linarith
  · rw [if_neg fun both => wrapping both.1, if_neg wrapping, zero_mul, add_zero]

end Images

theorem growAxes_ok {ghosts : Extent d} (axes : List (Fin d)) (distinct : axes.Nodup) {box grown : Box d}
    (nonempty : ¬ box.Empty)
    (ran : axes.foldlM (fun result axis => do
      throwIf (ghosts axis < 0) (.invalidArgument "pops::HaloSchedule ghost extents must be non-negative")
      let amount ← checkedIndex (ghosts axis) "pops::HaloSchedule ghost extent exceeds int"
      result.growAxis axis amount) box = Except.ok grown) :
    (∀ axis ∈ axes, grown.lo axis = box.lo axis - ghosts axis ∧ grown.hi axis = box.hi axis + ghosts axis) ∧
      ∀ axis ∉ axes, grown.lo axis = box.lo axis ∧ grown.hi axis = box.hi axis := by
  induction axes generalizing box with
  | nil =>
    cases ran
    simp
  | cons axis later ih =>
    obtain ⟨fresh, rest⟩ := List.nodup_cons.mp distinct
    rw [List.foldlM_cons, bind_ok] at ran
    obtain ⟨next, first, ran⟩ := ran
    simp only [bind_ok, throwIf_ok, unit_exists, checkedIndex_ok, not_lt] at first
    obtain ⟨nonnegative, amount, ⟨-, rfl⟩, first⟩ := first
    obtain rfl := Box.growAxis_ok nonempty first
    have nextNonempty : ¬ (⟨Function.update box.lo axis (box.lo axis - ghosts axis),
        Function.update box.hi axis (box.hi axis + ghosts axis)⟩ : Box d).Empty := by
      rw [Box.not_empty_iff] at nonempty ⊢
      intro other
      have := nonempty other
      by_cases same : other = axis
      · subst same
        simp only [Function.update_self]
        omega
      · simpa only [Function.update_of_ne same] using this
    obtain ⟨listed, others⟩ := ih rest nextNonempty ran
    have here := others axis fresh
    simp only [Function.update_self] at here
    refine ⟨fun other member => ?_, fun other unlisted => ?_⟩
    · by_cases same : other = axis
      · subst same
        exact here
      · have known := listed other (by simpa [same] using member)
        simpa only [Function.update_of_ne same] using known
    · simp only [List.mem_cons, not_or] at unlisted
      have known := others other unlisted.2
      simpa only [Function.update_of_ne unlisted.1] using known

theorem grow_ok {box grown : Box d} {ghosts : Extent d} (nonempty : ¬ box.Empty)
    (ran : grow box ghosts = .ok grown) : grown = swell box ghosts := by
  obtain ⟨each, -⟩ := growAxes_ok _ (List.nodup_finRange d) nonempty ran
  cases grown with
  | mk lo hi =>
    unfold swell
    congr 1 <;> funext axis
    · exact (each axis (List.mem_finRange axis)).1
    · exact (each axis (List.mem_finRange axis)).2

namespace JobLoop
variable {loop : JobLoop d}

/-- The regions of a destination, an image and a source. -/
def regions (loop : JobLoop d) (destination image source : ℕ) : List (Box d) :=
  let candidate := (swell (loop.box destination) loop.ghosts).intersect
    ((loop.box source).translate fun axis => -shiftOf loop.counts loop.domain image axis)
  if candidate.Empty then [] else candidate.subtract (loop.box destination)

/-- The job of a region. -/
def jobOf (loop : JobLoop d) (destination image source : ℕ) (region : Box d) : HaloJob d :=
  ⟨source, destination, region, shiftOf loop.counts loop.domain image, 0,
    volume region.counts (List.finRange d) * loop.ncomp.toNat⟩

theorem regions_packed (destination image source : ℕ) :
    (loop.regions destination image source).Pairwise (fun left right => Disjoint left.cells right.cells) ∧
      (∀ region ∈ loop.regions destination image source, ¬ region.Empty) ∧
      ∀ cell, (∃ region ∈ loop.regions destination image source, cell ∈ region.cells) ↔
        cell ∈ (swell (loop.box destination) loop.ghosts).cells ∧ cell ∉ (loop.box destination).cells ∧
          moved cell (shiftOf loop.counts loop.domain image) ∈ (loop.box source).cells := by
  have meets (cell : Index d) : cell ∈ ((swell (loop.box destination) loop.ghosts).intersect
      ((loop.box source).translate fun axis => -shiftOf loop.counts loop.domain image axis)).cells ↔
      cell ∈ (swell (loop.box destination) loop.ghosts).cells ∧
        moved cell (shiftOf loop.counts loop.domain image) ∈ (loop.box source).cells := by
    rw [Box.cells_intersect, Finset.mem_inter, Box.mem_translate]
    simp only [sub_neg_eq_add]
    rfl
  unfold regions
  simp only
  split
  · rename_i apart
    refine ⟨.nil, by simp, fun cell => ?_⟩
    have none := meets cell
    rw [Box.empty_iff_cells.mp apart] at none
    simp only [List.not_mem_nil, false_and, exists_false, Finset.notMem_empty, false_iff] at none ⊢
    exact fun both => none ⟨both.1, both.2.2⟩
  · rename_i touching
    obtain ⟨packed, covers⟩ := Box.subtract_packed touching (loop.box destination)
    refine ⟨packed.disjoint, fun region listed empty => ?_, fun cell => ?_⟩
    · exact packed.nonempty region listed (Box.empty_iff_cells.mp empty)
    · rw [covers, meets]
      exact ⟨fun held => ⟨held.1.1, held.2, held.1.2⟩, fun held => ⟨⟨held.1, held.2.2⟩, held.2.1⟩⟩

theorem jobs_ok (nonempty : ∀ box ∈ loop.boxes, ¬ box.Empty) {jobs : List (HaloJob d)}
    (ran : loop.jobs = .ok jobs) :
    jobs = (List.range loop.boxes.length).flatMap fun destination =>
      (List.range loop.images).flatMap fun image => (List.range loop.boxes.length).flatMap fun source =>
        (loop.regions destination image source).map (loop.jobOf destination image source) := by
  have boxNonempty (patch : ℕ) (known : patch < loop.boxes.length) : ¬ (loop.box patch).Empty := by
    rw [box, List.getD_eq_getElem?_getD, List.getElem?_eq_getElem known, Option.getD_some]
    exact nonempty _ (List.getElem_mem known)
  refine (foldlM_append_ok (fun destination listed before after ranDestination => ?_) ran).trans (List.nil_append _)
  simp only [addDestination, bind_ok] at ranDestination
  obtain ⟨grown, ranGrow, ranImages⟩ := ranDestination
  obtain rfl := grow_ok (boxNonempty _ (List.mem_range.mp listed)) ranGrow
  refine foldlM_append_ok (fun image _ before after ranImage => ?_) ranImages
  simp only [addImage, bind_ok] at ranImage
  obtain ⟨shift, ranShift, back, ranBack, ranSources⟩ := ranImage
  obtain rfl := imageShift_ok ranShift
  obtain rfl := negate_ok ranBack
  refine foldlM_append_ok (fun source sourceListed before after ranSource => ?_) ranSources
  simp only [addSource, bind_ok] at ranSource
  obtain ⟨shifted, ranShifted, ranRegions⟩ := ranSource
  obtain ⟨rfl, -⟩ := Box.shift_ok (boxNonempty _ (List.mem_range.mp sourceListed)) ranShifted
  rw [List.map_eq_flatMap]
  refine foldlM_append_ok (fun region regionListed before after ranRegion => ?_) ranRegions
  simp only [addRegion, checkedElements, bind_ok, throwIf_ok, unit_exists, pure_ok] at ranRegion
  obtain ⟨-, sourceRegion, -, -, elements, ⟨cells, counted, -, rfl⟩, rfl⟩ := ranRegion
  have regionNonempty := (regions_packed destination image source).2.1 region regionListed
  rw [Box.numPts_ok regionNonempty counted, Int.toNat_natCast]
  rfl

variable {destination image source : ℕ} {region : Box d} {job : HaloJob d}

theorem mem_jobs (nonempty : ∀ box ∈ loop.boxes, ¬ box.Empty) {jobs : List (HaloJob d)}
    (ran : loop.jobs = .ok jobs) :
    job ∈ jobs ↔ ∃ destination < loop.boxes.length, ∃ image < loop.images, ∃ source < loop.boxes.length,
      ∃ region ∈ loop.regions destination image source, job = loop.jobOf destination image source region := by
  rw [jobs_ok nonempty ran]
  simp only [List.mem_flatMap, List.mem_range, List.mem_map]
  constructor
  · rintro ⟨destination, known, image, within, source, sourceKnown, region, listed, rfl⟩
    exact ⟨destination, known, image, within, source, sourceKnown, region, listed, rfl⟩
  · rintro ⟨destination, known, image, within, source, sourceKnown, region, listed, rfl⟩
    exact ⟨destination, known, image, within, source, sourceKnown, region, listed, rfl⟩

theorem region_unique {other : Box d} {cell : Index d} (listed : region ∈ loop.regions destination image source)
    (otherListed : other ∈ loop.regions destination image source) (member : cell ∈ region.cells)
    (otherMember : cell ∈ other.cells) : region = other := by
  by_contra different
  have symmetric : Std.Symm fun left right : Box d => Disjoint left.cells right.cells :=
    ⟨fun _ _ apart => apart.symm⟩
  have apart := (regions_packed destination image source).1.forall listed otherListed different
  exact Finset.disjoint_left.mp apart member otherMember

theorem jobs_nodup (nonempty : ∀ box ∈ loop.boxes, ¬ box.Empty) (domainNonempty : ¬ loop.domain.Empty)
    (images : loop.images = volume loop.counts (List.finRange d)) {jobs : List (HaloJob d)}
    (ran : loop.jobs = .ok jobs) : jobs.Nodup := by
  rw [jobs_ok nonempty ran]
  have group (destination image source : ℕ) :
      ((loop.regions destination image source).map (loop.jobOf destination image source)).Nodup := by
    apply List.Nodup.map
    · intro left right same
      exact congrArg HaloJob.destinationRegion same
    · refine (regions_packed destination image source).1.imp_of_mem fun {left right} member _ apart same => ?_
      subst same
      have none := (regions_packed destination image source).2.1 left member
      rw [Box.empty_iff_cells] at none
      exact none (Finset.disjoint_self_iff_empty _ |>.mp apart)
  refine List.nodup_flatMap.mpr ⟨fun destination _ => List.nodup_flatMap.mpr ⟨fun image _ =>
    List.nodup_flatMap.mpr ⟨fun source _ => group destination image source, ?_⟩, ?_⟩, ?_⟩
  · refine List.nodup_range.pairwise_of_forall_ne fun source _ other _ different => ?_
    refine List.disjoint_left.mpr fun job here there => different ?_
    obtain ⟨region, -, rfl⟩ := List.mem_map.mp here
    obtain ⟨otherRegion, -, same⟩ := List.mem_map.mp there
    exact (congrArg HaloJob.sourceBox same).symm
  · refine List.nodup_range.pairwise_of_forall_ne fun image below other otherBelow different => ?_
    refine List.disjoint_left.mpr fun job here there => different ?_
    simp only [List.mem_flatMap, List.mem_map] at here there
    obtain ⟨source, -, region, -, rfl⟩ := here
    obtain ⟨otherSource, -, otherRegion, -, same⟩ := there
    rw [List.mem_range, images] at below otherBelow
    exact (shiftOf_injective domainNonempty otherBelow below (congrArg HaloJob.sourceFromDestination same)).symm
  · refine List.nodup_range.pairwise_of_forall_ne fun destination _ other _ different => ?_
    refine List.disjoint_left.mpr fun job here there => different ?_
    simp only [List.mem_flatMap, List.mem_map] at here there
    obtain ⟨image, -, source, -, region, -, rfl⟩ := here
    obtain ⟨otherImage, -, otherSource, -, otherRegion, -, same⟩ := there
    exact (congrArg HaloJob.destinationBox same).symm

end JobLoop

section Created
variable {layout : BoxArray d} {distribution : Distribution d} {localRank : Index d} {domain : Box d}
variable {ghosts : Extent d} {topology : BoundaryTopology d} {ncomp : ℤ} {coverage : HaloLayoutCoverage}
variable {budget : HaloScheduleBudget} {schedule : HaloSchedule d}

theorem checkCoverage_ok {u : Unit} (ran : checkCoverage layout domain coverage budget.layout = .ok u) :
    Packed Box.cells domain.cells layout.boxes := by
  cases coverage with
  | fullDomain =>
    simp only [checkCoverage, bind_ok, throwIf_ok] at ran
    obtain ⟨tiles, ran, accepted⟩ := ran
    rw [Bool.not_eq_false] at accepted
    subst accepted
    unfold BoxArray.tilesExactly at ran
    split at ran
    · simp only [pure_ok, List.isEmpty_iff] at ran
      rw [ran]
      exact .nil
    · simp only [bind_ok] at ran
      obtain ⟨disjoint, checked, ran⟩ := ran
      split at ran
      · rename_i apart
        exact (BoxArray.isDisjointWithin_ok checked).mp apart
      · simp [pure_ok] at ran
  | sparseLevel =>
    simp only [checkCoverage, bind_ok, throwIf_ok] at ran
    obtain ⟨disjoint, checked, accepted⟩ := ran
    rw [Bool.not_eq_false] at accepted
    exact (BoxArray.isDisjointWithin_ok checked).mp accepted

theorem create_ok
    (ran : create layout distribution localRank domain ghosts topology ncomp coverage budget = .ok schedule) :
    distribution.layout = layout ∧ Packed Box.cells domain.cells layout.boxes ∧
      checkCoverage layout domain coverage budget.layout = .ok () ∧
      ∃ counts images, imageCounts domain ghosts topology = .ok (counts, images) ∧
        JobLoop.jobs ⟨layout.boxes, domain, ghosts, ncomp, budget.jobs, counts, images⟩ =
          .ok schedule.canonicalJobs ∧
        ∃ classes, schedule.canonicalJobs.foldlM (classifyJob distribution localRank budget) {} = .ok classes ∧
          schedule.classes = { classes with
            send := sortPlans distribution.rankSpace.order classes.send
            receive := sortPlans distribution.rankSpace.order classes.receive } := by
  simp only [create, bind_ok, throwIf_ok, unit_exists, pure_ok, not_not, Prod.exists] at ran
  obtain ⟨sameLayout, -, covered, -, counts, images, counted, -, _, -, _, -, -, jobs, ranJobs, classes, ranClasses,
    rfl⟩ := ran
  exact ⟨sameLayout, checkCoverage_ok covered, covered, counts, images, counted, ranJobs, classes, ranClasses, rfl⟩

theorem nonempty_of_packed {boxes : List (Box d)} (packed : Packed Box.cells domain.cells boxes) :
    ∀ box ∈ boxes, ¬ box.Empty := fun box listed empty =>
  packed.nonempty box listed (Box.empty_iff_cells.mp empty)

/-- The scheduled copies into a cell of a patch. -/
def covering (schedule : HaloSchedule d) (patch : ℕ) (cell : Index d) : List (HaloJob d) :=
  schedule.canonicalJobs.filter fun job => job.destinationBox = patch ∧ job.destinationRegion.Contains cell

private theorem eq_singleton {α : Type} {items : List α} {item : α} (distinct : items.Nodup) (listed : item ∈ items)
    (only : ∀ other ∈ items, other = item) : items = [item] := by
  cases items with
  | nil => simp at listed
  | cons head rest =>
    obtain rfl := only head (by simp)
    congr 1
    apply List.eq_nil_iff_forall_not_mem.mpr
    intro other member
    obtain rfl := only other (by simp [member])
    exact (List.nodup_cons.mp distinct).1 member

theorem box_eq {loop : JobLoop d} {patch : ℕ} {box : Box d} (here : loop.boxes[patch]? = some box) :
    loop.box patch = box := by
  rw [JobLoop.box, List.getD_eq_getElem?_getD, here, Option.getD_some]

/-- A schedule of a tiled domain copies into each ghost cell exactly once when
the cell reduces into the domain, from the patch that holds the reduced cell,
and not at all otherwise; it copies into ghost cells only. -/
theorem covers_ghosts_once (fits : domain.Fits)
    (ran : create layout distribution localRank domain ghosts topology ncomp .fullDomain budget = .ok schedule) :
    (∀ patch box, layout.boxes[patch]? = some box → ∀ cell ∈ (swell box ghosts).cells, cell ∉ box.cells →
      (reduced domain topology cell ∈ domain.cells → ∃ job source, schedule.covering patch cell = [job] ∧
        moved cell job.sourceFromDestination = reduced domain topology cell ∧
        layout.boxes[job.sourceBox]? = some source ∧ reduced domain topology cell ∈ source.cells) ∧
      (reduced domain topology cell ∉ domain.cells → schedule.covering patch cell = [])) ∧
    ∀ job ∈ schedule.canonicalJobs, ∃ box, layout.boxes[job.destinationBox]? = some box ∧
      ∀ cell ∈ job.destinationRegion.cells, cell ∈ (swell box ghosts).cells ∧ cell ∉ box.cells := by
  obtain ⟨-, packed, covered, counts, images, counted, ranJobs, -⟩ := create_ok ran
  obtain ⟨each, imagesEq⟩ := imageCounts_ok counted
  set loop : JobLoop d := ⟨layout.boxes, domain, ghosts, ncomp, budget.jobs, counts, images⟩ with loopEq
  have nonempty := nonempty_of_packed packed
  have mem (job : HaloJob d) : job ∈ schedule.canonicalJobs ↔ _ := loop.mem_jobs nonempty ranJobs
  have insideDomain {patch : ℕ} {box : Box d} (here : layout.boxes[patch]? = some box) : box.cells ⊆ domain.cells :=
    packed.inside box (List.mem_of_getElem? here)
  have exists_box {patch : ℕ} (below : patch < layout.boxes.length) : ∃ box, layout.boxes[patch]? = some box :=
    ⟨_, List.getElem?_eq_getElem below⟩
  have boxIs {patch : ℕ} {box : Box d} (here : layout.boxes[patch]? = some box) : loop.box patch = box :=
    box_eq here
  -- every job that reaches a cell brings it to its reduced index, in the source patch
  have lands {destination image source : ℕ} (below : source < layout.boxes.length) {region : Box d}
      (listed : region ∈ loop.regions destination image source) {cell : Index d} (member : cell ∈ region.cells) :
      ∃ box, layout.boxes[source]? = some box ∧
        moved cell (shiftOf counts domain image) = reduced domain topology cell ∧
        reduced domain topology cell ∈ box.cells := by
    obtain ⟨box, here⟩ := exists_box below
    have inSource := (((JobLoop.regions_packed destination image source).2.2 cell).mp ⟨region, listed, member⟩).2.2
    rw [boxIs here] at inSource
    have same := moved_eq_reduced each cell (insideDomain here inSource)
    exact ⟨box, here, same, same ▸ inSource⟩
  constructor
  · intro patch box here cell ghost outside
    have patchBelow := (List.getElem?_eq_some_iff.mp here).1
    have memCovering (job : HaloJob d) : job ∈ schedule.covering patch cell ↔
        ∃ image < images, ∃ source < layout.boxes.length, ∃ region ∈ loop.regions patch image source,
          cell ∈ region.cells ∧ job = loop.jobOf patch image source region := by
      simp only [covering, List.mem_filter, mem, decide_eq_true_eq, Box.contains_iff]
      constructor
      · rintro ⟨⟨destination, -, image, imageBelow, source, sourceBelow, region, listed, rfl⟩, rfl, member⟩
        exact ⟨image, imageBelow, source, sourceBelow, region, listed, member, rfl⟩
      · rintro ⟨image, imageBelow, source, sourceBelow, region, listed, member, rfl⟩
        exact ⟨⟨patch, patchBelow, image, imageBelow, source, sourceBelow, region, listed, rfl⟩, rfl, member⟩
    constructor
    · intro inDomain
      have domainNonempty := Box.nonempty_of_mem inDomain
      obtain ⟨image, imageBelow, same⟩ := exists_image each (insideDomain here) (nonempty box
        (List.mem_of_getElem? here)) ghost
      rw [← imagesEq] at imageBelow
      have tiles : ∃ source ∈ layout.boxes, reduced domain topology cell ∈ source.cells := by
        simp only [checkCoverage, bind_ok, throwIf_ok] at covered
        obtain ⟨answer, tiled, accepted⟩ := covered
        exact ((BoxArray.tilesExactly_ok fits domainNonempty tiled).mp (by simpa using accepted)).2 _ inDomain
      obtain ⟨sourceBox, sourceListed, inSource⟩ := tiles
      obtain ⟨source, sourceHere⟩ := List.mem_iff_getElem?.mp sourceListed
      have sourceBelow := (List.getElem?_eq_some_iff.mp sourceHere).1
      obtain ⟨region, listed, member⟩ := ((JobLoop.regions_packed patch image source).2.2 cell).mpr
        ⟨by rw [boxIs here]; exact ghost, by rw [boxIs here]; exact outside,
          by rw [boxIs sourceHere, same]; exact inSource⟩
      refine ⟨loop.jobOf patch image source region, sourceBox, ?_, same, sourceHere, inSource⟩
      apply eq_singleton
      · exact (JobLoop.jobs_nodup nonempty domainNonempty imagesEq ranJobs).filter _
      · exact (memCovering _).mpr ⟨image, imageBelow, source, sourceBelow, region, listed, member, rfl⟩
      · intro other otherListed
        obtain ⟨otherImage, otherImageBelow, otherSource, otherSourceBelow, otherRegion, otherRegionListed,
          otherMember, rfl⟩ := (memCovering other).mp otherListed
        obtain ⟨otherBox, otherHere, otherSame, inOther⟩ := lands otherSourceBelow otherRegionListed otherMember
        have shifts : shiftOf counts domain otherImage = shiftOf counts domain image := by
          funext axis
          have := congrFun (otherSame.trans same.symm) axis
          simp only [moved] at this
          omega
        rw [imagesEq] at imageBelow otherImageBelow
        obtain rfl := shiftOf_injective domainNonempty otherImageBelow imageBelow shifts
        obtain rfl := BoxArray.patch_unique packed.disjoint otherHere sourceHere inOther inSource
        rw [JobLoop.region_unique otherRegionListed listed otherMember member]
    · intro outsideDomain
      apply List.eq_nil_iff_forall_not_mem.mpr
      intro job listed
      obtain ⟨image, -, source, sourceBelow, region, regionListed, member, -⟩ := (memCovering job).mp listed
      obtain ⟨sourceBox, sourceHere, -, inSource⟩ := lands sourceBelow regionListed member
      exact outsideDomain (insideDomain sourceHere inSource)
  · intro job listed
    obtain ⟨destination, below, image, -, source, -, region, regionListed, rfl⟩ := (mem job).mp listed
    obtain ⟨box, here⟩ := exists_box below
    refine ⟨box, here, fun cell member => ?_⟩
    have held := ((JobLoop.regions_packed destination image source).2.2 cell).mp ⟨region, regionListed, member⟩
    rw [boxIs here] at held
    exact ⟨held.1, held.2.1⟩

/-- The owner of a patch of a partitioned layout. -/
def ownerOf (distribution : Distribution d) (patch : ℕ) : Index d := distribution.owners.getD patch fun _ => 0

theorem isLocal_iff (mode : distribution.mode = .partitioned) {patch : ℕ} (known : patch < distribution.owners.length)
    (rank : Index d) : distribution.IsLocal patch rank ↔ ownerOf distribution patch = rank := by
  unfold Distribution.IsLocal ownerOf
  rw [mode, List.getD_eq_getElem?_getD, List.getElem?_eq_getElem known]
  simp

theorem owner_ok {patch : ℕ} {owner : Index d} (ran : distribution.owner patch = .ok owner) :
    owner = ownerOf distribution patch := by
  simp only [Distribution.owner, bind_ok, throwIf_ok, unit_exists] at ran
  obtain ⟨-, ran⟩ := ran
  split at ran
  · cases ran
  · split at ran
    · rename_i found
      cases ran
      rw [ownerOf, List.getD_eq_getElem?_getD, found, Option.getD_some]
    · cases ran

/-- A partitioned layout moves each job from the owner of its source to the
owner of its destination. -/
theorem route_partitioned (mode : distribution.mode = .partitioned) {job : HaloJob d}
    (source : job.sourceBox < distribution.owners.length)
    (destination : job.destinationBox < distribution.owners.length) {way : Route (Index d)}
    (ran : route distribution localRank job = .ok way) :
    way = .between (ownerOf distribution job.sourceBox) (ownerOf distribution job.destinationBox) localRank := by
  simp only [route, isLocal_iff mode source, isLocal_iff mode destination] at ran
  unfold Route.between
  split at ran
  · rename_i both
    rw [pure_ok] at ran
    rw [if_pos both, ran]
  · rename_i apart
    rw [if_neg apart]
    simp only [bind_ok, throwIf_ok, unit_exists] at ran
    obtain ⟨-, ran⟩ := ran
    split at ran
    · rename_i fromHere
      simp only [bind_ok, pure_ok] at ran
      obtain ⟨peer, owned, rfl⟩ := ran
      rw [if_pos fromHere, owner_ok owned]
    · rename_i elsewhere
      rw [if_neg elsewhere]
      split at ran
      · rename_i toHere
        simp only [bind_ok, pure_ok] at ran
        obtain ⟨peer, owned, rfl⟩ := ran
        rw [if_pos toHere, owner_ok owned]
      · rename_i aside
        rw [pure_ok] at ran
        rw [if_neg aside, ran]

theorem route_replicated (mode : distribution.mode = .replicated) {job : HaloJob d} {way : Route (Index d)}
    (ran : route distribution localRank job = .ok way) : way = .copy := by
  have everywhere (patch : ℕ) : distribution.IsLocal patch localRank := .inl mode
  simp only [route, everywhere, and_self, if_true, pure_ok] at ran
  exact ran.symm

theorem classified_of_foldlM (way : HaloJob d → Route (Index d)) {jobs : List (HaloJob d)}
    {classes : Classification (Index d) (HaloJob d)}
    (routes : ∀ job ∈ jobs, ∀ found, route distribution localRank job = .ok found → found = way job)
    (ran : jobs.foldlM (classifyJob distribution localRank budget) {} = .ok classes) :
    Classified way jobs classes := by
  have facts := foldlM_ok_invariant (fun done (state : Classification (Index d) (HaloJob d)) =>
      (∀ job ∈ done, ∀ found, route distribution localRank job = .ok found → found = way job) →
        Classified way done state)
    (fun done job before after held stepped => by
      intro known
      simp only [classifyJob, bind_ok, unit_exists] at stepped
      obtain ⟨found, routed, -, filed⟩ := stepped
      rw [known job (by simp) found routed] at filed
      exact (held fun other listed => known other (by simp [listed])).step filed)
    jobs {} classes [] (fun _ => .nil _) ran
  exact facts routes

theorem canonical_boxes
    (ran : create layout distribution localRank domain ghosts topology ncomp coverage budget = .ok schedule) :
    ∀ job ∈ schedule.canonicalJobs, job.sourceBox < layout.boxes.length ∧
      job.destinationBox < layout.boxes.length := by
  obtain ⟨-, packed, -, counts, images, -, ranJobs, -⟩ := create_ok ran
  intro job listed
  obtain ⟨destination, below, image, -, source, sourceBelow, region, -, rfl⟩ :=
    (JobLoop.mem_jobs (nonempty_of_packed packed) ranJobs).mp listed
  exact ⟨sourceBelow, below⟩

/-- A canonical job copies all components of a region that has cells; it has no
place in a buffer yet. -/
theorem canonical_sizes
    (ran : create layout distribution localRank domain ghosts topology ncomp coverage budget = .ok schedule) :
    ∀ job ∈ schedule.canonicalJobs, 1 ≤ ncomp ∧ ¬ job.destinationRegion.Empty ∧ job.offset = 0 ∧
      job.elements = volume job.destinationRegion.counts (List.finRange d) * ncomp.toNat := by
  obtain ⟨-, packed, -, counts, images, -, ranJobs, -⟩ := create_ok ran
  have positive : ¬ ncomp < 1 := by
    simp only [create, bind_ok, throwIf_ok, unit_exists] at ran
    exact ran.2.2.2.1
  intro job listed
  obtain ⟨destination, -, image, -, source, -, region, regionListed, rfl⟩ :=
    (JobLoop.mem_jobs (nonempty_of_packed packed) ranJobs).mp listed
  exact ⟨by omega, (JobLoop.regions_packed destination image source).2.1 region regionListed, rfl, rfl⟩

/-- What a rank does with a job, by the owners of its patches. -/
def routeOf (distribution : Distribution d) (localRank : Index d) (job : HaloJob d) : Route (Index d) :=
  match distribution.mode with
  | .replicated => .copy
  | .partitioned => .between (ownerOf distribution job.sourceBox) (ownerOf distribution job.destinationBox) localRank

theorem create_classified
    (ran : create layout distribution localRank domain ghosts topology ncomp coverage budget = .ok schedule) :
    Classified (routeOf distribution localRank) schedule.canonicalJobs schedule.classes := by
  have boxes := canonical_boxes ran
  obtain ⟨sameLayout, -, -, -, -, -, -, classes, ranClasses, classesEq⟩ := create_ok ran
  have filed : Classified (routeOf distribution localRank) schedule.canonicalJobs classes := by
    refine classified_of_foldlM _ (fun job listed found routed => ?_) ranClasses
    unfold routeOf
    cases mode : distribution.mode with
    | replicated => exact route_replicated mode routed
    | partitioned =>
      have lengths := (Distribution.partitioned_owners mode).1
      rw [sameLayout] at lengths
      exact route_partitioned mode (by rw [lengths]; exact (boxes job listed).1)
        (by rw [lengths]; exact (boxes job listed).2) routed
  rw [classesEq]
  exact filed.sorted distribution.rankSpace.order

theorem sent_iff_received {jobs : List (HaloJob d)} {first second : Index d}
    {own other : Classification (Index d) (HaloJob d)} (filed : Classified (routeOf distribution first) jobs own)
    (otherFiled : Classified (routeOf distribution second) jobs other) (planned : List (HaloJob d)) (elements : ℕ) :
    ⟨second, planned, elements⟩ ∈ own.send ↔ ⟨first, planned, elements⟩ ∈ other.receive := by
  unfold routeOf at filed otherFiled
  cases mode : distribution.mode with
  | replicated =>
    simp only [mode] at filed otherFiled
    refine ⟨fun sent => ?_, fun received => ?_⟩
    · exact absurd (by simp [jobsOf, Route.sendPeer]) (filed.sends.needed _ sent)
    · exact absurd (by simp [jobsOf, Route.receivePeer]) (otherFiled.receives.needed _ received)
  | partitioned =>
    simp only [mode] at filed otherFiled
    exact Classified.mirrored filed otherFiled planned elements

/-- Each rank files every job by the owners of its patches. What one rank sends
another is what the other receives, job by job and place by place, and each
place of the buffer is read by the job that filled it. -/
theorem peer_plans_agree {first second : Index d} {own other : HaloSchedule d}
    (ranFirst : create layout distribution first domain ghosts topology ncomp coverage budget = .ok own)
    (ranSecond : create layout distribution second domain ghosts topology ncomp coverage budget = .ok other) :
    (Classified (routeOf distribution first) own.canonicalJobs own.classes ∧
      Classified (routeOf distribution second) other.canonicalJobs other.classes) ∧
    own.canonicalJobs = other.canonicalJobs ∧
    (∀ jobs elements, ⟨second, jobs, elements⟩ ∈ own.classes.send ↔
      ⟨first, jobs, elements⟩ ∈ other.classes.receive) ∧
    (own.classes.send.map (·.peer)).Nodup ∧ (other.classes.receive.map (·.peer)).Nodup ∧
    ∀ plan ∈ other.classes.receive, ∀ (V : Type) (read : HaloJob d → ℕ → V) (buffer : ℕ → V),
      ∀ job ∈ plan.jobs, ∀ element < job.elements, job.offset + element < plan.elements ∧
        Staging.pack read plan.jobs buffer (job.offset + element) = read job element := by
  have filed := create_classified ranFirst
  have otherFiled := create_classified ranSecond
  refine ⟨⟨filed, otherFiled⟩, ?_⟩
  obtain ⟨-, -, -, counts, images, counted, ranJobs, -⟩ := create_ok ranFirst
  obtain ⟨-, -, -, otherCounts, otherImages, otherCounted, otherRanJobs, -⟩ := create_ok ranSecond
  rw [counted] at otherCounted
  cases otherCounted
  have sameJobs : own.canonicalJobs = other.canonicalJobs := by
    rw [ranJobs] at otherRanJobs
    exact Except.ok.inj otherRanJobs
  rw [← sameJobs] at otherFiled
  have agree := sent_iff_received filed otherFiled
  refine ⟨sameJobs, agree, filed.sends.distinct, otherFiled.receives.distinct, ?_⟩
  intro plan planned V read buffer job listed element within
  rw [otherFiled.receives.exact plan planned] at listed ⊢
  refine ⟨?_, Staging.pack_place listed within⟩
  have bounds := (bounds_of_mem_place listed).2
  rw [zero_add] at bounds
  exact lt_of_lt_of_le (Nat.add_lt_add_left within _) bounds

end Created

/-! A periodic line of four cells, tiled by two patches of two ranks, with
ghosts deeper than the line. -/

def ring : Box 1 := ⟨fun _ => 0, fun _ => 3⟩

def ringPatches : BoxArray 1 := ⟨[⟨fun _ => 0, fun _ => 1⟩, ⟨fun _ => 2, fun _ => 3⟩]⟩

private theorem ringRanks_originFits : ∀ axis : Fin 1, FitsInt ((fun _ => -1 : Index 1) axis) := by decide

private theorem ringRanks_checked :
    ∀ axis, RankSpace.checkAxis (fun _ => -1 : Index 1) (fun _ => 2) axis = .ok () := fun _ => rfl

def ringRanks : RankSpace 1 := ⟨fun _ => -1, fun _ => 2, ringRanks_originFits, ringRanks_checked⟩

private theorem ringOwners_valid : Distribution.validate ringPatches ringRanks .partitioned
    [fun _ => 0, fun _ => -1] = .ok () := by decide

def ringOwners : Distribution 1 := ⟨ringPatches, ringRanks, .partitioned, [fun _ => 0, fun _ => -1], ringOwners_valid⟩

/-- The schedule of the ring on a rank. -/
def ringSchedule (rank : ℤ) : Checked (HaloSchedule 1) :=
  create ringPatches ringOwners (fun _ => rank) ring (fun _ => 5) (.axisPeriodic fun _ => true) 2 .fullDomain
    ⟨⟨4, 4⟩, 100, 100, 10, 2, 1000, 1000, 1000⟩

/-- Ghost cell 6 of the first patch wraps to cell 2 of the line. -/
theorem ring_covers_ghost : ∃ schedule job, ringSchedule 0 = .ok schedule ∧
    schedule.covering 0 (fun _ => 6) = [job] ∧
    moved (fun _ => 6) job.sourceFromDestination = reduced ring (.axisPeriodic fun _ => true) fun _ => 6 := by
  obtain ⟨schedule, ran⟩ : ∃ schedule, ringSchedule 0 = .ok schedule := exists_of_isOk (by decide +kernel)
  obtain ⟨ghosts, -⟩ := covers_ghosts_once (by decide) ran
  have cell := ghosts 0 ⟨fun _ => 0, fun _ => 1⟩ rfl (fun _ => 6)
    (Box.mem_cells.mpr (by decide)) (fun member => absurd (Box.mem_cells.mp member) (by decide))
  obtain ⟨job, source, covering, wrapped, -⟩ := cell.1 (Box.mem_cells.mpr (by decide))
  exact ⟨schedule, job, ran, covering, wrapped⟩

theorem ring_plans_agree : ∃ own other, ringSchedule 0 = .ok own ∧ ringSchedule (-1) = .ok other ∧
    ∀ jobs elements, ⟨fun _ => -1, jobs, elements⟩ ∈ own.classes.send ↔
      ⟨fun _ => 0, jobs, elements⟩ ∈ other.classes.receive := by
  obtain ⟨own, ran⟩ : ∃ schedule, ringSchedule 0 = .ok schedule := exists_of_isOk (by decide +kernel)
  obtain ⟨other, otherRan⟩ : ∃ schedule, ringSchedule (-1) = .ok schedule := exists_of_isOk (by decide +kernel)
  exact ⟨own, other, ran, otherRan, (peer_plans_agree ran otherRan).2.2.1⟩

end HaloSchedule

end Pops
