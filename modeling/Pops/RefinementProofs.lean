import Pops.CellTransferProofs
import Pops.CopyScheduleProofs
import Pops.HierarchyPlanProofs
import Pops.Refinement

/-!
Averaging after piecewise-constant interpolation. A transfer runs only where the
coarse patches have the cells of the coarsened fine patches and every copy is
local; then each held coarse cell comes from the one local fine patch above it,
and its children are all in that patch.
-/
namespace Pops.Refinement
open Finset MixedRadix CopySchedule
open FaceTransfer (radix cast_radix)

variable {d : ℕ} {K : Type} {ratio : RefinementRatio d} {box : Box d} {operation : String}

theorem validateRatio_ok (ratio : RefinementRatio d) (operation : String) :
    validateRatio ratio.values operation = .ok () := by
  refine throwIf_of_not ?_
  rintro ⟨axis, low | high⟩
  · exact absurd (ratio.pos axis) (not_lt.mpr low)
  · exact absurd (ratio.bounded axis) (not_le.mpr high)

theorem childCount_ok {ratio : Extent d} {children : ℤ} (ran : childCount ratio operation = .ok children) :
    ∃ valid : RefinementRatio d, valid.values = ratio ∧ valid.childCount = children := by
  simp only [childCount, validateRatio, bind_ok, throwIf_ok, unit_exists, not_exists, not_or, not_le, gt_iff_lt,
    not_lt] at ran
  obtain ⟨ranges, counted⟩ := ran
  have facts := foldlM_ok_invariant
    (fun done count => count = (done.map ratio).prod ∧ count ≤ int64Max)
    (fun done axis before after held stepped => by
      simp only [childStep, bind_ok, throwIf_ok, unit_exists, pure_ok, gt_iff_lt, not_lt] at stepped
      obtain ⟨room, rfl⟩ := stepped
      exact ⟨by simp [held.1], (Int.le_ediv_iff_mul_le (ranges axis).1).mp room⟩)
    (List.finRange d) 1 children [] (by simp [int64Max]) counted
  obtain ⟨total, fits⟩ := facts
  have product : children = ∏ axis, ratio axis := by
    rw [total, List.nil_append, ← List.prod_ofFn, List.ofFn_eq_map]
  exact ⟨⟨ratio, fun axis => (ranges axis).1, fun axis => (ranges axis).2, product ▸ fits⟩, rfl, product.symm⟩

theorem coarsen_eq (ratio : RefinementRatio d) (box : Box d) : coarsen ratio.values box = .ok (coarsenBox box ratio) := by
  rw [coarsen, validateRatio_ok, ok_bind, coarsenBox]
  split <;> rfl

theorem refine_ok {other : Box d} : refine ratio.values box = .ok other ↔ refineBox box ratio = .ok other := by
  rw [refine, validateRatio_ok, ok_bind, refineBox]
  split
  · rfl
  · simp only [bind_ok, pure_ok, axes_ok, checkedIndex_ok]

theorem coarsenLayout_ok {layout result : BoxArray d} (ran : coarsenLayout ratio.values layout = .ok result) :
    result.boxes = layout.boxes.map fun box => coarsenBox box ratio := by
  simp only [coarsenLayout, bind_ok, pure_ok] at ran
  obtain ⟨boxes, mapped, rfl⟩ := ran
  have known : boxes.map id = layout.boxes.map fun box => coarsenBox box ratio := map_of_mapM_ok
    (fun item result found => by rw [coarsen_eq] at found; exact (Except.ok.inj found).symm) mapped
  rwa [List.map_id] at known

theorem aligned_of_ok {layout scratch refined : BoxArray d}
    (boxes : scratch.boxes = layout.boxes.map fun box => coarsenBox box ratio)
    (ran : refineLayout ratio.values scratch = .ok refined) (same : refined.boxes = layout.boxes) :
    ∀ box ∈ layout.boxes, refineBox (coarsenBox box ratio) ratio = .ok box := by
  simp only [refineLayout, bind_ok, pure_ok] at ran
  obtain ⟨_, mapped, rfl⟩ := ran
  obtain rfl := same
  have related := mapM_ok.mp mapped
  rw [boxes, List.forall₂_map_left_iff] at related
  exact fun box listed => refine_ok.mp (List.forall₂_same.mp related box listed)

section Children
variable (fits : box.Fits) (complete : Complete ratio box) (nonempty : ¬ box.Empty) {coarse : Index d}
  (inside : coarse ∈ (coarsenBox box ratio).cells)

theorem volume_childCount (ratio : RefinementRatio d) :
    volume (radix ratio) (List.finRange d) = ratio.childCount.toNat := by
  have factors : (volume (radix ratio) (List.finRange d) : ℤ) = ratio.childCount := by
    exact_mod_cast CellTransfer.volume_radix (K := ℚ) ratio
  omega

/-- The offset of a child along an axis. -/
def digit (ratio : RefinementRatio d) (ordinal : ℕ) : Fin d → ℕ :=
  (decode (radix ratio) (List.finRange d) ordinal fun _ => 0).1

theorem digit_lt (ratio : RefinementRatio d) (ordinal : ℕ) (axis : Fin d) : digit ratio ordinal axis < radix ratio axis :=
  decode_lt (fun axis _ => by have := ratio.pos axis; unfold radix; omega) (List.mem_finRange axis) _ _

include fits complete nonempty inside in
theorem childCell_mem (ordinal : ℕ) :
    (∀ axis, childCell ratio.values coarse ordinal axis = coarse axis * ratio axis + digit ratio ordinal axis) ∧
      childCell ratio.values coarse ordinal ∈ box.cells ∧
      parentCell ratio (childCell ratio.values coarse ordinal) = coarse := by
  have parent : parentCell ratio (fun axis => coarse axis * ratio axis + digit ratio ordinal axis) = coarse := by
    funext axis
    have within := digit_lt ratio ordinal axis
    have whole := cast_radix ratio axis
    rw [parentCell, add_comm, Int.add_mul_ediv_right _ _ (ratio.pos axis).ne',
      Int.ediv_eq_zero_of_lt (by omega) (by omega), zero_add]
  obtain ⟨cell, member, above⟩ := exists_child nonempty inside
  have sibling := complete cell member _ (parent.trans above.symm)
  have same : childCell ratio.values coarse ordinal = fun axis => coarse axis * ratio axis + digit ratio ordinal axis := by
    funext axis
    refine castInt_of_fits ?_
    have bounds := Box.mem_cells.mp sibling axis
    exact (fits axis).1.between (fits axis).2 bounds.1 bounds.2
  rw [same]
  exact ⟨fun _ => rfl, sibling, parent⟩

include fits nonempty in
theorem coarseCell_eq {cell : Index d} (member : cell ∈ box.cells) : coarseCell ratio.values cell = parentCell ratio cell := by
  funext axis
  have kept := coarsenBox_fits ratio fits nonempty axis
  have above : parentCell ratio cell ∈ (coarsenBox box ratio).cells := parentCell_mem_coarsened member
  have bounds := Box.mem_cells.mp above axis
  rw [coarseCell, floorDiv_eq _ (ratio.pos axis)]
  exact castInt_of_fits (kept.1.between kept.2 bounds.1 bounds.2)

include fits complete nonempty inside in
/-- The children of a cell are counted out once each. -/
theorem sum_children [AddCommMonoid K] (f : Index d → K) :
    ∑ ordinal ∈ range ratio.childCount.toNat, f (childCell ratio.values coarse ordinal) =
      ∑ cell ∈ box.cells with parentCell ratio cell = coarse, f cell := by
  have child := childCell_mem fits complete nonempty inside
  refine sum_nbij (childCell ratio.values coarse) ?_ ?_ ?_ fun _ _ => rfl
  · exact fun ordinal _ => mem_filter.mpr (child ordinal).2
  · intro first firstBelow second secondBelow same
    rw [← volume_childCount, coe_range, Set.mem_Iio] at firstBelow secondBelow
    refine decode_injective (List.nodup_finRange d) firstBelow secondBelow (fun _ => 0) fun axis _ => ?_
    have here := congrFun same axis
    rw [(child first).1, (child second).1] at here
    exact_mod_cast add_left_cancel here
  · intro cell member
    obtain ⟨-, rfl⟩ := mem_filter.mp (mem_coe.mp member)
    let digits := fun axis => (cell axis % ratio axis).toNat
    have isDigit (axis : Fin d) : (digits axis : ℤ) = cell axis % ratio axis :=
      Int.toNat_of_nonneg (Int.emod_nonneg _ (ratio.pos axis).ne')
    have within (axis : Fin d) : digits axis < radix ratio axis := by
      have := Int.emod_lt_of_pos (cell axis) (ratio.pos axis)
      have := cast_radix ratio axis
      have := isDigit axis
      omega
    refine ⟨encode (radix ratio) (List.finRange d) digits, ?_, funext fun axis => ?_⟩
    · rw [coe_range, Set.mem_Iio, ← volume_childCount]
      exact encode_lt fun axis _ => within axis
    · rw [(child _).1, digit, decode_encode (List.nodup_finRange d) (fun axis _ => within axis) _ (List.mem_finRange axis),
        isDigit, parentCell, mul_comm]
      exact Int.mul_ediv_add_emod _ _

include fits complete nonempty in
theorem sum_patch [AddCommMonoid K] (f : Index d → K) :
    ∑ cell ∈ box.cells, f cell = ∑ coarse ∈ (coarsenBox box ratio).cells,
      ∑ ordinal ∈ range ratio.childCount.toNat, f (childCell ratio.values coarse ordinal) := by
  have above : ∀ cell ∈ box.cells, parentCell ratio cell ∈ (coarsenBox box ratio).cells :=
    fun _ member => parentCell_mem_coarsened member
  rw [← sum_fiberwise_of_maps_to above]
  exact sum_congr rfl fun coarse inside => (sum_children fits complete nonempty inside f).symm

end Children

variable {destination source fine coarse scratch : MultiFab d K} {schedule : CopySchedule d}
  {budget : CopyScheduleBudget} {first second patch : ℕ} {cell : Index d} {component : ℤ}

namespace MultiFab

/-- A local patch holds the cell. -/
def Holds (field : MultiFab d K) (patch : ℕ) (cell : Index d) : Prop :=
  patch ∈ field.localBoxes ∧ cell ∈ (field.box patch).cells

theorem mem_localBoxes {field : MultiFab d K} : patch ∈ field.localBoxes ↔
    patch < field.layout.boxes.length ∧ field.distribution.IsLocal patch field.localRank := by
  simp [localBoxes]

theorem Holds.unique {field : MultiFab d K} (separate : Separate field.layout.boxes) (here : field.Holds first cell)
    (there : field.Holds second cell) : first = second :=
  BoxArray.patch_unique separate.disjoint (box_of_lt (mem_localBoxes.mp here.1).1)
    (box_of_lt (mem_localBoxes.mp there.1).1) here.2 there.2

theorem foldl_write (kernel : ℕ → Index d → ℤ → K) (boxOf : ℕ → Box d) (count : ℤ) (patches : List ℕ)
    (field : MultiFab d K) :
    patches.foldl (fun after patch => after.write patch (boxOf patch) 0 count (kernel patch)) field =
      { field with
        values := fun patch cell component =>
          if patch ∈ patches ∧ cell ∈ (boxOf patch).cells ∧ 0 ≤ component ∧ component < count then
            kernel patch cell component
          else field.values patch cell component } := by
  induction patches generalizing field with
  | nil => simp
  | cons patch patches ih =>
    rw [List.foldl_cons, ih]
    simp only [write, MultiFab.mk.injEq, true_and, Box.contains_iff, zero_add]
    funext other cell component
    by_cases same : other = patch
    · subst same
      by_cases inside : cell ∈ (boxOf other).cells ∧ 0 ≤ component ∧ component < count <;>
        simp only [inside, List.mem_cons, true_or, and_true, and_false, if_true, if_false, ite_self]
    · simp only [List.mem_cons, same, false_or, false_and, if_false]

end MultiFab

/-- The copies of one rank: every patch on either side is served by local jobs alone. -/
structure Plan (destination source : MultiFab d K) (schedule : CopySchedule d) : Prop where
  destinations : Separate destination.layout.boxes
  sources : Separate source.layout.boxes
  same : SameCells destination.layout source.layout
  incoming : ∀ job, job ∈ schedule.classes.localJobs ↔ job ∈ pairJobs destination.layout source.layout ∧
    destination.distribution.IsLocal job.destinationBox destination.localRank
  outgoing : ∀ job, job ∈ schedule.classes.localJobs ↔ job ∈ pairJobs destination.layout source.layout ∧
    source.distribution.IsLocal job.sourceBox source.localRank

/-- A job that leaves a local patch is copied locally or sent. -/
theorem outgoing_route {destinationLayout sourceLayout : BoxArray d}
    {destinationDistribution sourceDistribution : Distribution d} {localRank : Index d}
    (matching : Matching destinationLayout destinationDistribution sourceLayout sourceDistribution localRank)
    {job : CopyJob d} (known : job.sourceBox < sourceLayout.boxes.length) :
    (routeOf destinationDistribution sourceDistribution localRank job = .copy ∨
      ∃ peer, (routeOf destinationDistribution sourceDistribution localRank job).sendPeer = some peer) ↔
        sourceDistribution.IsLocal job.sourceBox localRank := by
  unfold routeOf
  cases mode : sourceDistribution.mode with
  | replicated => simp [Distribution.IsLocal, mode]
  | partitioned =>
    have owned : job.sourceBox < sourceDistribution.owners.length := by
      rw [(Distribution.partitioned_owners mode).1, matching.sourceLayout]
      exact known
    rw [HaloSchedule.isLocal_iff mode owned]
    simp only [PeerPlans.Route.between_copy, PeerPlans.Route.between_send]
    constructor
    · rintro (⟨here, -⟩ | ⟨peer, here, -⟩) <;> exact here
    · intro here
      by_cases stays : HaloSchedule.ownerOf destinationDistribution job.destinationBox = localRank
      · exact .inl ⟨here, stays⟩
      · exact .inr ⟨_, here, rfl, fun same => stays same.symm⟩

theorem plan_of_ok (destinationFits : PatchesFit destination.layout) (sourceFits : PatchesFit source.layout)
    (prepared : prepareCopySchedule destination source budget = .ok schedule)
    (onlyLocal : requireLocalExecution schedule = .ok ()) : Plan destination source schedule := by
  simp only [prepareCopySchedule, bind_ok, throwIf_ok, unit_exists, ne_eq, not_not] at prepared
  obtain ⟨rank, created⟩ := prepared
  obtain ⟨⟨matching, -, destinations, sources, same⟩, planned⟩ :=
    (create_ok_iff destinationFits sourceFits).mp created
  have files : schedule.classes = filedJobs destination.layout destination.distribution source.layout
      source.distribution destination.localRank := by rw [planned]
  simp only [requireLocalExecution, throwIf_ok, ne_eq, not_or, not_not] at onlyLocal
  obtain ⟨noSend, noReceive⟩ := onlyLocal
  have filed : PeerPlans.Filed (routeOf destination.distribution source.distribution destination.localRank)
      (pairJobs destination.layout source.layout) schedule.classes := files ▸ .run _ _
  refine ⟨destinations, sources, same, fun job => ?_, fun job => ?_⟩
  · have listed := (incoming_jobs matching files).2 job
    rwa [incoming, noReceive, List.flatMap_nil, List.append_nil] at listed
  · have stays : job ∈ schedule.classes.send.flatMap (·.jobs) ↔ _ := filed.sends.mem_flatMap
    rw [noSend, List.flatMap_nil] at stays
    rw [← rank, filed.copies, List.mem_filter, decide_eq_true_eq]
    refine and_congr_right fun listed => ?_
    rw [← outgoing_route matching (mem_pairJobs.mp listed).2.1]
    refine ⟨.inl, fun way => way.resolve_right fun sent => ?_⟩
    exact absurd (stays.mpr ⟨listed, sent⟩) List.not_mem_nil

theorem MultiFab.exists_patch {field : MultiFab d K} (covered : ∃ box ∈ field.layout.boxes, cell ∈ box.cells) :
    ∃ patch < field.layout.boxes.length, cell ∈ (field.box patch).cells := by
  obtain ⟨_, listed, inside⟩ := covered
  obtain ⟨patch, below, rfl⟩ := List.getElem_of_mem listed
  refine ⟨patch, below, ?_⟩
  rwa [MultiFab.box, List.getD_eq_getElem?_getD, List.getElem?_eq_getElem below, Option.getD_some]

theorem exists_job (known : first < destination.layout.boxes.length) (sourceKnown : second < source.layout.boxes.length)
    (inside : cell ∈ (destination.box first).cells) (inSource : cell ∈ (source.box second).cells) :
    ∃ job ∈ pairJobs destination.layout source.layout, job.destinationBox = first ∧ job.sourceBox = second ∧
      cell ∈ job.region.cells := by
  have shared : cell ∈ (pairRegion destination.layout source.layout first second).cells := by
    rw [pairRegion, Box.cells_intersect, mem_inter]
    exact ⟨inside, inSource⟩
  exact ⟨⟨second, first, pairRegion destination.layout source.layout first second⟩,
    mem_pairJobs.mpr ⟨known, sourceKnown, rfl, Box.nonempty_of_mem shared⟩, rfl, rfl, shared⟩

namespace Plan
variable (plan : Plan destination source schedule)

include plan in
theorem exists_source (held : destination.Holds patch cell) : ∃ job ∈ schedule.classes.localJobs,
    job.destinationBox = patch ∧ cell ∈ job.region.cells ∧ source.Holds job.sourceBox cell := by
  obtain ⟨listed, inside⟩ := held
  obtain ⟨known, isLocal⟩ := MultiFab.mem_localBoxes.mp listed
  obtain ⟨other, below, inOther⟩ :=
    MultiFab.exists_patch ((plan.same cell).mp ⟨_, List.mem_of_getElem? (box_of_lt known), inside⟩)
  obtain ⟨job, paired, rfl, rfl, shared⟩ := exists_job known below inside inOther
  have copied := (plan.incoming _).mpr ⟨paired, isLocal⟩
  exact ⟨job, copied, rfl, shared, MultiFab.mem_localBoxes.mpr ⟨below, ((plan.outgoing _).mp copied).2⟩, inOther⟩

include plan in
theorem exists_destination (held : source.Holds patch cell) : ∃ other, destination.Holds other cell := by
  obtain ⟨listed, inside⟩ := held
  obtain ⟨known, isLocal⟩ := MultiFab.mem_localBoxes.mp listed
  obtain ⟨other, below, inOther⟩ :=
    MultiFab.exists_patch ((plan.same cell).mpr ⟨_, List.mem_of_getElem? (box_of_lt known), inside⟩)
  obtain ⟨job, paired, rfl, rfl, -⟩ := exists_job below known inOther inside
  have copied := (plan.outgoing _).mpr ⟨paired, isLocal⟩
  exact ⟨_, MultiFab.mem_localBoxes.mpr ⟨below, ((plan.incoming _).mp copied).2⟩, inOther⟩

include plan in
theorem holds_of_job {job : CopyJob d} (listed : job ∈ schedule.classes.localJobs) (inside : cell ∈ job.region.cells) :
    destination.Holds job.destinationBox cell ∧ source.Holds job.sourceBox cell := by
  obtain ⟨paired, isDestination⟩ := (plan.incoming job).mp listed
  obtain ⟨-, isSource⟩ := (plan.outgoing job).mp listed
  obtain ⟨known, sourceKnown, region, -⟩ := mem_pairJobs.mp paired
  rw [region, pairRegion, Box.cells_intersect, mem_inter] at inside
  exact ⟨⟨MultiFab.mem_localBoxes.mpr ⟨known, isDestination⟩, inside.1⟩,
    ⟨MultiFab.mem_localBoxes.mpr ⟨sourceKnown, isSource⟩, inside.2⟩⟩

end Plan

theorem foldl_copyJob (source : MultiFab d K) (patch : ℕ) (cell : Index d) (component count : ℤ) (jobs : List (CopyJob d)) (destination : MultiFab d K) :
    (∃ job ∈ jobs, job.destinationBox = patch ∧ cell ∈ job.region.cells ∧ 0 ≤ component ∧ component < count ∧
      (jobs.foldl (copyJob source 0 0 count) destination).values patch cell component =
        source.values job.sourceBox cell component) ∨
    (∀ job ∈ jobs, ¬(patch = job.destinationBox ∧ job.region.Contains cell ∧ 0 ≤ component ∧ component < 0 + count)) ∧
      (jobs.foldl (copyJob source 0 0 count) destination).values patch cell component =
        destination.values patch cell component := by
  induction jobs generalizing destination with
  | nil => exact .inr ⟨by simp, rfl⟩
  | cons job jobs ih =>
    rw [List.foldl_cons]
    rcases ih (copyJob source 0 0 count destination job) with ⟨other, listed, found⟩ | ⟨none, kept⟩
    · exact .inl ⟨other, List.mem_cons_of_mem _ listed, found⟩
    · rw [kept, copyJob, MultiFab.write]
      dsimp only
      by_cases here : patch = job.destinationBox ∧ job.region.Contains cell ∧ 0 ≤ component ∧ component < 0 + count
      · refine .inl ⟨job, List.mem_cons_self, here.1.symm, Box.contains_iff.mp here.2.1, here.2.2.1, ?_, ?_⟩
        · simpa using here.2.2.2
        · rw [if_pos here, sub_zero, zero_add]
      · exact .inr ⟨List.forall_mem_cons.mpr ⟨here, none⟩, if_neg here⟩

theorem foldl_copyJob_with (count : ℤ) (jobs : List (CopyJob d)) (destination : MultiFab d K) :
    jobs.foldl (copyJob source 0 0 count) destination =
      { destination with values := (jobs.foldl (copyJob source 0 0 count) destination).values } := by
  induction jobs generalizing destination with
  | nil => rfl
  | cons job jobs ih =>
    rw [List.foldl_cons]
    exact ih _

theorem copied {after : MultiFab d K} (plan : Plan destination source schedule)
    (ran : parallelCopy destination source schedule = .ok after) :
    after = { destination with values := after.values } ∧
    (∀ patch other cell component, destination.Holds patch cell → source.Holds other cell → 0 ≤ component →
      component < destination.ncomp → after.values patch cell component = source.values other cell component) ∧
    ∀ patch cell component, ¬(destination.Holds patch cell ∧ 0 ≤ component ∧ component < destination.ncomp) →
      after.values patch cell component = destination.values patch cell component := by
  simp only [parallelCopy, parallelCopyComponents, bind_ok, throwIf_ok, unit_exists, pure_ok] at ran
  obtain ⟨-, -, -, -, rfl⟩ := ran
  refine ⟨foldl_copyJob_with _ _ _, fun patch other cell component held from_ low high => ?_,
    fun patch cell component outside => ?_⟩
  · rcases foldl_copyJob source patch cell component destination.ncomp schedule.classes.localJobs
      destination with ⟨job, listed, rfl, inside, -, -, value⟩ | ⟨none, -⟩
    · rw [value, (plan.holds_of_job listed inside).2.unique plan.sources from_]
    · obtain ⟨job, listed, rfl, inside, -⟩ := plan.exists_source held
      exact absurd ⟨rfl, Box.contains_iff.mpr inside, low, by omega⟩ (none job listed)
  · rcases foldl_copyJob source patch cell component destination.ncomp schedule.classes.localJobs
      destination with ⟨job, listed, rfl, inside, low, high, -⟩ | ⟨-, kept⟩
    · exact absurd ⟨(plan.holds_of_job listed inside).1, low, high⟩ outside
    · exact kept

/-- The scratch field of a transfer. -/
structure Scratch (ratio : RefinementRatio d) (fine scratch : MultiFab d K) : Prop where
  boxes : scratch.layout.boxes = fine.layout.boxes.map fun box => coarsenBox box ratio
  aligned : ∀ box ∈ fine.layout.boxes, refineBox (coarsenBox box ratio) ratio = .ok box
  localBoxes : scratch.localBoxes = fine.localBoxes
  ncomp : scratch.ncomp = fine.ncomp

theorem create_ok {layout : BoxArray d} {rankSpace : RankSpace d} {mode : DistributionMode} {owners : List (Index d)}
    {distribution : Distribution d} (ran : Distribution.create layout rankSpace mode owners = .ok distribution) :
    distribution.mode = mode ∧ distribution.owners = owners := by
  unfold Distribution.create at ran
  split at ran
  · cases ran
  · cases ran
    exact ⟨rfl, rfl⟩

theorem rebindDistribution_ok {layout : BoxArray d} {model distribution : Distribution d}
    (ran : rebindDistribution layout model = .ok distribution) (rank : Index d) :
    distribution.IsLocal patch rank ↔ model.IsLocal patch rank := by
  simp only [rebindDistribution, bind_ok, throwIf_ok, unit_exists] at ran
  obtain ⟨-, ran⟩ := ran
  unfold Distribution.IsLocal
  split at ran
  · rename_i replicated
    simp [(create_ok ran).1, replicated]
  · rename_i partitioned
    simp [create_ok ran, partitioned]

theorem allocateScratch_ok [Zero K] (ran : allocateScratch fine ratio.values operation = .ok scratch) :
    Scratch ratio fine scratch := by
  simp only [allocateScratch, MultiFab.create, bind_ok, throwIf_ok, unit_exists, pure_ok, ne_eq, not_not] at ran
  obtain ⟨layout, coarsened, refined, isRefined, same, distribution, rebound, -, -, -, rfl⟩ := ran
  have boxes := coarsenLayout_ok coarsened
  refine ⟨boxes, aligned_of_ok boxes isRefined same, ?_, rfl⟩
  simp only [MultiFab.localBoxes, boxes, List.length_map]
  exact List.filter_congr fun patch _ => decide_eq_decide.mpr (rebindDistribution_ok rebound _)

namespace Scratch
variable (made : Scratch ratio fine scratch) (fits : PatchesFit fine.layout) (separate : Separate scratch.layout.boxes)

include made in
theorem box_eq (below : patch < fine.layout.boxes.length) : scratch.box patch = coarsenBox (fine.box patch) ratio := by
  have there : patch < (fine.layout.boxes.map fun box => coarsenBox box ratio).length := by simpa using below
  rw [MultiFab.box, MultiFab.box, made.boxes, List.getD_eq_getElem?_getD, List.getElem?_eq_getElem there,
    List.getD_eq_getElem?_getD, List.getElem?_eq_getElem below, List.getElem_map]
  rfl

include made separate in
theorem nonempty {box : Box d} (listed : box ∈ fine.layout.boxes) : ¬ box.Empty := by
  intro empty
  refine separate.nonempty (coarsenBox box ratio) (made.boxes ▸ List.mem_map_of_mem listed) ?_
  rwa [coarsenBox, if_pos empty]

include made fits in
theorem patchesFit : PatchesFit scratch.layout := by
  intro box listed
  rw [made.boxes] at listed
  obtain ⟨patch, known, rfl⟩ := List.mem_map.mp listed
  by_cases empty : patch.Empty
  · rw [coarsenBox, if_pos empty]
    exact fits patch known
  · exact coarsenBox_fits ratio (fits patch known) empty

include made fits separate in
theorem complete (below : patch < fine.layout.boxes.length) :
    (fine.box patch).Fits ∧ Complete ratio (fine.box patch) ∧ ¬ (fine.box patch).Empty := by
  have listed : fine.box patch ∈ fine.layout.boxes := List.mem_of_getElem? (box_of_lt below)
  have nonempty := made.nonempty separate listed
  exact ⟨fits _ listed, (refine_coarsen_iff (fits _ listed) nonempty).mp (made.aligned _ listed), nonempty⟩

end Scratch

section Exact
variable [Field K] {after filled : MultiFab d K}

/-- What an accepted averaging did: each held coarse cell is the average over its children in the one local patch above. -/
theorem averageDown_ok {ratio : Extent d} (fits : PatchesFit fine.layout) (coarseFits : PatchesFit coarse.layout)
    (ran : averageDown fine coarse ratio budget = .ok after) :
    ∃ valid : RefinementRatio d, valid.values = ratio ∧ fine.ncomp = coarse.ncomp ∧
      ∃ scratch schedule, Scratch valid fine scratch ∧ Plan coarse scratch schedule ∧
        after = { coarse with values := after.values } ∧
        (∀ patch other cell component, coarse.Holds patch cell → scratch.Holds other cell → 0 ≤ component →
          component < coarse.ncomp → after.values patch cell component =
            averageDownKernel ratio valid.childCount (fine.values other) cell component) ∧
        ∀ patch cell component, ¬(coarse.Holds patch cell ∧ 0 ≤ component ∧ component < coarse.ncomp) →
          after.values patch cell component = coarse.values patch cell component := by
  simp only [averageDown, validateTransferFields, bind_ok, unit_exists, throwIf_ok, ne_eq, not_not] at ran
  obtain ⟨⟨-, components, -⟩, children, counted, scratch, allocated, schedule, prepared, onlyLocal, ran⟩ := ran
  obtain ⟨valid, rfl, rfl⟩ := childCount_ok counted
  have made := allocateScratch_ok allocated
  have plan := plan_of_ok coarseFits (made.patchesFit fits) prepared onlyLocal
  rw [averagePatches, MultiFab.foldl_write] at ran
  have averaged (values : ℕ → Index d → ℤ → K) : Plan coarse { scratch with values := values } schedule :=
    ⟨plan.destinations, plan.sources, plan.same, plan.incoming, plan.outgoing⟩
  obtain ⟨same, values, kept⟩ := copied (averaged _) ran
  refine ⟨valid, rfl, components, scratch, schedule, made, plan, same, ?_, kept⟩
  intro patch other cell component held from_ low high
  rw [values patch other cell component held from_ low high]
  exact if_pos ⟨made.localBoxes ▸ from_.1, from_.2, low, components ▸ high⟩

omit [Field K] in
theorem interpolatePatches_with (scratch fine : MultiFab d K) (ratio : Extent d) :
    interpolatePatches scratch ratio fine =
      { fine with values := (interpolatePatches scratch ratio fine).values } := by
  rw [interpolatePatches, MultiFab.foldl_write fun patch cell => scratch.values patch (coarseCell ratio cell)]

theorem interpolate_with {ratio : Extent d} (ran : interpolate coarse fine ratio budget = .ok filled) :
    filled = { fine with values := filled.values } := by
  simp only [interpolate, bind_ok, unit_exists, pure_ok] at ran
  obtain ⟨-, _, -, _, -, -, middle, -, rfl⟩ := ran
  exact interpolatePatches_with middle fine ratio

theorem interpolate_ok (fits : PatchesFit fine.layout) (coarseFits : PatchesFit coarse.layout)
    (ran : interpolate coarse fine ratio.values budget = .ok filled) :
    ∀ patch other cell component, fine.Holds patch cell → coarse.Holds other (parentCell ratio cell) →
      0 ≤ component → component < fine.ncomp →
        filled.values patch cell component = coarse.values other (parentCell ratio cell) component := by
  simp only [interpolate, bind_ok, unit_exists, pure_ok] at ran
  obtain ⟨-, scratch, allocated, schedule, prepared, onlyLocal, middle, ran, rfl⟩ := ran
  have made := allocateScratch_ok allocated
  have plan := plan_of_ok (made.patchesFit fits) coarseFits prepared onlyLocal
  obtain ⟨-, values, -⟩ := copied plan ran
  rw [interpolatePatches, MultiFab.foldl_write fun patch cell => middle.values patch (coarseCell ratio.values cell)]
  intro patch other cell component held from_ low high
  have below := (MultiFab.mem_localBoxes.mp held.1).1
  obtain ⟨patchFits, -, nonempty⟩ := made.complete fits plan.destinations below
  have parent : scratch.Holds patch (parentCell ratio cell) :=
    ⟨made.localBoxes ▸ held.1, made.box_eq below ▸ parentCell_mem_coarsened held.2⟩
  refine (if_pos ⟨held.1, held.2, low, high⟩).trans ?_
  rw [coarseCell_eq patchFits nonempty held.2]
  exact values _ _ _ _ parent from_ low (made.ncomp ▸ high)

/-- The sum of a component over the cells of the local patches. -/
noncomputable def MultiFab.total (field : MultiFab d K) (component : ℤ) : K :=
  ∑ patch ∈ field.localBoxes.toFinset, ∑ cell ∈ (field.box patch).cells, field.values patch cell component

omit [Field K] in
/-- The two sides of a plan hold the same cells, each once. -/
theorem Plan.sum_held [AddCommMonoid K] (plan : Plan destination source schedule) {f g : ℕ → Index d → K}
    (same : ∀ patch other cell, destination.Holds patch cell → source.Holds other cell → f patch cell = g other cell) :
    ∑ patch ∈ destination.localBoxes.toFinset, ∑ cell ∈ (destination.box patch).cells, f patch cell =
      ∑ patch ∈ source.localBoxes.toFinset, ∑ cell ∈ (source.box patch).cells, g patch cell := by
  have held (field : MultiFab d K) {x : Σ _ : ℕ, Index d} :
      x ∈ field.localBoxes.toFinset.sigma (fun patch => (field.box patch).cells) ↔ field.Holds x.1 x.2 := by
    rw [mem_sigma, List.mem_toFinset, MultiFab.Holds]
  have served (x : Σ _ : ℕ, Index d) (here : destination.Holds x.1 x.2) : ∃ other, source.Holds other x.2 := by
    obtain ⟨job, -, -, -, from_⟩ := plan.exists_source here
    exact ⟨_, from_⟩
  choose! other isSource using served
  rw [sum_sigma', sum_sigma']
  refine sum_bij (fun x _ => ⟨other x, x.2⟩) (fun x member => ?_) (fun x member y second equal => ?_)
    (fun y member => ?_) (fun x member => ?_)
  · exact (held source).mpr (isSource x ((held destination).mp member))
  · obtain ⟨first, cell⟩ := x
    obtain ⟨last, otherCell⟩ := y
    obtain rfl : cell = otherCell := eq_of_heq (Sigma.mk.inj equal).2
    have here : destination.Holds first cell := (held destination).mp member
    have there : destination.Holds last cell := (held destination).mp second
    rw [here.unique plan.destinations there]
  · obtain ⟨patch, cell⟩ := y
    have from_ := (held source).mp member
    obtain ⟨target, holds⟩ := plan.exists_destination from_
    refine ⟨⟨target, cell⟩, (held destination).mpr holds, ?_⟩
    rw [(isSource ⟨target, cell⟩ holds).unique plan.sources from_]
  · exact same _ _ _ ((held destination).mp member) (isSource x ((held destination).mp member))

/-- Copying a field to another layout of its cells and from there into a field of its own layout gives the values back,
and the copy adds up to the same on every rank. -/
theorem parallel_copy_round_trip {returning : CopySchedule d} {allowance : CopyScheduleBudget}
    {blank : ℕ → Index d → ℤ → K} {back : MultiFab d K} (fits : PatchesFit destination.layout)
    (sourceFits : PatchesFit source.layout)
    (prepared : prepareCopySchedule destination source budget = .ok schedule)
    (ran : parallelCopy destination source schedule = .ok after)
    (prepareBack : prepareCopySchedule { source with values := blank } after allowance = .ok returning)
    (ranBack : parallelCopy { source with values := blank } after returning = .ok back) :
    (∀ patch cell component, source.Holds patch cell → 0 ≤ component → component < source.ncomp →
      back.values patch cell component = source.values patch cell component) ∧
    ∀ component, 0 ≤ component → component < source.ncomp → after.total component = source.total component := by
  have localOnly {target from_ result : MultiFab d K} {jobs : CopySchedule d}
      (copy : parallelCopy target from_ jobs = .ok result) :
      requireLocalExecution jobs = .ok () ∧ target.ncomp = from_.ncomp := by
    simp only [parallelCopy, parallelCopyComponents, bind_ok, throwIf_ok, unit_exists, ne_eq, not_not] at copy
    exact ⟨copy.2.2.2.1, copy.1⟩
  have plan := plan_of_ok fits sourceFits prepared (localOnly ran).1
  obtain ⟨same, values, -⟩ := copied plan ran
  have layout : after.layout = destination.layout := by rw [same]
  have held (patch : ℕ) (cell : Index d) : after.Holds patch cell ↔ destination.Holds patch cell := by rw [same]; rfl
  have planBack : Plan { source with values := blank } after returning :=
    plan_of_ok sourceFits (layout ▸ fits) prepareBack (localOnly ranBack).1
  obtain ⟨-, valuesBack, -⟩ := copied planBack ranBack
  have ncomp := (localOnly ran).2
  refine ⟨fun patch cell component here low high => ?_, fun component low high => ?_⟩
  · obtain ⟨other, there⟩ := plan.exists_destination here
    rw [valuesBack patch other cell component here ((held other cell).mpr there) low high,
      values other patch cell component there here low (ncomp ▸ high)]
  · rw [MultiFab.total, same]
    exact plan.sum_held fun patch other cell here there => values patch other cell component here there low (ncomp ▸ high)

variable [CharZero K]

theorem childCount_ne_zero (ratio : RefinementRatio d) : (ratio.childCount : K) ≠ 0 :=
  Int.cast_ne_zero.mpr (prod_pos fun axis _ => ratio.pos axis).ne'

/-- A call is accepted only where the coarse patches have exactly the cells above the fine patches, so a coarse cell that
nothing covers is refused. On every rank averaging then keeps the sum of the values times the product of the ratios, and
averaging after interpolating gives the coarse field back. -/
theorem average_down_interpolate {ratio : Extent d} (fits : PatchesFit fine.layout)
    (coarseFits : PatchesFit coarse.layout) :
    (∀ budget after, averageDown fine coarse ratio budget = .ok after →
      (∀ cell, (∃ box ∈ coarse.layout.boxes, cell ∈ box.cells) ↔
        ∃ patch ∈ fine.layout.boxes, ∃ child ∈ patch.cells, ∀ axis, child axis / ratio axis = cell axis) ∧
      ∀ component, 0 ≤ component → component < fine.ncomp →
        fine.total component = (∏ axis, (ratio axis : K)) * after.total component) ∧
    ∀ budget filled, interpolate coarse fine ratio budget = .ok filled →
      ∀ budget after, averageDown filled coarse ratio budget = .ok after → after = coarse := by
  constructor
  · intro budget after ran
    obtain ⟨valid, rfl, components, scratch, schedule, made, plan, same, values, -⟩ := averageDown_ok fits coarseFits ran
    refine ⟨fun cell => (plan.same cell).trans ?_, fun component low high => ?_⟩
    · rw [made.boxes]
      constructor
      · rintro ⟨_, listed, inside⟩
        obtain ⟨patch, known, rfl⟩ := List.mem_map.mp listed
        obtain ⟨child, member, parent⟩ := exists_child (made.nonempty plan.sources known) inside
        exact ⟨patch, known, child, member, congrFun parent⟩
      · rintro ⟨patch, known, child, member, parent⟩
        have above : parentCell valid child ∈ (coarsenBox patch valid).cells := parentCell_mem_coarsened member
        rw [show parentCell valid child = cell from funext parent] at above
        exact ⟨_, List.mem_map_of_mem known, above⟩
    · have each : after.total component = ∑ patch ∈ fine.localBoxes.toFinset, ∑ cell ∈ (scratch.box patch).cells,
          averageDownKernel valid.values valid.childCount (fine.values patch) cell component := by
        rw [← made.localBoxes, same]
        exact plan.sum_held fun patch other cell held from_ => values patch other cell component held from_ low
          (components ▸ high)
      have product : (∏ axis, (valid.values axis : K)) = valid.childCount := by
        rw [RefinementRatio.childCount, Int.cast_prod]
      rw [each, product, MultiFab.total, mul_sum]
      refine sum_congr rfl fun patch listed => ?_
      have below := (MultiFab.mem_localBoxes.mp (List.mem_toFinset.mp listed)).1
      obtain ⟨patchFits, complete, nonempty⟩ := made.complete fits plan.sources below
      rw [sum_patch patchFits complete nonempty, made.box_eq below, mul_sum]
      exact sum_congr rfl fun cell _ => (mul_div_cancel₀ _ (childCount_ne_zero valid)).symm
  · intro budget filled interpolated other after ran
    have whole := interpolate_with interpolated
    have layout : filled.layout = fine.layout := by rw [whole]
    have ncomp : filled.ncomp = fine.ncomp := by rw [whole]
    have holds (patch : ℕ) (cell : Index d) : filled.Holds patch cell ↔ fine.Holds patch cell := by
      rw [whole]
      exact Iff.rfl
    obtain ⟨valid, rfl, components, scratch, schedule, made, plan, same, values, kept⟩ :=
      averageDown_ok (layout ▸ fits) coarseFits ran
    have parents := interpolate_ok fits coarseFits interpolated
    suffices unchanged : after.values = coarse.values by rw [same, unchanged]
    funext patch cell component
    by_cases held : coarse.Holds patch cell ∧ 0 ≤ component ∧ component < coarse.ncomp
    · obtain ⟨here, low, high⟩ := held
      obtain ⟨job, -, -, -, from_⟩ := plan.exists_source here
      have listed : job.sourceBox ∈ filled.localBoxes := made.localBoxes ▸ from_.1
      have below := (MultiFab.mem_localBoxes.mp listed).1
      obtain ⟨patchFits, complete, nonempty⟩ := made.complete (layout ▸ fits) plan.sources below
      have inside : cell ∈ (coarsenBox (filled.box job.sourceBox) valid).cells := made.box_eq below ▸ from_.2
      have each (ordinal : ℕ) : filled.values job.sourceBox (childCell valid.values cell ordinal) component =
          coarse.values patch cell component := by
        obtain ⟨-, member, parent⟩ := childCell_mem patchFits complete nonempty inside ordinal
        have value := parents _ patch _ component ((holds _ _).mp ⟨listed, member⟩) (parent.symm ▸ here) low
          (ncomp ▸ components ▸ high)
        rw [value, parent]
      have children : (0 : ℤ) ≤ valid.childCount := (prod_pos fun axis _ => valid.pos axis).le
      rw [values patch _ cell component here from_ low high, averageDownKernel, sum_congr rfl fun ordinal _ => each ordinal,
        sum_const, card_range, nsmul_eq_mul, ← Int.cast_natCast, Int.toNat_of_nonneg children,
        mul_div_cancel_left₀ _ (childCount_ne_zero valid)]
    · exact kept patch cell component held

/-- A replicated field of one component. -/
def strip (patches : List (Box 1))
    (valid : Distribution.validate ⟨patches⟩ HaloSchedule.ringRanks .replicated [] = .ok ()) : MultiFab 1 ℚ :=
  ⟨⟨patches⟩, ⟨⟨patches⟩, HaloSchedule.ringRanks, .replicated, [], valid⟩, fun _ => 0, 1, fun _ cell _ => cell ⟨0, Nat.zero_lt_one⟩⟩

private theorem fineStrip_valid :
    Distribution.validate ⟨[⟨fun _ => -2, fun _ => 1⟩]⟩ HaloSchedule.ringRanks .replicated [] = .ok () := by decide

private theorem coarseStrip_valid : Distribution.validate ⟨[⟨fun _ => -1, fun _ => -1⟩, ⟨fun _ => 0, fun _ => 0⟩]⟩
    HaloSchedule.ringRanks .replicated [] = .ok () := by decide

private theorem longStrip_valid : Distribution.validate ⟨[⟨fun _ => -1, fun _ => -1⟩, ⟨fun _ => 0, fun _ => 1⟩]⟩
    HaloSchedule.ringRanks .replicated [] = .ok () := by decide

/-- One fine patch around the origin, the cells above it in two patches, and these with one cell more. -/
def fineStrip : MultiFab 1 ℚ := strip _ fineStrip_valid

def coarseStrip : MultiFab 1 ℚ := strip _ coarseStrip_valid

def longStrip : MultiFab 1 ℚ := strip _ longStrip_valid

theorem average_down_interpolate_strip : ∃ filled after,
    interpolate coarseStrip fineStrip (fun _ => 2) ⟨2, 2, 1, 1⟩ = .ok filled ∧
      averageDown filled coarseStrip (fun _ => 2) ⟨2, 2, 1, 1⟩ = .ok after ∧ after = coarseStrip := by
  have fits : PatchesFit fineStrip.layout := by unfold PatchesFit; decide
  have coarseFits : PatchesFit coarseStrip.layout := by unfold PatchesFit; decide
  have both : (interpolate coarseStrip fineStrip (fun _ => 2) ⟨2, 2, 1, 1⟩ >>= fun filled =>
      averageDown filled coarseStrip (fun _ => 2) ⟨2, 2, 1, 1⟩).isOk = true := by decide +kernel
  obtain ⟨after, ran⟩ := exists_of_isOk both
  obtain ⟨filled, interpolated, averaged⟩ := bind_ok.mp ran
  exact ⟨filled, after, interpolated, averaged,
    (average_down_interpolate fits coarseFits).2 _ filled interpolated _ after averaged⟩

private theorem joinedStrip_valid :
    Distribution.validate ⟨[⟨fun _ => -1, fun _ => 0⟩]⟩ HaloSchedule.ringRanks .replicated [] = .ok () := by decide

/-- The cells of the coarse strip in one patch. -/
def joinedStrip : MultiFab 1 ℚ := strip _ joinedStrip_valid

def thereAndBack : Checked (MultiFab 1 ℚ) := do
  let after ← prepareCopySchedule coarseStrip joinedStrip ⟨2, 2, 1, 1⟩ >>= parallelCopy coarseStrip joinedStrip
  let blank := { joinedStrip with values := 0 }
  prepareCopySchedule blank after ⟨2, 2, 1, 1⟩ >>= parallelCopy blank after

theorem parallel_copy_round_trip_strip : ∃ back, thereAndBack = .ok back ∧
    ∀ cell, joinedStrip.Holds 0 cell → back.values 0 cell 0 = joinedStrip.values 0 cell 0 := by
  obtain ⟨back, ran⟩ := exists_of_isOk (show thereAndBack.isOk = true by decide +kernel)
  refine ⟨back, ran, fun cell held => ?_⟩
  simp only [thereAndBack, bind_ok] at ran
  obtain ⟨_, ⟨_, prepared, copying⟩, _, prepareBack, ranBack⟩ := ran
  exact (parallel_copy_round_trip (by unfold PatchesFit; decide) (by unfold PatchesFit; decide) prepared copying
    prepareBack ranBack).1 0 cell 0 held le_rfl one_pos

theorem average_down_refuses_uncovered :
    ⟨fun _ => 0, fun _ => 1⟩ ∈ longStrip.layout.boxes ∧ (∀ patch ∈ fineStrip.layout.boxes, patch.hi 0 / 2 = 0) ∧
      (averageDown fineStrip longStrip (fun _ => 2) ⟨9, 9, 9, 9⟩).map (fun _ => ()) = .error (.invalidArgument
        "pops::CopySchedule source and destination layouts must cover the same cells exactly") := by
  exact ⟨by decide, by decide, by decide +kernel⟩

end Exact

end Pops.Refinement
