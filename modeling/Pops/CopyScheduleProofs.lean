import Pops.BoxArrayTiling
import Pops.CopySchedule
import Pops.HaloScheduleProofs

/-!
What the constructor of a copy schedule decides, and what it plans. The covered
cells are counted pair by pair; between layouts of disjoint patches the count
equals both totals only when the layouts cover the same cells. Every rank files
the same list of jobs, so what one rank sends another one receives.
-/
namespace Pops.CopySchedule
open PeerPlans BoxArray HaloSchedule

variable {d : ℕ} {destinationLayout sourceLayout layout : BoxArray d}
  {destinationDistribution sourceDistribution : Distribution d} {localRank : Index d} {budget : CopyScheduleBudget}

theorem checkedPairCount_ok {left right pairs : ℕ} :
    checkedPairCount left right = .ok pairs ↔ left * right ≤ sizeMax ∧ left * right = pairs := by
  have small : ¬ (left ≠ 0 ∧ right > sizeMax / left) ↔ left * right ≤ sizeMax := by
    rcases Nat.eq_zero_or_pos left with rfl | positive
    · simp
    · rw [not_and, not_lt, Nat.le_div_iff_mul_le positive, mul_comm right]
      exact ⟨fun bound => bound positive.ne', fun bound _ => bound⟩
  simp only [checkedPairCount, checkedProduct, bind_ok, throwIf_ok, unit_exists, pure_ok, small]

/-- Non-empty patches that do not meet. -/
structure Separate (boxes : List (Box d)) : Prop where
  nonempty : ∀ box ∈ boxes, ¬ box.Empty
  disjoint : boxes.Pairwise fun left right => Disjoint left.cells right.cells

theorem requireDisjointFrom_ok {name : String} {earlier later : List (Box d)} :
    requireDisjointFrom name earlier later = .ok () ↔
      (∀ box ∈ later, ¬ box.Empty) ∧ (∀ box ∈ later, ∀ other ∈ earlier, Disjoint other.cells box.cells) ∧
        later.Pairwise fun left right => Disjoint left.cells right.cells := by
  induction later generalizing earlier with
  | nil => simp [requireDisjointFrom]
  | cons box later ih =>
    simp only [requireDisjointFrom, bind_ok, throwIf_ok, unit_exists, ih, List.forall_mem_cons, List.pairwise_cons,
      List.mem_append, List.mem_singleton, not_exists, not_and, not_not, Box.intersect_empty_iff]
    constructor
    · rintro ⟨nonempty, apart, rest, restApart, pairwise⟩
      exact ⟨⟨nonempty, rest⟩, ⟨fun other listed => (apart other listed).symm,
        fun b listed other before => restApart b listed other (.inl before)⟩,
        fun b listed => restApart b listed box (.inr rfl), pairwise⟩
    · rintro ⟨⟨nonempty, rest⟩, ⟨apart, restApart⟩, first, pairwise⟩
      refine ⟨nonempty, fun other listed => (apart other listed).symm, rest, fun b listed other before => ?_, pairwise⟩
      rcases before with before | rfl
      · exact restApart b listed other before
      · exact first b listed

/-- The overlap tests of a layout can be counted and fit their budget. -/
def OverlapAffordable (size pairBudget : ℕ) : Prop :=
  size * (size - 1) ≤ sizeMax ∧ size * (size - 1) / 2 ≤ pairBudget

theorem validateDisjoint_ok {pairBudget : ℕ} {name : String} :
    validateDisjoint layout pairBudget name = .ok () ↔
      OverlapAffordable layout.boxes.length pairBudget ∧ Separate layout.boxes := by
  have counted {size pairs : ℕ} : overlapPairs size = .ok pairs ↔
      size * (size - 1) ≤ sizeMax ∧ size * (size - 1) = pairs := by
    unfold overlapPairs
    split
    · have none : size * (size - 1) = 0 := by
        rcases size with _ | _ | size <;> simp_all
      rw [none]
      simp
    · exact checkedPairCount_ok
  simp only [validateDisjoint, bind_ok, counted, throwIf_ok, unit_exists, requireDisjointFrom_ok, not_lt, gt_iff_lt]
  constructor
  · rintro ⟨pairs, ⟨small, rfl⟩, afforded, nonempty, -, disjoint⟩
    exact ⟨⟨small, afforded⟩, nonempty, disjoint⟩
  · rintro ⟨⟨small, afforded⟩, nonempty, disjoint⟩
    exact ⟨_, ⟨small, rfl⟩, afforded, nonempty, by simp, disjoint⟩

section Jobs
variable (destinationLayout sourceLayout budget)

/-- The cells two patches share. -/
def pairRegion (destination source : ℕ) : Box d :=
  (destinationLayout.boxes.getD destination .default).intersect (sourceLayout.boxes.getD source .default)

/-- The jobs into one destination patch. -/
def jobsInto (destination : ℕ) (sources : List ℕ) : List (CopyJob d) :=
  sources.filterMap fun source =>
    if (pairRegion destinationLayout sourceLayout destination source).Empty then none
    else some ⟨source, destination, pairRegion destinationLayout sourceLayout destination source⟩

/-- The jobs of all pairs that meet, in construction order. -/
def pairJobs : List (CopyJob d) :=
  (List.range destinationLayout.boxes.length).flatMap fun destination =>
    jobsInto destinationLayout sourceLayout destination (List.range sourceLayout.boxes.length)

/-- One job of the pair loops. -/
def addJob (progress : Progress d) (job : CopyJob d) : Checked (Progress d) := do
  throwIf (progress.jobs.length ≥ budget.jobs) (.lengthError "pops::CopySchedule job budget exceeded")
  let covered ← addCount (.overflowError "pops::CopySchedule covered-cell count overflow") progress.covered job.region
  return ⟨covered, progress.jobs ++ [job]⟩

theorem addPairs_eq (destination : ℕ) (sources : List ℕ) (progress : Progress d) :
    sources.foldlM (addPair destinationLayout sourceLayout budget destination) progress =
      (jobsInto destinationLayout sourceLayout destination sources).foldlM (addJob budget) progress := by
  induction sources generalizing progress with
  | nil => rfl
  | cons source sources ih =>
    rw [List.foldlM_cons, jobsInto, List.filterMap_cons]
    unfold addPair
    by_cases empty : (pairRegion destinationLayout sourceLayout destination source).Empty
    · rw [if_pos empty]
      unfold pairRegion at empty
      dsimp only
      rw [if_pos empty, ok_bind]
      exact ih progress
    · rw [if_neg empty]
      unfold pairRegion at empty
      dsimp only
      rw [if_neg empty, List.foldlM_cons]
      exact bind_congr fun progress => ih progress

theorem collectJobs_eq : collectJobs destinationLayout sourceLayout budget =
    (pairJobs destinationLayout sourceLayout).foldlM (addJob budget) {} := by
  have each (destinations : List ℕ) (progress : Progress d) :
      destinations.foldlM (addDestination destinationLayout sourceLayout budget) progress =
        (destinations.flatMap fun destination =>
          jobsInto destinationLayout sourceLayout destination (List.range sourceLayout.boxes.length)).foldlM
            (addJob budget) progress := by
    induction destinations generalizing progress with
    | nil => rfl
    | cons destination destinations ih =>
      rw [List.foldlM_cons, List.flatMap_cons, List.foldlM_append, addDestination, addPairs_eq]
      exact bind_congr fun progress => ih progress
  exact each _ _

end Jobs

theorem addJobs_ok {jobs : List (CopyJob d)} (fits : ∀ job ∈ jobs, job.region.Fits) {progress after : Progress d}
    (ran : jobs.foldlM (addJob budget) progress = .ok after) :
    after.jobs = progress.jobs ++ jobs ∧
      after.covered.value = progress.covered.value + (jobs.map fun job => job.region.cells.card).sum ∧
      (progress.jobs.length ≤ budget.jobs → progress.jobs.length + jobs.length ≤ budget.jobs) := by
  induction jobs generalizing progress with
  | nil =>
    cases ran
    simp
  | cons job jobs ih =>
    rw [List.foldlM_cons, bind_ok] at ran
    obtain ⟨middle, first, rest⟩ := ran
    simp only [addJob, bind_ok, throwIf_ok, unit_exists, pure_ok, not_le, ge_iff_le] at first
    obtain ⟨room, covered, added, rfl⟩ := first
    obtain ⟨collected, counted, bounded⟩ := ih (fun other listed => fits other (by simp [listed])) rest
    rw [addCount_ok (fits job (by simp)) added] at counted
    rw [List.length_append, List.length_singleton] at bounded
    refine ⟨by rw [collected]; simp, ?_, fun _ => ?_⟩
    · rw [counted, List.map_cons, List.sum_cons, add_assoc]
    · have := bounded room
      rw [List.length_cons]
      omega

theorem addJobs_returns {jobs : List (CopyJob d)} (fits : ∀ job ∈ jobs, job.region.Fits) {progress : Progress d}
    (budgeted : progress.jobs.length + jobs.length ≤ budget.jobs)
    (room : progress.covered.value + (jobs.map fun job => job.region.cells.card).sum < 4294967296 ^ 4) :
    ∃ after, jobs.foldlM (addJob budget) progress = .ok after := by
  induction jobs generalizing progress with
  | nil => exact ⟨progress, rfl⟩
  | cons job jobs ih =>
    rw [List.map_cons, List.sum_cons, ← add_assoc] at room
    rw [List.length_cons] at budgeted
    have jobFits := fits job List.mem_cons_self
    have accepted : ¬ progress.jobs.length ≥ budget.jobs := by omega
    obtain ⟨covered, added⟩ : ∃ covered, [job.region].foldlM
        (addCount (.overflowError "pops::CopySchedule covered-cell count overflow")) progress.covered = .ok covered :=
      foldl_addCount_fits (by simpa using jobFits) (by simp; omega)
    simp only [List.foldlM_cons, List.foldlM_nil, bind_pure] at added
    rw [List.foldlM_cons, addJob, throwIf_of_not accepted, ok_bind, added, ok_bind]
    refine ih (fun other listed => fits other (List.mem_cons_of_mem _ listed)) ?_ ?_
    · rw [List.length_append, List.length_singleton]
      omega
    · rw [addCount_ok jobFits added]
      exact room

/-- The patches of a layout are `int` boxes. -/
def PatchesFit (layout : BoxArray d) : Prop := ∀ box ∈ layout.boxes, box.Fits

theorem box_of_lt {patch : ℕ} (below : patch < layout.boxes.length) :
    layout.boxes[patch]? = some (layout.boxes.getD patch .default) := by
  rw [List.getD_eq_getElem?_getD, List.getElem?_eq_getElem below, Option.getD_some]

theorem map_boxes (layout : BoxArray d) :
    (List.range layout.boxes.length).map (fun patch => layout.boxes.getD patch .default) = layout.boxes := by
  refine List.ext_getElem (by simp) fun patch below known => ?_
  rw [List.getElem_map, List.getElem_range, List.getD_eq_getElem?_getD, List.getElem?_eq_getElem known,
    Option.getD_some]

theorem mem_pairJobs {job : CopyJob d} : job ∈ pairJobs destinationLayout sourceLayout ↔
    job.destinationBox < destinationLayout.boxes.length ∧ job.sourceBox < sourceLayout.boxes.length ∧
      job.region = pairRegion destinationLayout sourceLayout job.destinationBox job.sourceBox ∧ ¬ job.region.Empty := by
  simp only [pairJobs, jobsInto, List.mem_flatMap, List.mem_filterMap, List.mem_range]
  constructor
  · rintro ⟨destination, below, source, known, found⟩
    split at found
    · cases found
    · rename_i some
      cases found
      exact ⟨below, known, rfl, some⟩
  · rintro ⟨below, known, region, some⟩
    refine ⟨job.destinationBox, below, job.sourceBox, known, ?_⟩
    rw [← region, if_neg some]

theorem pairJobs_nodup : (pairJobs destinationLayout sourceLayout).Nodup := by
  refine List.nodup_flatMap.mpr ⟨fun destination _ => ?_, ?_⟩
  · refine List.Nodup.filterMap (fun first second job isFirst isSecond => ?_) List.nodup_range
    simp only [Option.mem_def, Option.ite_none_left_eq_some, Option.some.injEq] at isFirst isSecond
    rw [← isSecond.2] at isFirst
    exact congrArg CopyJob.sourceBox isFirst.2
  · refine List.nodup_range.imp fun {first second} different => ?_
    intro job inFirst inSecond
    simp only [jobsInto, List.mem_filterMap, Option.ite_none_left_eq_some, Option.some.injEq] at inFirst inSecond
    obtain ⟨_, -, -, rfl⟩ := inFirst
    obtain ⟨_, -, -, same⟩ := inSecond
    exact different (congrArg CopyJob.destinationBox same).symm

theorem pairJobs_fit (fits : PatchesFit destinationLayout) {job : CopyJob d}
    (listed : job ∈ pairJobs destinationLayout sourceLayout) : job.region.Fits := by
  obtain ⟨below, -, region, some⟩ := mem_pairJobs.mp listed
  have known := fits _ (List.mem_of_getElem? (box_of_lt below))
  refine known.subset some ?_
  rw [region, pairRegion, Box.cells_intersect]
  exact Finset.inter_subset_left

theorem sum_jobsInto (disjoint : sourceLayout.boxes.Pairwise fun left right => Disjoint left.cells right.cells)
    (destination : ℕ) :
    ((jobsInto destinationLayout sourceLayout destination (List.range sourceLayout.boxes.length)).map
      fun job => job.region.cells.card).sum =
        (union sourceLayout.boxes ∩ (destinationLayout.boxes.getD destination .default).cells).card := by
  have each (sources : List ℕ) :
      ((jobsInto destinationLayout sourceLayout destination sources).map fun job => job.region.cells.card).sum =
        (sources.map fun source => ((destinationLayout.boxes.getD destination .default).cells ∩
          (sourceLayout.boxes.getD source .default).cells).card).sum := by
    induction sources with
    | nil => rfl
    | cons source sources ih =>
      rw [List.map_cons, List.sum_cons, ← ih, ← Box.cells_intersect, jobsInto, List.filterMap_cons]
      change _ = (pairRegion destinationLayout sourceLayout destination source).cells.card + _
      split
      · rename_i skipped
        split at skipped
        · rename_i empty
          rw [Box.empty_iff_cells.mp empty, Finset.card_empty, zero_add]
          rfl
        · cases skipped
      · rename_i job found
        split at found
        · cases found
        · cases found
          rfl
  rw [each, Finset.inter_comm, ← card_union disjoint]
  conv_rhs => rw [← map_boxes sourceLayout, List.map_map]
  rfl

theorem sum_pairJobs (destinations : destinationLayout.boxes.Pairwise fun left right => Disjoint left.cells right.cells)
    (sources : sourceLayout.boxes.Pairwise fun left right => Disjoint left.cells right.cells) :
    ((pairJobs destinationLayout sourceLayout).map fun job => job.region.cells.card).sum =
      (union sourceLayout.boxes ∩ union destinationLayout.boxes).card := by
  have groups (patches : List ℕ) :
      ((patches.flatMap fun destination =>
        jobsInto destinationLayout sourceLayout destination (List.range sourceLayout.boxes.length)).map
          fun job => job.region.cells.card).sum =
        (patches.map fun destination =>
          (union sourceLayout.boxes ∩ (destinationLayout.boxes.getD destination .default).cells).card).sum := by
    induction patches with
    | nil => rfl
    | cons patch patches ih =>
      rw [List.flatMap_cons, List.map_append, List.sum_append, ih, sum_jobsInto sources, List.map_cons, List.sum_cons]
  rw [pairJobs, groups, ← card_union destinations]
  conv_rhs => rw [← map_boxes destinationLayout, List.map_map]
  rfl

theorem sum_boxes {boxes : List (Box d)} (disjoint : boxes.Pairwise fun left right => Disjoint left.cells right.cells) :
    (boxes.map fun box => box.cells.card).sum = (union boxes).card := by
  have whole := card_union disjoint (union boxes)
  rw [Finset.inter_self] at whole
  rw [← whole]
  congr 1
  refine List.map_congr_left fun box listed => ?_
  rw [Finset.inter_eq_right.mpr fun cell member => mem_union.mpr ⟨box, listed, member⟩]

/-- Two layouts of one cell set. -/
def SameCells (destinationLayout sourceLayout : BoxArray d) : Prop :=
  ∀ cell, (∃ box ∈ destinationLayout.boxes, cell ∈ box.cells) ↔ ∃ box ∈ sourceLayout.boxes, cell ∈ box.cells

theorem sameCells_iff : SameCells destinationLayout sourceLayout ↔
    union destinationLayout.boxes = union sourceLayout.boxes := by
  rw [Finset.ext_iff]
  simp only [SameCells, mem_union]

theorem shared_iff : (union sourceLayout.boxes ∩ union destinationLayout.boxes).card =
      (union destinationLayout.boxes).card ∧
    (union sourceLayout.boxes ∩ union destinationLayout.boxes).card = (union sourceLayout.boxes).card ↔
      SameCells destinationLayout sourceLayout := by
  rw [sameCells_iff]
  constructor
  · rintro ⟨destination, source⟩
    have first := Finset.eq_of_subset_of_card_le Finset.inter_subset_right destination.ge
    have second := Finset.eq_of_subset_of_card_le Finset.inter_subset_left source.ge
    exact first.symm.trans second
  · intro same
    rw [same, Finset.inter_self]
    exact ⟨rfl, rfl⟩

theorem sum_boxes_lt (dimension : d ≤ 3) (fits : PatchesFit layout) (separate : Separate layout.boxes) :
    (layout.boxes.map fun box => box.cells.card).sum < 4294967296 ^ 4 := by
  have int : FitsInt intMin ∧ FitsInt intMax := by decide
  have everywhere : (⟨fun _ => intMin, fun _ => intMax⟩ : Box d).Fits := fun _ => int
  refine lt_of_le_of_lt ?_ (card_cells_lt everywhere dimension)
  rw [sum_boxes separate.disjoint]
  refine Finset.card_le_card fun cell member => ?_
  obtain ⟨box, listed, inside⟩ := mem_union.mp member
  rw [Box.mem_cells] at inside ⊢
  intro axis
  exact ⟨(fits box listed axis).1.1.trans (inside axis).1, (inside axis).2.trans (fits box listed axis).2.2⟩

theorem owner_of_partitioned {distribution : Distribution d} (mode : distribution.mode = .partitioned) {patch : ℕ}
    (known : patch < distribution.layout.boxes.length) :
    distribution.owner patch = .ok (ownerOf distribution patch) := by
  have length := (Distribution.partitioned_owners mode).1
  have below : ¬ patch ≥ distribution.layout.boxes.length := not_le.mpr known
  rw [Distribution.owner, throwIf_of_not below, ok_bind, mode, ownerOf, List.getD_eq_getElem?_getD,
    List.getElem?_eq_getElem (by omega), Option.getD_some]

/-- What a rank does with a job, by the owners of its patches. -/
def routeOf (destinationDistribution sourceDistribution : Distribution d) (localRank : Index d) (job : CopyJob d) :
    Route (Index d) :=
  match sourceDistribution.mode with
  | .replicated => .copy
  | .partitioned =>
    .between (ownerOf sourceDistribution job.sourceBox) (ownerOf destinationDistribution job.destinationBox) localRank

/-- The distributions, the layouts and the rank fit together. -/
structure Matching (destinationLayout : BoxArray d) (destinationDistribution : Distribution d)
    (sourceLayout : BoxArray d) (sourceDistribution : Distribution d) (localRank : Index d) : Prop where
  destinationLayout : destinationDistribution.layout = destinationLayout
  sourceLayout : sourceDistribution.layout = sourceLayout
  rankSpace : destinationDistribution.rankSpace = sourceDistribution.rankSpace
  localRank : destinationDistribution.rankSpace.Contains localRank
  mode : destinationDistribution.mode = sourceDistribution.mode

theorem route_ok
    (matching : Matching destinationLayout destinationDistribution sourceLayout sourceDistribution localRank)
    {job : CopyJob d} (destination : job.destinationBox < destinationLayout.boxes.length)
    (source : job.sourceBox < sourceLayout.boxes.length) :
    route destinationDistribution sourceDistribution localRank job =
      .ok (routeOf destinationDistribution sourceDistribution localRank job) := by
  unfold route routeOf
  cases mode : sourceDistribution.mode with
  | replicated =>
    have both : sourceDistribution.IsLocal job.sourceBox localRank ∧
        destinationDistribution.IsLocal job.destinationBox localRank := ⟨.inl mode, .inl (matching.mode.trans mode)⟩
    dsimp only
    rw [if_pos both]
    rfl
  | partitioned =>
    have destinationMode := matching.mode.trans mode
    have sourceKnown : job.sourceBox < sourceDistribution.layout.boxes.length := matching.sourceLayout ▸ source
    have destinationKnown : job.destinationBox < destinationDistribution.layout.boxes.length :=
      matching.destinationLayout ▸ destination
    have sourceOwner := isLocal_iff mode ((Distribution.partitioned_owners mode).1 ▸ sourceKnown) localRank
    have destinationOwner :=
      isLocal_iff destinationMode ((Distribution.partitioned_owners destinationMode).1 ▸ destinationKnown) localRank
    have single : ¬ DistributionMode.partitioned = .replicated := by decide
    dsimp only
    unfold Route.between
    simp only [sourceOwner, destinationOwner, owner_of_partitioned mode sourceKnown,
      owner_of_partitioned destinationMode destinationKnown, throwIf_of_not single, ok_bind]
    split
    · rfl
    · split
      · rfl
      · split <;> rfl

/-- The jobs of the pairs that meet, filed by their routes. -/
def filedJobs (destinationLayout : BoxArray d) (destinationDistribution : Distribution d) (sourceLayout : BoxArray d)
    (sourceDistribution : Distribution d) (localRank : Index d) : FiledJobs (Index d) (CopyJob d) :=
  (pairJobs destinationLayout sourceLayout).foldl
    (fun classes job => classes.file job (routeOf destinationDistribution sourceDistribution localRank job)) {}

theorem classify_ok
    (matching : Matching destinationLayout destinationDistribution sourceLayout sourceDistribution localRank) :
    (pairJobs destinationLayout sourceLayout).foldlM
      (classifyJob destinationDistribution sourceDistribution localRank) {} =
        .ok (filedJobs destinationLayout destinationDistribution sourceLayout sourceDistribution localRank) := by
  have each (jobs : List (CopyJob d)) (known : ∀ job ∈ jobs, job ∈ pairJobs destinationLayout sourceLayout)
      (classes : FiledJobs (Index d) (CopyJob d)) :
      jobs.foldlM (classifyJob destinationDistribution sourceDistribution localRank) classes =
        .ok (jobs.foldl (fun classes job =>
          classes.file job (routeOf destinationDistribution sourceDistribution localRank job)) classes) := by
    induction jobs generalizing classes with
    | nil => rfl
    | cons job jobs ih =>
      obtain ⟨destination, source, -⟩ := mem_pairJobs.mp (known job List.mem_cons_self)
      rw [List.foldlM_cons, classifyJob, route_ok matching destination source, ok_bind]
      exact ih (fun other listed => known other (List.mem_cons_of_mem _ listed)) _
  exact each _ (fun _ listed => listed) _

/-- The budgets hold the pairs and the jobs, and four limbs hold the cells. -/
structure Affordable (destinationLayout sourceLayout : BoxArray d) (budget : CopyScheduleBudget) : Prop where
  destinationPairs : OverlapAffordable destinationLayout.boxes.length budget.destinationOverlapPairs
  sourcePairs : OverlapAffordable sourceLayout.boxes.length budget.sourceOverlapPairs
  boxPairs : destinationLayout.boxes.length * sourceLayout.boxes.length ≤ min sizeMax budget.boxPairs
  jobs : (pairJobs destinationLayout sourceLayout).length ≤ budget.jobs
  cells : (destinationLayout.boxes.map fun box => box.cells.card).sum < 4294967296 ^ 4

theorem validateMetadata_ok :
    validateMetadata destinationLayout destinationDistribution sourceLayout sourceDistribution localRank budget =
        .ok () ↔
      Matching destinationLayout destinationDistribution sourceLayout sourceDistribution localRank ∧
        (OverlapAffordable destinationLayout.boxes.length budget.destinationOverlapPairs ∧
          OverlapAffordable sourceLayout.boxes.length budget.sourceOverlapPairs) ∧
        Separate destinationLayout.boxes ∧ Separate sourceLayout.boxes := by
  have modes (left right : DistributionMode) : (left = .replicated ↔ right = .replicated) ↔ left = right := by
    cases left <;> cases right <;> simp
  simp only [validateMetadata, bind_ok, throwIf_ok, unit_exists, not_or, not_not, ne_eq, validateDisjoint_ok, modes]
  constructor
  · rintro ⟨⟨destination, source⟩, space, inside, mode, ⟨destinationPairs, destinations⟩, sourcePairs, sources⟩
    exact ⟨⟨destination, source, space, inside, mode⟩, ⟨destinationPairs, sourcePairs⟩, destinations, sources⟩
  · rintro ⟨⟨destination, source, space, inside, mode⟩, ⟨destinationPairs, sourcePairs⟩, destinations, sources⟩
    exact ⟨⟨destination, source⟩, space, inside, mode, ⟨destinationPairs, destinations⟩, sourcePairs, sources⟩

/-- The constructor accepts what fits together, can be afforded, has separate patches and the same cells; its
schedule then files the jobs of the pairs that meet. -/
theorem create_ok_iff (destinationFits : PatchesFit destinationLayout) (sourceFits : PatchesFit sourceLayout)
    {schedule : CopySchedule d} :
    create destinationLayout destinationDistribution sourceLayout sourceDistribution localRank budget = .ok schedule ↔
      (Matching destinationLayout destinationDistribution sourceLayout sourceDistribution localRank ∧
        Affordable destinationLayout sourceLayout budget ∧
        Separate destinationLayout.boxes ∧ Separate sourceLayout.boxes ∧ SameCells destinationLayout sourceLayout) ∧
      schedule = ⟨destinationLayout, destinationDistribution, sourceLayout, sourceDistribution, localRank,
        filedJobs destinationLayout destinationDistribution sourceLayout sourceDistribution localRank⟩ := by
  have fits : ∀ job ∈ pairJobs destinationLayout sourceLayout, job.region.Fits := fun _ => pairJobs_fit destinationFits
  have value_inj {left right : ExactCellCount} : left = right ↔ left.value = right.value :=
    ⟨congrArg _, fun same => ExactCellCount.value_injective same⟩
  simp only [create, bind_ok, unit_exists, validateMetadata_ok, checkedPairCount_ok, throwIf_ok, pure_ok,
    exactCellCount_iff destinationFits, exactCellCount_iff sourceFits, collectJobs_eq, not_lt, gt_iff_lt, ne_eq,
    not_not, value_inj]
  constructor
  · rintro ⟨⟨matching, ⟨destinationPairs, sourcePairs⟩, destinations, sources⟩, _, ⟨small, rfl⟩, afforded, progress,
      collected, _, destinationCount, destinationSame, _, sourceCount, sourceSame, classes, classified, rfl⟩
    obtain ⟨jobs, covered, bounded⟩ := addJobs_ok fits collected
    rw [sum_pairJobs destinations.disjoint sources.disjoint, ExactCellCount.value_zero, zero_add] at covered
    rw [destinationCount, covered, sum_boxes destinations.disjoint] at destinationSame
    rw [sourceCount, covered, sum_boxes sources.disjoint] at sourceSame
    rw [List.nil_append] at jobs
    rw [jobs, classify_ok matching] at classified
    refine ⟨⟨matching, ⟨destinationPairs, sourcePairs, le_min small afforded, ?_, ?_⟩, destinations, sources,
      shared_iff.mp ⟨destinationSame, sourceSame⟩⟩, by rw [Except.ok.inj classified]⟩
    · simpa using bounded (Nat.zero_le _)
    · rw [← destinationCount]
      exact ExactCellCount.value_lt _
  · rintro ⟨⟨matching, affordable, destinations, sources, same⟩, rfl⟩
    obtain ⟨destinationShared, sourceShared⟩ := shared_iff.mpr same
    have total := sum_pairJobs destinations.disjoint sources.disjoint
    have cells := affordable.cells
    have destinationSum := sum_boxes destinations.disjoint
    have sourceSum := sum_boxes sources.disjoint
    obtain ⟨progress, collected⟩ : ∃ progress, (pairJobs destinationLayout sourceLayout).foldlM (addJob budget) {} =
        .ok progress :=
      addJobs_returns fits (by simpa using affordable.jobs)
        (by rw [total, destinationShared, ExactCellCount.value_zero]; omega)
    obtain ⟨jobs, covered, -⟩ := addJobs_ok fits collected
    rw [total, ExactCellCount.value_zero, zero_add] at covered
    rw [List.nil_append] at jobs
    obtain ⟨small, afforded⟩ := le_min_iff.mp affordable.boxPairs
    exact ⟨⟨matching, ⟨affordable.destinationPairs, affordable.sourcePairs⟩, destinations, sources⟩, _, ⟨small, rfl⟩,
      afforded, progress, collected, progress.covered, by rw [covered, destinationShared, destinationSum], rfl,
      progress.covered, by rw [covered, sourceShared, sourceSum], rfl, _, jobs ▸ classify_ok matching, rfl⟩

theorem incoming_route
    (matching : Matching destinationLayout destinationDistribution sourceLayout sourceDistribution localRank)
    {job : CopyJob d} (destination : job.destinationBox < destinationLayout.boxes.length) :
    (routeOf destinationDistribution sourceDistribution localRank job = .copy ∨
      ∃ peer, (routeOf destinationDistribution sourceDistribution localRank job).receivePeer = some peer) ↔
        destinationDistribution.IsLocal job.destinationBox localRank := by
  unfold routeOf
  cases mode : sourceDistribution.mode with
  | replicated => simp [Distribution.IsLocal, matching.mode.trans mode]
  | partitioned =>
    have destinationMode := matching.mode.trans mode
    have known : job.destinationBox < destinationDistribution.owners.length := by
      rw [(Distribution.partitioned_owners destinationMode).1, matching.destinationLayout]
      exact destination
    rw [isLocal_iff destinationMode known]
    simp only [Route.between_copy, Route.between_receive]
    constructor
    · rintro (⟨-, here⟩ | ⟨peer, -, here, -⟩)
      · exact here
      · exact here
    · intro here
      by_cases same : ownerOf sourceDistribution job.sourceBox = localRank
      · exact .inl ⟨same, here⟩
      · exact .inr ⟨_, rfl, here, same⟩

theorem incoming_jobs
    (matching : Matching destinationLayout destinationDistribution sourceLayout sourceDistribution localRank)
    {schedule : CopySchedule d} (files : schedule.classes =
      filedJobs destinationLayout destinationDistribution sourceLayout sourceDistribution localRank) :
    schedule.incoming.Nodup ∧ ∀ job, job ∈ schedule.incoming ↔
      job ∈ pairJobs destinationLayout sourceLayout ∧ destinationDistribution.IsLocal job.destinationBox localRank := by
  have filed : Filed (routeOf destinationDistribution sourceDistribution localRank)
      (pairJobs destinationLayout sourceLayout) schedule.classes := files ▸ Filed.run _ _
  constructor
  · rw [incoming, filed.copies]
    refine List.nodup_append.mpr ⟨pairJobs_nodup.filter _, filed.receives.nodup_flatMap pairJobs_nodup, ?_⟩
    rintro job copied _ received rfl
    obtain ⟨-, peer, routed⟩ := filed.receives.mem_flatMap.mp received
    rw [of_decide_eq_true (List.mem_filter.mp copied).2] at routed
    cases routed
  · intro job
    rw [incoming, List.mem_append, filed.copies, filed.receives.mem_flatMap, List.mem_filter, decide_eq_true_eq,
      ← and_or_left]
    exact and_congr_right fun listed => incoming_route matching (mem_pairJobs.mp listed).1

theorem job_unique (destinations : Separate destinationLayout.boxes) (sources : Separate sourceLayout.boxes)
    {first second : CopyJob d} (firstListed : first ∈ pairJobs destinationLayout sourceLayout)
    (secondListed : second ∈ pairJobs destinationLayout sourceLayout) {cell : Index d}
    (member : cell ∈ first.region.cells) (otherMember : cell ∈ second.region.cells) : first = second := by
  obtain ⟨firstDestination, firstSource, firstRegion, -⟩ := mem_pairJobs.mp firstListed
  obtain ⟨secondDestination, secondSource, secondRegion, -⟩ := mem_pairJobs.mp secondListed
  rw [firstRegion, pairRegion, Box.cells_intersect, Finset.mem_inter] at member
  rw [secondRegion, pairRegion, Box.cells_intersect, Finset.mem_inter] at otherMember
  have destination := BoxArray.patch_unique destinations.disjoint (box_of_lt firstDestination)
    (box_of_lt secondDestination) member.1 otherMember.1
  have source := BoxArray.patch_unique sources.disjoint (box_of_lt firstSource) (box_of_lt secondSource)
    member.2 otherMember.2
  cases first
  cases second
  dsimp only at destination source firstRegion secondRegion
  rw [firstRegion, secondRegion, destination, source]

/-- The constructor decides. For layouts of `int` patches it returns exactly when the arguments fit together and can
be afforded, no patch is empty, the patches of each layout are disjoint and both layouts have the same cells; up to
three axes separate patches never exceed four limbs. On a rank that got its schedule every cell of a local destination
patch is written by exactly one job, out of a source patch that contains it. And on any two ranks the list of jobs one
sends to the other is the list the other receives from it, with one plan for each peer. -/
theorem create_decides (destinationFits : PatchesFit destinationLayout) (sourceFits : PatchesFit sourceLayout)
    (destinationDistribution sourceDistribution : Distribution d) :
    (∀ localRank budget, (∃ schedule, create destinationLayout destinationDistribution sourceLayout sourceDistribution
      localRank budget = .ok schedule) ↔
        Matching destinationLayout destinationDistribution sourceLayout sourceDistribution localRank ∧
          Affordable destinationLayout sourceLayout budget ∧
          Separate destinationLayout.boxes ∧ Separate sourceLayout.boxes ∧ SameCells destinationLayout sourceLayout) ∧
    (d ≤ 3 → Separate destinationLayout.boxes →
      (destinationLayout.boxes.map fun box => box.cells.card).sum < 4294967296 ^ 4) ∧
    (∀ localRank budget schedule, create destinationLayout destinationDistribution sourceLayout sourceDistribution
      localRank budget = .ok schedule → schedule.incoming.Nodup ∧
        ∀ patch box, destinationLayout.boxes[patch]? = some box → destinationDistribution.IsLocal patch localRank →
          ∀ cell ∈ box.cells, ∃ job ∈ schedule.incoming, cell ∈ job.region.cells ∧ job.destinationBox = patch ∧
            (∃ source, sourceLayout.boxes[job.sourceBox]? = some source ∧ cell ∈ source.cells ∧
              job.region = box.intersect source) ∧
            ∀ other ∈ schedule.incoming, cell ∈ other.region.cells → other = job) ∧
    ∀ p q budget otherBudget own other, create destinationLayout destinationDistribution sourceLayout
      sourceDistribution p budget = .ok own → create destinationLayout destinationDistribution sourceLayout
      sourceDistribution q otherBudget = .ok other → own.sentTo q = other.receivedFrom p ∧
        (own.classes.send.map (·.peer)).Nodup ∧ (other.classes.receive.map (·.peer)).Nodup := by
  refine ⟨fun localRank budget => ?_, fun dimension separate => sum_boxes_lt dimension destinationFits separate,
    fun localRank budget schedule ran => ?_, fun p q budget otherBudget own other ran otherRan => ?_⟩
  · simp only [create_ok_iff destinationFits sourceFits, exists_and_left, exists_eq, and_true]
  · obtain ⟨⟨matching, -, destinations, sources, same⟩, planned⟩ := (create_ok_iff destinationFits sourceFits).mp ran
    have files : schedule.classes =
        filedJobs destinationLayout destinationDistribution sourceLayout sourceDistribution localRank := by rw [planned]
    obtain ⟨distinct, members⟩ := incoming_jobs matching files
    refine ⟨distinct, fun patch box here isLocal cell inside => ?_⟩
    obtain ⟨source, sourceListed, inSource⟩ := (same cell).mp ⟨box, List.mem_of_getElem? here, inside⟩
    obtain ⟨index, there⟩ := List.mem_iff_getElem?.mp sourceListed
    obtain ⟨below, isBox⟩ := List.getElem?_eq_some_iff.mp here
    obtain ⟨known, isSource⟩ := List.getElem?_eq_some_iff.mp there
    have region : pairRegion destinationLayout sourceLayout patch index = box.intersect source := by
      rw [pairRegion, List.getD_eq_getElem?_getD, here, List.getD_eq_getElem?_getD, there]
      rfl
    have shared : cell ∈ (box.intersect source).cells := by
      rw [Box.cells_intersect, Finset.mem_inter]
      exact ⟨inside, inSource⟩
    have listed : (⟨index, patch, box.intersect source⟩ : CopyJob d) ∈ pairJobs destinationLayout sourceLayout :=
      mem_pairJobs.mpr ⟨below, known, region.symm, Box.nonempty_of_mem shared⟩
    refine ⟨_, (members _).mpr ⟨listed, isLocal⟩, shared, rfl, ⟨source, there, inSource, rfl⟩, ?_⟩
    intro other otherListed member
    exact job_unique destinations sources ((members other).mp otherListed).1 listed member shared
  · obtain ⟨-, rfl⟩ := (create_ok_iff destinationFits sourceFits).mp ran
    obtain ⟨-, rfl⟩ := (create_ok_iff destinationFits sourceFits).mp otherRan
    have filed :=
      Filed.run (routeOf destinationDistribution sourceDistribution p) (pairJobs destinationLayout sourceLayout)
    have otherFiled :=
      Filed.run (routeOf destinationDistribution sourceDistribution q) (pairJobs destinationLayout sourceLayout)
    refine ⟨?_, filed.sends.distinct, otherFiled.receives.distinct⟩
    unfold sentTo receivedFrom filedJobs
    unfold routeOf at filed otherFiled ⊢
    cases mode : sourceDistribution.mode with
    | replicated =>
      simp only [mode] at filed otherFiled
      dsimp only
      rw [filed.sends.exact, otherFiled.receives.exact]
      simp [jobsOf, Route.sendPeer, Route.receivePeer]
    | partitioned =>
      simp only [mode] at filed otherFiled
      exact filed.mirrored otherFiled

def wholeRing : BoxArray 1 := ⟨[ring]⟩

private theorem wholeRing_valid : Distribution.validate wholeRing ringRanks .partitioned [fun _ => -1] = .ok () := by
  decide

def wholeOwners : Distribution 1 := ⟨wholeRing, ringRanks, .partitioned, [fun _ => -1], wholeRing_valid⟩

/-- The schedule of a rank for the two patches of the ring out of the single one. -/
def ringCopies (rank : ℤ) : Checked (CopySchedule 1) :=
  create ringPatches ringOwners wholeRing wholeOwners (fun _ => rank) ⟨2, 2, 1, 0⟩

theorem create_decides_ring : ∃ own other, ringCopies (-1) = .ok own ∧ ringCopies 0 = .ok other ∧
    own.sentTo (fun _ => 0) = other.receivedFrom (fun _ => -1) ∧
      own.sentTo (fun _ => 0) = [⟨0, 0, ⟨fun _ => 0, fun _ => 1⟩⟩] := by
  have ringFits : PatchesFit ringPatches := by unfold PatchesFit; decide
  have wholeFits : PatchesFit wholeRing := by unfold PatchesFit; decide
  have decided := create_decides ringFits wholeFits ringOwners wholeOwners
  obtain ⟨own, ran⟩ : ∃ schedule, ringCopies (-1) = .ok schedule := exists_of_isOk (by decide +kernel)
  obtain ⟨other, otherRan⟩ : ∃ schedule, ringCopies 0 = .ok schedule := exists_of_isOk (by decide +kernel)
  have sent : (ringCopies (-1)).map (fun schedule => schedule.sentTo fun _ => 0) =
      .ok [⟨0, 0, ⟨fun _ => 0, fun _ => 1⟩⟩] := by decide +kernel
  rw [ran] at sent
  exact ⟨own, other, ran, otherRan, (decided.2.2.2 _ _ _ _ own other ran otherRan).1, Except.ok.inj sent⟩

/-- The ring with an empty patch behind its two patches. -/
def paddedRing : BoxArray 1 := ⟨ringPatches.boxes ++ [.default]⟩

private theorem paddedRing_valid : Distribution.validate paddedRing ringRanks .partitioned
    [fun _ => 0, fun _ => -1, fun _ => 0] = .ok () := by decide

def paddedOwners : Distribution 1 :=
  ⟨paddedRing, ringRanks, .partitioned, [fun _ => 0, fun _ => -1, fun _ => 0], paddedRing_valid⟩

/-- Disjoint patches of the same cells are refused when one of them is empty. -/
theorem create_refuses_empty :
    (paddedRing.boxes.Pairwise fun left right => Disjoint left.cells right.cells) ∧
      (wholeRing.boxes.Pairwise fun left right => Disjoint left.cells right.cells) ∧
      SameCells paddedRing wholeRing ∧
      create paddedRing paddedOwners wholeRing wholeOwners (fun _ => 0) ⟨100, 100, 100, 100⟩ =
        .error (.invalidArgument "pops::CopySchedule destination layout contains an empty patch") := by
  have disjoint (left right : Box 1) : Disjoint left.cells right.cells ↔ (left.intersect right).Empty :=
    Box.intersect_empty_iff.symm
  refine ⟨?_, by simp [wholeRing], fun cell => ?_, by decide +kernel⟩
  · simp only [disjoint]
    decide
  · simp only [paddedRing, ringPatches, wholeRing, ring, Box.default, List.cons_append, List.nil_append, List.mem_cons,
      List.not_mem_nil, or_false, exists_eq_or_imp, exists_eq_left, Box.mem_cells, Fin.forall_fin_one]
    omega

end Pops.CopySchedule
