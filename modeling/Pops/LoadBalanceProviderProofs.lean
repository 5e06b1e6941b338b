import Pops.LoadBalanceProvider

/-!
Each strategy gives every patch once to a rank of the space, and what it has
counted for a rank is the sum of the weights given to it. The validator counts
the same patches in their own order.
-/
namespace Pops.LoadBalance

variable {d : ℕ}

/-- The sum of the weights of some patches that a rank owns. -/
def tally (weights : List ℤ) (owners : List ℕ) (patches : List ℕ) (rank : ℕ) : ℤ :=
  ((patches.filter fun patch => owners.getD patch 0 = rank).map fun patch => weights.getD patch 0).sum

/-- The sum of the weights of some patches. -/
def weightOf (weights : List ℤ) (patches : List ℕ) : ℤ := (patches.map fun patch => weights.getD patch 0).sum

variable {weights : List ℤ} {owners : List ℕ} {patches done later : List ℕ} {patch rank owner rankCount patchCount : ℕ}

theorem getD_nonneg (nonneg : ∀ weight ∈ weights, 0 ≤ weight) (patch : ℕ) : 0 ≤ weights.getD patch 0 := by
  rw [List.getD_eq_getElem?_getD]
  cases found : weights[patch]? with
  | none => exact le_rfl
  | some weight => exact nonneg weight (List.mem_of_getElem? found)

theorem tally_append (weights : List ℤ) (owners : List ℕ) (done : List ℕ) (patch rank : ℕ) :
    tally weights owners (done ++ [patch]) rank =
      tally weights owners done rank + if owners.getD patch 0 = rank then weights.getD patch 0 else 0 := by
  unfold tally
  rw [List.filter_append, List.map_append, List.sum_append]
  by_cases owned : owners.getD patch 0 = rank
  · rw [if_pos owned, List.filter_singleton, decide_eq_true owned]
    simp
  · rw [if_neg owned, List.filter_singleton, decide_eq_false owned]
    simp

theorem weightOf_append (weights : List ℤ) (done : List ℕ) (patch : ℕ) :
    weightOf weights (done ++ [patch]) = weightOf weights done + weights.getD patch 0 := by
  simp [weightOf]

theorem tally_le (nonneg : ∀ weight ∈ weights, 0 ≤ weight) (owners : List ℕ) (patches : List ℕ) (rank : ℕ) :
    tally weights owners patches rank ≤ weightOf weights patches := by
  refine List.Sublist.sum_le_sum ((List.filter_sublist).map _) fun value listed => ?_
  obtain ⟨patch, -, rfl⟩ := List.mem_map.mp listed
  exact getD_nonneg nonneg patch

theorem tally_nonneg (nonneg : ∀ weight ∈ weights, 0 ≤ weight) (owners : List ℕ) (patches : List ℕ) (rank : ℕ) :
    0 ≤ tally weights owners patches rank := by
  refine List.sum_nonneg fun value listed => ?_
  obtain ⟨patch, -, rfl⟩ := List.mem_map.mp listed
  exact getD_nonneg nonneg patch

theorem tally_perm (same : done.Perm later) (rank : ℕ) :
    tally weights owners done rank = tally weights owners later rank :=
  ((same.filter _).map _).sum_eq

theorem tally_set (fresh : patch ∉ done) (rank : ℕ) :
    tally weights (owners.set patch owner) done rank = tally weights owners done rank := by
  unfold tally
  congr 2
  refine List.filter_congr fun other listed => ?_
  have apart : patch ≠ other := fun same => fresh (same ▸ listed)
  rw [List.getD_eq_getElem?_getD, List.getD_eq_getElem?_getD, List.getElem?_set_ne apart]

theorem weightOf_range (weights : List ℤ) : weightOf weights (List.range weights.length) = weights.sum := by
  rw [weightOf]
  congr 1
  refine List.ext_getElem (by simp) fun n _ inside => ?_
  simp [inside]

theorem weightOf_le (nonneg : ∀ weight ∈ weights, 0 ≤ weight)
    (all : (done ++ later).Perm (List.range weights.length)) : weightOf weights done ≤ weights.sum := by
  have whole : weightOf weights (done ++ later) = weights.sum := by
    rw [← weightOf_range, weightOf, weightOf]
    exact (all.map _).sum_eq
  rw [← whole]
  refine List.Sublist.sum_le_sum ((List.sublist_append_left done later).map _) fun value listed => ?_
  obtain ⟨patch, -, rfl⟩ := List.mem_map.mp listed
  exact getD_nonneg nonneg patch

/-- Some patches are given, each to a rank, and their weights are counted there. -/
structure Given (weights : List ℤ) (rankCount : ℕ) (done : List ℕ) (assignment : Assignment) : Prop where
  owners : assignment.linearOwners.length = weights.length
  ranks : assignment.rankLoads.length = rankCount
  owned : ∀ patch ∈ done, assignment.linearOwners.getD patch 0 < rankCount
  loads : ∀ rank < rankCount, assignment.rankLoads.getD rank 0 = tally weights assignment.linearOwners done rank

theorem given_none (weights : List ℤ) (rankCount : ℕ) : Given weights rankCount [] (.none weights.length rankCount) where
  owners := List.length_replicate
  ranks := List.length_replicate
  owned := by simp
  loads := by
    intro rank inside
    simp [Assignment.none, tally, inside]

theorem checkedAddLoad_eq {destination weight : ℤ} (room : destination + weight ≤ int64Max) :
    checkedAddLoad destination weight = .ok (destination + weight) := by
  rw [checkedAddLoad, throwIf_of_not (by omega), ok_bind]
  rfl

variable {assignment : Assignment}

theorem Given.give (given : Given weights rankCount done assignment) (nonneg : ∀ weight ∈ weights, 0 ≤ weight)
    (room : weightOf weights (done ++ [patch]) ≤ int64Max) (fresh : patch ∉ done) (known : patch < weights.length)
    (inside : owner < rankCount) :
    ∃ next, assignment.give weights patch owner = .ok next ∧ Given weights rankCount (done ++ [patch]) next := by
  have part := tally_le nonneg assignment.linearOwners done owner
  rw [weightOf_append] at room
  have load := given.loads owner inside
  have held : (assignment.linearOwners.set patch owner).getD patch 0 = owner := by
    rw [List.getD_eq_getElem?_getD, List.getElem?_set_self (by rw [given.owners]; exact known), Option.getD_some]
  rw [Assignment.give, checkedAddLoad_eq (by omega), ok_bind]
  refine ⟨_, rfl, by rw [List.length_set, given.owners], by rw [List.length_set, given.ranks], fun other listed => ?_,
    fun rank within => ?_⟩
  · rcases List.mem_append.mp listed with before | now
    · have apart : patch ≠ other := fun same => fresh (same ▸ before)
      rw [List.getD_eq_getElem?_getD, List.getElem?_set_ne apart, ← List.getD_eq_getElem?_getD]
      exact given.owned other before
    · rw [List.mem_singleton.mp now, held]
      exact inside
  · dsimp only
    rw [tally_append, tally_set fresh, held]
    by_cases same : owner = rank
    · subst same
      rw [List.getD_eq_getElem?_getD, List.getElem?_set_self (by rw [given.ranks]; exact inside), Option.getD_some, load,
        if_pos rfl]
    · rw [List.getD_eq_getElem?_getD, List.getElem?_set_ne same, ← List.getD_eq_getElem?_getD, given.loads rank within,
        if_neg same, add_zero]

theorem next_patch (nonneg : ∀ weight ∈ weights, 0 ≤ weight) (total : weights.sum ≤ int64Max)
    (all : (done ++ patch :: later).Perm (List.range weights.length)) :
    weightOf weights (done ++ [patch]) ≤ int64Max ∧ patch ∉ done ∧ patch < weights.length := by
  have split : done ++ patch :: later = (done ++ [patch]) ++ later := by simp
  refine ⟨(weightOf_le nonneg (split ▸ all)).trans total, ?_, ?_⟩
  · have distinct := all.nodup_iff.mpr List.nodup_range
    exact fun before => (List.disjoint_of_nodup_append distinct) before List.mem_cons_self
  · exact List.mem_range.mp (all.mem_iff.mp (by simp))

theorem Given.run (given : Given weights rankCount done assignment) (nonneg : ∀ weight ∈ weights, 0 ≤ weight)
    (total : weights.sum ≤ int64Max) (all : (done ++ later).Perm (List.range weights.length))
    {choose : Assignment → ℕ → ℕ} (inside : ∀ assignment patch, choose assignment patch < rankCount) :
    ∃ last, later.foldlM (fun assignment patch => assignment.give weights patch (choose assignment patch)) assignment =
      .ok last ∧ Given weights rankCount (done ++ later) last := by
  induction later generalizing done assignment with
  | nil => exact ⟨assignment, rfl, by rwa [List.append_nil]⟩
  | cons patch later ih =>
    obtain ⟨room, fresh, known⟩ := next_patch nonneg total all
    obtain ⟨next, ran, nextGiven⟩ := given.give nonneg room fresh known (inside assignment patch)
    obtain ⟨last, rest, lastGiven⟩ := ih nextGiven (by simpa using all)
    refine ⟨last, ?_, by simpa using lastGiven⟩
    rw [List.foldlM_cons, ran, ok_bind, rest]

theorem Given.runAll {traversal : List ℕ} (start : Given weights rankCount [] assignment)
    (nonneg : ∀ weight ∈ weights, 0 ≤ weight) (total : weights.sum ≤ int64Max)
    (all : traversal.Perm (List.range weights.length)) {choose : Assignment → ℕ → ℕ}
    (inside : ∀ assignment patch, choose assignment patch < rankCount) :
    ∃ last, traversal.foldlM (fun assignment patch => assignment.give weights patch (choose assignment patch)) assignment =
      .ok last ∧ Given weights rankCount traversal last :=
  start.run nonneg total all inside

theorem Given.curve {totalWeight : ℤ} {activeRankCount position : ℕ} {state : CurveState}
    (given : Given weights rankCount done state.assignment) (nonneg : ∀ weight ∈ weights, 0 ≤ weight)
    (total : weights.sum ≤ int64Max) (all : (done ++ later).Perm (List.range weights.length))
    (active : activeRankCount ≤ rankCount) (filling : state.owner < activeRankCount)
    (counted : state.cumulative = weightOf weights done) :
    ∃ last, (later.zipIdx position).foldlM (curveStep weights totalWeight patchCount activeRankCount) state = .ok last ∧
      Given weights rankCount (done ++ later) last.assignment := by
  induction later generalizing done state position with
  | nil => exact ⟨state, rfl, by rwa [List.append_nil]⟩
  | cons patch later ih =>
    obtain ⟨room, fresh, known⟩ := next_patch nonneg total all
    obtain ⟨next, ran, nextGiven⟩ := given.give nonneg room fresh known (filling.trans_le active)
    have weighed : checkedAddLoad state.cumulative (weights.getD patch 0) = .ok (weightOf weights (done ++ [patch])) := by
      rw [weightOf_append] at room ⊢
      rw [counted, checkedAddLoad_eq room]
    have stepped : ∃ owner < activeRankCount,
        curveStep weights totalWeight patchCount activeRankCount state (patch, position) =
          .ok ⟨next, weightOf weights (done ++ [patch]), owner⟩ := by
      rw [curveStep]
      dsimp only
      rw [ran, ok_bind, weighed, ok_bind]
      split
      · rename_i advance
        exact ⟨state.owner + 1, advance.1, rfl⟩
      · exact ⟨state.owner, filling, rfl⟩
    obtain ⟨owner, below, same⟩ := stepped
    obtain ⟨last, rest, lastGiven⟩ := @ih (done ++ [patch]) (position + 1)
      ⟨next, weightOf weights (done ++ [patch]), owner⟩ nextGiven (by simpa using all) below rfl
    refine ⟨last, ?_, by simpa using lastGiven⟩
    rw [List.zipIdx_cons, List.foldlM_cons, same, ok_bind, rest]

theorem sortBy_perm (less : ℕ → ℕ → Bool) (order : List ℕ) : (sortBy less order).Perm order :=
  List.perm_insertionSort _ _

theorem leastLoaded_lt (rankLoads : List ℤ) (some : 0 < rankCount) : leastLoaded rankLoads rankCount < rankCount := by
  have each : ∀ ranks : List ℕ, (∀ rank ∈ ranks, rank < rankCount) → ∀ owner < rankCount,
      ranks.foldl (fun owner rank => if rankLoads.getD rank 0 < rankLoads.getD owner 0 then rank else owner) owner <
        rankCount := by
    intro ranks
    induction ranks with
    | nil => exact fun _ owner inside => inside
    | cons rank ranks ih =>
      intro within owner inside
      refine ih (fun other listed => within other (List.mem_cons_of_mem _ listed)) _ ?_
      dsimp only
      split
      · exact within rank List.mem_cons_self
      · exact inside
  refine each _ (fun rank listed => ?_) 0 some
  obtain ⟨step, below, rfl⟩ := List.mem_range'.mp listed
  omega

theorem lowerCorner_le (first : Box d) (later : List (Box d)) (axis : Fin d) :
    ∀ patch ∈ first :: later, lowerCorner first later axis ≤ patch.lo axis := by
  have each : ∀ (later : List (Box d)) (start : Index d),
      later.foldl (fun lower patch axis => min (lower axis) (patch.lo axis)) start axis ≤ start axis ∧
        ∀ patch ∈ later, later.foldl (fun lower patch axis => min (lower axis) (patch.lo axis)) start axis ≤
          patch.lo axis := by
    intro later
    induction later with
    | nil => exact fun start => ⟨le_rfl, by simp⟩
    | cons box later ih =>
      intro start
      obtain ⟨below, rest⟩ := ih fun axis => min (start axis) (box.lo axis)
      refine ⟨below.trans (min_le_left _ _), fun patch listed => ?_⟩
      rcases List.mem_cons.mp listed with rfl | deeper
      · exact below.trans (min_le_right _ _)
      · exact rest patch deeper
  intro patch listed
  rcases List.mem_cons.mp listed with rfl | deeper
  · exact (each later patch.lo).1
  · exact (each later first.lo).2 patch deeper

theorem lowerCorner_fits {first : Box d} {later : List (Box d)} (fits : ∀ patch ∈ first :: later, patch.Fits)
    (axis : Fin d) : FitsInt (lowerCorner first later axis) := by
  have each : ∀ (later : List (Box d)) (start : Index d), FitsInt (start axis) → (∀ patch ∈ later, patch.Fits) →
      FitsInt (later.foldl (fun lower patch axis => min (lower axis) (patch.lo axis)) start axis) := by
    intro later
    induction later with
    | nil => exact fun start fits _ => fits
    | cons box later ih =>
      intro start startFits fits
      refine ih _ ?_ fun patch listed => fits patch (List.mem_cons_of_mem _ listed)
      have boxFits := (fits box List.mem_cons_self axis).1
      dsimp only
      rcases min_choice (start axis) (box.lo axis) with same | same
      · rw [same]
        exact startFits
      · rw [same]
        exact boxFits
  exact each later first.lo (fits first List.mem_cons_self axis).1 fun patch listed =>
    fits patch (List.mem_cons_of_mem _ listed)

theorem mortonOrder_perm {patches : BoxArray d} (fits : ∀ patch ∈ patches.boxes, patch.Fits) :
    ∃ order, mortonOrder patches = .ok order ∧ order.Perm (List.range patches.boxes.length) := by
  unfold mortonOrder
  cases boxes : patches.boxes with
  | nil => exact ⟨[], rfl, List.Perm.refl _⟩
  | cons first later =>
    rw [boxes] at fits
    dsimp only
    obtain ⟨coordinates, ran⟩ : ∃ coordinates, (first :: later).mapM (fun patch =>
        axes (mortonCoordinate (lowerCorner first later) patch)) = .ok coordinates :=
      exists_mapM_ok fun patch listed => by
        refine ⟨fun axis => (patch.lo axis - lowerCorner first later axis).toNat, axes_ok.mpr fun axis => ?_⟩
        have below := lowerCorner_le first later axis patch listed
        have cornerFits := (lowerCorner_fits fits axis).1
        have patchFits := (fits patch listed axis).1.2
        unfold intMin intMax at *
        rw [mortonCoordinate, throwIf_of_not (by omega), ok_bind]
        rfl
    rw [ran, ok_bind]
    exact ⟨_, rfl, sortBy_perm _ _⟩

theorem cumulativeTarget_fits {total : ℤ} {partitions : ℕ} (low : 0 ≤ total)
    (some : 0 < rankCount) (bounded : (rankCount : ℤ) ≤ intMax) (cut : partitions ≤ rankCount) :
    total.tmod rankCount * partitions + rankCount ≤ int64Max ∧ cumulativeTarget total partitions rankCount ≤ total := by
  have positive : (0 : ℤ) < rankCount := mod_cast some
  have within : (partitions : ℤ) ≤ rankCount := mod_cast cut
  have nonneg := Int.emod_nonneg total positive.ne'
  have below := Int.emod_lt_of_pos total positive
  have divided := Int.emod_add_mul_ediv total rankCount
  have product : total % rankCount * partitions ≤ total % rankCount * rankCount := mul_le_mul_of_nonneg_left within nonneg
  have whole : 0 ≤ total / rankCount := Int.ediv_nonneg low positive.le
  rw [cumulativeTarget, Int.tmod_eq_emod_of_nonneg low, Int.tdiv_eq_ediv_of_nonneg low]
  constructor
  · unfold intMax at bounded
    unfold int64Max
    nlinarith
  · have numerator : 0 ≤ total % rankCount * partitions + rankCount - 1 := by
      have := mul_nonneg nonneg (Int.natCast_nonneg partitions)
      omega
    rw [Int.tdiv_eq_ediv_of_nonneg numerator]
    have share : (total % rankCount * partitions + rankCount - 1) / rankCount ≤ total % rankCount :=
      Int.lt_add_one_iff.mp ((Int.ediv_lt_iff_lt_mul positive).mpr (by linarith))
    have quotient : total / rankCount * partitions ≤ total / rankCount * rankCount := mul_le_mul_of_nonneg_left within whole
    linarith

theorem assign_given {patches : BoxArray d} (strategy : LoadBalanceStrategy) (totalWeight : ℤ)
    (fits : ∀ patch ∈ patches.boxes, patch.Fits) (each : weights.length = patches.boxes.length)
    (nonneg : ∀ weight ∈ weights, 0 ≤ weight) (total : weights.sum ≤ int64Max) (some : 0 < rankCount) :
    ∃ traversal assignment, assign strategy patches weights totalWeight rankCount = .ok (traversal, assignment) ∧
      traversal.Perm (List.range weights.length) ∧ Given weights rankCount traversal assignment := by
  have start : Given weights rankCount [] (.none patches.boxes.length rankCount) := each ▸ given_none weights rankCount
  cases strategy with
  | spaceFillingCurve =>
    obtain ⟨order, ordered, perm⟩ := mortonOrder_perm fits
    rw [← each] at perm
    have filled : ∃ last, order.zipIdx.foldlM (curveStep weights totalWeight patches.boxes.length
        (min patches.boxes.length rankCount)) ⟨.none patches.boxes.length rankCount, 0, 0⟩ = .ok last ∧
        Given weights rankCount order last.assignment := by
      cases order with
      | nil => exact ⟨_, rfl, start⟩
      | cons patch later =>
        have known := List.mem_range.mp (perm.mem_iff.mp (List.mem_cons_self (a := patch) (l := later)))
        have began : Given weights rankCount [] (CurveState.mk (.none patches.boxes.length rankCount) 0 0).assignment := start
        exact began.curve nonneg total perm (min_le_right _ _) (lt_min (Nat.zero_lt_of_lt (each ▸ known)) some) rfl
    obtain ⟨last, ran, given⟩ := filled
    refine ⟨order, last.assignment, ?_, perm, given⟩
    rw [assign]
    dsimp only
    rw [ordered, ok_bind, ran, ok_bind]
    rfl
  | weightedLpt =>
    have perm : (sortBy (heavierFirst weights) (List.range patches.boxes.length)).Perm (List.range weights.length) :=
      each ▸ sortBy_perm _ _
    obtain ⟨last, ran, given⟩ := start.runAll nonneg total perm fun assignment _ =>
      leastLoaded_lt assignment.rankLoads some
    refine ⟨_, last, ?_, perm, given⟩
    rw [assign, ran, ok_bind]
    rfl
  | roundRobin =>
    have perm : (List.range patches.boxes.length).Perm (List.range weights.length) := by rw [each]
    obtain ⟨last, ran, given⟩ := start.runAll nonneg total perm fun _ patch => Nat.mod_lt patch some
    refine ⟨_, last, ?_, perm, given⟩
    rw [assign, ran, ok_bind]
    rfl

theorem weightStep_of_requestStep {budget : LoadBalancePreparationBudget} {supplied : List ℤ}
    {entries : List (Box d × ℕ)} {total last : ℤ} (room : total ≤ int64Max)
    (accepted : entries.foldlM (requestStep budget supplied) total = .ok last) :
    entries.foldlM (weightStep budget supplied) total = .ok last ∧ last ≤ int64Max ∧
      ∃ weights, entries.mapM (patchWeight supplied) = .ok weights ∧ (∀ weight ∈ weights, 0 < weight) ∧
        last = total + weights.sum := by
  induction entries generalizing total with
  | nil =>
    cases accepted
    exact ⟨rfl, room, [], rfl, by simp, by simp⟩
  | cons entry entries ih =>
    rw [List.foldlM_cons, bind_ok] at accepted
    obtain ⟨middle, first, rest⟩ := accepted
    simp only [requestStep, bind_ok, throwIf_ok, unit_exists, pure_ok] at first
    obtain ⟨filled, weight, weighed, positive, fits, budgeted, rfl⟩ := first
    obtain ⟨same, bounded, weights, listed, positives, rfl⟩ := ih (by omega) rest
    refine ⟨?_, bounded, weight :: weights, ?_, ?_, ?_⟩
    · rw [List.foldlM_cons, weightStep, throwIf_of_not filled, ok_bind, weighed, ok_bind, throwIf_of_not positive, ok_bind,
        throwIf_of_not fits, ok_bind, throwIf_of_not budgeted, ok_bind]
      exact same
    · rw [List.mapM_cons, weighed, ok_bind, listed, ok_bind]
      rfl
    · intro other member
      rcases List.mem_cons.mp member with rfl | deeper
      · omega
      · exact positives other deeper
    · rw [List.sum_cons]
      ring

theorem coordinate_contains {rankSpace : RankSpace d} (inside : rank < rankSpace.size) :
    ∃ coordinate, rankSpace.coordinate rank = .ok coordinate ∧ rankSpace.Contains coordinate := by
  obtain ⟨coordinate, ran⟩ : ∃ coordinate, rankSpace.coordinate rank = .ok coordinate := by
    rw [RankSpace.coordinate, throwIf_of_not (by omega), ok_bind]
    exact ⟨_, rfl⟩
  refine ⟨coordinate, ran, by omega, fun axis => ?_⟩
  have positive (other : Fin d) : 0 < rankSpace.counts other := by
    apply Nat.pos_of_ne_zero
    intro zero
    have none : rankSpace.size = 0 := by
      rw [RankSpace.size, MixedRadix.volume, List.prod_eq_zero_iff, List.mem_map]
      exact ⟨other, List.mem_finRange other, zero⟩
    omega
  have digit := MixedRadix.decode_lt (fun other _ => positive other) (List.mem_finRange axis) rank (fun _ => 0)
  rw [(RankSpace.coordinate_ok ran).2 axis]
  unfold RankSpace.counts at digit
  unfold RankSpace.counts
  omega

theorem traversal_passes {traversal : List ℕ} {traversed : List Bool} (inside : ∀ patch ∈ traversal, patch < patchCount)
    (distinct : traversal.Nodup) (fresh : ∀ patch ∈ traversal, traversed.getD patch false = false) :
    ∃ last, traversal.foldlM (traversalStep patchCount) traversed = .ok last := by
  induction traversal generalizing traversed with
  | nil => exact ⟨traversed, rfl⟩
  | cons patch later ih =>
    have here := inside patch List.mem_cons_self
    have unseen := fresh patch List.mem_cons_self
    rw [List.foldlM_cons, traversalStep, throwIf_of_not (by rw [unseen]; simp; omega), ok_bind]
    refine ih (fun other listed => inside other (List.mem_cons_of_mem _ listed)) distinct.of_cons fun other listed => ?_
    have apart : patch ≠ other := fun same => (List.nodup_cons.mp distinct).1 (same ▸ listed)
    rw [List.getD_eq_getElem?_getD, List.getElem?_set_ne apart, ← List.getD_eq_getElem?_getD]
    exact fresh other (List.mem_cons_of_mem _ listed)

variable {plan : OwnershipPlan d} {rankSpace : RankSpace d} {supplied : List ℤ}

/-- A plan whose weights and owners are those of the request. -/
structure Matches (plan : OwnershipPlan d) (rankSpace : RankSpace d) : Prop where
  nonneg : ∀ weight ∈ plan.weights, 0 ≤ weight
  total : plan.weights.sum ≤ int64Max
  owned : ∀ patch < plan.weights.length, plan.linearOwners.getD patch 0 < rankSpace.size ∧
    ∃ coordinate, rankSpace.coordinate (plan.linearOwners.getD patch 0) = .ok coordinate ∧
      plan.distribution.owners[patch]? = some coordinate

/-- The validator's loads, once it has seen the first patches. -/
structure Counted (plan : OwnershipPlan d) (rankSpace : RankSpace d) (seen : ℕ) (counts : List ℤ × ℤ) : Prop where
  ranks : counts.1.length = rankSpace.size
  loads : ∀ rank < rankSpace.size,
    counts.1.getD rank 0 = tally plan.weights plan.linearOwners (List.range seen) rank
  total : counts.2 = weightOf plan.weights (List.range seen)

theorem checkedAddCost_eq {lhs rhs : ℤ} {context : String} (low : 0 ≤ lhs) (nonneg : 0 ≤ rhs)
    (room : lhs + rhs ≤ int64Max) : checkedAddCost lhs rhs context = .ok (lhs + rhs) := by
  rw [checkedAddCost, throwIf_of_not (by omega), ok_bind]
  rfl

theorem Counted.step {seen : ℕ} {loads : List ℤ × ℤ} {box : Box d} (counted : Counted plan rankSpace seen loads)
    (known : Matches plan rankSpace) (inside : seen < plan.weights.length)
    (weighed : patchWeight supplied (box, seen) = .ok (plan.weights.getD seen 0)) :
    ∃ next, planStep plan rankSpace supplied loads (box, seen) = .ok next ∧ Counted plan rankSpace (seen + 1) next := by
  obtain ⟨ranked, coordinate, found, held⟩ := known.owned seen inside
  have split : List.range (seen + 1) ++ List.range' (0 + (seen + 1)) (plan.weights.length - (seen + 1)) =
      List.range plan.weights.length := by
    rw [List.range_eq_range', List.range_eq_range', List.range'_append_1]
    congr 1
    omega
  have room := (weightOf_le known.nonneg (List.Perm.of_eq split)).trans known.total
  rw [List.range_succ, weightOf_append] at room
  have part := tally_le known.nonneg plan.linearOwners (List.range seen) (plan.linearOwners.getD seen 0)
  have low := tally_nonneg known.nonneg plan.linearOwners (List.range seen) (plan.linearOwners.getD seen 0)
  have weight := getD_nonneg known.nonneg seen
  have load := counted.loads _ ranked
  have total := counted.total
  refine ⟨(loads.1.set (plan.linearOwners.getD seen 0)
    (loads.1.getD (plan.linearOwners.getD seen 0) 0 + plan.weights.getD seen 0), loads.2 + plan.weights.getD seen 0),
    ?_, ?_⟩
  · rw [planStep]
    dsimp only
    rw [weighed, ok_bind, throwIf_of_not (by simp), ok_bind, throwIf_of_not (by omega), ok_bind, found, ok_bind,
      throwIf_of_not (by simp [held]), ok_bind, checkedAddCost_eq (by omega) weight (by omega), ok_bind,
      checkedAddCost_eq (by omega) weight (by omega), ok_bind]
    rfl
  · refine ⟨by rw [List.length_set, counted.ranks], fun rank within => ?_, ?_⟩
    · dsimp only
      rw [List.range_succ, tally_append]
      by_cases same : plan.linearOwners.getD seen 0 = rank
      · rw [← same, List.getD_eq_getElem?_getD, List.getElem?_set_self (by rw [counted.ranks]; exact ranked),
          Option.getD_some, load, if_pos rfl]
      · rw [List.getD_eq_getElem?_getD, List.getElem?_set_ne same, ← List.getD_eq_getElem?_getD,
          counted.loads rank within, if_neg same, add_zero]
    · dsimp only
      rw [List.range_succ, weightOf_append, total]

theorem Counted.run {seen : ℕ} {loads : List ℤ × ℤ} {boxes : List (Box d)}
    (counted : Counted plan rankSpace seen loads) (known : Matches plan rankSpace)
    (all : seen + boxes.length = plan.weights.length)
    (weighed : ∀ entry ∈ boxes.zipIdx seen, patchWeight supplied entry = .ok (plan.weights.getD entry.2 0)) :
    ∃ last, (boxes.zipIdx seen).foldlM (planStep plan rankSpace supplied) loads = .ok last ∧
      Counted plan rankSpace plan.weights.length last := by
  induction boxes generalizing seen loads with
  | nil =>
    rw [List.length_nil, add_zero] at all
    exact ⟨loads, rfl, all ▸ counted⟩
  | cons box boxes ih =>
    rw [List.length_cons] at all
    obtain ⟨next, stepped, nextCounted⟩ := counted.step known (by omega) (weighed (box, seen) List.mem_cons_self)
    obtain ⟨last, rest, lastCounted⟩ := ih nextCounted (by omega) fun entry listed =>
      weighed entry (List.mem_cons_of_mem _ listed)
    refine ⟨last, ?_, lastCounted⟩
    rw [List.zipIdx_cons, List.foldlM_cons, stepped, ok_bind, rest]

theorem mapM_zipIdx {α : Type} {f : α × ℕ → Checked ℤ} {items : List α} {start : ℕ} {results : List ℤ}
    (ran : (items.zipIdx start).mapM f = .ok results) :
    results.length = items.length ∧ ∀ entry ∈ items.zipIdx start, f entry = .ok (results.getD (entry.2 - start) 0) := by
  induction items generalizing start results with
  | nil =>
    cases ran
    exact ⟨rfl, by simp⟩
  | cons item items ih =>
    simp only [List.zipIdx_cons, List.mapM_cons, bind_ok, pure_ok] at ran
    obtain ⟨result, first, later, rest, rfl⟩ := ran
    obtain ⟨length, each⟩ := ih rest
    refine ⟨by rw [List.length_cons, length, List.length_cons], fun entry listed => ?_⟩
    rw [List.zipIdx_cons] at listed
    rcases List.mem_cons.mp listed with rfl | deeper
    · rw [first]
      simp
    · have after := (List.mem_zipIdx deeper).1
      rw [each entry deeper, show entry.2 - start = entry.2 - (start + 1) + 1 by omega, List.getD_cons_succ]

theorem mapM_getElem {α β : Type} {f : α → Checked β} {items : List α} {results : List β}
    (ran : items.mapM f = .ok results) (n : ℕ) (inside : n < items.length) :
    ∃ result, f items[n] = .ok result ∧ results[n]? = some result := by
  have related := mapM_ok.mp ran
  clear ran
  induction related generalizing n with
  | nil => cases inside
  | cons first rest ih =>
    cases n with
    | zero => exact ⟨_, first, rfl⟩
    | succ n => exact ih n (Nat.lt_of_succ_lt_succ inside)

theorem create_valid {layout : BoxArray d} {mode : DistributionMode} {held : List (Index d)}
    (valid : Distribution.validate layout rankSpace mode held = .ok ()) :
    Distribution.create layout rankSpace mode held = .ok ⟨layout, rankSpace, mode, held, valid⟩ := by
  unfold Distribution.create
  split
  · rename_i exception failed
    cases valid.symm.trans failed
  · rfl

variable {patches : BoxArray d} {budget : LoadBalancePreparationBudget} {communicatorSize : ℤ}

/-- Every request that the preflight accepts gets a plan from each strategy, and the validator accepts
the plan: it traverses each patch once, and its loads are the sums of the weights, which fit. -/
theorem builtin_plan_valid (strategy : LoadBalanceStrategy) (coordinates : ∀ patch ∈ patches.boxes, patch.Fits)
    (communicator : FitsInt communicatorSize)
    (accepted : validateRequest patches rankSpace budget supplied communicatorSize = .ok ()) :
    ∃ plan, strategy.prepare patches rankSpace budget supplied = .ok plan ∧
      validatePlan plan patches rankSpace supplied = .ok () ∧
      plan.traversal.Perm (List.range patches.boxes.length) ∧
      (∀ patch < patches.boxes.length, plan.linearOwners.getD patch 0 < rankSpace.size) ∧
      ∀ rank < rankSpace.size,
        plan.linearRankLoads.getD rank 0 =
            tally plan.weights plan.linearOwners (List.range patches.boxes.length) rank ∧
          plan.linearRankLoads.getD rank 0 ≤ int64Max := by
  simp only [validateRequest, bind_ok, throwIf_ok, unit_exists, not_or, not_and, not_not] at accepted
  obtain ⟨⟨lanes, some, size⟩, positive, patchBudget, rankBudget, counted, last, weighed, -⟩ := accepted
  obtain ⟨again, bounded, weights, listed, positives, rfl⟩ := weightStep_of_requestStep (by decide) weighed
  rw [zero_add] at again bounded
  obtain ⟨length, each⟩ := mapM_zipIdx listed
  have nonneg : ∀ weight ∈ weights, 0 ≤ weight := fun weight member => (positives weight member).le
  obtain ⟨traversal, assignment, assigned, perm, given⟩ :=
    assign_given strategy weights.sum coordinates length nonneg bounded (Nat.pos_of_ne_zero some)
  have owned (patch : ℕ) (inside : patch < weights.length) : assignment.linearOwners.getD patch 0 < rankSpace.size :=
    given.owned patch (perm.mem_iff.mpr (List.mem_range.mpr inside))
  have inRange : ∀ owner ∈ assignment.linearOwners, owner < rankSpace.size := by
    intro owner member
    obtain ⟨patch, inside, rfl⟩ := List.mem_iff_getElem.mp member
    simpa [inside] using owned patch (given.owners ▸ inside)
  obtain ⟨held, located⟩ := exists_mapM_ok (f := rankSpace.coordinate) fun owner member =>
    (coordinate_contains (inRange owner member)).imp fun _ found => found.1
  have heldLength : held.length = patches.boxes.length := by
    rw [← (mapM_ok.mp located).length_eq, given.owners, length]
  have valid : Distribution.validate patches rankSpace .partitioned held = .ok () := by
    rw [Distribution.validate, throwIf_of_not fun both => some both.2, ok_bind, throwIf_of_not (not_not.mpr heldLength), ok_bind, throwIf_of_not]
    rintro ⟨coordinate, member, outside⟩
    obtain ⟨owner, known, found⟩ := mem_of_mapM_ok located member
    obtain ⟨other, same, contains⟩ := coordinate_contains (inRange owner known)
    cases found.symm.trans same
    exact outside contains
  -- The plan that every strategy returns.
  let plan : OwnershipPlan d := ⟨strategy, ⟨patches, rankSpace, .partitioned, held, valid⟩, weights,
    assignment.linearOwners, assignment.rankLoads, traversal, weights.sum⟩
  have prepared : prepareWeights patches supplied budget = .ok (weights, weights.sum) := by
    rw [prepareWeights, throwIf_of_not patchBudget, ok_bind, throwIf_of_not fun both => both.2 (counted both.1), ok_bind,
      again, ok_bind, listed, ok_bind]
    rfl
  have known : Matches plan rankSpace := by
    refine ⟨nonneg, bounded, fun patch inside => ⟨owned patch inside, ?_⟩⟩
    have listedOwner : patch < assignment.linearOwners.length := given.owners ▸ inside
    obtain ⟨coordinate, found, here⟩ := mapM_getElem located patch listedOwner
    exact ⟨coordinate, by simpa [plan, listedOwner] using found, here⟩
  obtain ⟨traversed, walked⟩ : ∃ last, traversal.foldlM (traversalStep patches.boxes.length)
      (List.replicate patches.boxes.length false) = .ok last := by
    refine traversal_passes (fun patch member => length ▸ List.mem_range.mp (perm.mem_iff.mp member))
      (perm.nodup_iff.mpr List.nodup_range) fun patch member => ?_
    have inside := length ▸ List.mem_range.mp (perm.mem_iff.mp member)
    simp [inside]
  have start : Counted plan rankSpace 0 (List.replicate rankSpace.size 0, 0) :=
    ⟨List.length_replicate, fun rank within => by simp [tally, within], rfl⟩
  obtain ⟨counts, summed, total⟩ := start.run known (by rw [zero_add]; exact length.symm) each
  have loads : assignment.rankLoads = counts.1 := by
    refine List.ext_getElem (given.ranks.trans total.ranks.symm) fun rank first second => ?_
    have here := given.loads rank (given.ranks ▸ first)
    have there := total.loads rank (given.ranks ▸ first)
    rw [tally_perm perm] at here
    simpa [first, second] using here.trans there.symm
  refine ⟨plan, ?_, ?_, length ▸ perm, fun patch inside => owned patch (length ▸ inside), fun rank inside => ?_⟩
  · rw [LoadBalanceStrategy.prepare, validateBudget, throwIf_of_not (by tauto), ok_bind, throwIf_of_not some, ok_bind,
      throwIf_of_not rankBudget, ok_bind, throwIf_of_not (by rw [size]; exact not_lt.mpr communicator.2), ok_bind,
      prepared, ok_bind]
    dsimp only
    rw [assigned, ok_bind, located, ok_bind, create_valid valid, ok_bind]
    rfl
  · rw [validatePlan, throwIf_of_not (by simp [plan]), ok_bind]
    dsimp only
    rw [throwIf_of_not, ok_bind, walked, ok_bind, summed, ok_bind, throwIf_of_not]
    · have whole : counts.2 = weights.sum := total.total.trans (weightOf_range weights)
      simp [plan, loads, whole]
    · have traversalLength : traversal.length = patches.boxes.length := by rw [perm.length_eq, List.length_range, length]
      simp [plan, heldLength, length, given.owners, given.ranks, traversalLength]
  · have here := given.loads rank inside
    rw [tally_perm perm] at here
    refine ⟨length ▸ here, ?_⟩
    have part := tally_le nonneg assignment.linearOwners (List.range weights.length) rank
    rw [weightOf_range] at part
    exact here.le.trans (part.trans bounded)

def twoPatches : BoxArray 1 := ⟨[⟨fun _ => 0, fun _ => 3⟩, ⟨fun _ => 4, fun _ => 5⟩]⟩

theorem zero_fits (axis : Fin 1) : FitsInt ((fun _ => 0 : Index 1) axis) := by decide +revert

theorem three_checked (axis : Fin 1) : RankSpace.checkAxis (fun _ => 0) (fun _ => 3) axis = .ok () := rfl

def threeRanks : RankSpace 1 := ⟨fun _ => 0, fun _ => 3, zero_fits, three_checked⟩

/-- Two patches on three ranks. -/
theorem two_patches_planned : ∃ plan, LoadBalanceStrategy.weightedLpt.prepare twoPatches threeRanks ⟨2, 3, 6⟩ [] = .ok plan ∧
    validatePlan plan twoPatches threeRanks [] = .ok () :=
  (builtin_plan_valid .weightedLpt (by decide) (show FitsInt 3 by decide) (by decide)).imp fun _ valid =>
    ⟨valid.1, valid.2.1⟩

end Pops.LoadBalance
