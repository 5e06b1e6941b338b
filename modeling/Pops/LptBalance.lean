import Mathlib.Tactic.FieldSimp
import Pops.CurveBalance
import Pops.ListScheduling

/-!
The longest-processing-time assignment is list scheduling by falling weight: the
sort puts the heaviest patches first, and the loop over the ranks finds the first
of the least loaded.
-/
namespace Pops.LoadBalance
open ListScheduling

variable {d : ℕ} {weights : List ℤ} {owners done later : List ℕ} {rankCount : ℕ} {assignment last : Assignment}

theorem leastLoaded_le (rankLoads : List ℤ) {rank : ℕ} (inside : rank < rankCount) :
    rankLoads.getD (leastLoaded rankLoads rankCount) 0 ≤ rankLoads.getD rank 0 := by
  have each : ∀ (ranks : List ℕ) (owner : ℕ),
      let found := ranks.foldl
        (fun owner rank => if rankLoads.getD rank 0 < rankLoads.getD owner 0 then rank else owner) owner
      rankLoads.getD found 0 ≤ rankLoads.getD owner 0 ∧
        ∀ rank ∈ ranks, rankLoads.getD found 0 ≤ rankLoads.getD rank 0 := by
    intro ranks
    induction ranks with
    | nil => exact fun owner => ⟨le_rfl, by simp⟩
    | cons head ranks ih =>
      intro owner
      obtain ⟨start, rest⟩ := ih (if rankLoads.getD head 0 < rankLoads.getD owner 0 then head else owner)
      have smaller : rankLoads.getD (if rankLoads.getD head 0 < rankLoads.getD owner 0 then head else owner) 0 ≤
          rankLoads.getD owner 0 ∧
          rankLoads.getD (if rankLoads.getD head 0 < rankLoads.getD owner 0 then head else owner) 0 ≤
            rankLoads.getD head 0 := by
        split
        · rename_i less
          exact ⟨less.le, le_rfl⟩
        · rename_i more
          exact ⟨le_rfl, not_lt.mp more⟩
      refine ⟨start.trans smaller.1, fun rank listed => ?_⟩
      rcases List.mem_cons.mp listed with rfl | later
      · exact start.trans smaller.2
      · exact rest rank later
  obtain ⟨first, rest⟩ := each (List.range' 1 (rankCount - 1)) 0
  rcases Nat.eq_zero_or_pos rank with rfl | positive
  · exact first
  · exact rest rank (List.mem_range'.mpr ⟨rank - 1, by omega, by omega⟩)

theorem loadOf_congr (same : ∀ patch ∈ done, last.ownerOf patch = assignment.ownerOf patch) (rank : ℕ) :
    last.loadOf weights done rank = assignment.loadOf weights done rank := by
  unfold Assignment.loadOf tally
  congr 2
  refine List.filter_congr fun patch listed => ?_
  have owned := same patch listed
  rw [Assignment.ownerOf, Assignment.ownerOf] at owned
  rw [owned]

theorem tally_eq_load (distinct : done.Nodup) (rank : ℕ) :
    tally weights owners done rank =
      load (fun patch => weights.getD patch 0) (fun patch => owners.getD patch 0) done.toFinset rank := by
  have split : onMachine (fun patch => owners.getD patch 0) done.toFinset rank =
      (done.filter fun patch => owners.getD patch 0 = rank).toFinset := by
    ext patch
    rw [mem_onMachine, List.mem_toFinset, List.mem_toFinset, List.mem_filter, decide_eq_true_eq]
  rw [tally, load, split, List.sum_toFinset _ (distinct.filter _)]

theorem lpt_least (given : Given weights rankCount done assignment) (nonneg : ∀ weight ∈ weights, 0 ≤ weight)
    (total : weights.sum ≤ int64Max) (all : (done ++ later).Perm (List.range weights.length)) (some : 0 < rankCount)
    (ran : later.foldlM (fun assignment patch =>
      assignment.give weights patch (leastLoaded assignment.rankLoads rankCount)) assignment = .ok last) :
    (∀ patch ∈ done, last.ownerOf patch = assignment.ownerOf patch) ∧
      ∀ before patch after, later = before ++ patch :: after →
        last.ownerOf patch < rankCount ∧ ∀ rank < rankCount,
          last.loadOf weights (done ++ before) (last.ownerOf patch) ≤ last.loadOf weights (done ++ before) rank := by
  induction later generalizing done assignment with
  | nil =>
    cases ran
    refine ⟨fun _ _ => rfl, fun before patch after split => ?_⟩
    simp at split
  | cons patch later ih =>
    rw [List.foldlM_cons, bind_ok] at ran
    obtain ⟨next, first, rest⟩ := ran
    obtain ⟨room, fresh, known⟩ := next_patch nonneg total all
    have inside := leastLoaded_lt assignment.rankLoads some
    obtain ⟨again, sameGive, nextGiven⟩ := given.give nonneg room fresh known inside
    cases first.symm.trans sameGive
    obtain ⟨-, here, kept, -⟩ := give_ok first (given.owners.symm ▸ known) fresh
    obtain ⟨agree, least⟩ := ih nextGiven (by simpa using all) rest
    have before_agree : ∀ other ∈ done, last.ownerOf other = assignment.ownerOf other := fun other listed =>
      (agree other (List.mem_append_left _ listed)).trans (kept other listed)
    have owned : last.ownerOf patch = leastLoaded assignment.rankLoads rankCount :=
      (agree patch (List.mem_append_right _ (List.mem_singleton_self _))).trans here
    refine ⟨before_agree, fun before candidate after split => ?_⟩
    cases before with
    | nil =>
      cases split
      rw [owned]
      refine ⟨inside, fun rank within => ?_⟩
      rw [List.append_nil, loadOf_congr before_agree, loadOf_congr before_agree]
      change tally _ _ _ _ ≤ tally _ _ _ _
      rw [← given.loads _ inside, ← given.loads rank within]
      exact leastLoaded_le assignment.rankLoads within
    | cons head before =>
      cases split
      rw [List.append_cons]
      exact least before candidate after rfl

/-- The order of the sort: a later patch is not heavier. -/
def NotLighter (weights : List ℤ) (left right : ℕ) : Prop := heavierFirst weights right left = false

instance (weights : List ℤ) : DecidableRel (NotLighter weights) := fun _ _ => inferInstanceAs (Decidable (_ = _))

theorem notLighter_iff {left right : ℕ} : NotLighter weights left right ↔
    weights.getD right 0 < weights.getD left 0 ∨ (weights.getD right 0 = weights.getD left 0 ∧ left ≤ right) := by
  unfold NotLighter heavierFirst
  rw [decide_eq_false_iff_not]
  omega

instance (weights : List ℤ) : Std.Total (NotLighter weights) := ⟨fun left right => by
  rw [notLighter_iff, notLighter_iff]
  omega⟩

instance (weights : List ℤ) : IsTrans ℕ (NotLighter weights) := ⟨fun left middle right => by
  rw [notLighter_iff, notLighter_iff, notLighter_iff]
  omega⟩

theorem traversal_sorted (weights : List ℤ) (order : List ℕ) :
    (sortBy (heavierFirst weights) order).Pairwise fun earlier later =>
      weights.getD later 0 ≤ weights.getD earlier 0 := by
  have sorted := List.pairwise_insertionSort (NotLighter weights) order
  refine List.Pairwise.imp (fun {left right} related => ?_) sorted
  have := notLighter_iff.mp related
  omega

/-- The load of the fullest rank. -/
def makespan (loads : ℕ → ℤ) (ranks : ℕ) : ℤ := ((List.range ranks).map loads).foldr max 0

theorem le_makespan (loads : ℕ → ℤ) {ranks rank : ℕ} (inside : rank < ranks) : loads rank ≤ makespan loads ranks := by
  have each (values : List ℤ) : ∀ value ∈ values, value ≤ values.foldr max 0 := by
    induction values with
    | nil => simp
    | cons head values ih =>
      intro value listed
      rw [List.foldr_cons]
      rcases List.mem_cons.mp listed with rfl | later
      · exact le_max_left _ _
      · exact (ih value later).trans (le_max_right _ _)
  exact each _ _ (List.mem_map.mpr ⟨rank, List.mem_range.mpr inside, rfl⟩)

theorem makespan_nonneg (loads : ℕ → ℤ) (ranks : ℕ) : 0 ≤ makespan loads ranks := by
  unfold makespan
  induction (List.range ranks).map loads with
  | nil => exact le_rfl
  | cons head values ih => exact ih.trans (le_max_right _ _)

theorem makespan_eq (loads : ℕ → ℤ) (ranks : ℕ) :
    makespan loads ranks = 0 ∨ ∃ rank < ranks, makespan loads ranks = loads rank := by
  have each (values : List ℤ) : values.foldr max 0 = 0 ∨ values.foldr max 0 ∈ values := by
    induction values with
    | nil => exact .inl rfl
    | cons head values ih =>
      rw [List.foldr_cons]
      rcases max_choice head (values.foldr max 0) with same | same
      · rw [same]
        exact .inr List.mem_cons_self
      · rw [same]
        exact ih.imp_right fun listed => List.mem_cons_of_mem _ listed
  rcases each ((List.range ranks).map loads) with zero | listed
  · exact .inl zero
  · obtain ⟨rank, inside, same⟩ := List.mem_map.mp listed
    exact .inr ⟨rank, List.mem_range.mp inside, same.symm⟩

theorem lpt_load_le {traversal other : List ℕ}
    (positive : ∀ weight ∈ weights, 0 < weight) (total : weights.sum ≤ int64Max)
    (sorted : traversal = sortBy (heavierFirst weights) (List.range weights.length))
    (ran : traversal.foldlM (fun (assignment : Assignment) patch =>
      assignment.give weights patch (leastLoaded assignment.rankLoads rankCount))
        (Assignment.none weights.length rankCount) = .ok last)
    (otherInside : ∀ patch < weights.length, other.getD patch 0 < rankCount) {bound : ℤ}
    (below : ∀ rank < rankCount, tally weights other (List.range weights.length) rank ≤ bound) {rank : ℕ}
    (inside : rank < rankCount) :
    3 * rankCount * tally weights last.linearOwners (List.range weights.length) rank ≤
      (4 * rankCount - 1) * bound := by
  have perm : traversal.Perm (List.range weights.length) := sorted ▸ sortBy_perm _ _
  have distinct : traversal.Nodup := perm.nodup_iff.mpr List.nodup_range
  have falling : traversal.Pairwise fun earlier later => weights.getD later 0 ≤ weights.getD earlier 0 :=
    sorted ▸ traversal_sorted weights _
  have nonneg : ∀ weight ∈ weights, 0 ≤ weight := fun weight listed => (positive weight listed).le
  have known (patch : ℕ) : patch ∈ traversal ↔ patch < weights.length := by rw [perm.mem_iff, List.mem_range]
  have least := (lpt_least (given_none weights rankCount) nonneg total perm (Nat.zero_lt_of_lt inside) ran).2
  have greedy : Greedy (fun patch => weights.getD patch 0) (fun patch => last.linearOwners.getD patch 0) rankCount
      traversal := by
    intro before patch after split
    obtain ⟨within, smallest⟩ := least before patch after split
    refine ⟨within, fun index below => ?_⟩
    have beforeDistinct : before.Nodup := (List.nodup_append.mp (split ▸ distinct)).1
    have compared := smallest index below
    unfold Assignment.loadOf at compared
    rwa [List.nil_append, tally_eq_load beforeDistinct, tally_eq_load beforeDistinct] at compared
  rw [← tally_perm perm, tally_eq_load distinct]
  refine greedy.load_le distinct falling (fun patch listed => ?_)
    (fun patch listed => otherInside patch ((known patch).mp listed)) (fun index within => ?_) inside
  · have within := (known patch).mp listed
    simpa [within] using positive weights[patch] (List.getElem_mem within)
  · rw [← tally_eq_load distinct, tally_perm perm]
    exact below index within

/-- Every plan by falling weight has a makespan within `4/3 - 1/(3m)` of that of any assignment of
its patches to its ranks; and every request the preflight accepts gets one. -/
theorem lpt_plan_near_optimal (patches : BoxArray d) (coordinates : ∀ patch ∈ patches.boxes, patch.Fits)
    (rankSpace : RankSpace d) (budget : LoadBalancePreparationBudget) (supplied : List ℤ) :
    (∀ plan, LoadBalanceStrategy.weightedLpt.prepare patches rankSpace budget supplied = .ok plan →
      (supplied ≠ [] → plan.weights = supplied) ∧
      (∀ rank < rankSpace.size, plan.linearRankLoads.getD rank 0 =
        tally plan.weights plan.linearOwners (List.range patches.boxes.length) rank) ∧
      ∀ other : List ℕ, other.length = patches.boxes.length → (∀ owner ∈ other, owner < rankSpace.size) →
        (makespan (fun rank => plan.linearRankLoads.getD rank 0) rankSpace.size : ℚ) ≤
          (4 / 3 - 1 / (3 * rankSpace.size)) *
            makespan (tally plan.weights other (List.range patches.boxes.length)) rankSpace.size) ∧
    ((rankSpace.size : ℤ) ≤ intMax →
      validateRequest patches rankSpace budget supplied rankSpace.size = .ok () →
        ∃ plan, LoadBalanceStrategy.weightedLpt.prepare patches rankSpace budget supplied = .ok plan) := by
  constructor
  · intro plan ran
    simp only [LoadBalanceStrategy.prepare, bind_ok, throwIf_ok, unit_exists, pure_ok] at ran
    obtain ⟨-, ranks, -, -, ⟨weights, totalWeight⟩, prepared, ⟨traversal, assignment⟩, assigned, owners, -,
      distribution, -, rfl⟩ := ran
    simp only [prepareWeights, bind_ok, throwIf_ok, unit_exists, pure_ok, Prod.mk.injEq] at prepared
    obtain ⟨-, each, counted, weighed, listedWeights, listed, rfl, rfl⟩ := prepared
    obtain ⟨fits, again, mapped, positive, sum⟩ := weightStep_ok (by decide) weighed
    obtain rfl := Except.ok.inj (listed.symm.trans mapped)
    rw [zero_add] at sum
    subst sum
    have length := (mapM_zipIdx listed).1
    have nonneg : ∀ weight ∈ listedWeights, 0 ≤ weight := fun weight member => (positive weight member).le
    obtain ⟨order, given, sameAssigned, perm, all⟩ := assign_given .weightedLpt listedWeights.sum coordinates
      length nonneg fits (Nat.pos_of_ne_zero ranks)
    cases assigned.symm.trans sameAssigned
    simp only [assign, bind_ok, pure_ok, Prod.mk.injEq] at assigned
    obtain ⟨result, given, rfl, rfl⟩ := assigned
    rw [← length] at given
    have loads (rank : ℕ) (inside : rank < rankSpace.size) : result.rankLoads.getD rank 0 =
        tally listedWeights result.linearOwners (List.range patches.boxes.length) rank := by
      rw [all.loads rank inside, tally_perm perm, length]
    refine ⟨fun supply => ?_, loads, fun other each inside => ?_⟩
    · refine patchWeight_supplied supply ?_ listed
      by_contra different
      exact each ⟨supply, different⟩
    · have count : 0 < rankSpace.size := Nat.pos_of_ne_zero ranks
      have machines : (1 : ℚ) ≤ rankSpace.size := by exact_mod_cast count
      have otherNonneg := makespan_nonneg (tally listedWeights other (List.range patches.boxes.length)) rankSpace.size
      have otherCast : (0 : ℚ) ≤
          makespan (tally listedWeights other (List.range patches.boxes.length)) rankSpace.size := by
        exact_mod_cast otherNonneg
      have factor : (4 / 3 - 1 / (3 * rankSpace.size) : ℚ) = (4 * rankSpace.size - 1) / (3 * rankSpace.size) := by
        field_simp
      dsimp only
      rw [factor]
      rcases makespan_eq (fun rank => result.rankLoads.getD rank 0) rankSpace.size with zero | ⟨rank, within, same⟩
      · rw [zero, Int.cast_zero]
        exact mul_nonneg (div_nonneg (by linarith) (by linarith)) otherCast
      · have placed (patch : ℕ) (below : patch < listedWeights.length) : other.getD patch 0 < rankSpace.size := by
          rw [List.getD_eq_getElem _ _ (by omega)]
          exact inside _ (List.getElem_mem _)
        have optimal := lpt_load_le positive fits (by rw [length]) given placed
          (fun rank within => le_makespan _ within) within
        rw [same, loads rank within, div_mul_eq_mul_div, le_div_iff₀ (by linarith), mul_comm]
        rw [length] at optimal
        exact_mod_cast optimal
  · intro bounded accepted
    have low : intMin ≤ (rankSpace.size : ℤ) := by
      unfold intMin
      omega
    obtain ⟨plan, ran, -⟩ := builtin_plan_valid .weightedLpt coordinates ⟨low, bounded⟩ accepted
    exact ⟨plan, ran⟩

/-- Two patches of four and two cells on three ranks. -/
theorem lpt_plan_near_optimal_two :
    ∃ plan, LoadBalanceStrategy.weightedLpt.prepare twoPatches threeRanks ⟨2, 3, 6⟩ [] = .ok plan :=
  (lpt_plan_near_optimal twoPatches (by decide) threeRanks ⟨2, 3, 6⟩ []).2 (by decide) (by decide)

end Pops.LoadBalance
