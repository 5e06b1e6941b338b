import Pops.LoadBalanceProviderProofs
import Pops.Rational

/-!
The sweep along the space-filling curve: a rank is filled until the cumulative
weight reaches its target, unless the patches left are only as many as the ranks
left. From then on every rank gets one patch; before, a rank starts where its
target does.
-/
namespace Pops.LoadBalance

variable {d : ℕ} {weights : List ℤ} {total largest : ℤ} {patchCount activeRankCount : ℕ}

/-- The quotient rounded up. -/
def ceilDiv (total : ℤ) (ranks : ℕ) : ℤ := (total + ranks - 1) / ranks

/-- The terms `load_balance_cumulative_target` computes, in order. -/
def targetTerms (total : ℤ) (partitions rankCount : ℕ) : List ℤ :=
  let ranks : ℤ := rankCount
  let cut : ℤ := partitions
  let quotient := total.tdiv ranks
  let remainder := total.tmod ranks
  let remainderProduct := remainder * cut
  let remainderShare := (remainderProduct + ranks - 1).tdiv ranks
  [ranks, cut, quotient, remainder, remainderProduct, remainderProduct + ranks, remainderProduct + ranks - 1,
    remainderShare, quotient * cut, quotient * cut + remainderShare]

theorem cumulativeTarget_eq {partitions rankCount : ℕ} (low : 0 ≤ total) (some : 0 < rankCount) :
    cumulativeTarget total partitions rankCount = ceilDiv (total * partitions) rankCount := by
  have positive : (0 : ℤ) < rankCount := mod_cast some
  have nonneg := mul_nonneg (Int.emod_nonneg total positive.ne') (Int.natCast_nonneg partitions)
  have divided := Int.emod_add_mul_ediv total rankCount
  rw [cumulativeTarget, ceilDiv, Int.tmod_eq_emod_of_nonneg low, Int.tdiv_eq_ediv_of_nonneg low]
  rw [Int.tdiv_eq_ediv_of_nonneg (by omega)]
  have whole : total * partitions + rankCount - 1 =
      total % rankCount * partitions + rankCount - 1 + total / rankCount * partitions * rankCount := by
    calc total * partitions + rankCount - 1
        = (total % rankCount + rankCount * (total / rankCount)) * partitions + rankCount - 1 := by rw [divided]
      _ = _ := by ring
  rw [whole, Int.add_mul_ediv_right _ _ positive.ne']
  ring

theorem ceilDiv_add_le (first second : ℤ) {ranks : ℕ} (some : 0 < ranks) :
    ceilDiv (first + second) ranks ≤ ceilDiv first ranks + ceilDiv second ranks := by
  have positive : (0 : ℤ) < ranks := mod_cast some
  have left := Int.lt_ediv_add_one_mul_self (first + ranks - 1) positive
  have right := Int.lt_ediv_add_one_mul_self (second + ranks - 1) positive
  unfold ceilDiv
  refine Int.lt_add_one_iff.mp ((Int.ediv_lt_iff_lt_mul positive).mpr ?_)
  linarith

theorem ceilDiv_pos {ranks : ℕ} (some : 0 < ranks) (positive : 0 < total) : 0 < ceilDiv total ranks := by
  have ranksPositive : (0 : ℤ) < ranks := mod_cast some
  rw [ceilDiv, Int.lt_iff_add_one_le, zero_add, Int.le_ediv_iff_mul_le ranksPositive]
  omega

theorem cumulativeTarget_succ_le {partitions rankCount : ℕ} (low : 0 ≤ total) (some : 0 < rankCount) :
    cumulativeTarget total (partitions + 1) rankCount ≤
      cumulativeTarget total partitions rankCount + ceilDiv total rankCount := by
  rw [cumulativeTarget_eq low some, cumulativeTarget_eq low some]
  push_cast
  rw [mul_add, mul_one]
  exact ceilDiv_add_le _ _ some

theorem cumulativeTarget_zero {rankCount : ℕ} (low : 0 ≤ total) (some : 0 < rankCount) :
    cumulativeTarget total 0 rankCount = 0 := by
  have positive : (0 : ℤ) < rankCount := mod_cast some
  rw [cumulativeTarget_eq low some, ceilDiv, Nat.cast_zero, mul_zero, zero_add]
  exact Int.ediv_eq_zero_of_lt (by omega) (by omega)

theorem cumulativeTarget_self {rankCount : ℕ} (low : 0 ≤ total) (some : 0 < rankCount) :
    cumulativeTarget total rankCount rankCount = total := by
  have positive : (0 : ℤ) < rankCount := mod_cast some
  rw [cumulativeTarget_eq low some, ceilDiv, add_sub_assoc, add_comm, Int.add_mul_ediv_right _ _ positive.ne',
    Int.ediv_eq_zero_of_lt (by omega) (by omega), zero_add]

theorem targetTerms_fit {partitions rankCount : ℕ} (low : 0 ≤ total) (high : total ≤ int64Max)
    (some : 0 < rankCount) (bounded : (rankCount : ℤ) ≤ intMax) (cut : partitions ≤ rankCount) :
    ∀ term ∈ targetTerms total partitions rankCount, FitsInt64 term := by
  have positive : (0 : ℤ) < rankCount := mod_cast some
  have within : (partitions : ℤ) ≤ rankCount := mod_cast cut
  have zero := Int.natCast_nonneg partitions
  have nonneg := Int.emod_nonneg total positive.ne'
  have below := Int.emod_lt_of_pos total positive
  have quotientNonneg : 0 ≤ total / rankCount := Int.ediv_nonneg low positive.le
  have quotientSmall : total / rankCount ≤ total := Int.ediv_le_self _ low
  have productNonneg := mul_nonneg nonneg zero
  obtain ⟨product, whole⟩ := cumulativeTarget_fits low some bounded cut
  have share : 0 ≤ (total % rankCount * partitions + rankCount - 1) / rankCount :=
    Int.ediv_nonneg (by omega) positive.le
  have cutNonneg := mul_nonneg quotientNonneg zero
  have numerator : 0 ≤ total % rankCount * partitions + rankCount - 1 := by omega
  rw [cumulativeTarget] at whole
  simp only [Int.tmod_eq_emod_of_nonneg low, Int.tdiv_eq_ediv_of_nonneg low,
    Int.tdiv_eq_ediv_of_nonneg numerator] at product whole
  unfold targetTerms
  simp only [Int.tmod_eq_emod_of_nonneg low, Int.tdiv_eq_ediv_of_nonneg low,
    Int.tdiv_eq_ediv_of_nonneg numerator, List.mem_cons, List.not_mem_nil, or_false]
  unfold FitsInt64 int64Min int64Max intMax at *
  rintro term (rfl | rfl | rfl | rfl | rfl | rfl | rfl | rfl | rfl | rfl) <;> omega

variable {done later : List ℕ} {assignment : Assignment} {state last : CurveState} {patch rank : ℕ}

/-- The rank a patch is given to. -/
def Assignment.ownerOf (assignment : Assignment) (patch : ℕ) : ℕ := assignment.linearOwners.getD patch 0

/-- The weight given to a rank so far. -/
def Assignment.loadOf (assignment : Assignment) (weights : List ℤ) (done : List ℕ) (rank : ℕ) : ℤ :=
  tally weights assignment.linearOwners done rank

theorem give_ok {next : Assignment} {owner : ℕ} (ran : assignment.give weights patch owner = .ok next)
    (known : patch < assignment.linearOwners.length) (fresh : patch ∉ done) :
    next.linearOwners.length = assignment.linearOwners.length ∧ next.ownerOf patch = owner ∧
      (∀ other ∈ done, next.ownerOf other = assignment.ownerOf other) ∧
      ∀ rank, next.loadOf weights (done ++ [patch]) rank =
        assignment.loadOf weights done rank + if owner = rank then weights.getD patch 0 else 0 := by
  simp only [Assignment.give, bind_ok, pure_ok] at ran
  obtain ⟨load, -, rfl⟩ := ran
  have here : (assignment.linearOwners.set patch owner).getD patch 0 = owner := by
    rw [List.getD_eq_getElem?_getD, List.getElem?_set_self known, Option.getD_some]
  refine ⟨List.length_set, here, fun other listed => ?_, fun rank => ?_⟩
  · have apart : patch ≠ other := fun same => fresh (same ▸ listed)
    rw [Assignment.ownerOf, List.getD_eq_getElem?_getD, List.getElem?_set_ne apart, ← List.getD_eq_getElem?_getD,
      Assignment.ownerOf]
  · rw [Assignment.loadOf, tally_append, tally_set fresh, here, Assignment.loadOf]

theorem curveStep_ok {position : ℕ}
    (ran : curveStep weights total patchCount activeRankCount state (patch, position) = .ok last) :
    state.assignment.give weights patch state.owner = .ok last.assignment ∧
      last.cumulative = state.cumulative + weights.getD patch 0 ∧
      ((last.owner = state.owner + 1 ∧ state.owner + 1 < activeRankCount ∧
          patchCount - position - 1 ≥ activeRankCount - state.owner - 1 ∧
          (last.cumulative ≥ cumulativeTarget total (state.owner + 1) activeRankCount ∨
            patchCount - position - 1 = activeRankCount - state.owner - 1)) ∨
        (last.owner = state.owner ∧ ¬ (state.owner + 1 < activeRankCount ∧
          patchCount - position - 1 ≥ activeRankCount - state.owner - 1 ∧
          (last.cumulative ≥ cumulativeTarget total (state.owner + 1) activeRankCount ∨
            patchCount - position - 1 = activeRankCount - state.owner - 1)))) := by
  simp only [curveStep, checkedAddLoad, bind_ok, throwIf_ok, unit_exists, pure_ok] at ran
  obtain ⟨next, given, cumulative, ⟨-, rfl⟩, ran⟩ := ran
  split at ran
  · rename_i advance
    cases ran
    exact ⟨given, rfl, .inl ⟨rfl, advance⟩⟩
  · rename_i stay
    cases ran
    exact ⟨given, rfl, .inr ⟨rfl, stay⟩⟩

/-- The sweep after some patches. The rank that is filled started at its target and has not
reached the next one; or one patch is left for each rank from it on; or it has got the last. -/
structure Sweep (weights : List ℤ) (total largest : ℤ) (patchCount activeRankCount : ℕ) (done : List ℕ)
    (state : CurveState) : Prop where
  owners : state.assignment.linearOwners.length = patchCount
  filling : state.owner < activeRankCount
  room : state.owner + 1 = activeRankCount ∨ activeRankCount + done.length ≤ patchCount + state.owner
  counted : state.cumulative = weightOf weights done
  below : ∀ patch ∈ done, state.assignment.ownerOf patch ≤ state.owner
  ordered : done.Pairwise fun earlier later => state.assignment.ownerOf earlier ≤ state.assignment.ownerOf later
  served : ∀ rank < state.owner, ∃ patch ∈ done, state.assignment.ownerOf patch = rank
  filled : (∃ patch ∈ done, state.assignment.ownerOf patch = state.owner) ∨
    activeRankCount + done.length ≤ patchCount + state.owner
  bounded : ∀ rank < state.owner,
    state.assignment.loadOf weights done rank < ceilDiv total activeRankCount + largest
  current :
    (state.assignment.loadOf weights done state.owner = 0 ∧ activeRankCount + done.length = patchCount + state.owner) ∨
    (cumulativeTarget total state.owner activeRankCount ≤
        state.cumulative - state.assignment.loadOf weights done state.owner ∧
      (state.owner + 1 < activeRankCount → state.assignment.loadOf weights done state.owner = 0 ∨
        state.cumulative < cumulativeTarget total (state.owner + 1) activeRankCount)) ∨
    (done.length = patchCount ∧ state.assignment.loadOf weights done state.owner ≤ largest)

theorem loadOf_eq_zero (assignment : Assignment) {done : List ℕ} {rank : ℕ}
    (none : ∀ patch ∈ done, assignment.ownerOf patch ≠ rank) : assignment.loadOf weights done rank = 0 := by
  have empty : (done.filter fun patch => assignment.linearOwners.getD patch 0 = rank) = [] :=
    List.filter_eq_nil_iff.mpr fun patch listed => by
      rw [decide_eq_true_eq]
      exact none patch listed
  rw [Assignment.loadOf, tally, empty, List.map_nil, List.sum_nil]

theorem Sweep.load_lt (sweep : Sweep weights total largest patchCount activeRankCount done state)
    (positive : 0 < total) (more : done.length < patchCount) (small : weights.getD patch 0 ≤ largest)
    (next : state.owner + 1 < activeRankCount) :
    state.assignment.loadOf weights done state.owner + weights.getD patch 0 <
      ceilDiv total activeRankCount + largest := by
  have active : 0 < activeRankCount := by omega
  have share := ceilDiv_pos active positive
  have apart : cumulativeTarget total (state.owner + 1) _ ≤ _ := cumulativeTarget_succ_le positive.le active
  rcases sweep.current with ⟨zero, -⟩ | ⟨started, short⟩ | ⟨ended, -⟩
  · omega
  · rcases short next with zero | below
    · omega
    · omega
  · omega

/-- One patch keeps the sweep. -/
theorem Sweep.step (sweep : Sweep weights total largest patchCount activeRankCount done state)
    (positive : 0 < total) (known : patch < patchCount) (fresh : patch ∉ done)
    (more : done.length < patchCount) (small : weights.getD patch 0 ≤ largest)
    (ran : curveStep weights total patchCount activeRankCount state (patch, done.length) = .ok last) :
    Sweep weights total largest patchCount activeRankCount (done ++ [patch]) last := by
  obtain ⟨given, cumulative, moved⟩ := curveStep_ok ran
  obtain ⟨same, here, kept, loads⟩ := give_ok given (sweep.owners.symm ▸ known) fresh
  have owners := same.trans sweep.owners
  have filling := sweep.filling
  have length : (done ++ [patch]).length = done.length + 1 := by rw [List.length_append, List.length_singleton]
  have counted : last.cumulative = weightOf weights (done ++ [patch]) := by
    rw [cumulative, weightOf_append, sweep.counted]
  have below : ∀ other ∈ done ++ [patch], last.assignment.ownerOf other ≤ state.owner := by
    intro other listed
    rcases List.mem_append.mp listed with before | now
    · rw [kept other before]
      exact sweep.below other before
    · rw [List.mem_singleton.mp now, here]
  have ordered : (done ++ [patch]).Pairwise fun earlier later =>
      last.assignment.ownerOf earlier ≤ last.assignment.ownerOf later := by
    refine List.pairwise_append.mpr ⟨?_, List.pairwise_singleton _ _, fun earlier before later now => ?_⟩
    · refine sweep.ordered.imp_of_mem fun {earlier later} first second le => ?_
      rwa [kept earlier first, kept later second]
    · rw [List.mem_singleton.mp now, here, kept earlier before]
      exact sweep.below earlier before
  have served : ∀ rank < state.owner, ∃ other ∈ done ++ [patch], last.assignment.ownerOf other = rank := by
    intro rank earlier
    obtain ⟨other, listed, owned⟩ := sweep.served rank earlier
    exact ⟨other, List.mem_append_left _ listed, (kept other listed).trans owned⟩
  have now : ∃ other ∈ done ++ [patch], last.assignment.ownerOf other = state.owner :=
    ⟨patch, List.mem_append_right _ (List.mem_singleton_self _), here⟩
  have bounded : ∀ rank < state.owner,
      last.assignment.loadOf weights (done ++ [patch]) rank < ceilDiv total activeRankCount + largest := by
    intro rank earlier
    rw [loads, if_neg (by omega), add_zero]
    exact sweep.bounded rank earlier
  have load := loads state.owner
  rw [if_pos rfl] at load
  rcases moved with ⟨owner, another, enough, reason⟩ | ⟨owner, stays⟩
  · -- the next rank is fresh: it starts at its target, or one patch is left for each rank
    have zero : last.assignment.loadOf weights (done ++ [patch]) last.owner = 0 :=
      loadOf_eq_zero last.assignment fun other listed => by
        have := below other listed
        omega
    refine ⟨owners, by omega, .inr (by omega), counted,
      fun other listed => (below other listed).trans (by omega), ordered, ?_,
      .inr (by omega), ?_, ?_⟩
    · intro rank earlier
      rcases Nat.lt_or_ge rank state.owner with before | at_
      · exact served rank before
      · obtain rfl : rank = state.owner := by omega
        exact now
    · intro rank earlier
      rcases Nat.lt_or_ge rank state.owner with before | at_
      · exact bounded rank before
      · obtain rfl : rank = state.owner := by omega
        rw [load]
        exact sweep.load_lt positive more small another
    · rcases reason with reached | forced
      · right
        left
        rw [zero, owner, sub_zero]
        exact ⟨reached, fun _ => .inl rfl⟩
      · left
        exact ⟨zero, by omega⟩
  · have room := sweep.room
    refine ⟨owners, by omega, ?_, counted, fun other listed => (below other listed).trans (by omega), ordered,
      fun rank earlier => served rank (by omega), .inl ?_, fun rank earlier => bounded rank (by omega), ?_⟩
    · omega
    · rw [owner]
      exact now
    · rw [owner, load, cumulative]
      rcases sweep.current with ⟨zero, forced⟩ | ⟨started, short⟩ | ⟨ended, -⟩
      · -- one patch was left for each rank, so this is the last rank and its only patch
        right
        right
        rw [zero, zero_add]
        refine ⟨?_, small⟩
        by_contra unfinished
        exact stays ⟨by omega, by omega, .inr (by omega)⟩
      · right
        left
        refine ⟨by linarith, fun another => .inr ?_⟩
        by_contra reached
        rw [← cumulative, not_lt] at reached
        exact stays ⟨another, by omega, .inl reached⟩
      · omega

theorem Sweep.run (sweep : Sweep weights total largest patchCount activeRankCount done state)
    (positive : 0 < total) (all : (done ++ later).Perm (List.range patchCount))
    (small : ∀ patch, weights.getD patch 0 ≤ largest)
    (ran : (later.zipIdx done.length).foldlM (curveStep weights total patchCount activeRankCount) state = .ok last) :
    Sweep weights total largest patchCount activeRankCount (done ++ later) last := by
  induction later generalizing done state with
  | nil =>
    cases ran
    rwa [List.append_nil]
  | cons patch later ih =>
    rw [List.zipIdx_cons, List.foldlM_cons, bind_ok] at ran
    obtain ⟨middle, first, rest⟩ := ran
    have known : patch < patchCount := List.mem_range.mp (all.mem_iff.mp (by simp))
    have fresh : patch ∉ done := fun before =>
      (List.disjoint_of_nodup_append (all.nodup_iff.mpr List.nodup_range)) before List.mem_cons_self
    have more : done.length < patchCount := by
      have length := all.length_eq
      rw [List.length_append, List.length_cons, List.length_range] at length
      omega
    have stepped := sweep.step positive known fresh more (small patch) first
    rw [List.append_cons]
    refine ih stepped (by rwa [← List.append_cons]) ?_
    rw [List.length_append, List.length_singleton]
    exact rest

theorem sweep_start (positive : 0 ≤ total) (some : 0 < activeRankCount) (enough : activeRankCount ≤ patchCount)
    (weights : List ℤ) (largest : ℤ) (rankCount : ℕ) :
    Sweep weights total largest patchCount activeRankCount [] ⟨.none patchCount rankCount, 0, 0⟩ where
  owners := List.length_replicate
  filling := some
  room := .inr (by simpa using enough)
  counted := rfl
  below := by simp
  ordered := .nil
  served := by simp
  filled := .inr (by simpa using enough)
  bounded := by simp
  current := by
    right
    left
    rw [cumulativeTarget_zero positive some]
    exact ⟨le_rfl, fun _ => .inl rfl⟩

/-- What the assignment along the curve promises. -/
structure CurveBalanced (weights : List ℤ) (rankCount : ℕ) (traversal : List ℕ) (assignment : Assignment) : Prop where
  ordered : traversal.Pairwise fun earlier later => assignment.ownerOf earlier ≤ assignment.ownerOf later
  active : ∀ rank, (∃ patch < weights.length, assignment.ownerOf patch = rank) ↔ rank < min weights.length rankCount
  light : ∀ largest, (∀ weight ∈ weights, weight ≤ largest) → ∀ rank < rankCount,
    assignment.loadOf weights (List.range weights.length) rank <
      ceilDiv weights.sum (min weights.length rankCount) + largest

/-- The sweep over a whole traversal balances. -/
theorem curve_balanced {rankCount : ℕ} {traversal : List ℕ} (some : 0 < rankCount)
    (positive : ∀ weight ∈ weights, 0 < weight)
    (patches : weights ≠ []) (all : traversal.Perm (List.range weights.length))
    (ran : traversal.zipIdx.foldlM
      (curveStep weights weights.sum weights.length (min weights.length rankCount))
        ⟨.none weights.length rankCount, 0, 0⟩ = .ok last) :
    CurveBalanced weights rankCount traversal last.assignment := by
  have count : 0 < weights.length := List.length_pos_iff.mpr patches
  have active : 0 < min weights.length rankCount := lt_min count some
  have whole : 0 < weights.sum := List.sum_pos weights positive patches
  have length : traversal.length = weights.length := by rw [all.length_eq, List.length_range]
  have run (largest : ℤ) (small : ∀ weight ∈ weights, weight ≤ largest) :
      Sweep weights weights.sum largest weights.length (min weights.length rankCount) traversal last := by
    refine (sweep_start whole.le active (min_le_left _ _) weights largest rankCount).run whole all ?_ ran
    intro patch
    rw [List.getD_eq_getElem?_getD]
    cases found : weights[patch]? with
    | none =>
      obtain ⟨weight, listed⟩ := List.exists_mem_of_ne_nil weights patches
      exact (positive weight listed).le.trans (small weight listed)
    | some weight => exact small weight (List.mem_of_getElem? found)
  obtain ⟨bound, least⟩ : ∃ bound, ∀ weight ∈ weights, weight ≤ bound :=
    ⟨weights.sum, fun weight listed => List.single_le_sum (fun other known => (positive other known).le) weight listed⟩
  have sweep := run bound least
  -- the last rank is filled at the end
  have ended : last.owner + 1 = min weights.length rankCount := by
    have := sweep.room
    have := sweep.filling
    omega
  have known (patch : ℕ) : patch ∈ traversal ↔ patch < weights.length := by rw [all.mem_iff, List.mem_range]
  refine ⟨sweep.ordered, fun rank => ?_, fun largest small rank inside => ?_⟩
  · constructor
    · rintro ⟨patch, below, rfl⟩
      have := sweep.below patch ((known patch).mpr below)
      omega
    · intro below
      have held : ∃ patch ∈ traversal, last.assignment.ownerOf patch = rank := by
        rcases Nat.lt_or_ge rank last.owner with before | here
        · exact sweep.served rank before
        · obtain rfl : rank = last.owner := by omega
          rcases sweep.filled with held | unfinished
          · exact held
          · omega
      obtain ⟨patch, listed, owned⟩ := held
      exact ⟨patch, (known patch).mp listed, owned⟩
  · have final := run largest small
    have share := ceilDiv_pos active whole
    obtain ⟨weight, listed⟩ := List.exists_mem_of_ne_nil weights patches
    have large : 0 < largest := (positive weight listed).trans_le (small weight listed)
    rw [Assignment.loadOf, ← tally_perm all]
    rcases Nat.lt_trichotomy rank last.owner with before | rfl | after
    · exact final.bounded rank before
    · have total : last.cumulative = weights.sum := by
        rw [final.counted, ← weightOf_range, weightOf, weightOf]
        exact (all.map _).sum_eq
      have apart : cumulativeTarget _ (last.owner + 1) _ ≤ _ := cumulativeTarget_succ_le whole.le active
      rw [ended, cumulativeTarget_self whole.le active] at apart
      rcases final.current with ⟨zero, -⟩ | ⟨started, -⟩ | ⟨-, only⟩
      · change last.assignment.loadOf weights traversal last.owner < _
        omega
      · change last.assignment.loadOf weights traversal last.owner < _
        omega
      · change last.assignment.loadOf weights traversal last.owner < _
        omega
    · have zero : last.assignment.loadOf weights traversal rank = 0 :=
        loadOf_eq_zero last.assignment fun patch listed => by
          have := final.below patch listed
          omega
      change last.assignment.loadOf weights traversal rank < _
      omega

variable {budget : LoadBalancePreparationBudget} {supplied : List ℤ}

theorem weightStep_ok {entries : List (Box d × ℕ)} {counted last : ℤ} (room : counted ≤ int64Max)
    (accepted : entries.foldlM (weightStep budget supplied) counted = .ok last) :
    last ≤ int64Max ∧ ∃ weights, entries.mapM (patchWeight supplied) = .ok weights ∧
      (∀ weight ∈ weights, 0 < weight) ∧ last = counted + weights.sum := by
  induction entries generalizing counted with
  | nil =>
    cases accepted
    exact ⟨room, [], rfl, by simp, by simp⟩
  | cons entry entries ih =>
    rw [List.foldlM_cons, bind_ok] at accepted
    obtain ⟨middle, first, rest⟩ := accepted
    simp only [weightStep, bind_ok, throwIf_ok, unit_exists, pure_ok] at first
    obtain ⟨-, weight, weighed, positive, fits, -, rfl⟩ := first
    obtain ⟨bounded, weights, listed, positives, rfl⟩ := ih (by omega) rest
    refine ⟨bounded, weight :: weights, ?_, ?_, ?_⟩
    · rw [List.mapM_cons, weighed, ok_bind, listed, ok_bind]
      rfl
    · intro other member
      rcases List.mem_cons.mp member with rfl | deeper
      · omega
      · exact positives other deeper
    · rw [List.sum_cons]
      ring

theorem patchWeight_supplied {patches : BoxArray d} (some : supplied ≠ [])
    (each : supplied.length = patches.boxes.length)
    (listed : patches.boxes.zipIdx.mapM (patchWeight supplied) = .ok weights) : weights = supplied := by
  obtain ⟨length, values⟩ := mapM_zipIdx listed
  refine List.ext_getElem (length.trans each.symm) fun patch inWeights inSupplied => ?_
  have inside : patch < patches.boxes.length := by omega
  have value := values (patches.boxes[patch], patch) (List.mem_zipIdx_iff_getElem?.mpr (by simp [inside]))
  have filled : supplied.isEmpty = false := by simpa using some
  rw [patchWeight, filled] at value
  simpa [inWeights, inSupplied] using (Except.ok.inj value).symm

/-- A plan along the curve that was returned gives each patch to one rank, in the order of the curve,
fills exactly the first ranks, and keeps every load below one share and one patch; the terms of its
targets stay inside `int64_t`. Every request the preflight accepts gets such a plan. -/
theorem curve_plan_balanced (patches : BoxArray d) (coordinates : ∀ patch ∈ patches.boxes, patch.Fits)
    (some : patches.boxes ≠ []) (rankSpace : RankSpace d) (budget : LoadBalancePreparationBudget)
    (supplied : List ℤ) :
    (∀ plan, LoadBalanceStrategy.spaceFillingCurve.prepare patches rankSpace budget supplied = .ok plan →
      plan.weights.length = patches.boxes.length ∧ (supplied ≠ [] → plan.weights = supplied) ∧
      plan.linearOwners.length = patches.boxes.length ∧
      plan.traversal.Perm (List.range patches.boxes.length) ∧
      (∀ rank < rankSpace.size, plan.linearRankLoads.getD rank 0 =
        (Assignment.mk plan.linearOwners plan.linearRankLoads).loadOf plan.weights
          (List.range patches.boxes.length) rank) ∧
      CurveBalanced plan.weights rankSpace.size plan.traversal ⟨plan.linearOwners, plan.linearRankLoads⟩ ∧
      ∀ partitions ≤ min patches.boxes.length rankSpace.size,
        ∀ term ∈ targetTerms plan.totalWeight partitions (min patches.boxes.length rankSpace.size), FitsInt64 term) ∧
    ((rankSpace.size : ℤ) ≤ intMax →
      validateRequest patches rankSpace budget supplied rankSpace.size = .ok () →
        ∃ plan, LoadBalanceStrategy.spaceFillingCurve.prepare patches rankSpace budget supplied = .ok plan) := by
  constructor
  · intro plan ran
    simp only [LoadBalanceStrategy.prepare, bind_ok, throwIf_ok, unit_exists, pure_ok] at ran
    obtain ⟨-, ranks, -, bounded, ⟨weights, totalWeight⟩, prepared, ⟨traversal, assignment⟩, assigned, owners, -,
      distribution, -, rfl⟩ := ran
    simp only [prepareWeights, bind_ok, throwIf_ok, unit_exists, pure_ok, Prod.mk.injEq] at prepared
    obtain ⟨-, each, counted, weighed, listedWeights, listed, rfl, rfl⟩ := prepared
    obtain ⟨fits, again, mapped, positive, sum⟩ := weightStep_ok (by decide) weighed
    obtain rfl := Except.ok.inj (listed.symm.trans mapped)
    rw [zero_add] at sum
    subst sum
    have length := (mapM_zipIdx listed).1
    have nonneg : ∀ weight ∈ listedWeights, 0 ≤ weight := fun weight member => (positive weight member).le
    have filled : listedWeights ≠ [] := by
      rintro rfl
      exact some (List.length_eq_zero_iff.mp length.symm)
    obtain ⟨order, given, sameAssigned, perm, all⟩ := assign_given .spaceFillingCurve listedWeights.sum coordinates
      length nonneg fits (Nat.pos_of_ne_zero ranks)
    cases assigned.symm.trans sameAssigned
    rw [assign, bind_ok] at assigned
    obtain ⟨ordered, -, assigned⟩ := assigned
    simp only [bind_ok, pure_ok, Prod.mk.injEq] at assigned
    obtain ⟨last, swept, rfl, rfl⟩ := assigned
    rw [← length] at swept
    have whole : 0 < listedWeights.sum := List.sum_pos listedWeights positive filled
    have count : 0 < listedWeights.length := List.length_pos_iff.mpr filled
    refine ⟨length, fun supply => ?_, all.owners.trans length, length ▸ perm, fun rank inside => ?_,
      curve_balanced (Nat.pos_of_ne_zero ranks) positive filled perm swept, ?_⟩
    · refine patchWeight_supplied supply ?_ listed
      by_contra different
      exact each ⟨supply, different⟩
    · rw [all.loads rank inside, tally_perm perm, length]
      rfl
    · intro partitions cut
      refine targetTerms_fit whole.le fits (lt_min (length ▸ count) (Nat.pos_of_ne_zero ranks)) ?_ cut
      have : min patches.boxes.length rankSpace.size ≤ rankSpace.size := min_le_right _ _
      omega
  · intro bounded accepted
    have low : intMin ≤ (rankSpace.size : ℤ) := by
      unfold intMin
      omega
    obtain ⟨plan, ran, -⟩ := builtin_plan_valid .spaceFillingCurve coordinates ⟨low, bounded⟩ accepted
    exact ⟨plan, ran⟩

/-- A patch without weight is refused. -/
theorem curve_refuses_zero_weight :
    LoadBalanceStrategy.spaceFillingCurve.prepare twoPatches threeRanks ⟨2, 3, 6⟩ [1, 0] =
      .error (.invalidArgument "load-balance weights must be strictly positive") := rfl

/-- Two patches on three ranks, along the curve. -/
theorem curve_plan_balanced_two :
    ∃ plan, LoadBalanceStrategy.spaceFillingCurve.prepare twoPatches threeRanks ⟨2, 3, 6⟩ [] = .ok plan :=
  (curve_plan_balanced twoPatches (by decide) (by decide) threeRanks ⟨2, 3, 6⟩ []).2 (by decide) (by decide)

end Pops.LoadBalance
