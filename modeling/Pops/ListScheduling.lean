import Mathlib.Algebra.Order.BigOperators.Ring.Finset
import Mathlib.Tactic.Linarith

/-!
List scheduling on identical machines: jobs come one by one and each goes to a
machine with the least load. When the jobs come in order of falling weight, no
machine ends above `4/3 - 1/(3m)` of the makespan of any other schedule. The
library is about any jobs and any weights in an ordered ring.
-/
namespace Pops.ListScheduling

variable {ι K : Type*} [DecidableEq ι] [CommRing K] [LinearOrder K] [IsStrictOrderedRing K]
variable (weight : ι → K) (machine : ι → ℕ)

/-- The jobs a schedule puts on a machine. -/
def onMachine (jobs : Finset ι) (index : ℕ) : Finset ι := jobs.filter fun job => machine job = index

/-- The load of a machine. -/
def load (jobs : Finset ι) (index : ℕ) : K := ∑ job ∈ onMachine machine jobs index, weight job

/-- The jobs that have their machine to themselves. -/
def alone (jobs : Finset ι) : Finset ι := jobs.filter fun job => (onMachine machine jobs (machine job)).card = 1

variable {weight machine} {jobs : Finset ι} {count : ℕ}

omit [DecidableEq ι] in
theorem mem_onMachine {job : ι} {index : ℕ} :
    job ∈ onMachine machine jobs index ↔ job ∈ jobs ∧ machine job = index := Finset.mem_filter

omit [DecidableEq ι] [LinearOrder K] [IsStrictOrderedRing K] in
theorem sum_load (inside : ∀ job ∈ jobs, machine job < count) :
    ∑ index ∈ Finset.range count, load weight machine jobs index = ∑ job ∈ jobs, weight job :=
  Finset.sum_fiberwise_of_maps_to (fun job listed => Finset.mem_range.mpr (inside job listed)) weight

omit [DecidableEq ι] in
theorem sum_card (inside : ∀ job ∈ jobs, machine job < count) :
    ∑ index ∈ Finset.range count, (onMachine machine jobs index).card = jobs.card :=
  (Finset.card_eq_sum_card_fiberwise fun job listed => Finset.mem_coe.mpr
    (Finset.mem_range.mpr (inside job listed))).symm

omit [DecidableEq ι] in
theorem sum_alone (inside : ∀ job ∈ jobs, machine job < count) :
    ∑ index ∈ Finset.range count, (if (onMachine machine jobs index).card = 1 then 1 else 0) =
      (alone machine jobs).card := by
  have known : ∀ job ∈ alone machine jobs, machine job < count := fun job listed =>
    inside job (Finset.mem_filter.mp listed).1
  rw [← sum_card known]
  refine Finset.sum_congr rfl fun index _ => ?_
  have split : onMachine machine (alone machine jobs) index =
      if (onMachine machine jobs index).card = 1 then onMachine machine jobs index else ∅ := by
    ext job
    rw [mem_onMachine, alone, Finset.mem_filter]
    split
    · rename_i one
      rw [mem_onMachine]
      constructor
      · rintro ⟨⟨listed, -⟩, here⟩
        exact ⟨listed, here⟩
      · rintro ⟨listed, here⟩
        exact ⟨⟨listed, by rw [here, one]⟩, here⟩
    · rename_i more
      simp only [Finset.notMem_empty, iff_false, not_and]
      rintro ⟨-, one⟩ rfl
      exact more one
  rw [split]
  split
  · rename_i one
    exact one.symm
  · rfl

omit [DecidableEq ι] in
theorem le_card_alone (inside : ∀ job ∈ jobs, machine job < count)
    (busy : ∀ index < count, 1 ≤ (onMachine machine jobs index).card) :
    2 * count ≤ jobs.card + (alone machine jobs).card := by
  rw [← sum_card inside, ← sum_alone inside, ← Finset.sum_add_distrib]
  calc 2 * count = ∑ _index ∈ Finset.range count, 2 := by
        rw [Finset.sum_const, Finset.card_range, nsmul_eq_mul, Nat.cast_id, mul_comm]
    _ ≤ _ := Finset.sum_le_sum fun index listed => by
      have := busy index (Finset.mem_range.mp listed)
      split <;> omega

omit [DecidableEq ι] in
theorem card_alone_le (inside : ∀ job ∈ jobs, machine job < count)
    (pairs : ∀ index < count, (onMachine machine jobs index).card ≤ 2) :
    jobs.card + (alone machine jobs).card ≤ 2 * count := by
  rw [← sum_card inside, ← sum_alone inside, ← Finset.sum_add_distrib]
  calc _ ≤ ∑ _index ∈ Finset.range count, 2 := Finset.sum_le_sum fun index listed => by
        have := pairs index (Finset.mem_range.mp listed)
        split <;> omega
    _ = 2 * count := by rw [Finset.sum_const, Finset.card_range, nsmul_eq_mul, Nat.cast_id, mul_comm]

variable {bound : K}

omit [DecidableEq ι] in
theorem weight_le_load (nonneg : ∀ job ∈ jobs, 0 ≤ weight job) {job : ι} (listed : job ∈ jobs) :
    weight job ≤ load weight machine jobs (machine job) :=
  Finset.single_le_sum (fun other known => nonneg other (mem_onMachine.mp known).1) (mem_onMachine.mpr ⟨listed, rfl⟩)

theorem pair_le_load (nonneg : ∀ job ∈ jobs, 0 ≤ weight job) {first second : ι} (firstListed : first ∈ jobs)
    (secondListed : second ∈ jobs) (different : first ≠ second) (shared : machine second = machine first) :
    weight first + weight second ≤ load weight machine jobs (machine first) := by
  rw [← Finset.sum_pair different]
  refine Finset.sum_le_sum_of_subset_of_nonneg (fun job known => ?_)
    fun job known _ => nonneg job (mem_onMachine.mp known).1
  rcases Finset.mem_insert.mp known with rfl | last
  · exact mem_onMachine.mpr ⟨firstListed, rfl⟩
  · rw [Finset.mem_singleton.mp last]
    exact mem_onMachine.mpr ⟨secondListed, shared⟩

omit [DecidableEq ι] in
theorem card_onMachine_le_two {least : K} (heavy : ∀ job ∈ jobs, least ≤ weight job) (third : bound < 3 * least)
    (nonneg : 0 ≤ least) {index : ℕ} (below : load weight machine jobs index ≤ bound) :
    (onMachine machine jobs index).card ≤ 2 := by
  by_contra more
  have three : 3 ≤ (onMachine machine jobs index).card := by omega
  have work : (onMachine machine jobs index).card • least ≤ load weight machine jobs index :=
    Finset.card_nsmul_le_sum _ _ _ fun job known => heavy job (mem_onMachine.mp known).1
  have cast : (3 : K) ≤ ((onMachine machine jobs index).card : K) := by exact_mod_cast three
  rw [nsmul_eq_mul] at work
  have product := mul_le_mul_of_nonneg_right cast nonneg
  linarith

variable {other : ι → ℕ} {last : ι}

theorem least_load_le (inside : ∀ job ∈ jobs, machine job < count) (fresh : last ∉ jobs)
    (least : ∀ index < count, load weight machine jobs (machine last) ≤ load weight machine jobs index)
    (otherInside : ∀ job ∈ insert last jobs, other job < count)
    (below : ∀ index < count, load weight other (insert last jobs) index ≤ bound) :
    count * load weight machine jobs (machine last) + weight last ≤ count * bound := by
  have average : count * load weight machine jobs (machine last) ≤ ∑ job ∈ jobs, weight job := by
    rw [← sum_load inside, ← nsmul_eq_mul, ← Finset.card_range count, ← Finset.sum_const, Finset.card_range]
    exact Finset.sum_le_sum fun index listed => least index (Finset.mem_range.mp listed)
  have work : ∑ job ∈ insert last jobs, weight job ≤ count * bound := by
    rw [← sum_load otherInside, ← nsmul_eq_mul, ← Finset.card_range count, ← Finset.sum_const, Finset.card_range]
    exact Finset.sum_le_sum fun index listed => below index (Finset.mem_range.mp listed)
  rw [Finset.sum_insert fresh] at work
  linarith

/-- With every machine busy and every job heavier than a third of the bound, some job at least
as heavy as the least load shares its machine in the other schedule. -/
theorem least_load_add_le (inside : ∀ job ∈ jobs, machine job < count) (fresh : last ∉ jobs)
    (least : ∀ index < count, load weight machine jobs (machine last) ≤ load weight machine jobs index)
    (here : machine last < count) (busy : 0 < load weight machine jobs (machine last))
    (positive : 0 < weight last) (lightest : ∀ job ∈ jobs, weight last ≤ weight job)
    (otherInside : ∀ job ∈ insert last jobs, other job < count)
    (below : ∀ index < count, load weight other (insert last jobs) index ≤ bound)
    (third : bound < 3 * weight last) :
    load weight machine jobs (machine last) + weight last ≤ bound := by
  have heavy : ∀ job ∈ insert last jobs, weight last ≤ weight job := by
    intro job listed
    rcases Finset.mem_insert.mp listed with rfl | early
    · exact le_rfl
    · exact lightest job early
  have nonneg : ∀ job ∈ insert last jobs, 0 ≤ weight job := fun job listed => positive.le.trans (heavy job listed)
  have occupied : ∀ index < count, 1 ≤ (onMachine machine jobs index).card := by
    intro index within
    by_contra none
    have empty : onMachine machine jobs index = ∅ := Finset.card_eq_zero.mp (by omega)
    have zero : load weight machine jobs index = 0 := by rw [load, empty, Finset.sum_empty]
    exact absurd (least index within) (not_le.mpr (zero.symm ▸ busy))
  have many := le_card_alone inside occupied
  have few := card_alone_le otherInside fun index within =>
    card_onMachine_le_two heavy third positive.le (below index within)
  rw [Finset.card_insert_of_notMem fresh] at few
  -- fewer jobs are alone in the other schedule than were alone here
  obtain ⟨single, singleHere, shared⟩ : ∃ job ∈ alone machine jobs, job ∉ alone other (insert last jobs) := by
    apply Finset.exists_mem_notMem_of_card_lt_card
    omega
  obtain ⟨listed, only⟩ := Finset.mem_filter.mp singleHere
  have known : single ∈ insert last jobs := Finset.mem_insert_of_mem listed
  have filled : single ∈ onMachine other (insert last jobs) (other single) := mem_onMachine.mpr ⟨known, rfl⟩
  have two : 1 < (onMachine other (insert last jobs) (other single)).card := by
    have some := Finset.card_pos.mpr ⟨single, filled⟩
    have more : (onMachine other (insert last jobs) (other single)).card ≠ 1 := fun one =>
      shared (Finset.mem_filter.mpr ⟨known, one⟩)
    omega
  obtain ⟨partner, partnerHere, different⟩ := Finset.exists_mem_ne two single
  obtain ⟨partnerListed, together⟩ := mem_onMachine.mp partnerHere
  have pair : _ ≤ load weight other _ _ := pair_le_load nonneg known partnerListed different.symm together
  have alone_ : load weight machine jobs (machine single) = weight single := by
    obtain ⟨job, same⟩ := Finset.card_eq_one.mp only
    have member : single ∈ onMachine machine jobs (machine single) := mem_onMachine.mpr ⟨listed, rfl⟩
    rw [same, Finset.mem_singleton] at member
    rw [load, same, Finset.sum_singleton, member]
  calc load weight machine jobs (machine last) + weight last
      ≤ load weight machine jobs (machine single) + weight partner :=
        add_le_add (least _ (inside single listed)) (heavy partner partnerListed)
    _ = weight single + weight partner := by rw [alone_]
    _ ≤ bound := pair.trans (below _ (otherInside single known))

theorem last_load_le (inside : ∀ job ∈ jobs, machine job < count) (fresh : last ∉ jobs)
    (least : ∀ index < count, load weight machine jobs (machine last) ≤ load weight machine jobs index)
    (here : machine last < count) (positive : 0 < weight last) (lightest : ∀ job ∈ jobs, weight last ≤ weight job)
    (otherInside : ∀ job ∈ insert last jobs, other job < count)
    (below : ∀ index < count, load weight other (insert last jobs) index ≤ bound) :
    3 * count * (load weight machine jobs (machine last) + weight last) ≤ (4 * count - 1) * bound := by
  have machines : (1 : K) ≤ count := by exact_mod_cast Nat.one_le_of_lt here
  have nonneg : ∀ job ∈ insert last jobs, 0 ≤ weight job := by
    intro job listed
    rcases Finset.mem_insert.mp listed with rfl | early
    · exact positive.le
    · exact positive.le.trans (lightest job early)
  have single : weight last ≤ bound :=
    (weight_le_load nonneg (Finset.mem_insert_self last jobs)).trans
      (below _ (otherInside last (Finset.mem_insert_self last jobs)))
  rcases le_or_gt (3 * weight last) bound with light | third
  · have average := least_load_le inside fresh least otherInside below
    have slack := mul_nonneg (sub_nonneg.mpr machines) (sub_nonneg.mpr light)
    linarith
  · have within : load weight machine jobs (machine last) + weight last ≤ bound := by
      have loadNonneg : 0 ≤ load weight machine jobs (machine last) :=
        Finset.sum_nonneg fun job known => nonneg job (Finset.mem_insert_of_mem (mem_onMachine.mp known).1)
      rcases loadNonneg.eq_or_lt with idle | busy
      · rwa [← idle, zero_add]
      · exact least_load_add_le inside fresh least here busy positive lightest otherInside below third
    have scaled := mul_le_mul_of_nonneg_left within (show (0 : K) ≤ 3 * count by linarith)
    have slack := mul_nonneg (sub_nonneg.mpr machines) (positive.le.trans single)
    linarith

/-- Each job of the list went to a machine with the least load at its turn. -/
def Greedy (weight : ι → K) (machine : ι → ℕ) (count : ℕ) (listed : List ι) : Prop :=
  ∀ before job after, listed = before ++ job :: after → machine job < count ∧
    ∀ index < count, load weight machine before.toFinset (machine job) ≤ load weight machine before.toFinset index

theorem Greedy.load_le {listed : List ι} (greedy : Greedy weight machine count listed)
    (distinct : listed.Nodup) (sorted : listed.Pairwise fun earlier later => weight later ≤ weight earlier)
    (positive : ∀ job ∈ listed, 0 < weight job) (otherInside : ∀ job ∈ listed, other job < count)
    (below : ∀ index < count, load weight other listed.toFinset index ≤ bound) {index : ℕ} (within : index < count) :
    3 * count * load weight machine listed.toFinset index ≤ (4 * count - 1) * bound := by
  have machines : (1 : K) ≤ count := by exact_mod_cast Nat.one_le_of_lt within
  induction listed using List.reverseRecOn with
  | nil =>
    have zero : load weight machine ([] : List ι).toFinset index = 0 := Finset.sum_empty
    have boundNonneg : 0 ≤ bound := by
      have none : load weight other ([] : List ι).toFinset index = 0 := Finset.sum_empty
      exact none ▸ below index within
    rw [zero, mul_zero]
    exact mul_nonneg (by linarith) boundNonneg
  | append_singleton before last ih =>
    obtain ⟨here, least⟩ := greedy before last [] (by simp)
    obtain ⟨beforeDistinct, -, apart⟩ := List.nodup_append.mp distinct
    have fresh : last ∉ before.toFinset := fun again =>
      apart last (List.mem_toFinset.mp again) last (List.mem_singleton_self last) rfl
    have whole : (before ++ [last]).toFinset = insert last before.toFinset := by
      ext job
      simp
    have lightest : ∀ job ∈ before.toFinset, weight last ≤ weight job := fun job early =>
      (List.pairwise_append.mp sorted).2.2 job (List.mem_toFinset.mp early) last (List.mem_singleton_self last)
    have inside : ∀ job ∈ before.toFinset, machine job < count := by
      intro job early
      obtain ⟨front, back, split⟩ := List.append_of_mem (List.mem_toFinset.mp early)
      exact (greedy front job (back ++ [last]) (by rw [split]; simp)).1
    rw [whole] at below ⊢
    have otherWhole : ∀ job ∈ insert last before.toFinset, other job < count := fun job known =>
      otherInside job (List.mem_toFinset.mp (whole ▸ known))
    by_cases same : machine last = index
    · subst same
      have split : load weight machine (insert last before.toFinset) (machine last) =
          load weight machine before.toFinset (machine last) + weight last := by
        rw [load, onMachine, Finset.filter_insert, if_pos rfl, Finset.sum_insert, add_comm]
        · rfl
        · exact fun again => fresh (Finset.mem_filter.mp again).1
      rw [split]
      exact last_load_le inside fresh least here (positive last (by simp)) lightest otherWhole below
    · have split : load weight machine (insert last before.toFinset) index =
          load weight machine before.toFinset index := by
        rw [load, onMachine, Finset.filter_insert, if_neg same]
        rfl
      rw [split]
      refine ih ?_ beforeDistinct (List.pairwise_append.mp sorted).1 (fun job known => positive job (by simp [known]))
        (fun job known => otherInside job (by simp [known])) fun machineIndex machineWithin => ?_
      · intro front job back shape
        exact greedy front job (back ++ [last]) (by rw [shape]; simp)
      · refine le_trans (Finset.sum_le_sum_of_subset_of_nonneg ?_ ?_) (below machineIndex machineWithin)
        · exact Finset.filter_subset_filter _ (Finset.subset_insert _ _)
        · intro job known _
          exact (positive job (List.mem_toFinset.mp (whole ▸ (mem_onMachine.mp known).1))).le

end Pops.ListScheduling
