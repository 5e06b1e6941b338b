import Pops.EveryDtSchedule

/-!
No occurrence is skipped or published twice, as long as no lattice time is still ahead of an
accepted time whose rounded quotient has reached it, and the lattice times are told apart.
-/
namespace Pops.EveryDtSchedule
open Rounding

variable {trigger : EveryDt} {now later : ℚ}

/-- The index the trigger takes a time for. -/
def index (trigger : EveryDt) (now : ℚ) : ℤ := nearest (quotient trigger now)

/-- The time is at or just above its lattice point. -/
def Landed (trigger : EveryDt) (now : ℚ) : Prop :=
  1 ≤ index trigger now ∧ everyDtLatticeTime trigger (index trigger now) ≤ now ∧
    samePhysicalTime now (everyDtLatticeTime trigger (index trigger now)) = true

/-- No lattice time is ahead of a time whose quotient has reached its index, unless it is the
same binary64 number as the next one. -/
def Passed (trigger : EveryDt) (now : ℚ) : Prop :=
  ∀ k : ℤ, 1 ≤ k → (k : ℚ) ≤ quotient trigger now → now < everyDtLatticeTime trigger k →
    everyDtLatticeTime trigger k = everyDtLatticeTime trigger (⌊quotient trigger now⌋ + 1)

/-- The lattice times after `now`. -/
def Upcoming (trigger : EveryDt) (now : ℚ) : Set ℚ :=
  {time | ∃ k : ℤ, 1 ≤ k ∧ time = everyDtLatticeTime trigger k ∧ now < time}

theorem decimal_pos (trigger : EveryDt) : 0 < trigger.decimal := by
  by_contra negative
  have rounded := binary64_mono (not_lt.mp negative)
  rw [binary64_zero, trigger.spelled] at rounded
  exact absurd trigger.positive (not_lt.mpr rounded)

theorem latticeTime_mono (trigger : EveryDt) : Monotone (everyDtLatticeTime trigger) := by
  intro left right below
  refine binary64_mono (mul_le_mul_of_nonneg_left ?_ (decimal_pos trigger).le)
  exact mod_cast below

theorem latticeTime_nonneg (trigger : EveryDt) {k : ℤ} (nonneg : 0 ≤ k) : 0 ≤ everyDtLatticeTime trigger k := by
  have exact : 0 ≤ trigger.decimal * k := mul_nonneg (decimal_pos trigger).le (mod_cast nonneg)
  have rounded := binary64_mono exact
  rwa [binary64_zero] at rounded

theorem quotient_mono (trigger : EveryDt) : Monotone (quotient trigger) := fun _ _ below =>
  binary64_mono (div_le_div_of_nonneg_right below trigger.positive.le)

theorem index_mono (trigger : EveryDt) : Monotone (index trigger) := nearest_mono.comp (quotient_mono trigger)

theorem everyDtQuotient_ok {answer : ℚ} (done : everyDtQuotient trigger now = .ok answer) : answer = quotient trigger now := by
  unfold everyDtQuotient at done
  split at done
  · injection done with same
    exact same.symm
  · cases done

theorem checked_ok {candidate deadline : ℚ}
    (done : (if isFinite candidate then if now < candidate then .ok candidate else .error .belowResolution
      else .error .deadlineNotFinite : Except ScheduleError ℚ) = .ok deadline) :
    now < deadline ∧ deadline = candidate := by
  split at done
  · split at done
    · rename_i above
      injection done with same
      exact ⟨same ▸ above, same.symm⟩
    · cases done
  · cases done

variable {deadline : ℚ} {before after : Publications}

theorem deadline_ok (done : consumerNextDeadline trigger now = .ok deadline) :
    now < deadline ∧
      (Landed trigger now ∧ deadline = everyDtLatticeTime trigger (index trigger now + 1) ∨
        ¬Landed trigger now ∧ deadline = everyDtLatticeTime trigger (max 1 (⌊quotient trigger now⌋ + 1))) := by
  unfold consumerNextDeadline at done
  cases known : everyDtQuotient trigger now with
  | error error =>
    rw [known] at done
    cases done
  | ok answer =>
    obtain rfl := everyDtQuotient_ok known
    rw [known] at done
    simp only [Bind.bind, Except.bind, Bool.and_eq_true, decide_eq_true_eq, and_assoc] at done
    split at done
    · rename_i landed
      obtain ⟨above, same⟩ := checked_ok done
      exact ⟨above, .inl ⟨landed, same⟩⟩
    · rename_i between
      obtain ⟨above, same⟩ := checked_ok done
      exact ⟨above, .inr ⟨between, same⟩⟩

theorem Landed.finite (landed : Landed trigger now) (finite : isFinite now = true) :
    isFinite (everyDtLatticeTime trigger (index trigger now)) = true := by
  obtain ⟨first, reached, -⟩ := landed
  have nonneg : 0 ≤ everyDtLatticeTime trigger (index trigger now) := latticeTime_nonneg trigger (by omega)
  simp only [isFinite, decide_eq_true_eq] at finite ⊢
  rw [abs_of_nonneg nonneg]
  exact (reached.trans (le_abs_self now)).trans_lt finite

theorem evidence_ok {evidence : Option ℤ} (finite : isFinite now = true)
    (done : consumerOccurrenceEvidence trigger now = .ok evidence) :
    Landed trigger now ∧ evidence = some (index trigger now) ∨ ¬Landed trigger now ∧ evidence = none := by
  unfold consumerOccurrenceEvidence at done
  cases known : everyDtQuotient trigger now with
  | error error =>
    rw [known] at done
    cases done
  | ok answer =>
    obtain rfl := everyDtQuotient_ok known
    rw [known] at done
    simp only [Bind.bind, Except.bind, Bool.and_eq_true, decide_eq_true_eq, and_assoc] at done
    split at done
    · rename_i small
      injection done with same
      exact .inr ⟨fun landed => absurd landed.1 (not_le.mpr small), same.symm⟩
    · rename_i large
      split at done
      · rename_i landed
        injection done with same
        exact .inl ⟨⟨not_lt.mp large, landed.2⟩, same.symm⟩
      · rename_i between
        injection done with same
        refine .inr ⟨fun landed => between ⟨?_, landed.2⟩, same.symm⟩
        exact landed.finite finite

theorem due_ok {due : Bool} (finite : isFinite now = true) (done : consumerDue trigger false now = .ok due) :
    due = true ↔ Landed trigger now := by
  unfold consumerDue at done
  cases known : everyDtQuotient trigger now with
  | error error =>
    rw [known] at done
    cases done
  | ok answer =>
    obtain rfl := everyDtQuotient_ok known
    rw [known] at done
    simp only [Bind.bind, Except.bind, Bool.false_eq_true, if_false] at done
    split at done
    · rename_i small
      injection done with same
      subst same
      exact ⟨fun impossible => absurd impossible Bool.false_ne_true, fun landed => absurd landed.1 (not_le.mpr small)⟩
    · rename_i large
      injection done with same
      subst same
      rw [Bool.and_eq_true, Bool.and_eq_true, decide_eq_true_eq]
      constructor
      · rintro ⟨⟨-, reached⟩, close⟩
        exact ⟨not_lt.mp large, reached, close⟩
      · intro landed
        exact ⟨⟨landed.finite finite, landed.2.1⟩, landed.2.2⟩

/-- What an accepted time publishes. -/
theorem fire_ok (finite : isFinite now = true) (done : fireConsumers trigger false now before = .ok after) :
    (¬Landed trigger now ∨ before.lastOccurrence = some (index trigger now)) ∧ after = before ∨
      Landed trigger now ∧ before.lastOccurrence ≠ some (index trigger now) ∧
        after =
          { lastOccurrence := some (index trigger now),
            published := before.published ++ [(index trigger now, now)] } := by
  unfold fireConsumers at done
  cases known : consumerDue trigger false now with
  | error error =>
    rw [known] at done
    cases done
  | ok due =>
    have landing := due_ok finite known
    rw [known] at done
    simp only [Bind.bind, Except.bind] at done
    split at done
    · rename_i isDue
      cases evident : consumerOccurrenceEvidence trigger now with
      | error error =>
        rw [evident] at done
        cases done
      | ok evidence =>
        rw [evident] at done
        obtain ⟨landed, rfl⟩ | ⟨between, -⟩ := evidence_ok finite evident
        · simp only at done
          split at done
          · rename_i repeated
            injection done with same
            exact .inl ⟨.inr repeated, same.symm⟩
          · rename_i fresh
            injection done with same
            exact .inr ⟨landed, fresh, same.symm⟩
        · exact absurd (landing.mp isDue) between
    · rename_i notDue
      injection done with same
      exact .inl ⟨.inl (fun landed => notDue (landing.mpr landed)), same.symm⟩

theorem deadline_least (done : consumerNextDeadline trigger now = .ok deadline)
    (passed : Passed trigger now) : IsLeast (Upcoming trigger now) deadline := by
  obtain ⟨above, ⟨landed, rfl⟩ | ⟨between, rfl⟩⟩ := deadline_ok done
  · refine ⟨⟨_, by have := landed.1; omega, rfl, above⟩, ?_⟩
    rintro time ⟨k, -, rfl, ahead⟩
    have beyond : index trigger now < k := by
      by_contra behind
      exact absurd (latticeTime_mono trigger (not_lt.mp behind)) (not_le.mpr (landed.2.1.trans_lt ahead))
    exact latticeTime_mono trigger beyond
  · refine ⟨⟨_, le_max_left .., rfl, above⟩, ?_⟩
    rintro time ⟨k, first, rfl, ahead⟩
    rcases le_or_gt (max 1 (⌊quotient trigger now⌋ + 1)) k with beyond | behind
    · exact latticeTime_mono trigger beyond
    · have reached : k ≤ ⌊quotient trigger now⌋ := by omega
      have same := passed k first (Int.le_floor.mp reached) ahead
      rw [max_eq_right (by omega), same]

theorem passed_of_least (done : consumerNextDeadline trigger now = .ok deadline) (between : ¬Landed trigger now)
    (least : IsLeast (Upcoming trigger now) deadline) : Passed trigger now := by
  obtain ⟨-, ⟨landed, -⟩ | ⟨-, rfl⟩⟩ := deadline_ok done
  · exact absurd landed between
  · intro k first reached ahead
    have below : k ≤ ⌊quotient trigger now⌋ := Int.le_floor.mpr reached
    rw [max_eq_right (by omega)] at least
    exact le_antisymm (latticeTime_mono trigger (by omega)) (least.2 ⟨k, first, rfl, ahead⟩)

/-- Binary64 times after `now`, none past the deadline of the one before. -/
def Paced (trigger : EveryDt) : ℚ → List ℚ → Prop
  | _, [] => True
  | now, later :: times =>
    now < later ∧ IsBinary64 later ∧ (∃ deadline, consumerNextDeadline trigger now = .ok deadline ∧ later ≤ deadline) ∧
      Paced trigger later times

/-- The lattice times are told apart: dividing one of the run by the interval gives its index. -/
def Recognised (trigger : EveryDt) (start last : ℚ) : Prop :=
  ∀ k : ℤ, 1 ≤ k → start < everyDtLatticeTime trigger k → everyDtLatticeTime trigger k ≤ last →
    index trigger (everyDtLatticeTime trigger k) = k

theorem paced_le {times : List ℚ} (paced : Paced trigger now times) :
    now ≤ (now :: times).getLast (List.cons_ne_nil _ _) := by
  induction times generalizing now with
  | nil => exact le_rfl
  | cons later times ih =>
    rw [List.getLast_cons (List.cons_ne_nil _ _)]
    exact paced.1.le.trans (ih paced.2.2.2)

theorem samePhysicalTime_refl (time : ℚ) : samePhysicalTime time time = true := by
  have spacing := ulp_pos time
  simp only [samePhysicalTime, sub_self, abs_zero, binary64_zero, max_self, decide_eq_true_eq]
  positivity

/-- Every lattice time after the start up to the last is published, with its index, and no
index is published twice. -/
structure EveryOnce (trigger : EveryDt) (start last : ℚ) (published : List (ℤ × ℚ)) : Prop where
  every : ∀ k : ℤ, 1 ≤ k → start < everyDtLatticeTime trigger k → everyDtLatticeTime trigger k ≤ last →
    (k, everyDtLatticeTime trigger k) ∈ published
  once : (published.map Prod.fst).Nodup

/-- What holds of the publications at an accepted time. -/
structure Inv (trigger : EveryDt) (start now : ℚ) (publications : Publications) : Prop where
  every : ∀ k : ℤ, 1 ≤ k → start < everyDtLatticeTime trigger k → everyDtLatticeTime trigger k ≤ now →
    (k, everyDtLatticeTime trigger k) ∈ publications.published
  once : (publications.published.map Prod.fst).Nodup
  ordered : ∀ k ∈ publications.published.map Prod.fst, ∃ last, publications.lastOccurrence = some last ∧ k ≤ last
  behind : ∀ last, publications.lastOccurrence = some last →
    last ≤ index trigger now ∧ everyDtLatticeTime trigger last ≤ now

/-- One accepted time. -/
theorem fire_inv {start deadline : ℚ} (inv : Inv trigger start now before) (increasing : now < later)
    (finite : isFinite later = true) (paced : later ≤ deadline) (least : IsLeast (Upcoming trigger now) deadline)
    (recognised : Recognised trigger start later)
    (done : fireConsumers trigger false later before = .ok after) : Inv trigger start later after := by
  have kept : ∀ last, before.lastOccurrence = some last →
      last ≤ index trigger later ∧ everyDtLatticeTime trigger last ≤ later := fun last known => by
    obtain ⟨low, passed⟩ := inv.behind last known
    exact ⟨low.trans (index_mono trigger increasing.le), passed.trans increasing.le⟩
  -- a lattice time of this step is its end
  have arrived : ∀ k : ℤ, 1 ≤ k → start < everyDtLatticeTime trigger k → everyDtLatticeTime trigger k ≤ later →
      now < everyDtLatticeTime trigger k → everyDtLatticeTime trigger k = later ∧ index trigger later = k := by
    intro k first after reached ahead
    have same : everyDtLatticeTime trigger k = later :=
      le_antisymm reached (paced.trans (least.2 ⟨k, first, rfl, ahead⟩))
    exact ⟨same, same ▸ recognised k first after reached⟩
  have old : ∀ k : ℤ, 1 ≤ k → start < everyDtLatticeTime trigger k → everyDtLatticeTime trigger k ≤ later →
      everyDtLatticeTime trigger k ≠ later → (k, everyDtLatticeTime trigger k) ∈ before.published := by
    intro k first after reached other
    refine inv.every k first after (not_lt.mp fun ahead => ?_)
    exact other (arrived k first after reached ahead).1
  obtain ⟨quiet, rfl⟩ | ⟨landed, fresh, rfl⟩ := fire_ok finite done
  · refine ⟨fun k first after reached => ?_, inv.once, inv.ordered, kept⟩
    by_contra missed
    have ahead : now < everyDtLatticeTime trigger k := by
      by_contra passed
      exact missed (inv.every k first after (not_lt.mp passed))
    obtain ⟨same, number⟩ := arrived k first after reached ahead
    rcases quiet with between | repeated
    · refine between ⟨by omega, by rw [number]; exact reached, ?_⟩
      rw [number, same]
      exact samePhysicalTime_refl later
    · -- what was published last has passed before this step
      rw [number] at repeated
      exact absurd (inv.behind k repeated).2 (not_le.mpr ahead)
  · have greater : ∀ k ∈ before.published.map Prod.fst, k < index trigger later := by
      intro k member
      obtain ⟨last, known, below⟩ := inv.ordered k member
      have different : last ≠ index trigger later := fun same => fresh (same ▸ known)
      have low := (kept last known).1
      omega
    refine ⟨fun k first after reached => ?_, ?_, ?_, ?_⟩
    · rcases lt_or_ge now (everyDtLatticeTime trigger k) with ahead | passed
      · obtain ⟨same, number⟩ := arrived k first after reached ahead
        rw [same, number]
        exact List.mem_append_right _ (List.mem_singleton_self _)
      · exact List.mem_append_left _ (inv.every k first after passed)
    · rw [List.map_append]
      refine List.Nodup.append inv.once (List.nodup_singleton _) ?_
      intro k member new
      rw [List.map_singleton, List.mem_singleton] at new
      exact absurd (greater k member) (by omega)
    · intro k member
      refine ⟨_, rfl, ?_⟩
      rw [List.map_append, List.mem_append] at member
      rcases member with earlier | new
      · exact (greater k earlier).le
      · rw [List.map_singleton, List.mem_singleton] at new
        exact new.le
    · intro last known
      injection known with same
      subst same
      exact ⟨le_rfl, landed.2.1⟩

theorem acceptAll_inv {start : ℚ} {times : List ℚ} (inv : Inv trigger start now before)
    (paced : Paced trigger now times) (passed : ∀ time ∈ (now :: times).dropLast, Passed trigger time)
    (recognised : Recognised trigger start ((now :: times).getLast (List.cons_ne_nil _ _)))
    (done : acceptAll trigger before times = .ok after) :
    Inv trigger start ((now :: times).getLast (List.cons_ne_nil _ _)) after := by
  induction times generalizing now before with
  | nil =>
    injection done with same
    exact same ▸ inv
  | cons later times ih =>
    obtain ⟨increasing, finite, ⟨deadline, next, below⟩, rest⟩ := paced
    rw [List.getLast_cons (List.cons_ne_nil _ _)] at recognised ⊢
    rw [List.dropLast_cons_cons] at passed
    simp only [acceptAll, Bind.bind, Except.bind] at done
    cases fired : fireConsumers trigger false later before with
    | error error =>
      rw [fired] at done
      cases done
    | ok middle =>
      rw [fired] at done
      have least := deadline_least next (passed now (List.mem_cons_self ..))
      refine ih (fire_inv inv increasing finite.2 below least ?_ fired) rest
        (fun time member => passed time (List.mem_cons_of_mem _ member)) recognised done
      exact fun k first after reached => recognised k first after (reached.trans (paced_le rest))

/-- The quotient of a lattice time of a normal interval is nearest to its index, up to a large one. -/
theorem nearest_latticeTime {k : ℤ} (normal : 2 ^ (-1021 : ℤ) ≤ trigger.interval) (first : 1 ≤ k) (few : k ≤ 2 ^ 49) :
    index trigger (everyDtLatticeTime trigger k) = k := by
  have one : (1 : ℚ) ≤ k := mod_cast first
  have many : (k : ℚ) ≤ 2 ^ 49 := mod_cast few
  have positive := decimal_pos trigger
  have spelling : 2 ^ (-1022 : ℤ) ≤ trigger.decimal := by
    by_contra small
    have rounded := binary64_mono (not_le.mp small).le
    have apart : (2 : ℚ) ^ (-1022 : ℤ) < 2 ^ (-1021 : ℤ) := zpow_lt_zpow_right₀ one_lt_two (by norm_num)
    rw [trigger.spelled, binary64_zpow le_rfl] at rounded
    linarith
  have spelled := abs_le.mp (binary64_error spelling)
  rw [trigger.spelled] at spelled
  have product : trigger.decimal ≤ trigger.decimal * k := le_mul_of_one_le_right positive.le one
  have lattice := abs_le.mp (binary64_error (spelling.trans product))
  have steps : trigger.decimal * k ≤ trigger.decimal * 2 ^ 49 := mul_le_mul_of_nonneg_left many positive.le
  set interval := trigger.interval
  set time := everyDtLatticeTime trigger k with timeIs
  have timeEq : binary64 (trigger.decimal * k) = time := rfl
  rw [timeEq] at lattice
  -- the time is within a quarter of an interval of `k` intervals
  have below : time ≤ (k + 1 / 4) * interval := by
    have grown : (k + 1 / 4) * (trigger.decimal - trigger.decimal / 2 ^ 53) ≤ (k + 1 / 4) * interval :=
      mul_le_mul_of_nonneg_left (by linarith) (by linarith)
    linarith
  have above : (k - 1 / 4) * interval ≤ time := by
    have grown : (k - 1 / 4) * interval ≤ (k - 1 / 4) * (trigger.decimal + trigger.decimal / 2 ^ 53) :=
      mul_le_mul_of_nonneg_left (by linarith) (by linarith)
    linarith
  have divided : time / interval ≤ k + 1 / 4 := (div_le_iff₀ trigger.positive).mpr below
  have exceeds : k - 1 / 4 ≤ time / interval := (le_div_iff₀ trigger.positive).mpr above
  have sizeable : (2 : ℚ) ^ (-1022 : ℤ) ≤ time / interval := by
    have tiny : (2 : ℚ) ^ (-1022 : ℤ) ≤ 2 ^ (-1 : ℤ) := zpow_le_zpow_right₀ one_le_two (by norm_num)
    have half : (2 : ℚ) ^ (-1 : ℤ) = 1 / 2 := by norm_num
    have large : 1 / 2 ≤ time / interval := by linarith
    exact tiny.trans (half.le.trans large)
  have rounded := abs_le.mp (binary64_error sizeable)
  refine nearest_eq ?_ ?_
  · show (k : ℚ) - 1 / 2 < binary64 (time / interval)
    linarith
  · show binary64 (time / interval) < (k : ℚ) + 1 / 2
    linarith

/-- The lattice times of a normal interval are told apart up to a large index: each of them that
is finite is due, as the occurrence of its own index. -/
theorem index_latticeTime {k : ℤ} (normal : 2 ^ (-1021 : ℤ) ≤ trigger.interval) (first : 1 ≤ k) (few : k ≤ 2 ^ 49) :
    index trigger (everyDtLatticeTime trigger k) = k ∧
      (isFinite (everyDtLatticeTime trigger k) = true →
        consumerOccurrenceEvidence trigger (everyDtLatticeTime trigger k) = .ok (some k) ∧
          consumerDue trigger false (everyDtLatticeTime trigger k) = .ok true) := by
  have found := nearest_latticeTime normal first few
  refine ⟨found, fun finite => ?_⟩
  have representable : isFinite (quotient trigger (everyDtLatticeTime trigger k)) = true := by
    have near := abs_le.mp (nearest_error (quotient trigger (everyDtLatticeTime trigger k)))
    rw [index] at found
    rw [found] at near
    have one : (1 : ℚ) ≤ k := mod_cast first
    have many : (k : ℚ) ≤ 2 ^ 49 := mod_cast few
    exact isFinite_of_le (abs_le.mpr ⟨by linarith, by linarith⟩)
  have closest : nearest (quotient trigger (everyDtLatticeTime trigger k)) = k := found
  simp only [consumerOccurrenceEvidence, consumerDue, everyDtQuotient, representable, closest, finite, if_true,
    Bind.bind, Except.bind, if_neg (not_lt.mpr first), Bool.false_eq_true, if_false, le_refl, decide_true,
    samePhysicalTime_refl, Bool.and_self, and_self]

/-- A run publishes every lattice time once when all its times before the last have `Passed`, and
the deadline of a time that is not due is the next lattice time exactly when that time has. -/
theorem every_occurrence_once (trigger : EveryDt) :
    (∀ (start : ℚ) (times : List ℚ) (after : Publications), Paced trigger start times →
      (∀ time ∈ (start :: times).dropLast, Passed trigger time) →
      Recognised trigger start ((start :: times).getLast (List.cons_ne_nil _ _)) →
      run trigger start times = .ok after →
        EveryOnce trigger start ((start :: times).getLast (List.cons_ne_nil _ _)) after.published) ∧
    ∀ (now deadline : ℚ), IsBinary64 now → consumerOccurrenceEvidence trigger now = .ok none →
      consumerNextDeadline trigger now = .ok deadline →
        (IsLeast (Upcoming trigger now) deadline ↔ Passed trigger now) := by
  constructor
  · intro start times after paced passed recognised done
    have fresh : Inv trigger start start { lastOccurrence := none, published := [] } := by
      refine ⟨fun k first ahead reached => absurd ahead (not_lt.mpr reached), List.nodup_nil, ?_, ?_⟩
      · intro k impossible
        exact absurd impossible List.not_mem_nil
      · intro last impossible
        cases impossible
    have accepted := acceptAll_inv fresh paced passed recognised done
    exact ⟨accepted.every, accepted.once⟩
  · intro now deadline finite quiet next
    have between : ¬Landed trigger now := by
      obtain ⟨-, impossible⟩ | ⟨between, -⟩ := evidence_ok finite.2 quiet
      · cases impossible
      · exact between
    exact ⟨passed_of_least next between, deadline_least next⟩

theorem binary64_one : binary64 1 = 1 := by
  have power := binary64_zpow (e := 0) (by norm_num)
  rwa [zpow_zero] at power

theorem binary64_two : binary64 2 = 2 := by
  have power := binary64_zpow (e := 1) (by norm_num)
  rwa [zpow_one] at power

theorem isFinite_one : isFinite 1 = true := isFinite_of_le (by norm_num)

/-- Once every unit of time. -/
def unit : EveryDt where
  interval := 1
  decimal := 1
  positive := one_pos
  finite := isFinite_one
  spelled := binary64_one

/-- A run with a time that is not due, and two lattice times. -/
theorem every_occurrence_once_unit :
    ∃ after, run unit 0 [1 / 4, 1, 2] = .ok after ∧ EveryOnce unit 0 2 after.published := by
  obtain ⟨after, fired⟩ : ∃ after, run unit 0 [1 / 4, 1, 2] = .ok after := by
    have returns : (run unit 0 [1 / 4, 1, 2]).isOk = true := by decide +kernel
    cases fired : run unit 0 [1 / 4, 1, 2] with
    | ok after => exact ⟨after, rfl⟩
    | error error =>
      rw [fired] at returns
      cases returns
  refine ⟨after, fired, (every_occurrence_once unit).1 0 [1 / 4, 1, 2] after ?_ ?_ ?_ fired⟩
  · refine ⟨by norm_num, ⟨by decide +kernel, by decide +kernel⟩, ⟨1, by decide +kernel, by norm_num⟩, ?_⟩
    refine ⟨by norm_num, ⟨binary64_one, isFinite_one⟩, ⟨1, by decide +kernel, le_rfl⟩, ?_⟩
    exact ⟨by norm_num, ⟨binary64_two, isFinite_of_le (by norm_num)⟩, ⟨2, by decide +kernel, le_rfl⟩, trivial⟩
  · intro time member k positive reached ahead
    have below : (k : ℚ) ≤ 1 := by
      have quotients : ∀ time ∈ [(0 : ℚ), 1 / 4, 1], quotient unit time ≤ 1 := by decide +kernel
      exact reached.trans (quotients time member)
    obtain rfl : k = 1 := le_antisymm (mod_cast below) positive
    have early : time < 1 := ahead.trans_eq (by decide +kernel)
    have quotients : ∀ time ∈ [(0 : ℚ), 1 / 4, 1], time < 1 → quotient unit time < 1 := by decide +kernel
    exact absurd reached (not_le.mpr (mod_cast quotients time member early))
  · intro k positive ahead reached
    have small : k < 3 := by
      by_contra large
      have beyond := latticeTime_mono unit (not_lt.mp large)
      have third : (2 : ℚ) < everyDtLatticeTime unit 3 := by decide +kernel
      exact absurd (third.trans_le beyond) (not_lt.mpr reached)
    have recognised : ∀ k ∈ [(1 : ℤ), 2], index unit (everyDtLatticeTime unit k) = k := by decide +kernel
    exact recognised k (by simp only [List.mem_cons, List.not_mem_nil]; omega)

/-- Three tenths of a unit of time, as binary64 has them. -/
def threeTenths : EveryDt where
  interval := 5404319552844595 * 2 ^ (-54 : ℤ)
  decimal := 3 / 10
  positive := by positivity
  finite := isFinite_of_le (by norm_num)
  spelled := by
    exact mod_cast binary64_eq (x := 3 / 10) 5404319552844595 (-54) (by norm_num) (by norm_num) (by norm_num) (by norm_num)
      (by norm_num)

theorem index_latticeTime_threeTenths :
    index threeTenths (everyDtLatticeTime threeTenths (2 ^ 49)) = 2 ^ 49 ∧
      consumerDue threeTenths false (everyDtLatticeTime threeTenths (2 ^ 49)) = .ok true := by
  have normal : (2 : ℚ) ^ (-1021 : ℤ) ≤ threeTenths.interval :=
    (zpow_le_zpow_right₀ one_le_two (by norm_num : (-1021 : ℤ) ≤ -2)).trans (by norm_num [threeTenths])
  obtain ⟨found, due⟩ := index_latticeTime normal (by norm_num : (1 : ℤ) ≤ 2 ^ 49) le_rfl
  exact ⟨found, (due (by decide +kernel)).2⟩

/-- The number below nine tenths is divided to three exactly, so nine tenths are skipped. -/
theorem nine_tenths_skipped :
    ¬∀ (trigger : EveryDt) (start : ℚ) (times : List ℚ) (after : Publications), IsBinary64 start →
      Paced trigger start times → run trigger start times = .ok after →
        EveryOnce trigger start ((start :: times).getLast (List.cons_ne_nil _ _)) after.published := by
  intro promised
  have startIs : IsBinary64 (8106479329266892 * 2 ^ (-53 : ℤ)) := ⟨by decide +kernel, by decide +kernel⟩
  have fourthIs : IsBinary64 (5404319552844595 * 2 ^ (-52 : ℤ)) := ⟨by decide +kernel, by decide +kernel⟩
  have next : consumerNextDeadline threeTenths (8106479329266892 * 2 ^ (-53 : ℤ)) =
      .ok (5404319552844595 * 2 ^ (-52 : ℤ)) := by decide +kernel
  have fired : run threeTenths (8106479329266892 * 2 ^ (-53 : ℤ)) [5404319552844595 * 2 ^ (-52 : ℤ)] =
      .ok ⟨some 4, [(4, 5404319552844595 * 2 ^ (-52 : ℤ))]⟩ := by decide +kernel
  have paced : Paced threeTenths (8106479329266892 * 2 ^ (-53 : ℤ)) [5404319552844595 * 2 ^ (-52 : ℤ)] :=
    ⟨by norm_num, fourthIs, ⟨_, next, le_rfl⟩, trivial⟩
  have all := promised threeTenths _ _ _ startIs paced fired
  have missed := all.every 3 (by norm_num) (by decide +kernel) (by decide +kernel)
  revert missed
  decide +kernel

end Pops.EveryDtSchedule
