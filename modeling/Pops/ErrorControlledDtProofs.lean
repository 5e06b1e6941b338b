import Pops.ErrorControlledDt

/-!
Proposals stay between `dt_min` and `dt_max` until a step that the final time shortened
below `dt_min / growth` is accepted: its growth alone cannot bring the next one back.
-/
namespace Pops.ErrorControlledDt

variable {K : Type} [Field K] [LinearOrder K]

/-- A proposal within the bounds of the strategy. -/
def Within (strategy : Strategy K) (dt : K) : Prop := strategy.dtMin ≤ dt ∧ dt ≤ strategy.dtMax

/-- The step was cut to end at the final time. -/
def Shortened (strategy : Strategy K) (r : Record K) : Prop :=
  r.call.tEnd - r.before.time < min r.before.nextDt strategy.dtMax

/-- What one step promises: its proposals are within the bounds, apart from a first one cut to
the final time, they are few, and the proposal carried over is within the bounds. -/
structure Bounded (strategy : Strategy K) (r : Record K) : Prop where
  proposals : ∀ dt ∈ r.proposals, Within strategy dt ∨ Shortened strategy r ∧ dt = r.call.tEnd - r.before.time
  attempts : r.proposals.length ≤ strategy.maxRejections + 1
  carried : Within strategy r.after.nextDt

/-- The first attempt is not accepted, or the time left, grown once, is at least `dt_min`. -/
def RoomLeft (strategy : Strategy K) (r : Record K) : Prop :=
  r.before.time < r.call.tEnd → r.call.outcomes.head? = some .accepted →
    strategy.dtMin ≤ (r.call.tEnd - r.before.time) * strategy.growth

variable {strategy : Strategy K}

theorem retry_some {attempts : ℕ} {dt reduced : K} (h : retry strategy attempts dt = some reduced) :
    attempts ≤ strategy.maxRejections ∧ reduced = dt * strategy.shrink ∧ strategy.dtMin ≤ reduced := by
  simp only [retry] at h
  split at h
  · cases h
  · rename_i few
    split at h
    · cases h
    · rename_i large
      cases h
      exact ⟨Nat.le_of_not_lt few, rfl, le_of_not_gt large⟩

theorem execute_length (strategy : Strategy K) (outcomes : List Outcome) (attempts : ℕ) (dt : K)
    (few : attempts ≤ strategy.maxRejections) :
    attempts + (execute strategy outcomes attempts dt).proposals.length ≤ strategy.maxRejections + 1 := by
  induction outcomes generalizing attempts dt with
  | nil => simp only [execute, List.length_nil]; omega
  | cons outcome outcomes ih =>
    cases outcome with
    | accepted | failed => simp only [execute, List.length_cons, List.length_nil]; omega
    | rejected =>
      simp only [execute]
      cases retried : retry strategy (attempts + 1) dt with
      | none => simp only [List.length_cons, List.length_nil]; omega
      | some reduced =>
        obtain ⟨fewer, -, -⟩ := retry_some retried
        have later := ih (attempts + 1) reduced fewer
        simp only [List.length_cons]
        omega

section Order
variable [IsStrictOrderedRing K]

theorem shrink_le {dt : K} (positive : 0 ≤ dt) : dt * strategy.shrink ≤ dt :=
  mul_le_of_le_one_right positive strategy.shrink_lt.le

theorem le_growth {dt : K} (positive : 0 ≤ dt) : dt ≤ dt * strategy.growth :=
  le_mul_of_one_le_right positive strategy.growth_ge

theorem retry_within {attempts : ℕ} {dt reduced : K} (h : retry strategy attempts dt = some reduced)
    (positive : 0 ≤ dt) (small : dt ≤ strategy.dtMax) :
    Within strategy reduced := by
  obtain ⟨-, rfl, large⟩ := retry_some h
  exact ⟨large, (shrink_le positive).trans small⟩

theorem execute_within (outcomes : List Outcome) (attempts : ℕ) {dt : K} (within : Within strategy dt) :
    (∀ p ∈ (execute strategy outcomes attempts dt).proposals, Within strategy p) ∧
      ∀ p ∈ (execute strategy outcomes attempts dt).accepted, Within strategy p := by
  induction outcomes generalizing attempts dt with
  | nil => simp [execute]
  | cons outcome outcomes ih =>
    cases outcome with
    | accepted => simpa [execute] using within
    | failed => simpa [execute] using within
    | rejected =>
      simp only [execute]
      cases retried : retry strategy (attempts + 1) dt with
      | none => simpa using within
      | some reduced =>
        have positive : 0 ≤ dt := strategy.dtMin_pos.le.trans within.1
        obtain ⟨proposals, accepted⟩ := ih (attempts + 1) (retry_within retried positive within.2)
        exact ⟨by simpa using ⟨within, proposals⟩, accepted⟩

theorem execute_cases (outcomes : List Outcome) {dt : K} (positive : 0 ≤ dt) (small : dt ≤ strategy.dtMax) :
    (∀ p ∈ (execute strategy outcomes 0 dt).proposals, Within strategy p ∨ p = dt) ∧
      ∀ p ∈ (execute strategy outcomes 0 dt).accepted,
        Within strategy p ∨ p = dt ∧ outcomes.head? = some .accepted := by
  cases outcomes with
  | nil => simp [execute]
  | cons outcome outcomes =>
    cases outcome with
    | accepted => simp [execute]
    | failed => simp [execute]
    | rejected =>
      simp only [execute]
      cases retried : retry strategy (0 + 1) dt with
      | none => simp
      | some reduced =>
        obtain ⟨proposals, accepted⟩ :=
          execute_within outcomes (0 + 1) (retry_within retried positive small)
        refine ⟨?_, fun p member => .inl (accepted p member)⟩
        intro p member
        rcases List.mem_cons.mp member with rfl | member
        · exact .inr rfl
        · exact .inl (proposals p member)

theorem grown_within {dt : K} (within : Within strategy dt) :
    Within strategy (min strategy.dtMax (dt * strategy.growth)) := by
  have positive : 0 ≤ dt := strategy.dtMin_pos.le.trans within.1
  exact ⟨le_min (within.1.trans within.2) (within.1.trans (le_growth positive)), min_le_left _ _⟩

omit [IsStrictOrderedRing K] in
/-- The first proposal of a step, from a carried one within the bounds: it is the carried one
unless the time left is shorter. -/
theorem proposal_cases {s : State K} (tEnd : K) (within : Within strategy s.nextDt) :
    proposal strategy s tEnd = s.nextDt ∨
      tEnd - s.time < min s.nextDt strategy.dtMax ∧ proposal strategy s tEnd = tEnd - s.time := by
  have whole : min s.nextDt strategy.dtMax = s.nextDt := min_eq_left within.2
  rcases le_or_gt s.nextDt (tEnd - s.time) with long | short
  · exact .inl (by rw [proposal, whole, min_eq_left long])
  · exact .inr ⟨by rwa [whole], by rw [proposal, whole, min_eq_right short.le]⟩

/-- A step taken from a carried proposal within the bounds attempts only proposals within
them, apart from one cut to the final time. -/
theorem step_proposals {s : State K} (call : Call K) (within : Within strategy s.nextDt) :
    ∀ dt ∈ (step strategy s call).proposals,
      Within strategy dt ∨ Shortened strategy (step strategy s call) ∧ dt = call.tEnd - s.time := by
  intro dt member
  by_cases running : s.time < call.tEnd
  · have positive : 0 ≤ proposal strategy s call.tEnd :=
      le_min (le_min (strategy.dtMin_pos.le.trans within.1) strategy.dtMax_pos.le) (sub_nonneg.mpr running.le)
    have small : proposal strategy s call.tEnd ≤ strategy.dtMax :=
      (min_le_left _ _).trans (min_le_right _ _)
    simp only [step, if_pos running] at member
    rcases (execute_cases call.outcomes positive small).1 dt member with inside | first
    · exact .inl inside
    · rcases proposal_cases call.tEnd within with same | ⟨short, cut⟩
      · exact .inl (by rw [first, same]; exact within)
      · refine .inr ⟨?_, by rw [first, cut]⟩
        simpa only [Shortened, step, if_pos running] using short
  · simp [step, running] at member

theorem accepted_carried_iff {s : State K} (tEnd : K) (within : Within strategy s.nextDt) :
    Within strategy (min strategy.dtMax (proposal strategy s tEnd * strategy.growth)) ↔
      strategy.dtMin ≤ (tEnd - s.time) * strategy.growth := by
  have bounds : strategy.dtMin ≤ strategy.dtMax := within.1.trans within.2
  rcases proposal_cases tEnd within with same | ⟨-, cut⟩
  · have long : s.nextDt ≤ tEnd - s.time := same ▸ min_le_right _ _
    have positive : 0 ≤ tEnd - s.time := (strategy.dtMin_pos.le.trans within.1).trans long
    rw [same]
    exact iff_of_true (grown_within within) ((within.1.trans long).trans (le_growth positive))
  · rw [cut]
    exact ⟨fun inside => inside.1.trans (min_le_right _ _), fun room => ⟨le_min bounds room, min_le_left _ _⟩⟩

theorem step_carried_iff {s : State K} (call : Call K) (within : Within strategy s.nextDt) :
    Within strategy (step strategy s call).after.nextDt ↔ RoomLeft strategy (step strategy s call) := by
  by_cases running : s.time < call.tEnd
  · have positive : 0 ≤ proposal strategy s call.tEnd :=
      le_min (le_min (strategy.dtMin_pos.le.trans within.1) strategy.dtMax_pos.le) (sub_nonneg.mpr running.le)
    have small : proposal strategy s call.tEnd ≤ strategy.dtMax := (min_le_left _ _).trans (min_le_right _ _)
    simp only [step, if_pos running]
    simp only [RoomLeft, running, forall_const]
    by_cases immediate : call.outcomes.head? = some .accepted
    · obtain ⟨outcomes, first⟩ := List.head?_eq_some_iff.mp immediate
      simp only [first, execute, accept, List.head?_cons, forall_const]
      exact accepted_carried_iff call.tEnd within
    · refine iff_of_true ?_ (fun head => absurd head immediate)
      cases finished : (execute strategy call.outcomes 0 (proposal strategy s call.tEnd)).accepted with
      | none => exact within
      | some accepted =>
        rcases (execute_cases call.outcomes positive small).2 accepted finished with inside | ⟨-, head⟩
        · exact grown_within inside
        · exact absurd head immediate
  · refine iff_of_true ?_ (fun room => ?_)
    · simpa only [step, if_neg running] using within
    · simp only [step, if_neg running] at room
      exact absurd room running

theorem step_bounded_iff {s : State K} (call : Call K) (within : Within strategy s.nextDt) :
    Bounded strategy (step strategy s call) ↔ RoomLeft strategy (step strategy s call) := by
  have record : (step strategy s call).before = s ∧ (step strategy s call).call = call := by
    simp only [step]
    split <;> exact ⟨rfl, rfl⟩
  constructor
  · intro bounded
    exact (step_carried_iff call within).mp bounded.carried
  · intro room
    refine ⟨?_, ?_, (step_carried_iff call within).mpr room⟩
    · rw [record.1, record.2]
      exact step_proposals call within
    · simp only [step]
      split
      · have few := execute_length strategy call.outcomes 0 (proposal strategy s call.tEnd) (Nat.zero_le _)
        simpa using few
      · simp

theorem records_bounded_iff (s : State K) (calls : List (Call K)) (within : Within strategy s.nextDt) :
    (∀ r ∈ records strategy s calls, Bounded strategy r) ↔ ∀ r ∈ records strategy s calls, RoomLeft strategy r := by
  induction calls generalizing s with
  | nil => simp [records]
  | cons call calls ih =>
    simp only [records, List.forall_mem_cons]
    rw [step_bounded_iff call within]
    exact and_congr_right fun room => ih _ ((step_carried_iff call within).mpr room)

/-- Over consecutive runs, every step keeps its promises exactly when every step had room left. -/
theorem run_bounded_iff (strategy : Strategy K) (time : K) (calls : List (Call K)) :
    (∀ r ∈ records strategy (State.initial strategy time) calls, Bounded strategy r) ↔
      ∀ r ∈ records strategy (State.initial strategy time) calls, RoomLeft strategy r :=
  records_bounded_iff _ calls ⟨strategy.dtMin_le, strategy.dtInit_le⟩

end Order

/-- Steps between one and two, doubled after each accepted one. -/
def sample : Strategy ℚ where
  dtInit := 1
  rtol := 1
  atol := 1
  dtMin := 1
  dtMax := 2
  maxRejections := 1
  shrink := 1 / 2
  growth := 2
  dtInit_pos := by norm_num
  rtol_pos := by norm_num
  atol_pos := by norm_num
  dtMin_pos := by norm_num
  dtMax_pos := by norm_num
  maxRejections_pos := by norm_num
  shrink_pos := by norm_num
  growth_pos := by norm_num
  dtMin_le := by norm_num
  dtInit_le := by norm_num
  shrink_lt := by norm_num
  growth_ge := by norm_num

theorem run_bounded_iff_sample :
    (∀ r ∈ records sample (State.initial sample 0) [⟨1 / 2, [.accepted]⟩, ⟨2, [.rejected]⟩], Bounded sample r) ↔
      ∀ r ∈ records sample (State.initial sample 0) [⟨1 / 2, [.accepted]⟩, ⟨2, [.rejected]⟩], RoomLeft sample r :=
  run_bounded_iff sample 0 [⟨1 / 2, [.accepted]⟩, ⟨2, [.rejected]⟩]

/-- A run that ends after a quarter leaves a proposal of a half, below the least of one. -/
theorem short_run_carried :
    ¬∀ (strategy : Strategy ℚ) (time : ℚ) (calls : List (Call ℚ)),
      ∀ r ∈ records strategy (State.initial strategy time) calls, Bounded strategy r := by
  intro bounded
  have carried := (bounded sample 0 [⟨1 / 4, [.accepted]⟩] _ (List.mem_singleton.mpr rfl)).carried.1
  simp [step, State.initial, sample, execute, proposal, accept] at carried
  norm_num at carried

end Pops.ErrorControlledDt
