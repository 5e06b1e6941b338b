import Pops.ConjugateGradients
import Pops.SolveCg

/-!
In exact arithmetic `solve_cg` is the method of conjugate gradients of the scaled operator: it never
restarts before it has solved, and a residual that remains takes a dimension of the space.
-/
namespace Pops.SolveCg
open scoped InnerProductSpace
open ConjugateGradients Module

variable {V : Type} [NormedAddCommGroup V] [InnerProductSpace ℝ V]
  {problem : Problem V} {rhs start : V} {controls : Controls} {normalization : SolveNormalization}

/-- The operator that `applyLinear` applies. -/
noncomputable def scaled (problem : Problem V) (normalization : SolveNormalization) : V →ₗ[ℝ] V :=
  normalization.scale⁻¹ • problem.linear

/-- The first residual of the recurrence. -/
noncomputable def firstResidual (problem : Problem V) (rhs start : V) (normalization : SolveNormalization) : V :=
  divide (problem.trueResidual rhs start) normalization.scale

/-- What the entry has made sure of, and the operator that CG asks for. -/
structure Entry (problem : Problem V) (rhs start : V) (normalization : SolveNormalization) : Prop where
  symmetric : problem.linear.IsSymmetric
  positive : ∀ v, v ≠ 0 → 0 < ⟪v, problem.linear v⟫_ℝ
  scale : 0 < normalization.scale
  threshold : normalization.normalizedThreshold = normalization.physicalThreshold / normalization.scale
  limit : extremeRebaseLimit ≤ normalization.normalizedThreshold
  remains : firstResidual problem rhs start normalization ≠ 0

/-- The spaces that the iterations search. -/
noncomputable abbrev searched (problem : Problem V) (rhs start : V) (normalization : SolveNormalization) (k : ℕ) :
    Submodule ℝ V :=
  krylov (scaled problem normalization) (firstResidual problem rhs start normalization) k

/-- The iterate of a state after `k` iterations: its residual is the true one, and it has moved within
the space that the residual is orthogonal to. -/
structure Searched (problem : Problem V) (rhs start : V) (normalization : SolveNormalization) (k : ℕ)
    (state : CgState V) : Prop where
  residual : problem.trueResidual rhs state.iterate = normalization.scale • state.residual
  moved : state.iterate - start ∈ searched problem rhs start normalization k
  orthogonal : ∀ v ∈ searched problem rhs start normalization k, ⟪state.residual, v⟫_ℝ = 0

/-- A state after `k` iterations that goes on. -/
structure Running (problem : Problem V) (rhs start : V) (normalization : SolveNormalization) (k : ℕ)
    (state : CgState V) : Prop where
  reached : Searched problem rhs start normalization k state
  cycle : state.cycle = normalization
  squared : state.squared = ⟪state.residual, state.residual⟫_ℝ
  remains : state.residual ≠ 0
  conjugate : Conjugate (scaled problem normalization) (firstResidual problem rhs start normalization) k
    state.residual state.direction
  rank : k ≤ finrank ℝ (searched problem rhs start normalization k)

/-- A state in which the loop has returned. -/
structure Returned (problem : Problem V) (rhs start : V) (normalization : SolveNormalization) (k : ℕ)
    (state : CgState V) (report : SolveReport) : Prop where
  reached : Searched problem rhs start normalization report.iters state
  status : report.status = .solved
  counted : report.iters ≤ k
  rank : report.iters ≤ finrank ℝ V
  converged : ‖problem.trueResidual rhs state.iterate‖ ≤ normalization.physicalThreshold

theorem extremeRebaseLimit_pos : 0 < extremeRebaseLimit := zpow_pos (Nat.cast_pos.mpr two_pos) _

theorem applyLinear_eq (direction : V) :
    problem.applyLinear direction normalization.scale = scaled problem normalization direction := by
  rw [Problem.applyLinear, Problem.apply, add_sub_cancel_right]
  rfl

section
variable (entry : Entry problem rhs start normalization)
include entry

theorem Entry.scaled_symmetric : (scaled problem normalization).IsSymmetric := by
  intro v w
  rw [scaled, LinearMap.smul_apply, LinearMap.smul_apply, real_inner_smul_left, real_inner_smul_right,
    entry.symmetric v w]

theorem Entry.scaled_positive : ∀ v, v ≠ 0 → 0 < ⟪v, scaled problem normalization v⟫_ℝ := by
  intro v nonzero
  rw [scaled, LinearMap.smul_apply, real_inner_smul_right]
  exact mul_pos (inv_pos.mpr entry.scale) (entry.positive v nonzero)

theorem Entry.linear_eq (v : V) : problem.linear v = normalization.scale • scaled problem normalization v := by
  rw [scaled, LinearMap.smul_apply, smul_smul, mul_inv_cancel₀ entry.scale.ne', one_smul]

theorem Entry.running (measurement : ResidualMeasurement) : Running problem rhs start normalization 0
    (cgStart normalization start (firstResidual problem rhs start normalization) measurement) where
  reached := {
    residual := by
      rw [cgStart, firstResidual, divide, smul_smul, mul_inv_cancel₀ entry.scale.ne', one_smul]
    moved := by
      rw [cgStart, sub_self]
      exact Submodule.zero_mem _
    orthogonal := (Conjugate.initial _ _).orthogonal }
  cycle := rfl
  squared := rfl
  remains := entry.remains
  conjugate := .initial _ _
  rank := Nat.zero_le _

theorem Entry.residual_step {iterate residual direction : V} (a : ℝ)
    (true_residual : problem.trueResidual rhs iterate = normalization.scale • residual) :
    problem.trueResidual rhs (iterate + a • direction) =
      normalization.scale • (residual - a • scaled problem normalization direction) := by
  have moved : problem.trueResidual rhs (iterate + a • direction) =
      problem.trueResidual rhs iterate - a • problem.linear direction := by
    simp only [Problem.trueResidual, Problem.apply, LinearMap.map_add, LinearMap.map_smul]
    abel
  rw [moved, true_residual, entry.linear_eq, smul_sub, smul_comm]

end

variable {state : CgState V}

theorem Running.lt_finrank [FiniteDimensional ℝ V] {k : ℕ}
    (running : Running problem rhs start normalization k state) :
    k < finrank ℝ (searched problem rhs start normalization (k + 1)) ∧
      finrank ℝ (searched problem rhs start normalization (k + 1)) ≤ finrank ℝ V :=
  ⟨lt_of_le_of_lt running.rank
    (Submodule.finrank_lt_finrank_of_lt (running.conjugate.krylov_lt running.remains)), Submodule.finrank_le _⟩

theorem Running.advance (entry : Entry problem rhs start normalization) {k : ℕ}
    (running : Running problem rhs start normalization k state) {moved : CgState V}
    (iterate : moved.iterate = state.iterate + (⟪state.residual, state.residual⟫_ℝ / ⟪state.direction, scaled problem normalization state.direction⟫_ℝ) • state.direction)
    (residual : moved.residual = state.residual - (⟪state.residual, state.residual⟫_ℝ / ⟪state.direction, scaled problem normalization state.direction⟫_ℝ) • scaled problem normalization state.direction) :
    Searched problem rhs start normalization (k + 1) moved := by
  have curved : ⟪state.direction, scaled problem normalization state.direction⟫_ℝ ≠ 0 :=
    (entry.scaled_positive _ (running.conjugate.direction_ne running.remains)).ne'
  constructor
  · rw [iterate, residual]
    exact entry.residual_step _ running.reached.residual
  · rw [iterate, add_sub_right_comm]
    exact Submodule.add_mem _ (krylov_mono _ _ k.le_succ running.reached.moved)
      (Submodule.smul_mem _ _ running.conjugate.direction_mem)
  · rw [residual]
    exact running.conjugate.orthogonal_step entry.scaled_symmetric curved

theorem Searched.converged (entry : Entry problem rhs start normalization) {k : ℕ}
    (reached : Searched problem rhs start normalization k state)
    (estimate : √⟪state.residual, state.residual⟫_ℝ ≤ normalization.normalizedThreshold) :
    ‖problem.trueResidual rhs state.iterate‖ ≤ normalization.physicalThreshold := by
  rw [reached.residual, norm_smul, Real.norm_of_nonneg entry.scale.le, norm_eq_sqrt_real_inner]
  calc normalization.scale * √⟪state.residual, state.residual⟫_ℝ
      ≤ normalization.scale * normalization.normalizedThreshold := mul_le_mul_of_nonneg_left estimate entry.scale.le
    _ = normalization.physicalThreshold := by rw [entry.threshold, mul_div_cancel₀ _ entry.scale.ne']

theorem Running.step [FiniteDimensional ℝ V] (entry : Entry problem rhs start normalization) {k : ℕ}
    (running : Running problem rhs start normalization k state) (dimension : finrank ℝ V ≤ controls.maxIterations) :
    ∃ after report, cgIteration problem rhs controls normalization (k + 1) state = .ok (after, report) ∧
      match report with
      | none => Running problem rhs start normalization (k + 1) after
      | some report => report.iters = k + 1 ∧ Returned problem rhs start normalization (k + 1) after report := by
  have curved : 0 < ⟪state.direction, scaled problem normalization state.direction⟫_ℝ :=
    entry.scaled_positive _ (running.conjugate.direction_ne running.remains)
  have squared : 0 < ⟪state.residual, state.residual⟫_ℝ :=
    lt_of_le_of_ne real_inner_self_nonneg fun zero => running.remains (inner_self_eq_zero.mp zero.symm)
  unfold cgIteration
  simp only [running.cycle, applyLinear_eq, running.squared]
  rw [if_neg (not_le.mpr curved), if_neg (not_lt.mpr real_inner_self_nonneg)]
  set alpha := ⟪state.residual, state.residual⟫_ℝ / ⟪state.direction, scaled problem normalization state.direction⟫_ℝ
    with alpha_eq
  set residual := state.residual - alpha • scaled problem normalization state.direction with residual_eq
  set moved : CgState V :=
    { iterate := state.iterate + alpha • state.direction, residual := residual, direction := state.direction,
      squared := ⟪state.residual, state.residual⟫_ℝ, cycle := normalization,
      measurement := { physical := state.measurement.physical, normalized := √⟪residual, residual⟫_ℝ } } with moved_eq
  have reached : Searched problem rhs start normalization (k + 1) moved := running.advance entry rfl rfl
  have ranked : k + 1 ≤ finrank ℝ (searched problem rhs start normalization (k + 1)) := running.lt_finrank.1
  have bounded : k + 1 ≤ finrank ℝ V := ranked.trans running.lt_finrank.2
  have conjugate := running.conjugate.step entry.scaled_symmetric entry.scaled_positive running.remains residual_eq
  -- A residual above the threshold is not zero, so that another dimension is left.
  have goes_on (above : ¬ √⟪residual, residual⟫_ℝ ≤ normalization.normalizedThreshold) :
      Running problem rhs start normalization (k + 1)
        { moved with
          direction := residual + (⟪residual, residual⟫_ℝ / ⟪state.residual, state.residual⟫_ℝ) • state.direction
          squared := ⟪residual, residual⟫_ℝ } := by
    refine ⟨⟨reached.residual, reached.moved, reached.orthogonal⟩, rfl, rfl, ?_, conjugate, ranked⟩
    intro zero
    refine above ?_
    have none : ⟪residual, residual⟫_ℝ = 0 := inner_self_eq_zero.mpr zero
    rw [none, Real.sqrt_zero]
    exact extremeRebaseLimit_pos.le.trans entry.limit
  by_cases estimate : √⟪residual, residual⟫_ℝ ≤ normalization.normalizedThreshold
  · have converged := reached.converged entry estimate
    by_cases last : k + 1 = controls.maxIterations
    · rw [if_pos ⟨last, estimate⟩]
      exact ⟨moved, _, rfl, rfl, reached, rfl, le_rfl, bounded, converged⟩
    · rw [if_neg fun both => last both.1, if_neg last, if_pos (.inl estimate), if_pos converged]
      exact ⟨moved, _, rfl, rfl, reached, rfl, le_rfl, bounded, converged⟩
  · have next := goes_on estimate
    have unfinished : k + 1 ≠ controls.maxIterations := by
      have left := next.lt_finrank
      omega
    have ordinary : ¬ (√⟪residual, residual⟫_ℝ ≤ normalization.normalizedThreshold ∨
        NeedsExtremeRecurrenceRebase √⟪residual, residual⟫_ℝ) := by
      rintro (small | ⟨-, extreme⟩)
      · exact estimate small
      · exact estimate (extreme.le.trans entry.limit)
    rw [if_neg fun both => unfinished both.1, if_neg unfinished, if_neg ordinary]
    refine ⟨_, none, ?_, next⟩
    rw [nextDirection, if_neg Bool.false_ne_true, if_neg (not_le.mpr squared)]

theorem Entry.run [FiniteDimensional ℝ V] (entry : Entry problem rhs start normalization)
    (dimension : finrank ℝ V ≤ controls.maxIterations) (measurement : ResidualMeasurement) (k : ℕ) :
    ∃ state report, cgRun problem rhs controls normalization
        (cgStart normalization start (firstResidual problem rhs start normalization) measurement) k = .ok (state, report) ∧
      match report with
      | none => Running problem rhs start normalization k state
      | some report => Returned problem rhs start normalization k state report := by
  induction k with
  | zero => exact ⟨_, none, rfl, entry.running measurement⟩
  | succ k ih =>
    obtain ⟨state, report, run, reached⟩ := ih
    rw [cgRun, run]
    cases report with
    | some report =>
      exact ⟨state, some report, rfl, reached.reached, reached.status, reached.counted.trans k.le_succ, reached.rank,
        reached.converged⟩
    | none =>
      obtain ⟨after, report, step, next⟩ := Running.step entry reached dimension
      refine ⟨after, report, step, ?_⟩
      cases report with
      | none => exact next
      | some report => exact next.2

theorem entry_of_prepare {reference : ℝ} {residual : V} {measurement : ResidualMeasurement}
    (symmetric : problem.linear.IsSymmetric) (positive : ∀ v, v ≠ 0 → 0 < ⟪v, problem.linear v⟫_ℝ)
    (prepared : prepare problem rhs controls reference start = .ok (normalization, residual, measurement))
    (limit : extremeRebaseLimit ≤ normalization.normalizedThreshold) :
    Entry problem rhs start normalization ∧ residual = firstResidual problem rhs start normalization := by
  unfold prepare at prepared
  obtain ⟨made, normalized, returned⟩ := bind_ok.mp prepared
  unfold makeNormalization at normalized
  split at normalized
  · cases normalized
  rename_i valid
  cases normalized
  cases returned
  have scale : 0 < ‖problem.trueResidual rhs start‖ := by
    by_contra none
    exact valid (.inr none)
  refine ⟨⟨symmetric, positive, scale, rfl, limit, ?_⟩, rfl⟩
  intro zero
  have nonzero : problem.trueResidual rhs start ≠ 0 := norm_pos_iff.mp scale
  exact nonzero ((smul_eq_zero.mp zero).resolve_left (inv_ne_zero scale.ne'))

theorem Entry.searched_eq (entry : Entry problem rhs start normalization) (k : ℕ) :
    searched problem rhs start normalization k = krylov problem.linear (problem.trueResidual rhs start) k :=
  krylov_smul _ _ (inv_ne_zero entry.scale.ne') (inv_ne_zero entry.scale.ne') k

theorem Searched.energy_le (entry : Entry problem rhs start normalization) {k : ℕ}
    (reached : Searched problem rhs start normalization k state) {solution other : V}
    (solves : problem.apply solution = rhs)
    (listed : other - start ∈ krylov problem.linear (problem.trueResidual rhs start) k) :
    ⟪solution - state.iterate, problem.linear (solution - state.iterate)⟫_ℝ ≤
      ⟪solution - other, problem.linear (solution - other)⟫_ℝ := by
  rw [← entry.searched_eq k] at listed
  have image : problem.linear (solution - state.iterate) = normalization.scale • state.residual := by
    rw [← reached.residual, Problem.trueResidual, ← solves, Problem.apply, Problem.apply, LinearMap.map_sub]
    abel
  have orthogonal : ∀ v ∈ searched problem rhs start normalization k,
      ⟪problem.linear (solution - state.iterate), v⟫_ℝ = 0 := by
    intro v found
    rw [image, real_inner_smul_left, reached.orthogonal v found, mul_zero]
  have difference : other - state.iterate ∈ searched problem rhs start normalization k := by
    rw [← sub_sub_sub_cancel_right other state.iterate start]
    exact Submodule.sub_mem _ listed reached.moved
  exact ConjugateGradients.energy_le entry.symmetric entry.positive orthogonal difference

/-- The iterate of a state after `k` iterations has the least energy of its error in the start plus the
Krylov space. -/
def Minimises (problem : Problem V) (rhs start : V) (k : ℕ) (state : CgState V) : Prop :=
  state.iterate - start ∈ krylov problem.linear (problem.trueResidual rhs start) k ∧
    ∀ other, other - start ∈ krylov problem.linear (problem.trueResidual rhs start) k →
      ∀ solution, problem.apply solution = rhs →
        ⟪solution - state.iterate, problem.linear (solution - state.iterate)⟫_ℝ ≤
          ⟪solution - other, problem.linear (solution - other)⟫_ℝ

theorem Searched.minimises (entry : Entry problem rhs start normalization) {k : ℕ}
    (reached : Searched problem rhs start normalization k state) : Minimises problem rhs start k state :=
  ⟨entry.searched_eq k ▸ reached.moved, fun _ listed _ solves => reached.energy_le entry solves listed⟩

/-- With as many iterations as dimensions and a threshold above the limit of the rebase, CG reports
solved after at most as many iterations as dimensions. Each iterate minimises the energy of the error. -/
theorem cg_solves [FiniteDimensional ℝ V] (problem : Problem V) (rhs start : V) (controls : Controls) (reference : ℝ)
    (symmetric : problem.linear.IsSymmetric) (positive : ∀ v, v ≠ 0 → 0 < ⟪v, problem.linear v⟫_ℝ)
    (normalization : SolveNormalization) (residual : V) (measurement : ResidualMeasurement)
    (prepared : prepare problem rhs controls reference start = .ok (normalization, residual, measurement))
    (limit : extremeRebaseLimit ≤ normalization.normalizedThreshold)
    (dimension : finrank ℝ V ≤ controls.maxIterations) :
    (∃ solution, problem.apply solution = rhs) ∧
    (∃ iterate report, solveCg problem rhs controls normalization start residual measurement = .ok (iterate, report) ∧
      report.status = .solved ∧ report.iters ≤ finrank ℝ V ∧
      ‖problem.trueResidual rhs iterate‖ ≤ normalization.physicalThreshold) ∧
    ∀ k, ∃ state report, cgRun problem rhs controls normalization
        (cgStart normalization start residual measurement) k = .ok (state, report) ∧
      Minimises problem rhs start ((report.map SolveReport.iters).getD k) state := by
  obtain ⟨entry, rfl⟩ := entry_of_prepare symmetric positive prepared limit
  refine ⟨?_, ?_, fun k => ?_⟩
  · obtain ⟨solution, solves⟩ := exists_preimage positive (rhs - problem.constant)
    exact ⟨solution, by rw [Problem.apply, solves, sub_add_cancel]⟩
  · obtain ⟨state, report, run, reached⟩ := entry.run dimension measurement controls.maxIterations
    unfold solveCg
    simp only [run, ok_bind]
    cases report with
    | none =>
      have left := Running.lt_finrank reached
      omega
    | some report => exact ⟨_, _, rfl, reached.status, reached.rank, reached.converged⟩
  · obtain ⟨state, report, run, reached⟩ := entry.run dimension measurement k
    refine ⟨state, report, run, ?_⟩
    cases report with
    | none => exact reached.reached.minimises entry
    | some report => exact reached.reached.minimises entry

/-- The plane with one axis stretched fourfold, which is no multiple of the identity. -/
noncomputable def stretched : Problem (EuclideanSpace ℝ (Fin 2)) where
  linear := Matrix.toEuclideanLin (Matrix.diagonal ![1, (4 : ℕ)])
  constant := 0

theorem thousandth_relative : 0 ≤ (1 / 1000 : ℝ) ∧ (1 / 1000 : ℝ) < 1 := by norm_num

theorem thousandth_stops : ¬ ((1 / 1000 : ℝ) = 0 ∧ (0 : ℝ) = 0) := by norm_num

/-- Two iterations, to a thousandth of the reference. -/
noncomputable def twice : Controls where
  relTol := 1 / 1000
  absTol := 0
  maxIterations := 2
  iterates := Nat.two_pos
  relative := thousandth_relative
  absolute := le_rfl
  stops := thousandth_stops

private theorem stretched_apply (v : EuclideanSpace ℝ (Fin 2)) (axis : Fin 2) :
    stretched.linear v axis = ![1, 4] axis * v axis := by
  fin_cases axis <;> simp [stretched, Matrix.toLpLin_apply]

theorem stretched_solved : ∃ normalization residual measurement iterate report,
    prepare stretched !₂[3, 4] twice 5 0 = .ok (normalization, residual, measurement) ∧
    solveCg stretched !₂[3, 4] twice normalization 0 residual measurement = .ok (iterate, report) ∧
    report.status = .solved ∧ report.iters ≤ finrank ℝ (EuclideanSpace ℝ (Fin 2)) := by
  have scale : ‖stretched.trueResidual !₂[3, 4] 0‖ = 5 := by
    rw [Problem.trueResidual, Problem.apply, map_zero, show stretched.constant = 0 from rfl, add_zero, sub_zero,
      EuclideanSpace.norm_eq, Fin.sum_univ_two, show (5 : ℝ) = √(5 ^ 2) by simp]
    norm_num
  have threshold : physicalStoppingThreshold 5 twice = 1 / 200 := by
    norm_num [physicalStoppingThreshold, twice]
  have prepared : prepare stretched !₂[3, 4] twice 5 0 = .ok (⟨5, 5, 1 / 200 / 5, 1 / 200⟩,
      divide (stretched.trueResidual !₂[3, 4] 0) 5, ⟨5, 5 / 5⟩) := by
    unfold prepare makeNormalization
    dsimp only
    rw [scale, if_neg (by norm_num), threshold]
    rfl
  have limit : extremeRebaseLimit ≤ (1 / 200 / 5 : ℝ) := by
    rw [extremeRebaseLimit, Nat.cast_ofNat]
    exact (zpow_le_zpow_right₀ one_le_two (by norm_num : (-511 : ℤ) ≤ -10)).trans (by norm_num)
  have symmetric : stretched.linear.IsSymmetric := by
    intro v w
    simp only [PiLp.inner_apply, stretched_apply, Fin.sum_univ_two]
    simp
    ring
  have positive : ∀ v, v ≠ 0 → 0 < ⟪v, stretched.linear v⟫_ℝ := by
    intro v nonzero
    have some : v 0 ≠ 0 ∨ v 1 ≠ 0 := by
      by_contra none
      rw [not_or, not_not, not_not] at none
      exact nonzero (by ext axis; fin_cases axis <;> simp [none])
    simp only [PiLp.inner_apply, stretched_apply, Fin.sum_univ_two]
    rcases some with first | second
    · have := sq_pos_of_ne_zero first
      simp
      nlinarith [sq_nonneg (v 1)]
    · have := sq_pos_of_ne_zero second
      simp
      nlinarith [sq_nonneg (v 0)]
  obtain ⟨-, ⟨iterate, report, run, status, iters, -⟩, -⟩ := cg_solves stretched !₂[3, 4] 0 twice 5 symmetric positive
    _ _ _ prepared limit (by simp [twice])
  exact ⟨_, _, _, iterate, report, prepared, run, status, iters⟩
end Pops.SolveCg
