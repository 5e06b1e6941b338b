import Mathlib
import Pops.Checked

/-!
`solve_cg` of the prepared Krylov solvers with the entry that normalizes its residual, over exact
real numbers: every number is finite, and a scaled scalar is its value.
-/
namespace Pops.SolveCg
open scoped InnerProductSpace

variable {V : Type} [NormedAddCommGroup V] [InnerProductSpace ℝ V]

/-- A prepared problem: the linear part of its operator, and `constant_`. -/
structure Problem (V : Type) [NormedAddCommGroup V] [InnerProductSpace ℝ V] where
  linear : V →ₗ[ℝ] V
  constant : V

/-- The operator of the provider. -/
def Problem.apply (problem : Problem V) (field : V) : V := problem.linear field + problem.constant

/-- `workspace_true_residual`. -/
def Problem.trueResidual (problem : Problem V) (rhs iterate : V) : V := rhs - problem.apply iterate

/-- `divide`, of a field. -/
noncomputable def divide (field : V) (scale : ℝ) : V := scale⁻¹ • field

/-- `workspace_apply_linear`. -/
noncomputable def Problem.applyLinear (problem : Problem V) (direction : V) (equationScale : ℝ) : V :=
  divide (problem.apply direction - problem.constant) equationScale

inductive SolveStatus where
  | solved
  | breakdown
  | iterationLimit
  | invalidEvaluation
  deriving DecidableEq

structure SolveReport where
  iters : ℕ
  relResidual : ℝ
  referenceResidualNorm : ℝ
  residualNorm : ℝ
  status : SolveStatus

/-- Controls that `validate_common_krylov_controls` accepts. -/
structure Controls where
  relTol : ℝ
  absTol : ℝ
  maxIterations : ℕ
  iterates : 0 < maxIterations
  relative : 0 ≤ relTol ∧ relTol < 1
  absolute : 0 ≤ absTol
  stops : ¬ (relTol = 0 ∧ absTol = 0)

structure SolveNormalization where
  reference : ℝ
  scale : ℝ
  normalizedThreshold : ℝ
  physicalThreshold : ℝ

structure ResidualMeasurement where
  physical : ℝ
  normalized : ℝ

/-- `physical_stopping_threshold`. -/
noncomputable def physicalStoppingThreshold (reference : ℝ) (controls : Controls) : ℝ :=
  max (if reference > 0 then controls.relTol * reference else 0) controls.absTol

/-- `make_normalization`. -/
noncomputable def makeNormalization (reference scale : ℝ) (controls : Controls) : Checked SolveNormalization :=
  if reference < 0 ∨ ¬ scale > 0 then
    .error (.invalidArgument "invalid prepared Krylov equation normalization")
  else
    .ok { reference := reference, scale := scale,
          normalizedThreshold := physicalStoppingThreshold reference controls / scale,
          physicalThreshold := physicalStoppingThreshold reference controls }

/-- `report_physical`. -/
noncomputable def reportPhysical (normalization : SolveNormalization) (physicalResidual : ℝ) (iterations : ℕ)
    (status : SolveStatus) : SolveReport where
  iters := iterations
  relResidual := physicalResidual / (if normalization.reference > 0 then normalization.reference else 1)
  referenceResidualNorm := normalization.reference
  residualNorm := physicalResidual
  status := status

/-- `terminal_candidate_report`. -/
noncomputable def terminalCandidateReport (normalization : SolveNormalization) (measurement : ResidualMeasurement)
    (iterations : ℕ) (status : SolveStatus) : SolveReport :=
  reportPhysical normalization measurement.physical iterations status

/-- The square root of the smallest positive normal number, 2^-1022. -/
noncomputable def extremeRebaseLimit : ℝ := ((2 : ℕ) : ℝ) ^ (-511 : ℤ)

/-- `needs_extreme_recurrence_rebase`. -/
abbrev NeedsExtremeRecurrenceRebase (normalizedNorm : ℝ) : Prop :=
  normalizedNorm > 0 ∧ normalizedNorm < extremeRebaseLimit

/-- `rebase_cycle_residual`. -/
noncomputable def rebaseCycleResidual (physicalResidual : V) (measurement : ResidualMeasurement)
    (reportNormalization : SolveNormalization) : Checked (V × ResidualMeasurement × SolveNormalization) :=
  if ¬ measurement.physical > reportNormalization.physicalThreshold then
    .error (.logicError "prepared Krylov recurrence rebase requires a finite unconverged true residual")
  else
    .ok (divide physicalResidual measurement.physical, { measurement with normalized := 1 },
      { reference := reportNormalization.reference, scale := measurement.physical,
        normalizedThreshold := reportNormalization.physicalThreshold / measurement.physical,
        physicalThreshold := reportNormalization.physicalThreshold })

/-- The fields and scalars that an iteration leaves to the next one. -/
structure CgState (V : Type) where
  iterate : V
  residual : V
  direction : V
  squared : ℝ
  cycle : SolveNormalization
  measurement : ResidualMeasurement

section
variable (problem : Problem V) (rhs : V) (controls : Controls) (normalization : SolveNormalization)

/-- The end of an iteration that goes on: the recurrence starts again from the true residual, or it
takes the next direction. -/
noncomputable def nextDirection (iteration : ℕ) (state : CgState V) (restart : Bool) (nextSquared : ℝ) :
    CgState V × Option SolveReport :=
  if restart then ({ state with direction := state.residual, squared := nextSquared }, none)
  else if state.squared ≤ 0 then
    (state, some (terminalCandidateReport normalization state.measurement iteration .breakdown))
  else
    ({ state with
        direction := state.residual + (nextSquared / state.squared) • state.direction
        squared := nextSquared }, none)

/-- An iteration of the loop of `solve_cg`: the state after it, and the report where it returns. -/
noncomputable def cgIteration (iteration : ℕ) (state : CgState V) : Checked (CgState V × Option SolveReport) :=
  let applied := problem.applyLinear state.direction state.cycle.scale
  let curvature := ⟪state.direction, applied⟫_ℝ
  if curvature ≤ 0 then
    .ok (state, some (terminalCandidateReport normalization state.measurement (iteration - 1) .breakdown))
  else
    let alpha := state.squared / curvature
    let iterate := state.iterate + alpha • state.direction
    let residual := state.residual - alpha • applied
    let nextSquared := ⟪residual, residual⟫_ℝ
    let measurement : ResidualMeasurement := { state.measurement with normalized := Real.sqrt nextSquared }
    let moved : CgState V :=
      { state with iterate := iterate, residual := residual, measurement := measurement }
    if nextSquared < 0 then
      .ok (moved, some (terminalCandidateReport normalization measurement iteration .invalidEvaluation))
    else if iteration = controls.maxIterations ∧ measurement.normalized ≤ state.cycle.normalizedThreshold then
      .ok (moved, some (terminalCandidateReport normalization measurement iteration .solved))
    else if iteration = controls.maxIterations then
      .ok (moved, some (terminalCandidateReport normalization measurement iteration .iterationLimit))
    else if measurement.normalized ≤ state.cycle.normalizedThreshold ∨
        NeedsExtremeRecurrenceRebase measurement.normalized then
      let physical := problem.trueResidual rhs iterate
      let confirmed : ResidualMeasurement := { physical := ‖physical‖, normalized := 0 }
      if confirmed.physical ≤ normalization.physicalThreshold then
        .ok (moved, some (reportPhysical normalization confirmed.physical iteration .solved))
      else do
        let (residual, confirmed, cycle) ← rebaseCycleResidual physical confirmed normalization
        return nextDirection normalization iteration { moved with residual := residual, cycle := cycle } true
          (confirmed.normalized * confirmed.normalized)
    else .ok (nextDirection normalization iteration moved false nextSquared)

/-- The state after `k` iterations, or where the loop has returned before. -/
noncomputable def cgRun (first : CgState V) : ℕ → Checked (CgState V × Option SolveReport)
  | 0 => .ok (first, none)
  | k + 1 => do
    match ← cgRun first k with
    | (state, some report) => return (state, some report)
    | (state, none) => cgIteration problem rhs controls normalization (k + 1) state

/-- What `solve_cg` starts from: the residual is also the first direction. -/
noncomputable def cgStart (iterate residual : V) (measurement : ResidualMeasurement) : CgState V where
  iterate := iterate
  residual := residual
  direction := residual
  squared := ⟪residual, residual⟫_ℝ
  cycle := normalization
  measurement := measurement

/-- `solve_cg`: the iterate and the report. -/
noncomputable def solveCg (iterate residual : V) (measurement : ResidualMeasurement) : Checked (V × SolveReport) := do
  let first := cgStart normalization iterate residual measurement
  let (state, report) ← cgRun problem rhs controls normalization first controls.maxIterations
  return (state.iterate, report.getD
    (terminalCandidateReport normalization state.measurement controls.maxIterations .iterationLimit))

/-- The normalization, the residual and the measurement that the entry passes to `solve_cg`. -/
noncomputable def prepare (reference : ℝ) (iterate : V) : Checked (SolveNormalization × V × ResidualMeasurement) := do
  let physical := problem.trueResidual rhs iterate
  let normalization ← makeNormalization reference ‖physical‖ controls
  return (normalization, divide physical ‖physical‖, { physical := ‖physical‖, normalized := ‖physical‖ / ‖physical‖ })

end

end Pops.SolveCg
