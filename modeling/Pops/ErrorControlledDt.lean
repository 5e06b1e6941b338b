import Mathlib

/-!
The error-controlled step controller: how a step's proposals are made, retried and carried
over to the next step. Times and steps are the elements of an ordered field, so that sums and
products are exact.
-/
namespace Pops.ErrorControlledDt

variable (K : Type) [Field K] [LinearOrder K]

/-- `ErrorControlledDt`, with what `__post_init__` checks. -/
structure Strategy where
  dtInit : K
  rtol : K
  atol : K
  dtMin : K
  dtMax : K
  maxRejections : ℕ
  shrink : K
  growth : K
  dtInit_pos : 0 < dtInit
  rtol_pos : 0 < rtol
  atol_pos : 0 < atol
  dtMin_pos : 0 < dtMin
  dtMax_pos : 0 < dtMax
  maxRejections_pos : 0 < maxRejections
  shrink_pos : 0 < shrink
  growth_pos : 0 < growth
  dtMin_le : dtMin ≤ dtInit
  dtInit_le : dtInit ≤ dtMax
  shrink_lt : shrink < 1
  growth_ge : 1 ≤ growth

variable {K}

/-- How one native attempt ends: accepted, rejected by its error estimate, or stopped by
another exception, here or later in the step's transaction. -/
inductive Outcome where
  | accepted
  | rejected
  | failed

/-- The proposals a step attempted, and the one that was accepted. -/
structure Attempts (K : Type) where
  proposals : List K
  accepted : Option K

/-- The `retry` of `prepare_attempts`: the reduced proposal, when one may still be tried. -/
def retry (strategy : Strategy K) (attempts : ℕ) (proposal : K) : Option K :=
  if attempts > strategy.maxRejections then none
  else
    let reduced := proposal * strategy.shrink
    if reduced < strategy.dtMin then none else some reduced

/-- `_execute_prepared_attempts`, after `attempts` attempts, along the outcomes to come. -/
def execute (strategy : Strategy K) : List Outcome → ℕ → K → Attempts K
  | [], _, _ => { proposals := [], accepted := none }
  | .accepted :: _, _, proposal => { proposals := [proposal], accepted := some proposal }
  | .failed :: _, _, proposal => { proposals := [proposal], accepted := none }
  | .rejected :: outcomes, attempts, proposal =>
    match retry strategy (attempts + 1) proposal with
    | none => { proposals := [proposal], accepted := none }
    | some reduced =>
      let later := execute strategy outcomes (attempts + 1) reduced
      { later with proposals := proposal :: later.proposals }

/-- The native clock and the proposal the controller carries. The temporal event queue repeats
the proposal of each attempt and is read back only at a restart. -/
structure State (K : Type) where
  time : K
  nextDt : K

/-- `ErrorControlledDtController.__init__`. -/
def State.initial (strategy : Strategy K) (time : K) : State K := { time, nextDt := strategy.dtInit }

/-- The first proposal of `prepare_attempts`. -/
def proposal (strategy : Strategy K) (s : State K) (tEnd : K) : K :=
  min (min s.nextDt strategy.dtMax) (tEnd - s.time)

/-- The `accept` of `prepare_attempts`, once the attempt has moved the clock. -/
def accept (strategy : Strategy K) (s : State K) (accepted : K) : State K :=
  { time := s.time + accepted, nextDt := min strategy.dtMax (accepted * strategy.growth) }

/-- One call of the controller by the run loop: where the step has to end, and how its
attempts turn out. -/
structure Call (K : Type) where
  tEnd : K
  outcomes : List Outcome

/-- What a call did. -/
structure Record (K : Type) where
  before : State K
  call : Call K
  proposals : List K
  after : State K

/-- One pass of the run loop, which calls the controller only before the final time. A step
that is not accepted leaves the clock and the controller as they were. -/
def step (strategy : Strategy K) (s : State K) (call : Call K) : Record K :=
  if s.time < call.tEnd then
    let sequence := execute strategy call.outcomes 0 (proposal strategy s call.tEnd)
    { before := s, call, proposals := sequence.proposals,
      after := match sequence.accepted with
        | some accepted => accept strategy s accepted
        | none => s }
  else { before := s, call, proposals := [], after := s }

/-- The calls of consecutive runs, whatever their final times. -/
def records (strategy : Strategy K) : State K → List (Call K) → List (Record K)
  | _, [] => []
  | s, call :: calls =>
    let record := step strategy s call
    record :: records strategy record.after calls

end Pops.ErrorControlledDt
