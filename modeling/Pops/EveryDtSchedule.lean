import Pops.Rounding

/-!
The `EveryDt` trigger, and the occurrences a run publishes with it. Times are rationals, and
every operation of the source on them is exact arithmetic rounded to binary64.
-/
namespace Pops.EveryDtSchedule
open Rounding

/-- `EveryDt`: the interval, and the decimal that `str` spells it with. -/
structure EveryDt where
  interval : ℚ
  decimal : ℚ
  positive : 0 < interval
  finite : isFinite interval = true
  spelled : binary64 decimal = interval

/-- The `RuntimeError` and the `OverflowError` of the trigger. -/
inductive ScheduleError where
  | belowResolution
  | deadlineNotFinite
  deriving DecidableEq

/-- `_same_physical_time`. -/
def samePhysicalTime (left right : ℚ) : Bool := binary64 |left - right| ≤ 4 * max (ulp left) (ulp right)

/-- `_every_dt_quotient`, before it is checked. -/
def quotient (trigger : EveryDt) (now : ℚ) : ℚ := binary64 (now / trigger.interval)

/-- `_every_dt_quotient`. -/
def everyDtQuotient (trigger : EveryDt) (now : ℚ) : Except ScheduleError ℚ :=
  if isFinite (quotient trigger now) then .ok (quotient trigger now) else .error .belowResolution

/-- `_every_dt_lattice_time`. -/
def everyDtLatticeTime (trigger : EveryDt) (index : ℤ) : ℚ := binary64 (trigger.decimal * index)

/-- `consumer_due`. -/
def consumerDue (trigger : EveryDt) (atStart : Bool) (now : ℚ) : Except ScheduleError Bool :=
  if atStart then .ok false
  else do
    let index := nearest (← everyDtQuotient trigger now)
    if index < 1 then .ok false
    else
      let target := everyDtLatticeTime trigger index
      .ok (isFinite target && decide (target ≤ now) && samePhysicalTime now target)

/-- `consumer_occurrence_evidence`: the index of the lattice point. -/
def consumerOccurrenceEvidence (trigger : EveryDt) (now : ℚ) : Except ScheduleError (Option ℤ) := do
  let index := nearest (← everyDtQuotient trigger now)
  if index < 1 then .ok none
  else
    let target := everyDtLatticeTime trigger index
    if isFinite target && decide (target ≤ now) && samePhysicalTime now target then .ok (some index) else .ok none

/-- `consumer_next_deadline`. -/
def consumerNextDeadline (trigger : EveryDt) (now : ℚ) : Except ScheduleError ℚ := do
  let quotient ← everyDtQuotient trigger now
  let closest := nearest quotient
  let nearestTime := everyDtLatticeTime trigger closest
  let index :=
    if decide (1 ≤ closest) && decide (nearestTime ≤ now) && samePhysicalTime now nearestTime then closest + 1
    else max 1 (⌊quotient⌋ + 1)
  let deadline := everyDtLatticeTime trigger index
  if isFinite deadline then
    if now < deadline then .ok deadline else .error .belowResolution
  else .error .deadlineNotFinite

/-- The cursor of a consumer and the occurrences published for it, with their times. The token
of an occurrence is that of its index. -/
structure Publications where
  lastOccurrence : Option ℤ
  published : List (ℤ × ℚ)
  deriving DecidableEq

/-- What `plan_consumers` makes of an accepted time, once its effect is accepted. -/
def fireConsumers (trigger : EveryDt) (atStart : Bool) (now : ℚ) (before : Publications) :
    Except ScheduleError Publications := do
  if ← consumerDue trigger atStart now then
    match ← consumerOccurrenceEvidence trigger now with
    | none => .ok before
    | some index =>
      if before.lastOccurrence = some index then .ok before
      else .ok { lastOccurrence := some index, published := before.published ++ [(index, now)] }
  else .ok before

/-- The accepted times of a run after its start. -/
def acceptAll (trigger : EveryDt) (before : Publications) : List ℚ → Except ScheduleError Publications
  | [] => .ok before
  | now :: later => do acceptAll trigger (← fireConsumers trigger false now before) later

/-- A run fires the consumers at its start and at every accepted time. -/
def run (trigger : EveryDt) (start : ℚ) (times : List ℚ) : Except ScheduleError Publications := do
  let started ← fireConsumers trigger true start { lastOccurrence := none, published := [] }
  acceptAll trigger started times

end Pops.EveryDtSchedule
