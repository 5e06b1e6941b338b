import Pops.Box
import Pops.Member

/-!
`runtime/program/clock_schedule.hpp`: the runtime validation of nested logical
clocks. A subcycle opens a frame for a child of the active clock, and its ticks
are counted from the ticks of the frames around it.
-/
namespace Pops

inductive ScheduleDomainKind where
  | acceptedStep
  | stage
  | clockTick
  | amrLevel
  deriving DecidableEq

/-- `ClockScheduleState::Relation`. -/
structure ClockRelation where
  parent : String
  count : ℤ
  deriving DecidableEq

/-- `ClockScheduleState::Frame`. -/
structure ClockFrame where
  parent : String
  child : String
  count : ℤ
  next : ℤ
  deriving DecidableEq

/-- `ClockScheduleState`. The relations are a map by child, whose order is never
observed; the last frame is the innermost one. -/
structure ClockSchedule where
  primary : String := ""
  relations : List (String × ClockRelation) := []
  frames : List ClockFrame := []
  deriving DecidableEq

namespace ClockSchedule

def checkedMultiply (a b : ℤ) : Checked ℤ := do
  throwIf (a < 0 ∨ b ≤ 0 ∨ a ≠ 0 ∧ b > int64Max / a) (.runtimeError "logical-clock tick overflow")
  return a * b

def checkedAdd (a b : ℤ) : Checked ℤ := do
  throwIf (a < 0 ∨ b < 0 ∨ b > int64Max - a) (.runtimeError "logical-clock tick overflow")
  return a + b

/-- `ticks_per_macro_`. Every call visits another child, so one more call than
there are relations is fuel enough. -/
def ticksPerMacroFrom (schedule : ClockSchedule) : ℕ → String → List String → Checked ℤ
  | 0, _, _ => .error (.runtimeError "logical-clock relation cycle")
  | fuel + 1, clock, visiting => do
    throwIf (clock = "" ∨ schedule.primary = "")
      (.runtimeError "logical-clock schedule is not configured")
    if clock = schedule.primary then
      return 1
    else do
      throwIf (clock ∈ visiting) (.runtimeError "logical-clock relation cycle")
      match schedule.relations.lookup clock with
      | none => .error (.runtimeError "logical clock is absent from the installed relation graph")
      | some relation => do
        let ticks ← schedule.ticksPerMacroFrom fuel relation.parent (clock :: visiting)
        checkedMultiply ticks relation.count

def ticksPerMacro (schedule : ClockSchedule) (clock : String) : Checked ℤ :=
  schedule.ticksPerMacroFrom (schedule.relations.length + 1) clock []

/-- `relations_[child] = relation`. -/
def assign (child : String) (relation : ClockRelation) :
    List (String × ClockRelation) → List (String × ClockRelation)
  | [] => [(child, relation)]
  | (key, known) :: rest =>
    if key = child then (child, relation) :: rest else (key, known) :: assign child relation rest

def configurePrimaryClock (clock : String) : Member ClockSchedule Unit := do
  let schedule ← Member.get
  Member.throwIf (clock = "") (.runtimeError "logical-clock primary identity must be non-empty")
  Member.throwIf (schedule.primary ≠ "" ∧ schedule.primary ≠ clock)
    (.runtimeError "logical-clock primary identity changed after installation")
  Member.modify fun schedule => { schedule with primary := clock }

def declareRelation (parent child : String) (count : ℤ) : Member ClockSchedule Unit := do
  let schedule ← Member.get
  Member.throwIf (parent = "" ∨ child = "" ∨ parent = child ∨ count ≤ 0)
    (.runtimeError "invalid logical-clock subcycle descriptor")
  Member.throwIf (∃ known ∈ schedule.relations.lookup child, known.parent ≠ parent ∨ known.count ≠ count)
    (.runtimeError "logical child clock has conflicting parent/count declarations")
  Member.modify fun schedule =>
    { schedule with relations := assign child ⟨parent, count⟩ schedule.relations }
  let schedule ← Member.get
  let _ticks ← Member.lift (schedule.ticksPerMacro child)

/-- One frame of `active_tick_`: from the active clock and its tick to the child's. -/
def cursorStep (cursor : String × ℤ) (frame : ClockFrame) : Checked (String × ℤ) := do
  throwIf (frame.parent ≠ cursor.1 ∨ frame.next ≤ 0 ∨ frame.next > frame.count)
    (.runtimeError "logical-clock active subcycle cursor is invalid")
  let scaled ← checkedMultiply cursor.2 frame.count
  let tick ← checkedAdd scaled (frame.next - 1)
  return (frame.child, tick)

/-- The clock the frames end at and its tick, the loop of `active_tick_`. -/
def cursor (schedule : ClockSchedule) (macroStep : ℤ) : Checked (String × ℤ) :=
  schedule.frames.foldlM cursorStep (schedule.primary, macroStep)

def activeTick (schedule : ClockSchedule) (clock : String) (macroStep : ℤ) : Checked (Option ℤ) := do
  throwIf (macroStep < 0 ∨ schedule.primary = "")
    (.runtimeError "logical-clock coordinate requires a configured accepted step")
  let (active, tick) ← schedule.cursor macroStep
  return if active ≠ clock then none else some tick

def coordinate (schedule : ClockSchedule) (kind : ScheduleDomainKind) (clock stageIdentity : String)
    (requiredLevel currentLevel macroStep : ℤ) : Checked (Option ℤ) := do
  let tick ← schedule.activeTick clock macroStep
  match tick with
  | none => return none
  | some tick =>
    match kind with
    | .acceptedStep => do
      throwIf (stageIdentity ≠ "" ∨ requiredLevel ≠ -1)
        (.runtimeError "accepted-step schedule carries foreign domain payload")
      return some macroStep
    | .stage => do
      throwIf (stageIdentity = "" ∨ requiredLevel ≠ -1)
        (.runtimeError "stage schedule lacks its exact stage identity")
      return some macroStep
    | .clockTick => do
      throwIf (stageIdentity ≠ "" ∨ requiredLevel ≠ -1)
        (.runtimeError "clock-tick schedule carries foreign domain payload")
      return some tick
    | .amrLevel => do
      throwIf (stageIdentity ≠ "" ∨ requiredLevel < 0)
        (.runtimeError "AMR-level schedule lacks its exact level")
      return if currentLevel ≠ requiredLevel then none else some tick

/-- `accepted_ticks`: the counts by clock, the primary one first. -/
def acceptedTicks (schedule : ClockSchedule) (macroStep : ℤ) : Checked (List (String × ℤ)) := do
  throwIf (schedule.primary = "") (.runtimeError "logical-clock schedule has no primary clock")
  (schedule.primary :: schedule.relations.map Prod.fst).mapM fun clock => do
    let ticks ← schedule.ticksPerMacro clock
    let accepted ← checkedMultiply macroStep ticks
    return (clock, accepted)

/-- The clock a new subcycle must start from. -/
def active (schedule : ClockSchedule) : String :=
  match schedule.frames.getLast? with
  | none => schedule.primary
  | some frame => frame.child

/-- `begin_`: the depth of the frame it opens. -/
def beginSubcycle (parent child : String) (count : ℤ) : Member ClockSchedule ℕ := do
  Member.throwIf (parent = "" ∨ child = "" ∨ parent = child ∨ count ≤ 0)
    (.runtimeError "invalid logical-clock subcycle descriptor")
  declareRelation parent child count
  let schedule ← Member.get
  Member.throwIf (schedule.active ≠ parent)
    (.runtimeError "nested logical-clock subcycle parent does not match the active child clock")
  Member.modify fun schedule => { schedule with frames := schedule.frames ++ [⟨parent, child, count, 0⟩] }
  return schedule.frames.length

def frame (schedule : ClockSchedule) (depth : ℕ) : Checked ClockFrame :=
  match schedule.frames.getLast? with
  | none => .error (.runtimeError "logical-clock subcycle scopes must close in stack order")
  | some frame =>
    if depth + 1 = schedule.frames.length then .ok frame
    else .error (.runtimeError "logical-clock subcycle scopes must close in stack order")

def iteration (depth : ℕ) (index : ℤ) : Member ClockSchedule Unit := do
  let schedule ← Member.get
  let frame ← Member.lift (schedule.frame depth)
  Member.throwIf (index ≠ frame.next ∨ index < 0 ∨ index ≥ frame.count)
    (.runtimeError "logical-clock subcycle iteration cursor is not sequential")
  Member.modify fun schedule =>
    { schedule with frames := schedule.frames.dropLast ++ [{ frame with next := frame.next + 1 }] }

def finish (depth : ℕ) : Member ClockSchedule Unit := do
  let schedule ← Member.get
  let frame ← Member.lift (schedule.frame depth)
  Member.throwIf (frame.next ≠ frame.count)
    (.runtimeError "logical-clock subcycle ended before all child ticks completed")
  Member.modify fun schedule => { schedule with frames := schedule.frames.dropLast }

end ClockSchedule

end Pops
