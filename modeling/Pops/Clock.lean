import Pops.Rational

/-!
`numerics/time/amr/levels/amr_clock.hpp`: qualified clock stamps, windows, and
the partition of a parent window into the substeps of its child level. Phases
are exact; physical times are rounded and decide nothing but the direction of
the parent window.
-/
namespace Pops

/-- `double`, as the clocks use it. Nothing is assumed of its rounding. -/
class Double (T : Type) where
  ofInt64 : ℤ → T
  add : T → T → T
  sub : T → T → T
  mul : T → T → T
  div : T → T → T
  less : T → T → Bool
  isFinite : T → Bool

variable {T : Type}

/-- `Rational::value()`. -/
def Rational.toDouble [Double T] (rational : Rational) : T :=
  Double.div (Double.ofInt64 rational.numerator) (Double.ofInt64 rational.denominator)

structure ClockStamp (T : Type) where
  level : ℤ
  macroStep : ℤ
  phase : Rational
  physicalTime : T

/-- `ClockWindow`, from `begin` to `end`. -/
structure ClockWindow (T : Type) where
  opening : ClockStamp T
  closing : ClockStamp T

inductive RemainderPolicy where
  | integralOnly
  | explicitFinalSubstep
  deriving DecidableEq

structure ChildSubstep (T : Type) where
  window : ClockWindow T
  isDeclaredRemainder : Bool

private theorem one_fits : int64Min ≤ 1 ∧ (1 : ℤ) ≤ int64Max := by decide
private theorem one_bounded : (1 : ℤ) ≤ int64Max := one_fits.2
private theorem one_reduced : (1 : ℤ).natAbs.Coprime (1 : ℤ).natAbs := by decide

/-- `Rational(1, 1)`. -/
def Rational.one : Rational := ⟨1, 1, one_fits, Int.one_pos, one_bounded, one_reduced⟩

/-- `ParentChildClockRelation`: the temporal ratio is the parent step over the
nominal child step. -/
structure ParentChildClockRelation where
  parentLevel : ℤ
  childLevel : ℤ
  temporalRatio : Rational
  remainderPolicy : RemainderPolicy
  nonnegative : 0 ≤ parentLevel
  adjacent : childLevel = parentLevel + 1
  atLeastOne : temporalRatio.less .one = false

namespace ParentChildClockRelation

variable [Double T] (relation : ParentChildClockRelation)

/-- The physical time of a phase, as `make_child_window_` rounds it. -/
def physicalTime (parent : ClockWindow T) (parentSpan phase : Rational) : Checked T := do
  let offset ← phase.sub parent.opening.phase
  let fraction ← offset.div parentSpan
  return Double.add parent.opening.physicalTime
    (Double.mul (Double.sub parent.closing.physicalTime parent.opening.physicalTime) fraction.toDouble)

def makeChildWindow (parent : ClockWindow T) (opening closing : Rational) : Checked (ClockWindow T) := do
  let parentSpan ← parent.closing.phase.sub parent.opening.phase
  let openingTime ← physicalTime parent parentSpan opening
  let closingTime ← physicalTime parent parentSpan closing
  return ⟨⟨relation.childLevel, parent.opening.macroStep, opening, openingTime⟩,
    ⟨relation.childLevel, parent.opening.macroStep, closing, closingTime⟩⟩

/-- The loop of `partition` over the nominal substeps, with the cursor it ends at. -/
def nominalSubsteps (parent : ClockWindow T) (nominal : Rational) :
    ℕ → Rational → Checked (List (ChildSubstep T) × Rational)
  | 0, cursor => .ok ([], cursor)
  | count + 1, cursor => do
    let next ← cursor.add nominal
    let window ← relation.makeChildWindow parent cursor next
    let (later, last) ← nominalSubsteps parent nominal count next
    return (⟨window, false⟩ :: later, last)

/-- `std::vector<ChildSubstep>::max_size()`. -/
def childSubstepMaxSize : ℤ := int64Max / 88

def partition (parent : ClockWindow T) : Checked (List (ChildSubstep T)) := do
  throwIf (parent.opening.level ≠ relation.parentLevel ∨ parent.closing.level ≠ relation.parentLevel ∨
      parent.opening.phase.less parent.closing.phase = false ∨
      Double.less parent.opening.physicalTime parent.closing.physicalTime = false)
    (.runtimeError "AMR parent clock window does not match its relation")
  throwIf (¬ relation.temporalRatio.Integral ∧ relation.remainderPolicy = .integralOnly)
    (.runtimeError "non-integral AMR temporal relation requires an explicit remainder policy")
  let span ← parent.closing.phase.sub parent.opening.phase
  let nominal ← span.div relation.temporalRatio
  let full := relation.temporalRatio.numerator / relation.temporalRatio.denominator
  throwIf (full + (if relation.temporalRatio.Integral then 0 else 1) > childSubstepMaxSize)
    (.lengthError "vector::reserve")
  let (result, cursor) ← relation.nominalSubsteps parent nominal full.toNat parent.opening.phase
  if cursor.less parent.closing.phase then do
    let window ← relation.makeChildWindow parent cursor parent.closing.phase
    return result ++ [⟨window, true⟩]
  else
    return result

end ParentChildClockRelation

end Pops
