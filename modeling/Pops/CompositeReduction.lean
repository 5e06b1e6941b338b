import Pops.Distribution
import Pops.BoxTraversal
import Mathlib.Algebra.Order.Field.Basic

/-!
`runtime/amr/composite_reduction.hpp`: a reduction over the active cells of all
levels, collective over the processes. Finite numbers are exact, the others are
kept, so that an array may hold anything.
-/
namespace Pops.CompositeReduction
open MixedRadix

/-- A `Real` without rounding. -/
inductive Scalar (K : Type) where
  | finite (value : K)
  | infinite (negative : Bool)
  | nan
  deriving DecidableEq

variable {d : ℕ} {K : Type} [Field K] [LinearOrder K]

namespace Scalar

/-- `left < right`. -/
def less : Scalar K → Scalar K → Bool
  | finite left, finite right => decide (left < right)
  | finite _, infinite negative => !negative
  | infinite negative, finite _ => negative
  | infinite left, infinite right => left && !right
  | _, _ => false

/-- `left == right`. -/
def equal : Scalar K → Scalar K → Bool
  | finite left, finite right => decide (left = right)
  | infinite left, infinite right => left == right
  | _, _ => false

/-- `left <= right`. -/
def atMost (left right : Scalar K) : Bool := less left right || equal left right

def isFinite : Scalar K → Bool
  | finite _ => true
  | _ => false

def negate : Scalar K → Scalar K
  | finite value => finite (-value)
  | infinite negative => infinite !negative
  | nan => nan

def add : Scalar K → Scalar K → Scalar K
  | finite left, finite right => finite (left + right)
  | finite _, infinite negative => infinite negative
  | infinite negative, finite _ => infinite negative
  | infinite left, infinite right => if left = right then infinite left else nan
  | _, _ => nan

/-- An infinity times a number. -/
def scaleInfinite (negative : Bool) (value : K) : Scalar K :=
  if value = 0 then nan else infinite (negative != decide (value < 0))

def mul : Scalar K → Scalar K → Scalar K
  | finite left, finite right => finite (left * right)
  | finite value, infinite negative => scaleInfinite negative value
  | infinite negative, finite value => scaleInfinite negative value
  | infinite left, infinite right => infinite (left != right)
  | _, _ => nan

def max (left right : Scalar K) : Scalar K := if less left right then right else left

end Scalar

open Scalar

inductive CompositeReductionKind where
  | sum
  | absoluteSum
  | sumSquares
  | minimum
  | maximum
  | absoluteMaximum
  deriving DecidableEq

def CompositeReductionKind.isSumKind (kind : CompositeReductionKind) : Bool :=
  kind = .sum || kind = .absoluteSum || kind = .sumSquares

/-- What the kernels read of a cell: the value of the component, the mask and the relative measure, if any. -/
structure Cell (K : Type) where
  value : Scalar K
  active : Scalar K
  relative : Option (Scalar K)
  deriving DecidableEq

namespace Cell

/-- The mask or the relative measure is zero. -/
def hides (cell : Cell K) : Bool :=
  cell.active.equal (finite 0) ||
    match cell.relative with
    | none => false
    | some relative => relative.equal (finite 0)

def invalidMaskValue (cell : Cell K) : Scalar K :=
  if cell.active.equal (finite 0) || cell.active.equal (finite 1) then finite 0 else finite 1

def invalidSelectedValue (limit : K) (cell : Cell K) : Scalar K :=
  if cell.hides then finite 0
  else if cell.value.atMost (finite limit) && (finite (-limit)).atMost cell.value then finite 0
  else finite 1

/-- `InvalidRelativeMeasure`, where there is one. -/
def invalidRelativeMeasure (cell : Cell K) : Scalar K :=
  match cell.relative with
  | none => finite 0
  | some relative =>
    if (finite 0).atMost relative && relative.atMost (finite 1) && relative.isFinite then finite 0 else finite 1

/-- The weight of a cell that is not hidden. -/
def weight (cell : Cell K) : Scalar K := cell.relative.getD (finite 1)

def activeCell (cell : Cell K) : Scalar K :=
  if cell.active.equal (finite 1) then cell.weight else finite 0

def sumValue (kind : CompositeReductionKind) (cell : Cell K) : Scalar K :=
  if cell.hides then finite 0
  else if kind = .absoluteSum then
    (if cell.value.less (finite 0) then cell.value.negate else cell.value).mul cell.weight
  else if kind = .sumSquares then (cell.value.mul cell.value).mul cell.weight
  else cell.value.mul cell.weight

def extremumValue (limit : K) (kind : CompositeReductionKind) (cell : Cell K) : Scalar K :=
  if cell.hides then finite (-limit)
  else
    let value :=
      if kind = .absoluteMaximum && cell.value.less (finite 0) then cell.value.negate else cell.value
    if kind = .minimum then value.negate else value

end Cell

/-- `for_each_cell_reduce_sum`. -/
def reduceSum (kernel : Cell K → Scalar K) (cells : List (Cell K)) : Scalar K :=
  cells.foldl (fun accumulator cell => accumulator.add (kernel cell)) (finite 0)

/-- `for_each_cell_reduce_max`: zero where there is no cell. -/
def reduceMax (limit : K) (kernel : Cell K → Scalar K) (cells : List (Cell K)) : Scalar K :=
  match cells with
  | [] => finite 0
  | cells => cells.foldl (fun accumulator cell =>
      if accumulator.less (kernel cell) then kernel cell else accumulator) (finite (-limit))

/-- A `MultiFab` on all processes: the value in a patch, at a cell, of a component as a process holds it. -/
structure MultiFab (d : ℕ) (K : Type) where
  layout : BoxArray d
  distribution : Distribution d
  ncomp : ℤ
  holds : ℕ → ℕ → Index d → ℤ → Scalar K
  matchesLayout : distribution.layout = layout

namespace MultiFab

/-- `local_rank()` of a process. -/
def localRank (field : MultiFab d K) (process : ℕ) : Index d :=
  match field.distribution.rankSpace.coordinate process with
  | .ok coordinate => coordinate
  | .error _ => field.distribution.rankSpace.origin

/-- The patches that a process holds. -/
def localBoxes (field : MultiFab d K) (process : ℕ) : List ℕ :=
  (List.range field.layout.boxes.length).filter fun patch =>
    field.distribution.IsLocal patch (field.localRank process)

end MultiFab

/-- `CompositeLevelView`, on all processes. -/
structure CompositeLevelView (d : ℕ) (K : Type) where
  values : Option (MultiFab d K)
  active : Option (MultiFab d K)
  cellExtent : Fin d → Scalar K
  relativeMeasure : Option (MultiFab d K)

/-- A field whose layout or ownership is not the one of the values. -/
def Unauthenticated (values other : MultiFab d K) (process : ℕ) : Prop :=
  other.ncomp ≠ 1 ∨ values.layout ≠ other.layout ∨ values.distribution ≠ other.distribution ∨
    values.localRank process ≠ other.localRank process ∨
    (values.localBoxes process).length ≠ (other.localBoxes process).length

instance (values other : MultiFab d K) (process : ℕ) : Decidable (Unauthenticated values other process) :=
  inferInstanceAs (Decidable (_ ∨ _))

/-- The part of `require_level_shape` about a relative measure. -/
def requireRelativeShape (values : MultiFab d K) (relative : Option (MultiFab d K)) (process : ℕ) : Checked Unit :=
  match relative with
  | none => .ok ()
  | some relative =>
    throwIf (Unauthenticated values relative process)
      (.invalidArgument "composite reduction relative measure does not authenticate the field ownership")

/-- `require_level_shape`, with the values and the mask that it has seen. -/
def requireLevelShape (level : CompositeLevelView d K) (component : ℤ) (process : ℕ) :
    Checked (MultiFab d K × MultiFab d K) := do
  match level.values, level.active with
  | some values, some active =>
    throwIf (component < 0 ∨ component ≥ values.ncomp)
      (.outOfRange "composite reduction component is outside the level field")
    throwIf (Unauthenticated values active process)
      (.invalidArgument "composite reduction mask does not authenticate the field layout and ownership")
    requireRelativeShape values level.relativeMeasure process
    throwIf (∃ axis, (finite 0).less (level.cellExtent axis) = false ∨ (level.cellExtent axis).isFinite = false)
      (.invalidArgument "composite reduction cell extents must be finite and positive")
    return (values, active)
  | _, _ => .error (.invalidArgument "composite reduction requires values and an active-cell mask")

/-- `contributes_on_this_rank`. -/
def Contributes (values : MultiFab d K) (process : ℕ) : Prop :=
  values.distribution.mode ≠ .replicated ∨ values.localRank process = values.localRank 0

instance (values : MultiFab d K) (process : ℕ) : Decidable (Contributes values process) :=
  inferInstanceAs (Decidable (_ ∨ _))

def cellMeasure (extent : Fin d → Scalar K) : Scalar K :=
  (List.finRange d).foldl (fun measure axis => measure.mul (extent axis)) (finite 1)

/-- The cells of a box by their ordinals. -/
def cellsOf (box : Box d) : List (Index d) :=
  if box.Empty then [] else (List.range (volume box.counts (List.finRange d))).map box.indexAt

/-- The cells of a patch as a process holds them. -/
def patchCells (values active : MultiFab d K) (relative : Option (MultiFab d K)) (component : ℤ)
    (process patch : ℕ) : List (Cell K) :=
  (cellsOf (values.layout.boxes.getD patch Box.default)).map fun index =>
    ⟨values.holds process patch index component, active.holds process patch index 0,
      relative.map fun relative => relative.holds process patch index 0⟩

/-- `local_selected`, `local_active_measure` and `local_invalid`. -/
structure Partial (K : Type) where
  selected : Scalar K
  activeMeasure : Scalar K
  invalid : Scalar K

/-- What a selected value starts from. -/
def startValue (limit : K) (kind : CompositeReductionKind) : Scalar K :=
  if kind.isSumKind then finite 0 else finite (-limit)

/-- One patch of a level. -/
def patchStep (limit : K) (kind : CompositeReductionKind) (hasRelative : Bool) (level : Partial K)
    (cells : List (Cell K)) : Partial K where
  selected :=
    if kind.isSumKind then level.selected.add (reduceSum (Cell.sumValue kind) cells)
    else level.selected.max (reduceMax limit (Cell.extremumValue limit kind) cells)
  activeMeasure := level.activeMeasure.add (reduceSum Cell.activeCell cells)
  invalid :=
    let masked := level.invalid.max (reduceMax limit Cell.invalidMaskValue cells)
    let selected := masked.max (reduceMax limit (Cell.invalidSelectedValue limit) cells)
    if hasRelative then selected.max (reduceMax limit Cell.invalidRelativeMeasure cells) else selected

/-- One level, with its patches. -/
def levelStep (limit : K) (kind : CompositeReductionKind) (hasRelative : Bool) (measure : Scalar K)
    (found : Partial K) (patches : List (List (Cell K))) : Partial K :=
  let level := patches.foldl (patchStep limit kind hasRelative) ⟨startValue limit kind, finite 0, found.invalid⟩
  { selected :=
      if kind.isSumKind then found.selected.add (level.selected.mul measure)
      else found.selected.max level.selected
    activeMeasure := found.activeMeasure.add (level.activeMeasure.mul measure)
    invalid := level.invalid }

/-- The loop of `composite_reduce` over the levels, on a process. -/
def localReduce (limit : K) (component : ℤ) (kind : CompositeReductionKind) (process : ℕ) :
    Partial K → List (CompositeLevelView d K) → Checked (Partial K)
  | found, [] => .ok found
  | found, level :: rest => do
    let (values, active) ← requireLevelShape level component process
    if Contributes values process then
      localReduce limit component kind process
        (levelStep limit kind level.relativeMeasure.isSome (cellMeasure level.cellExtent) found
          ((values.localBoxes process).map
            (patchCells values active level.relativeMeasure component process))) rest
    else localReduce limit component kind process found rest

structure CompositeReductionResult (K : Type) where
  value : Scalar K
  activeMeasure : Scalar K
  deriving DecidableEq

def allReduceSum (values : List (Scalar K)) : Scalar K := values.foldl Scalar.add (finite 0)

def allReduceMax : List (Scalar K) → Scalar K
  | [] => finite 0
  | value :: rest => rest.foldl Scalar.max value

/-- The collective end of `composite_reduce`, the same on every process. -/
def finish (kind : CompositeReductionKind) (parts : List (Partial K)) : Checked (CompositeReductionResult K) := do
  throwIf ((allReduceMax (parts.map Partial.invalid)).equal (finite 0) = false)
    (.runtimeError "composite reduction observed a non-binary mask or non-finite value")
  let globalActiveMeasure := allReduceSum (parts.map Partial.activeMeasure)
  throwIf ((finite 0).less globalActiveMeasure = false ∨ globalActiveMeasure.isFinite = false)
    (.runtimeError "composite reduction has no finite positive active measure")
  let globalValue :=
    if kind.isSumKind then allReduceSum (parts.map Partial.selected)
    else
      let greatest := allReduceMax (parts.map Partial.selected)
      if kind = .minimum then greatest.negate else greatest
  throwIf (globalValue.isFinite = false) (.runtimeError "composite reduction result is not finite")
  return ⟨globalValue, globalActiveMeasure⟩

/-- `composite_reduce` on one of the processes: its own levels first, then the collectives. -/
def compositeReduce (limit : K) (processes : ℕ) (levels : List (CompositeLevelView d K)) (component : ℤ)
    (kind : CompositeReductionKind) (process : ℕ) : Checked (CompositeReductionResult K) := do
  throwIf (levels = []) (.invalidArgument "composite reduction requires at least one prepared level")
  let start : Partial K := ⟨startValue limit kind, finite 0, finite 0⟩
  let _ ← localReduce limit component kind process start levels
  let parts ← (List.range processes).mapM fun other => localReduce limit component kind other start levels
  finish kind parts

end Pops.CompositeReduction
