import Mathlib
import Pops.FaceTransfer

/-!
The cell and node transfers of `amr/transfer/transfer_provider.hpp`: the kernels
of a prepared transfer and the preparation that checks their footprint. `Real`
arithmetic is exact: `K` is any ordered field. Beside each kernel stand the
source indices it reads, in the order of the source.
-/
namespace Pops.CellTransfer
open Finset Function MixedRadix
open FaceTransfer (IndexMapping parentOf childOf radix raise monotonizedCentralSlope floorDivPositive ceilDivPositive
  checkedTransferAdd)

/-- `TransferKind`, the kinds a `TransferProvider` may have. -/
inductive TransferKind where
  | conservativeRestriction
  | linearProlongation
  | coarseFineGhostInterpolation
  | constantInjection
  | fifthOrderCoarseFineGhostInterpolation
  | nodeMultilinearProlongation
  | divergencePreservingFaceProlongation
  deriving DecidableEq

inductive Centering where
  | cell | node | face0 | face1 | face2
  deriving DecidableEq

variable {K : Type} [Field K] [LinearOrder K] {d : ℕ}

/-! ### Fifth-order weights -/

def integerPower (value : K) (exponent : ℕ) : K := (List.range exponent).foldl (fun result _ => result * value) 1

def inverseQuarticCellMoment (degree stencil : ℕ) : K :=
  if degree = 0 then
    if stencil = 0 ∨ stencil = 4 then 3 / 640
    else if stencil = 1 ∨ stencil = 3 then -29 / 480
    else 1067 / 960
  else if degree = 1 then
    if stencil = 0 then 5 / 48
    else if stencil = 1 then -17 / 24
    else if stencil = 3 then 17 / 24
    else if stencil = 4 then -5 / 48
    else 0
  else if degree = 2 then
    if stencil = 0 ∨ stencil = 4 then -1 / 16
    else if stencil = 1 ∨ stencil = 3 then 3 / 4
    else -11 / 8
  else if degree = 3 then
    if stencil = 0 then -1 / 12
    else if stencil = 1 then 1 / 6
    else if stencil = 3 then -1 / 6
    else if stencil = 4 then 1 / 12
    else 0
  else
    if stencil = 0 ∨ stencil = 4 then 1 / 24
    else if stencil = 1 ∨ stencil = 3 then -1 / 6
    else 1 / 4

/-- `averaged_monomials[degree]`. -/
def averagedMonomial (child ratio : ℤ) (degree : ℕ) : K :=
  let inverseRatio : K := 1 / (ratio : K)
  let lower : K := -(1 / (2 : ℕ)) + (child : K) * inverseRatio
  let upper : K := lower + inverseRatio
  if degree = 0 then 1
  else (ratio : K) * (integerPower upper (degree + 1) - integerPower lower (degree + 1)) / ((degree + 1 : ℕ) : K)

/-- `fifth_order_cell_average_weights`, the weight of one of the five stencil cells. -/
def fifthOrderCellAverageWeight (child ratio : ℤ) (stencil : ℕ) : K :=
  if ratio = 1 then if stencil = 2 then 1 else 0
  else ∑ degree ∈ range 5, averagedMonomial child ratio degree * inverseQuarticCellMoment degree stencil

/-! ### The kernels -/

/-- The source values a kernel reads, by index and component. -/
abbrev CellSource (K : Type) (d : ℕ) := Index d → ℤ → K

section Kernels
variable (ratio : RefinementRatio d) (mapping : IndexMapping d)

/-- The children `increment_child` passes through, axis 0 first. -/
def children : List (Index d) :=
  (List.range (volume (radix ratio) (List.finRange d))).map fun ordinal axis =>
    ((decode (radix ratio) (List.finRange d) ordinal fun _ => 0).1 axis : ℤ)

/-- `fine_base` of `restrict_cell`. -/
def fineBase (coarse : Index d) : Index d := fun axis =>
  castInt (mapping.fineOrigin axis + (coarse axis - mapping.coarseOrigin axis) * ratio axis)

/-- A child of the base of a coarse cell. -/
def fineChild (coarse child : Index d) : Index d := fun axis => fineBase ratio mapping coarse axis + child axis

variable (source : CellSource K d)

def restrictCell (coarse : Index d) (component : ℤ) : K :=
  let anchor := source (fineBase ratio mapping coarse) component
  let correction := ((children ratio).map fun child =>
    source (fineChild ratio mapping coarse child) component - anchor).sum
  anchor + correction / (ratio.childCount : K)

def restrictReads (coarse : Index d) : List (Index d) :=
  fineBase ratio mapping coarse :: (children ratio).map (fineChild ratio mapping coarse)

/-- The neighbour below along an axis. -/
def lowered (index : Index d) (axis : Fin d) : Index d := update index axis (index axis - 1)

/-- The limited slope about a coarse cell along an axis. -/
def limitedSlope (parent : Index d) (component : ℤ) (axis : Fin d) : K :=
  monotonizedCentralSlope (source (lowered parent axis) component) (source parent component)
    (source (raise parent axis) component)

def interpolateCell (fine : Index d) (component : ℤ) : K :=
  let parent := parentOf ratio mapping fine
  let child := childOf ratio mapping fine
  source parent component + ∑ axis,
    if ratio axis = 1 then 0
    else limitedSlope source parent component axis * ((2 * child axis + 1 - ratio axis : ℤ) : K) /
      ((2 * ratio axis : ℤ) : K)

/-- The coarse stencil of `interpolate_cell`. -/
def linearStencil (parent : Index d) : List (Index d) :=
  parent :: ((List.finRange d).filter fun axis => ratio axis ≠ 1).flatMap fun axis =>
    [lowered parent axis, parent, raise parent axis]

def interpolateReads (fine : Index d) : List (Index d) := linearStencil ratio (parentOf ratio mapping fine)

def injectCell (fine : Index d) (component : ℤ) : K := source (parentOf ratio mapping fine) component

def injectReads (fine : Index d) : List (Index d) := [parentOf ratio mapping fine]

/-- `active_axes` of `interpolate_node`. -/
def activeAxes (child : Index d) : List (Fin d) := (List.finRange d).filter fun axis => child axis ≠ 0

/-- Whether a corner is the upper one along an axis. -/
def cornerBit (child : Index d) (corner : ℕ) (axis : Fin d) : ℕ :=
  (decode (fun _ => 2) (activeAxes child) corner fun _ => 0).1 axis

/-- `source_index` of a corner. -/
def cornerIndex (parent child : Index d) (corner : ℕ) : Index d := fun axis => parent axis + cornerBit child corner axis

/-- `weight` of a corner. -/
def cornerWeight (child : Index d) (corner : ℕ) : K :=
  ((activeAxes child).map fun axis =>
    let upperWeight : K := (child axis : K) / (ratio axis : K)
    if cornerBit child corner axis = 1 then upperWeight else 1 - upperWeight).prod

def interpolateNode (fine : Index d) (component : ℤ) : K :=
  let parent := parentOf ratio mapping fine
  let child := childOf ratio mapping fine
  ∑ corner ∈ range (2 ^ (activeAxes child).length),
    cornerWeight ratio child corner * source (cornerIndex parent child corner) component

def nodeReads (fine : Index d) : List (Index d) :=
  let child := childOf ratio mapping fine
  (List.range (2 ^ (activeAxes child).length)).map (cornerIndex (parentOf ratio mapping fine) child)

/-- The stencil cells of an axis: five where it is refined. -/
def stencilRadix (axis : Fin d) : ℕ := if ratio axis = 1 then 1 else 5

/-- `stencil` of an axis. -/
def stencilDigit (ordinal : ℕ) (axis : Fin d) : ℕ :=
  (decode (stencilRadix ratio) (List.finRange d) ordinal fun _ => 0).1 axis

/-- `source_index` of the fifth-order stencil. -/
def stencilIndex (parent : Index d) (digits : Fin d → ℕ) : Index d := fun axis =>
  if ratio axis = 1 then parent axis else parent axis + (digits axis - 2)

/-- `weight` of the fifth-order stencil. -/
def stencilWeight (child : Index d) (digits : Fin d → ℕ) : K :=
  ((List.finRange d).map fun axis =>
    if ratio axis = 1 then 1 else fifthOrderCellAverageWeight (child axis) (ratio axis) (digits axis)).prod

def interpolateFifthOrderCell (fine : Index d) (component : ℤ) : K :=
  let parent := parentOf ratio mapping fine
  let child := childOf ratio mapping fine
  ∑ ordinal ∈ range (volume (stencilRadix ratio) (List.finRange d)),
    stencilWeight ratio child (stencilDigit ratio ordinal) *
      source (stencilIndex ratio parent (stencilDigit ratio ordinal)) component

def fifthOrderReads (fine : Index d) : List (Index d) :=
  (List.range (volume (stencilRadix ratio) (List.finRange d))).map fun ordinal =>
    stencilIndex ratio (parentOf ratio mapping fine) (stencilDigit ratio ordinal)

end Kernels

/-! ### Preparation -/

def checkedTransferMultiply (value positiveMultiplier : ℤ) (operation : String) : Checked ℤ := do
  throwIf (value * positiveMultiplier > int64Max ∨ value * positiveMultiplier < int64Min) (.overflowError operation)
  return value * positiveMultiplier

def refinedSourceBox (coarseRegion : Box d) (ratio : RefinementRatio d) (mapping : IndexMapping d) :
    Checked (Box d) := do
  let bounds ← axes fun axis => do
    let lowerScaled ← checkedTransferMultiply (coarseRegion.lo axis - mapping.coarseOrigin axis) (ratio axis)
      "prepared ND restriction index mapping exceeds int64_t"
    let upperScaled ← checkedTransferMultiply (coarseRegion.hi axis - mapping.coarseOrigin axis) (ratio axis)
      "prepared ND restriction index mapping exceeds int64_t"
    let lower ← checkedTransferAdd (mapping.fineOrigin axis) lowerScaled
      "prepared ND restriction lower source index exceeds int64_t"
    let upper ← checkedTransferAdd (mapping.fineOrigin axis) upperScaled
      "prepared ND restriction upper source index exceeds int64_t"
    let upper ← checkedTransferAdd upper (ratio axis - 1)
      "prepared ND restriction upper source index exceeds int64_t"
    let lower ← checkedIndex lower "prepared ND restriction lower source index exceeds signed coordinates"
    let upper ← checkedIndex upper "prepared ND restriction upper source index exceeds signed coordinates"
    return (lower, upper)
  return ⟨fun axis => (bounds axis).1, fun axis => (bounds axis).2⟩

def interpolationSourceBox (fineRegion : Box d) (ratio : RefinementRatio d) (mapping : IndexMapping d)
    (stencilRadius : ℤ) : Checked (Box d) := do
  let bounds ← axes fun axis => do
    let lower ← checkedTransferAdd (mapping.coarseOrigin axis)
      (floorDivPositive (fineRegion.lo axis - mapping.fineOrigin axis) (ratio axis))
      "prepared ND interpolation lower source index exceeds int64_t"
    let upper ← checkedTransferAdd (mapping.coarseOrigin axis)
      (floorDivPositive (fineRegion.hi axis - mapping.fineOrigin axis) (ratio axis))
      "prepared ND interpolation upper source index exceeds int64_t"
    let widening := if ratio axis > 1 ∧ stencilRadius > 0 then stencilRadius else 0
    let lower ← checkedTransferAdd lower (-widening) "prepared ND interpolation lower stencil exceeds int64_t"
    let upper ← checkedTransferAdd upper widening "prepared ND interpolation upper stencil exceeds int64_t"
    let lower ← checkedIndex lower "prepared ND interpolation lower stencil exceeds signed coordinates"
    let upper ← checkedIndex upper "prepared ND interpolation upper stencil exceeds signed coordinates"
    return (lower, upper)
  return ⟨fun axis => (bounds axis).1, fun axis => (bounds axis).2⟩

def nodeInterpolationSourceBox (fineRegion : Box d) (ratio : RefinementRatio d) (mapping : IndexMapping d) :
    Checked (Box d) := do
  let bounds ← axes fun axis => do
    let lower ← checkedTransferAdd (mapping.coarseOrigin axis)
      (floorDivPositive (fineRegion.lo axis - mapping.fineOrigin axis) (ratio axis))
      "prepared node interpolation lower source index exceeds int64_t"
    let upper ← checkedTransferAdd (mapping.coarseOrigin axis)
      (ceilDivPositive (fineRegion.hi axis - mapping.fineOrigin axis) (ratio axis))
      "prepared node interpolation upper source index exceeds int64_t"
    let lower ← checkedIndex lower "prepared node interpolation lower source index exceeds signed coordinates"
    let upper ← checkedIndex upper "prepared node interpolation upper source index exceeds signed coordinates"
    return (lower, upper)
  return ⟨fun axis => (bounds axis).1, fun axis => (bounds axis).2⟩

/-- `TransferProvider`: its kind and its centering. -/
structure TransferProvider where
  kind : TransferKind
  center : Centering

def TransferProvider.requireSupportedRoute (provider : TransferProvider) : Checked Unit :=
  match provider.center with
  | .node => throwIf (provider.kind ≠ .nodeMultilinearProlongation)
      (.invalidArgument "node-centered ND transfer requires the multilinear native route")
  | .cell => throwIf (provider.kind = .nodeMultilinearProlongation ∨
        provider.kind = .divergencePreservingFaceProlongation)
      (.invalidArgument "ND transfer provider identity is not registered")
  | _ => .error (.invalidArgument "oriented face transfer requires the coupled divergence-preserving provider")

structure PreparedTransfer (d : ℕ) where
  kind : TransferKind
  ratio : RefinementRatio d
  mapping : IndexMapping d
  components : ComponentRange
  source : FieldView d
  destination : FieldView d
  destinationRegion : Box d

def interpolationRadius : TransferKind → ℤ
  | .constantInjection => 0
  | .fifthOrderCoarseFineGhostInterpolation => 2
  | _ => 1

def requiredSource (kind : TransferKind) (region : Box d) (ratio : RefinementRatio d) (mapping : IndexMapping d) :
    Checked (Box d) :=
  match kind with
  | .conservativeRestriction => refinedSourceBox region ratio mapping
  | .nodeMultilinearProlongation => nodeInterpolationSourceBox region ratio mapping
  | _ => interpolationSourceBox region ratio mapping (interpolationRadius kind)

def TransferProvider.prepare (provider : TransferProvider) (source destination : FieldView d)
    (destinationRegion : Box d) (ratio : RefinementRatio d) (mapping : IndexMapping d)
    (components : ComponentRange) : Checked (PreparedTransfer d) := do
  provider.requireSupportedRoute
  throwIf (¬ratio.RefinesAnyAxis)
    (.invalidArgument "prepared ND transfer requires a non-identity inter-level refinement ratio")
  let sourceView ← source.validate
  let destinationView ← destination.validate
  throwIf (destinationRegion.Empty ∨ ¬destinationView.box.ContainsBox destinationRegion)
    (.invalidArgument "prepared ND transfer destination region is empty or outside its FieldView")
  source.validateComponents destination components
  throwIf (FaceTransfer.ValidatedView.Overlaps sourceView destinationView)
    (.invalidArgument "prepared ND transfer requires non-overlapping field storage")
  let required ← requiredSource provider.kind destinationRegion ratio mapping
  throwIf (¬sourceView.box.ContainsBox required)
    (.invalidArgument "prepared ND transfer source FieldView does not contain the complete stencil")
  return ⟨provider.kind, ratio, mapping, components, source, destination, destinationRegion⟩

namespace PreparedTransfer

/-- The source values a prepared transfer reads from memory. -/
def values (transfer : PreparedTransfer d) (memory : ℤ → K) : CellSource K d := transfer.source.read memory

/-- What `operator()` writes to one component of a destination index. -/
def produced (transfer : PreparedTransfer d) (source : CellSource K d) (index : Index d) (component : ℤ) : K :=
  let component := transfer.components.sourceBegin + component
  match transfer.kind with
  | .conservativeRestriction => restrictCell transfer.ratio transfer.mapping source index component
  | .constantInjection => injectCell transfer.ratio transfer.mapping source index component
  | .nodeMultilinearProlongation => interpolateNode transfer.ratio transfer.mapping source index component
  | .fifthOrderCoarseFineGhostInterpolation =>
    interpolateFifthOrderCell transfer.ratio transfer.mapping source index component
  | _ => interpolateCell transfer.ratio transfer.mapping source index component

/-- The source indices `operator()` reads for a destination index. -/
def reads (transfer : PreparedTransfer d) (index : Index d) : List (Index d) :=
  match transfer.kind with
  | .conservativeRestriction => restrictReads transfer.ratio transfer.mapping index
  | .constantInjection => injectReads transfer.ratio transfer.mapping index
  | .nodeMultilinearProlongation => nodeReads transfer.ratio transfer.mapping index
  | .fifthOrderCoarseFineGhostInterpolation => fifthOrderReads transfer.ratio transfer.mapping index
  | _ => interpolateReads transfer.ratio transfer.mapping index

end PreparedTransfer

end Pops.CellTransfer
