import Mathlib.Algebra.Module.Defs
import Mathlib.Algebra.Order.Field.Basic
import Pops.Box

/-!
Transport around an embedded boundary: `numerics/spatial/operators/masked_operator.hpp`
with the metric of `embedded_boundary/operator.hpp`, on the patches of a
Cartesian grid. The model, the reconstruction and the numerical flux of the
operator are parameters of the source: what they give at a face depends on the
states around it only. A state vector is an element of any module.
-/
namespace Pops.EmbeddedTransport

variable {d : ℕ} {K V : Type} [Field K] [LinearOrder K]

/-! ### Cut cells -/

def cutCellCrossingFraction (thetaMin center neighbor : K) : K :=
  if neighbor < 0 then 1
  else
    let theta := center / (center - neighbor)
    let theta := if theta < thetaMin then thetaMin else theta
    if theta > 1 then 1 else theta

def clampUnitInterval (value : K) : K :=
  if value < 0 then 0 else if value > 1 then 1 else value

/-- `Real(0.5)`. -/
def half : K := 1 / (1 + 1)

/-- `reconstructed_face_aperture` in one dimension: the plane through the samples, at a face. -/
def reconstructedFaceAperture (center lowerSample upperSample : K) (upperFace : Bool) : K :=
  let gradient := half * (upperSample - lowerSample)
  let intercept := center - gradient * half + gradient * (if upperFace then 1 else 0)
  if intercept < 0 then 1 else 0

/-- `CutCellFractions`, in one dimension. -/
structure CutCellFractions (K : Type) where
  volumeFraction : K
  faceLower : K
  faceUpper : K

/-- `cut_cell_fractions_from_phi_cell`, in one dimension. -/
def cutCellFractionsFromPhiCell (thetaMin : K) (phi : ℤ → K) (index : ℤ) : CutCellFractions K where
  volumeFraction := half * (cutCellCrossingFraction thetaMin (phi index) (phi (index - 1)) +
    cutCellCrossingFraction thetaMin (phi index) (phi (index + 1)))
  faceLower := clampUnitInterval
    (reconstructedFaceAperture (phi index) (phi (index - 1)) (phi (index + 1)) false)
  faceUpper := clampUnitInterval
    (reconstructedFaceAperture (phi index) (phi (index - 1)) (phi (index + 1)) true)

/-! ### The metric -/

inductive MetricFaceSide where
  | lower
  | upper

/-- `PreparedEmbeddedBoundaryMetric` over a Cartesian metric: the fractions and the
apertures of the cells, in any dimension and from any samples. -/
structure PreparedEmbeddedBoundaryMetric (d : ℕ) (K : Type) where
  spacing : Fin d → K
  inverseVolumeFraction : Index d → K
  faceApertureLower : Index d → Fin d → K
  faceApertureUpper : Index d → Fin d → K

namespace PreparedEmbeddedBoundaryMetric
variable (metric : PreparedEmbeddedBoundaryMetric d K)

/-- The measure of a cell of the Cartesian metric. -/
def baseCellMeasure : K := ((List.finRange d).map metric.spacing).prod

/-- The area of a face of the Cartesian metric. -/
def baseFaceArea (axis : Fin d) : K :=
  ((List.finRange d).map fun other => if other = axis then 1 else metric.spacing other).prod

def faceAperture (axis : Fin d) (side : MetricFaceSide) (cell : Index d) : K :=
  match side with
  | .lower => metric.faceApertureLower cell axis
  | .upper => metric.faceApertureUpper cell axis

/-- `face_measure`: the length of the oriented area vector. -/
def faceMeasure (axis : Fin d) (side : MetricFaceSide) (cell : Index d) : K :=
  |metric.baseFaceArea axis * metric.faceAperture axis side cell|

/-- `cell_measure`, where it is a positive number. -/
def cellMeasure (cell : Index d) : Option K :=
  if metric.inverseVolumeFraction cell > 0 ∧ metric.baseCellMeasure / metric.inverseVolumeFraction cell > 0
  then some (metric.baseCellMeasure / metric.inverseVolumeFraction cell)
  else none

end PreparedEmbeddedBoundaryMetric

/-! ### The operator -/

structure BoundaryFaceOmission (d : ℕ) where
  domain : Box d
  lower : Fin d → Bool
  upper : Fin d → Bool

def BoundaryFaceOmission.omits (omission : BoundaryFaceOmission d) (axis : Fin d) (face : Index d) : Bool :=
  (omission.lower axis && decide (face axis = omission.domain.lo axis)) ||
    (omission.upper axis && decide (face axis = omission.domain.hi axis + 1))

/-- `PreparedMaskedCartesianOperator`, with its active cells and what the numerical
flux gives at a face. -/
structure MaskedOperator (d : ℕ) (K V : Type) where
  metric : PreparedEmbeddedBoundaryMetric d K
  active : Index d → Bool
  omission : BoundaryFaceOmission d
  density : Fin d → Index d → Checked V

/-- The cell below another one along an axis. -/
def below (axis : Fin d) (cell : Index d) : Index d := Function.update cell axis (cell axis - 1)

/-- The cell over another one along an axis. -/
def above (axis : Fin d) (cell : Index d) : Index d := Function.update cell axis (cell axis + 1)

namespace MaskedOperator
variable [AddCommGroup V] [Module K V] (operator : MaskedOperator d K V)

/-- The side and the cell that the metric of a face is taken from in a patch. -/
def faceHolder (patch : Box d) (axis : Fin d) (face : Index d) : MetricFaceSide × Index d :=
  if face axis = patch.lo axis then (.lower, face) else (.upper, below axis face)

/-- `MaterializeMaskedFaceFlux` at one face of a patch. -/
def faceFlux (patch : Box d) (axis : Fin d) (face : Index d) : Checked V :=
  if operator.omission.omits axis face = true ∨ operator.active (below axis face) = false ∨
      operator.active face = false then
    .ok 0
  else do
    let holder := faceHolder patch axis face
    throwIf ((operator.metric.cellMeasure holder.2).isSome = false)
      (.runtimeError "prepared ND masked face evaluation refused publication")
    let measure := operator.metric.faceMeasure axis holder.1 holder.2
    if measure > 0 then do
      let density ← operator.density axis face
      return measure • density
    else return 0

/-- `MaterializeMaskedResidual` at one cell of a patch. -/
def residual (patch : Box d) (cell : Index d) : Checked V :=
  if operator.active cell = false then .ok 0
  else
    match operator.metric.cellMeasure cell with
    | none => .error (.runtimeError "prepared ND masked residual refused publication")
    | some volume => do
      let divergence ← (List.finRange d).foldlM (fun (sum : V) axis => do
        let lower ← operator.faceFlux patch axis cell
        let upper ← operator.faceFlux patch axis (above axis cell)
        return sum + (1 / volume) • (upper - lower)) 0
      return -divergence

/-- The patch of a layout that holds a cell. -/
def patchOf (layout : List (Box d)) (cell : Index d) : Box d :=
  (layout.find? fun patch => patch.Contains cell).getD .default

/-- `assemble_residual` on all patches, at one cell. -/
def assembleResidual (layout : List (Box d)) (cell : Index d) : Checked V :=
  operator.residual (patchOf layout cell) cell

end MaskedOperator

end Pops.EmbeddedTransport
