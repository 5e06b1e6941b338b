import Mathlib.Algebra.Order.Field.Basic
import Pops.FieldView
import Pops.MixedRadix
import Pops.RefinementRatio

/-!
The divergence-preserving face prolongation of
`amr/transfer/transfer_provider.hpp`. `Real` arithmetic is exact: `K` is any
ordered field. Index arithmetic is done in integers, and every `static_cast<int>`
of the source is a `castInt` here.
-/
namespace Pops.FaceTransfer
open Finset Function

/-- Affine relationship between level index spaces. -/
structure IndexMapping (d : ℕ) where
  coarseOrigin : Index d
  fineOrigin : Index d

def floorDivPositive (numerator denominator : ℤ) : ℤ := floorDiv numerator denominator

/-- Truncating division, corrected to round up. -/
def ceilDivPositive (numerator denominator : ℤ) : ℤ :=
  let quotient := numerator.tdiv denominator
  let remainder := numerator.tmod denominator
  if remainder > 0 then quotient + 1 else quotient

def checkedTransferAdd (left right : ℤ) (operation : String) : Checked ℤ := do
  throwIf (left + right > int64Max ∨ left + right < int64Min) (.overflowError operation)
  return left + right

variable {K : Type} [Field K] [LinearOrder K] {d : ℕ}

/-! ### The kernel -/

section Kernel
variable (ratio : RefinementRatio d) (mapping : IndexMapping d)

/-- `fine_parent_and_child`, the parent. -/
def parentOf (fine : Index d) : Index d := fun axis =>
  castInt (mapping.coarseOrigin axis +
    floorDivPositive (fine axis - mapping.fineOrigin axis) (ratio axis))

/-- `fine_parent_and_child`, the child offset. -/
def childOf (fine : Index d) : Index d := fun axis =>
  let relative := fine axis - mapping.fineOrigin axis
  castInt (relative - floorDivPositive relative (ratio axis) * ratio axis)

def monotonizedCentralSlope (lower center upper : K) : K :=
  let backward := center - lower
  let centered := (1 / 2) * (upper - lower)
  let forward := upper - center
  let rising := backward > 0 ∧ centered > 0 ∧ forward > 0
  let falling := backward < 0 ∧ centered < 0 ∧ forward < 0
  if ¬ rising ∧ ¬ falling then 0
  else
    let absoluteValue := fun value : K => if value < 0 then -value else value
    let magnitude := absoluteValue (2 * backward)
    let magnitude := if absoluteValue centered < magnitude then absoluteValue centered else magnitude
    let magnitude :=
      if absoluteValue (2 * forward) < magnitude then absoluteValue (2 * forward) else magnitude
    if rising then magnitude else -magnitude

/-- The coarse face values a kernel reads: by normal axis, face and component. -/
abbrev FaceSource (K : Type) (d : ℕ) := Fin d → Index d → ℤ → K

variable (source : FaceSource K d)

/-- The slope of one transverse axis about a coarse face. -/
def transverseSlope (normal : Fin d) (center : Index d) (component : ℤ) (axis : Fin d) : K :=
  monotonizedCentralSlope (source normal (update center axis (center axis - 1)) component)
    (source normal center component) (source normal (update center axis (center axis + 1)) component)

def transverseBoundaryValue (normal : Fin d) (parent child : Index d) (normalFace component : ℤ) : K :=
  let center := update parent normal normalFace
  source normal center component + ∑ axis,
    if axis = normal ∨ ratio axis = 1 then 0
    else transverseSlope source normal center component axis *
      ((2 * child axis + 1 - ratio axis : ℤ) : K) / ((2 * ratio axis : ℤ) : K)

def baseFaceValue (normal : Fin d) (fineFace : Index d) (component : ℤ) : K :=
  let parent := parentOf ratio mapping fineFace
  let child := childOf ratio mapping fineFace
  let lower := transverseBoundaryValue ratio source normal parent child (parent normal) component
  if child normal = 0 then lower
  else
    let upper := transverseBoundaryValue ratio source normal parent child (parent normal + 1) component
    let alpha := (child normal : K) / (ratio normal : K)
    lower + alpha * (upper - lower)

def fineCell (parent child : Index d) : Index d := fun axis =>
  castInt (mapping.fineOrigin axis +
    (parent axis - mapping.coarseOrigin axis) * ratio axis + child axis)

/-- One step along an axis, `++upper[axis]`. -/
def raise (index : Index d) (axis : Fin d) : Index d := update index axis (index axis + 1)

def coarseDivergence (parent : Index d) (component : ℤ) : K :=
  ∑ axis, (source axis (raise parent axis) component - source axis parent component)

def baseFineDivergence (parent child : Index d) (component : ℤ) : K :=
  let fine := fineCell ratio mapping parent child
  ∑ axis, (ratio axis : K) * (baseFaceValue ratio mapping source axis (raise fine axis) component -
    baseFaceValue ratio mapping source axis fine component)

def divergenceError (parent child : Index d) (component : ℤ) : K :=
  coarseDivergence source parent component -
    baseFineDivergence ratio mapping source parent child component

/-- The axes a loop `for (axis = 0; axis < normal_axis; ++axis)` visits. -/
def axesBelow (normal : ℕ) : List (Fin d) := (List.finRange d).take normal

/-- The digit counts of the child cells of one parent. -/
def radix (axis : Fin d) : ℕ := (ratio axis).toNat

/-- The child a prefix ordinal denotes: `child` with the axes below
`normal_axis` counted out and the quotient on `normal_axis` itself. -/
def prefixSample (normal : Fin d) (child : Index d) (ordinal : ℕ) : Index d := fun axis =>
  let counted := MixedRadix.decode (radix ratio) (axesBelow normal) ordinal fun a => (child a).toNat
  (update counted.1 normal counted.2 axis : ℕ)

def divergenceCorrection (normal : Fin d) (fineFace : Index d) (component : ℤ) : K :=
  let parent := parentOf ratio mapping fineFace
  let child := childOf ratio mapping fineFace
  if child normal = 0 then 0
  else if ∃ axis < normal, child axis ≠ ratio axis - 1 then 0
  else
    let sampleCount := (child normal).toNat * MixedRadix.volume (radix ratio) (axesBelow normal)
    (∑ ordinal ∈ range sampleCount, divergenceError ratio mapping source parent
      (prefixSample ratio normal child ordinal) component) / (ratio normal : K)

/-- `operator()`: the value written to a fine face. -/
def faceValue (normal : Fin d) (fineFace : Index d) (component : ℤ) : K :=
  baseFaceValue ratio mapping source normal fineFace component +
    divergenceCorrection ratio mapping source normal fineFace component

end Kernel

/-! ### The provider -/

def faceRegion (cellRegion : Box d) (normal : Fin d) : Checked (Box d) := do
  let upper ← checkedTransferAdd (cellRegion.hi normal) 1
    "prepared face destination region exceeds int64_t"
  let upper ← checkedIndex upper "prepared face destination region exceeds signed coordinates"
  return ⟨cellRegion.lo, update cellRegion.hi normal upper⟩

/-- One axis of `face_interpolation_source_box`. -/
def faceInterpolationSourceAxis (fineFaceRegion : Box d) (normal : Fin d) (ratio : RefinementRatio d)
    (mapping : IndexMapping d) (axis : Fin d) : Checked (ℤ × ℤ) := do
  let lowerRelative := fineFaceRegion.lo axis - mapping.fineOrigin axis
  let upperRelative := fineFaceRegion.hi axis - mapping.fineOrigin axis
  let lower ← checkedTransferAdd (mapping.coarseOrigin axis)
    (floorDivPositive lowerRelative (ratio axis))
    "prepared face interpolation lower source index exceeds int64_t"
  let upper ← checkedTransferAdd (mapping.coarseOrigin axis)
    (if axis = normal then ceilDivPositive upperRelative (ratio axis)
      else floorDivPositive upperRelative (ratio axis))
    "prepared face interpolation upper source index exceeds int64_t"
  let widened := axis ≠ normal ∧ ratio axis > 1
  let stencil := if widened then 1 else 0
  let lower ← checkedTransferAdd lower (-stencil)
    "prepared face interpolation lower stencil exceeds int64_t"
  let upper ← checkedTransferAdd upper stencil
    "prepared face interpolation upper stencil exceeds int64_t"
  let lower ← checkedIndex lower
    "prepared face interpolation lower stencil exceeds signed coordinates"
  let upper ← checkedIndex upper
    "prepared face interpolation upper stencil exceeds signed coordinates"
  return (lower, upper)

def faceInterpolationSourceBox (fineFaceRegion : Box d) (normal : Fin d) (ratio : RefinementRatio d)
    (mapping : IndexMapping d) : Checked (Box d) := do
  let bounds ← axes fun axis => faceInterpolationSourceAxis fineFaceRegion normal ratio mapping axis
  return ⟨fun axis => (bounds axis).1, fun axis => (bounds axis).2⟩

/-- What one normal axis contributes to the preparation. -/
structure PreparedAxis (d : ℕ) where
  sourceView : ValidatedView d
  destinationView : ValidatedView d
  faceRegion : Box d

/-- The per-axis checks of `prepare`. -/
def prepareAxis (source destination : Fin d → FieldView d) (destinationCellRegion : Box d)
    (ratio : RefinementRatio d) (mapping : IndexMapping d) (components : ComponentRange)
    (normal : Fin d) : Checked (PreparedAxis d) := do
  let sourceView ← (source normal).validate
  let destinationView ← (destination normal).validate
  (source normal).validateComponents (destination normal) components
  let region ← faceRegion destinationCellRegion normal
  throwIf (¬ destinationView.box.ContainsBox region)
    (.invalidArgument
      "prepared divergence-preserving face destination omits required oriented faces")
  let required ← faceInterpolationSourceBox region normal ratio mapping
  throwIf (¬ sourceView.box.ContainsBox required)
    (.invalidArgument "prepared divergence-preserving face source omits a transverse stencil")
  return ⟨sourceView, destinationView, region⟩

/-- The byte spans of two views share an address. -/
def ValidatedView.Overlaps (left right : ValidatedView d) : Prop :=
  left.first < right.last ∧ right.first < left.last

instance (left right : ValidatedView d) : Decidable (ValidatedView.Overlaps left right) :=
  inferInstanceAs (Decidable (_ ∧ _))

/-- `PreparedDivergencePreservingFaceTransfer`. -/
structure PreparedTransfer (d : ℕ) where
  ratio : RefinementRatio d
  mapping : IndexMapping d
  components : ComponentRange
  source : Fin d → FieldView d
  destination : Fin d → FieldView d
  destinationCellRegion : Box d
  destinationFaceRegions : Fin d → Box d

def prepare (source destination : Fin d → FieldView d) (destinationCellRegion : Box d)
    (ratio : RefinementRatio d) (mapping : IndexMapping d) (components : ComponentRange) :
    Checked (PreparedTransfer d) := do
  throwIf (¬ ratio.RefinesAnyAxis)
    (.invalidArgument "prepared divergence-preserving face transfer requires a non-identity ratio")
  throwIf destinationCellRegion.Empty
    (.invalidArgument
      "prepared divergence-preserving face transfer requires a non-empty cell region")
  let prepared ← axes (prepareAxis source destination destinationCellRegion ratio mapping components)
  let _ ← axes fun destinationAxis => do
    throwIf (∃ sourceAxis, ValidatedView.Overlaps (prepared sourceAxis).sourceView
        (prepared destinationAxis).destinationView)
      (.invalidArgument "prepared divergence-preserving face transfer requires candidate storage")
    throwIf (∃ otherAxis > destinationAxis, ValidatedView.Overlaps (prepared otherAxis).destinationView
        (prepared destinationAxis).destinationView)
      (.invalidArgument "prepared divergence-preserving face destinations must not overlap")
  return ⟨ratio, mapping, components, source, destination, destinationCellRegion,
    fun axis => (prepared axis).faceRegion⟩

/-- The coarse face values a prepared transfer reads from memory. -/
def PreparedTransfer.values (transfer : PreparedTransfer d) (memory : ℤ → K) : FaceSource K d :=
  fun normal face component => (transfer.source normal).read memory face component

/-- What `operator()` writes to one component of a destination face. -/
def PreparedTransfer.produced (transfer : PreparedTransfer d) (memory : ℤ → K) (normal : Fin d)
    (fineFace : Index d) (component : ℤ) : K :=
  faceValue transfer.ratio transfer.mapping (transfer.values memory) normal fineFace
    (transfer.components.sourceBegin + component)

end Pops.FaceTransfer
