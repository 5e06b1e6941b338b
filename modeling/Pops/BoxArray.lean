import Pops.ExactCellCount
import Pops.MixedRadix
import Pops.Packing

/-!
`mesh/layout/box_array.hpp`: ordered patches, the tiling of a domain by a
maximum grid size, and the bounded validation of disjointness and coverage.
-/
namespace Pops

structure BoxArrayValidationBudget where
  boxes : ℕ := 0
  overlapPairs : ℕ := 0
  deriving DecidableEq

/-- An ordered collection of patches. -/
structure BoxArray (d : ℕ) where
  boxes : List (Box d) := []
  deriving DecidableEq

/-- The loop `if (extent > SIZE_MAX / product) throw; product *= extent`. -/
def checkedVolume {d : ℕ} (exception : Exception) (extents : Fin d → ℕ) : Checked ℕ :=
  (List.finRange d).foldlM (fun product axis => do
    throwIf (extents axis > sizeMax / product) exception
    return product * extents axis) 1

theorem checkedVolume_ok {d : ℕ} {exception : Exception} {extents : Fin d → ℕ} {product : ℕ}
    (ran : checkedVolume exception extents = .ok product) :
    product = MixedRadix.volume extents (List.finRange d) := by
  have facts := foldlM_ok_invariant (fun done count => count = MixedRadix.volume extents done)
    (fun done axis before after held stepped => by
      simp only [bind_ok, throwIf_ok, unit_exists, pure_ok] at stepped
      rw [← stepped.2, held, MixedRadix.volume, MixedRadix.volume]
      simp)
    (List.finRange d) 1 product [] rfl ran
  simpa using facts

namespace BoxArray
variable {d : ℕ}

/-- `1 + (length - 1) / limit`. -/
def segments (length limit : ℕ) : ℕ := 1 + (length - 1) / limit

/-- The first offset of a segment, the longer segments first. -/
def segmentOffset (length count segment : ℕ) : ℕ :=
  segment * (length / count) + if segment < length % count then segment else length % count

/-- The width of a segment. -/
def segmentWidth (length count segment : ℕ) : ℕ :=
  length / count + if segment < length % count then 1 else 0

/-- The tile of `from_domain` with the given ordinal. -/
def tile (domain : Box d) (counts : Fin d → ℕ) (ordinal : ℕ) : Box d :=
  let segment := (MixedRadix.decode counts (List.finRange d) ordinal fun _ => 0).1
  let lower := fun axis =>
    domain.lo axis + segmentOffset (domain.length axis).toNat (counts axis) (segment axis)
  ⟨fun axis => castInt (lower axis), fun axis => castInt
    (lower axis + segmentWidth (domain.length axis).toNat (counts axis) (segment axis) - 1)⟩

/-- `std::vector<Box>::max_size()`: two `int` coordinates per axis. -/
def vectorMaxSize (d : ℕ) : ℕ := 9223372036854775807 / (8 * d)

def fromDomain (domain : Box d) (maxGridSize : Extent d) : Checked (BoxArray d) := do
  throwIf (∃ axis, maxGridSize axis ≤ 0)
    (.invalidArgument "BoxArray max grid sizes must be strictly positive")
  if domain.Empty then
    return {}
  else
    let counts := fun axis => segments (domain.length axis).toNat (maxGridSize axis).toNat
    let tileCount ← checkedVolume (.lengthError "BoxArray tile count exceeds size_t") counts
    throwIf (tileCount > vectorMaxSize d)
      (.lengthError "BoxArray tile count exceeds vector capacity")
    return ⟨(List.range tileCount).map (tile domain counts)⟩

def requireBudget (patches : BoxArray d) (budget : BoxArrayValidationBudget) : Checked Unit := do
  let size := patches.boxes.length
  throwIf (size > budget.boxes)
    (.lengthError "BoxArray validation exceeds the explicit patch budget")
  throwIf (size > 1 ∧ size - 1 > sizeMax / size)
    (.lengthError "BoxArray overlap count exceeds size_t")
  throwIf (size * (size - 1) / 2 > budget.overlapPairs)
    (.lengthError "BoxArray validation exceeds the explicit overlap budget")

/-- The loops of `is_disjoint_within`, with the boxes before the current one. -/
def disjointFrom (domain : Box d) : List (Box d) → List (Box d) → Bool
  | _, [] => true
  | earlier, box :: later =>
    if box.Empty ∨ ¬ domain.ContainsBox box then false
    else if ∃ other ∈ earlier, ¬ (box.intersect other).Empty then false
    else disjointFrom domain (earlier ++ [box]) later

def isDisjointWithin (patches : BoxArray d) (domain : Box d) (budget : BoxArrayValidationBudget) :
    Checked Bool := do
  patches.requireBudget budget
  return disjointFrom domain [] patches.boxes

/-- One step of a sum of exact counts that throws when it overflows. -/
def addCount (overflow : Exception) (total : ExactCellCount) (box : Box d) :
    Checked ExactCellCount := do
  let count ← ExactCellCount.fromBox box
  let sum := total.add count
  throwIf (sum.2 = false) overflow
  return sum.1

def exactCellCount (patches : BoxArray d) : Checked ExactCellCount :=
  patches.boxes.foldlM
    (addCount (.overflowError "BoxArray exact cell count exceeds four limbs")) .zero

def tilesExactly (patches : BoxArray d) (domain : Box d) (budget : BoxArrayValidationBudget) :
    Checked Bool := do
  if domain.Empty then
    return patches.boxes.isEmpty
  else
    let disjoint ← patches.isDisjointWithin domain budget
    if disjoint then
      let total ← patches.exactCellCount
      let whole ← ExactCellCount.fromBox domain
      return total = whole
    else
      return false

end BoxArray

end Pops
