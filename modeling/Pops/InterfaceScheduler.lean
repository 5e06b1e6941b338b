import Pops.InterfaceFlux
import Pops.Rounds
import Pops.Staging

/-!
`runtime/multiblock/interface_flux_scheduler.hpp`: the routes between two faces
of Cartesian blocks, what is prepared of one, and its application on all ranks.
`Dim` is `n + 1`, an axis is in range by its type, and `Real` is any type with
the operations that the code uses. The geometry is compared in exact arithmetic,
where every value is finite. The communicator and the execution context of a
route are those of all its ranks.
-/
namespace Pops.Multiblock

variable {n : ℕ} {K V : Type}

inductive InterfaceSide where
  | low
  | high
  deriving DecidableEq

inductive InterfaceTraceOperation where
  | unspecified
  | cellAverage
  | reconstructedFace
  deriving DecidableEq

structure TangentialTransform (n : ℕ) (K : Type) where
  rightTangentForLeft : Fin n → Fin n
  sign : Fin n → ℤ
  offset : Fin n → K

structure AxisAlignedInterface (n : ℕ) (K : Type) where
  identity : Bytes
  leftBlock : ℕ
  rightBlock : ℕ
  level : ℤ
  leftAxis : Fin (n + 1)
  rightAxis : Fin (n + 1)
  leftSide : InterfaceSide
  rightSide : InterfaceSide
  tangentialTransform : TangentialTransform n K
  rightComponentForLeft : List ℤ
  leftTraceProjectionIdentity : Bytes
  rightTraceProjectionIdentity : Bytes
  leftTraceProviderIdentity : Bytes
  rightTraceProviderIdentity : Bytes
  leftTraceOperation : InterfaceTraceOperation
  rightTraceOperation : InterfaceTraceOperation
  leftTraceRequiredDepth : ℤ
  rightTraceRequiredDepth : ℤ
  affineMappingIdentity : Bytes
  rightNormalTranslation : K

/-- What the validators throw. -/
def invalid (reason : String) : Exception := .invalidArgument ("multi-block interface " ++ reason)

/-- One tangent of the loop of `validate_route_structure_`, after those that map to `seen`. -/
def validateTangent (transform : TangentialTransform n K) (seen : List (Fin n)) (tangent : Fin n) :
    Checked (List (Fin n)) := do
  throwIf (transform.rightTangentForLeft tangent ∈ seen) (invalid "tangential permutation is not bijective")
  throwIf (transform.sign tangent ≠ -1 ∧ transform.sign tangent ≠ 1) (invalid "tangential affine map is invalid")
  return transform.rightTangentForLeft tangent :: seen

section
variable [Field K] [LinearOrder K]

def validateRouteStructure (route : AxisAlignedInterface n K) : Checked Unit := do
  throwIf (route.identity = [] ∨ route.leftBlock = route.rightBlock ∨ route.level < 0)
    (invalid "identity/ownership is invalid")
  throwIf (route.leftSide = route.rightSide) (invalid "faces do not have opposite orientation")
  let _ ← (List.finRange n).foldlM (validateTangent route.tangentialTransform) []
  throwIf (route.affineMappingIdentity = [] ∧ (route.rightNormalTranslation ≠ 0 ∨
      ∃ tangent, route.tangentialTransform.rightTangentForLeft tangent ≠ tangent ∨
        route.tangentialTransform.sign tangent ≠ 1 ∨ route.tangentialTransform.offset tangent ≠ 0))
    (invalid "affine map is unauthenticated")

/-- One component of the loop of `validate_component_permutation_`. -/
def validateComponent (components : ℕ) (seen : List ℤ) (component : ℤ) : Checked (List ℤ) := do
  throwIf (component < 0 ∨ component ≥ components ∨ component ∈ seen)
    (invalid "component permutation is not bijective")
  return component :: seen

def validateComponentPermutation (route : AxisAlignedInterface n K) (leftComponents rightComponents : ℕ) :
    Checked Unit := do
  throwIf (leftComponents < 1 ∨ rightComponents ≠ leftComponents ∨
      route.rightComponentForLeft.length ≠ leftComponents)
    (invalid "component spaces are not equal")
  let _ ← route.rightComponentForLeft.foldlM (validateComponent leftComponents) []

def validateTraceContract (route : AxisAlignedInterface n K) : Checked Unit := do
  throwIf (route.leftTraceProjectionIdentity = [] ∨ route.rightTraceProjectionIdentity = [] ∨
      route.leftTraceProviderIdentity = [] ∨ route.rightTraceProviderIdentity = [] ∨
      route.leftTraceRequiredDepth < 1 ∨ route.rightTraceRequiredDepth < 1)
    (invalid "trace projection contract is incomplete")
  throwIf (route.leftTraceOperation ≠ .cellAverage ∨ route.rightTraceOperation ≠ .cellAverage)
    (invalid "reconstructed face projection has no executable provider")

def claims (candidate : AxisAlignedInterface n K) (block : ℕ) (axis : Fin (n + 1)) (side : InterfaceSide) : Prop :=
  candidate.leftBlock = block ∧ candidate.leftAxis = axis ∧ candidate.leftSide = side ∨
    candidate.rightBlock = block ∧ candidate.rightAxis = axis ∧ candidate.rightSide = side

instance (candidate : AxisAlignedInterface n K) (block : ℕ) (axis : Fin (n + 1)) (side : InterfaceSide) :
    Decidable (claims candidate block axis side) :=
  inferInstanceAs (Decidable (_ ∨ _))

/-- `validate_unique_route_`, next to the installed routes. -/
def validateUniqueRoute (installed : List (AxisAlignedInterface n K)) (route : AxisAlignedInterface n K) :
    Checked Unit := do
  throwIf (∃ other ∈ installed, other.identity = route.identity ∧ other.level = route.level)
    (invalid "identity is already installed on level")
  throwIf (∃ other ∈ installed, other.level = route.level ∧
      (claims other route.leftBlock route.leftAxis route.leftSide ∨
        claims other route.rightBlock route.rightAxis route.rightSide))
    (invalid "endpoint face is already owned on level")

/-- `Geometry`, with what `from_bounds` checks. -/
structure Geometry (d : ℕ) (K : Type) [LinearOrder K] where
  domain : Box d
  lower : Fin d → K
  upper : Fin d → K
  nonempty : ¬ domain.Empty
  increasing : ∀ axis, lower axis < upper axis

namespace Geometry
variable {d : ℕ} (geometry : Geometry d K) (axis : Fin d)

def spacing : K := (geometry.upper axis - geometry.lower axis) * (1 / (geometry.domain.length axis : K))

def cellCoordinate (index : ℤ) : K :=
  geometry.lower axis + ((index : K) - (geometry.domain.lo axis : K) + 1 / (1 + 1)) * geometry.spacing axis

end Geometry

/-- The index of a side along the normal axis of a face. -/
def boundaryIndex {d : ℕ} (domain : Box d) (axis : Fin d) : InterfaceSide → ℤ
  | .low => domain.lo axis
  | .high => domain.hi axis

/-- The coordinate of a side along the normal axis of a face. -/
def boundaryCoordinate {d : ℕ} (geometry : Geometry d K) (axis : Fin d) : InterfaceSide → K
  | .low => geometry.lower axis
  | .high => geometry.upper axis

/-- `face_count_`. `tangential_axes_(axis)[tangent]` is `axis.succAbove tangent`. -/
def checkFaceCount (domain : Box (n + 1)) (axis : Fin (n + 1)) : Checked ℕ :=
  (List.finRange n).foldlM (fun count tangent => do
    throwIf (domain.length (axis.succAbove tangent) = 0 ∨
        (domain.length (axis.succAbove tangent)).toNat > sizeMax / count)
      (.overflowError "multi-block interface face count overflows size_t")
    return count * (domain.length (axis.succAbove tangent)).toNat) 1

def tilesDeclaredPhysicalFace (box : Box (n + 1)) (geometry : Geometry (n + 1) K) (axis : Fin (n + 1))
    (side : InterfaceSide) : Prop :=
  boundaryIndex box axis side = boundaryIndex geometry.domain axis side ∧
    ∀ tangent, tangent ≠ axis → box.lo tangent = geometry.domain.lo tangent ∧ box.hi tangent = geometry.domain.hi tangent

instance (box : Box (n + 1)) (geometry : Geometry (n + 1) K) (axis : Fin (n + 1)) (side : InterfaceSide) :
    Decidable (tilesDeclaredPhysicalFace box geometry axis side) :=
  inferInstanceAs (Decidable (_ ∧ _))

/-- The right axis that a left tangent maps to. -/
def AxisAlignedInterface.rightTangent (route : AxisAlignedInterface n K) (tangent : Fin n) : Fin (n + 1) :=
  route.rightAxis.succAbove (route.tangentialTransform.rightTangentForLeft tangent)

def validateTangentialDiscretization (route : AxisAlignedInterface n K) (leftDomain rightDomain : Box (n + 1))
    (left right : Geometry (n + 1) K) : Checked Unit :=
  throwIf (∃ tangent : Fin n,
      leftDomain.length (route.leftAxis.succAbove tangent) ≠ rightDomain.length (route.rightTangent tangent) ∨
        left.spacing (route.leftAxis.succAbove tangent) ≠ right.spacing (route.rightTangent tangent))
    (invalid "tangential discretisations are not exactly equal")

def validatePhysicalCoincidence (route : AxisAlignedInterface n K) (left right : Geometry (n + 1) K) :
    Checked Unit := do
  throwIf (boundaryCoordinate left route.leftAxis route.leftSide ≠
      boundaryCoordinate right route.rightAxis route.rightSide + route.rightNormalTranslation)
    (invalid "normal faces do not coincide in physical space")
  throwIf (∃ tangent : Fin n,
      let sign := route.tangentialTransform.sign tangent
      let offset := route.tangentialTransform.offset tangent
      let rightAxis := route.rightTangent tangent
      left.lower (route.leftAxis.succAbove tangent) ≠
          (sign : K) * (if sign > 0 then right.lower rightAxis else right.upper rightAxis) + offset ∨
        left.upper (route.leftAxis.succAbove tangent) ≠
          (sign : K) * (if sign > 0 then right.upper rightAxis else right.lower rightAxis) + offset)
    (invalid "tangential faces do not coincide in physical space")

def decodeFace (domain : Box (n + 1)) (axis : Fin (n + 1)) (face : ℕ) : Fin n → ℕ :=
  (MixedRadix.decode (fun tangent => (domain.length (axis.succAbove tangent)).toNat) (List.finRange n) face
    fun _ => 0).1

/-- The cell at a face: the index along the normal axis, and one tangent after the other. -/
def faceCell (axis : Fin (n + 1)) (normal : ℤ) (tangents : List (Fin (n + 1) × ℤ)) : Index (n + 1) :=
  Staging.store (Function.update (fun _ => 0) axis normal) tangents

def leftFaceIndex (route : AxisAlignedInterface n K) (domain : Box (n + 1)) (face : ℕ) : Index (n + 1) :=
  faceCell route.leftAxis (boundaryIndex domain route.leftAxis route.leftSide)
    ((List.finRange n).map fun tangent => (route.leftAxis.succAbove tangent,
      domain.lo (route.leftAxis.succAbove tangent) + decodeFace domain route.leftAxis face tangent))

def rightFaceIndex (route : AxisAlignedInterface n K) (leftDomain rightDomain : Box (n + 1)) (face : ℕ) :
    Index (n + 1) :=
  faceCell route.rightAxis (boundaryIndex rightDomain route.rightAxis route.rightSide)
    ((List.finRange n).map fun tangent => (route.rightTangent tangent,
      if route.tangentialTransform.sign tangent > 0
      then rightDomain.lo (route.rightTangent tangent) + decodeFace leftDomain route.leftAxis face tangent
      else rightDomain.hi (route.rightTangent tangent) - decodeFace leftDomain route.leftAxis face tangent))

/-- `BoundaryCell`. It is local on the rank that owns its patch. -/
structure BoundaryCell (d : ℕ) where
  patch : ℕ
  index : Index d
  face : ℕ

/-- One face of `boundary_cells_`. -/
def boundaryCell {d : ℕ} (layout : List (Box d)) (index : Index d) (face : ℕ) : Checked (BoundaryCell d) :=
  match (List.range layout.length).filter fun patch => (layout.getD patch .default).Contains index with
  | [] => .error (invalid "boundary decomposition has a gap at one face cell")
  | [patch] => .ok ⟨patch, index, face⟩
  | _ => .error (invalid "boundary decomposition overlaps at one face cell")

def boundaryCells {d : ℕ} (layout : List (Box d)) (faceCount : ℕ) (makeIndex : ℕ → Index d) :
    Checked (List (BoundaryCell d)) :=
  (List.range faceCount).mapM fun face => boundaryCell layout (makeIndex face) face

def boundingBox {d : ℕ} (layout : List (Box d)) : Box d :=
  (layout.foldl (fun result box =>
    if box.Empty then result
    else match result with
      | none => some box
      | some found => some ⟨fun axis => if found.lo axis < box.lo axis then found.lo axis else box.lo axis,
          fun axis => if found.hi axis < box.hi axis then box.hi axis else found.hi axis⟩) none).getD ⟨0, 0⟩

/-- One block: its patches with the rank that owns each, its components and its geometry. -/
structure Block (n : ℕ) (K : Type) [LinearOrder K] where
  layout : List (Box (n + 1))
  owner : ℕ → ℕ
  ncomp : ℕ
  geometry : Geometry (n + 1) K

/-- One side of a prepared interface. -/
structure PreparedSide (d : ℕ) (V : Type) where
  cells : List (BoundaryCell d)
  owner : ℕ → ℕ
  normalSpacing : V

structure PreparedInterface (d : ℕ) (V : Type) where
  identity : Bytes
  leftBlock : ℕ
  rightBlock : ℕ
  level : ℤ
  left : PreparedSide d V
  right : PreparedSide d V
  rightComponent : ℕ → ℕ
  faceMeasure : V
  faceCount : ℕ
  componentCount : ℕ

/-- The route and layout checks of `install`, and what they prepare. -/
def install (installed : List (AxisAlignedInterface n K)) (route : AxisAlignedInterface n K)
    (left right : Block n K) : Checked (PreparedInterface (n + 1) K) := do
  validateRouteStructure route
  throwIf (left.layout = [] ∨ right.layout = []) (.invalidArgument "multi-block interface layouts cannot be empty")
  validateComponentPermutation route left.ncomp right.ncomp
  validateTraceContract route
  validateUniqueRoute installed route
  let leftDomain := boundingBox left.layout
  let rightDomain := boundingBox right.layout
  throwIf (¬ tilesDeclaredPhysicalFace leftDomain left.geometry route.leftAxis route.leftSide ∨
      ¬ tilesDeclaredPhysicalFace rightDomain right.geometry route.rightAxis route.rightSide)
    (invalid "layout does not tile its declared physical face")
  let faceCount ← checkFaceCount leftDomain route.leftAxis
  throwIf (faceCount = 0 ∨ (faceCount : ℤ) > intMax)
    (.overflowError "multi-block interface face count exceeds the ABI domain")
  validateTangentialDiscretization route leftDomain rightDomain left.geometry right.geometry
  validatePhysicalCoincidence route left.geometry right.geometry
  let leftNormal := left.geometry.spacing route.leftAxis
  let rightNormal := right.geometry.spacing route.rightAxis
  throwIf (¬ leftNormal > 0 ∨ leftNormal ≠ rightNormal) (invalid "normal discretisations are not exactly equal")
  let leftCells ← boundaryCells left.layout faceCount (leftFaceIndex route leftDomain)
  let rightCells ← boundaryCells right.layout faceCount (rightFaceIndex route leftDomain rightDomain)
  return {
    identity := route.identity
    leftBlock := route.leftBlock
    rightBlock := route.rightBlock
    level := route.level
    left := ⟨leftCells, left.owner, leftNormal⟩
    right := ⟨rightCells, right.owner, rightNormal⟩
    rightComponent := fun component => (route.rightComponentForLeft.getD component 0).toNat
    faceMeasure := ((List.finRange n).map fun tangent => left.geometry.spacing (route.leftAxis.succAbove tangent)).prod
    faceCount
    componentCount := left.ncomp }

end

end Pops.Multiblock
