import Mathlib
import Pops.BoundaryTopology
import Pops.MixedRadix

/-!
`mesh/boundary/nd_boundary_schedule.hpp` and `mesh/boundary/physical_bc.hpp`: the regions around a
domain, and the fill of those that physical laws own. The numbers are exact, so that every one of them
is finite.
-/
namespace Pops.PhysicalBoundary

/-- The laws of a face. -/
inductive PhysicalBoundaryKind where
  | external
  | constantExtrapolation
  | dirichlet
  | neumann
  | robin
  deriving DecidableEq

/-- `PhysicalBoundaryFace`: `alpha * u + beta * du/dn = value`. -/
structure PhysicalBoundaryFace (K : Type) where
  kind : PhysicalBoundaryKind
  value : K
  alpha : K
  beta : K

variable {d : ℕ} {K : Type} [Field K] [LinearOrder K]

/-- `validate_` of the conditions. -/
def validateConditions (topology : BoundaryTopology d) (faces : Face d → PhysicalBoundaryFace K) (spacing : Fin d → K) :
    Checked Unit :=
  (List.finRange d).forM fun axis => do
    throwIf (¬ 0 < spacing axis)
      (.invalidArgument "physical boundary conditions require finite positive spacing on every axis")
    [BoundarySide.lower, .upper].forM fun side =>
      throwIf (topology.IsPeriodic ⟨axis, side⟩ ∧ (faces ⟨axis, side⟩).kind ≠ .external)
        (.invalidArgument "periodic topology faces cannot also carry a physical boundary law")

structure PhysicalBoundaryConditions (d : ℕ) (K : Type) [Field K] [LinearOrder K] where
  topology : BoundaryTopology d
  faces : Face d → PhysicalBoundaryFace K
  spacing : Fin d → K
  valid : validateConditions topology faces spacing = .ok ()

/-- A valid coordinate, and the affine map of its value. -/
structure AffineSample (K : Type) where
  source : ℤ
  scale : K
  offset : K

/-- The laws of the two faces of an axis and the coordinates between them. -/
structure AxisLaws (K : Type) where
  lo : ℤ
  hi : ℤ
  low : PhysicalBoundaryFace K
  high : PhysicalBoundaryFace K
  spacing : K

namespace AxisLaws
variable (laws : AxisLaws K)

/-- The law that a coordinate outside the domain is under. -/
def law (current : ℤ) : PhysicalBoundaryFace K := if current < laws.lo then laws.low else laws.high

def boundary (current : ℤ) : ℤ := if current < laws.lo then laws.lo else laws.hi

def layer (current : ℤ) : ℤ := if current < laws.lo then laws.lo - current else current - laws.hi

/-- `distance`, between a ghost and its mirror cell. -/
def distance (current : ℤ) : K := (((2 : ℕ) : K) * (laws.layer current : K) - 1) * laws.spacing

/-- The mirror cell of a ghost, which may be a ghost of the opposite face. -/
def mirror (current : ℤ) : ℤ := if current < laws.lo then 2 * laws.lo - current - 1 else 2 * laws.hi - current + 1

/-- `denominator` of a Robin law. -/
def denominator (current : ℤ) : K := (laws.law current).alpha / (2 : ℕ) + (laws.law current).beta / laws.distance current

def faceScale (current : ℤ) : K :=
  match (laws.law current).kind with
  | .dirichlet => -1
  | .robin =>
    -((laws.law current).alpha / (2 : ℕ) - (laws.law current).beta / laws.distance current) / laws.denominator current
  | _ => 1

def faceOffset (current : ℤ) : K :=
  match (laws.law current).kind with
  | .dirichlet => (2 : ℕ) * (laws.law current).value
  | .neumann => (laws.law current).value * laws.distance current
  | .robin => (laws.law current).value / laws.denominator current
  | _ => 0

/-- The loop of `sample_axis`, for a number of passes; one that has not ended then stands where it is. -/
def sampleLoop : ℕ → ℤ → K → K → AffineSample K
  | 0, current, scale, offset => ⟨current, scale, offset⟩
  | passes + 1, current, scale, offset =>
    if laws.lo ≤ current ∧ current ≤ laws.hi then ⟨current, scale, offset⟩
    else if (laws.law current).kind = .constantExtrapolation then ⟨laws.boundary current, scale, offset⟩
    else
      sampleLoop passes (laws.mirror current) (scale * laws.faceScale current)
        (offset + scale * laws.faceOffset current)

/-- The passes that suffice: the layer of a ghost shrinks at each. -/
def passes (index : ℤ) : ℕ := (laws.lo - index).toNat + (index - laws.hi).toNat

def sampleAxis (index : ℤ) : AffineSample K := laws.sampleLoop (laws.passes index) index 1 0

/-- The loop of `validate_axis_sample`. -/
def validateLoop : ℕ → ℤ → Checked Unit
  | 0, _ => .ok ()
  | passes + 1, current => do
    if laws.lo ≤ current ∧ current ≤ laws.hi then return ()
    else do
      throwIf ((laws.law current).kind = .external)
        (.invalidArgument "deep physical boundary extension reaches an externally owned opposite face")
      if (laws.law current).kind = .constantExtrapolation then return ()
      else do
        throwIf ((laws.law current).kind = .robin ∧ (¬ 0 < laws.distance current ∨ laws.denominator current = 0))
          (.invalidArgument "physical boundary preparation found a singular Robin law")
        validateLoop passes (laws.mirror current)

def validateAxisSample (index : ℤ) : Checked Unit := laws.validateLoop (laws.passes index) index

end AxisLaws

structure BoundaryOperation (d : ℕ) where
  face : Face d
  kind : BoundaryFaceKind
  shift : Index d
  deriving DecidableEq

/-- `AxisSlice`: a slice has an operation when it is a boundary. -/
structure AxisSlice (d : ℕ) where
  lower : ℤ
  upper : ℤ
  operation : Option (BoundaryOperation d)

/-- `BoundaryRegionPlan`, without its region. -/
structure BoundaryRegionPlan (d : ℕ) where
  destination : Box d
  operations : List (BoundaryOperation d)
  shift : Index d

/-- `checked_add`. -/
def checkedSum (left right : ℤ) (operation : String) : Checked ℤ := do
  throwIf (left + right > int64Max ∨ left + right < int64Min) (.overflowError operation)
  return left + right

/-- `checked_multiply`. -/
def checkedMultiple (left right : ℤ) (operation : String) : Checked ℤ := do
  throwIf (left < 0 ∨ right < 0) (.invalidArgument operation)
  throwIf (left * right > int64Max) (.overflowError operation)
  return left * right

/-- The strips that a periodic ghost depth is split into. -/
def wraps (depth extent : ℤ) : ℤ := depth / extent + if depth % extent = 0 then 0 else 1

def checkedAxisSegmentCount (ghosts extent : ℤ) (periodic : Prop) [Decidable periodic] : Checked ℕ := do
  throwIf (ghosts < 0) (.invalidArgument "pops::mesh boundary ghost depths must be non-negative")
  if ghosts = 0 then return 1
  else if ¬ periodic then return 3
  else do
    throwIf (extent ≤ 0) (.invalidArgument "pops::mesh periodic boundary requires a positive domain extent")
    throwIf (wraps ghosts extent > (sizeMax - 1) / 2)
      (.lengthError "pops::mesh boundary axis schedule exceeds size_t")
    return 1 + 2 * (wraps ghosts extent).toNat

/-- A shift along one axis. -/
def axisShift (axis : Fin d) (shift : ℤ) : Index d := Function.update (fun _ => 0) axis shift

/-- The lower and the upper strip of a wrap. -/
def wrapSlices (domain : Box d) (depth extent : ℤ) (axis : Fin d) (wrap : ℤ) : Checked (List (AxisSlice d)) := do
  let previous ← checkedMultiple (wrap - 1) extent "pops::mesh periodic wrap offset overflow"
  let reached ← checkedMultiple wrap extent "pops::mesh periodic wrap offset overflow"
  let capped := min depth reached
  let shift ← checkedIndex reached "pops::mesh periodic shift exceeds Index range"
  let first ← checkedSum (domain.lo axis) (-capped) "pops::mesh lower periodic ghost region overflows int64_t"
  let first ← checkedIndex first "pops::mesh lower periodic ghost region exceeds native index range"
  let last ← checkedSum (domain.lo axis) (-previous) "pops::mesh lower periodic ghost region overflows int64_t"
  let last ← checkedSum last (-1) "pops::mesh lower periodic ghost region overflows int64_t"
  let last ← checkedIndex last "pops::mesh lower periodic ghost region exceeds native index range"
  let start ← checkedSum (domain.hi axis) previous "pops::mesh upper periodic ghost region overflows int64_t"
  let start ← checkedSum start 1 "pops::mesh upper periodic ghost region overflows int64_t"
  let start ← checkedIndex start "pops::mesh upper periodic ghost region exceeds native index range"
  let stop ← checkedSum (domain.hi axis) capped "pops::mesh upper periodic ghost region overflows int64_t"
  let stop ← checkedIndex stop "pops::mesh upper periodic ghost region exceeds native index range"
  return [⟨first, last, some ⟨⟨axis, .lower⟩, .periodic, axisShift axis shift⟩⟩,
    ⟨start, stop, some ⟨⟨axis, .upper⟩, .periodic, axisShift axis (-shift)⟩⟩]

def makeAxisSlices (domain : Box d) (ghosts : Extent d) (topology : BoundaryTopology d) (axis : Fin d) :
    Checked (List (AxisSlice d)) := do
  let depth := ghosts axis
  let _ ← checkedAxisSegmentCount depth (domain.length axis) (topology.IsPeriodic ⟨axis, .lower⟩)
  let interior := ⟨domain.lo axis, domain.hi axis, none⟩
  if depth = 0 then return [interior]
  else if ¬ topology.IsPeriodic ⟨axis, .lower⟩ then do
    let first ← checkedSum (domain.lo axis) (-depth) "pops::mesh lower physical ghost region overflows int64_t"
    let first ← checkedIndex first "pops::mesh lower physical ghost region exceeds native index range"
    let last ← checkedIndex (domain.lo axis - 1) "pops::mesh lower physical ghost region exceeds native index range"
    let start ← checkedIndex (domain.hi axis + 1) "pops::mesh upper physical ghost region exceeds native index range"
    let stop ← checkedSum (domain.hi axis) depth "pops::mesh upper physical ghost region overflows int64_t"
    let stop ← checkedIndex stop "pops::mesh upper physical ghost region exceeds native index range"
    return [interior, ⟨first, last, some ⟨⟨axis, .lower⟩, .physical, 0⟩⟩,
      ⟨start, stop, some ⟨⟨axis, .upper⟩, .physical, 0⟩⟩]
  else do
    let strips ← (List.range (wraps depth (domain.length axis)).toNat).mapM fun (n : ℕ) =>
      wrapSlices domain depth (domain.length axis) axis ((n : ℤ) + 1)
    return interior :: strips.flatten

def FaceLess (left right : Face d) : Prop :=
  left.axis < right.axis ∨ left.axis = right.axis ∧ left.side = .lower ∧ right.side = .upper

instance (left right : Face d) : Decidable (FaceLess left right) := inferInstanceAs (Decidable (_ ∨ _))

/-- The order of the operations of a plan. -/
def before (left right : BoundaryOperation d) : Bool := ¬ FaceLess right.face left.face

/-- The checks of an operation, after the axis of the one before it and the shifts composed so far. -/
def composeStep (composed : Option (Fin d) × Index d) (operation : BoundaryOperation d) :
    Checked (Option (Fin d) × Index d) := do
  throwIf (composed.1 = some operation.face.axis)
    (.invalidArgument "pops::mesh boundary composition has conflicting sides on one axis")
  if operation.kind = .physical then do
    throwIf (operation.shift ≠ 0) (.invalidArgument "pops::mesh physical boundary operation carries a shift")
    return (some operation.face.axis, composed.2)
  else do
    throwIf (operation.shift operation.face.axis = 0)
      (.invalidArgument "pops::mesh periodic boundary operation carries a zero shift")
    throwIf (∃ axis, axis ≠ operation.face.axis ∧ operation.shift axis ≠ 0)
      (.invalidArgument "pops::mesh axis-translation boundary operation carries a tangential shift")
    throwIf (composed.2 operation.face.axis ≠ 0)
      (.invalidArgument "pops::mesh boundary composition has conflicting translation contributors")
    return (some operation.face.axis,
      Function.update composed.2 operation.face.axis (operation.shift operation.face.axis))

def composeBoundaryRegionPlan (destination : Box d) (operations : List (BoundaryOperation d)) :
    Checked (BoundaryRegionPlan d) := do
  throwIf destination.Empty (.invalidArgument "pops::mesh boundary plan destination must be non-empty")
  throwIf (operations.length = 0 ∨ d < operations.length)
    (.invalidArgument "pops::mesh boundary plan operation count is outside [1, Dim]")
  let sorted := operations.mergeSort before
  let composed ← sorted.foldlM composeStep (none, fun _ => 0)
  return ⟨destination, sorted, composed.2⟩

/-- The digits of an ordinal, axis 0 fastest: one pass of the loop over the axes. -/
def digit (counts : Fin d → ℕ) (ordinal : ℕ) : Fin d → ℕ :=
  (MixedRadix.decode counts (List.finRange d) ordinal fun _ => 0).1

/-- The slice of an axis that an ordinal stands for. -/
def sliceAt (slices : Fin d → List (AxisSlice d)) (ordinal : ℕ) (axis : Fin d) : AxisSlice d :=
  (slices axis).getD (digit (fun axis => (slices axis).length) ordinal axis) ⟨0, -1, none⟩

/-- The region of an ordinal. -/
def regionPlan (slices : Fin d → List (AxisSlice d)) (ordinal : ℕ) : Checked (BoundaryRegionPlan d) :=
  composeBoundaryRegionPlan
    ⟨fun axis => (sliceAt slices ordinal axis).lower, fun axis => (sliceAt slices ordinal axis).upper⟩
    ((List.finRange d).filterMap fun axis => (sliceAt slices ordinal axis).operation)

/-- The product of the slice counts, which must be a `size_t`. -/
def cartesianCount (counts : Fin d → ℕ) : Checked ℕ :=
  (List.finRange d).foldlM (fun count axis => do
    throwIf (counts axis > sizeMax / count)
      (.lengthError "pops::mesh boundary schedule Cartesian size overflows size_t")
    return count * counts axis) 1

/-- `prepare_boundary_schedule`, for a budget of entries. -/
def prepareBoundarySchedule (domain : Box d) (ghosts : Extent d) (topology : BoundaryTopology d) (budget : ℕ) :
    Checked (List (BoundaryRegionPlan d)) := do
  throwIf domain.Empty (.invalidArgument "pops::mesh boundary schedule requires a non-empty domain")
  let counts ← axes fun axis =>
    checkedAxisSegmentCount (ghosts axis) (domain.length axis) (topology.IsPeriodic ⟨axis, .lower⟩)
  let count ← cartesianCount counts
  throwIf (count - 1 > budget) (.lengthError "pops::mesh boundary schedule exceeds its explicit entry budget")
  let slices ← axes (makeAxisSlices domain ghosts topology)
  (List.range (count - 1)).mapM fun n => regionPlan slices (n + 1)

/-- The laws of an axis. -/
def axisLaws (conditions : PhysicalBoundaryConditions d K) (domain : Box d) (axis : Fin d) : AxisLaws K :=
  ⟨domain.lo axis, domain.hi axis, conditions.faces ⟨axis, .lower⟩, conditions.faces ⟨axis, .upper⟩,
    conditions.spacing axis⟩

structure PreparedPhysicalBoundary (d : ℕ) (K : Type) [Field K] [LinearOrder K] where
  conditions : PhysicalBoundaryConditions d K
  domain : Box d
  ghosts : Extent d
  entries : List (BoundaryRegionPlan d)

/-- The check of the samples of a face, which an external one does not have. -/
def validateFace (face : PhysicalBoundaryFace K) (check : Checked Unit) : Checked Unit :=
  if face.kind = .external then .ok () else check

def validateTransforms (conditions : PhysicalBoundaryConditions d K) (domain : Box d) (ghosts : Extent d) :
    Checked Unit :=
  (List.finRange d).forM fun axis =>
    (List.range (ghosts axis).toNat).forM fun (n : ℕ) => do
      validateFace (conditions.faces ⟨axis, .lower⟩)
        ((axisLaws conditions domain axis).validateAxisSample (domain.lo axis - ((n : ℤ) + 1)))
      validateFace (conditions.faces ⟨axis, .upper⟩)
        ((axisLaws conditions domain axis).validateAxisSample (domain.hi axis + ((n : ℤ) + 1)))

def preparePhysicalBoundary (domain : Box d) (ghosts : Extent d) (conditions : PhysicalBoundaryConditions d K)
    (budget : ℕ) : Checked (PreparedPhysicalBoundary d K) := do
  let entries ← prepareBoundarySchedule domain ghosts conditions.topology budget
  validateTransforms conditions domain ghosts
  return ⟨conditions, domain, ghosts, entries⟩

/-- Where the operations of a region have brought a ghost. -/
structure Composed (d : ℕ) (K : Type) where
  source : Index d
  scale : K
  offset : K

variable (prepared : PreparedPhysicalBoundary d K)

/-- A physical operation in `ApplyPhysicalRegion`. -/
def sampleStep (destination : Index d) (axis : Fin d) (composed : Composed d K) : Composed d K :=
  let sample := (axisLaws prepared.conditions prepared.domain axis).sampleAxis (destination axis)
  ⟨Function.update composed.source axis sample.source, composed.scale * sample.scale,
    sample.scale * composed.offset + sample.offset⟩

/-- The affine map of a ghost in a region. -/
def compose (plan : BoundaryRegionPlan d) (destination : Index d) : Composed d K :=
  plan.operations.foldl (fun composed operation =>
    if operation.kind = .physical then sampleStep prepared destination operation.face.axis composed else composed)
    ⟨destination, 1, 0⟩

/-- The values of a field: components at every index. -/
abbrev Values (d : ℕ) (K : Type) := Index d → ℤ → K

/-- `ApplyPhysicalRegion` at a ghost, for the components from `first` on. -/
def applyPhysicalRegion (plan : BoundaryRegionPlan d) (first count : ℤ) (values : Values d K) (destination : Index d) :
    Values d K :=
  let composed := compose prepared plan destination
  Function.update values destination fun component =>
    if first ≤ component ∧ component < first + count then
      composed.scale * values composed.source component + composed.offset
    else values destination component

def HasPhysical (plan : BoundaryRegionPlan d) : Prop := ∃ operation ∈ plan.operations, operation.kind = .physical

instance (plan : BoundaryRegionPlan d) : Decidable (HasPhysical plan) := inferInstanceAs (Decidable (∃ _ ∈ _, _))

def ExternallyOwned (plan : BoundaryRegionPlan d) : Prop :=
  ∃ operation ∈ plan.operations, operation.kind = .physical ∧
    (prepared.conditions.faces operation.face).kind = .external

instance (plan : BoundaryRegionPlan d) : Decidable (ExternallyOwned prepared plan) :=
  inferInstanceAs (Decidable (∃ _ ∈ _, _))

/-- A patch and its ghosts. -/
def grown (patch : Box d) (ghosts : Extent d) : Box d :=
  ⟨fun axis => patch.lo axis - ghosts axis, fun axis => patch.hi axis + ghosts axis⟩

/-- A region of a patch, whose cells `for_each_cell` visits in the order of `visit`. -/
def fillRegion (visit : Box d → List (Index d)) (patch : Box d) (first count : ℤ) (values : Values d K)
    (plan : BoundaryRegionPlan d) : Values d K :=
  if ¬ HasPhysical plan ∨ ExternallyOwned prepared plan then values
  else
    (visit ((grown patch prepared.ghosts).intersect plan.destination)).foldl
      (applyPhysicalRegion prepared plan first count) values

/-- A `MultiFab`, with its local patches. -/
structure MultiFab (d : ℕ) (K : Type) where
  boxes : List (Box d)
  ghosts : Extent d
  ncomp : ℤ
  fabs : List (Box d × Values d K)
  located : ∀ fab ∈ fabs, fab.1 ∈ boxes

/-- The fill of a patch, region by region. -/
def fillPatch (visit : Box d → List (Index d)) (first count : ℤ) (patch : Box d) (values : Values d K) : Values d K :=
  prepared.entries.foldl (fillRegion prepared visit patch first count) values

def fillPhysicalBoundary (visit : Box d → List (Index d)) (fields : MultiFab d K) (first count : ℤ) :
    Checked (MultiFab d K) := do
  throwIf (fields.ghosts ≠ prepared.ghosts)
    (.invalidArgument "prepared physical boundary ghost extents disagree with the target field")
  throwIf (∃ patch ∈ fields.boxes, ¬ prepared.domain.ContainsBox patch)
    (.invalidArgument "prepared physical boundary domain does not contain the target field layout")
  throwIf (first < 0 ∨ count < 1 ∨ first > fields.ncomp ∨ count > fields.ncomp - first)
    (.outOfRange "physical boundary component range must be non-empty and inside the target field")
  return { fields with
    fabs := fields.fabs.map fun fab =>
      (fab.1, fillPatch prepared visit first count fab.1 fab.2)
    located := fun fab listed => by
      obtain ⟨old, inside, rfl⟩ := List.mem_map.mp listed
      exact fields.located old inside }

end Pops.PhysicalBoundary
