import Pops.TagMask

/-!
`amr/tagging/berger_rigoutsos.hpp`: deterministic clustering of tagged cells
into boxes. `long double` and `double` values are of a type with the operations
the code calls and no laws, so nothing below depends on their rounding.
-/
namespace Pops
open MixedRadix

/-- The floating-point operations of the splitter. -/
class LongDouble (R : Type) where
  ofInt : ℤ → R
  add : R → R → R
  sub : R → R → R
  mul : R → R → R
  div : R → R → R
  abs : R → R
  less : R → R → Bool
  lessEq : R → R → Bool
  equal : R → R → Bool
  isFinite : R → Bool

structure ClusterWorkBudget where
  shards : ℕ
  recursionNodes : ℕ
  cellVisits : ℕ
  outputBoxes : ℕ
  identityBytes : ℕ
  deriving DecidableEq

structure ClusterOptions (d : ℕ) (R : Type) where
  minEfficiency : R
  minBoxSize : Fin d → ℤ
  maxBoxSize : Fin d → ℤ
  budget : ClusterWorkBudget

structure ClusterResultIdentity (d : ℕ) (R : Type) where
  provider : String
  sourceLevel : LevelLayoutIdentity d
  options : ClusterOptions d R
  canonicalShards : List (TagShardIdentity d)
  boxes : List (Box d)

structure ClusterResult (d : ℕ) (R : Type) where
  boxes : BoxArray d
  identity : ClusterResultIdentity d R

namespace BergerRigoutsos
variable {d : ℕ} {R : Type}

def identity : String := "pops.amr.cluster.berger-rigoutsos.nd.v1"

/-- The running work counters. -/
structure Work where
  allowed : ClusterWorkBudget
  nodes : ℕ := 0
  visitedCells : ℕ := 0
  outputBoxes : ℕ := 0
  identityBytes : ℕ := 0

/-- What `visit_node` throws once the budget is used up. -/
def nodeBudgetExceeded : Exception :=
  .lengthError "Berger-Rigoutsos exceeds its recursion-node budget"

namespace Work

def visitNode (work : Work) : Checked Work := do
  throwIf (work.nodes = work.allowed.recursionNodes) nodeBudgetExceeded
  return { work with nodes := work.nodes + 1 }

/-- The check `used > allowed || count > allowed - used` shared by the cell,
output and identity budgets. -/
def require (used allowed count : ℕ) (exception : Exception) : Checked ℕ := do
  throwIf (used > allowed ∨ count > allowed - used) exception
  return used + count

def visitCells (work : Work) (count : ℕ) : Checked Work := do
  let used ← require work.visitedCells work.allowed.cellVisits count
    (.lengthError "Berger-Rigoutsos exceeds its cell-visit budget")
  return { work with visitedCells := used }

def requireOutput (work : Work) (count : ℕ) : Checked Work := do
  let used ← require work.outputBoxes work.allowed.outputBoxes count
    (.lengthError "Berger-Rigoutsos exceeds its output-box budget")
  return { work with outputBoxes := used }

def requireIdentity (work : Work) (count : ℕ) : Checked Work := do
  let used ← require work.identityBytes work.allowed.identityBytes count
    (.lengthError "Berger-Rigoutsos exceeds its identity-copy byte budget")
  return { work with identityBytes := used }

end Work

/-- The bounding box and number of the tagged cells seen so far. -/
structure Scan (d : ℕ) where
  bounds : Box d := .default
  tagged : ℕ := 0

/-- The visitor of `scan_`; `found` is `tagged ≠ 0`. -/
def scanStep (scan : Scan d) (visit : Index d × Bool) : Scan d :=
  if visit.2 = false then scan
  else if scan.tagged = 0 then ⟨⟨visit.1, visit.1⟩, 1⟩
  else ⟨⟨fun axis => min (scan.bounds.lo axis) (visit.1 axis),
    fun axis => max (scan.bounds.hi axis) (visit.1 axis)⟩, scan.tagged + 1⟩

/-- `scan_`. -/
def scanRegion (mask : TagMask d) (region : Box d) (work : Work) : Checked (Scan d × Work) := do
  let count ← region.numPts
  let work ← work.visitCells count.toNat
  let visited ← mask.forEachCellIn region
  return (visited.foldl scanStep {}, work)

/-- The visitor of `signatures_` on one axis. -/
def signatureStep (region : Box d) (axis : Fin d) (signature : List ℤ) (visit : Index d × Bool) :
    List ℤ :=
  if visit.2 = false then signature
  else signature.modify (visit.1 axis - region.lo axis).toNat (· + 1)

def signatures (mask : TagMask d) (region : Box d) (work : Work) :
    Checked ((Fin d → List ℤ) × Work) := do
  let count ← region.numPts
  let work ← work.visitCells count.toNat
  let visited ← mask.forEachCellIn region
  return (fun axis => visited.foldl (signatureStep region axis)
    (List.replicate (region.length axis).toNat 0), work)

/-- The values of `for (int cut = lower; cut <= upper; ++cut)`. -/
def cutsBetween (lower upper : ℤ) : List ℤ :=
  (List.range (upper + 1 - lower).toNat).map fun step => lower + step

/-- `best_hole_`: the empty slice closest to the centre, the lower one of two. -/
def bestHole (signature : List ℤ) (minimum : ℤ) : ℤ :=
  let length : ℤ := signature.length
  let center := length / 2
  let closer := fun (best : ℤ × ℤ) (cut : ℤ) =>
    if signature.getD cut.toNat 0 ≠ 0 then best
    else
      let distance := |cut - center|
      if distance < best.2 ∨ distance = best.2 ∧ cut < best.1 then (cut, distance) else best
  ((cutsBetween minimum (length - minimum)).foldl closer (-1, intMax)).1

variable [LongDouble R]

/-- The discrete second difference, zero at both ends. -/
def laplacian (signature : List ℤ) (index : ℤ) : R :=
  let at' := fun i : ℤ => (LongDouble.ofInt (signature.getD i.toNat 0) : R)
  if 1 ≤ index ∧ index < signature.length - 1 then
    LongDouble.add (LongDouble.sub (at' (index + 1))
      (LongDouble.mul (LongDouble.ofInt 2) (at' index))) (at' (index - 1))
  else LongDouble.ofInt 0

/-- `best_inflection_`: the first cut of the strongest change of curvature. -/
def bestInflection (signature : List ℤ) (minimum : ℤ) : ℤ × R :=
  let length : ℤ := signature.length
  if length < 3 then (-1, LongDouble.ofInt 0)
  else
    let stronger := fun (best : ℤ × R) (cut : ℤ) =>
      let candidate : R :=
        LongDouble.abs (LongDouble.sub (laplacian signature cut) (laplacian signature (cut - 1)))
      if LongDouble.less best.2 candidate then (cut, candidate) else best
    (cutsBetween (max minimum 2) (min (length - minimum) (length - 2))).foldl stronger
      (-1, LongDouble.ofInt 0)

structure AxisCut (d : ℕ) (R : Type) where
  axis : Fin d
  offset : ℤ
  length : ℤ
  score : R

/-- `std::max_element`: the first element no other one exceeds. -/
def maxElement {α : Type} (less : α → α → Bool) : List α → Option α
  | [] => none
  | head :: tail => some (tail.foldl (fun largest item => if less largest item then item else largest) head)

/-- `std::erase_if` of what differs from the selected element. -/
def keepLike {α : Type} (same : α → α → Bool) (selected : Option α) (items : List α) : List α :=
  match selected with
  | none => items
  | some item => items.filter (same item)

section Cuts
variable (region : Box d) (signature : Fin d → List ℤ) (minBoxSize : Fin d → ℤ)

/-- The region is long enough for two boxes of the minimum size. -/
def Splittable (axis : Fin d) : Prop := region.length axis ≥ 2 * minBoxSize axis

instance (axis : Fin d) : Decidable (Splittable region minBoxSize axis) :=
  inferInstanceAs (Decidable (_ ≥ _))

/-- At most one cut per splittable axis. -/
def cutPerAxis (best : Fin d → Option (ℤ × R)) : List (AxisCut d R) :=
  (List.finRange d).filterMap fun axis =>
    if Splittable region minBoxSize axis then
      (best axis).map fun cut => ⟨axis, cut.1, region.length axis, cut.2⟩
    else none

/-- Cuts through holes, on the longest axes that have one. -/
def holeCuts : List (AxisCut d R) :=
  let cuts : List (AxisCut d R) := cutPerAxis region minBoxSize fun axis =>
    let cut := bestHole (signature axis) (minBoxSize axis)
    if cut < 0 then none else some (cut, LongDouble.ofInt 0)
  keepLike (fun selected cut => cut.length == selected.length)
    (maxElement (fun left right => left.length < right.length) cuts) cuts

/-- Cuts at inflections, on the axes of the strongest score and then length. -/
def inflectionCuts : List (AxisCut d R) :=
  let cuts : List (AxisCut d R) := cutPerAxis region minBoxSize fun axis =>
    let cut : ℤ × R := bestInflection (signature axis) (minBoxSize axis)
    if cut.1 < 0 then none else some cut
  keepLike (fun selected cut =>
      LongDouble.equal cut.score selected.score && cut.length == selected.length)
    (maxElement (fun left right =>
      if LongDouble.equal left.score right.score then left.length < right.length
      else LongDouble.less left.score right.score) cuts) cuts

/-- Cuts in the middle of the longest splittable axes. -/
def midpointCuts : List (AxisCut d R) :=
  let longest := (List.finRange d).foldl (fun longest axis =>
    if Splittable region minBoxSize axis then max longest (region.length axis) else longest) 0
  cutPerAxis region minBoxSize fun axis =>
    if region.length axis = longest then some (region.length axis / 2, LongDouble.ofInt 0) else none

/-- The cuts `cluster_rec_` selects: holes, else inflections, else midpoints. -/
def selectCuts : List (AxisCut d R) :=
  let holes : List (AxisCut d R) := holeCuts region signature minBoxSize
  if holes.isEmpty = false then holes
  else
    let inflections : List (AxisCut d R) := inflectionCuts region signature minBoxSize
    if inflections.isEmpty = false then inflections else midpointCuts region minBoxSize

end Cuts

/-- The two halves of one child at a selected cut. -/
def leftHalf (region : Box d) (axis : Fin d) (offset : ℤ) (child : Box d) : Box d :=
  ⟨child.lo, Function.update child.hi axis (region.lo axis + offset - 1)⟩

def rightHalf (region : Box d) (axis : Fin d) (offset : ℤ) (child : Box d) : Box d :=
  ⟨Function.update child.lo axis (region.lo axis + offset), child.hi⟩

/-- One selected cut applied to every child: the lower halves stay in place,
the upper halves are appended. -/
def splitAt (region : Box d) (children : List (Box d)) (cut : AxisCut d R) : Checked (List (Box d)) := do
  throwIf (cut.offset ≤ 0 ∨ cut.offset ≥ region.length cut.axis)
    (.logicError "Berger-Rigoutsos failed to produce a strict split")
  return children.map (leftHalf region cut.axis cut.offset) ++
    children.map (rightHalf region cut.axis cut.offset)

/-- `cluster_rec_`. Every call visits one node, so the node budget bounds the
recursion depth; fuel beyond the budget is never reached. -/
def clusterRec (mask : TagMask d) (options : ClusterOptions d R) :
    ℕ → Work × List (Box d) → Box d → Checked (Work × List (Box d))
  | 0, _, _ => .error nodeBudgetExceeded
  | fuel + 1, (work, output), candidate => do
    let work ← work.visitNode
    let (scan, work) ← scanRegion mask candidate work
    if scan.tagged = 0 then
      return (work, output)
    else
      let region := scan.bounds
      let points ← region.numPts
      let efficiency : R := LongDouble.div (LongDouble.ofInt scan.tagged) (LongDouble.ofInt points)
      if LongDouble.lessEq options.minEfficiency efficiency = true ∨
          ¬ ∃ axis, Splittable region options.minBoxSize axis then
        throwIf (output.length = options.budget.outputBoxes)
          (.lengthError "Berger-Rigoutsos exceeds its raw output-box budget")
        return (work, output ++ [region])
      else
        let (signature, work) ← signatures mask region work
        let cuts : List (AxisCut d R) := selectCuts region signature options.minBoxSize
        throwIf (cuts.isEmpty = true)
          (.logicError "Berger-Rigoutsos failed to select a deterministic split")
        let children ← cuts.foldlM (splitAt region) [region]
        children.foldlM (clusterRec mask options fuel) (work, output)

def validateOptions (options : ClusterOptions d R) : Checked Unit := do
  throwIf (LongDouble.isFinite options.minEfficiency = false ∨
      LongDouble.lessEq options.minEfficiency (LongDouble.ofInt 0) = true ∨
      LongDouble.less (LongDouble.ofInt 1) options.minEfficiency = true)
    (.invalidArgument "Berger-Rigoutsos efficiency must lie in (0, 1]")
  let _ ← axes fun axis => do
    throwIf (options.minBoxSize axis ≤ 0 ∨ options.maxBoxSize axis ≤ 0)
      (.invalidArgument "Berger-Rigoutsos box sizes must be strictly positive")
    throwIf (options.minBoxSize axis > options.maxBoxSize axis)
      (.invalidArgument "Berger-Rigoutsos minimum box size cannot exceed its maximum")
  throwIf (options.budget.shards = 0 ∨ options.budget.recursionNodes = 0 ∨
      options.budget.cellVisits = 0 ∨ options.budget.outputBoxes = 0 ∨ options.budget.identityBytes = 0)
    (.invalidArgument "Berger-Rigoutsos work budgets must be strictly positive")
  throwIf ((options.budget.cellVisits : ℤ) > int64Max)
    (.invalidArgument "Berger-Rigoutsos cell budget exceeds exact signed counters")

/-- The shards in linear rank order. -/
def sortShards (rankSpace : RankSpace d) (shards : List (TagMask d)) : Checked (List (TagMask d)) := do
  let keyed ← shards.mapM fun shard => do
    let rank ← rankSpace.linearRank shard.localRank
    return (rank, shard)
  return (keyed.insertionSort fun left right => left.1 ≤ right.1).map Prod.snd

/-- The replicated branch of `authenticate_shards_`. -/
def authenticateReplicated (source : LevelLayoutIdentity d) (reference : List (PatchTags d))
    (shard : TagMask d) : Checked Unit := do
  throwIf (shard.patches ≠ reference)
    (.invalidArgument "Berger-Rigoutsos replicated tag shards do not have identical tag bits")
  throwIf (shard.patches.length ≠ source.patches.length)
    (.invalidArgument "Berger-Rigoutsos replicated tag shard omits a patch")
  shard.patches.zipIdx.forM fun (patch, position) =>
    throwIf (patch.globalPatch ≠ position ∨ source.patches[position]? ≠ some patch.box)
      (.invalidArgument "Berger-Rigoutsos replicated tag shard patch identity is invalid")

/-- One patch of the partitioned branch, with the patches seen before. -/
def authenticatePatch (source : LevelLayoutIdentity d) (localRank : Index d) (seen : List Bool)
    (patch : PatchTags d) : Checked (List Bool) := do
  throwIf (source.patches[patch.globalPatch]? ≠ some patch.box)
    (.invalidArgument "Berger-Rigoutsos tag shard patch identity is invalid")
  throwIf (source.owners[patch.globalPatch]? ≠ some localRank ∨ seen.getD patch.globalPatch false = true)
    (.invalidArgument "Berger-Rigoutsos tag shard ownership is invalid")
  return seen.set patch.globalPatch true

def authenticateShards (shards : List (TagMask d)) (options : ClusterOptions d R) :
    Checked (LevelLayoutIdentity d × List (TagMask d)) :=
  match shards with
  | [] => .error (.invalidArgument "Berger-Rigoutsos requires at least one tag shard")
  | front :: _ => do
    throwIf (shards.length > options.budget.shards)
      (.lengthError "Berger-Rigoutsos exceeds its tag-shard budget")
    let source := front.levelIdentity
    throwIf (source.patches = [] ∨ source.rankSpace.size = 0)
      (.invalidArgument "Berger-Rigoutsos source identity is incomplete")
    throwIf (∃ shard ∈ shards, shard.levelIdentity ≠ source)
      (.invalidArgument "Berger-Rigoutsos tag shards disagree on exact level identity")
    let canonical ← sortShards source.rankSpace shards
    throwIf (∃ pair ∈ canonical.zip canonical.tail, pair.1.localRank = pair.2.localRank)
      (.invalidArgument "Berger-Rigoutsos received duplicate rank tag shards")
    throwIf (canonical.length ≠ source.rankSpace.size)
      (.invalidArgument "Berger-Rigoutsos requires one tag shard for every process coordinate")
    canonical.zipIdx.forM fun (shard, rank) => do
      let coordinate ← source.rankSpace.coordinate rank
      throwIf (shard.localRank ≠ coordinate)
        (.invalidArgument "Berger-Rigoutsos tag shards do not cover the process space")
    match source.distributionMode with
    | .replicated => do
      canonical.forM (authenticateReplicated source ((canonical.head?.map TagMask.patches).getD []))
      return (source, canonical)
    | .partitioned => do
      let seen ← canonical.foldlM (fun seen shard =>
        shard.patches.foldlM (authenticatePatch source shard.localRank) seen)
        (List.replicate source.patches.length false)
      throwIf (false ∈ seen) (.invalidArgument "Berger-Rigoutsos tag shards omit an owned patch")
      return (source, canonical)

/-- `std::vector::at`. -/
def at' {α : Type} (items : List α) (position : ℕ) : Checked α :=
  match items[position]? with
  | none => .error (.outOfRange "vector::at")
  | some item => .ok item

def ownerForPatch (canonical : List (TagMask d)) (source : LevelLayoutIdentity d) (globalPatch : ℕ) :
    Checked (TagMask d) :=
  match source.distributionMode with
  | .replicated => at' canonical 0
  | .partitioned => do
    let owner ← at' source.owners globalPatch
    let rank ← source.rankSpace.linearRank owner
    at' canonical rank

def choppedCount (box : Box d) (maxBoxSize : Fin d → ℤ) : Checked ℕ :=
  checkedVolume (.lengthError "Berger-Rigoutsos chopped box count exceeds size_t") fun axis =>
    BoxArray.segments (box.length axis).toNat (maxBoxSize axis).toNat

def checkedProduct (left right : ℕ) : Checked ℕ := do
  throwIf (right ≠ 0 ∧ left > sizeMax / right)
    (.lengthError "Berger-Rigoutsos identity byte count exceeds size_t")
  return left * right

/-- `lexicographic_less_` from the given axes on. -/
def lexicographicLessFrom (left right : Box d) : List (Fin d) → Bool
  | [] => false
  | axis :: later =>
    if left.lo axis ≠ right.lo axis then left.lo axis < right.lo axis
    else if left.hi axis ≠ right.hi axis then left.hi axis < right.hi axis
    else lexicographicLessFrom left right later

def lexicographicLess (left right : Box d) : Bool := lexicographicLessFrom left right (List.finRange d)

/-- What sorting puts in order: the right box is not less than the left one. -/
def NotAfter (left right : Box d) : Prop := lexicographicLess right left = false

instance : DecidableRel (NotAfter (d := d)) := fun left right =>
  inferInstanceAs (Decidable (lexicographicLess right left = false))

/-- One source patch of the main loop. -/
def clusterPatch (canonical : List (TagMask d)) (source : LevelLayoutIdentity d)
    (options : ClusterOptions d R) (state : Work × List (Box d)) (patch : Box d × ℕ) :
    Checked (Work × List (Box d)) := do
  throwIf (∃ axis, patch.1.length axis > intMax)
    (.lengthError "Berger-Rigoutsos patch axis exceeds deterministic signature indexing")
  let owner ← ownerForPatch canonical source patch.2
  clusterRec owner options (options.budget.recursionNodes + 1) state patch.1

/-- One raw box chopped to the maximum size. -/
def chop (options : ClusterOptions d R) (state : Work × List (Box d)) (box : Box d) :
    Checked (Work × List (Box d)) := do
  let chopped ← choppedCount box options.maxBoxSize
  let work ← state.1.requireOutput chopped
  let pieces ← BoxArray.fromDomain box options.maxBoxSize
  return (work, state.2 ++ pieces.boxes)

/-- The identity bytes of the shards that are not aliases of the first one. -/
def requireShards (sizes : ObjectSizes) (mode : DistributionMode) (canonical : List (TagMask d))
    (work : Work) : Checked Work :=
  canonical.zipIdx.foldlM (fun work (shard, position) =>
    if mode = .replicated ∧ position ≠ 0 then .ok work
    else do
      let bytes ← checkedProduct shard.patches.length sizes.patchTagIdentity
      let work ← work.requireIdentity bytes
      shard.patches.foldlM (fun work patch => work.requireIdentity patch.tags.length) work) work

/-- The canonical shard identities, with aliases for replicated copies. -/
def canonicalShards (mode : DistributionMode) (canonical : List (TagMask d)) : List (TagShardIdentity d) :=
  canonical.zipIdx.map fun (shard, position) =>
    if mode = .replicated ∧ position ≠ 0 then ⟨shard.localRank, [], true⟩ else shard.shardIdentity

def cluster (sizes : ObjectSizes) (shards : List (TagMask d)) (options : ClusterOptions d R) :
    Checked (ClusterResult d R) := do
  validateOptions options
  let (source, canonical) ← authenticateShards shards options
  let (work, raw) ← source.patches.zipIdx.foldlM (clusterPatch canonical source options)
    (⟨options.budget, 0, 0, 0, 0⟩, [])
  let (work, boxes) ← raw.foldlM (chop options) (work, [])
  let boxes := boxes.insertionSort NotAfter
  let work ← work.requireIdentity identity.utf8ByteSize
  let work ← work.requireIdentity (← checkedProduct source.patches.length sizes.box)
  let work ← work.requireIdentity (← checkedProduct source.owners.length sizes.index)
  let work ← work.requireIdentity (← checkedProduct boxes.length sizes.box)
  let work ← work.requireIdentity (← checkedProduct canonical.length sizes.tagShardIdentity)
  let _ ← requireShards sizes source.distributionMode canonical work
  return ⟨⟨boxes⟩, ⟨identity, source, options, canonicalShards source.distributionMode canonical, boxes⟩⟩

end BergerRigoutsos

end Pops
