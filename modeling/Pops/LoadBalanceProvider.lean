import Pops.LoadBalance

/-!
`parallel/load_balance.hpp`: the three strategies that distribute patches over ranks. A sort
compares by a strict total order, so the order it returns is the only one; the comparison of Morton
coordinates walks their bits from the highest.
-/
namespace Pops

variable {d : ℕ}

namespace LoadBalance

/-- `validate_load_balance_budget`. -/
def validateBudget (budget : LoadBalancePreparationBudget) : Checked Unit :=
  throwIf (budget.patches = 0 ∨ budget.ranks = 0 ∨ budget.totalWeight ≤ 0)
    (.invalidArgument "load-balance preparation budgets must be strictly positive")

/-- One patch of the loop of `prepare_load_balance_weights`. -/
def weightStep (budget : LoadBalancePreparationBudget) (supplied : List ℤ) (total : ℤ) (patch : Box d × ℕ) :
    Checked ℤ := do
  throwIf patch.1.Empty (.invalidArgument "load-balance layouts cannot contain empty patches")
  let weight ← patchWeight supplied patch
  throwIf (weight ≤ 0) (.invalidArgument "load-balance weights must be strictly positive")
  throwIf (weight > int64Max - total) (.overflowError "load-balance total weight exceeds int64_t")
  throwIf (weight > budget.totalWeight - total)
    (.lengthError "load-balance total weight exceeds its prepared budget")
  return total + weight

/-- `prepare_load_balance_weights`. -/
def prepareWeights (patches : BoxArray d) (supplied : List ℤ) (budget : LoadBalancePreparationBudget) :
    Checked (List ℤ × ℤ) := do
  throwIf (patches.boxes.length > budget.patches)
    (.lengthError "load-balance patch count exceeds its prepared budget")
  throwIf (supplied ≠ [] ∧ supplied.length ≠ patches.boxes.length)
    (.invalidArgument "load-balance weight count must equal its patch count")
  let total ← patches.boxes.zipIdx.foldlM (weightStep budget supplied) 0
  let weights ← patches.boxes.zipIdx.mapM (patchWeight supplied)
  return (weights, total)

/-- `load_balance_cumulative_target`. -/
def cumulativeTarget (total : ℤ) (partitions rankCount : ℕ) : ℤ :=
  let ranks : ℤ := rankCount
  let cut : ℤ := partitions
  let quotient := total.tdiv ranks
  let remainder := total.tmod ranks
  let remainderProduct := remainder * cut
  let remainderShare := (remainderProduct + ranks - 1).tdiv ranks
  quotient * cut + remainderShare

def checkedAddLoad (destination weight : ℤ) : Checked ℤ := do
  throwIf (weight > int64Max - destination) (.overflowError "load-balance rank load exceeds int64_t")
  return destination + weight

/-- The least lower corner of the patches, per axis. -/
def lowerCorner (first : Box d) (later : List (Box d)) : Index d :=
  later.foldl (fun lower patch axis => min (lower axis) (patch.lo axis)) first.lo

/-- The coordinate of a patch along an axis. -/
def mortonCoordinate (lower : Index d) (patch : Box d) (axis : Fin d) : Checked ℕ := do
  let offset := patch.lo axis - lower axis
  throwIf (offset < 0 ∨ offset > 4294967295)
    (.overflowError "Morton coordinate is outside its exact 32-bit range")
  return offset.toNat

/-- The bits of a coordinate vector from the highest, the last axis first. -/
def mortonBits (coordinates : Fin d → ℕ) : List Bool :=
  (List.range 32).reverse.flatMap fun bit => (List.finRange d).reverse.map fun axis => (coordinates axis).testBit bit

/-- The first bit that differs decides. -/
def bitsLess : List Bool → List Bool → Option Bool
  | left :: lefts, right :: rights => if left ≠ right then some (!left && right) else bitsLess lefts rights
  | _, _ => none

/-- The comparison of two patches along the curve. -/
def mortonLess (coordinates : List (Fin d → ℕ)) (left right : ℕ) : Bool :=
  match bitsLess (mortonBits (coordinates.getD left fun _ => 0)) (mortonBits (coordinates.getD right fun _ => 0)) with
  | some less => less
  | none => left < right

/-- `std::sort` by a comparison. -/
def sortBy (less : ℕ → ℕ → Bool) (order : List ℕ) : List ℕ :=
  order.insertionSort fun left right => less right left = false

def mortonOrder (patches : BoxArray d) : Checked (List ℕ) :=
  match patches.boxes with
  | [] => .ok []
  | first :: later => do
    let coordinates ← (first :: later).mapM fun patch => axes (mortonCoordinate (lowerCorner first later) patch)
    return sortBy (mortonLess coordinates) (List.range (first :: later).length)

/-- `linear_owners` and `rank_loads`. -/
structure Assignment where
  linearOwners : List ℕ
  rankLoads : List ℤ

/-- `linear_owners[patch] = owner` and the weight added to its load. -/
def Assignment.give (weights : List ℤ) (assignment : Assignment) (patch owner : ℕ) : Checked Assignment := do
  let load ← checkedAddLoad (assignment.rankLoads.getD owner 0) (weights.getD patch 0)
  return ⟨assignment.linearOwners.set patch owner, assignment.rankLoads.set owner load⟩

/-- No patch given yet. -/
def Assignment.none (patchCount rankCount : ℕ) : Assignment :=
  ⟨List.replicate patchCount 0, List.replicate rankCount 0⟩

/-- The loop along the curve: what is given, the weight of it, and the rank that is filled. -/
structure CurveState where
  assignment : Assignment
  cumulative : ℤ
  owner : ℕ

/-- One patch of the loop along the curve. -/
def curveStep (weights : List ℤ) (totalWeight : ℤ) (patchCount activeRankCount : ℕ) (state : CurveState)
    (entry : ℕ × ℕ) : Checked CurveState := do
  let (patch, position) := entry
  let assignment ← state.assignment.give weights patch state.owner
  let cumulative ← checkedAddLoad state.cumulative (weights.getD patch 0)
  let patchesLeft := patchCount - position - 1
  let ranksLeft := activeRankCount - state.owner - 1
  let reachedWeightTarget := cumulative ≥ cumulativeTarget totalWeight (state.owner + 1) activeRankCount
  let mustSeedRemainingRanks := patchesLeft = ranksLeft
  if state.owner + 1 < activeRankCount ∧ patchesLeft ≥ ranksLeft ∧ (reachedWeightTarget ∨ mustSeedRemainingRanks) then
    return ⟨assignment, cumulative, state.owner + 1⟩
  else return ⟨assignment, cumulative, state.owner⟩

/-- The comparison of two patches by weight, the heaviest first. -/
def heavierFirst (weights : List ℤ) (left right : ℕ) : Bool :=
  weights.getD left 0 > weights.getD right 0 ∨ (weights.getD left 0 = weights.getD right 0 ∧ left < right)

/-- The first rank with the least load. -/
def leastLoaded (rankLoads : List ℤ) (rankCount : ℕ) : ℕ :=
  (List.range' 1 (rankCount - 1)).foldl
    (fun owner rank => if rankLoads.getD rank 0 < rankLoads.getD owner 0 then rank else owner) 0

/-- The `switch` over the strategies: the traversal, and who owns what. -/
def assign (strategy : LoadBalanceStrategy) (patches : BoxArray d) (weights : List ℤ) (totalWeight : ℤ)
    (rankCount : ℕ) : Checked (List ℕ × Assignment) :=
  let patchCount := patches.boxes.length
  let start := Assignment.none patchCount rankCount
  match strategy with
  | .spaceFillingCurve => do
    let traversal ← mortonOrder patches
    let activeRankCount := min patchCount rankCount
    let state ← traversal.zipIdx.foldlM (curveStep weights totalWeight patchCount activeRankCount) ⟨start, 0, 0⟩
    return (traversal, state.assignment)
  | .weightedLpt => do
    let traversal := sortBy (heavierFirst weights) (List.range patchCount)
    let assignment ← traversal.foldlM (fun assignment patch =>
      assignment.give weights patch (leastLoaded assignment.rankLoads rankCount)) start
    return (traversal, assignment)
  | .roundRobin => do
    let assignment ← (List.range patchCount).foldlM (fun assignment patch =>
      assignment.give weights patch (patch % rankCount)) start
    return (List.range patchCount, assignment)

end LoadBalance

open LoadBalance

def LoadBalanceStrategy.prepare (strategy : LoadBalanceStrategy) (patches : BoxArray d) (rankSpace : RankSpace d)
    (budget : LoadBalancePreparationBudget) (supplied : List ℤ) : Checked (OwnershipPlan d) := do
  validateBudget budget
  throwIf (rankSpace.size = 0) (.invalidArgument "load balance requires a non-empty rank space")
  throwIf (rankSpace.size > budget.ranks)
    (.lengthError "load-balance rank count exceeds its prepared budget")
  throwIf ((rankSpace.size : ℤ) > intMax)
    (.lengthError "load-balance rank count exceeds its bounded algorithm range")
  let (weights, totalWeight) ← prepareWeights patches supplied budget
  let (traversal, assignment) ← assign strategy patches weights totalWeight rankSpace.size
  let owners ← assignment.linearOwners.mapM rankSpace.coordinate
  let distribution ← Distribution.create patches rankSpace .partitioned owners
  return ⟨strategy, distribution, weights, assignment.linearOwners, assignment.rankLoads, traversal, totalWeight⟩

end Pops
