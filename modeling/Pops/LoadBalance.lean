import Pops.TagMask

/-!
`parallel/ownership_plan.hpp` and `parallel/prepared_load_balance.hpp`: the
request preflight, the validation of an ownership plan, and the authority that
runs both around its provider. The provider is any function: the checks are
what the rest of the code relies on. Every rank of the lane runs the same code
on the same values, so the agreed byte contracts are not modelled.
-/
namespace Pops

variable {d : ℕ}

inductive LoadBalanceStrategy where
  | spaceFillingCurve
  | weightedLpt
  | roundRobin
  deriving DecidableEq

structure LoadBalancePreparationBudget where
  patches : ℕ := 0
  ranks : ℕ := 0
  totalWeight : ℤ := 0
  deriving DecidableEq

/-- `OwnershipPlan`: the distribution with the decision that led to it. -/
structure OwnershipPlan (d : ℕ) where
  strategy : LoadBalanceStrategy
  distribution : Distribution d
  weights : List ℤ
  linearOwners : List ℕ
  linearRankLoads : List ℤ
  traversal : List ℕ
  totalWeight : ℤ

/-- `ExecutionLane`: what preparation reads of it. -/
structure ExecutionLane where
  identity : String
  active : Bool
  size : ℤ

namespace LoadBalance

def checkedAddCost (lhs rhs : ℤ) (context : String) : Checked ℤ := do
  throwIf (lhs < 0 ∨ rhs < 0 ∨ rhs > int64Max - lhs) (.overflowError (context ++ " exceeds int64_t"))
  return lhs + rhs

/-- The weight of a patch: the supplied one, else its cell count. -/
def patchWeight (weights : List ℤ) (patch : Box d × ℕ) : Checked ℤ :=
  if weights.isEmpty then patch.1.numPts else .ok (weights.getD patch.2 0)

/-- One patch of the request preflight, with the weight counted so far. -/
def requestStep (budget : LoadBalancePreparationBudget) (weights : List ℤ) (totalWeight : ℤ)
    (patch : Box d × ℕ) : Checked ℤ := do
  throwIf patch.1.Empty
    (.invalidArgument "prepared load-balance layouts cannot contain empty patches")
  let weight ← patchWeight weights patch
  throwIf (weight ≤ 0)
    (.invalidArgument "prepared load-balance weights must be strictly positive")
  throwIf (weight > int64Max - totalWeight)
    (.overflowError "prepared load-balance total weight exceeds int64_t")
  throwIf (weight > budget.totalWeight - totalWeight)
    (.lengthError "prepared load-balance total weight exceeds its budget")
  return totalWeight + weight

/-- `validate_prepared_load_balance_request`. -/
def validateRequest (patches : BoxArray d) (rankSpace : RankSpace d)
    (budget : LoadBalancePreparationBudget) (weights : List ℤ) (communicatorSize : ℤ) : Checked Unit := do
  throwIf (communicatorSize ≤ 0 ∨ rankSpace.size = 0 ∨ (rankSpace.size : ℤ) ≠ communicatorSize)
    (.invalidArgument "prepared load-balance rank space must equal the execution communicator")
  throwIf (budget.patches = 0 ∨ budget.ranks = 0 ∨ budget.totalWeight ≤ 0)
    (.invalidArgument "prepared load-balance budgets must be strictly positive")
  throwIf (patches.boxes.length > budget.patches)
    (.lengthError "prepared load-balance patch count exceeds its budget")
  throwIf (rankSpace.size > budget.ranks)
    (.lengthError "prepared load-balance rank count exceeds its budget")
  throwIf (weights ≠ [] ∧ weights.length ≠ patches.boxes.length)
    (.invalidArgument "prepared load-balance weight count must equal its patch count")
  let _ ← patches.boxes.zipIdx.foldlM (requestStep budget weights) 0

/-- One entry of the traversal, with the patches traversed before. -/
def traversalStep (patchCount : ℕ) (traversed : List Bool) (patch : ℕ) : Checked (List Bool) := do
  throwIf (patch ≥ patchCount ∨ traversed.getD patch false = true)
    (.invalidArgument "prepared load-balance traversal must be one exact patch permutation")
  return traversed.set patch true

/-- One patch of the plan validation, with the loads of the ranks and their total. -/
def planStep (plan : OwnershipPlan d) (rankSpace : RankSpace d) (suppliedWeights : List ℤ)
    (loads : List ℤ × ℤ) (patch : Box d × ℕ) : Checked (List ℤ × ℤ) := do
  let expectedWeight ← patchWeight suppliedWeights patch
  throwIf (plan.weights.getD patch.2 0 ≠ expectedWeight)
    (.invalidArgument "prepared load-balance provider changed an authenticated patch weight")
  let linearOwner := plan.linearOwners.getD patch.2 0
  throwIf (linearOwner ≥ rankSpace.size)
    (.invalidArgument "prepared load-balance spatial and linear owners are inconsistent")
  let coordinate ← rankSpace.coordinate linearOwner
  throwIf (plan.distribution.owners[patch.2]? ≠ some coordinate)
    (.invalidArgument "prepared load-balance spatial and linear owners are inconsistent")
  let load ← checkedAddCost (loads.1.getD linearOwner 0) expectedWeight "prepared load-balance rank load"
  let totalWeight ← checkedAddCost loads.2 expectedWeight "prepared load-balance total weight"
  return (loads.1.set linearOwner load, totalWeight)

/-- `validate_prepared_load_balance_plan`; the strategy is one of the three by
its type. -/
def validatePlan (plan : OwnershipPlan d) (patches : BoxArray d) (rankSpace : RankSpace d)
    (suppliedWeights : List ℤ) : Checked Unit := do
  throwIf (plan.distribution.layout ≠ patches ∨ plan.distribution.rankSpace ≠ rankSpace ∨
      plan.distribution.mode ≠ .partitioned)
    (.invalidArgument "prepared load-balance provider returned a distribution for another source")
  let patchCount := patches.boxes.length
  let rankCount := rankSpace.size
  throwIf (plan.distribution.owners.length ≠ patchCount ∨ plan.weights.length ≠ patchCount ∨
      plan.linearOwners.length ≠ patchCount ∨ plan.traversal.length ≠ patchCount ∨
      plan.linearRankLoads.length ≠ rankCount)
    (.invalidArgument "prepared load-balance provider returned inconsistent plan cardinalities")
  let _ ← plan.traversal.foldlM (traversalStep patchCount) (List.replicate patchCount false)
  let loads ← patches.boxes.zipIdx.foldlM (planStep plan rankSpace suppliedWeights)
    (List.replicate rankCount 0, 0)
  throwIf (plan.linearRankLoads ≠ loads.1 ∨ plan.totalWeight ≠ loads.2)
    (.invalidArgument "prepared load-balance provider returned inconsistent retained loads")

/-- `collective_load_balance_preflight`. An exception without a text is taken
for a success that produced nothing. -/
def preflight {α : Type} (context : String) (operation : Checked α) : Checked (Option α) :=
  match operation with
  | .ok value => .ok (some value)
  | .error exception =>
    if exception.what = "" then .ok none
    else .error (.invalidArgument (context ++ " failed on at least one rank: " ++ exception.what))

/-- The checks of `exact_load_balance_collective_context`. -/
def collectiveContext (lane : ExecutionLane) : Checked Unit := do
  throwIf (lane.identity = "")
    (.invalidArgument "prepared load-balance execution lane identity is empty")
  throwIf (lane.active = false)
    (.invalidArgument "prepared load-balance execution lane is inactive")
  throwIf (lane.size ≤ 0)
    (.invalidArgument "prepared load-balance execution lane has no ranks")

end LoadBalance

/-- `PreparedLoadBalanceAuthority`, with the provider it was prepared from. -/
structure PreparedLoadBalanceAuthority (d : ℕ) where
  provider : BoxArray d → RankSpace d → LoadBalancePreparationBudget → List ℤ → Checked (OwnershipPlan d)

namespace PreparedLoadBalanceAuthority
open LoadBalance

/-- `prepare`: the plan the result retains. -/
def prepare (authority : PreparedLoadBalanceAuthority d) (patches : BoxArray d)
    (rankSpace : RankSpace d) (budget : LoadBalancePreparationBudget) (weights : List ℤ)
    (lane : ExecutionLane) : Checked (OwnershipPlan d) := do
  let _ ← preflight "prepared load-balance source" do
    validateRequest patches rankSpace budget weights lane.size
    collectiveContext lane
  let plan ← preflight "prepared load-balance provider" (authority.provider patches rankSpace budget weights)
  let result ← preflight "prepared load-balance result" (match plan with
    | none => .error (.logicError "prepared load-balance provider produced no ownership plan")
    | some plan => do
      validatePlan plan patches rankSpace weights
      return plan)
  match result with
  | none => .error (.logicError "bad optional access")
  | some plan => return plan

/-- A prepared plan distributes the patches it was asked for over the rank
space, each to one owner. -/
theorem prepare_ok {authority : PreparedLoadBalanceAuthority d}
    {patches : BoxArray d} {rankSpace : RankSpace d} {budget : LoadBalancePreparationBudget}
    {weights : List ℤ} {lane : ExecutionLane} {plan : OwnershipPlan d}
    (ran : authority.prepare patches rankSpace budget weights lane = .ok plan) :
    plan.distribution.layout = patches ∧ plan.distribution.rankSpace = rankSpace ∧
      plan.distribution.mode = .partitioned := by
  simp only [prepare, bind_ok] at ran
  obtain ⟨-, -, provided, -, result, checked, ran⟩ := ran
  cases result with
  | none => cases ran
  | some returned =>
    cases ran
    cases provided with
    | none => simp [preflight, Exception.what] at checked
    | some proposed =>
      cases valid : validatePlan proposed patches rankSpace weights with
      | error exception =>
        simp only [valid, preflight, error_bind] at checked
        split at checked <;> cases checked
      | ok _ =>
        simp only [valid, preflight, ok_bind, pure, Except.pure] at checked
        cases checked
        simp only [validatePlan, bind_ok, throwIf_ok, not_or, ne_eq, not_not] at valid
        obtain ⟨_, known, -⟩ := valid
        exact known

end PreparedLoadBalanceAuthority

end Pops
