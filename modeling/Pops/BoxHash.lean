import Pops.BoxArray
import Pops.Odometer

/-!
`mesh/index/box_hash.hpp`: the spatial hash of a patch layout. A box is listed
in every bin it meets; a query collects the lists of the bins its box meets. The
hash table is a list of bins, since nothing reads its order.
-/
namespace Pops

structure BoxHashBudget where
  buildBinVisits : ℕ
  queryBinVisits : ℕ
  candidateReferences : ℕ

/-- `BoxHashQueryBudget`: what is left for a sequence of queries. -/
structure BoxHashQueryBudget where
  binVisits : ℕ
  candidateReferences : ℕ

namespace BoxHash
variable {d : ℕ}

/-- `bins_[key].push_back(index)`. -/
def pushBack (key : Index d) (index : ℕ) : List (Index d × List ℕ) → List (Index d × List ℕ)
  | [] => [(key, [index])]
  | (other, held) :: later =>
    if other = key then (other, held ++ [index]) :: later else (other, held) :: pushBack key index later

/-- `bins_.find(key)`. -/
def find (bins : List (Index d × List ℕ)) (key : Index d) : Option (List ℕ) :=
  match bins with
  | [] => none
  | (other, held) :: later => if other = key then some held else find later key

/-- The bin of a coordinate vector. -/
def binOf (binExtent : Extent d) (index : Index d) : Index d := fun axis => floorDiv (index axis) (binExtent axis)

def checkedBinVisits (binExtent : Extent d) (box : Box d) : Checked ℕ :=
  checkedVolume (.lengthError "BoxHash bin enumeration exceeds its explicit capacity") fun axis =>
    (binOf binExtent box.hi axis - binOf binExtent box.lo axis).toNat + 1

/-- The number of bins a box meets. -/
def binVisits (binExtent : Extent d) (box : Box d) : ℕ :=
  MixedRadix.volume (Odometer.size (binOf binExtent box.lo) (binOf binExtent box.hi)) (List.finRange d)

/-- The bins `for_each_bin_` calls back, in order. -/
def binsOf (binExtent : Extent d) (box : Box d) : List (Index d) :=
  Odometer.walk (binOf binExtent box.lo) (binOf binExtent box.hi) (List.finRange d) (binVisits binExtent box)
    (binOf binExtent box.lo)

/-- One box of the loop that counts the visits; `capacity` is `bins_.max_size()`. -/
def countStep (binExtent : Extent d) (budget : BoxHashBudget) (capacity totalVisits : ℕ) (box : Box d) :
    Checked ℕ :=
  if box.Empty then .ok totalVisits
  else do
    let visits ← checkedBinVisits binExtent box
    throwIf (totalVisits > budget.buildBinVisits ∨ visits > budget.buildBinVisits - totalVisits ∨
        totalVisits > capacity ∨ visits > capacity - totalVisits)
      (.lengthError "BoxHash bin enumeration exceeds its explicit capacity")
    return totalVisits + visits

/-- One box of the loop that fills the bins. -/
def fillStep (binExtent : Extent d) (bins : List (Index d × List ℕ)) (entry : Box d × ℕ) :
    List (Index d × List ℕ) :=
  if entry.1.Empty then bins
  else (binsOf binExtent entry.1).foldl (fun bins key => pushBack key entry.2 bins) bins

/-- `std::unique` with the erasure of what it leaves over. -/
def unique : List ℕ → List ℕ
  | first :: second :: later => if first = second then unique (second :: later) else first :: unique (second :: later)
  | short => short

end BoxHash

open BoxHash

/-- A filled hash. -/
structure BoxHash (d : ℕ) where
  binExtent : Extent d
  budget : BoxHashBudget
  bins : List (Index d × List ℕ)

namespace BoxHash
variable {d : ℕ}

/-- The constructor. -/
def create (boxes : BoxArray d) (binExtent : Extent d) (budget : BoxHashBudget) (capacity : ℕ) :
    Checked (BoxHash d) := do
  throwIf (∃ axis, binExtent axis ≤ 0) (.invalidArgument "BoxHash bin extents must be strictly positive")
  let _ ← boxes.boxes.foldlM (countStep binExtent budget capacity) 0
  return ⟨binExtent, budget, boxes.boxes.zipIdx.foldl (fillStep binExtent) []⟩

/-- The candidates collected so far, the references counted, and the cumulative budget left. -/
structure QueryState where
  candidates : List ℕ := []
  references : ℕ := 0
  cumulative : Option BoxHashQueryBudget

/-- `std::vector<std::size_t>::max_size()`. -/
def candidateMaxSize : ℕ := 1152921504606846975

/-- What the references of a bin leave of a cumulative budget. -/
def chargeReferences (cumulative : Option BoxHashQueryBudget) (count : ℕ) : Checked (Option BoxHashQueryBudget) :=
  match cumulative with
  | none => .ok none
  | some left => do
    throwIf (count > left.candidateReferences)
      (.lengthError "BoxHash cumulative candidate references exceed their explicit budget")
    return some { left with candidateReferences := left.candidateReferences - count }

/-- What the bins of a query leave of it. -/
def chargeVisits (cumulative : Option BoxHashQueryBudget) (visits : ℕ) : Checked (Option BoxHashQueryBudget) :=
  match cumulative with
  | none => .ok none
  | some left => do
    throwIf (visits > left.binVisits)
      (.lengthError "BoxHash cumulative query bins exceed their explicit budget")
    return some { left with binVisits := left.binVisits - visits }

/-- The call back of `query` for one bin. -/
def queryStep (hash : BoxHash d) (state : QueryState) (key : Index d) : Checked QueryState :=
  match find hash.bins key with
  | none => .ok state
  | some held => do
    throwIf (state.references > hash.budget.candidateReferences ∨
        held.length > hash.budget.candidateReferences - state.references ∨
        state.candidates.length > candidateMaxSize - held.length)
      (.lengthError "BoxHash candidate references exceed their explicit budget")
    let cumulative ← chargeReferences state.cumulative held.length
    return ⟨state.candidates ++ held, state.references + held.length, cumulative⟩

/-- `query`, with the cumulative budget it leaves. -/
def query (hash : BoxHash d) (queryBox : Box d) (cumulative : Option BoxHashQueryBudget) :
    Checked (List ℕ × Option BoxHashQueryBudget) :=
  if queryBox.Empty then .ok ([], cumulative)
  else do
    let queryVisits ← checkedBinVisits hash.binExtent queryBox
    throwIf (queryVisits > hash.budget.queryBinVisits)
      (.lengthError "BoxHash query enumeration exceeds its explicit budget")
    let cumulative ← chargeVisits cumulative queryVisits
    let state ← (binsOf hash.binExtent queryBox).foldlM (queryStep hash) { cumulative }
    return (unique (state.candidates.insertionSort (· ≤ ·)), state.cumulative)

end BoxHash

end Pops
