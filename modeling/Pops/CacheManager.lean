import Pops.Checked
import Pops.OrderedMap

/-!
`runtime/program/cache_manager.hpp`: the cached value of each scheduled node
with its bookkeeping. Values are copied, so a slot holds the value it was given;
time steps add up exactly.
-/
namespace Pops

variable {V K : Type}

structure CacheSlot (V K : Type) where
  value : V
  lastUpdateStep : ℤ
  accumulatedDt : K
  valid : Bool
  name : String

/-- `CacheManager`: the `std::map` of the slots, by node. -/
structure CacheManager (V K : Type) where
  slots : List (ℤ × CacheSlot V K)
  ordered : slots.Pairwise fun left right => left.1 < right.1

namespace CacheManager

/-- The order of the nodes. -/
def nodeLess (left right : ℤ) : Bool := left < right

theorem nodeLess_iff (left right : ℤ) : nodeLess left right = true ↔ left < right := decide_eq_true_iff

/-- A manager without slots. -/
def fresh : CacheManager V K := ⟨[], .nil⟩

def find (manager : CacheManager V K) (node : ℤ) : Option (CacheSlot V K) :=
  OrderedMap.find nodeLess node manager.slots

/-- Change the slot of a node. -/
def update (manager : CacheManager V K) (node : ℤ) (change : Option (CacheSlot V K) → CacheSlot V K) :
    CacheManager V K :=
  ⟨OrderedMap.update nodeLess node change manager.slots, OrderedMap.update_ordered nodeLess_iff manager.ordered⟩

def isDue (manager : CacheManager V K) (node macroStep everyN : ℤ) : Bool :=
  match manager.find node with
  | none => true
  | some slot => !slot.valid || everyN ≤ 1 || macroStep.tmod everyN = 0

section
variable [Zero K] [Inhabited V]

/-- `CacheSlot{}`, with the value of a field that was never allocated. -/
def noSlot : CacheSlot V K := ⟨default, -1, 0, false, ""⟩

/-- `slots_[node_id]`, changed. -/
def modify (manager : CacheManager V K) (node : ℤ) (change : CacheSlot V K → CacheSlot V K) : CacheManager V K :=
  manager.update node fun slot => change (slot.getD noSlot)

def store (manager : CacheManager V K) (node : ℤ) (value : V) (macroStep : ℤ) : CacheManager V K :=
  manager.modify node fun slot =>
    { slot with value, lastUpdateStep := macroStep, accumulatedDt := 0, valid := true }

def accumulatedDt (manager : CacheManager V K) (node : ℤ) : K :=
  match manager.find node with
  | none => 0
  | some slot => slot.accumulatedDt

def restoreSlot (manager : CacheManager V K) (node : ℤ) (value : V) (lastUpdateStep : ℤ) (accumulatedDt : K)
    (name : String) : CacheManager V K :=
  manager.modify node fun _ => ⟨value, lastUpdateStep, accumulatedDt, true, name⟩

end

def accumulateDt [AddZeroClass K] [Inhabited V] (manager : CacheManager V K) (node : ℤ) (dt : K) :
    CacheManager V K :=
  manager.modify node fun slot => { slot with accumulatedDt := slot.accumulatedDt + dt }

/-- `effective_dt`: the step to apply, and the manager without it. -/
def effectiveDt [AddZeroClass K] [Inhabited V] (manager : CacheManager V K) (node : ℤ) (dtNow : K) :
    K × CacheManager V K :=
  (dtNow + manager.accumulatedDt node, manager.modify node fun slot => { slot with accumulatedDt := 0 })

/-- `valid`, and `has`. -/
def valid (manager : CacheManager V K) (node : ℤ) : Bool := (manager.find node).any (·.valid)

def lastUpdateStep (manager : CacheManager V K) (node : ℤ) : ℤ := (manager.find node).elim (-1) (·.lastUpdateStep)

/-- `slots_.at(node_id).value`: `retrieve`, and `value_of`. -/
def valueOf (manager : CacheManager V K) (node : ℤ) : Checked V :=
  match manager.find node with
  | none => .error (.outOfRange "map::at")
  | some slot => .ok slot.value

def nodeIds (manager : CacheManager V K) : List ℤ := (manager.slots.filter (·.2.valid)).map Prod.fst

def nameOf (manager : CacheManager V K) (node : ℤ) : String :=
  match manager.find node with
  | none => "node_" ++ toString node
  | some slot => if slot.name = "" then "node_" ++ toString node else slot.name

/-! ### Checkpoints -/

/-- What a checkpoint records of a node. -/
structure SavedSlot (V K : Type) where
  node : ℤ
  value : V
  lastUpdateStep : ℤ
  accumulatedDt : K
  name : String

section
variable [Zero K] [Inhabited V]

/-- What the accessors give of a node. -/
def saveSlot (manager : CacheManager V K) (node : ℤ) : Checked (SavedSlot V K) := do
  let value ← manager.valueOf node
  return ⟨node, value, manager.lastUpdateStep node, manager.accumulatedDt node, manager.nameOf node⟩

/-- The checkpoint of every node that `node_ids` lists. -/
def save (manager : CacheManager V K) : Checked (List (SavedSlot V K)) := manager.nodeIds.mapM manager.saveSlot

/-- The slots of a checkpoint, restored one by one. -/
def restore (saved : List (SavedSlot V K)) : CacheManager V K :=
  saved.foldl (fun manager slot =>
    manager.restoreSlot slot.node slot.value slot.lastUpdateStep slot.accumulatedDt slot.name) fresh

end

/-! ### Steps of scheduled nodes -/

/-- What an `accumulate_dt` node does in a step: recompute and store under the
effective step, or add the step to what it skipped. -/
inductive Event (V K : Type) where
  | due (node : ℤ) (dt : K) (value : V) (macroStep : ℤ)
  | skipped (node : ℤ) (dt : K)

variable [AddZeroClass K] [Inhabited V]

/-- One event, with the node and the effective step it reports. -/
def Event.run (manager : CacheManager V K) : Event V K → CacheManager V K × Option (ℤ × K)
  | due node dt value macroStep =>
    let effective := manager.effectiveDt node dt
    (effective.2.store node value macroStep, some (node, effective.1))
  | skipped node dt => (manager.accumulateDt node dt, none)

/-- A run: the manager it ends with, and the effective steps of its due events. -/
def run (manager : CacheManager V K) : List (Event V K) → CacheManager V K × List (Option (ℤ × K))
  | [] => (manager, [])
  | event :: later =>
    let after := event.run manager
    let rest := run after.1 later
    (rest.1, after.2 :: rest.2)

end CacheManager

end Pops
