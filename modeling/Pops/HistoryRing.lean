import Pops.Checked

/-!
`runtime/program/program_runtime_state.hpp`: the history rings of a compiled
Program, and the store of `program_context.hpp` that fills them. A name has an
entry in every map of the manager or in none, so the entries of a name are one
record. Stored values and time steps are abstract.
-/
namespace Pops

/-- What a stored value and a time step have to answer. -/
class HistoryValue (V T : Type) where
  sameContract : V → V → Bool
  positive : T → Bool
  zero : T

/-- The identities a history is registered under. -/
structure HistoryIdentity where
  owner : ℤ
  components : ℤ
  stateIdentity : String
  spaceIdentity : String
  clockIdentity : String
  interpolationIdentity : String
  deriving DecidableEq

/-- The entries of a name in the maps of `HistoryManager`; slot 0 comes first. -/
structure HistoryRing (V T : Type) where
  slots : List V
  depth : ℕ
  initialized : Bool := false
  fillCount : ℕ := 0
  storePending : Bool := false
  identity : HistoryIdentity
  slotDt : List T

/-- `HistoryManager`. -/
abbrev HistoryRingManager (V T : Type) := String → Option (HistoryRing V T)

variable {V T : Type}

/-- `std::swap(items[left], items[right])`. -/
def swapAt {α : Type} (items : List α) (left right : ℕ) : List α :=
  match items[left]?, items[right]? with
  | some first, some second => (items.set left second).set right first
  | _, _ => items

/-- The swaps of a rotation, from slot `k` down to slot 1. -/
def swapDown {α : Type} : ℕ → List α → List α
  | 0, items => items
  | k + 1, items => swapDown k (swapAt items (k + 1) k)

namespace HistoryRing

/-- One ring of `rotate`. -/
def rotate (ring : HistoryRing V T) : HistoryRing V T :=
  let slots := swapDown (ring.slots.length - 1) ring.slots
  { ring with
    slots := slots
    slotDt := swapDown (ring.slotDt.length - 1) ring.slotDt
    fillCount := if ring.storePending then min slots.length (ring.fillCount + 1) else ring.fillCount
    storePending := false }

/-- What `store_history_` writes. -/
def store (ring : HistoryRing V T) (value : V) (dt : T) : HistoryRing V T :=
  { ring with
    slots := if ring.initialized then ring.slots.set 0 value else ring.slots.map fun _ => value
    slotDt := if ring.initialized then ring.slotDt.set 0 dt else ring.slotDt.map fun _ => dt
    initialized := true
    storePending := true }

end HistoryRing

namespace HistoryRingManager

def rotate (manager : HistoryRingManager V T) : HistoryRingManager V T := fun name => (manager name).map HistoryRing.rotate

/-- `rotate(clock)`. -/
def rotateClock (manager : HistoryRingManager V T) (clock : String) : HistoryRingManager V T := fun name =>
  (manager name).map fun ring => if ring.identity.clockIdentity = clock then ring.rotate else ring

variable [HistoryValue V T]
open HistoryValue

/-- `register_history`; `scratch` is a new slot. -/
def register (manager : HistoryRingManager V T) (name : String) (lag : ℤ) (identity : HistoryIdentity) (scratch : V) :
    Checked (HistoryRingManager V T) := do
  throwIf (name = "" ∨ lag < 1) (.invalidArgument "ProgramContext history requires a name and positive lag")
  throwIf (identity.components < 1) (.invalidArgument "ProgramContext history component count must be positive")
  let ringDepth := (lag + 1).toNat
  match manager name with
  | some existing =>
    throwIf (existing.depth ≠ ringDepth ∨ existing.identity ≠ identity)
      (.runtimeError "ProgramContext history identity changed after registration")
    return manager
  | none =>
    return Function.update manager name (some
      { slots := List.replicate ringDepth scratch, depth := ringDepth, identity := identity,
        slotDt := List.replicate ringDepth (zero V) })

/-- `store_history`. -/
def store (manager : HistoryRingManager V T) (name : String) (value : V) (dt : T) : Checked (HistoryRingManager V T) := do
  throwIf (positive V dt = false) (.invalidArgument "ProgramContext history dt must be finite and positive")
  match manager name with
  | none => .error (.outOfRange "ProgramContext history is not registered")
  | some ring =>
    throwIf ((ring.slots.head?.any fun front => sameContract T front value) = false)
      (.invalidArgument "ProgramContext history store")
    throwIf (ring.slotDt.length ≠ ring.slots.length)
      (.logicError "ProgramContext history dt ledger differs from its ring depth")
    return Function.update manager name (some (ring.store value dt))

/-- A call that stores or rotates. -/
inductive Operation (V T : Type) where
  | store (name : String) (value : V) (dt : T)
  | rotate
  | rotateClock (clock : String)

/-- A call; one that throws has changed nothing. -/
def perform (manager : HistoryRingManager V T) : Operation V T → Checked (HistoryRingManager V T)
  | .store name value dt => manager.store name value dt
  | .rotate => .ok manager.rotate
  | .rotateClock clock => .ok (manager.rotateClock clock)

/-- Calls, in order. -/
def run (manager : HistoryRingManager V T) (operations : List (Operation V T)) : Checked (HistoryRingManager V T) :=
  operations.foldlM perform manager

end HistoryRingManager

end Pops
