import Mathlib.Data.List.Sort

/-!
The scratch liveness of a Program and the buffers that its scratches share, from
`pops/time/_program/inspection.py`.
-/
namespace Pops.ScratchPlan

/-- A `ProgramValue`: the values it reads through its inputs and through the attributes that liveness
looks at, those of its other attributes, and its sub-blocks one after another. -/
inductive Value where
  | value (id : ℕ) (name op : String) (inputs attributes results : List ℕ) (blocks : List Value)

namespace Value

def id : Value → ℕ | value id _ _ _ _ _ _ => id
def name : Value → String | value _ name _ _ _ _ _ => name
def op : Value → String | value _ _ op _ _ _ _ => op
def inputs : Value → List ℕ | value _ _ _ inputs _ _ _ => inputs
def attributes : Value → List ℕ | value _ _ _ _ attributes _ _ => attributes

end Value

def scratchOps : List String :=
  ["rhs", "source", "implicit_source", "apply", "local_transform", "linear_combine", "linear_source",
    "solve_local_linear", "solve_local_nonlinear", "solve_coupled_implicit", "solve_implicit_source", "cell_compare",
    "where", "coupled_rate"]

def subblockOps : List String :=
  ["while", "branch", "range", "subcycle", "matrix_free_operator", "solve_local_nonlinear", "post_synchronization"]

mutual

def Value.subblockValueRefs : Value → List ℕ
  | .value _ _ _ _ attributes results blocks => attributes ++ results ++ refsOf blocks

def refsOf : List Value → List ℕ
  | [] => []
  | .value id name op inputs attributes results blocks :: rest =>
    (id :: inputs ++ (Value.value id name op inputs attributes results blocks).subblockValueRefs) ++ refsOf rest

end

/-- A Program: its flat values, and the values of its commits. A value has one number, and reads what
is above it. -/
structure Program where
  values : List Value
  commits : List ℕ
  distinct : (values.map Value.id).Nodup

def Value.reads (value : Value) : List ℕ := value.inputs ++ value.attributes

def Program.order (program : Program) (id : ℕ) : Option ℕ := program.values.findIdx? (·.id = id)

/-- `end`. -/
def Program.last (program : Program) : ℕ := program.values.length - 1

abbrev LastUse := ℕ → Option ℕ

/-- `last_use[id] = max(last_use.get(id, order[id]), index)`, of a flat value. -/
def Program.extend (program : Program) (index : ℕ) (lastUse : LastUse) (id : ℕ) : LastUse :=
  match program.order id with
  | none => lastUse
  | some defined => Function.update lastUse id (some (max ((lastUse id).getD defined) index))

/-- `last_use[id] = end`, of a flat value. -/
def Program.close (program : Program) (lastUse : LastUse) (id : ℕ) : LastUse :=
  match program.order id with
  | none => lastUse
  | some _ => Function.update lastUse id (some program.last)

/-- The reads of the value at an index. -/
def Program.scan (program : Program) (lastUse : LastUse) (entry : Value × ℕ) : LastUse :=
  let direct := entry.1.reads.foldl (program.extend entry.2) lastUse
  if entry.1.op ∈ subblockOps then entry.1.subblockValueRefs.foldl program.close direct else direct

/-- `last_use` at the end of `scratch_liveness`. -/
def Program.lastUse (program : Program) : LastUse :=
  program.commits.foldl (program.extend (program.last + 1))
    (program.values.zipIdx.foldl program.scan fun _ => none)

/-- A row of `scratch_liveness`. -/
structure Range where
  name : String
  op : String
  defIndex : ℕ
  lastUseIndex : ℕ
  deriving DecidableEq

/-- The row of the value at an index. -/
def Program.rangeOf (program : Program) (entry : Value × ℕ) : Range where
  name := entry.1.name
  op := entry.1.op
  defIndex := entry.2
  lastUseIndex := (program.lastUse entry.1.id).getD entry.2

/-- The flat values that have a scratch, with their indices. -/
def Program.scratches (program : Program) : List (Value × ℕ) :=
  program.values.zipIdx.filter fun entry => entry.1.op ∈ scratchOps

def Program.scratchLiveness (program : Program) : List Range := program.scratches.map program.rangeOf

/-- The first buffer whose occupant is dead before an index, or a new one. -/
def freeSlot (free : List ℕ) (defIndex : ℕ) : ℕ := (free.findIdx? (· < defIndex)).getD free.length

/-- The buffers after a range has taken its slot. -/
def occupy (free : List ℕ) (slot lastUseIndex : ℕ) : List ℕ :=
  if slot < free.length then free.set slot lastUseIndex else free ++ [lastUseIndex]

/-- The loop of `buffer_reuse_report`: the slot of each range. -/
def allocate : List Range → List ℕ → List (Range × ℕ)
  | [], _ => []
  | range :: rest, free =>
    let slot := freeSlot free range.defIndex
    (range, slot) :: allocate rest (occupy free slot range.lastUseIndex)

/-- The ranges with their slots, in the order of their definition. -/
def Program.slots (program : Program) : List (Range × ℕ) :=
  allocate (program.scratchLiveness.insertionSort fun left right => left.defIndex ≤ right.defIndex) []

/-- `assignment`: a later range takes the entry of an earlier one of its name. -/
def Program.assignment (program : Program) (name : String) : Option ℕ :=
  (program.slots.reverse.map fun entry => (entry.1.name, entry.2)).lookup name

/-! ### When a value is in use -/

section
variable (program : Program) (inPlace : Value → Option ℕ)

/-- A value is used by the value at an index, or by the final copy of the commits. -/
def Program.UsedAt (id index : ℕ) : Prop :=
  (∃ value, (value, index) ∈ program.values.zipIdx ∧
    (id ∈ value.reads ∨ (value.op ∈ subblockOps ∧ id ∈ value.subblockValueRefs))) ∨
  (id ∈ program.commits ∧ index = program.last + 1)

/-- How long a use keeps a value: one through a sub-block lasts to the end of the flat list. -/
def Program.UsedUntil (id until_index : ℕ) : Prop :=
  (∃ value, (value, until_index) ∈ program.values.zipIdx ∧ id ∈ value.reads) ∨
  (∃ value ∈ program.values, value.op ∈ subblockOps ∧ id ∈ value.subblockValueRefs ∧ until_index = program.last) ∨
  (id ∈ program.commits ∧ until_index = program.last + 1)

/-- A value, or what an in-place operation gives for it or for an alias of it. -/
inductive Alias (id : ℕ) : ℕ → Prop
  | self : Alias id id
  | result {value : Value} {input : ℕ} (listed : value ∈ program.values) (writes : inPlace value = some input)
      (shares : Alias id input) : Alias id value.id

/-- The scratch at an entry is live from its definition to the last use of an alias. -/
def Program.LiveAt (entry : Value × ℕ) (time : ℕ) : Prop :=
  entry.2 ≤ time ∧
    (time = entry.2 ∨ ∃ id index, Alias program inPlace entry.1.id id ∧ program.UsedAt id index ∧ time ≤ index)

end

/-- The in-place operations that give their input back. -/
def inPlaceInput (value : Value) : Option ℕ :=
  if value.op ∈ ["project", "fill_boundary", "store_history"] then value.inputs.head? else none

end Pops.ScratchPlan
