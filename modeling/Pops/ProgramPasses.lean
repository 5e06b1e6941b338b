import Mathlib.Data.List.Basic

/-!
The flat list of a program's values, with what they reference through their attributes
and recorded sub-blocks, and the pass that drops its dead nodes.
-/
namespace Pops.ProgramPasses

/-- The attributes that point at a value. -/
inductive RefKey where
  | cond | body | trueResult | falseResult | residual | iterate | guess | applyResult | applyIn | applyOut

/-- The attributes that hold a recorded sub-block. -/
inductive BlockKey where
  | condBlock | bodyBlock | trueBlock | falseBlock | applyBlock | residualBlock

mutual

/-- A value of the program. -/
inductive ProgramValue (Data : Type) where
  | mk (id : ℕ) (op : String) (inputs : List ℕ) (attrs : Attrs Data)

/-- The attributes of a value; a schedule may be conditioned on a value. -/
inductive Attrs (Data : Type) where
  | none
  | ref (key : RefKey) (id : ℕ) (rest : Attrs Data)
  | affine (key : RefKey) (terms : List ℕ) (rest : Attrs Data)
  | schedule (cond : Option ℕ) (rest : Attrs Data)
  | block (key : BlockKey) (nodes : Block Data) (rest : Attrs Data)
  | data (key : String) (value : Data) (rest : Attrs Data)

/-- A recorded sub-block. -/
inductive Block (Data : Type) where
  | nil
  | cons (value : ProgramValue Data) (rest : Block Data)

end

variable {Data : Type}

namespace ProgramValue

def id : ProgramValue Data → ℕ
  | mk id _ _ _ => id

def op : ProgramValue Data → String
  | mk _ op _ _ => op

def inputs : ProgramValue Data → List ℕ
  | mk _ _ inputs _ => inputs

def attrs : ProgramValue Data → Attrs Data
  | mk _ _ _ attrs => attrs

end ProgramValue

mutual

/-- What the attributes of a value reference, sub-blocks included. -/
def attrRefs : Attrs Data → List ℕ
  | .none => []
  | .ref _ id rest => id :: attrRefs rest
  | .affine _ terms rest => terms ++ attrRefs rest
  | .schedule cond rest => cond.toList ++ attrRefs rest
  | .block _ nodes rest => blockRefs nodes ++ attrRefs rest
  | .data _ _ rest => attrRefs rest

/-- Each node of a block, its inputs, and what it references in turn. -/
def blockRefs : Block Data → List ℕ
  | .nil => []
  | .cons (.mk id _ inputs attrs) rest => id :: inputs ++ attrRefs attrs ++ blockRefs rest

end

mutual

/-- The nodes recorded in the sub-blocks of a value. -/
def attrNodes : Attrs Data → List (ProgramValue Data)
  | .none => []
  | .ref _ _ rest | .affine _ _ rest | .schedule _ rest | .data _ _ rest => attrNodes rest
  | .block _ nodes rest => blockNodes nodes ++ attrNodes rest

def blockNodes : Block Data → List (ProgramValue Data)
  | .nil => []
  | .cons (.mk id op inputs attrs) rest => .mk id op inputs attrs :: attrNodes attrs ++ blockNodes rest

end

def subblockValueRefs (v : ProgramValue Data) : List ℕ := attrRefs v.attrs

/-- A program: its flat list, and the values committed to its states. -/
structure Program (Data : Type) where
  values : List (ProgramValue Data)
  commits : List (ℕ × ℕ)
  unique : (values.map ProgramValue.id).Nodup

def removableOps : List String :=
  ["rhs", "source", "implicit_source", "apply", "local_transform", "linear_combine", "linear_source",
    "solve_local_linear", "cell_compare", "where", "reduce", "scalar_op", "compare"]

namespace Program

/-- The keys of `by_id`. -/
def known (p : Program Data) : List ℕ :=
  p.values.map ProgramValue.id ++ p.values.flatMap subblockValueRefs

/-- `by_id[vid]`: the flat values come first. -/
def byId (p : Program Data) (id : ℕ) : Option (ProgramValue Data) :=
  (p.values ++ p.values.flatMap fun v => attrNodes v.attrs).find? fun v => v.id == id

/-- What the walk pushes for a live value. -/
def expand (p : Program Data) (id : ℕ) : List ℕ :=
  match p.byId id with
  | some v => v.inputs ++ subblockValueRefs v
  | none => []

/-- The committed values and every node that may not be removed. -/
def roots (p : Program Data) : List ℕ :=
  p.commits.map Prod.snd ++
    (p.values.filter fun v => !removableOps.contains v.op).map ProgramValue.id

end Program

/-- The number of keys that are not live yet. -/
def remaining (known live : List ℕ) : ℕ := (known.filter fun id => !live.contains id).length

theorem remaining_cons {known live : List ℕ} {id : ℕ} (listed : id ∈ known) (fresh : id ∉ live) :
    remaining known (id :: live) < remaining known live := by
  have within : (known.filter fun other => !(id :: live).contains other).Sublist
      (known.filter fun other => !live.contains other) := by
    apply List.monotone_filter_right
    intro other absent
    simp only [List.contains_eq_mem, List.mem_cons, Bool.not_eq_true', decide_eq_false_iff_not] at absent ⊢
    exact fun live => absent (.inr live)
  apply Nat.lt_of_le_of_ne within.length_le
  intro same
  have equal := within.eq_of_length same
  have kept : id ∈ known.filter fun other => !live.contains other := by
    simp [listed, fresh]
  rw [← equal] at kept
  simp at kept

/-- The worklist of `_live_value_ids`. -/
def walk (known : List ℕ) (expand : ℕ → List ℕ) (live : List ℕ) : List ℕ → List ℕ
  | [] => live
  | id :: stack =>
    if id ∈ live ∨ id ∉ known then walk known expand live stack
    else walk known expand (id :: live) (expand id ++ stack)
  termination_by stack => (remaining known live, stack.length)
  decreasing_by
    · exact .right _ (by simp)
    · rename_i fresh
      rw [not_or, not_not] at fresh
      exact .left _ _ (remaining_cons fresh.2 fresh.1)

def liveValueIds (p : Program Data) : List ℕ := walk p.known p.expand [] p.roots

/-- `eliminate_dead_nodes`, before the survivors are renumbered. -/
def eliminateDeadNodes (p : Program Data) : Program Data where
  values := p.values.filter fun v => (liveValueIds p).contains v.id
  commits := p.commits
  unique := p.unique.sublist ((List.filter_sublist).map _)

section Meaning
variable {V S R : Type}

/-- What a value reads: its inputs and all that its attributes and sub-blocks reference. -/
def reads (v : ProgramValue Data) : List ℕ := v.inputs ++ subblockValueRefs v

/-- The removable operations whose lowering does more than fill a result of its own: a transform
throws `StepAttemptRejected` outside its domain, a rate sets the stage time of the context, and the
others require a Cartesian operator of it. -/
def contextOps : List String :=
  ["local_transform", "rhs", "source", "apply", "solve_local_linear", "cell_compare", "where"]

/-- What the operations do, on the values they read and a shared store; the attempt may be rejected. -/
abbrev Lowering (Data V S R : Type) := ProgramValue Data → List V → S → Except R (V × S)

/-- The other removable operations reject nothing and leave the store alone. -/
def Lowering.Local (lower : Lowering Data V S R) : Prop :=
  ∀ v, v.op ∈ removableOps → v.op ∉ contextOps → ∀ read store, ∃ value, lower v read store = .ok (value, store)

/-- A run: the values so far, the store, and what the operations that may not be removed did. -/
structure Run (V S : Type) where
  env : ℕ → V
  store : S
  effects : List (String × List V × V × S)

/-- The run after an operation that gave a value and left a store. -/
def Run.after (run : Run V S) (v : ProgramValue Data) (done : V × S) : Run V S where
  env := Function.update run.env v.id done.1
  store := done.2
  effects := if removableOps.contains v.op then run.effects
    else run.effects ++ [(v.op, (reads v).map run.env, done.1, done.2)]

def step (lower : Lowering Data V S R) (run : Run V S) (v : ProgramValue Data) : Except R (Run V S) :=
  match lower v ((reads v).map run.env) run.store with
  | .error reason => .error reason
  | .ok done => .ok (run.after v done)

def steps (lower : Lowering Data V S R) : List (ProgramValue Data) → Run V S → Except R (Run V S)
  | [], run => .ok run
  | v :: rest, run =>
    match step lower run v with
    | .error reason => .error reason
    | .ok next => steps lower rest next

/-- What an attempt leaves: its effects, the store and what is committed; or why it is rejected. -/
structure Outcome (V S : Type) where
  effects : List (String × List V × V × S)
  store : S
  committed : List (ℕ × V)
  deriving DecidableEq

def Program.attempt (p : Program Data) (lower : Lowering Data V S R) (absent : V) (store : S) :
    Except R (Outcome V S) :=
  match steps lower p.values { env := fun _ => absent, store := store, effects := [] } with
  | .error reason => .error reason
  | .ok run => .ok ⟨run.effects, run.store, p.commits.map fun commit => (commit.1, run.env commit.2)⟩

end Meaning

end Pops.ProgramPasses
