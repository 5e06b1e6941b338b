import Pops.ProgramPasses

/-!
The pass that drops a field solve repeated over an unchanged state, as it scans the flat
list, and the runs of a program whose references are rewired.
-/
namespace Pops.ProgramPasses

variable {Data : Type} [DecidableEq Data]

def stateBarrierOps : List String :=
  ["project", "fill_boundary", "store_history", "solve_fields", "solve_fields_from_blocks",
    "solve_coupled_implicit", "solve_implicit_source"]

omit [DecidableEq Data] in
/-- `v.attrs.get("field")`. -/
def fieldOf : Attrs Data → Option Data
  | .none => none
  | .ref _ _ rest | .affine _ _ rest | .schedule _ rest | .block _ _ rest => fieldOf rest
  | .data key value rest => if key = "field" then some value else fieldOf rest

/-- What the pass compares two solves by: the state they read and the field they solve for. -/
abbrev Signature (Data : Type) := List ℕ × Option Data

omit [DecidableEq Data] in
def signature (v : ProgramValue Data) : Signature Data := (v.inputs, fieldOf v.attrs)

/-- The scan: the solve that may still be reused, and what replaces those dropped. -/
structure Scan (Data : Type) where
  active : Option (Signature Data × ℕ)
  canon : List (ℕ × ℕ)

/-- One value of the flat list. -/
def scanStep (commitIds : List ℕ) (scan : Scan Data) (v : ProgramValue Data) : Scan Data :=
  if v.op = "solve_fields" then
    match scan.active with
    | some (prior, representative) =>
      if prior = signature v then { scan with canon := (v.id, representative) :: scan.canon }
      else { scan with active := some (signature v, v.id) }
    | none => { scan with active := some (signature v, v.id) }
  else if stateBarrierOps.contains v.op || commitIds.contains v.id then { scan with active := none }
  else scan

/-- A rebuilt program: the values kept, and what each reference now names. -/
structure Rebuilt (Data : Type) where
  values : List (ProgramValue Data)
  rewire : ℕ → ℕ
  commits : List (ℕ × ℕ)

/-- The scan of a whole program. -/
def scanSolves (p : Program Data) : Scan Data :=
  p.values.foldl (scanStep (p.commits.map Prod.snd)) { active := none, canon := [] }

/-- `(state_in,) = v.inputs` of every solve. -/
def unpacks (p : Program Data) : Bool :=
  p.values.all fun v => v.op != "solve_fields" || v.inputs.length == 1

def eliminateRedundantFieldSolves (p : Program Data) : Except String (Rebuilt Data) :=
  if unpacks p then
    let canon := (scanSolves p).canon
    .ok {
      values := p.values.filter fun v => !(canon.map Prod.fst).contains v.id
      rewire := fun id => (canon.lookup id).getD id
      commits := p.commits.map fun commit => (commit.1, (canon.lookup commit.2).getD commit.2) }
  else .error "values to unpack (expected 1)"

omit [DecidableEq Data] in
/-- `_program_nodes`: the values and the nodes of their sub-blocks. -/
def programNodes (values : List (ProgramValue Data)) : List (ProgramValue Data) :=
  values.flatMap fun v => v :: attrNodes v.attrs

omit [DecidableEq Data] in
/-- `_consumed_solve_action` finds the one `solve_outcome` that consumes a solve. -/
def consumed (values : List (ProgramValue Data)) (rewire : ℕ → ℕ) (id : ℕ) : Bool :=
  ((programNodes values).filter fun node => node.op == "solve_outcome" && node.inputs.map rewire == [id]).length == 1

omit [DecidableEq Data] in
/-- No field solve of a program makes the emitter raise. -/
def solvesConsumed (values : List (ProgramValue Data)) (rewire : ℕ → ℕ) : Bool :=
  values.all fun v => v.op != "solve_fields" || consumed values rewire v.id

section Meaning
variable {V S : Type}

/-- What the operations do, on the values they read and a shared store. -/
abbrev Execution (Data V S : Type) := ProgramValue Data → List V → S → V × S

/-- A run that keeps what every value did to the store. -/
structure Trace (V S : Type) where
  env : ℕ → V
  store : S
  effects : List (ℕ × List V × V × S)

omit [DecidableEq Data] in
def traceStep (exec : Execution Data V S) (rewire : ℕ → ℕ) (run : Trace V S) (v : ProgramValue Data) : Trace V S :=
  let read := (reads v).map fun id => run.env (rewire id)
  let done := exec v read run.store
  { env := Function.update run.env v.id done.1
    store := done.2
    effects := run.effects ++ [(v.id, read, done.1, done.2)] }

omit [DecidableEq Data] in
def trace (exec : Execution Data V S) (rewire : ℕ → ℕ) (absent : V) (store : S) (values : List (ProgramValue Data)) :
    Trace V S :=
  values.foldl (traceStep exec rewire) { env := fun _ => absent, store := store, effects := [] }

end Meaning

end Pops.ProgramPasses
