import Mathlib.Data.Nat.Basic
import Mathlib.Logic.Function.Basic

/-!
Loops of a program: the host functions an author writes, the blocks they are recorded
into, and the native loop emitted for those blocks.
-/
namespace Pops.LoopEmission

/-- How a host function names a value: the variable it is called with, a value it
captured, or one of its own operations. -/
inductive Operand where
  | loop
  | outer (id : ℕ)
  | recorded (index : ℕ)

/-- Where an operation leaves its result: a buffer of its own, the one of its first input (`project`,
`fill_boundary`), or the auxiliary storage that all solves of a field share (`solve_fields`). -/
inductive Storage where
  | fresh
  | inPlace
  | shared (field : ℕ)

/-- One operation of a host function. -/
structure BodyOp (Op : Type) where
  op : Op
  inputs : List Operand
  storage : Storage

/-- A host function of one variable, by what it builds. -/
structure BodyFn (Op : Type) where
  ops : List (BodyOp Op)
  result : Operand

/-- A recorded value. -/
structure ProgramValue (Op : Type) where
  id : ℕ
  op : Op
  inputs : List ℕ
  storage : Storage

/-- A loop: its test, if it is a `while`, and its body, each with the value it ends in. -/
structure LoopNode (Op : Type) where
  id : ℕ
  loopIn : ℕ
  condBlock : List (ProgramValue Op)
  cond : Option ℕ
  bodyBlock : List (ProgramValue Op)
  body : ℕ

variable {Op V : Type}

section Meaning
variable (apply : Op → List V → V) (env : ℕ → V) (x : V)

/-- The value of an operand, given those of the operations before it. -/
def read (values : List V) : Operand → V
  | .loop => x
  | .outer id => env id
  | .recorded index => values.getD index x

/-- The values of the operations, in order. -/
def evalOps (values : List V) : List (BodyOp Op) → List V
  | [] => values
  | op :: rest => evalOps (values ++ [apply op.op (op.inputs.map (read env x values))]) rest

/-- The host function as a function of its variable. -/
def BodyFn.eval (fn : BodyFn Op) : V :=
  read env x (evalOps apply env x [] fn.ops) fn.result

end Meaning

section Authoring

/-- The identifier an operand has in the recorded block: the loop variable is the value
the loop starts from. -/
def resolve (state base : ℕ) : Operand → ℕ
  | .loop => state
  | .outer id => id
  | .recorded index => base + index

/-- The operations, recorded under increasing identifiers. -/
def recordOps (state base : ℕ) : ℕ → List (BodyOp Op) → List (ProgramValue Op)
  | _, [] => []
  | index, op :: rest =>
    { id := base + index, op := op.op, inputs := op.inputs.map (resolve state base), storage := op.storage } ::
      recordOps state base (index + 1) rest

/-- `_record`: run the host function on the value the loop starts from. -/
def record (state base : ℕ) (fn : BodyFn Op) : List (ProgramValue Op) × ℕ :=
  (recordOps state base 0 fn.ops, resolve state base fn.result)

/-- `range`, less its fixed count: the next free identifier is `next`. -/
def rangeLoop (state next : ℕ) (body : BodyFn Op) : LoopNode Op :=
  let recorded := record state next body
  { id := next + body.ops.length, loopIn := state, condBlock := [], cond := none
    bodyBlock := recorded.1, body := recorded.2 }

/-- `while_`. -/
def whileLoop (state next : ℕ) (cond body : BodyFn Op) : LoopNode Op :=
  let test := record state next cond
  let recorded := record state (next + cond.ops.length) body
  { id := next + cond.ops.length + body.ops.length, loopIn := state, condBlock := test.1, cond := some test.2
    bodyBlock := recorded.1, body := recorded.2 }

/-- An operand that is in scope: a value from before the loop or an earlier operation. -/
def Operand.InScope (next index : ℕ) : Operand → Prop
  | .loop => True
  | .outer id => id < next
  | .recorded earlier => earlier < index

/-- What `_record` and `require_region` accept. -/
structure BodyFn.Accepted (state next : ℕ) (fn : BodyFn Op) : Prop where
  inputs : ∀ (index : ℕ) (op : BodyOp Op), fn.ops[index]? = some op →
    ∀ input ∈ op.inputs, Operand.InScope next index input
  result : fn.result = .loop ∨ fn.result = .outer state ∨ ∃ index < fn.ops.length, fn.result = .recorded index

end Authoring

section Emission

/-- The buffers of the emitted code: one for each value, one for each loop and one for each field. -/
inductive Name where
  | value (id : ℕ)
  | iterate (id : ℕ)
  | aux (field : ℕ)
  deriving DecidableEq

/-- The emitted statements; a linear combination with weights zero and one is a copy. -/
inductive Stmt (Op : Type) where
  | assign (dest : Name) (op : Op) (sources : List Name)
  | copy (dest source : Name)

/-- The buffer of the result of an operation with a number and sources. -/
def Storage.dest (storage : Storage) (id : ℕ) (sources : List Name) : Name :=
  match storage with
  | .fresh => .value id
  | .inPlace => sources.headD (.value id)
  | .shared field => .aux field

/-- `_emit_op` of a body: what reads a solved field reads the storage that the solve filled. -/
def emitOp (names : ℕ → Name) (w : ProgramValue Op) : Stmt Op × Name :=
  let dest := w.storage.dest w.id (w.inputs.map names)
  (.assign dest w.op (w.inputs.map names), dest)

/-- The statements of a block and the names its values have afterwards. -/
def emitBlock (names : ℕ → Name) : List (ProgramValue Op) → List (Stmt Op) × (ℕ → Name)
  | [] => ([], names)
  | w :: rest =>
    let emitted := emitOp names w
    let later := emitBlock (Function.update names w.id emitted.2) rest
    (emitted.1 :: later.1, later.2)

/-- An emitted loop: what runs before it, its test and the rest of its body. -/
structure Loop (Op : Type) where
  entry : List (Stmt Op)
  test : List (Stmt Op)
  exit : Option Name
  body : List (Stmt Op)
  carried : Name

/-- `_emit_while` and `_emit_range`: the identifier the loop starts from is renamed to the
loop variable. -/
def emitLoop (names : ℕ → Name) (v : LoopNode Op) : Loop Op :=
  let x := Name.iterate v.id
  let sub := Function.update names v.loopIn x
  let test := emitBlock sub v.condBlock
  let body := emitBlock test.2 v.bodyBlock
  { entry := [.copy x (names v.loopIn)]
    test := test.1
    exit := v.cond.map test.2
    body := body.1 ++ [.copy x (body.2 v.body)]
    carried := x }

end Emission

section Execution
variable (apply : Op → List V → V)

def Stmt.run (store : Name → V) : Stmt Op → Name → V
  | .assign dest op sources => Function.update store dest (apply op (sources.map store))
  | .copy dest source => Function.update store dest (store source)

def runAll (statements : List (Stmt Op)) (store : Name → V) : Name → V :=
  statements.foldl (Stmt.run apply) store

/-- The store at the start of a pass, when no test has stopped the loop before. -/
def Loop.passes (loop : Loop Op) (store : Name → V) : ℕ → Name → V
  | 0 => runAll apply loop.entry store
  | k + 1 => runAll apply loop.body (runAll apply loop.test (passes loop store k))

/-- The loop variable at the start of a pass. -/
def Loop.iterates (loop : Loop Op) (store : Name → V) (k : ℕ) : V :=
  loop.passes apply store k loop.carried

/-- What a pass tests. -/
def Loop.tests (loop : Loop Op) (store : Name → V) (k : ℕ) : Option V :=
  loop.exit.map (runAll apply loop.test (loop.passes apply store k))

/-- The loop as it runs: a fixed number of passes at most, fewer where a test fails. -/
def Loop.run (truth : V → Bool) (loop : Loop Op) (store : Name → V) (k : ℕ) : ℕ → V
  | 0 => loop.iterates apply store k
  | passes + 1 =>
    match loop.tests apply store k with
    | some test => if truth test then run truth loop store (k + 1) passes else loop.iterates apply store k
    | none => run truth loop store (k + 1) passes

end Execution

end Pops.LoopEmission
