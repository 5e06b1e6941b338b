import Mathlib.Algebra.Module.Defs
import Mathlib.Algebra.Order.Field.Rat
import Mathlib.Data.Rat.Cast.Defs
import Pops.Checked

/-!
Method certificates read off a normalized program graph: the graph, the values an
interpretation gives its nodes, and the reconstruction of a Runge–Kutta tableau.
-/
namespace Pops.MethodCertificate

/-- The Python exceptions of the certifier; those of the reconstruction become a reason. -/
inductive Raised where
  | keyError (what : String)
  | valueError (what : String)
  | indexError (what : String)
  deriving DecidableEq, Repr

def Raised.text : Raised → String
  | keyError what | valueError what | indexError what => what

/-- `TimePoint`, less the clock all points of the graph share. -/
structure TimePoint where
  step : ℤ
  offset : ℚ
  deriving DecidableEq

/-- The point a node is evaluated at. -/
inductive Point where
  | time (point : TimePoint)
  | stage (name : String) (first : TimePoint) (others : List TimePoint)

/-- A polynomial in `dt`: one coefficient for each of its powers. -/
structure DtPolynomial where
  terms : List (ℕ × ℚ)
  distinct : (terms.map Prod.fst).Nodup

/-- What the records of a graph tell apart, next to their references. -/
inductive NodeKind (Data : Type) where
  | stateRead (state : Data)
  | programValue (op : String) (coeffs : Option (List DtPolynomial)) (attrs : Data)
  | operatorCall (handleKind loweringOp loweringType : Option String) (operator : Data)
  | commit (target : Data)
  | other (kind : String) (payload : Data)

/-- A node of a graph. -/
structure Node (Data : Type) where
  nodeId : ℕ
  kind : NodeKind Data
  references : List ℕ
  point : Point

variable {Data : Type}

/-- A commit is a write-only endpoint. -/
def Node.readable (node : Node Data) : Bool :=
  match node.kind with
  | .commit _ => false
  | _ => true

/-- `validate_nodes`: identifiers are unique and references name earlier readable nodes. -/
def validNodes : List (Node Data) → List (Node Data) → Bool
  | _, [] => true
  | available, node :: rest =>
    !available.any (·.nodeId == node.nodeId) &&
      node.references.all (fun reference =>
        available.any fun source => source.nodeId == reference && source.readable) &&
      validNodes (available ++ [node]) rest

/-- A validated graph. -/
structure ProgramGraph (Data : Type) where
  nodes : List (Node Data)
  valid : validNodes [] nodes = true

/-- `StagePoint.time`, and the time itself for a plain point. -/
def Point.timeOf : Point → Except Raised TimePoint
  | time point => .ok point
  | stage name first others =>
    if others.any (· != first) then
      .error (.valueError ("StagePoint '" ++ name ++
        "' has ambiguous partition times; use time_for(partition)"))
    else .ok first

def pointOffset (point : Point) : Except Raised ℚ := do
  let time ← point.timeOf
  return time.offset

def isExplicitRateCall (node : Node Data) : Bool :=
  match node.kind with
  | .programValue op _ _ => op == "rhs"
  | .operatorCall handleKind loweringOp loweringType _ =>
    (handleKind == some "grid_operator" || handleKind == some "local_rate") &&
      loweringOp == some "rhs" && loweringType == some "rhs"
  | _ => false

def isStateRead (node : Node Data) : Bool :=
  match node.kind with
  | .stateRead _ => true
  | _ => false

def isCommit (node : Node Data) : Bool := !node.readable

section Meaning
variable {K V : Type} [Field K] [AddCommGroup V] [Module K V]

/-- The coefficient at a step length. -/
def DtPolynomial.eval (polynomial : DtPolynomial) (dt : K) : K :=
  (polynomial.terms.map fun term => (term.2 : K) * dt ^ term.1).sum

/-- What the operators of a graph compute from the values of their inputs. -/
abbrev Interpretation (Data K V : Type) := Node Data → K → List V → V

/-- The value of one node. -/
def nodeValue (apply : Interpretation Data K V) (y : V) (dt : K) (env : ℕ → V) (node : Node Data) : V :=
  match node.kind with
  | .stateRead _ => y
  | .programValue "linear_combine" (some coeffs) _ =>
    (List.zipWith (fun coefficient reference => DtPolynomial.eval coefficient dt • env reference)
      coeffs node.references).sum
  | _ => apply node dt (node.references.map env)

/-- The values of all nodes, in order, when each has its own place. -/
def evaluate (apply : Interpretation Data K V) (y : V) (dt : K) (nodes : List (Node Data)) : ℕ → V :=
  nodes.foldl (fun env node => Function.update env node.nodeId (nodeValue apply y dt env node)) fun _ => 0

/-- Where the emitted code leaves the result of a node: in a buffer of its own, over its first input
(`project`, `fill_boundary`), or in the storage that all solves of a field share. -/
inductive Storage where
  | fresh
  | inPlace
  | shared (field : ℕ)

inductive Buffer where
  | value (id : ℕ)
  | aux (field : ℕ)
  deriving DecidableEq

/-- `var[v.id]`. -/
def Node.buffer (storage : Node Data → Storage) (place : ℕ → Buffer) (node : Node Data) : Buffer :=
  match storage node with
  | .fresh => .value node.nodeId
  | .inPlace => (node.references.map place).headD (.value node.nodeId)
  | .shared field => .aux field

/-- The buffer of each value, and what the buffers hold. -/
structure Memory (V : Type) where
  place : ℕ → Buffer
  store : Buffer → V

def Memory.read (memory : Memory V) (id : ℕ) : V := memory.store (memory.place id)

/-- One node of the emitted step. -/
def runNode (storage : Node Data → Storage) (apply : Interpretation Data K V) (y : V) (dt : K) (memory : Memory V)
    (node : Node Data) : Memory V where
  place := Function.update memory.place node.nodeId (node.buffer storage memory.place)
  store := Function.update memory.store (node.buffer storage memory.place) (nodeValue apply y dt memory.read node)

def runNodes (storage : Node Data → Storage) (apply : Interpretation Data K V) (y : V) (dt : K)
    (nodes : List (Node Data)) : Memory V :=
  nodes.foldl (runNode storage apply y dt) ⟨Buffer.value, fun _ => 0⟩

/-- The value a graph commits at the end of the step, if it commits one. -/
def committed (storage : Node Data → Storage) (apply : Interpretation Data K V) (graph : ProgramGraph Data) (y : V)
    (dt : K) : Option V :=
  (graph.nodes.filter isCommit).head?.bind fun commit =>
    commit.references.head?.map (runNodes storage apply y dt graph.nodes).read

end Meaning

/-- `_dot` of two vectors of the same length. -/
def dot (left right : List ℚ) : ℚ := (List.zipWith (· * ·) left right).sum

def matvec (A : List (List ℚ)) (x : List ℚ) : List ℚ := A.map fun row => dot row x

/-- A proved order, or why there is none. -/
inductive Order where
  | proved (order : ℕ)
  | unknown (reason : String)
  deriving DecidableEq, Repr

/-- `_proved_order`: the order conditions up to four. -/
def provedOrder (A : List (List ℚ)) (b c : List ℚ) : Order :=
  let Ac := matvec A c
  let c2 := c.map fun x => x * x
  let c3 := c.map fun x => x * x * x
  if b.sum ≠ 1 then .unknown "first-order consistency condition failed"
  else if dot b c ≠ 1 / 2 then .proved 1
  else if dot b c2 ≠ 1 / 3 ∨ dot b Ac ≠ 1 / 6 then .proved 2
  else if dot b c3 ≠ 1 / 4 ∨ dot b (List.zipWith (· * ·) c Ac) ≠ 1 / 8 ∨
      dot b (matvec A c2) ≠ 1 / 12 ∨ dot b (matvec A Ac) ≠ 1 / 24 then .proved 3
  else .proved 4

/-- The moments `b A^k 1` of the stability polynomial. -/
def stabilityTerms (A : List (List ℚ)) (b : List ℚ) : ℕ → List ℚ → List ℚ
  | 0, _ => []
  | count + 1, vector => dot b vector :: stabilityTerms A b count (matvec A vector)

/-- `_stability`, without the zeros at its end. -/
def stability (A : List (List ℚ)) (b : List ℚ) : List ℚ :=
  1 :: ((stabilityTerms A b b.length (b.map fun _ => 1)).reverse.dropWhile (· == 0)).reverse

structure SSPCertificate where
  coefficient : ℚ
  source : String
  deriving DecidableEq, Repr

def knownSSP (A : List (List ℚ)) (b c : List ℚ) : Option SSPCertificate :=
  if (A = [[0, 0], [1, 0]] ∧ b = [1 / 2, 1 / 2] ∧ c = [0, 1]) ∨
      (A = [[0, 0, 0], [1, 0, 0], [1 / 4, 1 / 4, 0]] ∧ b = [1 / 6, 1 / 6, 2 / 3] ∧ c = [0, 1, 1 / 2]) then
    some ⟨1, "exact Shu-Osher convex decomposition"⟩
  else none

structure MethodProperties where
  order : Order
  abscissae : List ℚ
  stabilityPolynomial : List ℚ
  fluxWeights : List ℚ
  ssp : Option SSPCertificate
  deriving DecidableEq, Repr

/-- `MethodCertificate`. -/
structure Tableau where
  A : List (List ℚ)
  b : List ℚ
  c : List ℚ
  properties : MethodProperties
  deriving DecidableEq, Repr

/-- `ProgramMethodCertificate`, less the hash of the graph. -/
structure ProgramMethodCertificate where
  tableau : Option Tableau
  properties : MethodProperties
  deriving DecidableEq, Repr

def certificateFromCoefficients (A : List (List ℚ)) (b c : List ℚ) : Tableau where
  A := A
  b := b
  c := c
  properties :=
    { order := provedOrder A b c
      abscissae := c
      stabilityPolynomial := stability A b
      fluxWeights := b
      ssp := knownSSP A b c }

def unknownGraph (reason : String) (abscissae : List ℚ) : ProgramMethodCertificate where
  tableau := none
  properties :=
    { order := .unknown reason
      abscissae := abscissae
      stabilityPolynomial := []
      fluxWeights := []
      ssp := none }

/-- The coefficient of one power, zero where it is absent. -/
def DtPolynomial.coefficient (polynomial : DtPolynomial) (power : ℕ) : ℚ :=
  (polynomial.terms.lookup power).getD 0

/-- `set(polynomial) - {power}` is empty. -/
def DtPolynomial.only (polynomial : DtPolynomial) (power : ℕ) : Bool :=
  polynomial.terms.all (·.1 == power)

/-- One term of an affine combination. -/
def affineTerm (stateId : ℕ) (rates : List ℕ) (stage : ℕ) (accumulated : ℚ × List ℚ)
    (term : ℕ × DtPolynomial) : Except Raised (ℚ × List ℚ) :=
  if term.1 = stateId then
    if term.2.only 0 then .ok (accumulated.1 + term.2.coefficient 0, accumulated.2)
    else .error (.valueError "base state has a non-constant coefficient")
  else
    let index := rates.idxOf term.1
    if index < rates.length ∧ index < stage ∧ term.2.only 1 then
      .ok (accumulated.1, accumulated.2.modify index (· + term.2.coefficient 1))
    else .error (.valueError "stage reads a non-previous rate or non-dt coefficient")

/-- `affine`: the coefficient of the base state and those of the earlier rates. -/
def affine (graph : ProgramGraph Data) (stateId : ℕ) (rates : List ℕ) (nodeId stage : ℕ) :
    Except Raised (ℚ × List ℚ) :=
  if nodeId = stateId then .ok (1, List.replicate stage 0)
  else
    match graph.nodes.find? (·.nodeId == nodeId) with
    | none => .error (.keyError (toString nodeId))
    | some node =>
      match node.kind with
      | .programValue "linear_combine" coeffs _ =>
        match coeffs with
        | none => .error (.keyError "'coeffs'")
        | some coeffs => do
          let result ← (node.references.zip coeffs).foldlM (affineTerm stateId rates stage)
            (0, List.replicate stage 0)
          if node.references.length = coeffs.length then return result
          else throw (.valueError "zip() arguments differ in length")
      | _ => .error (.valueError "RK stage is not an affine state expression")

/-- `references()[0]`. -/
def firstReference (node : Node Data) : Except Raised ℕ :=
  match node.references with
  | [] => .error (.indexError "tuple index out of range")
  | reference :: _ => .ok reference

/-- The row of one stage. -/
def stageRow (graph : ProgramGraph Data) (stateId : ℕ) (rates : List ℕ) (stage : Node Data × ℕ) :
    Except Raised (List ℚ) := do
  let stateRef ← firstReference stage.1
  let (base, row) ← affine graph stateId rates stateRef stage.2
  if base ≠ 1 then throw (.valueError "RK stage does not preserve the base state")
  return row

/-- The reconstruction that fails with a reason. -/
def reconstruct (graph : ProgramGraph Data) (state commit : Node Data) (rhs : List (Node Data))
    (abscissae : List ℚ) : Except Raised (List (List ℚ) × List ℚ) := do
  let rates := rhs.map (·.nodeId)
  let A ← rhs.zipIdx.mapM (stageRow graph state.nodeId rates)
  let finalRef ← firstReference commit
  let (base, b) ← affine graph state.nodeId rates finalRef rhs.length
  if base ≠ 1 ∨ b.sum ≠ 1 then
    throw (.valueError "RK endpoint is not a consistent affine rate combination")
  if A.map List.sum ≠ abscissae then
    throw (.valueError "stage point abscissae differ from reconstructed row sums")
  return (A, b)

/-- A row with zeros for the stages it cannot read. -/
def dense (stages : ℕ) (row : List ℚ) : List ℚ :=
  row ++ List.replicate (stages - row.length) 0

def certifyProgramGraph (graph : ProgramGraph Data) : Except Raised ProgramMethodCertificate := do
  let states := graph.nodes.filter isStateRead
  let rhs := graph.nodes.filter isExplicitRateCall
  let commits := graph.nodes.filter isCommit
  let abscissae ← rhs.mapM fun node => pointOffset node.point
  match states, commits with
  | [state], [commit] =>
    if rhs = [] then return unknownGraph "graph is not a single-state explicit RK step" abscissae
    else
      match reconstruct graph state commit rhs abscissae with
      | .error (.indexError what) => throw (.indexError what)
      | .error raised => return unknownGraph raised.text abscissae
      | .ok (A, b) =>
        let certificate := certificateFromCoefficients (A.map (dense b.length)) b abscissae
        return { tableau := some certificate, properties := certificate.properties }
  | _, _ => return unknownGraph "graph is not a single-state explicit RK step" abscissae

end Pops.MethodCertificate
