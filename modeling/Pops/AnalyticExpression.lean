import Pops.Checked

/-!
`runtime/analytic/expression.hpp`: analytic expressions as trees, their postfix
compiler, and the stack machine that evaluates compiled programs. The operations
on reals are abstract. The machine stops with `none` where the source would read
or write outside its stack, which the compiler has to rule out.
-/
namespace Pops

/-- `Real`, with the operations an expression may use. -/
class AnalyticReal (R : Type) where
  zero : R
  one : R
  nan : R
  isFinite : R → Bool
  add : R → R → R
  sub : R → R → R
  mul : R → R → R
  div : R → R → R
  pow : R → R → R
  neg : R → R
  sqrt : R → R
  abs : R → R
  sin : R → R
  cos : R → R
  exp : R → R
  log : R → R
  atan2 : R → R → R
  hypot : R → R → R
  fmin : R → R → R
  fmax : R → R → R
  floor : R → R
  less : R → R → Bool
  lessEqual : R → R → Bool
  equal : R → R → Bool
  ofNat : ℕ → R
  toNat : R → ℕ

inductive AnalyticOp where
  | constant | x | y | add | sub | mul | div | pow | neg | sqrt | abs | sin | cos | exp | log | atan2
  | hypot | min | max | lt | le | gt | ge | eq | ne | and | or | not | select | between | input | z
  deriving DecidableEq, Repr

inductive AnalyticValueType where
  | scalar
  | predicate
  deriving DecidableEq

structure AnalyticLimits where
  maxNodes : ℕ := 4096
  maxDepth : ℕ := 64
  maxStack : ℕ := 64

inductive AnalyticNode (R : Type) where
  | node (op : AnalyticOp) (literal : R) (args : List (AnalyticNode R))

structure AnalyticToken (R : Type) where
  op : AnalyticOp
  literal : R

structure AnalyticInstruction where
  operand : ℕ
  op : AnalyticOp

namespace AnalyticOp

/-- `op_name`. -/
def name : AnalyticOp → String
  | constant => "constant" | x => "x" | y => "y" | z => "z" | add => "add" | sub => "sub" | mul => "mul"
  | div => "div" | pow => "pow" | neg => "neg" | sqrt => "sqrt" | abs => "abs" | sin => "sin" | cos => "cos"
  | exp => "exp" | log => "log" | atan2 => "atan2" | hypot => "hypot" | min => "minimum" | max => "maximum"
  | lt => "lt" | le => "le" | gt => "gt" | ge => "ge" | eq => "eq" | ne => "ne" | and => "and" | or => "or"
  | not => "not" | select => "where" | between => "between" | input => "input"

def arity : AnalyticOp → ℕ
  | constant | x | y | z | input => 0
  | neg | sqrt | abs | sin | cos | exp | log | not => 1
  | add | sub | mul | div | pow | atan2 | hypot | min | max | lt | le | gt | ge | eq | ne | and | or => 2
  | select | between => 3

def Comparison (op : AnalyticOp) : Prop := op ∈ [lt, le, gt, ge, eq, ne]

instance (op : AnalyticOp) : Decidable op.Comparison := inferInstanceAs (Decidable (_ ∈ _))

/-- The dimension a coordinate needs. -/
def dimension : AnalyticOp → ℕ
  | x => 1
  | y => 2
  | z => 3
  | _ => 0

end AnalyticOp

/-- `reject`. -/
def AnalyticNode.rejection (message : String) : Exception := .invalidArgument ("analytic expression: " ++ message)

open AnalyticNode (rejection)

variable {R : Type}

/-- `validate_limits`. -/
def AnalyticLimits.validate (limits : AnalyticLimits) : Checked Unit := do
  throwIf (limits.maxNodes = 0 ∨ limits.maxNodes > 4096) (rejection "max_nodes must be in [1,4096]")
  throwIf (limits.maxDepth = 0 ∨ limits.maxDepth > 64) (rejection "max_depth must be in [1,64]")
  throwIf (limits.maxStack = 0 ∨ limits.maxStack > 64) (rejection "max_stack must be in [1,64]")

/-! ### Flattening -/

mutual

/-- `flatten_node`, with the number of nodes and the tokens so far. -/
def AnalyticNode.flatten (limits : AnalyticLimits) (depth : ℕ) :
    AnalyticNode R → ℕ × List (AnalyticToken R) → Checked (ℕ × List (AnalyticToken R))
  | .node op literal args, (count, tokens) => do
    throwIf (depth > limits.maxDepth) (rejection ("tree depth exceeds max_depth=" ++ toString limits.maxDepth))
    throwIf (count + 1 > limits.maxNodes)
      (rejection ("tree node count exceeds max_nodes=" ++ toString limits.maxNodes))
    throwIf (args.length ≠ op.arity)
      (rejection ("operator '" ++ op.name ++ "' requires " ++ toString op.arity ++ " arguments, got " ++
        toString args.length))
    let flat ← AnalyticNode.flattenAll limits (depth + 1) args (count + 1, tokens)
    return (flat.1, flat.2 ++ [⟨op, literal⟩])

def AnalyticNode.flattenAll (limits : AnalyticLimits) (depth : ℕ) :
    List (AnalyticNode R) → ℕ × List (AnalyticToken R) → Checked (ℕ × List (AnalyticToken R))
  | [], flat => .ok flat
  | first :: rest, flat => do
    let flat ← first.flatten limits depth flat
    AnalyticNode.flattenAll limits depth rest flat

end

/-! ### Compiling -/

structure TypedStackEntry (R : Type) where
  type : AnalyticValueType
  depth : ℕ
  literalConstant : Bool
  literalValue : R

structure AnalyticProgram (R : Type) where
  instructions : List AnalyticInstruction
  literals : List R
  requiredStack : ℕ
  requiredDimension : ℕ
  resultType : AnalyticValueType

/-- The locals of `compile_analytic_postfix`; the top of the stack comes first. -/
structure CompileState (R : Type) where
  stack : List (TypedStackEntry R) := []
  maximumStack : ℕ := 0
  requiredDimension : ℕ := 0
  literals : List R := []
  instructions : List AnalyticInstruction := []

section
variable [AnalyticReal R]
open AnalyticReal

/-- The checks of a token on its literal. -/
def requireLiteral (token : AnalyticToken R) (index : ℕ) : Checked Unit :=
  match token.op with
  | .constant => throwIf (isFinite token.literal = false)
      (rejection ("constant at token " ++ toString index ++ " must be finite"))
  | .input => throwIf (isFinite token.literal = false ∨ less token.literal zero = true ∨
        equal token.literal (floor token.literal) = false ∨ less (ofNat 4294967295) token.literal = true)
      (rejection ("input at token " ++ toString index ++ " must carry a non-negative integer slot"))
  | op => throwIf (equal token.literal zero = false)
      (rejection ("non-constant token " ++ toString index ++ " ('" ++ op.name ++ "') must not carry a literal"))

def requireType (actual expected : AnalyticValueType) (op : AnalyticOp) (index : ℕ) : Checked Unit :=
  throwIf (actual ≠ expected)
    (rejection ("operator '" ++ op.name ++ "' at token " ++ toString index ++ " requires " ++
      (if expected = .scalar then "scalar" else "predicate") ++ " arguments"))

/-- The entry a token of one argument leaves. -/
def unaryEntry (op : AnalyticOp) (index : ℕ) (argument : TypedStackEntry R) : Checked (TypedStackEntry R) := do
  let type : AnalyticValueType := if op = .not then .predicate else .scalar
  requireType argument.type type op index
  return ⟨type, argument.depth + 1, false, zero⟩

/-- The entry a token of two arguments leaves. -/
def binaryEntry (op : AnalyticOp) (index : ℕ) (left right : TypedStackEntry R) : Checked (TypedStackEntry R) := do
  let depth := max left.depth right.depth + 1
  if op = .and ∨ op = .or then do
    requireType left.type .predicate op index
    requireType right.type .predicate op index
    return ⟨.predicate, depth, false, zero⟩
  else do
    requireType left.type .scalar op index
    requireType right.type .scalar op index
    throwIf (op = .pow ∧ right.literalConstant = false)
      (rejection ("operator 'pow' at token " ++ toString index ++ " requires a literal exponent"))
    return ⟨if op.Comparison then .predicate else .scalar, depth, false, zero⟩

/-- The entry `Select` leaves. -/
def selectEntry (op : AnalyticOp) (index : ℕ) (condition selected otherwise : TypedStackEntry R) :
    Checked (TypedStackEntry R) := do
  requireType condition.type .predicate op index
  throwIf (selected.type ≠ otherwise.type)
    (rejection ("select at token " ++ toString index ++ " requires branches with the same type"))
  return ⟨selected.type, max condition.depth (max selected.depth otherwise.depth) + 1, false, zero⟩

/-- The entry `Between` leaves. -/
def betweenEntry (op : AnalyticOp) (index : ℕ) (value lower upper : TypedStackEntry R) :
    Checked (TypedStackEntry R) := do
  requireType value.type .scalar op index
  requireType lower.type .scalar op index
  requireType upper.type .scalar op index
  throwIf (lower.literalConstant = true ∧ upper.literalConstant = true ∧
      less upper.literalValue lower.literalValue = true)
    (rejection ("operator 'between' at token " ++ toString index ++ " requires lower <= upper"))
  return ⟨.predicate, max value.depth (max lower.depth upper.depth) + 1, false, zero⟩

/-- The entry a token of three arguments leaves. -/
def ternaryEntry (op : AnalyticOp) (index : ℕ) (first second third : TypedStackEntry R) :
    Checked (TypedStackEntry R) :=
  if op = .select then selectEntry op index first second third else betweenEntry op index first second third

/-- Pop the arguments of a token, and the entry it leaves on the rest. -/
def resultEntry (token : AnalyticToken R) (index : ℕ) (stack : List (TypedStackEntry R)) :
    Checked (TypedStackEntry R × List (TypedStackEntry R)) :=
  let underflow := rejection ("postfix stack underflow at token " ++ toString index ++ " ('" ++ token.op.name ++ "')")
  match token.op.arity, stack with
  | 0, rest => .ok (⟨.scalar, 1, token.op = .constant, if token.op = .constant then token.literal else zero⟩, rest)
  | 1, argument :: rest => do
    let entry ← unaryEntry token.op index argument
    return (entry, rest)
  | 2, right :: left :: rest => do
    let entry ← binaryEntry token.op index left right
    return (entry, rest)
  | 3, third :: second :: first :: rest => do
    let entry ← ternaryEntry token.op index first second third
    return (entry, rest)
  | _, _ => .error underflow

/-- The instruction of a token, next to the literals already stored. -/
def instructionOf (token : AnalyticToken R) (stored : ℕ) : AnalyticInstruction :=
  match token.op with
  | .constant => ⟨stored, .constant⟩
  | .input => ⟨toNat token.literal, .input⟩
  | op => ⟨0, op⟩

/-- One token of `compile_analytic_postfix`. -/
def compileToken (limits : AnalyticLimits) (state : CompileState R) (token : AnalyticToken R) :
    Checked (CompileState R) := do
  let index := state.instructions.length
  requireLiteral token index
  let (entry, rest) ← resultEntry token index state.stack
  throwIf (entry.depth > limits.maxDepth)
    (rejection ("expression depth exceeds max_depth=" ++ toString limits.maxDepth))
  throwIf (rest.length ≥ limits.maxStack)
    (rejection ("postfix stack exceeds max_stack=" ++ toString limits.maxStack))
  return {
    stack := entry :: rest
    maximumStack := max state.maximumStack (rest.length + 1)
    requiredDimension := max state.requiredDimension token.op.dimension
    literals := if token.op = .constant ∨ token.op = .input then state.literals ++ [token.literal] else state.literals
    instructions := state.instructions ++ [instructionOf token state.literals.length] }

def compileAnalyticPostfix (tokens : List (AnalyticToken R)) (limits : AnalyticLimits) :
    Checked (AnalyticProgram R) := do
  limits.validate
  throwIf (tokens = []) (rejection "postfix program is empty")
  throwIf (tokens.length > limits.maxNodes)
    (rejection ("node count " ++ toString tokens.length ++ " exceeds max_nodes=" ++ toString limits.maxNodes))
  let state ← tokens.foldlM (compileToken limits) {}
  match state.stack with
  | [result] => return ⟨state.instructions, state.literals, state.maximumStack, state.requiredDimension, result.type⟩
  | stack => .error (rejection ("postfix program must leave exactly one result, got " ++ toString stack.length))

def compileAnalyticExpression (root : AnalyticNode R) (limits : AnalyticLimits) : Checked (AnalyticProgram R) := do
  limits.validate
  let flat ← root.flatten limits 1 (0, [])
  compileAnalyticPostfix flat.2 limits

/-! ### The machine -/

/-- `AnalyticEvaluation`, one slot of the stack. -/
structure AnalyticEvaluation (R : Type) where
  value : R
  valid : Bool
  deriving DecidableEq

namespace AnalyticEvaluation

/-- A coordinate or an input, if it is there. -/
def read (source : Option R) : AnalyticEvaluation R :=
  match source with
  | some value => ⟨value, isFinite value⟩
  | none => ⟨nan, false⟩

/-- An operation of one argument. -/
def unary (operation : R → R) (argument : AnalyticEvaluation R) : AnalyticEvaluation R :=
  ⟨operation argument.value, argument.valid && isFinite (operation argument.value)⟩

/-- An operation of two arguments. -/
def binary (operation : R → R → R) (left right : AnalyticEvaluation R) : AnalyticEvaluation R :=
  ⟨operation left.value right.value, left.valid && right.valid && isFinite (operation left.value right.value)⟩

/-- A truth value. -/
def truth (holds : Bool) : R := if holds then one else zero

/-- A test of two arguments. -/
def test (condition : R → R → Bool) (left right : AnalyticEvaluation R) : AnalyticEvaluation R :=
  ⟨truth (condition left.value right.value), left.valid && right.valid⟩

end AnalyticEvaluation

namespace AnalyticProgram
variable {d : ℕ}
open AnalyticEvaluation

/-- Replace the top slot. -/
def onTop (operation : AnalyticEvaluation R → AnalyticEvaluation R) :
    List (AnalyticEvaluation R) → Option (List (AnalyticEvaluation R))
  | argument :: rest => some (operation argument :: rest)
  | _ => none

/-- Replace the top two slots, of which the right argument is the upper one. -/
def onTopTwo (operation : AnalyticEvaluation R → AnalyticEvaluation R → AnalyticEvaluation R) :
    List (AnalyticEvaluation R) → Option (List (AnalyticEvaluation R))
  | right :: left :: rest => some (operation left right :: rest)
  | _ => none

/-- One instruction of `eval_checked`, on a stack with room for `capacity` slots. -/
def step (program : AnalyticProgram R) (capacity : ℕ) (coordinates : Fin d → R) (inputs : List R)
    (stack : List (AnalyticEvaluation R)) (instruction : AnalyticInstruction) :
    Option (List (AnalyticEvaluation R)) :=
  let push (slot : AnalyticEvaluation R) := if stack.length < capacity then some (slot :: stack) else none
  let coordinate (axis : ℕ) := read (if available : axis < d then some (coordinates ⟨axis, available⟩) else none)
  match instruction.op with
  | .constant => program.literals[instruction.operand]?.bind fun literal => push ⟨literal, true⟩
  | .x => push (coordinate 0)
  | .y => push (coordinate 1)
  | .z => push (coordinate 2)
  | .input => push (read inputs[instruction.operand]?)
  | .add => onTopTwo (binary AnalyticReal.add) stack
  | .sub => onTopTwo (binary AnalyticReal.sub) stack
  | .mul => onTopTwo (binary AnalyticReal.mul) stack
  | .div => onTopTwo (binary AnalyticReal.div) stack
  | .pow => onTopTwo (binary AnalyticReal.pow) stack
  | .neg => onTop (unary AnalyticReal.neg) stack
  | .sqrt => onTop (unary AnalyticReal.sqrt) stack
  | .abs => onTop (unary AnalyticReal.abs) stack
  | .sin => onTop (unary AnalyticReal.sin) stack
  | .cos => onTop (unary AnalyticReal.cos) stack
  | .exp => onTop (unary AnalyticReal.exp) stack
  | .log => onTop (unary AnalyticReal.log) stack
  | .atan2 => onTopTwo (binary AnalyticReal.atan2) stack
  | .hypot => onTopTwo (binary AnalyticReal.hypot) stack
  | .min => onTopTwo (binary AnalyticReal.fmin) stack
  | .max => onTopTwo (binary AnalyticReal.fmax) stack
  | .lt => onTopTwo (test AnalyticReal.less) stack
  | .le => onTopTwo (test AnalyticReal.lessEqual) stack
  | .gt => onTopTwo (test fun left right => AnalyticReal.less right left) stack
  | .ge => onTopTwo (test fun left right => AnalyticReal.lessEqual right left) stack
  | .eq => onTopTwo (test AnalyticReal.equal) stack
  | .ne => onTopTwo (test fun left right => !AnalyticReal.equal left right) stack
  | .and => onTopTwo (test fun left right =>
      !AnalyticReal.equal left AnalyticReal.zero && !AnalyticReal.equal right AnalyticReal.zero) stack
  | .or => onTopTwo (test fun left right =>
      !AnalyticReal.equal left AnalyticReal.zero || !AnalyticReal.equal right AnalyticReal.zero) stack
  | .not => onTop (fun argument =>
      ⟨truth (AnalyticReal.equal argument.value AnalyticReal.zero), argument.valid⟩) stack
  | .select =>
    match stack with
    | otherwise :: selected :: condition :: rest =>
      -- only the chosen branch and the condition are observed
      let chosen := if !AnalyticReal.equal condition.value AnalyticReal.zero then selected else otherwise
      some (⟨chosen.value, condition.valid && chosen.valid⟩ :: rest)
    | _ => none
  | .between =>
    match stack with
    | upper :: lower :: value :: rest =>
      let within := AnalyticReal.lessEqual lower.value value.value && AnalyticReal.lessEqual value.value upper.value
      some (⟨truth within, value.valid && lower.valid && upper.valid⟩ :: rest)
    | _ => none

/-- `kAnalyticMaxStack`. -/
def maxStack : ℕ := 64

/-- The loop of `eval_checked`. -/
def run (program : AnalyticProgram R) (capacity : ℕ) (coordinates : Fin d → R) (inputs : List R)
    (code : List AnalyticInstruction) (stack : List (AnalyticEvaluation R)) :
    Option (List (AnalyticEvaluation R)) :=
  code.foldlM (program.step capacity coordinates inputs) stack

/-- `eval_checked`: a program that needs an axis the target lacks fails closed. -/
def evalChecked (program : AnalyticProgram R) (coordinates : Fin d → R) (inputs : List R) :
    Option (AnalyticEvaluation R) :=
  if program.requiredDimension > d then some ⟨nan, false⟩
  else
    match program.run maxStack coordinates inputs program.instructions [] with
    | some [result] => some result
    | _ => none

end AnalyticProgram

end

end Pops
