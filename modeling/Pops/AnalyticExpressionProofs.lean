import Mathlib.Data.Rat.Floor
import Pops.AnalyticExpression

/-!
Compiled expressions evaluate as their trees do. The compiler counts the stack
of the machine while it types it, so the machine never runs out of slots; what
the machine leaves for the tokens of a tree is the value of the tree.
-/
namespace Pops

variable {R : Type}

namespace AnalyticNode

section
variable [AnalyticReal R] {d : ℕ}

/-- A coordinate of the point, which must be finite to be valid. -/
def coordinate (coordinates : Fin d → R) (axis : ℕ) : AnalyticEvaluation R :=
  if available : axis < d then
    ⟨coordinates ⟨axis, available⟩, AnalyticReal.isFinite (coordinates ⟨axis, available⟩)⟩
  else ⟨AnalyticReal.nan, false⟩

/-- An arithmetic operation is valid when its arguments are and its value is finite. -/
def arithmetic (value : R) (args : List (AnalyticEvaluation R)) : AnalyticEvaluation R :=
  ⟨value, args.all AnalyticEvaluation.valid && AnalyticReal.isFinite value⟩

/-- A predicate is valid when its arguments are; it is one where it holds and zero elsewhere. -/
def predicate (holds : Bool) (args : List (AnalyticEvaluation R)) : AnalyticEvaluation R :=
  ⟨if holds then AnalyticReal.one else AnalyticReal.zero, args.all AnalyticEvaluation.valid⟩

/-- A value that counts as true. -/
def true? (value : R) : Bool := !AnalyticReal.equal value AnalyticReal.zero

/-- The meaning of an operation on the meanings of its arguments. -/
def apply (coordinates : Fin d → R) (inputs : List R) (op : AnalyticOp) (literal : R)
    (args : List (AnalyticEvaluation R)) : AnalyticEvaluation R :=
  match op, args.map AnalyticEvaluation.value with
  | .constant, [] => ⟨literal, true⟩
  | .x, [] => coordinate coordinates 0
  | .y, [] => coordinate coordinates 1
  | .z, [] => coordinate coordinates 2
  | .input, [] => AnalyticEvaluation.read inputs[AnalyticReal.toNat literal]?
  | .add, [left, right] => arithmetic (AnalyticReal.add left right) args
  | .sub, [left, right] => arithmetic (AnalyticReal.sub left right) args
  | .mul, [left, right] => arithmetic (AnalyticReal.mul left right) args
  | .div, [left, right] => arithmetic (AnalyticReal.div left right) args
  | .pow, [base, exponent] => arithmetic (AnalyticReal.pow base exponent) args
  | .neg, [value] => arithmetic (AnalyticReal.neg value) args
  | .sqrt, [value] => arithmetic (AnalyticReal.sqrt value) args
  | .abs, [value] => arithmetic (AnalyticReal.abs value) args
  | .sin, [value] => arithmetic (AnalyticReal.sin value) args
  | .cos, [value] => arithmetic (AnalyticReal.cos value) args
  | .exp, [value] => arithmetic (AnalyticReal.exp value) args
  | .log, [value] => arithmetic (AnalyticReal.log value) args
  | .atan2, [left, right] => arithmetic (AnalyticReal.atan2 left right) args
  | .hypot, [left, right] => arithmetic (AnalyticReal.hypot left right) args
  | .min, [left, right] => arithmetic (AnalyticReal.fmin left right) args
  | .max, [left, right] => arithmetic (AnalyticReal.fmax left right) args
  | .lt, [left, right] => predicate (AnalyticReal.less left right) args
  | .le, [left, right] => predicate (AnalyticReal.lessEqual left right) args
  | .gt, [left, right] => predicate (AnalyticReal.less right left) args
  | .ge, [left, right] => predicate (AnalyticReal.lessEqual right left) args
  | .eq, [left, right] => predicate (AnalyticReal.equal left right) args
  | .ne, [left, right] => predicate (!AnalyticReal.equal left right) args
  | .and, [left, right] => predicate (true? left && true? right) args
  | .or, [left, right] => predicate (true? left || true? right) args
  | .not, [value] => predicate (AnalyticReal.equal value AnalyticReal.zero) args
  | .between, [value, lower, upper] =>
    predicate (AnalyticReal.lessEqual lower value && AnalyticReal.lessEqual value upper) args
  | .select, _ =>
    match args with
    | [condition, selected, otherwise] =>
      let chosen := if true? condition.value then selected else otherwise
      ⟨chosen.value, condition.valid && chosen.valid⟩
    | _ => ⟨AnalyticReal.nan, false⟩
  | _, _ => ⟨AnalyticReal.nan, false⟩

mutual

/-- The value of a tree at a point. -/
def evaluate (coordinates : Fin d → R) (inputs : List R) : AnalyticNode R → AnalyticEvaluation R
  | .node op literal args => apply coordinates inputs op literal (evaluateAll coordinates inputs args)

def evaluateAll (coordinates : Fin d → R) (inputs : List R) : List (AnalyticNode R) → List (AnalyticEvaluation R)
  | [] => []
  | first :: rest => first.evaluate coordinates inputs :: evaluateAll coordinates inputs rest

end

end

theorem evaluateAll_length [AnalyticReal R] {d : ℕ} {coordinates : Fin d → R} {inputs : List R}
    (nodes : List (AnalyticNode R)) : (evaluateAll coordinates inputs nodes).length = nodes.length := by
  induction nodes with
  | nil => rfl
  | cons first rest ih => rw [evaluateAll, List.length_cons, List.length_cons, ih]

mutual

/-- The dimension of the coordinates a tree mentions. -/
def dimension : AnalyticNode R → ℕ
  | .node op _ args => max (dimensionAll args) op.dimension

def dimensionAll : List (AnalyticNode R) → ℕ
  | [] => 0
  | first :: rest => max first.dimension (dimensionAll rest)

end

mutual

/-- The tokens of a tree. -/
def tokens : AnalyticNode R → List (AnalyticToken R)
  | .node op literal args => tokensAll args ++ [⟨op, literal⟩]

def tokensAll : List (AnalyticNode R) → List (AnalyticToken R)
  | [] => []
  | first :: rest => first.tokens ++ tokensAll rest

end

mutual

/-- Every operation of a tree has its number of arguments. -/
def WellFormed : AnalyticNode R → Prop
  | .node op _ args => args.length = op.arity ∧ WellFormedAll args

def WellFormedAll : List (AnalyticNode R) → Prop
  | [] => True
  | first :: rest => first.WellFormed ∧ WellFormedAll rest

end

mutual

variable {limits : AnalyticLimits}

theorem flatten_ok {depth : ℕ} (root : AnalyticNode R) {before after : ℕ × List (AnalyticToken R)}
    (ran : root.flatten limits depth before = .ok after) :
    after.2 = before.2 ++ root.tokens ∧ root.WellFormed :=
  match root with
  | .node op literal args => by
    simp only [flatten, bind_ok, throwIf_ok, unit_exists, pure_ok, not_not] at ran
    obtain ⟨-, -, arguments, flat, flattened, rfl⟩ := ran
    obtain ⟨appended, wellFormed⟩ := flattenAll_ok args flattened
    refine ⟨?_, arguments, wellFormed⟩
    simp only [appended, tokens, List.append_assoc]

theorem flattenAll_ok {depth : ℕ} (nodes : List (AnalyticNode R)) {before after : ℕ × List (AnalyticToken R)}
    (ran : flattenAll limits depth nodes before = .ok after) :
    after.2 = before.2 ++ tokensAll nodes ∧ WellFormedAll nodes :=
  match nodes with
  | [] => by
    cases ran
    exact ⟨by simp [tokensAll], trivial⟩
  | first :: rest => by
    simp only [flattenAll, bind_ok] at ran
    obtain ⟨flat, here, later⟩ := ran
    obtain ⟨appended, wellFormed⟩ := first.flatten_ok here
    obtain ⟨appendedRest, wellFormedRest⟩ := flattenAll_ok rest later
    refine ⟨?_, wellFormed, wellFormedRest⟩
    rw [appendedRest, appended, tokensAll, List.append_assoc]

end

end AnalyticNode

namespace CompileState
variable [AnalyticReal R] {limits : AnalyticLimits} {state after : CompileState R} {token : AnalyticToken R}

theorem resultEntry_ok {index : ℕ} {stack rest : List (TypedStackEntry R)} {entry : TypedStackEntry R}
    (ran : resultEntry token index stack = .ok (entry, rest)) :
    ∃ popped, stack = popped ++ rest ∧ popped.length = token.op.arity := by
  unfold resultEntry at ran
  split at ran
  · rename_i arity
    cases ran
    exact ⟨[], rfl, arity.symm⟩
  · rename_i argument rest' arity
    simp only [bind_ok, pure_ok, Prod.mk.injEq] at ran
    obtain ⟨_, -, -, rfl⟩ := ran
    exact ⟨[argument], rfl, arity.symm⟩
  · rename_i right left rest' arity
    simp only [bind_ok, pure_ok, Prod.mk.injEq] at ran
    obtain ⟨_, -, -, rfl⟩ := ran
    exact ⟨[right, left], rfl, arity.symm⟩
  · rename_i third second first rest' arity
    simp only [bind_ok, pure_ok, Prod.mk.injEq] at ran
    obtain ⟨_, -, -, rfl⟩ := ran
    exact ⟨[third, second, first], rfl, arity.symm⟩
  · cases ran

theorem compileToken_ok (ran : compileToken limits state token = .ok after) :
    ∃ entry popped rest, state.stack = popped ++ rest ∧ popped.length = token.op.arity ∧
      rest.length < limits.maxStack ∧
      after.stack = entry :: rest ∧
      after.maximumStack = max state.maximumStack (rest.length + 1) ∧
      after.requiredDimension = max state.requiredDimension token.op.dimension ∧
      after.literals = (if token.op = .constant ∨ token.op = .input then state.literals ++ [token.literal]
        else state.literals) ∧
      after.instructions = state.instructions ++ [instructionOf token state.literals.length] := by
  simp only [compileToken, bind_ok, throwIf_ok, unit_exists, pure_ok, not_le, ge_iff_le] at ran
  obtain ⟨-, ⟨entry, rest⟩, result, -, room, rfl⟩ := ran
  obtain ⟨popped, split, arity⟩ := resultEntry_ok result
  exact ⟨entry, popped, rest, split, arity, room, rfl, rfl, rfl, rfl, rfl⟩

end CompileState

namespace AnalyticProgram
variable [AnalyticReal R] {d : ℕ} {program : AnalyticProgram R} {coordinates : Fin d → R} {inputs : List R}
open AnalyticNode AnalyticEvaluation

theorem step_instruction {capacity stored : ℕ} {token : AnalyticToken R} {args rest : List (AnalyticEvaluation R)}
    (arity : args.length = token.op.arity) (room : rest.length < capacity)
    (literal : token.op = .constant → program.literals[stored]? = some token.literal) :
    program.step capacity coordinates inputs (args.reverse ++ rest) (instructionOf token stored) =
      some (apply coordinates inputs token.op token.literal args :: rest) := by
  obtain ⟨op, value⟩ := token
  cases op
  case constant =>
    obtain rfl := List.length_eq_zero_iff.mp arity
    delta apply
    simp [step, instructionOf, literal rfl, room]
  case x | y | z =>
    obtain rfl := List.length_eq_zero_iff.mp arity
    delta apply
    simp only [step, instructionOf, List.reverse_nil, List.nil_append, room, if_true, List.map_nil,
      AnalyticNode.coordinate]
    split <;> rfl
  case input =>
    obtain rfl := List.length_eq_zero_iff.mp arity
    delta apply
    simp [step, instructionOf, room]
  case neg | sqrt | abs | sin | cos | exp | log | not =>
    obtain ⟨argument, rfl⟩ := List.length_eq_one_iff.mp arity
    delta apply
    simp [step, instructionOf, onTop, unary, truth, arithmetic, predicate]
  case add | sub | mul | div | pow | atan2 | hypot | min | max =>
    obtain ⟨left, right, rfl⟩ := List.length_eq_two.mp arity
    delta apply
    simp [step, instructionOf, onTopTwo, binary, arithmetic]
  case lt | le | gt | ge | eq | ne | and | or =>
    obtain ⟨left, right, rfl⟩ := List.length_eq_two.mp arity
    delta apply
    simp [step, instructionOf, onTopTwo, test, truth, predicate, true?]
  case select =>
    obtain ⟨condition, selected, otherwise, rfl⟩ := List.length_eq_three.mp arity
    rfl
  case between =>
    obtain ⟨argument, lower, upper, rfl⟩ := List.length_eq_three.mp arity
    delta apply
    simp [step, instructionOf, truth, predicate, Bool.and_assoc]

/-- What a stretch of tokens does to the compiler's state, and its code to the
machine: both stacks grow by one slot for each of the values. -/
structure Compiled (coordinates : Fin d → R) (inputs : List R) (before after : CompileState R)
    (values : List (AnalyticEvaluation R)) (dimension : ℕ) : Prop where
  maximum : before.maximumStack ≤ after.maximumStack
  dimension_eq : after.requiredDimension = max before.requiredDimension dimension
  stack : ∃ pushed, after.stack = pushed ++ before.stack ∧ pushed.length = values.length
  literals : before.literals <+: after.literals
  code : ∃ code, after.instructions = before.instructions ++ code ∧
    ∀ (program : AnalyticProgram R) (capacity : ℕ) (stack : List (AnalyticEvaluation R)),
      after.literals <+: program.literals → after.maximumStack ≤ capacity →
        stack.length = before.stack.length →
          program.run capacity coordinates inputs code stack = some (values ++ stack)

namespace Compiled
variable {before middle after : CompileState R} {values more : List (AnalyticEvaluation R)}
  {dimension other : ℕ}

theorem nil : Compiled coordinates inputs before before [] 0 :=
  ⟨le_rfl, (Nat.max_zero _).symm, ⟨[], rfl, rfl⟩, List.prefix_rfl, [], by simp, fun _ _ _ _ _ _ => rfl⟩

theorem append (first : Compiled coordinates inputs before middle values dimension)
    (second : Compiled coordinates inputs middle after more other) :
    Compiled coordinates inputs before after (more ++ values) (max dimension other) := by
  obtain ⟨pushed, firstStack, firstLength⟩ := first.stack
  obtain ⟨pushedMore, secondStack, secondLength⟩ := second.stack
  obtain ⟨code, firstCode, firstRuns⟩ := first.code
  obtain ⟨codeMore, secondCode, secondRuns⟩ := second.code
  refine ⟨Nat.le_trans first.maximum second.maximum, ?_, ⟨pushedMore ++ pushed, ?_, ?_⟩,
    first.literals.trans second.literals, code ++ codeMore, ?_, ?_⟩
  · rw [second.dimension_eq, first.dimension_eq, Nat.max_assoc]
  · rw [secondStack, firstStack, List.append_assoc]
  · rw [List.length_append, List.length_append, firstLength, secondLength]
  · rw [secondCode, firstCode, List.append_assoc]
  · intro program capacity stack stored room aligned
    have ran := firstRuns program capacity stack (second.literals.trans stored) (Nat.le_trans second.maximum room) aligned
    have alignedMore : (values ++ stack).length = middle.stack.length := by
      rw [List.length_append, firstStack, List.length_append, firstLength, aligned]
    unfold run at ran ⊢
    rw [List.foldlM_append, ran]
    have rest := secondRuns program capacity (values ++ stack) stored room alignedMore
    rw [List.append_assoc]
    exact rest

theorem token {token : AnalyticToken R} {args : List (AnalyticEvaluation R)}
    (arguments : Compiled coordinates inputs before middle args.reverse dimension)
    (arity : args.length = token.op.arity) (ran : compileToken limits middle token = .ok after) :
    Compiled coordinates inputs before after [apply coordinates inputs token.op token.literal args]
      (max dimension token.op.dimension) := by
  obtain ⟨entry, popped, rest, split, poppedArity, -, stack, maximum, dimensionAfter, literals, instructions⟩ :=
    CompileState.compileToken_ok ran
  obtain ⟨pushed, middleStack, pushedLength⟩ := arguments.stack
  obtain ⟨code, middleCode, runs⟩ := arguments.code
  rw [middleStack] at split
  obtain ⟨-, rfl⟩ := List.append_inj split (by rw [pushedLength, List.length_reverse, arity, poppedArity])
  have stored : middle.literals <+: after.literals := by
    rw [literals]
    split
    · exact List.prefix_append _ _
    · exact List.prefix_rfl
  refine ⟨?_, ?_, ⟨[entry], stack, rfl⟩, arguments.literals.trans stored,
    code ++ [instructionOf token middle.literals.length], ?_, ?_⟩
  · exact Nat.le_trans arguments.maximum (maximum ▸ Nat.le_max_left _ _)
  · rw [dimensionAfter, arguments.dimension_eq, Nat.max_assoc]
  · rw [instructions, middleCode, List.append_assoc]
  · intro program capacity slots known room aligned
    rw [maximum] at room
    have ranArguments := runs program capacity slots (stored.trans known)
      (Nat.le_trans (Nat.le_max_left _ _) room) aligned
    have free : slots.length < capacity := by
      rw [aligned]
      exact Nat.le_trans (Nat.le_max_right _ _) room
    have literal : token.op = .constant → program.literals[middle.literals.length]? = some token.literal := by
      intro constant
      rw [literals, if_pos (.inl constant)] at known
      obtain ⟨tail, whole⟩ := known
      rw [← whole]
      simp
    unfold run at ranArguments ⊢
    rw [List.foldlM_append, ranArguments]
    simp only [Option.bind_eq_bind, Option.bind_some, List.foldlM_cons, List.foldlM_nil,
      step_instruction arity free literal]
    rfl

end Compiled

mutual

theorem compiled_tokens (root : AnalyticNode R) {before after : CompileState R} (wellFormed : root.WellFormed)
    (ran : root.tokens.foldlM (compileToken limits) before = .ok after) :
    Compiled coordinates inputs before after [root.evaluate coordinates inputs] root.dimension :=
  match root with
  | .node op literal args => by
    simp only [tokens, List.foldlM_append, List.foldlM_cons, List.foldlM_nil, bind_ok, pure_ok] at ran
    obtain ⟨middle, ranArgs, _, ranToken, rfl⟩ := ran
    have arguments := compiled_tokensAll args wellFormed.2 ranArgs
    have arity : (evaluateAll coordinates inputs args).length = op.arity := by
      rw [← wellFormed.1]
      exact evaluateAll_length args
    exact arguments.token arity ranToken

theorem compiled_tokensAll (nodes : List (AnalyticNode R)) {before after : CompileState R}
    (wellFormed : WellFormedAll nodes) (ran : (tokensAll nodes).foldlM (compileToken limits) before = .ok after) :
    Compiled coordinates inputs before after (evaluateAll coordinates inputs nodes).reverse (dimensionAll nodes) :=
  match nodes with
  | [] => by
    cases ran
    exact .nil
  | first :: rest => by
    simp only [tokensAll, List.foldlM_append, bind_ok] at ran
    obtain ⟨middle, ranFirst, ranRest⟩ := ran
    have here := compiled_tokens first wellFormed.1 ranFirst
    have later := compiled_tokensAll rest wellFormed.2 ranRest
    rw [evaluateAll, List.reverse_cons]
    exact here.append later

end

end AnalyticProgram

theorem maximumStack_le [AnalyticReal R] {tokens : List (AnalyticToken R)} {after : CompileState R}
    (ran : tokens.foldlM (compileToken limits) {} = .ok after) :
    after.maximumStack ≤ limits.maxStack := by
  refine foldlM_ok_invariant (fun _ state => state.maximumStack ≤ limits.maxStack) ?_ tokens {} after []
    (Nat.zero_le _) ran
  intro done token state next bounded compiled
  obtain ⟨_, _, rest, -, -, room, -, maximum, -⟩ := CompileState.compileToken_ok compiled
  rw [maximum]
  exact Nat.max_le.mpr ⟨bounded, room⟩

/-- A compiled expression runs on the stack it requires, which is never empty
when a slot is read, and yields the value of its tree; where the tree mentions
an axis that the point lacks, it fails closed. -/
theorem compileAnalyticExpression_evaluates [AnalyticReal R] {root : AnalyticNode R} {limits : AnalyticLimits}
    {program : AnalyticProgram R} (compiled : compileAnalyticExpression root limits = .ok program) {d : ℕ}
    (coordinates : Fin d → R) (inputs : List R) :
    program.requiredStack ≤ AnalyticProgram.maxStack ∧
      program.run program.requiredStack coordinates inputs program.instructions [] =
        some [root.evaluate coordinates inputs] ∧
      program.evalChecked coordinates inputs =
        some (if root.dimension > d then ⟨AnalyticReal.nan, false⟩ else root.evaluate coordinates inputs) := by
  simp only [compileAnalyticExpression, compileAnalyticPostfix, bind_ok, unit_exists, throwIf_ok] at compiled
  obtain ⟨valid, ⟨count, flat⟩, flattened, -, -, -, state, ran, result⟩ := compiled
  obtain ⟨tokens, wellFormed⟩ := root.flatten_ok flattened
  simp only [List.nil_append] at tokens
  rw [tokens] at ran
  have whole : AnalyticProgram.Compiled coordinates inputs {} state [root.evaluate coordinates inputs]
      root.dimension := AnalyticProgram.compiled_tokens root wellFormed ran
  have bounded := maximumStack_le ran
  split at result
  · rename_i entry stack
    cases result
    obtain ⟨code, instructions, runs⟩ := whole.code
    have limit : limits.maxStack ≤ AnalyticProgram.maxStack := by
      simp only [AnalyticLimits.validate, bind_ok, throwIf_ok, unit_exists, not_or, not_lt, gt_iff_lt] at valid
      exact valid.2.2.2
    have codeIs : state.instructions = code := by
      rw [instructions]
      rfl
    have fits : state.maximumStack ≤ AnalyticProgram.maxStack := Nat.le_trans bounded limit
    have dimension : state.requiredDimension = root.dimension := by
      rw [whole.dimension_eq]
      exact Nat.zero_max _
    refine ⟨fits, ?_, ?_⟩
    · rw [codeIs]
      exact runs _ _ [] List.prefix_rfl (Nat.le_refl _) rfl
    · unfold AnalyticProgram.evalChecked
      simp only [dimension, codeIs]
      split
      · rfl
      · rw [runs _ AnalyticProgram.maxStack [] List.prefix_rfl fits rfl]
        rfl
  · cases result

/-- Exact rationals as reals, with a NaN for what they do not represent. -/
instance : AnalyticReal (Option ℚ) where
  zero := some 0
  one := some 1
  nan := none
  isFinite := Option.isSome
  add left right := do return (← left) + (← right)
  sub left right := do return (← left) - (← right)
  mul left right := do return (← left) * (← right)
  div left right := do if (← right) = 0 then none else return (← left) / (← right)
  pow base exponent := do
    if (← exponent).den = 1 ∧ 0 ≤ (← exponent) then return (← base) ^ (← exponent).num.toNat else none
  neg value := do return -(← value)
  sqrt _ := none
  abs value := do return max (← value) (-(← value))
  sin _ := none
  cos _ := none
  exp _ := none
  log _ := none
  atan2 _ _ := none
  hypot _ _ := none
  fmin left right := do return min (← left) (← right)
  fmax left right := do return max (← left) (← right)
  floor value := do return (← value).floor
  less left right := match left, right with
    | some left, some right => left < right
    | _, _ => false
  lessEqual left right := match left, right with
    | some left, some right => left ≤ right
    | _, _ => false
  equal left right := match left, right with
    | some left, some right => left = right
    | _, _ => false
  ofNat count := some count
  toNat value := (value.getD 0).num.toNat

def belowOne : AnalyticNode (Option ℚ) :=
  let x : AnalyticNode (Option ℚ) := .node .x (some 0) []
  let one : AnalyticNode (Option ℚ) := .node .constant (some 1) []
  .node .select (some 0) [.node .lt (some 0) [x, one], .node .add (some 0) [x, one],
    .node .constant (some 0) []]

theorem belowOne_evaluates : ∃ program, compileAnalyticExpression belowOne {} = .ok program ∧
    program.requiredStack ≤ AnalyticProgram.maxStack ∧
    program.evalChecked (fun _ : Fin 2 => some (1 / 2)) [] = some ⟨some (3 / 2), true⟩ := by
  obtain ⟨program, compiled⟩ := exists_of_isOk (show (compileAnalyticExpression belowOne {}).isOk = true by
    decide +kernel)
  obtain ⟨fits, -, evaluated⟩ := compileAnalyticExpression_evaluates compiled (fun _ : Fin 2 => some (1 / 2)) []
  refine ⟨program, compiled, fits, ?_⟩
  rw [evaluated]
  decide +kernel

end Pops
