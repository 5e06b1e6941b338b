import Pops.AnalyticExpressionProofs

/-!
What `compile_analytic_postfix` accepts: the postfix forms of typed trees whose
literals are allowed, within the limits. A token list is read from the left;
the compiler's stack summarises the trees of the part already read.
-/
namespace Pops

/-- The type of an operation's result, where its arguments have the types it takes. -/
def AnalyticOp.resultType (op : AnalyticOp) : List AnalyticValueType → Option AnalyticValueType
  | [] => if op.arity = 0 then some .scalar else none
  | [argument] => if op.arity = 1 ∧ argument = (if op = .not then .predicate else .scalar) then some argument else none
  | [left, right] =>
    if op.arity ≠ 2 then none
    else if op = .and ∨ op = .or then
      if left = .predicate ∧ right = .predicate then some .predicate else none
    else if left = .scalar ∧ right = .scalar then some (if op.Comparison then .predicate else .scalar) else none
  | [first, second, third] =>
    if op = .select then
      if first = .predicate ∧ second = third then some second else none
    else if op = .between then
      if first = .scalar ∧ second = .scalar ∧ third = .scalar then some .predicate else none
    else none
  | _ => none

variable {R : Type}

namespace AnalyticNode

mutual

/-- The type of a tree, if it has one. -/
def type? : AnalyticNode R → Option AnalyticValueType
  | .node op _ args => (types? args).bind op.resultType

def types? : List (AnalyticNode R) → Option (List AnalyticValueType)
  | [] => some []
  | first :: rest => (type? first).bind fun type => (types? rest).map fun types => type :: types

end

mutual

def depth : AnalyticNode R → ℕ
  | .node _ _ args => depthAll args + 1

def depthAll : List (AnalyticNode R) → ℕ
  | [] => 0
  | first :: rest => max first.depth (depthAll rest)

end

mutual

/-- The slots that evaluating a tree occupies. -/
def stackNeed : AnalyticNode R → ℕ
  | .node _ _ args => max 1 (stackNeedAll args)

def stackNeedAll : List (AnalyticNode R) → ℕ
  | [] => 0
  | first :: rest => max first.stackNeed (stackNeedAll rest + 1)

end

mutual

def Everywhere (holds : AnalyticNode R → Prop) : AnalyticNode R → Prop
  | .node op literal args => holds (.node op literal args) ∧ EverywhereAll holds args

def EverywhereAll (holds : AnalyticNode R → Prop) : List (AnalyticNode R) → Prop
  | [] => True
  | first :: rest => first.Everywhere holds ∧ EverywhereAll holds rest

end

/-- The value of a constant. -/
def constant? : AnalyticNode R → Option R
  | .node op literal _ => if op = .constant then some literal else none

section
variable [AnalyticReal R]
open AnalyticReal

/-- A finite constant, a slot in range, and no literal on anything else. -/
def LiteralAllowed : AnalyticNode R → Prop
  | .node .constant literal _ => isFinite literal = true
  | .node .input literal _ => isFinite literal = true ∧ less literal zero = false ∧
      equal literal (floor literal) = true ∧ less (ofNat 4294967295) literal = false
  | .node _ literal _ => equal literal zero = true

/-- What an operation demands of the constants among its arguments. -/
def operandsAllowed (op : AnalyticOp) (constants : List (Option R)) : Prop :=
  match op, constants with
  | .pow, [_, exponent] => exponent.isSome = true
  | .between, [_, some lower, some upper] => less upper lower = false
  | _, _ => True

/-- A constant exponent, and bounds in order. -/
def ConstantsAllowed : AnalyticNode R → Prop
  | .node op _ args => operandsAllowed op (args.map constant?)

end

theorem tokensAll_append (front back : List (AnalyticNode R)) :
    tokensAll (front ++ back) = tokensAll front ++ tokensAll back := by
  induction front with
  | nil => rfl
  | cons first front ih => rw [List.cons_append, tokensAll, tokensAll, ih, List.append_assoc]

theorem types?_eq (nodes : List (AnalyticNode R)) (types : List AnalyticValueType) :
    types? nodes = some types ↔ List.Forall₂ (fun node type => type? node = some type) nodes types := by
  induction nodes generalizing types with
  | nil => simp [types?]
  | cons first rest ih =>
    simp only [types?, Option.bind_eq_some_iff, Option.map_eq_some_iff, ih, List.forall₂_cons_left_iff]
    constructor
    · rintro ⟨type, typed, types, later, rfl⟩
      exact ⟨type, types, typed, later, rfl⟩
    · rintro ⟨type, types, typed, later, rfl⟩
      exact ⟨type, typed, types, later, rfl⟩

theorem everywhereAll_iff {holds : AnalyticNode R → Prop} (nodes : List (AnalyticNode R)) :
    EverywhereAll holds nodes ↔ ∀ node ∈ nodes, Everywhere holds node := by
  induction nodes with
  | nil => simp [EverywhereAll]
  | cons first rest ih => rw [EverywhereAll, ih, List.forall_mem_cons]

theorem depthAll_le {limit : ℕ} (nodes : List (AnalyticNode R)) :
    depthAll nodes ≤ limit ↔ ∀ node ∈ nodes, depth node ≤ limit := by
  induction nodes with
  | nil => simp [depthAll]
  | cons first rest ih => rw [depthAll, Nat.max_le, ih, List.forall_mem_cons]

theorem stackNeedAll_append {base limit : ℕ} (front back : List (AnalyticNode R)) :
    base + stackNeedAll (front ++ back) ≤ limit ↔
      base + stackNeedAll front ≤ limit ∧ base + front.length + stackNeedAll back ≤ limit := by
  induction front generalizing base with
  | nil =>
    simp only [List.nil_append, stackNeedAll, List.length_nil]
    omega
  | cons first front ih =>
    have later := @ih (base + 1)
    simp only [List.cons_append, stackNeedAll, List.length_cons]
    omega

end AnalyticNode

open AnalyticNode

namespace TypedStackEntry

/-- The constant an entry records. -/
def constant? (entry : TypedStackEntry R) : Option R :=
  if entry.literalConstant then some entry.literalValue else none

/-- The depth of a result over the entries it consumes. -/
def depthOver (entries : List (TypedStackEntry R)) : ℕ := (entries.map depth).foldr max 0 + 1

/-- An entry records the type, the depth and the constant of a tree. -/
structure Summarises (entry : TypedStackEntry R) (node : AnalyticNode R) : Prop where
  type : node.type? = some entry.type
  depth : entry.depth = node.depth
  constant : entry.constant? = node.constant?

variable [AnalyticReal R]

/-- What a token makes of the entries of its arguments. -/
structure Results (token : AnalyticToken R) (args : List (TypedStackEntry R)) (entry : TypedStackEntry R) : Prop where
  type : token.op.resultType (args.map TypedStackEntry.type) = some entry.type
  operands : operandsAllowed token.op (args.map TypedStackEntry.constant?)
  depth : entry.depth = depthOver args
  constant : entry.constant? = if token.op = .constant then some token.literal else none

end TypedStackEntry

open TypedStackEntry

section
variable [AnalyticReal R] {token : AnalyticToken R} {index : ℕ} {stack rest : List (TypedStackEntry R)}
  {entry : TypedStackEntry R}

theorem requireType_ok {actual expected : AnalyticValueType} {op : AnalyticOp} :
    requireType actual expected op index = .ok () ↔ actual = expected := by
  rw [requireType, throwIf_ok, not_not]

variable {args : List (AnalyticNode R)} {entries : List (TypedStackEntry R)}

theorem requireLiteral_ok :
    requireLiteral token index = .ok () ↔ LiteralAllowed (.node token.op token.literal args) := by
  obtain ⟨op, literal⟩ := token
  cases op <;> simp [requireLiteral, LiteralAllowed]

theorem operandsAllowed_one (op : AnalyticOp) (first : Option R) : operandsAllowed op [first] := by
  cases op <;> exact trivial

theorem operandsAllowed_two (op : AnalyticOp) (first second : Option R) :
    operandsAllowed op [first, second] ↔ (op = .pow → second.isSome = true) := by
  cases op <;> simp [operandsAllowed]

theorem operandsAllowed_between (first second third : Option R) : operandsAllowed .between [first, second, third] ↔
    ∀ lower upper, second = some lower → third = some upper → AnalyticReal.less upper lower = false := by
  cases second <;> cases third <;> simp [operandsAllowed]

omit [AnalyticReal R] in
theorem constant?_operator {type : AnalyticValueType} {depth : ℕ} {value : R} :
    (⟨type, depth, false, value⟩ : TypedStackEntry R).constant? = none :=
  rfl

omit [AnalyticReal R] in
theorem not_constant (arity : token.op.arity ≠ 0) : ¬token.op = .constant := fun same => arity (by rw [same]; rfl)

theorem unaryEntry_results {argument : TypedStackEntry R} (arity : token.op.arity = 1)
    (ran : unaryEntry token.op index argument = .ok entry) : Results token [argument] entry := by
  simp only [unaryEntry, bind_ok, requireType_ok, unit_exists, pure_ok] at ran
  obtain ⟨typed, rfl⟩ := ran
  exact ⟨by simp [AnalyticOp.resultType, arity, typed], operandsAllowed_one .., by simp [depthOver],
    by rw [constant?_operator, if_neg (not_constant (by omega))]⟩

theorem binaryEntry_results {left right : TypedStackEntry R} (arity : token.op.arity = 2)
    (ran : binaryEntry token.op index left right = .ok entry) : Results token [left, right] entry := by
  have plain : ¬token.op = .constant := not_constant (by omega)
  unfold binaryEntry at ran
  by_cases logical : token.op = .and ∨ token.op = .or
  · simp only [if_pos logical, bind_ok, requireType_ok, unit_exists, pure_ok] at ran
    obtain ⟨leftTyped, rightTyped, rfl⟩ := ran
    have notPow : ¬token.op = .pow := fun same => by rw [same] at logical; simp at logical
    exact ⟨by simp [AnalyticOp.resultType, arity, logical, leftTyped, rightTyped],
      (operandsAllowed_two ..).mpr fun same => absurd same notPow, by simp [depthOver],
      by rw [constant?_operator, if_neg plain]⟩
  · simp only [if_neg logical, bind_ok, requireType_ok, throwIf_ok, unit_exists, pure_ok] at ran
    obtain ⟨leftTyped, rightTyped, exponent, rfl⟩ := ran
    refine ⟨by simp [AnalyticOp.resultType, arity, logical, leftTyped, rightTyped],
      (operandsAllowed_two ..).mpr fun same => ?_, by simp [depthOver], by rw [constant?_operator, if_neg plain]⟩
    have literal : right.literalConstant = true := by simpa [same] using exponent
    simp [TypedStackEntry.constant?, literal]

theorem ternaryEntry_results {first second third : TypedStackEntry R} (arity : token.op.arity = 3)
    (ran : ternaryEntry token.op index first second third = .ok entry) : Results token [first, second, third] entry := by
  obtain ⟨op, literal⟩ := token
  have which : op = .select ∨ op = .between := by cases op <;> simp [AnalyticOp.arity] at arity ⊢
  rcases which with rfl | rfl
  · simp only [ternaryEntry, if_true, selectEntry, bind_ok, requireType_ok, throwIf_ok, unit_exists, pure_ok, not_not] at ran
    obtain ⟨typed, same, rfl⟩ := ran
    exact ⟨by simp [AnalyticOp.resultType, typed, same], trivial, by simp [depthOver], rfl⟩
  · simp only [ternaryEntry, reduceCtorEq, if_false, betweenEntry, bind_ok, requireType_ok, throwIf_ok, unit_exists,
      pure_ok] at ran
    obtain ⟨valueTyped, lowerTyped, upperTyped, ordered, rfl⟩ := ran
    refine ⟨by simp [AnalyticOp.resultType, valueTyped, lowerTyped, upperTyped],
      (operandsAllowed_between ..).mpr fun lower upper isLower isUpper => ?_, by simp [depthOver], rfl⟩
    simp only [TypedStackEntry.constant?, Option.ite_none_right_eq_some, Option.some.injEq] at isLower isUpper
    obtain ⟨lowerLiteral, rfl⟩ := isLower
    obtain ⟨upperLiteral, rfl⟩ := isUpper
    simpa [lowerLiteral, upperLiteral] using ordered

theorem resultEntry_results (ran : resultEntry token index stack = .ok (entry, rest)) :
    ∃ args, stack = args.reverse ++ rest ∧ Results token args entry := by
  unfold resultEntry at ran
  split at ran
  · rename_i arity
    cases ran
    refine ⟨[], rfl, by simp [AnalyticOp.resultType, arity], by cases token.op <;> exact trivial, rfl, ?_⟩
    by_cases constant : token.op = .constant <;> simp [TypedStackEntry.constant?, constant]
  · rename_i argument rest' arity
    simp only [bind_ok, pure_ok, Prod.mk.injEq] at ran
    obtain ⟨_, made, rfl, rfl⟩ := ran
    exact ⟨[argument], rfl, unaryEntry_results arity made⟩
  · rename_i right left rest' arity
    simp only [bind_ok, pure_ok, Prod.mk.injEq] at ran
    obtain ⟨_, made, rfl, rfl⟩ := ran
    exact ⟨[left, right], rfl, binaryEntry_results arity made⟩
  · rename_i third second first rest' arity
    simp only [bind_ok, pure_ok, Prod.mk.injEq] at ran
    obtain ⟨_, made, rfl, rfl⟩ := ran
    exact ⟨[first, second, third], rfl, ternaryEntry_results arity made⟩
  · cases ran

/-- Arguments of the types an operation takes, with the constants it demands, have a result. -/
theorem resultEntry_exists {args : List (TypedStackEntry R)} {type : AnalyticValueType}
    (typed : token.op.resultType (args.map TypedStackEntry.type) = some type)
    (allowed : operandsAllowed token.op (args.map TypedStackEntry.constant?)) :
    ∃ entry, resultEntry token index (args.reverse ++ rest) = .ok (entry, rest) ∧ Results token args entry := by
  obtain ⟨entry, ran⟩ : ∃ entry, resultEntry token index (args.reverse ++ rest) = .ok (entry, rest) := by
    obtain ⟨op, literal⟩ := token
    simp only at typed allowed
    rcases args with _ | ⟨first, _ | ⟨second, _ | ⟨third, _ | ⟨fourth, more⟩⟩⟩⟩
    · simp only [List.map_nil, AnalyticOp.resultType, Option.ite_none_right_eq_some] at typed
      refine ⟨⟨.scalar, 1, op = .constant, if op = .constant then literal else AnalyticReal.zero⟩, ?_⟩
      simp only [resultEntry, typed.1, List.reverse_nil, List.nil_append]
    · simp only [List.map_cons, List.map_nil, AnalyticOp.resultType, Option.ite_none_right_eq_some] at typed
      obtain ⟨⟨arity, same⟩, -⟩ := typed
      refine ⟨⟨if op = .not then .predicate else .scalar, first.depth + 1, false, AnalyticReal.zero⟩, ?_⟩
      simp only [resultEntry, arity, List.reverse_singleton, List.singleton_append, unaryEntry, bind_ok, pure_ok,
        requireType_ok, unit_exists]
      exact ⟨_, ⟨same, rfl⟩, rfl⟩
    · simp only [List.map_cons, List.map_nil, AnalyticOp.resultType, ne_eq, ite_not, Option.ite_none_right_eq_some] at typed
      obtain ⟨arity, typed⟩ := typed
      have exponent := (operandsAllowed_two ..).mp allowed
      obtain ⟨entry, made⟩ : ∃ entry, binaryEntry op index first second = .ok entry := by
        by_cases logical : op = .and ∨ op = .or
        · simp only [if_pos logical, Option.ite_none_right_eq_some] at typed
          simp only [binaryEntry, if_pos logical, bind_ok, pure_ok, requireType_ok, unit_exists]
          exact ⟨_, typed.1.1, typed.1.2, rfl⟩
        · simp only [if_neg logical, Option.ite_none_right_eq_some] at typed
          simp only [binaryEntry, if_neg logical, bind_ok, pure_ok, requireType_ok, throwIf_ok, unit_exists]
          refine ⟨_, typed.1.1, typed.1.2, fun pow => ?_, rfl⟩
          have some := exponent pow.1
          simp [TypedStackEntry.constant?, pow.2] at some
      refine ⟨entry, ?_⟩
      simp only [resultEntry, arity, List.reverse_cons, List.reverse_nil, List.nil_append,
        List.cons_append, made, bind_ok, pure_ok]
      exact ⟨entry, rfl, rfl⟩
    · simp only [List.map_cons, List.map_nil, AnalyticOp.resultType] at typed
      have arity : op.arity = 3 := by
        rcases eq_or_ne op .select with rfl | notSelect
        · rfl
        · rw [if_neg notSelect] at typed
          rcases eq_or_ne op .between with rfl | notBetween
          · rfl
          · rw [if_neg notBetween] at typed
            cases typed
      obtain ⟨entry, made⟩ : ∃ entry, ternaryEntry op index first second third = .ok entry := by
        by_cases select : op = .select
        · subst select
          simp only [if_true, Option.ite_none_right_eq_some] at typed
          simp only [ternaryEntry, if_true, selectEntry, bind_ok, pure_ok, requireType_ok, throwIf_ok, unit_exists, not_not]
          exact ⟨_, typed.1.1, typed.1.2, rfl⟩
        · simp only [if_neg select, Option.ite_none_right_eq_some] at typed
          obtain ⟨rfl, ⟨value, lower, upper⟩, -⟩ := typed
          have ordered := (operandsAllowed_between ..).mp allowed
          simp only [ternaryEntry, reduceCtorEq, if_false, betweenEntry, bind_ok, pure_ok, requireType_ok, throwIf_ok,
            unit_exists]
          refine ⟨_, value, lower, upper, fun literals => ?_, rfl⟩
          have fine := ordered second.literalValue third.literalValue (by simp [TypedStackEntry.constant?, literals.1])
            (by simp [TypedStackEntry.constant?, literals.2.1])
          rw [literals.2.2] at fine
          cases fine
      refine ⟨entry, ?_⟩
      simp only [resultEntry, arity, List.reverse_cons, List.reverse_nil, List.nil_append,
        List.cons_append, made, bind_ok, pure_ok]
      exact ⟨entry, rfl, rfl⟩
    · simp [AnalyticOp.resultType] at typed
  obtain ⟨others, same, results⟩ := resultEntry_results ran
  obtain rfl := List.reverse_injective (List.append_cancel_right same)
  exact ⟨entry, ran, results⟩

omit [AnalyticReal R] in
theorem types?_of_summaries
    (summaries : List.Forall₂ Summarises entries args) : types? args = some (entries.map TypedStackEntry.type) := by
  rw [types?_eq, List.forall₂_map_right_iff]
  exact summaries.flip.imp fun _ _ summary => summary.type

theorem TypedStackEntry.Results.summarises {op : AnalyticOp} {literal : R}
    (summaries : List.Forall₂ Summarises entries args) (results : Results ⟨op, literal⟩ entries entry) :
    Summarises entry (.node op literal args) := by
  have deep : depthOver entries = depthAll args + 1 := by
    rw [depthOver, Nat.add_right_cancel_iff]
    clear results
    induction summaries with
    | nil => rfl
    | cons head _ ih => rw [List.map_cons, List.foldr_cons, ih, depthAll, head.depth]
  exact ⟨by rw [type?, types?_of_summaries summaries]; exact results.type, results.depth.trans deep, results.constant⟩

omit [AnalyticReal R] in
theorem constants_eq (summaries : List.Forall₂ Summarises entries args) :
    entries.map TypedStackEntry.constant? = args.map AnalyticNode.constant? := by
  induction summaries with
  | nil => rfl
  | cons head _ ih => rw [List.map_cons, List.map_cons, ih, head.constant]

end

section
variable [AnalyticReal R] {limits : AnalyticLimits}

/-- A tree that the compiler takes. -/
structure Compilable (limits : AnalyticLimits) (node : AnalyticNode R) : Prop where
  literals : node.Everywhere LiteralAllowed
  constants : node.Everywhere ConstantsAllowed
  depth : node.depth ≤ limits.maxDepth

/-- The stack summarises a forest whose tokens have been read. -/
structure Reads (limits : AnalyticLimits) (done : List (AnalyticToken R)) (forest : List (AnalyticNode R))
    (entries : List (TypedStackEntry R)) : Prop where
  summaries : List.Forall₂ Summarises entries forest
  code : tokensAll forest = done
  compilable : ∀ node ∈ forest, Compilable limits node
  room : stackNeedAll forest ≤ limits.maxStack

theorem reads_token {token : AnalyticToken R} {done : List (AnalyticToken R)} {forest : List (AnalyticNode R)}
    {state next : CompileState R} (reads : Reads limits done forest entries) (stack : state.stack = entries.reverse)
    (ran : compileToken limits state token = .ok next) :
    ∃ grown entries, Reads limits (done ++ [token]) grown entries ∧ next.stack = entries.reverse := by
  simp only [compileToken, bind_ok, throwIf_ok, unit_exists, pure_ok, not_le, ge_iff_le, gt_iff_lt, not_lt] at ran
  obtain ⟨literal, ⟨entry, rest⟩, made, deep, room, rfl⟩ := ran
  obtain ⟨args, split, results⟩ := resultEntry_results made
  obtain rfl : entries = rest.reverse ++ args := by
    rw [← List.reverse_inj, ← stack, split, List.reverse_append, List.reverse_reverse]
  have summaries := reads.summaries
  have flipped := summaries.flip
  have front := (List.forall₂_take_append _ _ _ flipped).flip
  have back := (List.forall₂_drop_append _ _ _ flipped).flip
  have whole := List.take_append_drop rest.reverse.length forest
  have compilable := reads.compilable
  have need := reads.room
  have code := reads.code
  rw [← whole] at compilable need code
  rw [← Nat.zero_add (stackNeedAll _), stackNeedAll_append] at need
  rw [List.forall_mem_append] at compilable
  have summary := results.summarises back
  have count : (forest.take rest.reverse.length).length = rest.length := by rw [← front.length_eq, List.length_reverse]
  refine ⟨forest.take rest.reverse.length ++ [.node token.op token.literal (forest.drop rest.reverse.length)],
    rest.reverse ++ [entry], ⟨List.rel_append front (.cons summary .nil), ?_, ?_, ?_⟩, by simp⟩
  · rw [← code, tokensAll_append, tokensAll_append, tokensAll, tokensAll, tokens, List.append_nil, List.append_assoc]
  · rw [List.forall_mem_append, List.forall_mem_singleton]
    refine ⟨compilable.1, ⟨⟨requireLiteral_ok.mp literal, ?_⟩, ⟨?_, ?_⟩, by rw [← summary.depth]; exact deep⟩⟩
    · rw [everywhereAll_iff]
      exact fun node listed => (compilable.2 node listed).literals
    · have allowed := results.operands
      rwa [constants_eq back] at allowed
    · rw [everywhereAll_iff]
      exact fun node listed => (compilable.2 node listed).constants
  · rw [← Nat.zero_add (stackNeedAll _), stackNeedAll_append]
    simp only at room
    simp only [stackNeedAll, stackNeed]
    omega

mutual

theorem compiles_tree {type : AnalyticValueType} {state : CompileState R} (root : AnalyticNode R)
    (typed : root.type? = some type) (compilable : Compilable limits root)
    (room : state.stack.length + root.stackNeed ≤ limits.maxStack) :
    ∃ after entry, root.tokens.foldlM (compileToken limits) state = .ok after ∧ after.stack = entry :: state.stack ∧
      Summarises entry root :=
  match root with
  | .node op literal args => by
    rw [type?, Option.bind_eq_some_iff] at typed
    obtain ⟨types, argumentTypes, result⟩ := typed
    obtain ⟨⟨literalAllowed, literals⟩, ⟨constantsAllowed, constants⟩, deep⟩ := compilable
    rw [everywhereAll_iff] at literals constants
    rw [stackNeed] at room
    have depths : ∀ node ∈ args, node.depth ≤ limits.maxDepth :=
      (depthAll_le args).mp (by rw [AnalyticNode.depth] at deep; omega)
    obtain ⟨middle, entries, ran, stack, summaries⟩ := compiles_forest args argumentTypes
      (fun node listed => ⟨literals node listed, constants node listed, depths node listed⟩)
      (by omega : state.stack.length + stackNeedAll args ≤ limits.maxStack)
    obtain rfl := Option.some.inj (argumentTypes.symm.trans (types?_of_summaries summaries))
    rw [ConstantsAllowed, ← constants_eq summaries] at constantsAllowed
    obtain ⟨entry, made, results⟩ := @resultEntry_exists _ _ ⟨op, literal⟩ middle.instructions.length state.stack _ _ result
      constantsAllowed
    have summary := results.summarises summaries
    obtain ⟨after, ranToken, stackAfter⟩ : ∃ after, compileToken limits middle ⟨op, literal⟩ = .ok after ∧
        after.stack = entry :: state.stack := by
      rw [← stack] at made
      simp only [compileToken, bind_ok, throwIf_ok, unit_exists, pure_ok, not_lt, not_le, gt_iff_lt, ge_iff_le]
      exact ⟨_, ⟨requireLiteral_ok.mpr literalAllowed, (entry, state.stack), made, by rw [summary.depth]; exact deep,
        by simp only; omega, rfl⟩, rfl⟩
    refine ⟨after, entry, ?_, stackAfter, summary⟩
    rw [tokens, List.foldlM_append, ran]
    simp only [List.foldlM_cons, List.foldlM_nil, bind_ok, pure_ok]
    exact ⟨middle, rfl, after, ranToken, rfl⟩

theorem compiles_forest {types : List AnalyticValueType} {state : CompileState R} (nodes : List (AnalyticNode R))
    (typed : types? nodes = some types) (compilable : ∀ node ∈ nodes, Compilable limits node)
    (room : state.stack.length + stackNeedAll nodes ≤ limits.maxStack) :
    ∃ after entries, (tokensAll nodes).foldlM (compileToken limits) state = .ok after ∧
      after.stack = entries.reverse ++ state.stack ∧ List.Forall₂ Summarises entries nodes :=
  match nodes with
  | [] => ⟨state, [], rfl, rfl, .nil⟩
  | first :: rest => by
    simp only [types?, Option.bind_eq_some_iff, Option.map_eq_some_iff] at typed
    obtain ⟨type, firstTyped, later, laterTyped, rfl⟩ := typed
    rw [List.forall_mem_cons] at compilable
    rw [stackNeedAll] at room
    obtain ⟨middle, entry, ranFirst, stackFirst, summary⟩ := compiles_tree first firstTyped compilable.1
      (by omega : state.stack.length + first.stackNeed ≤ limits.maxStack)
    obtain ⟨after, entries, ranRest, stackRest, summaries⟩ := compiles_forest rest laterTyped compilable.2
      (by rw [stackFirst, List.length_cons]; omega : middle.stack.length + stackNeedAll rest ≤ limits.maxStack)
    refine ⟨after, entry :: entries, ?_, ?_, .cons summary summaries⟩
    · rw [tokensAll, List.foldlM_append, ranFirst]
      exact ranRest
    · rw [stackRest, stackFirst, List.reverse_cons, List.append_assoc, List.singleton_append]

end

/-- The compiler takes the postfix forms of typed trees whose literals and constants are allowed,
within its limits, and nothing else. -/
theorem compileAnalyticPostfix_accepts (tokens : List (AnalyticToken R)) (limits : AnalyticLimits) :
    (∃ program, compileAnalyticPostfix tokens limits = .ok program) ↔
      limits.validate = .ok () ∧ tokens.length ≤ limits.maxNodes ∧
        ∃ root : AnalyticNode R, root.tokens = tokens ∧ root.type?.isSome = true ∧ Compilable limits root ∧
          root.stackNeed ≤ limits.maxStack := by
  simp only [compileAnalyticPostfix, bind_ok, throwIf_ok, unit_exists, not_lt, gt_iff_lt]
  constructor
  · rintro ⟨program, valid, -, few, state, ran, made⟩
    have start : ∃ forest entries, Reads limits [] forest entries ∧ ({} : CompileState R).stack = entries.reverse :=
      ⟨[], [], ⟨.nil, rfl, by simp, Nat.zero_le _⟩, rfl⟩
    obtain ⟨forest, entries, reads, stack⟩ : ∃ forest entries, Reads limits tokens forest entries ∧
        state.stack = entries.reverse := by
      refine foldlM_ok_invariant (fun done state => ∃ forest entries, Reads limits done forest entries ∧
        state.stack = entries.reverse) ?_ tokens {} state [] start ran
      intro done token state next before ran
      obtain ⟨forest, entries, reads, stack⟩ := before
      exact reads_token reads stack ran
    split at made
    · rename_i result single
      obtain rfl : entries = [result] := by rw [← List.reverse_inj, ← stack, single]; rfl
      obtain ⟨root, _, summary, last, rfl⟩ := List.forall₂_cons_left_iff.mp reads.summaries
      cases last
      have code := reads.code
      have room := reads.room
      simp only [tokensAll, List.append_nil, stackNeedAll] at code room
      exact ⟨valid, few, root, code, by rw [summary.type]; rfl, reads.compilable root List.mem_cons_self, by omega⟩
    · cases made
  · rintro ⟨valid, few, root, rfl, typed, compilable, room⟩
    obtain ⟨type, typed⟩ := Option.isSome_iff_exists.mp typed
    obtain ⟨after, entry, ran, stack, -⟩ := compiles_tree root typed compilable
      (by simpa using room : ({} : CompileState R).stack.length + root.stackNeed ≤ limits.maxStack)
    have some : root.tokens ≠ [] := by
      obtain ⟨op, literal, args⟩ := root
      simp [tokens]
    refine ⟨⟨after.instructions, after.literals, after.maximumStack, after.requiredDimension, entry.type⟩, valid, some, few,
      after, ran, ?_⟩
    rw [stack]
    exact rfl

end

/-- `x ** x`. -/
def powerOfX : AnalyticNode (Option ℚ) := .node .pow (some 0) [.node .x (some 0) [], .node .x (some 0) []]

/-- The compiler refuses a typed tree within the limits whose exponent is no constant. -/
theorem compileAnalyticPostfix_refuses_power :
    ¬∀ (tokens : List (AnalyticToken (Option ℚ))) (limits : AnalyticLimits), limits.validate = .ok () →
      ((∃ program, compileAnalyticPostfix tokens limits = .ok program) ↔ tokens.length ≤ limits.maxNodes ∧
        ∃ root : AnalyticNode (Option ℚ), root.tokens = tokens ∧ root.type?.isSome = true ∧
          root.Everywhere LiteralAllowed ∧ root.depth ≤ limits.maxDepth ∧ root.stackNeed ≤ limits.maxStack) := by
  intro accepts
  obtain ⟨program, compiled⟩ := (accepts powerOfX.tokens {} rfl).mpr ⟨by decide, powerOfX, rfl, by decide,
    ⟨rfl, ⟨rfl, trivial⟩, ⟨rfl, trivial⟩, trivial⟩, by decide, by decide⟩
  have failed : (compileAnalyticPostfix powerOfX.tokens {}).isOk = false := by decide +kernel
  rw [compiled] at failed
  cases failed

end Pops
