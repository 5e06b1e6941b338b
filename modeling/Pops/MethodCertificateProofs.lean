import Mathlib
import Pops.MethodCertificate

/-!
A certified graph takes the step of its tableau, provided its rate nodes evaluate one
operator and no node reads what another one has overwritten. The certifier itself looks at
neither.
-/
namespace Pops.MethodCertificate

variable {Data : Type}

section Meaning
variable {K V : Type} [Field K] [AddCommGroup V] [Module K V] {apply : Interpretation Data K V} {y : V} {dt : K}

variable {node : Node Data} {storage : Node Data → Storage} {env : ℕ → V} {graph : ProgramGraph Data}
  {stateId : ℕ} {rates : List ℕ}

theorem nodeValue_congr {env other : ℕ → V}
    (same : ∀ reference ∈ node.references, env reference = other reference) :
    nodeValue apply y dt env node = nodeValue apply y dt other node := by
  have mapped : node.references.map env = node.references.map other := List.map_congr_left same
  unfold nodeValue
  split
  · rfl
  · rename_i coeffs _ _
    apply congrArg List.sum
    have zipped : ∀ (coeffs : List DtPolynomial) (references : List ℕ),
        (∀ reference ∈ references, env reference = other reference) →
        List.zipWith (fun coefficient reference => DtPolynomial.eval coefficient dt • env reference)
          coeffs references =
        List.zipWith (fun coefficient reference => DtPolynomial.eval coefficient dt • other reference)
          coeffs references := by
      intro coeffs references
      induction references generalizing coeffs with
      | nil => intro _; simp
      | cons reference rest ih =>
        intro same
        cases coeffs with
        | nil => rfl
        | cons coefficient coeffs =>
          rw [List.zipWith_cons_cons, List.zipWith_cons_cons, same reference (by simp),
            ih coeffs (fun reference listed => same reference (by simp [listed]))]
    exact zipped coeffs node.references same
  · rw [mapped]

private theorem evaluate_step (rest available : List (Node Data)) (env : ℕ → V)
    (valid : validNodes available rest = true) :
    let final := rest.foldl (fun env node =>
      Function.update env node.nodeId (nodeValue apply y dt env node)) env
    (∀ source ∈ available, final source.nodeId = env source.nodeId) ∧
      ∀ node ∈ rest, final node.nodeId = nodeValue apply y dt final node := by
  induction rest generalizing available env with
  | nil => exact ⟨fun _ _ => rfl, fun _ listed => absurd listed (by simp)⟩
  | cons node rest ih =>
    simp only [validNodes, Bool.and_eq_true, Bool.not_eq_true', List.any_eq_false, beq_iff_eq,
      List.all_eq_true, List.any_eq_true] at valid
    obtain ⟨⟨fresh, earlier⟩, later⟩ := valid
    obtain ⟨kept, computed⟩ := ih (available ++ [node])
      (Function.update env node.nodeId (nodeValue apply y dt env node)) later
    have untouched : ∀ source ∈ available, Function.update env node.nodeId (nodeValue apply y dt env node)
        source.nodeId = env source.nodeId :=
      fun source listed => Function.update_of_ne (fresh source listed) _ _
    have final_eq : ∀ source ∈ available, (rest.foldl (fun env node =>
        Function.update env node.nodeId (nodeValue apply y dt env node))
        (Function.update env node.nodeId (nodeValue apply y dt env node))) source.nodeId = env source.nodeId :=
      fun source listed => (kept source (by simp [listed])).trans (untouched source listed)
    refine ⟨final_eq, fun other listed => ?_⟩
    rcases List.mem_cons.mp listed with rfl | listed
    · rw [List.foldl_cons, kept other (by simp), Function.update_self]
      apply nodeValue_congr
      intro reference named
      obtain ⟨source, present, same, _⟩ := earlier reference named
      rw [← same]
      exact (final_eq source present).symm
    · exact computed other listed

theorem evaluate_node (graph : ProgramGraph Data) (listed : node ∈ graph.nodes) :
    evaluate apply y dt graph.nodes node.nodeId = nodeValue apply y dt (evaluate apply y dt graph.nodes) node :=
  (evaluate_step graph.nodes [] (fun _ => 0) graph.valid).2 node listed

/-- The buffers of the values so far, and the value each buffer holds. -/
structure Layout where
  place : ℕ → Buffer
  owner : Buffer → Option ℕ

def layoutStep (storage : Node Data → Storage) (layout : Layout) (node : Node Data) : Layout where
  place := Function.update layout.place node.nodeId (node.buffer storage layout.place)
  owner := Function.update layout.owner (node.buffer storage layout.place) (some node.nodeId)

def layoutOf (storage : Node Data → Storage) (nodes : List (Node Data)) : Layout :=
  nodes.foldl (layoutStep storage) ⟨Buffer.value, fun _ => none⟩

/-- The buffer of a value has not been overwritten. -/
def Layout.Current (layout : Layout) (id : ℕ) : Prop := layout.owner (layout.place id) = some id

/-- Each of the nodes reads buffers that still hold its references. -/
def NodesCurrent (storage : Node Data → Storage) : Layout → List (Node Data) → Prop
  | _, [] => True
  | layout, node :: rest =>
    (∀ reference ∈ node.references, layout.Current reference) ∧ NodesCurrent storage (layoutStep storage layout node) rest

/-- All nodes of the graph do, and so does its commit at the end. -/
structure ReadsCurrent (storage : Node Data → Storage) (graph : ProgramGraph Data) : Prop where
  reads : NodesCurrent storage ⟨Buffer.value, fun _ => none⟩ graph.nodes
  commits : ∀ commit ∈ graph.nodes, isCommit commit = true → ∀ reference ∈ commit.references,
    (layoutOf storage graph.nodes).Current reference

/-- The buffers hold the values of their owners. -/
structure Agrees (memory : Memory V) (layout : Layout) (env : ℕ → V) (available : List (Node Data)) : Prop where
  place : memory.place = layout.place
  store : ∀ buffer id, layout.owner buffer = some id → memory.store buffer = env id
  owned : ∀ buffer id, layout.owner buffer = some id → ∃ source ∈ available, source.nodeId = id

theorem Agrees.step {memory : Memory V} {layout : Layout} {available : List (Node Data)}
    (agrees : Agrees memory layout env available) (fresh : ∀ source ∈ available, source.nodeId ≠ node.nodeId)
    (current : ∀ reference ∈ node.references, layout.Current reference) :
    Agrees (runNode storage apply y dt memory node) (layoutStep storage layout node)
      (Function.update env node.nodeId (nodeValue apply y dt env node)) (available ++ [node]) := by
  have value : nodeValue apply y dt memory.read node = nodeValue apply y dt env node := by
    apply nodeValue_congr
    intro reference listed
    rw [Memory.read, agrees.place]
    exact agrees.store _ _ (current reference listed)
  refine ⟨by simp only [runNode, layoutStep, agrees.place], fun buffer id owner => ?_, fun buffer id owner => ?_⟩
  · simp only [runNode, layoutStep, agrees.place, value] at owner ⊢
    by_cases here : buffer = node.buffer storage layout.place
    · subst here
      rw [Function.update_self] at owner ⊢
      cases owner
      rw [Function.update_self]
    · rw [Function.update_of_ne here] at owner ⊢
      obtain ⟨source, listed, same⟩ := agrees.owned buffer id owner
      rw [Function.update_of_ne (same ▸ fresh source listed), agrees.store buffer id owner]
  · simp only [layoutStep] at owner
    by_cases here : buffer = node.buffer storage layout.place
    · rw [here, Function.update_self] at owner
      cases owner
      exact ⟨node, by simp, rfl⟩
    · rw [Function.update_of_ne here] at owner
      obtain ⟨source, listed, same⟩ := agrees.owned buffer id owner
      exact ⟨source, by simp [listed], same⟩

theorem Agrees.nodes (rest available : List (Node Data)) {memory : Memory V} {layout : Layout}
    (agrees : Agrees memory layout env available) (valid : validNodes available rest = true)
    (current : NodesCurrent storage layout rest) :
    Agrees (rest.foldl (runNode storage apply y dt) memory) (rest.foldl (layoutStep storage) layout)
      (rest.foldl (fun env node => Function.update env node.nodeId (nodeValue apply y dt env node)) env)
      (available ++ rest) := by
  induction rest generalizing available memory layout env with
  | nil => simpa using agrees
  | cons node rest ih =>
    simp only [validNodes, Bool.and_eq_true, Bool.not_eq_true', List.any_eq_false, beq_iff_eq] at valid
    have next : Agrees (runNode storage apply y dt memory node) (layoutStep storage layout node)
        (Function.update env node.nodeId (nodeValue apply y dt env node)) (available ++ [node]) :=
      agrees.step valid.1.1 current.1
    simpa using ih (available ++ [node]) next valid.2 current.2

/-- Where only current buffers are read, the commit is that of the graph's values. -/
theorem committed_eq (current : ReadsCurrent storage graph) {commit : Node Data} {reference : ℕ}
    (commits : graph.nodes.filter isCommit = [commit]) (read : commit.references.head? = some reference) :
    committed storage apply graph y dt = some (evaluate apply y dt graph.nodes reference) := by
  have start : Agrees (⟨Buffer.value, fun _ => 0⟩ : Memory V) ⟨Buffer.value, fun _ => none⟩ (fun _ => 0)
      ([] : List (Node Data)) := ⟨rfl, fun _ _ owner => absurd owner (by simp), fun _ _ owner => absurd owner (by simp)⟩
  have agrees : Agrees (runNodes storage apply y dt graph.nodes) (layoutOf storage graph.nodes)
      (evaluate apply y dt graph.nodes) ([] ++ graph.nodes) := start.nodes graph.nodes [] graph.valid current.reads
  obtain ⟨listed, write⟩ := List.mem_filter.mp (commits ▸ List.mem_singleton_self commit)
  have kept := current.commits commit listed write reference (List.mem_of_mem_head? read)
  rw [committed, commits, List.head?_cons, Option.bind_some, read, Option.map_some, Memory.read, agrees.place]
  exact congrArg some (agrees.store _ _ kept)

theorem DtPolynomial.only_cases {polynomial : DtPolynomial} {power : ℕ} (only : polynomial.only power = true) :
    polynomial.terms = [] ∨ ∃ c, polynomial.terms = [(power, c)] := by
  simp only [DtPolynomial.only, List.all_eq_true, beq_iff_eq] at only
  have distinct := polynomial.distinct
  cases listed : polynomial.terms with
  | nil => exact .inl rfl
  | cons first rest =>
    rw [listed] at only distinct
    right
    cases rest with
    | nil => exact ⟨first.2, by rw [← only first (by simp)]⟩
    | cons second rest =>
      have same := (only first (by simp)).trans (only second (by simp)).symm
      simp [same] at distinct

theorem DtPolynomial.eval_only {polynomial : DtPolynomial} {power : ℕ} (only : polynomial.only power = true) :
    polynomial.eval dt = (polynomial.coefficient power : K) * dt ^ power := by
  rcases DtPolynomial.only_cases only with none | ⟨c, one⟩
  · simp [DtPolynomial.eval, DtPolynomial.coefficient, none]
  · simp [DtPolynomial.eval, DtPolynomial.coefficient, one]

/-- A combination of values with rational weights. -/
def weighted (K : Type) {V : Type} [Field K] [AddCommGroup V] [Module K V] (row : List ℚ) (values : List V) : V :=
  (List.zipWith (fun (a : ℚ) value => (a : K) • value) row values).sum

theorem weighted_zeros (count : ℕ) (values : List V) : weighted K (List.replicate count 0) values = 0 := by
  induction count generalizing values with
  | zero => simp [weighted]
  | succ count ih =>
    cases values with
    | nil => simp [weighted]
    | cons value values =>
      have rest := ih values
      unfold weighted at rest ⊢
      rw [List.replicate_succ, List.zipWith_cons_cons, List.sum_cons, rest]
      simp

theorem weighted_dense (stages : ℕ) (row : List ℚ) (values : List V) :
    weighted K (dense stages row) values = weighted K row values := by
  unfold dense
  generalize stages - row.length = count
  induction row generalizing values with
  | nil => rw [List.nil_append, weighted_zeros]; simp [weighted]
  | cons a row ih =>
    cases values with
    | nil => simp [weighted]
    | cons value values =>
      have rest := ih values
      unfold weighted at rest ⊢
      rw [List.cons_append, List.zipWith_cons_cons, List.zipWith_cons_cons, List.sum_cons, List.sum_cons, rest]

variable [CharZero K]

theorem weighted_modify {row : List ℚ} {values : List V} {index : ℕ} (c : ℚ) {value : V}
    (inside : index < row.length) (read : values[index]? = some value) :
    weighted K (row.modify index (· + c)) values = weighted K row values + (c : K) • value := by
  induction row generalizing values index with
  | nil => simp at inside
  | cons a row ih =>
    cases values with
    | nil => simp at read
    | cons first values =>
      cases index with
      | zero =>
        simp only [List.getElem?_cons_zero, Option.some.injEq] at read
        subst read
        simp only [weighted, List.modify_zero_cons, List.zipWith_cons_cons, List.sum_cons, Rat.cast_add]
        module
      | succ index =>
        have rest := ih (by simpa using inside) (by simpa using read)
        simp only [weighted] at rest ⊢
        rw [List.modify_succ_cons, List.zipWith_cons_cons, List.zipWith_cons_cons, List.sum_cons, List.sum_cons, rest]
        module

/-- What the accumulated coefficients of an affine combination stand for. -/
def affineValue (y : V) (dt : K) (rates : List V) (coefficients : ℚ × List ℚ) : V :=
  (coefficients.1 : K) • y + dt • weighted K coefficients.2 rates

variable (dt) in
theorem affineTerm_ok {stage : ℕ} {before after : ℚ × List ℚ} {term : ℕ × DtPolynomial} (base : env stateId = y)
    (length : before.2.length = stage) (ran : affineTerm stateId rates stage before term = .ok after) :
    after.2.length = stage ∧ affineValue y dt (rates.map env) after =
      affineValue y dt (rates.map env) before + term.2.eval dt • env term.1 := by
  unfold affineTerm at ran
  by_cases state : term.1 = stateId
  · rw [if_pos state] at ran
    by_cases constant : term.2.only 0
    · rw [if_pos constant, Except.ok.injEq] at ran
      subst ran
      refine ⟨length, ?_⟩
      rw [DtPolynomial.eval_only constant, pow_zero, mul_one, state, base]
      simp only [affineValue, Rat.cast_add]
      module
    · rw [if_neg constant] at ran
      cases ran
  · rw [if_neg state] at ran
    by_cases previous : rates.idxOf term.1 < rates.length ∧ rates.idxOf term.1 < stage ∧ term.2.only 1 = true
    · rw [if_pos previous, Except.ok.injEq] at ran
      subst ran
      obtain ⟨listed, earlier, linear⟩ := previous
      have read : (rates.map env)[rates.idxOf term.1]? = some (env term.1) := by
        rw [List.getElem?_map, List.getElem?_eq_getElem listed, List.getElem_idxOf listed]
        rfl
      refine ⟨by rw [List.length_modify, length], ?_⟩
      rw [DtPolynomial.eval_only linear, pow_one]
      simp only [affineValue]
      rw [weighted_modify (K := K) (term.2.coefficient 1) (by rw [length]; exact earlier) read]
      module
    · rw [if_neg previous] at ran
      cases ran

variable (dt) in
private theorem affine_fold {stage : ℕ} (base : env stateId = y) (references : List ℕ) (coeffs : List DtPolynomial)
    (before after : ℚ × List ℚ) (length : before.2.length = stage)
    (ran : (references.zip coeffs).foldlM (affineTerm stateId rates stage) before = .ok after) :
    after.2.length = stage ∧ affineValue y dt (rates.map env) after =
      affineValue y dt (rates.map env) before +
        (List.zipWith (fun coefficient reference => DtPolynomial.eval coefficient dt • env reference)
          coeffs references).sum := by
  induction references generalizing coeffs before with
  | nil =>
    simp only [List.zip_nil_left, List.foldlM_nil, pure_ok] at ran
    subst ran
    simp [length]
  | cons reference references ih =>
    cases coeffs with
    | nil =>
      simp only [List.zip_nil_right, List.foldlM_nil, pure_ok] at ran
      subst ran
      simp [length]
    | cons coefficient coeffs =>
      rw [List.zip_cons_cons, List.foldlM_cons, bind_ok] at ran
      obtain ⟨next, first, rest⟩ := ran
      obtain ⟨kept, added⟩ := affineTerm_ok dt base length first
      obtain ⟨final, summed⟩ := ih coeffs next kept rest
      refine ⟨final, ?_⟩
      rw [summed, added, List.zipWith_cons_cons, List.sum_cons, add_assoc]

theorem affine_ok {nodeId stage : ℕ} {coefficients : ℚ × List ℚ}
    (base : evaluate apply y dt graph.nodes stateId = y)
    (ran : affine graph stateId rates nodeId stage = .ok coefficients) :
    coefficients.2.length = stage ∧ evaluate apply y dt graph.nodes nodeId =
      affineValue y dt (rates.map (evaluate apply y dt graph.nodes)) coefficients := by
  unfold affine at ran
  by_cases state : nodeId = stateId
  · rw [if_pos state, Except.ok.injEq] at ran
    subst ran
    refine ⟨List.length_replicate, ?_⟩
    rw [state, base, affineValue, weighted_zeros]
    simp
  · rw [if_neg state] at ran
    cases found : graph.nodes.find? (·.nodeId == nodeId) with
    | none => simp [found] at ran
    | some node =>
      have same : node.nodeId = nodeId := by simpa using List.find?_some found
      have listed := List.mem_of_find?_eq_some found
      simp only [found] at ran
      split at ran
      · rename_i coeffs attrs kind
        cases coeffs with
        | none => cases ran
        | some coeffs =>
          simp only [bind_ok] at ran
          obtain ⟨result, folded, guard⟩ := ran
          split at guard
          · rw [pure_ok] at guard
            subst guard
            obtain ⟨length, summed⟩ := affine_fold dt base node.references coeffs _ result
              (List.length_replicate) folded
            refine ⟨length, ?_⟩
            rw [← same, evaluate_node graph listed, summed, nodeValue]
            simp only [kind]
            simp [affineValue, weighted_zeros]
          · cases guard
      · cases ran

/-- One step of a tableau for `y' = f y`. -/
def IsStep (tableau : Tableau) (f : V → V) (y : V) (dt : K) (y' : V) : Prop :=
  ∃ k : List V, k = tableau.A.map (fun row => f (y + dt • weighted K row k)) ∧
    y' = y + dt • weighted K tableau.b k

/-- Every rate node of the graph evaluates `f` at the state it reads first. -/
def Evaluates (apply : Interpretation Data K V) (graph : ProgramGraph Data) (f : V → V) : Prop :=
  ∀ y dt, ∀ node ∈ graph.nodes, isExplicitRateCall node = true → ∀ state, node.references.head? = some state →
    evaluate apply y dt graph.nodes node.nodeId = f (evaluate apply y dt graph.nodes state)

theorem mem_filter_eq {nodes : List (Node Data)} {test : Node Data → Bool}
    (only : nodes.filter test = [node]) : node ∈ nodes ∧ test node = true :=
  List.mem_filter.mp (only ▸ List.mem_singleton_self node)

omit [AddCommGroup V] in
theorem firstReference_ok {reference : ℕ} (read : firstReference node = .ok reference) :
    node.references.head? = some reference := by
  unfold firstReference at read
  cases listed : node.references with
  | nil => rw [listed] at read; cases read
  | cons first rest => rw [listed] at read; cases read; rfl

variable (dt) in
theorem stageRow_ok {stage : Node Data × ℕ} {row : List ℚ} (base : evaluate apply y dt graph.nodes stateId = y)
    (ran : stageRow graph stateId rates stage = .ok row) :
    ∃ state, stage.1.references.head? = some state ∧ evaluate apply y dt graph.nodes state =
      y + dt • weighted K row (rates.map (evaluate apply y dt graph.nodes)) := by
  simp only [stageRow, bind_ok] at ran
  obtain ⟨state, read, ⟨one, found⟩, extracted, guard⟩ := ran
  split at guard
  · cases guard
  · rename_i unit
    rw [pure_ok] at guard
    obtain ⟨_, value⟩ := affine_ok base extracted
    refine ⟨state, firstReference_ok read, ?_⟩
    rw [value, affineValue, not_not.mp unit, guard]
    simp

variable (dt) in
theorem reconstruct_ok {state commit : Node Data} {rhs : List (Node Data)} {abscissae b : List ℚ}
    {A : List (List ℚ)} (base : evaluate apply y dt graph.nodes state.nodeId = y)
    (ran : reconstruct graph state commit rhs abscissae = .ok (A, b)) :
    List.Forall₂ (fun (node : Node Data) row => ∃ read, node.references.head? = some read ∧
        evaluate apply y dt graph.nodes read =
          y + dt • weighted K row (rhs.map fun node => evaluate apply y dt graph.nodes node.nodeId)) rhs A ∧
      ∃ last, commit.references.head? = some last ∧ evaluate apply y dt graph.nodes last =
        y + dt • weighted K b (rhs.map fun node => evaluate apply y dt graph.nodes node.nodeId) := by
  simp only [reconstruct, bind_ok] at ran
  obtain ⟨rows, mapped, last, read, ⟨one, weights⟩, extracted, guard⟩ := ran
  split at guard
  · cases guard
  · rename_i unit
    split at guard
    · cases guard
    · rw [pure_ok, Prod.mk.injEq] at guard
      obtain ⟨rfl, rfl⟩ := guard
      have mapped := mapM_ok.mp mapped
      have identifiers : (rhs.map (·.nodeId)).map (evaluate apply y dt graph.nodes) =
          rhs.map fun node => evaluate apply y dt graph.nodes node.nodeId := List.map_map
      constructor
      · rw [show rhs = rhs.zipIdx.map Prod.fst from (List.zipIdx_map_fst 0 rhs).symm, List.forall₂_map_left_iff]
        apply mapped.imp
        intro stage row ran
        obtain ⟨read, first, value⟩ := stageRow_ok dt base ran
        refine ⟨read, first, ?_⟩
        rw [value, identifiers, ← show rhs = rhs.zipIdx.map Prod.fst from (List.zipIdx_map_fst 0 rhs).symm]
      · obtain ⟨_, value⟩ := affine_ok base extracted
        refine ⟨last, firstReference_ok read, ?_⟩
        rw [value, affineValue, identifiers, show one = 1 by by_contra different; exact unit (.inl different)]
        simp

end Meaning

section Heun

private def coefficients (terms : List (ℕ × ℚ)) (distinct : (terms.map Prod.fst).Nodup) : DtPolynomial :=
  ⟨terms, distinct⟩

/-- Heun's method, with the operator of each of its two rate nodes; the stage is projected once it
has been read. -/
def heunNodes (first second : Bool) : List (Node Bool) :=
  let one := coefficients [(0, 1)] (List.nodup_singleton 0)
  let dt := coefficients [(1, 1)] (List.nodup_singleton 1)
  let half := coefficients [(1, 1 / 2)] (List.nodup_singleton 1)
  let start := Point.time ⟨0, 0⟩
  let stop := Point.time ⟨0, 1⟩
  [⟨0, .stateRead true, [], start⟩, ⟨1, .programValue "rhs" none first, [0], start⟩,
    ⟨2, .programValue "linear_combine" (some [one, dt]) true, [0, 1], stop⟩,
    ⟨3, .programValue "rhs" none second, [2], stop⟩, ⟨6, .programValue "project" none true, [2], stop⟩,
    ⟨4, .programValue "linear_combine" (some [one, half, half]) true, [0, 1, 3], stop⟩,
    ⟨5, .commit true, [4], stop⟩]

theorem heunNodes_valid (first second : Bool) : validNodes [] (heunNodes first second) = true := by
  cases first <;> cases second <;> decide

def heunGraph (first second : Bool) : ProgramGraph Bool := ⟨heunNodes first second, heunNodes_valid first second⟩

def heunTableau : Tableau := certificateFromCoefficients [[0, 0], [1, 0]] [1 / 2, 1 / 2] [0, 1]

theorem heunGraph_certified (first second : Bool) : ∃ certificate,
    certifyProgramGraph (heunGraph first second) = .ok certificate ∧ certificate.tableau = some heunTableau := by
  refine ⟨⟨some heunTableau, heunTableau.properties⟩, ?_, rfl⟩
  cases first <;> cases second <;> decide +kernel

/-- A projection works in place. -/
def projecting (node : Node Bool) : Storage :=
  match node.kind with
  | .programValue "project" _ _ => .inPlace
  | _ => .fresh

theorem heunGraph_current (first second : Bool) : ReadsCurrent projecting (heunGraph first second) := by
  constructor
  · simp [NodesCurrent, heunGraph, heunNodes, layoutStep, Node.buffer, projecting, Layout.Current, Function.update]
  · intro commit listed write reference read
    have last : commit.references = [4] := by
      simp only [heunGraph, heunNodes, List.mem_cons, List.not_mem_nil, or_false] at listed
      rcases listed with rfl | rfl | rfl | rfl | rfl | rfl | rfl
      all_goals first | rfl | exact absurd write (by simp [isCommit, Node.readable])
    rw [last, List.mem_singleton] at read
    subst read
    simp [heunGraph, heunNodes, layoutOf, layoutStep, Node.buffer, projecting, Layout.Current, Function.update]

/-- The operator of a node, when it has one: the identity, or no rate at all. -/
def identityOrNone : Interpretation Bool ℚ ℚ := fun node _ inputs =>
  match node.kind with
  | .programValue "rhs" _ true => inputs.headD 0
  | _ => 0

theorem heunGraph_evaluates : Evaluates identityOrNone (heunGraph true true) id := by
  intro y dt node listed rate state read
  rw [evaluate_node (heunGraph true true) listed]
  simp only [heunGraph, heunNodes, List.mem_cons, List.not_mem_nil, or_false] at listed
  rcases listed with rfl | rfl | rfl | rfl | rfl | rfl | rfl
  all_goals try (simp [isExplicitRateCall] at rate; done)
  all_goals
    cases read
    rfl

theorem mixed_committed (y dt : ℚ) :
    committed projecting identityOrNone (heunGraph true false) y dt = some (y + dt * (y / 2)) := by
  rw [committed_eq (heunGraph_current true false) rfl rfl]
  simp [heunGraph, heunNodes, evaluate, nodeValue, identityOrNone, DtPolynomial.eval, coefficients, Function.update]
  ring

end Heun

end Pops.MethodCertificate
