import Mathlib

/-!
The gate of selective history persistence, and the replay of the slots that a checkpoint drops.
What a native operation outside the affine vocabulary computes, and all of a runtime image but
its states, is any data.
-/
namespace Pops.HistoryReplay

/-- `CoeffPolynomial`: the powers of `dt` with their exact coefficients, zeros dropped. -/
abbrev CoeffPolynomial := List (ℕ × ℚ)

def CoeffPolynomial.at (coeff : CoeffPolynomial) (dt : ℚ) : ℚ := (coeff.map fun term => term.2 * dt ^ term.1).sum

/-- A `ProgramValue`. Values refer to each other by their number; `blocks` are the values of the
nested blocks of control flow, and `stateRef` is `state_ref` or the `state` attribute. -/
structure ProgramValue where
  op : String
  block : Option String
  stateRef : Option String
  history : String
  coeffs : List CoeffPolynomial
  scheduled : Bool
  nondeterministic : Bool
  inputs : List ℕ
  blocks : List ℕ

structure TimeState where
  block : String
  state : String
  clock : String

/-- `HistoryPersistence`: the slots that are stored, and whether it suits a depth. -/
structure HistoryPersistence where
  storedSlots : ℕ → List ℕ
  validateFor : ℕ → Bool

def HistoryPersistence.degenerateToDense (policy : HistoryPersistence) (depth : ℕ) : Bool :=
  (policy.storedSlots depth).length = depth

/-- A `Program`. A value is made of values made before it, a value at top level of such values,
and `_linear_combine` records one coefficient for each input. -/
structure Program where
  value : ℕ → ProgramValue
  values : List ℕ
  clock : String
  commits : String → Option ℕ
  histories : List (String × ℕ)
  persistence : List (String × ℕ × HistoryPersistence)
  /-- `_time_history_stores`: the names of the rings that `keep_history` declared. -/
  stores : List (TimeState × String)
  earlier : ∀ id, ∀ input ∈ (value id).inputs, input < id
  listed : ∀ id ∈ values, ∀ input ∈ (value id).inputs, input ∈ values
  committed : ∀ state id, commits state = some id → id ∈ values
  aligned : ∀ id, (value id).op = "linear_combine" → (value id).coeffs.length = (value id).inputs.length

def knownDeterministicOps : List String :=
  ["state", "history", "store_history", "linear_combine", "project", "solve_fields", "solve_fields_from_blocks",
    "solve_coupled_implicit", "rhs", "apply", "source", "linear_source", "coupled_rate", "coupled_rate_out", "divergence",
    "gradient", "laplacian", "apply_laplacian_coeff", "apply_in", "apply_out", "cell_compare", "scalar_field", "rhs_jacvec",
    "solve_linear", "solve_local_linear", "matrix_free_operator", "solve_outcome", "solve_outcome_component",
    "schur_coeffs", "schur_energy", "schur_reconstruct", "schur_explicit_flux", "schur_rhs", "cfl", "hmin",
    "max_wave_speed", "record_scalar", "record_balance_term", "reduce", "scalar_op", "compare", "while", "range",
    "subcycle", "branch", "synchronize", "solve_local_nonlinear", "solve_implicit_source"]

def ownerAffineOps : List String := ["state", "linear_combine"]

def affineReplayProgramOps : List String := ["state", "history", "store_history", "linear_combine"]

/-- `_walk_ops`, into blocks of a bounded nesting. -/
def walkOps (program : Program) : ℕ → List ℕ → List ℕ
  | 0, values => values
  | nesting + 1, values => values.flatMap fun id => id :: walkOps program nesting (program.value id).blocks

def opIsNondeterministic (value : ProgramValue) : Bool :=
  decide (value.op ∉ knownDeterministicOps) || value.nondeterministic

def effectiveInputs (value : ProgramValue) : List ℕ :=
  if value.op ≠ "linear_combine" ∨ value.coeffs.length ≠ value.inputs.length then value.inputs
  else ((value.inputs.zip value.coeffs).filter fun term => !term.2.isEmpty).map Prod.fst

/-- The loop of `visit` over the inputs. -/
def visitAll (visit : ℕ → List ℕ → Option String × List ℕ) : List ℕ → List ℕ → Option String × List ℕ
  | [], seen => (none, seen)
  | input :: later, seen =>
    match visit input seen with
    | (none, seen) => visitAll visit later seen
    | (some reason, seen) => (some reason, seen)

/-- `visit`: the reason to refuse, and the values seen. The bound is above the number of the value,
so it does not run out. -/
def visit (program : Program) (owner : TimeState) : ℕ → ℕ → List ℕ → Option String × List ℕ
  | 0, _, seen => (some "unreached", seen)
  | bound + 1, id, seen =>
    let value := program.value id
    if id ∈ seen then (none, seen)
    else if value.op = "history" then
      (some ("the committed transition depends on lagged history '" ++ value.history ++ "'"), id :: seen)
    else if value.op ∉ ownerAffineOps then
      (some ("the committed transition reaches unproved replay op '" ++ value.op ++ "'"), id :: seen)
    else if value.block.isSome ∧ value.block ≠ some owner.block then
      (some "the committed transition depends on another block", id :: seen)
    else if value.op = "state" ∧ value.stateRef ≠ some owner.state then
      (some "the committed transition depends on another state", id :: seen)
    else visitAll (visit program owner bound) (effectiveInputs value) (id :: seen)

def ownerAffineRefusal (program : Program) (state : TimeState) : Option String :=
  match program.commits state.state with
  | none => some "the owner state has no committed primary-step transition"
  | some committed => (visit program state (committed + 1) committed []).1

def programContextRefusal (program : Program) (nesting : ℕ) : Option String :=
  (walkOps program nesting program.values).findSome? fun id =>
    let value := program.value id
    if value.op ∉ affineReplayProgramOps then
      some ("the Program executes non-affine/context-dependent op '" ++ value.op ++ "'")
    else if value.scheduled then
      some ("the Program executes scheduled op '" ++ value.op ++
        "' whose historical scheduler/cache state is not stored per history slot")
    else none

def replayProvenance (program : Program) (name : String) : Option TimeState :=
  (program.stores.reverse.find? fun store => store.2 = name).map Prod.fst

/-- The issues of one policy record, as their codes. -/
def policyIssues (program : Program) (nesting : ℕ) (name : String) (ringSlots : ℕ) (policy : HistoryPersistence) :
    List String :=
  if ((program.histories.find? fun ring => ring.1 = name).any fun ring => ringSlots ≠ ring.2 + 1) then
    ["depth_mismatch"]
  else if !policy.validateFor ringSlots then ["incoherent_policy"]
  else if policy.degenerateToDense ringSlots then []
  else
    (match replayProvenance program name with
      | none => ["unqualified_replay_provenance"]
      | some state =>
        (if state.clock ≠ program.clock then ["non_primary_clock_replay"] else []) ++
          (if (ownerAffineRefusal program state).isSome then ["non_affine_replay"] else []) ++
          (if (programContextRefusal program nesting).isSome then ["unrestored_replay_context"] else [])) ++
      (if (walkOps program nesting program.values).any fun id => opIsNondeterministic (program.value id) then
        ["nondeterministic_replay"] else [])

/-- `validate_history_persistence`: the issues and the rings they are about. -/
def validateHistoryPersistence (program : Program) (nesting : ℕ) : List (String × String) :=
  let missing := program.histories.filter fun ring => !program.persistence.any fun record => record.1 = ring.1
  let orphans := program.persistence.filter fun record => !program.histories.any fun ring => ring.1 = record.1
  missing.map (fun ring => ("missing_policy", ring.1)) ++ orphans.map (fun record => ("orphan_policy", record.1)) ++
    program.persistence.flatMap fun record =>
      (policyIssues program nesting record.1 record.2.1 record.2.2).map fun code => (code, record.1)

/-- A runtime image: the states, and everything else. -/
structure Image (V W : Type) where
  states : String → V
  rest : W

/-- What the runtime does besides: the value of any other operation, or of one that is held by a
scheduler, and the rest of the image after a step. -/
structure Native (V W : Type) where
  other : ℕ → Image V W → ℚ → V
  rest : Image V W → ℚ → W

section Runtime
variable {V W : Type} [AddCommGroup V] [Module ℚ V]

/-- A value in one step. The bound is above its number. -/
def evaluate (program : Program) (native : Native V W) (image : Image V W) (dt : ℚ) : ℕ → ℕ → V
  | 0, id => native.other id image dt
  | bound + 1, id =>
    let value := program.value id
    if value.scheduled then native.other id image dt
    else if value.op = "state" then
      match value.stateRef with
      | some state => image.states state
      | none => native.other id image dt
    else if value.op = "linear_combine" then
      ((value.inputs.zip value.coeffs).map fun term =>
        CoeffPolynomial.at term.2 dt • evaluate program native image dt bound term.1).sum
    else native.other id image dt

/-- One step of the Program. -/
def step (program : Program) (native : Native V W) (image : Image V W) (dt : ℚ) : Image V W where
  states state :=
    match program.commits state with
    | some id => evaluate program native image dt (id + 1) id
    | none => image.states state
  rest := native.rest image dt

/-- A history ring: the samples and their outgoing intervals, newest first. -/
structure Ring (V : Type) where
  slot : ℕ → V
  slotDt : ℕ → ℚ
  initialized : Bool

/-- `store_history_`: the first store fills the deeper slots with copies. -/
def Ring.store (ring : Ring V) (value : V) (dt : ℚ) : Ring V where
  slot k := if k = 0 ∨ !ring.initialized then value else ring.slot k
  slotDt k := if k = 0 ∨ !ring.initialized then dt else ring.slotDt k
  initialized := true

/-- `rotate`: the swaps move every slot by one and recycle the oldest into slot zero. -/
def Ring.rotate (ring : Ring V) (depth : ℕ) : Ring V where
  slot k := if k = 0 then ring.slot (depth - 1) else ring.slot (k - 1)
  slotDt k := if k = 0 then ring.slotDt (depth - 1) else ring.slotDt (k - 1)
  initialized := ring.initialized

/-- The `store_history` operations of the Program on a ring, in the order of its values. -/
def ringStores (program : Program) (name : String) : List ℕ :=
  program.values.filter fun id => (program.value id).op = "store_history" ∧ (program.value id).history = name

/-- What a `store_history` stores: its one input, of before the commit at the tail of the step. -/
def storedValue (program : Program) (native : Native V W) (image : Image V W) (dt : ℚ) (id : ℕ) : V :=
  match (program.value id).inputs with
  | [input] => evaluate program native image dt (input + 1) input
  | _ => native.other id image dt

def storeHistories (program : Program) (native : Native V W) (name : String) (image : Image V W) (dt : ℚ)
    (ring : Ring V) : Ring V :=
  (ringStores program name).foldl (fun ring id => ring.store (storedValue program native image dt id) dt) ring

/-- An accepted step runs its stores, commits, and rotates a ring that was stored. -/
def acceptedStep (program : Program) (native : Native V W) (name : String) (depth : ℕ)
    (before : Image V W × Ring V) (dt : ℚ) : Image V W × Ring V :=
  (step program native before.1 dt,
    if (ringStores program name).isEmpty then before.2
    else (storeHistories program native name before.1 dt before.2).rotate depth)

/-- The steps from slot `older` to the one after `newer`: the slots and what they are rebuilt to. -/
def replayGap (program : Program) (native : Native V W) (owner : TimeState) (slotDt : ℕ → ℚ) (newer : ℕ) :
    ℕ → Image V W → List (ℕ × V)
  | 0, _ => []
  | j + 1, image =>
    if newer < j then
      let image := step program native image (slotDt (j + 1))
      (j, image.states owner.state) :: replayGap program native owner slotDt newer j image
    else []

/-- The slots rebuilt between the anchors. Every gap starts from the saved image. -/
def reconstructed (program : Program) (native : Native V W) (owner : TimeState) (saved : Image V W) (ring : Ring V) :
    List ℕ → List (ℕ × V)
  | newer :: older :: anchors =>
    replayGap program native owner ring.slotDt newer older
        { saved with states := Function.update saved.states owner.state (ring.slot older) } ++
      reconstructed program native owner saved ring (older :: anchors)
  | _ => []

/-- The slots between anchors. -/
def omitted : List ℕ → List ℕ
  | newer :: older :: anchors => (List.range older).filter (newer < ·) ++ omitted (older :: anchors)
  | _ => []

/-- `rebuild_history_slots`, from anchors in order and without repetition. -/
def rebuildHistorySlots (program : Program) (native : Native V W) (owner : TimeState) (depth : ℕ) (saved : Image V W)
    (ring : Ring V) (anchors : List ℕ) : Option (Ring V) :=
  if anchors.head? ≠ some 0 ∨ anchors.getLast?.map (· + 1) ≠ some depth then none
  else if (omitted anchors).any fun j => ring.slotDt (j + 1) ≤ 0 then none
  else
    let rebuilt := reconstructed program native owner saved ring anchors
    some { ring with slot := fun j => ((rebuilt.find? fun slot => slot.1 = j).map Prod.snd).getD (ring.slot j) }

end Runtime

/-- The state, the stored state, the state after the step, and a store of that. -/
def decayValue : ℕ → ProgramValue
  | 0 => { op := "state", block := some "fluid", stateRef := some "U", history := "", coeffs := [], scheduled := false,
           nondeterministic := false, inputs := [], blocks := [] }
  | 1 => { op := "store_history", block := some "fluid", stateRef := some "U", history := "fluid.U", coeffs := [],
           scheduled := false, nondeterministic := false, inputs := [0], blocks := [] }
  | 2 => { op := "linear_combine", block := some "fluid", stateRef := none, history := "",
           coeffs := [[(0, 1), (1, -1)]], scheduled := false, nondeterministic := false, inputs := [0], blocks := [] }
  | _ => { op := "store_history", block := some "fluid", stateRef := some "U", history := "fluid.U", coeffs := [],
           scheduled := false, nondeterministic := false, inputs := [2], blocks := [] }

def decayValues (again : Bool) : List ℕ := if again then [0, 1, 2, 3] else [0, 1, 2]

def decayCommits (state : String) : Option ℕ := if state = "U" then some 2 else none

theorem decayValue_earlier : ∀ id, ∀ input ∈ (decayValue id).inputs, input < id
  | 0, _, member => absurd member List.not_mem_nil
  | 1, _, member | 2, _, member | _ + 3, _, member => by
    rw [List.mem_singleton.mp member]
    omega

theorem decayValues_listed (again : Bool) :
    ∀ id ∈ decayValues again, ∀ input ∈ (decayValue id).inputs, input ∈ decayValues again := by
  cases again <;> decide

theorem decayCommits_committed (again : Bool) : ∀ state id, decayCommits state = some id → id ∈ decayValues again := by
  intro state id commits
  unfold decayCommits at commits
  split at commits
  · cases commits
    cases again <;> decide
  · cases commits

theorem decayValue_aligned : ∀ id, (decayValue id).op = "linear_combine" →
    (decayValue id).coeffs.length = (decayValue id).inputs.length
  | 0, combine | 1, combine => absurd combine (by decide)
  | 2, _ => rfl
  | _ + 3, combine => by simp [decayValue] at combine

/-- A decay of one state, with the sample in the middle dropped from its checkpoints. The ring holds
the state of before the step, or `again` what the step commits. -/
def decay (again : Bool) : Program where
  value := decayValue
  values := decayValues again
  clock := "primary"
  commits := decayCommits
  histories := [("fluid.U", 2)]
  persistence := [("fluid.U", 3, { storedSlots := fun _ => [0, 2], validateFor := fun _ => true })]
  stores := [({ block := "fluid", state := "U", clock := "primary" }, "fluid.U")]
  earlier := decayValue_earlier
  listed := decayValues_listed again
  committed := decayCommits_committed again
  aligned := decayValue_aligned

end Pops.HistoryReplay
