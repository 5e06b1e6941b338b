import Mathlib
import Pops.LoopEmission

/-!
An emitted loop runs the host function it was recorded from, with the value the loop
starts from replaced by the current iterate wherever the function captured it.
-/
namespace Pops.LoopEmission

variable {Op V : Type} {apply : Op → List V → V} {env : ℕ → V} {x : V}

section Reads
variable (names : ℕ → Name) (x : Name) (state base : ℕ)

/-- The buffer that an operand is read from, given those of the operations before it. -/
def Operand.place (places : List Name) : Operand → Name
  | .loop => x
  | .outer id => if id = state then x else names id
  | .recorded index => places.getD index x

/-- The buffers of the operations, in order. -/
def opPlaces (places : List Name) : List (BodyOp Op) → List Name
  | [] => places
  | op :: rest =>
    opPlaces (places ++ [op.storage.dest (base + places.length) (op.inputs.map (Operand.place names x state places))]) rest

/-- The operations of a host function recorded from a number on. -/
def BodyFn.places (fn : BodyFn Op) : List Name := opPlaces names x state base [] fn.ops

/-- The buffer of an operand still holds it: nothing wrote it since, and nothing in the whole loop
writes the buffer of a captured value. -/
def Operand.Current (before places all : List Name) : Operand → Prop
  | .loop => x ∉ before ++ places
  | .outer id => if id = state then x ∉ before ++ places else names id ∉ all
  | .recorded index => places.getD index x ∉ places.drop (index + 1)

/-- Every operation reads buffers that still hold its operands. -/
def ReadsCurrent (before all places : List Name) : List (BodyOp Op) → Prop
  | [] => True
  | op :: rest =>
    (∀ input ∈ op.inputs, Operand.Current names x state before places all input) ∧
      ReadsCurrent before all
        (places ++ [op.storage.dest (base + places.length) (op.inputs.map (Operand.place names x state places))]) rest

/-- So does a host function, with the value it ends in. -/
def BodyFn.Current (fn : BodyFn Op) (before all : List Name) : Prop :=
  ReadsCurrent names x state base before all [] fn.ops ∧
    Operand.Current names x state before (fn.places names x state base) all fn.result

theorem opPlaces_subset (places : List Name) (ops : List (BodyOp Op)) :
    ∀ place ∈ places, place ∈ opPlaces names x state base places ops := by
  induction ops generalizing places with
  | nil => exact fun _ member => member
  | cons op rest ih => exact fun place member => ih _ place (List.mem_append_left _ member)

end Reads

/-- The buffers in the middle of a block, after the operations with the given values and places. -/
structure Holds (outside : ℕ → Name) (env : ℕ → V) (x : V) (state next base : ℕ) (carried : Name)
    (before all places : List Name) (values : List V) (names : ℕ → Name) (store : Name → V) : Prop where
  start : names state = carried
  outer : ∀ id < next, id ≠ state → names id = outside id
  kept : ∀ id < next, id ≠ state → outside id ∉ all → store (outside id) = env id
  iterate : carried ∉ before ++ places → store carried = x
  length : places.length = values.length
  recorded : ∀ index value, values[index]? = some value → names (base + index) = places.getD index carried ∧
    (places.getD index carried ∉ places.drop (index + 1) → store (places.getD index carried) = value)

variable {outside : ℕ → Name} {state next base : ℕ} {carried : Name} {before all places : List Name} {values : List V}
  {names : ℕ → Name} {store : Name → V}

theorem Holds.place (holds : Holds outside env x state next base carried before all places values names store)
    {operand : Operand} (scope : operand.InScope next values.length) :
    names (resolve state base operand) = operand.place outside carried state places := by
  cases operand with
  | loop => exact holds.start
  | outer id =>
    rw [resolve, Operand.place]
    by_cases same : id = state
    · rw [if_pos same, same, holds.start]
    · rw [if_neg same, holds.outer id scope same]
  | recorded index => exact (holds.recorded index values[index] (List.getElem?_eq_getElem scope)).1

theorem Holds.read (holds : Holds outside env x state next base carried before all places values names store)
    {operand : Operand} (scope : operand.InScope next values.length)
    (current : operand.Current outside carried state before places all) :
    store (names (resolve state base operand)) = LoopEmission.read (Function.update env state x) x values operand := by
  rw [holds.place scope]
  cases operand with
  | loop => exact holds.iterate current
  | outer id =>
    rw [Operand.place, LoopEmission.read]
    simp only [Operand.Current] at current
    by_cases same : id = state
    · rw [if_pos same] at current ⊢
      rw [same, Function.update_self, holds.iterate current]
    · rw [if_neg same] at current ⊢
      rw [Function.update_of_ne same, holds.kept id scope same current]
  | recorded index =>
    have found : values[index]? = some values[index] := List.getElem?_eq_getElem scope
    rw [Operand.place, (holds.recorded index _ found).2 current, LoopEmission.read, List.getD_eq_getElem?_getD, found,
      Option.getD_some]

theorem Holds.step (holds : Holds outside env x state next base carried before all places values names store)
    (below : next ≤ base) (within : state < next) (value : V) {dest : Name} (written : dest ∈ all) :
    Holds outside env x state next base carried before all (places ++ [dest]) (values ++ [value])
      (Function.update names (base + values.length) dest) (Function.update store dest value) := by
  refine ⟨?_, ?_, ?_, ?_, by simp [holds.length], ?_⟩
  · rw [Function.update_of_ne (by omega), holds.start]
  · intro id inside different
    rw [Function.update_of_ne (by omega), holds.outer id inside different]
  · intro id inside different untouched
    have apart : outside id ≠ dest := fun same => untouched (same ▸ written)
    rw [Function.update_of_ne apart, holds.kept id inside different untouched]
  · intro untouched
    simp only [List.mem_append, List.mem_singleton, not_or] at untouched
    rw [Function.update_of_ne untouched.2.2]
    exact holds.iterate (by simp [untouched.1, untouched.2.1])
  · intro index other found
    rcases Nat.lt_trichotomy index values.length with earlier | rfl | beyond
    · rw [List.getElem?_append_left earlier] at found
      obtain ⟨named, stored⟩ := holds.recorded index other found
      have short : index < places.length := by rw [holds.length]; exact earlier
      rw [Function.update_of_ne (by omega), List.getD_append _ _ _ _ short, List.drop_append_of_le_length (by omega)]
      refine ⟨named, fun untouched => ?_⟩
      simp only [List.mem_append, List.mem_singleton, not_or] at untouched
      rw [Function.update_of_ne untouched.2]
      exact stored untouched.1
    · rw [List.getElem?_concat_length, Option.some.injEq] at found
      subst found
      have last : (places ++ [dest]).getD values.length carried = dest := by
        rw [← holds.length, List.getD_eq_getElem?_getD, List.getElem?_concat_length, Option.getD_some]
      rw [last, Function.update_self, Function.update_self]
      exact ⟨rfl, fun _ => rfl⟩
    · rw [List.getElem?_eq_none (by simp; omega)] at found
      cases found

variable (apply) in
theorem emitBlock_holds (below : next ≤ base) (within : state < next) (ops : List (BodyOp Op))
    (reads : ReadsCurrent outside carried state base before all places ops)
    (written : ∀ place ∈ opPlaces outside carried state base places ops, place ∈ all)
    (scope : ∀ (index : ℕ) (op : BodyOp Op), ops[index]? = some op →
      ∀ input ∈ op.inputs, Operand.InScope next (values.length + index) input)
    (holds : Holds outside env x state next base carried before all places values names store) :
    let emitted := emitBlock names (recordOps state base values.length ops)
    Holds outside env x state next base carried before all (opPlaces outside carried state base places ops)
      (evalOps apply (Function.update env state x) x values ops) emitted.2 (runAll apply emitted.1 store) := by
  induction ops generalizing places values names store with
  | nil => exact holds
  | cons op rest ih =>
    obtain ⟨here, after⟩ := reads
    have inScope : ∀ input ∈ op.inputs, Operand.InScope next values.length input := by
      simpa using scope 0 op rfl
    have sources : (op.inputs.map (resolve state base)).map names =
        op.inputs.map (Operand.place outside carried state places) := by
      rw [List.map_map]
      exact List.map_congr_left fun input listed => holds.place (inScope input listed)
    have read : ((op.inputs.map (resolve state base)).map names).map store =
        op.inputs.map (LoopEmission.read (Function.update env state x) x values) := by
      rw [List.map_map, List.map_map]
      exact List.map_congr_left fun input listed => holds.read (inScope input listed) (here input listed)
    have next_holds := holds.step below within
      (apply op.op (op.inputs.map (LoopEmission.read (Function.update env state x) x values)))
      (written _ (opPlaces_subset _ _ _ _ _ rest _ (List.mem_append_right _ (List.mem_singleton_self _))))
    have later := ih after written
      (by
        intro index other found input listed
        have inside := scope (index + 1) other (by simpa using found) input listed
        rw [List.length_append, List.length_singleton]
        rwa [show values.length + 1 + index = values.length + (index + 1) by omega])
      next_holds
    rw [List.length_append, List.length_singleton] at later
    simp only [recordOps, emitBlock, emitOp, runAll, List.foldl_cons, Stmt.run, evalOps, opPlaces, sources,
      holds.length] at later read ⊢
    rw [read]
    exact later

theorem evalOps_length (values : List V) (ops : List (BodyOp Op)) :
    (evalOps apply env x values ops).length = values.length + ops.length := by
  induction ops generalizing values with
  | nil => rfl
  | cons op rest ih =>
    rw [evalOps, ih, List.length_append, List.length_singleton, List.length_cons]
    omega

variable {fn : BodyFn Op} {store : Name → V}

theorem BodyFn.Accepted.result_scope (accepted : fn.Accepted state next) (within : state < next) :
    fn.result.InScope next fn.ops.length := by
  rcases accepted.result with loop | start | ⟨index, inside, recorded⟩
  · rw [loop]
    trivial
  · rw [start]
    exact within
  · rw [recorded]
    exact inside

variable (apply) in
theorem emitBlock_result (accepted : fn.Accepted state next)
    (current : fn.Current outside carried state base before all)
    (written : ∀ place ∈ fn.places outside carried state base, place ∈ all) (below : next ≤ base)
    (within : state < next) (holds : Holds outside env x state next base carried before all [] [] names store) :
    let emitted := emitBlock names (record state base fn).1
    Holds outside env x state next base carried before all (fn.places outside carried state base)
      (evalOps apply (Function.update env state x) x [] fn.ops) emitted.2 (runAll apply emitted.1 store) ∧
    runAll apply emitted.1 store (emitted.2 (record state base fn).2) =
      fn.eval apply (Function.update env state x) x := by
  have done := emitBlock_holds apply below within fn.ops current.1 written (by simpa using accepted.inputs) holds
  refine ⟨done, done.read ?_ current.2⟩
  rw [evalOps_length]
  simpa using accepted.result_scope within

/-- Another block starts where one has ended, with what that one wrote before it. -/
theorem Holds.restart (holds : Holds outside env x state next base carried [] all places values names store)
    (base' : ℕ) : Holds outside env x state next base' carried places all [] [] names store :=
  ⟨holds.start, holds.outer, holds.kept, fun untouched => holds.iterate (by simpa using untouched), rfl, by simp⟩

/-- The host function as the emitted pass computes it: its captured start is the iterate. -/
def BodyFn.emitted (fn : BodyFn Op) (apply : Op → List V → V) (env : ℕ → V) (state : ℕ) (x : V) : V :=
  fn.eval apply (Function.update env state x) x

/-- A loop as `range` or `while_` author it. -/
def authorLoop (state next : ℕ) (cond : Option (BodyFn Op)) (body : BodyFn Op) : LoopNode Op :=
  match cond with
  | none => rangeLoop state next body
  | some cond => whileLoop state next cond body

section Admissible
variable (outside : ℕ → Name) (state next : ℕ) (cond : Option (BodyFn Op)) (body : BodyFn Op)

/-- The number of the first operation of the body. -/
def bodyBase : ℕ := next + (cond.map fun fn => fn.ops.length).getD 0

/-- The buffers that the test writes. -/
def testPlaces : List Name :=
  (cond.map fun fn => fn.places outside (.iterate (authorLoop state next cond body).id) state next).getD []

/-- The buffers that the loop writes. -/
def loopPlaces : List Name :=
  testPlaces outside state next cond body ++
    body.places outside (.iterate (authorLoop state next cond body).id) state (bodyBase next cond)

/-- What the loop constructors accept, when no operation reads what another one has overwritten. -/
structure Admissible : Prop where
  within : state < next
  apart : ∀ id < next, outside id ≠ .iterate (authorLoop state next cond body).id
  body_accepted : body.Accepted state next
  body_current : body.Current outside (.iterate (authorLoop state next cond body).id) state (bodyBase next cond)
    (testPlaces outside state next cond body) (loopPlaces outside state next cond body)
  cond_accepted : ∀ fn ∈ cond, BodyFn.Accepted state next fn
  cond_current : ∀ fn ∈ cond, BodyFn.Current outside (.iterate (authorLoop state next cond body).id) state next fn []
    (loopPlaces outside state next cond body)

end Admissible

variable {cond : Option (BodyFn Op)} {body : BodyFn Op}

variable (apply) in
private theorem pass_holds (admissible : Admissible outside state next cond body)
    (kept : ∀ id < next, store (outside id) = env id) (k : ℕ) :
    let loop := emitLoop outside (authorLoop state next cond body)
    let x := (body.emitted apply env state)^[k] (env state)
    loop.tests apply store k = cond.map (fun fn => fn.emitted apply env state x) ∧
      Holds outside env x state next next loop.carried [] (loopPlaces outside state next cond body) [] []
        (Function.update outside state loop.carried) (loop.passes apply store k) := by
  have within := admissible.within
  -- what a pass that starts well tests, and where it leads
  have pass : ∀ (x : V) (current : Name → V),
      Holds outside env x state next next (emitLoop outside (authorLoop state next cond body)).carried []
        (loopPlaces outside state next cond body) [] []
        (Function.update outside state (emitLoop outside (authorLoop state next cond body)).carried) current →
      (emitLoop outside (authorLoop state next cond body)).exit.map
          (runAll apply (emitLoop outside (authorLoop state next cond body)).test current) =
        cond.map (fun fn => fn.emitted apply env state x) ∧
      Holds outside env (body.emitted apply env state x) state next next
        (emitLoop outside (authorLoop state next cond body)).carried [] (loopPlaces outside state next cond body) [] []
        (Function.update outside state (emitLoop outside (authorLoop state next cond body)).carried)
        (runAll apply (emitLoop outside (authorLoop state next cond body)).body
          (runAll apply (emitLoop outside (authorLoop state next cond body)).test current)) := by
    intro x current holds
    have finish : ∀ (names : ℕ → Name) (tested : Name → V),
        Holds outside env x state next (bodyBase next cond) (.iterate (authorLoop state next cond body).id)
          (testPlaces outside state next cond body) (loopPlaces outside state next cond body) [] [] names tested →
        Holds outside env (body.emitted apply env state x) state next next
          (.iterate (authorLoop state next cond body).id) [] (loopPlaces outside state next cond body) [] []
          (Function.update outside state (.iterate (authorLoop state next cond body).id))
          (runAll apply ((emitBlock names (record state (bodyBase next cond) body).1).1 ++
            [.copy (.iterate (authorLoop state next cond body).id)
              ((emitBlock names (record state (bodyBase next cond) body).1).2
                (record state (bodyBase next cond) body).2)]) tested) := by
      intro names tested start
      obtain ⟨done, value⟩ := emitBlock_result apply admissible.body_accepted admissible.body_current
        (fun place member => List.mem_append_right _ member) (Nat.le_add_right _ _) within start
      rw [runAll, List.foldl_append, List.foldl_cons, List.foldl_nil, Stmt.run]
      refine ⟨by simp, ?_, ?_, fun _ => ?_, rfl, by simp⟩
      · intro id _ different
        rw [Function.update_of_ne different]
      · intro id inside different untouched
        rw [Function.update_of_ne (admissible.apart id inside)]
        exact done.kept id inside different untouched
      · rw [Function.update_self]
        exact value
    cases cond with
    | none =>
      refine ⟨rfl, finish _ _ ⟨holds.start, holds.outer, holds.kept, holds.iterate, rfl, by simp⟩⟩
    | some fn =>
      obtain ⟨done, value⟩ := emitBlock_result apply (admissible.cond_accepted fn rfl)
        (admissible.cond_current fn rfl) (fun place member => List.mem_append_left _ member) le_rfl within holds
      exact ⟨congrArg some value, finish _ _ (done.restart _)⟩
  have entry : (emitLoop outside (authorLoop state next cond body)).entry =
      [.copy (emitLoop outside (authorLoop state next cond body)).carried (outside state)] := by
    cases cond with
    | none => rfl
    | some fn => rfl
  have start : ∀ k, Holds outside env ((body.emitted apply env state)^[k] (env state)) state next next
      (emitLoop outside (authorLoop state next cond body)).carried [] (loopPlaces outside state next cond body) [] []
      (Function.update outside state (emitLoop outside (authorLoop state next cond body)).carried)
      ((emitLoop outside (authorLoop state next cond body)).passes apply store k) := by
    intro k
    induction k with
    | zero =>
      rw [Loop.passes, entry, runAll, List.foldl_cons, List.foldl_nil, Stmt.run]
      refine ⟨by simp, ?_, ?_, fun _ => ?_, rfl, by simp⟩
      · intro id _ different
        rw [Function.update_of_ne different]
      · intro id inside different _
        have apart : outside id ≠ (emitLoop outside (authorLoop state next cond body)).carried :=
          admissible.apart id inside
        rw [Function.update_of_ne apart, kept id inside]
      · rw [Function.update_self, kept state within]
        rfl
    | succ k ih =>
      rw [Loop.passes, Function.iterate_succ_apply']
      exact (pass _ _ ih).2
  exact ⟨(pass _ _ (start k)).1, start k⟩

variable (apply) in
theorem emitted_passes (admissible : Admissible outside state next cond body)
    (kept : ∀ id < next, store (outside id) = env id) (k : ℕ) :
    let loop := emitLoop outside (authorLoop state next cond body)
    let x := (body.emitted apply env state)^[k] (env state)
    loop.iterates apply store k = x ∧
      loop.tests apply store k = cond.map (fun fn => fn.emitted apply env state x) := by
  obtain ⟨tests, holds⟩ := pass_holds apply admissible kept k
  exact ⟨holds.iterate (by simp), tests⟩

theorem eval_related {W : Type} {apply' : Op → List W → W} {env' : ℕ → W} {x' : W} {R : Bool → V → W → Prop}
    (start : R false x x') (outer : ∀ id, R (id == state) (env id) (env' id))
    (preserved : ∀ (op : Op) (inputs : List Operand) (flag : Operand → Bool) (value : Operand → V)
      (value' : Operand → W), (∀ input ∈ inputs, R (flag input) (value input) (value' input)) →
      R ((inputs.map flag).any id) (apply op (inputs.map value)) (apply' op (inputs.map value'))) (fn : BodyFn Op) :
    R (fn.eval (fun _ inputs => inputs.any id) (fun id => id == state) false)
      (fn.eval apply env x) (fn.eval apply' env' x') := by
  have reads : ∀ (flags : List Bool) (values : List V) (values' : List W), flags.length = values.length →
      values.length = values'.length →
      (∀ index : ℕ, R (flags.getD index false) (values.getD index x) (values'.getD index x')) →
      ∀ operand, R (read (fun id => id == state) false flags operand) (read env x values operand)
        (read env' x' values' operand) := by
    intro flags values values' _ _ listed operand
    cases operand with
    | loop => exact start
    | outer id => exact outer id
    | recorded index => exact listed index
  have runs : ∀ (ops : List (BodyOp Op)) (flags : List Bool) (values : List V) (values' : List W),
      flags.length = values.length → values.length = values'.length →
      (∀ index : ℕ, R (flags.getD index false) (values.getD index x) (values'.getD index x')) →
      ∀ operand, R
        (read (fun id => id == state) false
          (evalOps (fun _ inputs => inputs.any id) (fun id => id == state) false flags ops) operand)
        (read env x (evalOps apply env x values ops) operand)
        (read env' x' (evalOps apply' env' x' values' ops) operand) := by
    intro ops
    induction ops with
    | nil => exact reads
    | cons op rest ih =>
      intro flags values values' first second listed
      apply ih
      · simp [first]
      · simp [second]
      · intro index
        simp only [List.getD_eq_getElem?_getD]
        rcases Nat.lt_trichotomy index values.length with earlier | rfl | beyond
        · rw [List.getElem?_append_left (by omega), List.getElem?_append_left earlier,
            List.getElem?_append_left (by omega)]
          simpa only [List.getD_eq_getElem?_getD] using listed index
        · rw [List.getElem?_concat_length, ← first, List.getElem?_concat_length, first, second,
            List.getElem?_concat_length]
          exact preserved op.op op.inputs _ _ _ fun input _ => reads flags values values' first second listed input
        · rw [List.getElem?_eq_none (by simp; omega), List.getElem?_eq_none (by simp; omega),
            List.getElem?_eq_none (by simp; omega)]
          exact start
  exact runs fn.ops [] [] [] rfl rfl (fun _ => start) fn.result

/-- The result of the function uses the value its loop starts from. -/
def BodyFn.Captures (fn : BodyFn Op) (state : ℕ) : Prop :=
  fn.eval (fun _ inputs => inputs.any id) (fun id => id == state) false = true

theorem emitted_of_not_captures (free : ¬ fn.Captures state) :
    fn.emitted apply env state x = fn.eval apply env x := by
  have related : fn.eval (fun _ inputs => inputs.any id) (fun id => id == state) false = false →
      fn.eval apply (Function.update env state x) x = fn.eval apply env x :=
    eval_related (R := fun flag value value' => flag = false → value = value') (fun _ => rfl)
    (by
      intro id different
      apply Function.update_of_ne
      simpa using different)
    (by
      intro op inputs flag value value' each none
      apply congrArg (apply op)
      apply List.map_congr_left
      intro input listed
      apply each input listed
      rw [List.any_eq_false] at none
      simpa using none (flag input) (List.mem_map_of_mem listed))
    fn
  exact related (Bool.eq_false_iff.mpr free)

/-- The emitted loop computes the iterates of the host function and tests them, whatever the
operations and the captured values are. -/
def MeansItsBody (outside : ℕ → Name) (state next : ℕ) (cond : Option (BodyFn Op)) (body : BodyFn Op) : Prop :=
  ∀ (V : Type) (apply : Op → List V → V) (env : ℕ → V) (store : Name → V),
    (∀ id < next, store (outside id) = env id) → ∀ k,
      let loop := emitLoop outside (authorLoop state next cond body)
      let x := (body.eval apply env)^[k] (env state)
      loop.iterates apply store k = x ∧ loop.tests apply store k = cond.map (fun fn => fn.eval apply env x)

theorem MeansItsBody.run (means : MeansItsBody outside state next cond body) (truth : V → Bool)
    (kept : ∀ id < next, store (outside id) = env id) (passes k : ℕ) :
    ∃ last, k ≤ last ∧ last ≤ k + passes ∧
      (emitLoop outside (authorLoop state next cond body)).run apply truth store k passes =
        (body.eval apply env)^[last] (env state) ∧
      (∀ j, k ≤ j → j < last → ∀ fn ∈ cond, truth (BodyFn.eval apply env ((body.eval apply env)^[j] (env state)) fn)) ∧
      (last < k + passes → ∃ fn ∈ cond,
        truth (BodyFn.eval apply env ((body.eval apply env)^[last] (env state)) fn) = false) := by
  induction passes generalizing k with
  | zero =>
    exact ⟨k, le_rfl, le_rfl, (means V apply env store kept k).1, fun j low high => absurd high (by omega),
      fun early => absurd early (by omega)⟩
  | succ passes ih =>
    obtain ⟨here, tests⟩ := means V apply env store kept k
    obtain ⟨last, low, high, value, passed, stopped⟩ := ih (k + 1)
    cases cond with
    | none =>
      rw [Loop.run, tests]
      exact ⟨last, by omega, by omega, value, fun j _ _ fn listed => absurd listed (by simp),
        fun early => stopped (by omega)⟩
    | some fn =>
      rw [Loop.run, tests]
      simp only [Option.map_some]
      by_cases true_here : truth (BodyFn.eval apply env ((body.eval apply env)^[k] (env state)) fn) = true
      · rw [if_pos true_here]
        refine ⟨last, by omega, by omega, value, fun j first before other listed => ?_, fun early => stopped (by omega)⟩
        rcases Nat.eq_or_lt_of_le first with rfl | later
        · cases listed
          exact true_here
        · exact passed j later before other listed
      · rw [if_neg true_here]
        exact ⟨k, le_rfl, by omega, here, fun j low high => absurd high (by omega),
          fun _ => ⟨fn, rfl, Bool.eq_false_iff.mpr true_here⟩⟩

variable (apply env) in
theorem eval_start (accepted : fn.Accepted state next)
    (idle : ∀ index, fn.result ≠ .recorded index) : fn.eval apply env (env state) = env state := by
  rw [BodyFn.eval]
  rcases accepted.result with loop | start | ⟨index, _, recorded⟩
  · rw [loop]
    rfl
  · rw [start]
    rfl
  · exact absurd recorded (idle index)

private theorem sum_grows {inputs : List Operand} {flag : Operand → Bool} {value value' : Operand → ℕ}
    (each : ∀ input ∈ inputs, value input ≤ value' input ∧ (flag input = true → value input < value' input)) :
    (inputs.map value).sum ≤ (inputs.map value').sum ∧
      ((inputs.map flag).any id = true → (inputs.map value).sum < (inputs.map value').sum) := by
  induction inputs with
  | nil => simp
  | cons input rest ih =>
    obtain ⟨below, strict⟩ := each input (by simp)
    obtain ⟨rest_below, rest_strict⟩ := ih fun other listed => each other (by simp [listed])
    simp only [List.map_cons, List.sum_cons, List.any_cons, id, Bool.or_eq_true]
    refine ⟨by omega, fun marked => ?_⟩
    rcases marked with here | later
    · have := strict here
      omega
    · have := rest_strict later
      omega

/-- Operations that count themselves and add up their inputs. -/
private def counting (_ : Op) (inputs : List ℕ) : ℕ := 1 + inputs.sum

theorem emitted_grows (captures : fn.Captures state) {y : ℕ} (moved : 0 < y) :
    fn.eval counting (fun _ => 0) y < fn.emitted counting (fun _ => 0) state y := by
  have related : fn.eval counting (fun _ => 0) y ≤ fn.eval counting (Function.update (fun _ => 0) state y) y ∧
      (fn.eval (fun _ inputs => inputs.any id) (fun id => id == state) false = true →
        fn.eval counting (fun _ => 0) y < fn.eval counting (Function.update (fun _ => 0) state y) y) :=
    eval_related (R := fun flag (value value' : ℕ) => value ≤ value' ∧ (flag = true → value < value')) ⟨le_rfl, by simp⟩
    (by
      intro id
      by_cases same : id = state
      · subst same
        simp [moved]
      · simp [same])
    (by
      intro op inputs flag value value' each
      obtain ⟨below, strict⟩ := sum_grows each
      exact ⟨by simp only [counting]; omega, fun marked => by have := strict marked; simp only [counting]; omega⟩)
    fn
  exact related.2 captures

theorem eval_positive {index : ℕ} (accepted : fn.Accepted state next) (recorded : fn.result = .recorded index)
    (y : ℕ) : 0 < fn.eval counting (fun _ => 0) y := by
  have inside : index < fn.ops.length := by
    rcases accepted.result with loop | start | ⟨other, inside, same⟩
    · rw [loop] at recorded; cases recorded
    · rw [start] at recorded; cases recorded
    · rw [same, Operand.recorded.injEq] at recorded
      exact recorded ▸ inside
  have all : ∀ (ops : List (BodyOp Op)) (values : List ℕ), (∀ value ∈ values, 0 < value) →
      ∀ value ∈ evalOps counting (fun _ => 0) y values ops, 0 < value := by
    intro ops
    induction ops with
    | nil => exact fun values positive => positive
    | cons op rest ih =>
      intro values positive
      apply ih
      intro value listed
      rcases List.mem_append.mp listed with earlier | here
      · exact positive value earlier
      · rw [List.mem_singleton.mp here, counting]
        omega
  have length : index < (evalOps counting (fun _ => 0) y [] fn.ops).length := by
    rw [evalOps_length]
    simpa using inside
  rw [BodyFn.eval, recorded, read, List.getD_eq_getElem?_getD, List.getElem?_eq_getElem length, Option.getD_some]
  exact all fn.ops [] (by simp) _ (List.getElem_mem length)

/-- One explicit step from the captured start: `x0 + dt R(x)`. -/
def restartBody : BodyFn Unit where
  ops := [⟨(), [.loop], .fresh⟩, ⟨(), [.outer 0, .recorded 0], .fresh⟩]
  result := .recorded 1

/-- The same step from the current iterate, projected in place. -/
def projectedBody : BodyFn Unit where
  ops := [⟨(), [.loop], .fresh⟩, ⟨(), [.loop, .recorded 0], .fresh⟩, ⟨(), [.recorded 1], .inPlace⟩]
  result := .recorded 2

theorem projectedBody_inputs : ∀ (index : ℕ) (op : BodyOp Unit), projectedBody.ops[index]? = some op →
    ∀ input ∈ op.inputs, Operand.InScope 1 index input
  | 0, _, found, _, listed => by
    cases found
    rw [List.mem_singleton.mp listed]
    trivial
  | 1, _, found, _, listed => by
    cases found
    rcases List.mem_cons.mp listed with rfl | rest
    · trivial
    · rw [List.mem_singleton.mp rest]
      exact Nat.zero_lt_one
  | 2, _, found, _, listed => by
    cases found
    rw [List.mem_singleton.mp listed]
    exact Nat.one_lt_two
  | _ + 3, _, found, _, _ => by cases found

theorem projectedBody_admissible : Admissible Name.value 0 1 none projectedBody := by
  refine ⟨by decide, by simp, ⟨projectedBody_inputs, .inr (.inr ⟨2, by decide, rfl⟩)⟩, ?_, by simp, by simp⟩
  simp [BodyFn.Current, ReadsCurrent, projectedBody, Operand.Current, Operand.place, BodyFn.places, opPlaces,
    Storage.dest, testPlaces, bodyBase, authorLoop, rangeLoop]

/-- A rate with the field that was solved before the loop, after a solve of the same field. -/
def capturedFieldBody : BodyFn Unit where
  ops := [⟨(), [.loop], .shared 0⟩, ⟨(), [.loop, .outer 1], .fresh⟩]
  result := .recorded 1

end Pops.LoopEmission
