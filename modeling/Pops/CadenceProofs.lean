import Pops.Cadence

/-! Proofs about the cadence: the stored window stays in phase with the clock,
and in exact arithmetic the windows tile the time that was stepped over. -/
namespace Pops.Cadence

variable {T : Type} [CadenceDouble T] {name : String}

/-- A window that a dispatch accepts at a clock. -/
structure Sound (state : State T) (window : Window T) (cursor : Cursor T) : Prop where
  macroStep : 0 ≤ cursor.macroStep
  stride : 1 ≤ state.stride
  substeps : 1 ≤ state.substeps
  phase : window.steps = cursor.macroStep.tmod state.stride
  dtFinite : Double.isFinite window.dt = true
  dtNonnegative : isNegative window.dt = false
  startFinite : Double.isFinite window.startTime = true
  empty : decide (window.steps = 0) = CadenceDouble.equal window.dt zero
  canonical : window.steps = 0 → CadenceDouble.equal window.startTime zero = true
  timeFinite : Double.isFinite cursor.time = true
  precedes : window.steps ≠ 0 → Double.less window.startTime cursor.time = true

variable {state : State T} {window : Window T} {cursor : Cursor T}

theorem Sound.nonnegative (sound : Sound state window cursor) : 0 ≤ window.steps := by
  rw [sound.phase]
  exact Int.tmod_nonneg _ sound.macroStep

theorem Sound.below (sound : Sound state window cursor) : window.steps < state.stride := by
  have stride := sound.stride
  rw [sound.phase]
  exact Int.tmod_lt_of_pos _ (by omega)

theorem Sound.held (sound : Sound state window cursor) : window.steps ≤ cursor.macroStep := by
  rw [sound.phase, Int.tmod_eq_emod_of_nonneg sound.macroStep]
  have split := Int.emod_add_mul_ediv cursor.macroStep state.stride
  have rest := mul_nonneg (zero_le_one.trans sound.stride)
    (Int.ediv_nonneg sound.macroStep (zero_le_one.trans sound.stride))
  omega

theorem validate_ok (name : String) :
    (validateWindowImage name state window cursor.macroStep = .ok () ∧
      validateWindowTimeImage name window cursor.time = .ok ()) ↔ Sound state window cursor := by
  simp only [validateWindowImage, validateWindowTimeImage, bind_ok, throwIf_ok, unit_exists, not_or, not_lt, not_le,
    not_and, not_not, Bool.not_eq_false, Bool.not_eq_true, ne_eq, ge_iff_le]
  constructor
  · rintro ⟨⟨macroStep, ⟨stride, substeps⟩, -, phase, ⟨dtFinite, dtNonnegative⟩, startFinite, empty, canonical⟩,
      timeFinite, precedes⟩
    exact ⟨macroStep, stride, substeps, phase, dtFinite, dtNonnegative, startFinite, empty, canonical, timeFinite,
      precedes⟩
  · intro sound
    exact ⟨⟨sound.macroStep, ⟨sound.stride, sound.substeps⟩, ⟨sound.nonnegative, sound.below⟩, sound.phase,
      ⟨sound.dtFinite, sound.dtNonnegative⟩, sound.startFinite, sound.empty, sound.canonical⟩, sound.timeFinite,
      sound.precedes⟩

theorem Sound.congr {other : State T} (sound : Sound state window cursor) (stride : other.stride = state.stride)
    (substeps : other.substeps = state.substeps) : Sound other window cursor :=
  { sound with
    stride := stride ▸ sound.stride
    substeps := substeps ▸ sound.substeps
    phase := stride ▸ sound.phase }

/-- What `prepare_cadence_step` computes. -/
def prepared (state : State T) (cursor : Cursor T) (dt : T) : PreparedStep T where
  due := state.window.steps + 1 = state.stride
  effectiveDt := Double.add state.window.dt dt
  windowStart := if state.window.steps = 0 then cursor.time else state.window.startTime
  windowEnd := Double.add cursor.time dt
  numericalDt :=
    if state.window.steps = 0 then dt
    else Double.sub (Double.add cursor.time dt)
      (if state.window.steps = 0 then cursor.time else state.window.startTime)
  windowSteps := state.window.steps + 1

/-- A step that moves the clock and the window over representable numbers. -/
structure Representable (state : State T) (cursor : Cursor T) (dt : T) : Prop where
  finite : Double.isFinite dt = true
  positive : isPositive dt = true
  endFinite : Double.isFinite (prepared state cursor dt).windowEnd = true
  advances : Double.less cursor.time (prepared state cursor dt).windowEnd = true
  effectiveFinite : Double.isFinite (prepared state cursor dt).effectiveDt = true
  grows : Double.less state.window.dt (prepared state cursor dt).effectiveDt = true
  numericalFinite : Double.isFinite (prepared state cursor dt).numericalDt = true
  numericalPositive : isPositive (prepared state cursor dt).numericalDt = true
  coherent : CadenceDouble.equal
    (Double.add (prepared state cursor dt).windowStart (prepared state cursor dt).numericalDt)
      (prepared state cursor dt).windowEnd = true

/-- A step is prepared exactly when no restore is pending, the window is sound
and the numbers are representable. -/
theorem prepareStep_ok {dt : T} {step : PreparedStep T} :
    prepareStep name state cursor dt = .ok step ↔
      state.restore = none ∧ Sound state state.window cursor ∧ Representable state cursor dt ∧
        step = prepared state cursor dt := by
  constructor
  · intro ran
    simp only [prepareStep, bind_ok, throwIf_ok, unit_exists, pure_ok, not_or, Bool.not_eq_false] at ran
    obtain ⟨pending, image, time, ⟨finite, positive⟩, ⟨endFinite, advances⟩, ⟨effectiveFinite, grows⟩,
      ⟨numericalFinite, numericalPositive, coherent⟩, -, rfl⟩ := ran
    exact ⟨by simpa using pending, (validate_ok _).mp ⟨image, time⟩, ⟨finite, positive, endFinite, advances,
      effectiveFinite, grows, numericalFinite, numericalPositive, coherent⟩, rfl⟩
  · rintro ⟨pending, sound, numbers, rfl⟩
    obtain ⟨image, time⟩ := (validate_ok name).mpr sound
    have low := sound.nonnegative
    have high := sound.below
    simp only [prepareStep, bind_ok, throwIf_ok, unit_exists, pure_ok, not_or, Bool.not_eq_false]
    exact ⟨by simp [pending], image, time, ⟨numbers.finite, numbers.positive⟩, ⟨numbers.endFinite, numbers.advances⟩,
      ⟨numbers.effectiveFinite, numbers.grows⟩,
      ⟨numbers.numericalFinite, numbers.numericalPositive, numbers.coherent⟩, by omega, rfl⟩

/-- The window that a step leaves. -/
def PreparedStep.leaves (step : PreparedStep T) : Window T :=
  if step.due then inactive else ⟨step.effectiveDt, step.windowSteps, step.windowStart⟩

theorem prepared_leaves (state : State T) (cursor : Cursor T) (dt : T) :
    (prepared state cursor dt).leaves =
      if state.window.steps + 1 = state.stride then inactive
      else ⟨Double.add state.window.dt dt, state.window.steps + 1, (prepared state cursor dt).windowStart⟩ := by
  simp [PreparedStep.leaves, prepared]

variable {after : State T}

theorem commitStep_ok {step : PreparedStep T} (ran : commitStep name state step = .ok after) :
    after = { state with window := step.leaves } := by
  simp only [commitStep, bind_ok, unit_exists] at ran
  obtain ⟨-, ran⟩ := ran
  unfold PreparedStep.leaves
  split at ran
  · rename_i due
    rw [pure_ok] at ran
    rw [if_pos due, ran]
  · rename_i held
    rw [pure_ok] at ran
    rw [if_neg held, ran]

/-- What a dispatched step does. -/
structure Dispatched (name : String) (program : Program T) (state : State T) (cursor : Cursor T) (dt : T)
    (after : State T) (calls : List (Call T)) : Prop where
  idle : state.restore = none
  sound : Sound state state.window cursor
  numbers : Representable state cursor dt
  counted : cursor.macroStep ≠ intMax
  ran : runStep name program state (prepared state cursor dt) cursor.macroStep = .ok calls
  after : after =
    { state with
      window := (prepared state cursor dt).leaves
      lastDt := (calls.getLast?.map fun call => CadenceDouble.toReal call.dt).getD state.lastDt }

theorem dispatchStep_ok {program : Option (Program T)} {dt : T} {moved : Cursor T} {calls : List (Call T)}
    (ran : dispatchStep name program state cursor dt = .ok (after, moved, calls)) :
    (∃ installed, program = some installed ∧ Dispatched name installed state cursor dt after calls) ∧
      moved = ⟨Double.add cursor.time dt, cursor.macroStep + 1⟩ := by
  cases program with
  | none => simp [dispatchStep] at ran
  | some installed =>
    simp only [dispatchStep, bind_ok, throwIf_ok, unit_exists, pure_ok, prepareStep_ok, Prod.mk.injEq] at ran
    obtain ⟨_, ⟨idle, sound, numbers, rfl⟩, counted, _, stepped, committed, commits, rfl, rfl, rfl⟩ := ran
    have afterIs := commitStep_ok commits
    exact ⟨⟨installed, rfl, idle, sound, numbers, counted, stepped, afterIs⟩, rfl⟩

/-- The order of the doubles, as far as the cadence relies on it. -/
class OrderedDouble (T : Type) [CadenceDouble T] : Prop where
  less_trans : ∀ {a b c : T}, Double.less a b = true → Double.less b c = true → Double.less a c = true
  zero_finite : Double.isFinite (zero : T) = true
  zero_equal : CadenceDouble.equal (zero : T) zero = true
  zero_less : ∀ {a b : T}, Double.isFinite a = true → isNegative a = false → Double.less a b = true →
    isPositive b = true
  positive : ∀ {a : T}, isPositive a = true → isNegative a = false ∧ CadenceDouble.equal a zero = false
  same : ∀ {a b : T}, CadenceDouble.sameBits a b = true → a = b

instance : OrderedDouble Binary64 := by
  have zeroIs : (zero : Binary64) = Binary64.ofNat 0 := rfl
  have rank : (Binary64.ofNat 0).rank = 0 := rfl
  have number : (Binary64.ofNat 0).isNaN = false := rfl
  refine ⟨?_, rfl, rfl, ?_, ?_, ?_⟩
  · intro a b c first second
    simp only [Double.less, Bool.and_eq_true, Bool.not_eq_true', decide_eq_true_eq] at first second ⊢
    exact ⟨⟨first.1.1, second.1.2⟩, first.2.trans second.2⟩
  · intro a b finite nonnegative below
    have real : a.isNaN = false := by
      simp only [Double.isFinite, Binary64.isFinite, decide_eq_true_eq] at finite
      simp [Binary64.isNaN, finite]
    simp only [isNegative, isPositive, zeroIs, Double.less, rank, number, real, Bool.not_false, Bool.and_true,
      Bool.true_and, Bool.and_eq_true, Bool.not_eq_true', decide_eq_true_eq, decide_eq_false_iff_not, not_lt]
      at nonnegative below ⊢
    exact ⟨below.1, nonnegative.trans_lt below.2⟩
  · intro a positive
    simp only [isNegative, isPositive, zeroIs, Double.less, CadenceDouble.equal, MetricDouble.equal, rank, number,
      Bool.not_false, Bool.and_true, Bool.true_and, Bool.and_eq_true, Bool.not_eq_true', decide_eq_true_eq]
      at positive ⊢
    simp [positive.1, positive.2.ne', positive.2.le]
  · rintro ⟨a⟩ ⟨b⟩ same
    exact congrArg Binary64.mk (of_decide_eq_true same)

variable [OrderedDouble T]

theorem sound_inactive (macroStep : 0 ≤ cursor.macroStep) (stride : 1 ≤ state.stride) (substeps : 1 ≤ state.substeps)
    (phase : cursor.macroStep.tmod state.stride = 0) (time : Double.isFinite cursor.time = true) :
    Sound state inactive cursor := by
  refine ⟨macroStep, stride, substeps, phase.symm, OrderedDouble.zero_finite, ?_, OrderedDouble.zero_finite, ?_,
    fun _ => OrderedDouble.zero_equal, time, fun held => absurd rfl held⟩
  · cases negative : isNegative (inactive : Window T).dt with
    | false => rfl
    | true =>
      have positive : isPositive (zero : T) = true := negative
      exact absurd OrderedDouble.zero_equal (by rw [(OrderedDouble.positive positive).2]; simp)
  · rw [show CadenceDouble.equal (inactive : Window T).dt zero = true from OrderedDouble.zero_equal]
    rfl

theorem next_phase {macroStep stride : ℤ} (counted : 0 ≤ macroStep) (positive : 1 ≤ stride) :
    (macroStep + 1).tmod stride = if macroStep.tmod stride + 1 = stride then 0 else macroStep.tmod stride + 1 := by
  rw [Int.tmod_eq_emod_of_nonneg counted, Int.tmod_eq_emod_of_nonneg (by omega)]
  have below := Int.emod_lt_of_pos macroStep (show 0 < stride by omega)
  have low := Int.emod_nonneg macroStep (show stride ≠ 0 by omega)
  have split := Int.emod_add_mul_ediv macroStep stride
  split
  · rename_i due
    refine Int.emod_eq_zero_of_dvd ⟨macroStep / stride + 1, ?_⟩
    rw [Int.mul_add, mul_one]
    omega
  · rename_i held
    have next : macroStep + 1 = macroStep % stride + 1 + stride * (macroStep / stride) := by omega
    rw [next, Int.add_mul_emod_self_left]
    exact Int.emod_eq_of_lt (by omega) (by omega)

theorem Dispatched.preserved {program : Program T} {dt : T} {calls : List (Call T)}
    (dispatched : Dispatched name program state cursor dt after calls) :
    Sound after after.window ⟨Double.add cursor.time dt, cursor.macroStep + 1⟩ := by
  obtain ⟨-, sound, numbers, -, -, rfl⟩ := dispatched
  have macroStep := sound.macroStep
  have phase := next_phase sound.macroStep sound.stride
  rw [← sound.phase] at phase
  have low := sound.nonnegative
  by_cases due : state.window.steps + 1 = state.stride
  · rw [if_pos due] at phase
    have window : (prepared state cursor dt).leaves = inactive := by rw [prepared_leaves, if_pos due]
    simp only [window]
    exact sound_inactive (by simp; omega) sound.stride sound.substeps phase numbers.endFinite
  · rw [if_neg due] at phase
    have window : (prepared state cursor dt).leaves =
        ⟨Double.add state.window.dt dt, state.window.steps + 1,
          if state.window.steps = 0 then cursor.time else state.window.startTime⟩ := by
      rw [prepared_leaves, if_neg due]
      rfl
    have positive := OrderedDouble.zero_less sound.dtFinite sound.dtNonnegative numbers.grows
    have held : state.window.steps + 1 ≠ 0 := by omega
    simp only [window]
    refine ⟨by simp; omega, sound.stride, sound.substeps, phase.symm, numbers.effectiveFinite,
      (OrderedDouble.positive positive).1, ?_, ?_, fun none => absurd none held, numbers.endFinite, fun _ => ?_⟩
    · split
      · exact sound.timeFinite
      · exact sound.startFinite
    · exact (decide_eq_false held).trans (OrderedDouble.positive positive).2.symm
    · split
      · exact numbers.advances
      · rename_i active
        exact OrderedDouble.less_trans (sound.precedes active) numbers.advances

/-- A runtime whose next step the stored cadence does not fail. -/
def InPhase (runtime : Runtime T) : Prop := Sound runtime.state runtime.state.window runtime.cursor

/-- A change of the stride that the clock allows. -/
def Operation.Aligned (runtime : Runtime T) : Operation T → Prop
  | .setCadence _ stride => stride ≠ runtime.state.stride → runtime.cursor.macroStep.tmod stride = 0
  | _ => True

/-- The runtimes that accepted operations lead to, each of them aligned. -/
inductive Reached (name : String) (start : Runtime T) : Runtime T → Prop where
  | start : Reached name start start
  | step {before after : Runtime T} {operation : Operation T} (reached : Reached name start before)
      (aligned : operation.Aligned before) (ran : operation.run name before = .ok after) : Reached name start after

omit [OrderedDouble T] in
private theorem setCadence_ok {substeps stride : ℤ} (ran : setCadence name state substeps stride = .ok after) :
    1 ≤ substeps ∧ 1 ≤ stride ∧ (stride ≠ state.stride → state.window.steps = 0) ∧
      after = { state with substeps, stride } := by
  simp only [setCadence, bind_ok, throwIf_ok, unit_exists, pure_ok, not_lt] at ran
  obtain ⟨substepsPositive, stridePositive, allowed, rfl⟩ := ran
  refine ⟨substepsPositive, stridePositive, fun changed => ?_, rfl⟩
  by_contra held
  exact allowed ⟨.inl held, .inr changed⟩

private theorem setClock_inPhase {runtime : Runtime T} {time : T} {macroStep : ℤ} {moved : Cursor T}
    (ran : setClock name runtime.state time macroStep = .ok (after, moved)) :
    InPhase ⟨after, moved⟩ := by
  simp only [setClock, bind_ok, throwIf_ok, unit_exists, pure_ok, Prod.mk.injEq, Bool.not_eq_false] at ran
  obtain ⟨counted, finite, consumed, ran, rfl, rfl⟩ := ran
  unfold consumeRestore at ran
  cases pending : runtime.state.restore with
  | none =>
    simp only [pending, bind_ok, unit_exists, pure_ok] at ran
    obtain ⟨image, timed, -, rfl⟩ := ran
    exact (validate_ok _).mp ⟨image, timed⟩
  | some image =>
    simp only [pending, bind_ok, throwIf_ok, unit_exists, pure_ok, not_or, not_not] at ran
    obtain ⟨⟨rfl, time⟩, valid, timed, rfl⟩ := ran
    obtain rfl := OrderedDouble.same (by simpa using time)
    exact Sound.congr ((validate_ok _).mp ⟨valid, timed⟩ : Sound runtime.state image.window ⟨_, _⟩) rfl rfl

theorem Operation.preserved {before after : Runtime T} {operation : Operation T} (sound : InPhase before)
    (aligned : operation.Aligned before) (ran : operation.run name before = .ok after) : InPhase after := by
  cases operation with
  | setCadence substeps stride =>
    simp only [Operation.run, bind_ok, pure_ok] at ran
    obtain ⟨state, set, rfl⟩ := ran
    obtain ⟨substepsPositive, stridePositive, idle, rfl⟩ := setCadence_ok set
    refine { sound with stride := stridePositive, substeps := substepsPositive, phase := ?_ }
    by_cases same : stride = before.state.stride
    · subst same
      exact sound.phase
    · exact (idle same).trans (aligned same).symm
  | dispatch program dt =>
    simp only [Operation.run, bind_ok, pure_ok] at ran
    obtain ⟨⟨state, cursor, calls⟩, stepped, rfl⟩ := ran
    obtain ⟨⟨installed, -, dispatched⟩, rfl⟩ := dispatchStep_ok stepped
    exact dispatched.preserved
  | restoreWindow image =>
    simp only [Operation.run, Cadence.restoreWindow, bind_ok, unit_exists, pure_ok] at ran
    obtain ⟨_, ⟨-, -, -, -, -, rfl⟩, rfl⟩ := ran
    exact sound.congr rfl rfl
  | setClock time macroStep =>
    simp only [Operation.run, bind_ok, pure_ok] at ran
    obtain ⟨⟨state, cursor⟩, set, rfl⟩ := ran
    exact setClock_inPhase set
  | cancelRestore =>
    simp only [Operation.run, pure_ok] at ran
    subst ran
    exact sound.congr rfl rfl

omit [OrderedDouble T] in
theorem Operation.aligned_of_phase {before after : Runtime T} {operation : Operation T}
    (ran : operation.run name before = .ok after)
    (phase : after.state.window.steps = after.cursor.macroStep.tmod after.state.stride) :
    operation.Aligned before := by
  cases operation with
  | setCadence substeps stride =>
    simp only [Operation.run, bind_ok, pure_ok] at ran
    obtain ⟨state, set, rfl⟩ := ran
    obtain ⟨-, -, idle, rfl⟩ := setCadence_ok set
    intro changed
    rw [← phase]
    exact idle changed
  | dispatch | restoreWindow | setClock | cancelRestore => trivial

theorem Reached.inPhase {start reached : Runtime T} (sound : InPhase start) (ran : Reached name start reached) :
    InPhase reached := by
  induction ran with
  | start => exact sound
  | step _ aligned ran ih => exact Operation.preserved ih aligned ran

theorem fresh_inPhase (time : Double.isFinite cursor.time = true) (counted : 0 ≤ cursor.macroStep) :
    InPhase ⟨fresh, cursor⟩ :=
  sound_inactive counted le_rfl le_rfl (Int.tmod_one _) time

/-- From a new runtime, over accepted operations that each change the stride
only to a divisor of the macro step, the held steps are the macro step modulo
the stride and the stored window passes the checks of its phase and alignment
that open a dispatch; an accepted operation keeps that exactly when it is such a
one. Whether the endpoint of the next window is representable depends on its
`dt`, and is not part of this. -/
theorem held_steps_in_phase {time : Binary64} (finite : Double.isFinite time = true) {macroStep : ℤ}
    (counted : 0 ≤ macroStep) {runtime : Runtime Binary64}
    (reached : Reached name ⟨fresh, ⟨time, macroStep⟩⟩ runtime) :
    (runtime.state.window.steps = runtime.cursor.macroStep.tmod runtime.state.stride ∧
      validateWindowImage name runtime.state runtime.state.window runtime.cursor.macroStep = .ok () ∧
      validateWindowTimeImage name runtime.state.window runtime.cursor.time = .ok () ∧
      1 ≤ runtime.state.window.steps + 1 ∧ runtime.state.window.steps + 1 ≤ runtime.state.stride ∧
      runtime.state.window.steps ≤ runtime.cursor.macroStep) ∧
    ∀ (operation : Operation Binary64) (after : Runtime Binary64), operation.run name runtime = .ok after →
      (after.state.window.steps = after.cursor.macroStep.tmod after.state.stride ↔ operation.Aligned runtime) := by
  have sound := reached.inPhase (fresh_inPhase finite counted)
  obtain ⟨image, timed⟩ := (validate_ok name).mpr sound
  have low := sound.nonnegative
  have high := sound.below
  refine ⟨⟨sound.phase, image, timed, by omega, by omega, sound.held⟩, ?_⟩
  intro operation after ran
  exact ⟨Operation.aligned_of_phase ran, fun aligned => (Operation.preserved sound aligned ran).phase⟩

/-- A Program that does nothing. -/
def idleProgram : Program Binary64 := fun _ _ => .ok ()

/-- One step with a stride of two. -/
theorem held_steps_one_step :
    ∃ runtime, Reached "System" ⟨fresh, ⟨(zero : Binary64), 0⟩⟩ runtime ∧
      runtime.state.window.steps = runtime.cursor.macroStep.tmod runtime.state.stride := by
  obtain ⟨runtime, ran⟩ := exists_of_isOk (x := (Operation.setCadence 1 2).run "System"
    ⟨fresh, ⟨(zero : Binary64), 0⟩⟩ >>= (Operation.dispatch (some idleProgram) (Binary64.rounded 1)).run "System")
    (by decide +kernel)
  obtain ⟨changed, set, stepped⟩ := bind_ok.mp ran
  have aligned : (Operation.setCadence 1 2).Aligned (⟨fresh, ⟨(zero : Binary64), 0⟩⟩ : Runtime Binary64) :=
    fun _ => rfl
  have always : (Operation.dispatch (some idleProgram) (Binary64.rounded 1)).Aligned changed := trivial
  have reached := (Reached.start.step aligned set).step always stepped
  exact ⟨runtime, reached, (held_steps_in_phase rfl le_rfl reached).1.1⟩

/-- A stride set after one step is accepted, and fails the next step. -/
theorem stride_breaks_phase :
    ∃ stepped changed, (Operation.dispatch (some idleProgram) (Binary64.rounded 1)).run "System"
        ⟨fresh, ⟨(zero : Binary64), 0⟩⟩ = .ok stepped ∧
      (Operation.setCadence 1 2).run "System" stepped = .ok changed ∧
      changed.state.window.steps ≠ changed.cursor.macroStep.tmod changed.state.stride ∧
      dispatchStep "System" (some idleProgram) changed.state changed.cursor (Binary64.rounded 1) =
        .error (.runtimeError ("System Program cadence window phase differs from the authoritative macro-step; " ++
          "restore the strict cadence-window checkpoint state before set_clock")) := by
  have outcome :
      (do
        let stepped ← (Operation.dispatch (some idleProgram) (Binary64.rounded 1)).run "System"
          ⟨fresh, ⟨(zero : Binary64), 0⟩⟩
        let changed ← (Operation.setCadence 1 2).run "System" stepped
        return decide (changed.state.window.steps = changed.cursor.macroStep.tmod changed.state.stride) ||
          match dispatchStep "System" (some idleProgram) changed.state changed.cursor (Binary64.rounded 1) with
          | .error thrown => decide (thrown ≠ .runtimeError ("System Program cadence window phase differs from the authoritative macro-step; " ++
              "restore the strict cadence-window checkpoint state before set_clock"))
          | .ok _ => true) = (.ok false : Checked Bool) := by decide +kernel
  simp only [bind_ok, pure_ok, Bool.or_eq_false_iff, decide_eq_false_iff_not] at outcome
  obtain ⟨stepped, ranStep, changed, ranChange, phase, failed⟩ := outcome
  refine ⟨stepped, changed, ranStep, ranChange, phase, ?_⟩
  split at failed
  · rename_i thrown threw
    rw [threw, not_not.mp (of_decide_eq_false failed)]
  · cases failed

end Pops.Cadence
