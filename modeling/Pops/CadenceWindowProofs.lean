import Pops.CadenceProofs

/-! Proofs about the cadence in exact arithmetic: the windows of the Program
tile the time that was stepped over, and a checkpoint brings back the runtime. -/
namespace Pops

variable {F : Type} [Field F] [LinearOrder F]

/-- Exact arithmetic: every number is finite and no operation rounds. -/
instance (priority := low) exactDouble : CadenceDouble F where
  ofInt64 value := value
  add := (· + ·)
  sub := (· - ·)
  mul := (· * ·)
  div := (· / ·)
  less left right := decide (left < right)
  isFinite _ := true
  equal left right := decide (left = right)
  sameBits left right := decide (left = right)
  toReal value := value

namespace Cadence

@[simp]
theorem exact_zero : (zero : F) = 0 := Int.cast_zero

@[simp]
theorem exact_add (left right : F) : Double.add left right = left + right := rfl

@[simp]
theorem exact_sub (left right : F) : Double.sub left right = left - right := rfl

@[simp]
theorem exact_finite (value : F) : Double.isFinite value = true := rfl

@[simp]
theorem exact_less {left right : F} : Double.less left right = true ↔ left < right := decide_eq_true_iff

@[simp]
theorem exact_equal {left right : F} : CadenceDouble.equal left right = true ↔ left = right := decide_eq_true_iff

@[simp]
theorem exact_positive {value : F} : isPositive value = true ↔ 0 < value := by
  rw [isPositive, exact_less, exact_zero]

@[simp]
theorem exact_negative {value : F} : isNegative value = false ↔ 0 ≤ value := by
  rw [isNegative, ← Bool.not_eq_true, exact_less, exact_zero, not_lt]

instance : OrderedDouble F where
  less_trans first second := exact_less.mpr ((exact_less.mp first).trans (exact_less.mp second))
  zero_finite := rfl
  zero_equal := exact_equal.mpr rfl
  zero_less _ nonnegative below :=
    exact_positive.mpr ((exact_negative.mp nonnegative).trans_lt (exact_less.mp below))
  positive positive := by
    rw [exact_positive] at positive
    refine ⟨exact_negative.mpr positive.le, ?_⟩
    rw [← Bool.not_eq_true, exact_equal, exact_zero]
    exact positive.ne'
  same same := of_decide_eq_true same

/-- Calls that take a window of time piece by piece. -/
def Tiles (macroStep : ℤ) : F → F → List (Call F) → Prop
  | start, stop, [] => start = stop
  | start, stop, call :: rest =>
    call.time = start ∧ call.macroStep = macroStep ∧ 0 < call.dt ∧ Tiles macroStep (start + call.dt) stop rest

variable {macroStep : ℤ} {calls : List (Call F)} {runtime : Runtime F}

private theorem tiles_between (boundary : ℤ → F) {low count : ℕ}
    (related : List.Forall₂ (fun index call => call.time = boundary index ∧ call.macroStep = macroStep ∧ 0 < call.dt ∧ call.time + call.dt = boundary (index + 1)) ((List.range' low count).map Int.ofNat) calls) :
    Tiles macroStep (boundary low) (boundary (low + count)) calls := by
  induction count generalizing low calls with
  | zero =>
    rw [List.range'_zero, List.map_nil, List.forall₂_nil_left_iff] at related
    subst related
    simp [Tiles]
  | succ count ih =>
    rw [List.range'_succ, List.map_cons, List.forall₂_cons_left_iff] at related
    obtain ⟨call, rest, ⟨time, counted, positive, next⟩, later, rfl⟩ := related
    refine ⟨time, counted, positive, ?_⟩
    have tail := ih later
    have start : ((low + 1 : ℕ) : ℤ) = Int.ofNat low + 1 := by simp
    have stop : ((low + 1 : ℕ) : ℤ) + count = low + (count + 1 : ℕ) := by omega
    rw [stop, start, ← next, time] at tail
    exact tail

variable {name : String}

private theorem prepareSubstep_ok {step : PreparedStep F} {substep substeps : ℤ} {partition : PreparedSubstep F}
    (ran : prepareSubstep name step substep substeps = .ok partition) :
    partition.start = step.endpoint substeps substep ∧ 0 < partition.dt ∧
      partition.start + partition.dt = step.endpoint substeps (substep + 1) := by
  simp only [prepareSubstep, bind_ok, throwIf_ok, unit_exists, pure_ok, not_or, Bool.not_eq_false, exact_positive,
    exact_equal, exact_add] at ran
  obtain ⟨-, -, ⟨-, -, -, -, positive, ends⟩, rfl⟩ := ran
  exact ⟨rfl, positive, ends⟩

theorem runSubsteps_tiles {program : Program F} {step : PreparedStep F} {substeps macroStep : ℤ}
    (positive : 1 ≤ substeps) (ran : runSubsteps name program step substeps macroStep = .ok calls) :
    calls.length = substeps ∧ Tiles macroStep step.windowStart step.windowEnd calls := by
  have related := mapM_ok.mp ran
  have counted : (substeps.toNat : ℤ) = substeps := Int.toNat_of_nonneg (by omega)
  constructor
  · have sameLength := related.length_eq
    rw [substepIndices, List.length_map, List.length_range] at sameLength
    rw [← sameLength, counted]
  · have tiles : Tiles macroStep (step.endpoint substeps ((0 : ℕ) : ℤ))
        (step.endpoint substeps (((0 : ℕ) : ℤ) + substeps.toNat)) calls := by
      refine tiles_between (step.endpoint substeps) ?_
      rw [← List.range_eq_range']
      refine related.imp fun index call ran => ?_
      simp only [bind_ok, unit_exists, pure_ok] at ran
      obtain ⟨partition, accepted, -, rfl⟩ := ran
      obtain ⟨start, advances, stop⟩ := prepareSubstep_ok accepted
      exact ⟨start, rfl, advances, stop⟩
    have first : step.endpoint substeps ((0 : ℕ) : ℤ) = step.windowStart := if_pos rfl
    have last : step.endpoint substeps (((0 : ℕ) : ℤ) + substeps.toNat) = step.windowEnd := by
      rw [counted, Nat.cast_zero, zero_add, PreparedStep.endpoint, if_neg (by omega), if_pos rfl]
    rwa [first, last] at tiles

/-- A runtime at the start of a window, as a checkpoint could hold it. -/
structure Aligned (runtime : Runtime F) : Prop where
  idle : runtime.state.restore = none
  window : runtime.state.window = inactive
  macroStep : 0 ≤ runtime.cursor.macroStep
  stride : 1 ≤ runtime.state.stride
  substeps : 1 ≤ runtime.state.substeps
  phase : runtime.cursor.macroStep.tmod runtime.state.stride = 0
  lastDt : 0 ≤ runtime.state.lastDt

/-- The time after some of the steps. -/
def timeAfter (start : Runtime F) (steps : List (Option (Program F) × F)) (count : ℕ) : F :=
  start.cursor.time + ((steps.take count).map Prod.snd).sum

omit [LinearOrder F] in
theorem timeAfter_append {start : Runtime F} {steps more : List (Option (Program F) × F)} {count : ℕ}
    (within : count ≤ steps.length) : timeAfter start (steps ++ more) count = timeAfter start steps count := by
  rw [timeAfter, List.take_append_of_le_length within, timeAfter]

omit [LinearOrder F] in
theorem timeAfter_next {start : Runtime F} {steps : List (Option (Program F) × F)}
    {step : Option (Program F) × F} :
    timeAfter start (steps ++ [step]) (steps.length + 1) = timeAfter start steps steps.length + step.2 := by
  have whole : (steps ++ [step]).take (steps.length + 1) = steps ++ [step] := List.take_of_length_le (by simp)
  rw [timeAfter, whole, timeAfter, List.take_length, List.map_append, List.sum_append, add_assoc]
  simp

/-- The Program calls of one step of a run: those of the whole window that ends
with it, where the stride divides the steps. -/
def CallsOf (start : Runtime F) (steps : List (Option (Program F) × F)) (index : ℕ) (calls : List (Call F)) : Prop :=
  if (start.cursor.macroStep + index + 1).tmod start.state.stride = 0 then
    start.state.stride.toNat ≤ index + 1 ∧ calls.length = start.state.substeps ∧
      Tiles (start.cursor.macroStep + index + 1 - start.state.stride)
        (timeAfter start steps (index + 1 - start.state.stride.toNat)) (timeAfter start steps (index + 1)) calls
  else calls = []

/-- What a run has done. -/
structure Ran (start : Runtime F) (done : List (Option (Program F) × F)) (result : Runtime F × List (List (Call F))) :
    Prop where
  idle : result.1.state.restore = none
  stride : result.1.state.stride = start.state.stride
  substeps : result.1.state.substeps = start.state.substeps
  sound : InPhase result.1
  time : result.1.cursor.time = timeAfter start done done.length
  macroStep : result.1.cursor.macroStep = start.cursor.macroStep + done.length
  held : result.1.state.window.steps.toNat ≤ done.length
  startTime : result.1.state.window.steps ≠ 0 →
    result.1.state.window.startTime = timeAfter start done (done.length - result.1.state.window.steps.toNat)
  lastDt : 0 ≤ result.1.state.lastDt
  length : result.2.length = done.length
  calls : ∀ index calls, result.2[index]? = some calls → CallsOf start done index calls

variable {start : Runtime F} {done : List (Option (Program F) × F)} {result : Runtime F × List (List (Call F))}

private theorem Tiles.positive {first stop : F} (tiles : Tiles macroStep first stop calls) {call : Call F}
    (listed : call ∈ calls) : 0 < call.dt := by
  induction calls generalizing first with
  | nil => simp at listed
  | cons head rest ih =>
    obtain ⟨-, -, positive, later⟩ := tiles
    rcases List.mem_cons.mp listed with rfl | other
    · exact positive
    · exact ih later other

theorem Ran.first (aligned : Aligned start) : Ran start [] (start, []) := by
  have sound : InPhase start := by
    unfold InPhase
    rw [aligned.window]
    exact sound_inactive aligned.macroStep aligned.stride aligned.substeps aligned.phase rfl
  refine ⟨aligned.idle, rfl, rfl, sound, ?_, ?_, ?_, ?_, aligned.lastDt, rfl, ?_⟩
  · simp [timeAfter]
  · simp
  · simp [aligned.window, inactive]
  · simp [aligned.window, inactive]
  · simp

private theorem runStep_ok {program : Program F} {state : State F} {step : PreparedStep F}
    (ran : runStep name program state step macroStep = .ok calls) :
    if step.due then runSubsteps name program step state.substeps (macroStep - (step.windowSteps - 1)) = .ok calls
    else calls = [] := by
  unfold runStep at ran
  split at ran
  · rename_i due
    simp only [bind_ok, unit_exists] at ran
    rw [if_pos due]
    exact ran.2.2.2
  · rename_i held
    rw [pure_ok] at ran
    rw [if_neg held, ran]

variable {program : Program F} {dt : F} {state : State F} {calls : List (Call F)}

private theorem Ran.windowStart (ran : Ran start done result) :
    (prepared result.1.state result.1.cursor dt).windowStart =
      timeAfter start done (done.length - result.1.state.window.steps.toNat) := by
  by_cases idle : result.1.state.window.steps = 0
  · simp only [prepared, if_pos idle]
    rw [idle, Int.toNat_zero, Nat.sub_zero, ran.time]
  · simp only [prepared, if_neg idle]
    exact ran.startTime idle

private theorem Ran.callsOf (ran : Ran start done result) {step : Option (Program F) × F}
    (dispatched : Dispatched name program result.1.state result.1.cursor step.2 state calls) :
    CallsOf start (done ++ [step]) done.length calls ∧ ∀ call ∈ calls, 0 < call.dt := by
  have phase := next_phase dispatched.sound.macroStep dispatched.sound.stride
  rw [← dispatched.sound.phase, ran.stride, ran.macroStep] at phase
  have stepped := runStep_ok dispatched.ran
  have low := dispatched.sound.nonnegative
  have windowEnd : (prepared result.1.state result.1.cursor step.2).windowEnd =
      timeAfter start (done ++ [step]) (done.length + 1) := by
    rw [timeAfter_next, ← ran.time]
    rfl
  unfold CallsOf
  rw [phase]
  by_cases due : result.1.state.window.steps + 1 = start.state.stride
  · rw [if_pos due, if_pos rfl]
    rw [if_pos (by simp [prepared, ran.stride, due])] at stepped
    obtain ⟨count, tiles⟩ := runSubsteps_tiles dispatched.sound.substeps stepped
    refine ⟨⟨?_, by rw [count, ran.substeps], ?_⟩, fun call listed => tiles.positive listed⟩
    · have held := ran.held
      omega
    · rw [ran.windowStart, windowEnd] at tiles
      have first : done.length + 1 - start.state.stride.toNat = done.length - result.1.state.window.steps.toNat := by
        omega
      rw [first, timeAfter_append (by omega)]
      have counted : start.cursor.macroStep + done.length + 1 - start.state.stride =
          result.1.cursor.macroStep - ((prepared result.1.state result.1.cursor step.2).windowSteps - 1) := by
        rw [ran.macroStep, ← due]
        simp only [prepared]
        omega
      rw [counted]
      exact tiles
  · rw [if_neg due, if_neg (by omega)]
    rw [if_neg (by simp [prepared, ran.stride, due])] at stepped
    exact ⟨stepped, by simp [stepped]⟩

theorem Ran.step (ran : Ran start done result) {step : Option (Program F) × F} {cursor : Cursor F}
    (stepped : dispatchStep name step.1 result.1.state result.1.cursor step.2 = .ok (state, cursor, calls)) :
    Ran start (done ++ [step]) (⟨state, cursor⟩, result.2 ++ [calls]) := by
  obtain ⟨⟨installed, -, dispatched⟩, rfl⟩ := dispatchStep_ok stepped
  have sound := dispatched.preserved
  obtain ⟨callsOf, positive⟩ := ran.callsOf dispatched
  have windowStart : (prepared result.1.state result.1.cursor step.2).windowStart =
      timeAfter start done (done.length - result.1.state.window.steps.toNat) := ran.windowStart
  have held := ran.held
  have low := dispatched.sound.nonnegative
  obtain rfl := dispatched.after
  refine ⟨ran.idle, ran.stride, ran.substeps, sound, ?_, ?_, ?_, ?_, ?_, ?_, ?_⟩
  · rw [List.length_append, List.length_singleton, timeAfter_next, ← ran.time]
    rfl
  · rw [ran.macroStep, List.length_append, List.length_singleton]
    push_cast
    ring
  · rw [prepared_leaves, List.length_append, List.length_singleton]
    split
    · simp [inactive]
    · simp only
      omega
  · rw [prepared_leaves, List.length_append, List.length_singleton]
    split
    · exact fun active => absurd rfl active
    · intro _
      simp only
      rw [windowStart, timeAfter_append (by omega)]
      congr 1
      omega
  · simp only
    cases last : calls.getLast? with
    | none => exact ran.lastDt
    | some call => exact (positive call (List.mem_of_getLast? last)).le
  · rw [List.length_append, List.length_append, ran.length]
    rfl
  · intro index stepCalls found
    rcases lt_or_ge index result.2.length with earlier | later
    · rw [List.getElem?_append_left earlier] at found
      have known := ran.calls index stepCalls found
      rw [ran.length] at earlier
      unfold CallsOf at known ⊢
      rwa [timeAfter_append (by omega), timeAfter_append (by omega)]
    · rw [List.getElem?_append_right later, List.getElem?_singleton] at found
      split at found
      · rename_i lastIndex
        have same : index = done.length := by
          rw [← ran.length]
          omega
        rw [same, ← Option.some.inj found]
        exact callsOf
      · cases found

theorem ran_of_dispatchAll (aligned : Aligned start) {steps : List (Option (Program F) × F)}
    (ran : dispatchAll name start steps = .ok result) : Ran start steps result := by
  have whole := foldlM_ok_invariant (Ran start) (fun done step before after known stepped => ?_) steps (start, []) result
    [] (Ran.first aligned) ran
  · exact whole
  · simp only [bind_ok, pure_ok] at stepped
    obtain ⟨⟨state, cursor, calls⟩, dispatched, rfl⟩ := stepped
    exact known.step dispatched

/-- The checkpoint of a runtime. -/
def checkpoint (runtime : Runtime F) : RestoreImage F :=
  ⟨runtime.state.window, runtime.state.lastDt, runtime.cursor.time, runtime.cursor.macroStep⟩

/-- A checkpoint of a sound runtime is staged and restored into any runtime of
the same cadence. -/
theorem restore_checkpoint {other : State F} (sound : InPhase runtime) (idle : runtime.state.restore = none)
    (lastDt : 0 ≤ runtime.state.lastDt) (otherIdle : other.restore = none)
    (stride : other.stride = runtime.state.stride) (substeps : other.substeps = runtime.state.substeps) :
    ∃ staged, restoreWindow name other (checkpoint runtime) = .ok staged ∧
      setClock name staged runtime.cursor.time runtime.cursor.macroStep = .ok (runtime.state, runtime.cursor) := by
  obtain ⟨image, timed⟩ := (validate_ok name).mpr (sound.congr stride substeps)
  refine ⟨{ other with restore := some (checkpoint runtime) }, ?_, ?_⟩
  · have exactLastDt : CadenceDouble.equal (CadenceDouble.toReal runtime.state.lastDt) runtime.state.lastDt = true :=
      exact_equal.mpr rfl
    have nonnegative : isNegative runtime.state.lastDt = false := exact_negative.mpr lastDt
    simp only [restoreWindow, bind_ok, throwIf_ok, unit_exists, pure_ok, checkpoint, exact_finite, otherIdle,
      exactLastDt, nonnegative]
    exact ⟨by simp, image, timed, by simp, by simp, trivial⟩
  · have here : CadenceDouble.sameBits runtime.cursor.time runtime.cursor.time = true := decide_eq_true rfl
    have restored : cancelRestore { other with
        window := runtime.state.window
        restore := some (checkpoint runtime)
        lastDt := runtime.state.lastDt } = runtime.state := by
      rw [cancelRestore, stride, substeps, ← idle]
    simp only [setClock, consumeRestore, bind_ok, throwIf_ok, unit_exists, pure_ok, checkpoint, here]
    refine ⟨not_lt.mpr sound.macroStep, by simp, runtime.state, ⟨by simp, image, timed, restored⟩, rfl⟩

variable [IsStrictOrderedRing F]

private theorem endpoint_eq {step : PreparedStep F} {substeps boundary : ℤ} (positive : 1 ≤ substeps)
    (coherent : step.windowStart + step.numericalDt = step.windowEnd) :
    step.endpoint substeps boundary =
      step.windowStart + step.numericalDt * ((boundary : F) / (substeps : F)) := by
  unfold PreparedStep.endpoint
  split
  · rename_i first
    simp [first]
  · split
    · rename_i last
      have nonzero : (substeps : F) ≠ 0 := Int.cast_ne_zero.mpr (by omega)
      rw [last, div_self nonzero, mul_one, coherent]
    · rfl

private theorem exists_prepareSubstep {step : PreparedStep F} {substep substeps : ℤ} (due : step.due = true)
    (low : 0 ≤ substep) (high : substep < substeps) (positive : 0 < step.numericalDt)
    (coherent : step.windowStart + step.numericalDt = step.windowEnd) :
    ∃ partition, prepareSubstep name step substep substeps = .ok partition := by
  have some : 1 ≤ substeps := by omega
  have counted : (0 : F) < substeps := Int.cast_pos.mpr (by omega)
  have piece : step.endpoint substeps (substep + 1) = step.endpoint substeps substep + step.numericalDt / substeps := by
    rw [endpoint_eq some coherent, endpoint_eq some coherent]
    push_cast
    field_simp
    ring
  have advances : 0 < step.numericalDt / substeps := div_pos positive counted
  have dtIs : (if substeps = 1 then step.numericalDt
      else Double.sub (step.endpoint substeps (substep + 1)) (step.endpoint substeps substep)) =
        step.numericalDt / substeps := by
    split
    · rename_i one
      rw [one, Int.cast_one, div_one]
    · rw [exact_sub, piece, add_sub_cancel_left]
  simp only [prepareSubstep, bind_ok, throwIf_ok, unit_exists, pure_ok, dtIs]
  refine ⟨_, by simp [due], by omega, ?_, rfl⟩
  simp [piece, advances]

private theorem prepared_coherent {dt : F} (sound : InPhase runtime) (positive : 0 < dt) :
    0 < (prepared runtime.state runtime.cursor dt).numericalDt ∧
      (prepared runtime.state runtime.cursor dt).windowStart + (prepared runtime.state runtime.cursor dt).numericalDt =
        (prepared runtime.state runtime.cursor dt).windowEnd := by
  by_cases first : runtime.state.window.steps = 0
  · simp [prepared, first, positive]
  · have before := exact_less.mp (sound.precedes first)
    simp only [prepared, if_neg first, exact_add, exact_sub]
    exact ⟨by linarith, by ring⟩

private theorem representable {dt : F} (sound : InPhase runtime) (positive : 0 < dt) :
    Representable runtime.state runtime.cursor dt := by
  obtain ⟨spans, coherent⟩ := prepared_coherent sound positive
  refine ⟨rfl, exact_positive.mpr positive, rfl, ?_, rfl, ?_, rfl, exact_positive.mpr spans,
    exact_equal.mpr coherent⟩
  · simp [prepared, positive]
  · simp [prepared, positive]

section
variable {runtime : Runtime F} {installed : Program F} {dt : F}

private theorem prepared_not_incoherent (sound : InPhase runtime) (positive : 0 < dt) :
    ¬ (prepared runtime.state runtime.cursor dt).Incoherent := by
  obtain ⟨spans, coherent⟩ := prepared_coherent sound positive
  have before : (prepared runtime.state runtime.cursor dt).windowStart <
      (prepared runtime.state runtime.cursor dt).windowEnd := by linarith
  simp [PreparedStep.Incoherent, spans, before, coherent]

private theorem exists_runStep (name : String) (sound : InPhase runtime) (returns : ∀ substep call, installed substep call = .ok ())
    (positive : 0 < dt) (counted : runtime.cursor.macroStep < intMax) :
    ∃ calls, runStep name installed runtime.state (prepared runtime.state runtime.cursor dt)
      runtime.cursor.macroStep = .ok calls := by
  obtain ⟨spans, coherent⟩ := prepared_coherent sound positive
  have low := sound.nonnegative
  have held := sound.held
  unfold runStep
  split
  · rename_i due
    have partitioned : ∀ substep ∈ substepIndices runtime.state.substeps, ∃ partition,
        prepareSubstep name (prepared runtime.state runtime.cursor dt) substep runtime.state.substeps =
          .ok partition := by
      intro substep listed
      obtain ⟨index, below, rfl⟩ := List.mem_map.mp listed
      rw [List.mem_range] at below
      exact exists_prepareSubstep due (Int.natCast_nonneg index) (by simp only [Int.ofNat_eq_natCast]; omega) spans
        coherent
    obtain ⟨calls, ran⟩ : ∃ calls, runSubsteps name installed (prepared runtime.state runtime.cursor dt)
        runtime.state.substeps (runtime.cursor.macroStep - runtime.state.window.steps) = .ok calls := by
      refine exists_mapM_ok fun substep listed => ?_
      obtain ⟨partition, accepted⟩ := partitioned substep listed
      refine ⟨⟨partition.start, runtime.cursor.macroStep - runtime.state.window.steps, partition.dt⟩, ?_⟩
      simp only [accepted, ok_bind, returns]
      rfl
    have heldBefore : (prepared runtime.state runtime.cursor dt).windowSteps - 1 = runtime.state.window.steps := by
      simp [prepared]
    refine ⟨calls, ?_⟩
    simp only [bind_ok, throwIf_ok, unit_exists, beginBalanceDueWindow, heldBefore]
    refine ⟨?_, by omega, by omega, ran⟩
    simp only [validatePartition, bind_ok, throwIf_ok, unit_exists, forM_ok]
    refine ⟨by simp [due, prepared_not_incoherent sound positive, sound.substeps], fun substep listed => ?_⟩
    obtain ⟨partition, accepted⟩ := partitioned substep listed
    exact ⟨partition, accepted, rfl⟩
  · exact ⟨[], rfl⟩

private theorem exists_commitStep (name : String) (sound : InPhase runtime) (positive : 0 < dt) (lastDt : F) :
    ∃ committed, commitStep name { runtime.state with lastDt } (prepared runtime.state runtime.cursor dt) =
      .ok committed := by
  have low := sound.nonnegative
  have high := sound.below
  have growing : isPositive (prepared runtime.state runtime.cursor dt).effectiveDt = true :=
    OrderedDouble.zero_less sound.dtFinite sound.dtNonnegative (representable sound positive).grows
  unfold commitStep
  rw [throwIf_of_not]
  · rw [ok_bind]
    split
    · exact ⟨_, rfl⟩
    · exact ⟨_, rfl⟩
  · simp only [not_or, prepared_not_incoherent sound positive, growing, exact_finite]
    simp only [prepared]
    exact ⟨by simp, by omega, by omega, fun differs => differs rfl, by simp, by simp, by simp⟩

theorem exists_dispatchStep (name : String) (sound : InPhase runtime) (idle : runtime.state.restore = none)
    (returns : ∀ substep call, installed substep call = .ok ()) (positive : 0 < dt)
    (counted : runtime.cursor.macroStep < intMax) :
    ∃ after, dispatchStep name (some installed) runtime.state runtime.cursor dt = .ok after := by
  obtain ⟨calls, ran⟩ := exists_runStep name sound returns positive counted
  obtain ⟨committed, commits⟩ := exists_commitStep name sound positive
    ((calls.getLast?.map fun call => CadenceDouble.toReal call.dt).getD runtime.state.lastDt)
  refine ⟨(committed, ⟨(prepared runtime.state runtime.cursor dt).windowEnd, runtime.cursor.macroStep + 1⟩, calls), ?_⟩
  simp only [dispatchStep, bind_ok, throwIf_ok, unit_exists, pure_ok, prepareStep_ok]
  exact ⟨_, ⟨idle, sound, representable sound positive, rfl⟩, by omega, calls, ran, committed, commits, rfl⟩

end

/-- In exact arithmetic a run from an aligned start does what its windows say,
every sequence of positive steps runs, and a checkpoint of any point of a run
brings that point back. -/
theorem cadence_windows_tile (name : String) (aligned : Aligned start) :
    (∀ steps : List (Option (Program F) × F),
      (∀ step ∈ steps, 0 < step.2 ∧ ∃ installed, step.1 = some installed ∧
        ∀ substep call, installed substep call = .ok ()) →
      start.cursor.macroStep + steps.length ≤ intMax → ∃ result, dispatchAll name start steps = .ok result) ∧
    ∀ (steps : List (Option (Program F) × F)) (after : Runtime F) (calls : List (List (Call F))),
      dispatchAll name start steps = .ok (after, calls) →
        after.cursor = ⟨timeAfter start steps steps.length, start.cursor.macroStep + steps.length⟩ ∧
        calls.length = steps.length ∧
        (∀ index stepCalls, calls[index]? = some stepCalls → CallsOf start steps index stepCalls) ∧
        ∀ other : State F, other.restore = none → other.stride = start.state.stride →
          other.substeps = start.state.substeps →
            ∃ staged, restoreWindow name other (checkpoint after) = .ok staged ∧
              setClock name staged after.cursor.time after.cursor.macroStep = .ok (after.state, after.cursor) := by
  constructor
  · intro steps accepted counted
    induction steps using List.reverseRecOn with
    | nil => exact ⟨(start, []), rfl⟩
    | append_singleton done step ih =>
      rw [List.length_append, List.length_singleton] at counted
      push_cast at counted
      obtain ⟨before, ranBefore⟩ := ih (fun other listed => accepted other (by simp [listed])) (by omega)
      have ran := ran_of_dispatchAll aligned ranBefore
      obtain ⟨positive, installed, isInstalled, returns⟩ := accepted step (by simp)
      obtain ⟨after, stepped⟩ := exists_dispatchStep name ran.sound ran.idle returns positive
        (by rw [ran.macroStep]; omega)
      refine ⟨(⟨after.1, after.2.1⟩, before.2 ++ [after.2.2]), ?_⟩
      unfold dispatchAll at ranBefore ⊢
      rw [List.foldlM_append, ranBefore, ok_bind, List.foldlM_cons, isInstalled, stepped]
      rfl
  · intro steps after calls dispatched
    have ran := ran_of_dispatchAll aligned dispatched
    refine ⟨?_, ran.length, ran.calls, fun other otherIdle stride substeps => ?_⟩
    · rw [← ran.time, ← ran.macroStep]
    · exact restore_checkpoint ran.sound ran.idle ran.lastDt otherIdle (by rw [stride, ran.stride])
        (by rw [substeps, ran.substeps])

/-- Two steps of unequal length with a stride of two: one window over both. -/
theorem cadence_windows_tile_two_steps :
    ∃ (after : Runtime ℚ) (calls : List (List (Call ℚ))),
      dispatchAll "System" ⟨⟨1, 2, inactive, none, 0⟩, ⟨0, 0⟩⟩
        [(some fun _ _ => .ok (), 1), (some fun _ _ => .ok (), 2)] = .ok (after, calls) ∧
      after.cursor.time = 3 ∧ ∀ window, calls[1]? = some window → Tiles 0 0 3 window := by
  have aligned : Aligned (⟨⟨1, 2, inactive, none, 0⟩, ⟨0, 0⟩⟩ : Runtime ℚ) :=
    ⟨rfl, rfl, le_rfl, by decide, le_rfl, rfl, le_rfl⟩
  obtain ⟨accepts, tiles⟩ := cadence_windows_tile "System" aligned
  obtain ⟨⟨after, calls⟩, ran⟩ := accepts [(some fun _ _ => .ok (), 1), (some fun _ _ => .ok (), 2)]
    (by simp) (by decide)
  obtain ⟨cursor, -, windows, -⟩ := tiles _ after calls ran
  refine ⟨after, calls, ran, ?_, fun window found => ?_⟩
  · rw [cursor]
    norm_num [timeAfter]
  · have due := windows 1 window found
    norm_num [CallsOf, timeAfter] at due
    exact due.2

end Cadence

end Pops
