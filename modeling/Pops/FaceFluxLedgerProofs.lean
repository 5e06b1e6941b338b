import Pops.ClockProofs
import Pops.FaceFluxLedger
import Pops.NestedTransactions

/-!
The ledger refines nested transactions: on each axis its pending entries are
the ones the open transactions collected, and only the outermost commit, a
clear or the discarding of an attempt changes the published ones.
-/
namespace Pops

variable {d : ℕ} {T Payload : Type}

private theorem compared_iff {α : Type} [LinearOrder α] [DecidableLT α] {left right : α} :
    compared left right = (false, false) ↔ left = right := by
  simp only [compared, Prod.mk.injEq, decide_eq_false_iff_not, not_lt]
  constructor
  · rintro ⟨above, below⟩
    exact le_antisymm below above
  · rintro rfl
    exact ⟨le_rfl, le_rfl⟩

private theorem tupleLess_neither (elements : List (Bool × Bool)) :
    tupleLess elements = false ∧ tupleLess (elements.map Prod.swap) = false ↔
      ∀ element ∈ elements, element = (false, false) := by
  induction elements with
  | nil => simp [tupleLess]
  | cons element rest ih =>
    obtain ⟨below, above⟩ := element
    simp only [tupleLess, List.map_cons, Prod.swap_prod_mk, List.mem_cons, forall_eq_or_imp, ← ih]
    cases below <;> cases above <;> simp

private theorem indexLess_neither {left right : Fin d → ℤ} :
    indexLess left right = false ∧ indexLess right left = false ↔ left = right := by
  have symmetric : (List.finRange d).find? (fun axis => right axis ≠ left axis) =
      (List.finRange d).find? fun axis => left axis ≠ right axis := by
    simp only [ne_comm]
  unfold indexLess
  rw [symmetric]
  cases found : (List.finRange d).find? fun axis => left axis ≠ right axis with
  | none =>
    have same : left = right := by
      funext axis
      have here := List.find?_eq_none.mp found axis (List.mem_finRange axis)
      simpa using here
    simp [same]
  | some axis =>
    have differ : left axis ≠ right axis := by simpa using List.find?_some found
    simp only [decide_eq_false_iff_not, not_lt]
    constructor
    · rintro ⟨above, below⟩
      exact absurd (le_antisymm below above) differ
    · rintro rfl
      exact absurd rfl differ

private theorem indexEqual_iff {left right : Fin d → ℤ} : indexEqual left right = true ↔ left = right := by
  rw [← indexLess_neither]
  simp [indexEqual]

namespace FaceFluxFragmentKey

/-- Everything a key is told apart by: all but the physical time of its clock. -/
def identity (key : FaceFluxFragmentKey d T) :=
  (key.lead, key.coarseFace, key.face, key.clock.coordinate, key.stage, key.attempt, key.role,
    key.contribution)

private theorem centering_value {left right : FaceLedgerCentering} : left.value = right.value ↔ left = right := by
  cases left <;> cases right <;> decide

private theorem role_value {left right : FaceLedgerRole} : left.value = right.value ↔ left = right := by
  cases left <;> cases right <;> decide

private theorem contribution_value {left right : FaceLedgerContribution} :
    left.value = right.value ↔ left = right := by
  cases left <;> cases right <;> decide

private theorem lead_neither {left right : FaceFluxFragmentKey d T} (differ : left.lead ≠ right.lead) :
    ¬ (left.less right = false ∧ right.less left = false) := by
  unfold less
  rw [if_pos differ, if_pos differ.symm]
  intro neither
  have same := (tupleLess_neither [compared left.owner right.owner, compared left.state right.state,
    compared left.levels.coarse right.levels.coarse, compared left.levels.fine right.levels.fine,
    compared left.centering.value right.centering.value, compared left.axis right.axis]).mp neither
  simp only [List.mem_cons, List.not_mem_nil, or_false, forall_eq_or_imp, forall_eq, compared_iff,
    centering_value] at same
  apply differ
  simpa only [lead, Prod.mk.injEq] using same

private theorem clock_neither {left right : ClockStamp T}
    (neither : tupleLess [compared left.level right.level, compared left.macroStep right.macroStep,
        compared left.phase.numerator right.phase.numerator,
        compared left.phase.denominator right.phase.denominator] = false ∧
      tupleLess [compared right.level left.level, compared right.macroStep left.macroStep,
        compared right.phase.numerator left.phase.numerator,
        compared right.phase.denominator left.phase.denominator] = false) :
    left.coordinate = right.coordinate := by
  have same := (tupleLess_neither [compared left.level right.level, compared left.macroStep right.macroStep,
    compared left.phase.numerator right.phase.numerator,
    compared left.phase.denominator right.phase.denominator]).mp neither
  simp only [List.mem_cons, List.not_mem_nil, or_false, forall_eq_or_imp, forall_eq, compared_iff] at same
  simpa only [ClockStamp.coordinate, Prod.mk.injEq] using same

theorem sameIdentity_iff {left right : FaceFluxFragmentKey d T} :
    left.sameIdentity right = true ↔ left.identity = right.identity := by
  simp only [sameIdentity, Bool.and_eq_true, Bool.not_eq_true', identity, Prod.mk.injEq]
  by_cases leads : left.lead = right.lead
  swap
  · simp only [leads, false_and, iff_false]
    exact lead_neither leads
  unfold less
  rw [if_neg (not_not.mpr leads), if_neg (not_not.mpr leads.symm)]
  by_cases coarse : left.coarseFace = right.coarseFace
  swap
  · rw [if_pos (mt indexEqual_iff.mp coarse), if_pos (mt indexEqual_iff.mp (Ne.symm coarse)), indexLess_neither]
    simp only [coarse, false_and, and_false]
  rw [if_neg (not_not.mpr (indexEqual_iff.mpr coarse)), if_neg (not_not.mpr (indexEqual_iff.mpr coarse.symm))]
  by_cases faces : left.face = right.face
  swap
  · rw [if_pos (mt indexEqual_iff.mp faces), if_pos (mt indexEqual_iff.mp (Ne.symm faces)), indexLess_neither]
    simp only [faces, false_and, and_false]
  rw [if_neg (not_not.mpr (indexEqual_iff.mpr faces)), if_neg (not_not.mpr (indexEqual_iff.mpr faces.symm))]
  by_cases clocks : left.clock.coordinate = right.clock.coordinate
  swap
  · rw [if_pos clocks, if_pos (Ne.symm clocks)]
    simp only [clocks, false_and, and_false, iff_false]
    exact mt clock_neither clocks
  rw [if_neg (not_not.mpr clocks), if_neg (not_not.mpr clocks.symm)]
  refine (tupleLess_neither [compared left.stage right.stage, compared left.attempt right.attempt,
    compared left.role.value right.role.value,
    compared left.contribution.value right.contribution.value]).trans ?_
  simp only [List.mem_cons, List.not_mem_nil, or_false, forall_eq_or_imp, forall_eq, compared_iff, role_value,
    contribution_value, leads, coarse, faces, clocks, true_and]

end FaceFluxFragmentKey

namespace FaceFluxLedger
variable {ledger after : FaceFluxLedger d T Payload} {fault : Option Exception} {u : Unit}

theorem requireTransaction_ok {operation : String} :
    ledger.requireTransaction operation = .ok u ↔ ledger.savepoints ≠ [] := by
  simp [requireTransaction, InTransaction]

theorem requireAttempt_ok {attempt : ℕ} (passed : ledger.requireAttempt attempt = .ok u) :
    (∀ active ∈ ledger.activeAttempt, active = attempt) ∧
      (ledger.activeAttempt = none → ∀ last ∈ ledger.lastClosedAttempt, last < attempt) := by
  unfold requireAttempt at passed
  cases active : ledger.activeAttempt with
  | none =>
    rw [active, throwIf_ok] at passed
    refine ⟨by simp, fun _ last closed => ?_⟩
    exact lt_of_not_ge fun stale => passed ⟨last, closed, stale⟩
  | some number =>
    rw [active, throwIf_ok, not_not] at passed
    simp [passed]

theorem beginAttempt_ok {attempt : ℕ} (ran : beginAttempt attempt fault ledger = (.ok u, after)) :
    (∀ active ∈ ledger.activeAttempt, active = attempt) ∧
      (ledger.activeAttempt = none → ∀ last ∈ ledger.lastClosedAttempt, last < attempt) ∧
      after = { ledger with
        savepoints := (fun axis => (ledger.pending axis).length) :: ledger.savepoints
        activeAttempt := some attempt } := by
  simp only [beginAttempt, Member.bind_ok, Member.get_ok, Member.lift_ok, Member.throwIf_ok,
    Member.modify_ok] at ran
  obtain ⟨_, _, ⟨rfl, rfl⟩, _, _, ⟨passed, rfl⟩, _, _, ⟨-, rfl⟩, _, _, ⟨-, rfl⟩, rfl⟩ := ran
  obtain ⟨retained, increasing⟩ := requireAttempt_ok passed
  refine ⟨retained, increasing, ?_⟩
  cases active : ledger.activeAttempt with
  | none => rfl
  | some number => rw [retained number active]; rfl

theorem commit_ok (ran : commit fault ledger = (.ok u, after)) :
    ledger.savepoints ≠ [] ∧
      after = if 1 < ledger.savepoints.length then { ledger with savepoints := ledger.savepoints.tail }
        else { ledger with
          published := fun axis => ledger.published axis ++ ledger.pending axis
          pending := fun _ => [] }.closeOuterTransaction := by
  simp only [commit, Member.bind_ok, Member.get_ok, Member.lift_ok, requireTransaction_ok] at ran
  obtain ⟨_, _, ⟨rfl, rfl⟩, _, _, ⟨active, rfl⟩, ran⟩ := ran
  refine ⟨active, ?_⟩
  split at ran
  · rw [if_pos ‹_›]
    exact (Member.modify_ok.mp ran).symm
  · rw [if_neg ‹_›]
    simp only [Member.bind_ok, Member.lift_ok, Member.throwIf_ok, Member.modify_ok] at ran
    obtain ⟨_, _, ⟨-, rfl⟩, _, _, ⟨-, rfl⟩, rfl⟩ := ran
    rfl

theorem rollback_ok (ran : rollback ledger = (.ok u, after)) :
    ∃ sizes around, ledger.savepoints = sizes :: around ∧
      after = { ledger with
        pending := fun axis => (ledger.pending axis).take (sizes axis)
        savepoints := around
        lastClosedAttempt := if around = [] then ledger.activeAttempt else ledger.lastClosedAttempt
        activeAttempt := if around = [] then none else ledger.activeAttempt } := by
  simp only [rollback, Member.bind_ok, Member.get_ok, Member.lift_ok, requireTransaction_ok,
    Member.modify_ok] at ran
  obtain ⟨_, _, ⟨rfl, rfl⟩, _, _, ⟨active, rfl⟩, _, _, rfl, rfl⟩ := ran
  cases saved : ledger.savepoints with
  | nil => exact absurd saved active
  | cons sizes around =>
    refine ⟨sizes, around, rfl, ?_⟩
    simp only [List.tail_cons, List.headD_cons]
    by_cases outermost : around = []
    · simp only [outermost, if_true]
    · simp only [outermost, if_false]

theorem clear_ok (ran : clear ledger = (.ok u, after)) :
    ledger.savepoints = [] ∧
      after = { ledger with pending := fun _ => [], published := fun _ => [], lastClosedAttempt := none } := by
  simp only [clear, Member.bind_ok, Member.get_ok, Member.throwIf_ok, Member.modify_ok] at ran
  obtain ⟨_, _, ⟨rfl, rfl⟩, _, _, ⟨idle, rfl⟩, rfl⟩ := ran
  exact ⟨not_not.mp idle, rfl⟩

theorem checkedAxis_ok {axis : ℤ} {index : Fin d} : checkedAxis axis = .ok index ↔ axis = index := by
  unfold checkedAxis
  split
  · rw [Except.ok.injEq, Fin.ext_iff]
    simp only
    omega
  · simp only [reduceCtorEq, false_iff]
    omega

theorem accumulate_ok [Double T] {key : FaceFluxFragmentKey d T} {measure : FaceFluxFragmentMeasure T}
    {payload : Payload} (ran : accumulate key measure payload fault ledger = (.ok u, after)) :
    ∃ axis : Fin d, key.axis = axis ∧ ledger.savepoints ≠ [] ∧ ledger.activeAttempt = some key.attempt ∧
      (∀ entry ∈ ledger.published axis ++ ledger.pending axis, entry.key.sameIdentity key = false) ∧
      after = { ledger with
        pending := Function.update ledger.pending axis (ledger.pending axis ++ [⟨key, measure, payload⟩]) } := by
  simp only [accumulate, Member.bind_ok, Member.get_ok, Member.lift_ok, requireTransaction_ok,
    Member.throwIf_ok, Member.modify_ok, checkedAxis_ok, not_not] at ran
  obtain ⟨_, _, ⟨rfl, rfl⟩, _, _, ⟨active, rfl⟩, _, _, ⟨current, rfl⟩, _, _, ⟨-, rfl⟩, _, _, ⟨-, rfl⟩, axis, _,
    ⟨onAxis, rfl⟩, _, _, ⟨fresh, rfl⟩, _, _, ⟨-, rfl⟩, rfl⟩ := ran
  refine ⟨axis, onAxis, active, current.symm, ?_, rfl⟩
  intro entry listed
  simp only [containsIdentity, List.any_eq_true, not_or, not_exists, not_and, Bool.not_eq_true] at fresh
  rcases List.mem_append.mp listed with known | known
  · exact fresh.2 entry known
  · exact fresh.1 entry known

theorem discardPublishedAttempt_ok {attempt removed : ℕ}
    (ran : discardPublishedAttempt attempt fault ledger = (.ok removed, after)) :
    ledger.savepoints = [] ∧ after = { ledger with
      published := fun axis => (ledger.published axis).filter (·.key.attempt ≠ attempt) } := by
  simp only [discardPublishedAttempt, Member.bind_ok, Member.get_ok, Member.throwIf_ok, Member.lift_ok,
    Member.modify_ok, Member.pure_ok] at ran
  obtain ⟨_, _, ⟨rfl, rfl⟩, _, _, ⟨idle, rfl⟩, _, _, ⟨-, rfl⟩, _, _, rfl, -, rfl⟩ := ran
  exact ⟨not_not.mp idle, rfl⟩

/-- A call on the ledger. -/
inductive Operation (d : ℕ) (T Payload : Type) where
  | beginAttempt (attempt : ℕ) (fault : Option Exception)
  | accumulate (key : FaceFluxFragmentKey d T) (measure : FaceFluxFragmentMeasure T) (payload : Payload)
      (fault : Option Exception)
  | commit (fault : Option Exception)
  | rollback
  | clear
  | discardPublishedAttempt (attempt : ℕ) (fault : Option Exception)

/-- The ledger with what was done to it: the transactions it stands for, and
the attempts of the outermost ones since the last clear. -/
structure History (d : ℕ) (T Payload : Type) where
  ledger : FaceFluxLedger d T Payload
  nested : NestedTransactions (FaceFluxFragment d T Payload) := {}
  attempts : List ℕ := []

namespace History

/-- What an operation that returned adds. -/
def recorded (history : History d T Payload) : Operation d T Payload → History d T Payload
  | .beginAttempt attempt _ => { history with
      nested := history.nested.opened
      attempts := if history.nested.frames = [] then history.attempts ++ [attempt] else history.attempts }
  | .accumulate key measure payload _ => { history with
      nested := history.nested.record ⟨key, measure, payload⟩ }
  | .commit _ => { history with nested := history.nested.closed (· ++ ·) }
  | .rollback => { history with nested := history.nested.abandoned }
  | .clear => { history with nested := { history.nested with published := [] }, attempts := [] }
  | .discardPublishedAttempt attempt _ => { history with
      nested := { history.nested with
        published := history.nested.published.filter (·.key.attempt ≠ attempt) } }

end History

/-- The entries on an axis. -/
def onAxis (axis : Fin d) (entries : List (FaceFluxFragment d T Payload)) :
    List (FaceFluxFragment d T Payload) :=
  entries.filter fun entry => entry.key.axis = axis

@[simp]
theorem onAxis_append (axis : Fin d) (entries others : List (FaceFluxFragment d T Payload)) :
    onAxis axis (entries ++ others) = onAxis axis entries ++ onAxis axis others := by
  simp [onAxis]

/-- How many entries there are on each axis. -/
def axisSizes (entries : List (FaceFluxFragment d T Payload)) (axis : Fin d) : ℕ :=
  (onAxis axis entries).length

/-- The ledger keeps the transactions it stands for. -/
structure History.Consistent (history : History d T Payload) : Prop where
  marks : NestedTransactions.Marks axisSizes history.ledger.savepoints history.nested.frames
  pending : ∀ axis, history.ledger.pending axis = onAxis axis history.nested.pending
  published : ∀ axis, history.ledger.published axis = onAxis axis history.nested.published
  located : ∀ entry ∈ history.nested.published ++ history.nested.pending, ∃ axis : Fin d, entry.key.axis = axis
  distinct : ∀ axis, (history.ledger.published axis ++ history.ledger.pending axis).Pairwise
    fun entry other => entry.key.sameIdentity other.key = false
  increasing : history.attempts.Pairwise (· < ·)
  idle : history.nested.frames = [] →
    history.ledger.activeAttempt = none ∧ history.ledger.lastClosedAttempt = history.attempts.getLast?
  busy : history.nested.frames ≠ [] →
    ∃ attempt, history.ledger.activeAttempt = some attempt ∧ history.attempts.getLast? = some attempt

namespace History.Consistent
variable {history : History d T Payload}

theorem depth_eq (consistent : history.Consistent) :
    history.ledger.savepoints.length = history.nested.frames.length :=
  consistent.marks.length_eq

theorem frames_eq_nil (consistent : history.Consistent) :
    history.nested.frames = [] ↔ history.ledger.savepoints = [] := by
  rw [← List.length_eq_zero_iff, ← List.length_eq_zero_iff, consistent.depth_eq]

theorem start {budget : FaceFluxLedgerBudget} {ledger : FaceFluxLedger d T Payload}
    (created : create budget = .ok ledger) : History.Consistent { ledger } := by
  unfold create at created
  split at created
  · cases created
    exact {
      marks := .nil
      pending := fun _ => rfl
      published := fun _ => rfl
      located := fun _ listed => nomatch listed
      distinct := fun _ => .nil
      increasing := .nil
      idle := fun _ => ⟨rfl, rfl⟩
      busy := fun active => absurd rfl active }
  · cases created

private theorem increasing_append {numbers : List ℕ} {next : ℕ} (increasing : numbers.Pairwise (· < ·))
    (above : ∀ last ∈ numbers.getLast?, last < next) : (numbers ++ [next]).Pairwise (· < ·) := by
  rw [List.pairwise_append]
  refine ⟨increasing, List.pairwise_singleton _ _, ?_⟩
  intro number listed other single
  rw [List.mem_singleton.mp single]
  rcases List.eq_nil_or_concat numbers with rfl | ⟨front, last, rfl⟩
  · cases listed
  · have lastBelow : last < next := above last (by simp)
    rw [List.concat_eq_append, List.pairwise_append] at increasing
    rcases List.mem_append.mp (List.concat_eq_append ▸ listed) with earlier | final
    · exact (increasing.2.2 number earlier last (by simp)).trans lastBelow
    · rwa [List.mem_singleton.mp final]

theorem beginAttempt {attempt : ℕ} (consistent : history.Consistent)
    (ran : FaceFluxLedger.beginAttempt attempt fault history.ledger = (.ok u, after)) :
    History.Consistent { history.recorded (.beginAttempt attempt fault) with ledger := after } := by
  obtain ⟨retained, increasing, rfl⟩ := beginAttempt_ok ran
  have sizes : (fun axis => (history.ledger.pending axis).length) =
      axisSizes (NestedTransactions.pendingOf history.nested.frames) := by
    funext axis
    rw [consistent.pending]
    rfl
  exact {
    marks := by
      rw [sizes]
      exact .cons [] consistent.marks
    pending := by simpa only [History.recorded, NestedTransactions.pending_opened] using consistent.pending
    published := consistent.published
    located := by
      rw [History.recorded, NestedTransactions.pending_opened]
      exact consistent.located
    distinct := consistent.distinct
    increasing := by
      simp only [History.recorded]
      split
      · rename_i outermost
        obtain ⟨inactive, last⟩ := consistent.idle outermost
        rw [last] at increasing
        exact increasing_append consistent.increasing (increasing inactive)
      · exact consistent.increasing
    idle := fun closed => nomatch closed
    busy := by
      intro _
      refine ⟨attempt, rfl, ?_⟩
      simp only [History.recorded]
      split
      · rw [List.getLast?_append]
        rfl
      · rename_i nested
        obtain ⟨active, current, last⟩ := consistent.busy nested
        rw [last, retained active current] }

theorem accumulate [Double T] {key : FaceFluxFragmentKey d T} {measure : FaceFluxFragmentMeasure T}
    {payload : Payload} (consistent : history.Consistent)
    (ran : FaceFluxLedger.accumulate key measure payload fault history.ledger = (.ok u, after)) :
    History.Consistent { history.recorded (.accumulate key measure payload fault) with ledger := after } := by
  obtain ⟨axis, keyAxis, active, -, fresh, rfl⟩ := accumulate_ok ran
  have framed : history.nested.frames ≠ [] := mt consistent.frames_eq_nil.mp active
  have entryOnAxis (other : Fin d) : onAxis other [(⟨key, measure, payload⟩ : FaceFluxFragment d T Payload)] =
      if other = axis then [⟨key, measure, payload⟩] else [] := by
    by_cases same : other = axis
    · simp [onAxis, keyAxis, same]
    · have differ : ¬ (axis : ℤ) = other := fun equal => same (Fin.ext (by exact_mod_cast equal.symm))
      simp [onAxis, keyAxis, same, differ]
  exact {
    marks := consistent.marks.record
    pending := by
      intro other
      simp only [History.recorded, NestedTransactions.pending_record framed, onAxis_append, entryOnAxis,
        ← consistent.pending, Function.update_apply]
      by_cases same : other = axis
      · simp only [same, if_true]
      · simp only [same, if_false, List.append_nil]
    published := by simpa only [History.recorded, NestedTransactions.published_record] using consistent.published
    located := by
      intro entry listed
      simp only [History.recorded, NestedTransactions.published_record,
        NestedTransactions.pending_record framed, ← List.append_assoc] at listed
      rcases List.mem_append.mp listed with known | new
      · exact consistent.located entry known
      · rw [List.mem_singleton.mp new]
        exact ⟨axis, keyAxis⟩
    distinct := by
      intro other
      simp only [Function.update_apply]
      split
      · rename_i same
        rw [same, ← List.append_assoc, List.pairwise_append]
        refine ⟨consistent.distinct axis, List.pairwise_singleton _ _, ?_⟩
        intro entry listed new single
        rw [List.mem_singleton.mp single]
        exact fresh entry listed
      · exact consistent.distinct other
    increasing := consistent.increasing
    idle := fun closed => absurd closed (NestedTransactions.frames_record_ne_nil framed)
    busy := fun _ => consistent.busy framed }

theorem commit (consistent : history.Consistent)
    (ran : FaceFluxLedger.commit fault history.ledger = (.ok u, after)) :
    History.Consistent { history.recorded (.commit fault) with ledger := after } := by
  obtain ⟨active, rfl⟩ := commit_ok ran
  have depth := consistent.depth_eq
  have framed := mt consistent.frames_eq_nil.mp active
  obtain ⟨current, activeNow, last⟩ := consistent.busy framed
  cases frames : history.nested.frames with
  | nil => exact absurd frames framed
  | cons frame around =>
    cases around with
    | nil =>
      have outermost : ¬ 1 < history.ledger.savepoints.length := by simp [depth, frames]
      have collected : history.nested.pending = frame := by simp [NestedTransactions.pending, frames]
      rw [if_neg outermost, History.recorded, NestedTransactions.closed_outermost frames]
      exact {
        marks := by
          have alone : history.ledger.savepoints.tail = [] := by
            rw [← List.length_eq_zero_iff, List.length_tail]
            omega
          rw [closeOuterTransaction, alone]
          exact .nil
        pending := fun _ => rfl
        published := by
          intro axis
          rw [onAxis_append, ← consistent.published, ← collected, ← consistent.pending]
          rfl
        located := by
          have located := consistent.located
          rw [collected] at located
          simpa [NestedTransactions.pending] using located
        distinct := by
          intro axis
          simpa only [closeOuterTransaction, List.append_nil] using consistent.distinct axis
        increasing := consistent.increasing
        idle := fun _ => ⟨rfl, activeNow.trans last.symm⟩
        busy := fun open' => absurd rfl open' }
    | cons parent around =>
      have nested : 1 < history.ledger.savepoints.length := by simp [depth, frames]
      rw [if_pos nested, History.recorded, NestedTransactions.closed_nested frames]
      have collected : NestedTransactions.pendingOf ((parent ++ frame) :: around) = history.nested.pending := by
        simp [NestedTransactions.pending, frames]
      exact {
        marks := by
          have marks := consistent.marks
          rw [frames] at marks
          cases saved : history.ledger.savepoints with
          | nil => exact absurd saved active
          | cons mark sizes =>
            rw [saved] at marks
            exact marks.drop.2.replace
        pending := fun axis => (consistent.pending axis).trans (congrArg _ collected.symm)
        published := consistent.published
        located := by
          show ∀ entry ∈ history.nested.published ++ NestedTransactions.pendingOf ((parent ++ frame) :: around), _
          rw [collected]
          exact consistent.located
        distinct := consistent.distinct
        increasing := consistent.increasing
        idle := fun closed => absurd closed (List.cons_ne_nil _ _)
        busy := fun _ => consistent.busy framed }

theorem rollback (consistent : history.Consistent)
    (ran : FaceFluxLedger.rollback history.ledger = (.ok u, after)) :
    History.Consistent { history.recorded .rollback with ledger := after } := by
  obtain ⟨sizes, saved, savepoints, rfl⟩ := rollback_ok ran
  have marks := consistent.marks
  rw [savepoints] at marks
  cases frames : history.nested.frames with
  | nil => rw [frames] at marks; cases marks
  | cons frame around =>
  rw [frames] at marks
  obtain ⟨rfl, outer⟩ := marks.drop
  have collected : history.nested.pending = NestedTransactions.pendingOf around ++ frame := by
    simp [NestedTransactions.pending, frames]
  have kept (axis : Fin d) : (history.ledger.pending axis).take
      (axisSizes (NestedTransactions.pendingOf around) axis) =
        onAxis axis (NestedTransactions.pendingOf around) := by
    rw [consistent.pending, collected, onAxis_append]
    exact List.take_left
  have framed : history.nested.frames ≠ [] := by simp [frames]
  obtain ⟨current, activeNow, last⟩ := consistent.busy framed
  have aligned : saved = [] ↔ around = [] := by
    rw [← List.length_eq_zero_iff, outer.length_eq, List.length_eq_zero_iff]
  rw [History.recorded, NestedTransactions.abandoned, frames]
  exact {
    marks := outer
    pending := kept
    published := consistent.published
    located := by
      intro entry listed
      apply consistent.located entry
      rw [collected, ← List.append_assoc]
      exact List.mem_append_left _ listed
    distinct := by
      intro axis
      refine (consistent.distinct axis).sublist ?_
      exact (List.take_sublist _ _).append_left _
    increasing := consistent.increasing
    idle := by
      intro outermost
      simp only [aligned.mpr outermost, if_true]
      exact ⟨trivial, activeNow.trans last.symm⟩
    busy := by
      intro nested
      simp only [mt aligned.mp nested, if_false]
      exact ⟨current, activeNow, last⟩ }

theorem clear (consistent : history.Consistent)
    (ran : FaceFluxLedger.clear history.ledger = (.ok u, after)) :
    History.Consistent { history.recorded .clear with ledger := after } := by
  obtain ⟨idle, rfl⟩ := clear_ok ran
  have closed := consistent.frames_eq_nil.mpr idle
  have nothing : history.nested.pending = [] := by simp [NestedTransactions.pending, closed]
  exact {
    marks := consistent.marks
    pending := by
      intro axis
      show [] = onAxis axis history.nested.pending
      rw [nothing]
      rfl
    published := fun _ => rfl
    located := by
      show ∀ entry ∈ [] ++ history.nested.pending, _
      rw [nothing]
      exact fun entry listed => absurd listed List.not_mem_nil
    distinct := fun _ => .nil
    increasing := .nil
    idle := fun _ => ⟨(consistent.idle closed).1, rfl⟩
    busy := fun open' => absurd closed open' }

theorem discardPublishedAttempt {attempt removed : ℕ} (consistent : history.Consistent)
    (ran : FaceFluxLedger.discardPublishedAttempt attempt fault history.ledger = (.ok removed, after)) :
    History.Consistent { history.recorded (.discardPublishedAttempt attempt fault) with ledger := after } := by
  obtain ⟨idle, rfl⟩ := discardPublishedAttempt_ok ran
  exact {
    marks := consistent.marks
    pending := consistent.pending
    published := by
      intro axis
      simp only [History.recorded, onAxis, consistent.published, List.filter_filter, Bool.and_comm]
    located := by
      intro entry listed
      apply consistent.located entry
      rcases List.mem_append.mp listed with known | known
      · exact List.mem_append_left _ (List.mem_of_mem_filter known)
      · exact List.mem_append_right _ known
    distinct := by
      intro axis
      refine (consistent.distinct axis).sublist ?_
      exact List.filter_sublist.append_right _
    increasing := consistent.increasing
    idle := consistent.idle
    busy := consistent.busy }

end History.Consistent

variable [Double T]

def perform : Operation d T Payload → Member (FaceFluxLedger d T Payload) Unit
  | .beginAttempt attempt fault => beginAttempt attempt fault
  | .accumulate key measure payload fault => accumulate key measure payload fault
  | .commit fault => commit fault
  | .rollback => rollback
  | .clear => clear
  | .discardPublishedAttempt attempt fault => do
    let _removed ← discardPublishedAttempt attempt fault

theorem perform_safe (operation : Operation d T Payload) : Member.Safe (perform operation) ledger := by
  cases operation with
  | beginAttempt attempt fault =>
    refine .get_bind (.lift_bind fun _ _ => .throwIf_bind fun _ => .lift_bind fun _ _ => ?_)
    exact .returns rfl
  | accumulate key measure payload fault =>
    refine .get_bind (.lift_bind fun _ _ => .throwIf_bind fun _ => .lift_bind fun _ _ =>
      .throwIf_bind fun _ => .lift_bind fun _ _ => .throwIf_bind fun _ => .lift_bind fun _ _ => ?_)
    exact .returns rfl
  | commit fault =>
    refine .get_bind (.lift_bind fun _ _ => .ite (fun _ => .returns rfl) fun _ => ?_)
    exact .throwIf_bind fun _ => .lift_bind fun _ _ => .returns rfl
  | rollback => exact .get_bind (.lift_bind fun _ _ => .returns rfl)
  | clear => exact .get_bind (.throwIf_bind fun _ => .returns rfl)
  | discardPublishedAttempt attempt fault =>
    refine .bind_returns ?_ fun _ _ => ⟨_, rfl⟩
    exact .get_bind (.throwIf_bind fun _ => .lift_bind fun _ _ => .returns rfl)

namespace History

/-- One call, whether it returns or throws. -/
def step (history : History d T Payload) (operation : Operation d T Payload) : History d T Payload :=
  match perform operation history.ledger with
  | (.ok _, ledger) => { history.recorded operation with ledger }
  | (.error _, ledger) => { history with ledger }

/-- The calls of a run, one after the other. -/
def run (operations : List (Operation d T Payload)) (ledger : FaceFluxLedger d T Payload) :
    History d T Payload :=
  operations.foldl step { ledger }

theorem step_of_ok {history : History d T Payload} {operation : Operation d T Payload}
    (ran : perform operation history.ledger = (.ok u, after)) :
    history.step operation = { history.recorded operation with ledger := after } := by
  rw [step, ran]

theorem step_of_error {history : History d T Payload} {operation : Operation d T Payload}
    {exception : Exception} (thrown : (perform operation history.ledger).1 = .error exception) :
    history.step operation = history := by
  have kept := perform_safe operation exception thrown
  unfold step
  generalize perform operation history.ledger = result at *
  obtain ⟨outcome, ledger⟩ := result
  cases thrown
  cases kept
  rfl

namespace Consistent
variable {history : History d T Payload}

theorem step (consistent : history.Consistent) (operation : Operation d T Payload) :
    (history.step operation).Consistent := by
  rcases result : perform operation history.ledger with ⟨outcome, after⟩
  cases outcome with
  | error exception => rwa [step_of_error (congrArg Prod.fst result)]
  | ok returned =>
    rw [step_of_ok result]
    cases operation with
    | beginAttempt attempt fault => exact consistent.beginAttempt result
    | accumulate key measure payload fault => exact consistent.accumulate result
    | commit fault => exact consistent.commit result
    | rollback => exact consistent.rollback result
    | clear => exact consistent.clear result
    | discardPublishedAttempt attempt fault =>
      simp only [perform, Member.bind_ok, Member.pure_ok] at result
      obtain ⟨removed, _, ran, -, rfl⟩ := result
      exact consistent.discardPublishedAttempt ran

theorem steps (consistent : history.Consistent) (operations : List (Operation d T Payload)) :
    (operations.foldl History.step history).Consistent := by
  induction operations generalizing history with
  | nil => exact consistent
  | cons operation operations ih => exact ih (consistent.step operation)

theorem run {budget : FaceFluxLedgerBudget} {ledger : FaceFluxLedger d T Payload}
    (created : create budget = .ok ledger) (operations : List (Operation d T Payload)) :
    (History.run operations ledger).Consistent :=
  (start created).steps operations

end Consistent

end History

/-- All entries of the ledger. -/
def entries (ledger : FaceFluxLedger d T Payload) : List (FaceFluxFragment d T Payload) :=
  (List.finRange d).flatMap fun axis => ledger.published axis ++ ledger.pending axis

/-- The published entries of an axis once an operation has returned: the
outermost commit appends what survived in its transaction. -/
def History.publishedAfter (history : History d T Payload) (operation : Operation d T Payload) (axis : Fin d) :
    List (FaceFluxFragment d T Payload) :=
  match operation, history.nested.frames with
  | .commit _, [surviving] => history.ledger.published axis ++ onAxis axis surviving
  | .clear, _ => []
  | .discardPublishedAttempt attempt _, _ =>
    (history.ledger.published axis).filter (·.key.attempt ≠ attempt)
  | _, _ => history.ledger.published axis

namespace History.Consistent
variable {history : History d T Payload}

omit [Double T] in
theorem entries_distinct (consistent : history.Consistent) :
    history.ledger.entries.Pairwise fun entry other => entry.key.identity ≠ other.key.identity := by
  have located (axis : Fin d) : ∀ entry ∈ history.ledger.published axis ++ history.ledger.pending axis,
      entry.key.axis = axis := by
    intro entry listed
    rw [consistent.published, consistent.pending, ← onAxis_append, onAxis, List.mem_filter] at listed
    exact of_decide_eq_true listed.2
  refine List.pairwise_flatMap.mpr ⟨fun axis _ => ?_, ?_⟩
  · refine (consistent.distinct axis).imp fun {entry other} differ same => ?_
    rw [FaceFluxFragmentKey.sameIdentity_iff.mpr same] at differ
    cases differ
  · refine (List.nodup_finRange d).imp fun {axis other} differ entry listed second listedOther same => ?_
    have lead := congrArg Prod.fst same
    simp only [FaceFluxFragmentKey.identity, FaceFluxFragmentKey.lead, Prod.mk.injEq] at lead
    have sameAxis := lead.2.2.2.2.2
    rw [located axis entry listed, located other second listedOther] at sameAxis
    exact differ (Fin.ext (by exact_mod_cast sameAxis))

/-- Only the outermost commit, a clear and a discarded attempt change the
published entries. -/
theorem published_after (consistent : history.Consistent) {operation : Operation d T Payload}
    (ran : perform operation history.ledger = (.ok u, after)) (axis : Fin d) :
    after.published axis = history.publishedAfter operation axis := by
  cases operation with
  | beginAttempt attempt fault =>
    obtain ⟨-, -, rfl⟩ := beginAttempt_ok ran
    rfl
  | accumulate key measure payload fault =>
    obtain ⟨_, -, -, -, -, rfl⟩ := accumulate_ok ran
    rfl
  | commit fault =>
    obtain ⟨active, rfl⟩ := commit_ok ran
    have depth := consistent.depth_eq
    have pending := consistent.pending axis
    unfold NestedTransactions.pending at pending
    unfold publishedAfter
    cases frames : history.nested.frames with
    | nil => exact absurd (consistent.frames_eq_nil.mp frames) active
    | cons frame around =>
      rw [frames] at depth pending
      cases around with
      | nil =>
        rw [if_neg (by simp [depth])]
        simp only [closeOuterTransaction, pending, NestedTransactions.pendingOf_cons,
          NestedTransactions.pendingOf_nil, List.nil_append]
      | cons parent around => rw [if_pos (by simp [depth])]
  | rollback =>
    obtain ⟨_, _, -, rfl⟩ := rollback_ok ran
    rfl
  | clear =>
    obtain ⟨-, rfl⟩ := clear_ok ran
    rfl
  | discardPublishedAttempt attempt fault =>
    simp only [perform, Member.bind_ok, Member.pure_ok] at ran
    obtain ⟨removed, _, ran, -, rfl⟩ := ran
    obtain ⟨-, rfl⟩ := discardPublishedAttempt_ok ran
    rfl

end History.Consistent

/-- Over any run, published entries change by outermost commits, clears and
discarded attempts only, no two entries have the same identity, attempts
increase until the next clear, and an operation that throws changes nothing. -/
theorem run_transactional {budget : FaceFluxLedgerBudget} {ledger : FaceFluxLedger d T Payload}
    (created : create budget = .ok ledger) (operations : List (Operation d T Payload))
    (operation : Operation d T Payload) :
    let history := History.run operations ledger
    (∀ after, perform operation history.ledger = (.ok (), after) →
      ∀ axis, after.published axis = history.publishedAfter operation axis) ∧
    (∀ axis, history.ledger.pending axis = onAxis axis history.nested.pending) ∧
    history.ledger.entries.Pairwise (fun entry other => entry.key.identity ≠ other.key.identity) ∧
    history.attempts.Pairwise (· < ·) ∧
    (history.ledger.InTransaction → ∃ attempt,
      history.ledger.activeAttempt = some attempt ∧ history.attempts.getLast? = some attempt ∧
      ∀ other fault after, perform (.beginAttempt other fault) history.ledger = (.ok (), after) → other = attempt) ∧
    (∀ exception after, perform operation history.ledger = (.error exception, after) → after = history.ledger) := by
  intro history
  have consistent := History.Consistent.run created operations
  refine ⟨fun after ran axis => consistent.published_after ran axis, consistent.pending,
    consistent.entries_distinct, consistent.increasing, ?_, ?_⟩
  · intro active
    obtain ⟨attempt, current, last⟩ := consistent.busy (mt consistent.frames_eq_nil.mp active)
    refine ⟨attempt, current, last, ?_⟩
    intro other fault after ran
    obtain ⟨retained, -, -⟩ := beginAttempt_ok ran
    exact (retained attempt current).symm
  · intro exception after thrown
    have kept := perform_safe operation exception (congrArg Prod.fst thrown)
    rwa [thrown] at kept

/-! An attempt that is published and then discarded, and one that starts again
after a clear. -/

def smallBudget : FaceFluxLedgerBudget := ⟨4, 4, 2⟩

def smallLedger : FaceFluxLedger 1 ℚ Unit := { budget := smallBudget, positive := by decide }

/-- A fragment of the first macro step of an attempt, at a face. -/
def smallFragment (attempt : ℕ) (face : ℤ) : Operation 1 ℚ Unit :=
  .accumulate
    { owner := [byteOf 1], state := [byteOf 1], levels := ⟨0, 1⟩, centering := .face, axis := 0, face := fun _ => face,
      coarseFace := fun _ => 0, clock := ⟨0, 0, .zero, 0⟩, stage := [byteOf 1], attempt, role := .coarse,
      contribution := .numericalFlux }
    ⟨.one, .zero, .one, 1, 1⟩ () none

def publishing : List (Operation 1 ℚ Unit) := [.beginAttempt 1 none, smallFragment 1 0, .commit none]

def restarting : List (Operation 1 ℚ Unit) :=
  [.beginAttempt 5 none, .commit none, .clear, .beginAttempt 3 none]

/-- A transaction inside another one that is rolled back, before the outer one commits. -/
def nesting : List (Operation 1 ℚ Unit) :=
  [.beginAttempt 1 none, smallFragment 1 0, .beginAttempt 1 none, smallFragment 1 1, .rollback, .commit none]

/-- What is published is the fragment of the outer transaction, and only it. -/
theorem run_transactional_nested :
    create smallBudget = .ok smallLedger ∧
    ((History.run (nesting.take 4) smallLedger).ledger.pending 0).length = 2 ∧
    ((History.run nesting smallLedger).ledger.published 0).length = 1 ∧
    (History.run nesting smallLedger).attempts.Pairwise (· < ·) ∧
    (History.run nesting smallLedger).ledger.entries.Pairwise
      (fun entry other => entry.key.identity ≠ other.key.identity) := by
  have created : create smallBudget = .ok smallLedger := rfl
  obtain ⟨-, -, distinct, increasing, -⟩ := run_transactional created nesting .clear
  exact ⟨created, by decide +kernel, by decide +kernel, increasing, distinct⟩

/-- Discarding an attempt changes the published entries, and after a clear an
earlier attempt begins again. -/
theorem discard_and_clear :
    create smallBudget = .ok smallLedger ∧
    ((History.run publishing smallLedger).ledger.published 0).length = 1 ∧
    ((History.run (publishing ++ [.discardPublishedAttempt 1 none]) smallLedger).ledger.published 0).length = 0 ∧
    (History.run [.beginAttempt 5 none] smallLedger).ledger.activeAttempt = some 5 ∧
    (History.run restarting smallLedger).ledger.activeAttempt = some 3 := by
  refine ⟨rfl, ?_⟩
  decide +kernel

end FaceFluxLedger

end Pops
