import Pops.InterfaceApplication

/-!
Applying the interfaces of a level is all or nothing on all ranks, interface by
interface: a rank publishes and scatters only after the last phase that any of
them may fail, and then all of them do with one batch of traces and one flux.
-/
namespace Pops.Multiblock
open Rounds

variable {d : ℕ} {V : Type} {size : ℕ} {prepared : PreparedInterface d V} {point : EvaluationPoint V}
  {publication : Option (FragmentPublication V)} {calls : ℕ → LocalCall d V}
  {states after middle : ℕ → RankState d V} {rejection : ℕ → RankState d V × Exception}

/-- What an application may change of a rank. -/
def outcome (state : RankState d V) : InterfaceFluxLedger V × (ℕ → FieldValues d V) := (state.ledger, state.rhs)

/-- No rank has published or scattered anything. -/
def Untouched (states : ℕ → RankState d V) (rejection : ℕ → RankState d V × Exception) : Prop :=
  ∀ rank, outcome (rejection rank).1 = outcome (states rank)

theorem passes {fails : ℕ → Bool}
    (passed : ¬ ∃ rank ∈ List.range size, fails rank = true) {rank : ℕ} (known : rank < size) : fails rank = false := by
  cases failed : fails rank with
  | false => rfl
  | true => exact absurd ⟨rank, List.mem_range.mpr known, failed⟩ passed

theorem ok_of_isOk {α : Type} {result : Checked α} (passed : (!result.isOk) = false) (default : α) :
    result = .ok (result.toOption.getD default) := by
  cases result with
  | error thrown => cases passed
  | ok value => rfl

theorem run_checks {phases : List (Phase ℕ (RankState d V) Exception)} {ranks : List ℕ}
    (checks : ∀ phase ∈ phases, ∃ fails thrown, phase = checkPhase fails thrown) :
    (∀ reached, Rounds.run ranks phases states = .ok reached → reached = states) ∧
      ∀ rejection, Rounds.run ranks phases states = .error rejection → Untouched states rejection := by
  have acts (phase : Phase ℕ (RankState d V) Exception) (listed : phase ∈ phases) (states : ℕ → RankState d V)
      (rank : ℕ) : phase.act states rank = states rank := by
    obtain ⟨fails, thrown, rfl⟩ := checks phase listed
    rfl
  have rejects (phase : Phase ℕ (RankState d V) Exception) (listed : phase ∈ phases) (rank : ℕ)
      (state : RankState d V) : (phase.reject rank state).1 = state := by
    obtain ⟨fails, thrown, rfl⟩ := checks phase listed
    rfl
  exact ⟨fun reached ran => funext ((run_keeps (fun state => state) acts rejects).1 reached ran),
    fun rejection ran rank => congrArg outcome ((run_keeps (fun state => state) acts rejects).2 rejection ran rank)⟩

theorem activePhases_check : ∀ phase ∈ activePhases calls, ∃ fails thrown, phase = checkPhase fails thrown := by
  intro phase listed
  simp only [activePhases, List.mem_cons, List.not_mem_nil, or_false] at listed
  rcases listed with rfl | rfl
  · exact ⟨_, _, rfl⟩
  · exact ⟨_, _, rfl⟩

theorem active_agrees (ran : Rounds.run (List.range size) (activePhases calls) states = .ok after) {rank : ℕ}
    (known : rank < size) : (calls rank).active = (calls 0).active := by
  obtain ⟨-, ran⟩ := run_cons_ok.mp ran
  obtain ⟨agreed, -⟩ := run_cons_ok.mp ran
  have same := passes agreed known
  simp only [checkPhase, decide_eq_false_iff_not, ne_eq, not_not] at same
  exact same

variable [DecidableEq V]

theorem preflightPhases_check {points : ℕ → LocalPoint V} :
    ∀ phase ∈ preflightPhases (d := d) points, ∃ fails thrown, phase = checkPhase fails thrown := by
  intro phase listed
  simp only [preflightPhases, List.mem_cons, List.not_mem_nil, or_false] at listed
  rcases listed with rfl | rfl | rfl | rfl | rfl
  · exact ⟨_, _, rfl⟩
  · exact ⟨_, _, rfl⟩
  · exact ⟨_, _, rfl⟩
  · exact ⟨_, _, rfl⟩
  · exact ⟨_, _, rfl⟩

variable [Zero V] [Add V] [MetricDouble V]

theorem applyOnePhases_keep {phase : Phase ℕ (RankState d V) Exception}
    (listed : phase ∈ applyOnePhases size prepared point publication calls) :
    (∀ (states : ℕ → RankState d V) (rank : ℕ), outcome (phase.act states rank) = outcome (states rank)) ∧
      ∀ (rank : ℕ) (state : RankState d V), outcome (phase.reject rank state).1 = outcome state := by
  simp only [applyOnePhases, List.mem_append, List.mem_cons, List.not_mem_nil, or_false] at listed
  rcases listed with (rfl | rfl | rfl | rfl | rfl) | later
  · exact ⟨fun _ _ => rfl, fun _ _ => rfl⟩
  · exact ⟨fun _ _ => rfl, fun _ _ => rfl⟩
  · exact ⟨fun _ _ => rfl, fun _ _ => rfl⟩
  · exact ⟨fun _ _ => rfl, fun _ _ => rfl⟩
  · exact ⟨fun _ _ => rfl, fun _ _ => rfl⟩
  · cases publication with
    | none => cases later
    | some fragments =>
      simp only [List.mem_cons, List.not_mem_nil, or_false] at later
      rcases later with rfl | rfl
      · exact ⟨fun _ _ => rfl, fun _ _ => rfl⟩
      · exact ⟨fun _ _ => rfl, fun _ _ => rfl⟩

variable [One V] [Neg V] [Mul V] [Div V]

/-- The traces that the ranks pack of their states, reduced over all ranks. -/
def packedTraces (size : ℕ) (prepared : PreparedInterface d V) (states : ℕ → RankState d V) : ℕ → V :=
  reduceTraces ((List.range size).map fun rank =>
    prepared.pack rank ((states rank).states prepared.leftBlock) ((states rank).states prepared.rightBlock))

/-- No rank has failed before the evaluation, and every rank has published and
scattered a flux of the traces that were gathered, with the same values on all
ranks. -/
def Applied (size : ℕ) (prepared : PreparedInterface d V) (point : EvaluationPoint V)
    (publication : Option (FragmentPublication V)) (calls : ℕ → LocalCall d V)
    (states after : ℕ → RankState d V) : Prop :=
  (∀ rank < size, (calls rank).layoutsMatch = true ∧ (calls rank).packingFailure = none) ∧ ∃ flux : ℕ → ℕ → V,
    (∀ rank < size, (calls rank).evaluator (packedTraces size prepared states) = .ok (flux rank)) ∧
    (∀ rank < size, ∀ value < prepared.packedCount,
      Double.isFinite (flux rank value) = true ∧ flux rank value = flux 0 value) ∧
    (∀ rank < size, (after rank).states = (states rank).states ∧
      (after rank).rhs = prepared.scatter rank (flux rank) (states rank).rhs) ∧
    ∀ rank < size, match publication with
      | none => (after rank).ledger = (states rank).ledger
      | some fragments => ∃ pending,
        prepareAccumulation (states rank).ledger (prepared.fragments point fragments (flux rank)) = .ok pending ∧
          (after rank).ledger = { (states rank).ledger with pending }

theorem applyOne_rejected (ran : applyOne size prepared point publication calls states = .error rejection) :
    Untouched states rejection := by
  unfold applyOne at ran
  have acts (phase : Phase ℕ (RankState d V) Exception)
      (listed : phase ∈ applyOnePhases size prepared point publication calls) :=
    (applyOnePhases_keep listed).1
  have rejects (phase : Phase ℕ (RankState d V) Exception)
      (listed : phase ∈ applyOnePhases size prepared point publication calls) :=
    (applyOnePhases_keep listed).2
  cases final : Rounds.run (List.range size) (applyOnePhases size prepared point publication calls) states with
  | ok reached =>
    rw [final] at ran
    cases ran
  | error thrown =>
    rw [final] at ran
    cases ran
    exact (run_keeps outcome acts rejects).2 rejection final

theorem applyOne_accepted (ran : applyOne size prepared point publication calls states = .ok after) :
    Applied size prepared point publication calls states after := by
  simp only [applyOne, applyOnePhases, List.cons_append, List.nil_append, bind_ok, pure_ok] at ran
  obtain ⟨final, ran, rfl⟩ := ran
  obtain ⟨matching, ran⟩ := run_cons_ok.mp ran
  obtain ⟨packed, ran⟩ := run_cons_ok.mp ran
  obtain ⟨evaluated, ran⟩ := run_cons_ok.mp ran
  obtain ⟨finite, ran⟩ := run_cons_ok.mp ran
  obtain ⟨agreed, ran⟩ := run_cons_ok.mp ran
  have fluxes (rank : ℕ) (known : rank < size) := ok_of_isOk (passes evaluated known) (states rank).flux
  have healthy (rank : ℕ) (known : rank < size) :
      (calls rank).layoutsMatch = true ∧ (calls rank).packingFailure = none := by
    have layouts := passes matching known
    simp only [layoutsPhase, checkPhase, Bool.not_eq_false'] at layouts
    exact ⟨layouts, Option.isNone_iff_eq_none.mp (Option.isSome_eq_false_iff.mp (passes packed known))⟩
  refine ⟨healthy, fun rank => _, fluxes, fun rank known value inside => ⟨?_, ?_⟩, ?_, ?_⟩
  · have all := passes finite known
    simp only [finitePhase, checkPhase, List.any_eq_false, List.mem_range, Bool.not_eq_true, Bool.not_eq_false'] at all
    exact all value inside
  · have all := passes agreed known
    simp only [consensusPhase, checkPhase, List.any_eq_false, List.mem_range, decide_eq_true_eq, ne_eq, not_not] at all
    exact all value inside
  · intro rank known
    cases publication with
    | none =>
      rw [run_nil] at ran
      cases ran
      exact ⟨rfl, rfl⟩
    | some fragments =>
      obtain ⟨-, ran⟩ := run_cons_ok.mp ran
      obtain ⟨-, ran⟩ := run_cons_ok.mp ran
      rw [run_nil] at ran
      cases ran
      exact ⟨rfl, rfl⟩
  · intro rank known
    cases publication with
    | none =>
      rw [run_nil] at ran
      cases ran
      rfl
    | some fragments =>
      obtain ⟨candidates, ran⟩ := run_cons_ok.mp ran
      obtain ⟨-, ran⟩ := run_cons_ok.mp ran
      rw [run_nil] at ran
      cases ran
      exact ⟨_, ok_of_isOk (passes candidates known) [], rfl⟩

/-- The interfaces that were applied one after the other, but for those of other
levels and those that no rank takes part in. -/
inductive AppliedAll (size : ℕ) (point : EvaluationPoint V) (publication : Option (FragmentPublication V)) :
    List (PreparedInterface d V × (ℕ → LocalCall d V)) → (ℕ → RankState d V) → (ℕ → RankState d V) → Prop where
  | nil (states : ℕ → RankState d V) : AppliedAll size point publication [] states states
  | skipped {interface : PreparedInterface d V × (ℕ → LocalCall d V)}
    {later : List (PreparedInterface d V × (ℕ → LocalCall d V))} {states after : ℕ → RankState d V}
    (idle : interface.1.level ≠ point.level ∨ ∀ rank < size, (interface.2 rank).active = false)
    (rest : AppliedAll size point publication later states after) :
    AppliedAll size point publication (interface :: later) states after
  | applied {interface : PreparedInterface d V × (ℕ → LocalCall d V)}
    {later : List (PreparedInterface d V × (ℕ → LocalCall d V))} {states middle after : ℕ → RankState d V}
    (here : Applied size interface.1 point publication interface.2 states middle)
    (rest : AppliedAll size point publication later middle after) :
    AppliedAll size point publication (interface :: later) states after

variable {interface : PreparedInterface d V × (ℕ → LocalCall d V)}
  {interfaces : List (PreparedInterface d V × (ℕ → LocalCall d V))}

theorem applyInterface_rejected (ran : applyInterface size point publication interface states = .error rejection) :
    Untouched states rejection := by
  unfold applyInterface at ran
  split at ran
  · cases ran
  · cases checked : Rounds.run (List.range size) (activePhases interface.2) states with
    | error thrown =>
      rw [checked] at ran
      cases ran
      exact (run_checks activePhases_check).2 rejection checked
    | ok reached =>
      rw [checked, ok_bind, (run_checks activePhases_check).1 reached checked] at ran
      split at ran
      · exact applyOne_rejected ran
      · cases ran

theorem applyInterface_accepted {later : List (PreparedInterface d V × (ℕ → LocalCall d V))}
    (ran : applyInterface size point publication interface states = .ok middle)
    (rest : AppliedAll size point publication later middle after) :
    AppliedAll size point publication (interface :: later) states after := by
  unfold applyInterface at ran
  split at ran
  · rename_i other
    cases ran
    exact .skipped (.inl other) rest
  · rw [bind_ok] at ran
    obtain ⟨reached, checked, ran⟩ := ran
    obtain rfl := (run_checks activePhases_check).1 reached checked
    split at ran
    · exact .applied (applyOne_accepted ran) rest
    · rename_i inactive
      cases ran
      refine .skipped (.inr fun rank known => ?_) rest
      rw [active_agrees checked known]
      exact Bool.not_eq_true _ ▸ inactive

theorem interfaces_applied (size : ℕ) (point : EvaluationPoint V) (publication : Option (FragmentPublication V))
    (interfaces : List (PreparedInterface d V × (ℕ → LocalCall d V))) (states : ℕ → RankState d V) :
    match interfaces.foldlM (fun current interface => applyInterface size point publication interface current) states with
    | .ok after => AppliedAll size point publication interfaces states after
    | .error rejection => ∃ done later reached, interfaces = done ++ later ∧
        AppliedAll size point publication done states reached ∧ Untouched reached rejection := by
  induction interfaces generalizing states with
  | nil => exact .nil states
  | cons interface later ih =>
    rw [List.foldlM_cons]
    cases first : applyInterface size point publication interface states with
    | error thrown => exact ⟨[], interface :: later, states, rfl, .nil states, applyInterface_rejected first⟩
    | ok middle =>
      rw [ok_bind]
      have rest := ih middle
      split at rest
      · exact applyInterface_accepted first rest
      · obtain ⟨done, remaining, reached, rfl, before, untouched⟩ := rest
        exact ⟨interface :: done, remaining, reached, rfl, applyInterface_accepted first before, untouched⟩

/-- Either every rank throws, and none has published a fragment of or scattered
into the right-hand sides of the interface that was rejected or of those after
it, or every rank has applied every interface, with one batch of traces and one
flux for each. -/
theorem interface_application_all_or_nothing (size : ℕ) (points : ℕ → LocalPoint V)
    (interfaces : List (PreparedInterface d V × (ℕ → LocalCall d V))) (states : ℕ → RankState d V) :
    match apply size points interfaces states with
    | .ok after => AppliedAll size (points 0).point (points 0).publication interfaces states after
    | .error rejection => ∃ done later reached, interfaces = done ++ later ∧
        AppliedAll size (points 0).point (points 0).publication done states reached ∧ Untouched reached rejection := by
  unfold apply
  cases checked : Rounds.run (List.range size) (preflightPhases points) states with
  | error thrown =>
    rw [error_bind]
    exact ⟨[], interfaces, states, rfl, .nil states, (run_checks preflightPhases_check).2 thrown checked⟩
  | ok reached =>
    rw [ok_bind, (run_checks preflightPhases_check).1 reached checked]
    exact interfaces_applied size _ _ interfaces states

end Pops.Multiblock
