import Pops.Checked

/-!
Collective phases. In a phase every rank acts and may fail; a reduction tells
all ranks whether any of them did, and then either all of them go on or all of
them reject. The library is about any ranks, any states and any phases.
-/
namespace Pops.Rounds

/-- A phase: what a rank makes of the states it sees, whether it fails at that,
and what it does once it knows that some rank failed. -/
structure Phase (R σ ω : Type) where
  act : (R → σ) → R → σ
  fails : (R → σ) → R → Bool
  reject : R → σ → σ × ω

variable {R σ ω : Type} {ranks : List R} {phase : Phase R σ ω} {phases : List (Phase R σ ω)}
variable {states after : R → σ} {rejection : R → σ × ω}

/-- One phase, decided by `all_reduce_max(failure) == 0`. -/
def Phase.run (ranks : List R) (phase : Phase R σ ω) (states : R → σ) : Except (R → σ × ω) (R → σ) :=
  if ranks.all fun rank => !phase.fails states rank then .ok (phase.act states)
  else .error fun rank => phase.reject rank (phase.act states rank)

/-- The phases one after the other. -/
def run (ranks : List R) (phases : List (Phase R σ ω)) (states : R → σ) : Except (R → σ × ω) (R → σ) :=
  phases.foldlM (fun current phase => phase.run ranks current) states

/-- Some rank fails at a phase. -/
def Phase.SomeFails (ranks : List R) (phase : Phase R σ ω) (states : R → σ) : Prop :=
  ∃ rank ∈ ranks, phase.fails states rank = true

theorem Phase.run_ok : phase.run ranks states = .ok after ↔
    ¬ phase.SomeFails ranks states ∧ phase.act states = after := by
  unfold Phase.run SomeFails
  split
  · rename_i passed
    simp only [List.all_eq_true, Bool.not_eq_true'] at passed
    constructor
    · intro same
      cases same
      refine ⟨?_, rfl⟩
      rintro ⟨rank, listed, failed⟩
      rw [passed rank listed] at failed
      cases failed
    · rintro ⟨-, rfl⟩
      rfl
  · rename_i refused
    simp only [List.all_eq_true, Bool.not_eq_true', not_forall, Bool.not_eq_false] at refused
    obtain ⟨rank, listed, failed⟩ := refused
    constructor
    · intro same
      cases same
    · exact fun accepted => absurd ⟨rank, listed, failed⟩ accepted.1

theorem Phase.run_error : phase.run ranks states = .error rejection ↔
    phase.SomeFails ranks states ∧ (fun rank => phase.reject rank (phase.act states rank)) = rejection := by
  by_cases failed : phase.SomeFails ranks states
  · have notAll : ¬ (ranks.all fun rank => !phase.fails states rank) = true := by
      obtain ⟨rank, listed, fails⟩ := failed
      intro passed
      have := List.all_eq_true.mp passed rank listed
      rw [fails] at this
      cases this
    unfold Phase.run
    rw [if_neg notAll]
    simp [failed]
  · rw [Phase.run_ok.mpr ⟨failed, rfl⟩]
    simp [failed]

@[simp]
theorem run_nil : run ranks ([] : List (Phase R σ ω)) states = .ok states := rfl

theorem run_cons : run ranks (phase :: phases) states =
    (phase.run ranks states >>= fun current => run ranks phases current) := rfl

theorem run_cons_ok : run ranks (phase :: phases) states = .ok after ↔
    ¬ phase.SomeFails ranks states ∧ run ranks phases (phase.act states) = .ok after := by
  rw [run_cons, bind_ok]
  constructor
  · rintro ⟨current, ranPhase, ranRest⟩
    obtain ⟨passed, rfl⟩ := Phase.run_ok.mp ranPhase
    exact ⟨passed, ranRest⟩
  · rintro ⟨passed, ranRest⟩
    exact ⟨_, Phase.run_ok.mpr ⟨passed, rfl⟩, ranRest⟩

theorem run_cons_error : run ranks (phase :: phases) states = .error rejection ↔
    phase.SomeFails ranks states ∧ (fun rank => phase.reject rank (phase.act states rank)) = rejection ∨
      ¬ phase.SomeFails ranks states ∧ run ranks phases (phase.act states) = .error rejection := by
  rw [run_cons]
  by_cases failed : phase.SomeFails ranks states
  · rw [Phase.run_error.mpr ⟨failed, rfl⟩, error_bind]
    simp [failed]
  · rw [Phase.run_ok.mpr ⟨failed, rfl⟩, ok_bind]
    simp [failed]

theorem run_cons_rejected : (∃ rejection, run ranks (phase :: phases) states = .error rejection) ↔
    phase.SomeFails ranks states ∨ ∃ rejection, run ranks phases (phase.act states) = .error rejection := by
  simp only [run_cons_error]
  constructor
  · rintro ⟨rejection, ⟨failed, -⟩ | ⟨-, later⟩⟩
    · exact .inl failed
    · exact .inr ⟨rejection, later⟩
  · intro rejected
    by_cases failed : phase.SomeFails ranks states
    · exact ⟨_, .inl ⟨failed, rfl⟩⟩
    · obtain ⟨rejection, later⟩ := rejected.resolve_left failed
      exact ⟨rejection, .inr ⟨failed, later⟩⟩

theorem run_keeps {τ : Type} (kept : σ → τ)
    (acts : ∀ phase ∈ phases, ∀ (states : R → σ) (rank : R), kept (phase.act states rank) = kept (states rank))
    (rejects : ∀ phase ∈ phases, ∀ (rank : R) (state : σ), kept (phase.reject rank state).1 = kept state) :
    (∀ after, run ranks phases states = .ok after → ∀ rank, kept (after rank) = kept (states rank)) ∧
      ∀ rejection, run ranks phases states = .error rejection → ∀ rank, kept (rejection rank).1 = kept (states rank) := by
  induction phases generalizing states with
  | nil =>
    refine ⟨fun after ran => ?_, fun rejection ran => ?_⟩
    · rw [run_nil] at ran
      cases ran
      exact fun _ => rfl
    · rw [run_nil] at ran
      cases ran
  | cons phase later ih =>
    obtain ⟨accepted, rejected⟩ := @ih (phase.act states) (fun other listed => acts other (by simp [listed]))
      fun other listed => rejects other (by simp [listed])
    have here := acts phase (by simp) states
    refine ⟨fun after ran rank => ?_, fun rejection ran rank => ?_⟩
    · exact (accepted after (run_cons_ok.mp ran).2 rank).trans (here rank)
    · rcases run_cons_error.mp ran with ⟨-, rfl⟩ | ⟨-, later⟩
      · exact (rejects phase (by simp) rank _).trans (here rank)
      · exact (rejected rejection later rank).trans (here rank)

end Pops.Rounds
