import Pops.ClockProofs
import Pops.MetricReflux

/-!
Fragments outside a window do not disturb its reconciliation: the loop over the
published entries skips them, and only the number of published entries is left
to notice them.
-/
namespace Pops

variable {d : ℕ} {T Payload : Type}

/-- A list with further items, each with some property, put in anywhere. -/
inductive Inserted {α : Type} (irrelevant : α → Prop) : List α → List α → Prop
  | nil : Inserted irrelevant [] []
  | keep (item : α) {items larger : List α} (rest : Inserted irrelevant items larger) :
      Inserted irrelevant (item :: items) (item :: larger)
  | insert {item : α} {items larger : List α} (new : irrelevant item) (rest : Inserted irrelevant items larger) :
      Inserted irrelevant items (item :: larger)

namespace Inserted
variable {α σ : Type} {irrelevant : α → Prop} {items larger : List α}

theorem length_le (inserted : Inserted irrelevant items larger) : items.length ≤ larger.length := by
  induction inserted with
  | nil => exact le_rfl
  | keep item rest ih => exact Nat.succ_le_succ ih
  | insert new rest ih => exact ih.trans (Nat.le_succ _)

theorem foldlM_eq {step : σ → α → Checked σ} (inserted : Inserted irrelevant items larger)
    (ignored : ∀ item, irrelevant item → ∀ state, step state item = .ok state) (start : σ) :
    larger.foldlM step start = items.foldlM step start := by
  induction inserted generalizing start with
  | nil => rfl
  | keep item rest ih =>
    rw [List.foldlM_cons, List.foldlM_cons]
    exact bind_congr_ok fun state _ => ih state
  | insert new rest ih => rw [List.foldlM_cons, ignored _ new, ok_bind, ih]

end Inserted

namespace MetricReflux

/-- The substep of a fragment lies outside the interior of a window. -/
def Outside (key : CoarseFaceRefluxKey d) (measure : FaceFluxFragmentMeasure T) : Prop :=
  measure.substepEnd.value ≤ key.windowBegin.value ∨ key.windowEnd.value ≤ measure.substepBegin.value

/-- A fragment of the same face whose stage is on the edge of the window. -/
def OnEdge (key : CoarseFaceRefluxKey d) (fragment : FaceFluxFragmentKey d T) : Prop :=
  SameFace fragment key ∧ (fragment.clock.phase = key.windowBegin ∨ fragment.clock.phase = key.windowEnd)

theorem phase_within [Double T] {key : FaceFluxFragmentKey d T} {measure : FaceFluxFragmentMeasure T}
    (valid : validateFaceFluxFragment key measure = .ok ()) :
    measure.substepBegin.value ≤ key.clock.phase.value ∧ key.clock.phase.value ≤ measure.substepEnd.value := by
  simp only [validateFaceFluxFragment, bind_ok, throwIf_ok, unit_exists, not_or] at valid
  obtain ⟨-, -, _, -, -, -, -, ⟨-, -, late, early, -⟩, -⟩ := valid
  rw [Bool.not_eq_true] at late early
  refine ⟨not_lt.mp fun below => ?_, not_lt.mp fun above => ?_⟩
  · rw [Rational.less_iff.mpr below] at late
    cases late
  · rw [Rational.less_iff.mpr above] at early
    cases early

theorem not_matches [Double T] {key : CoarseFaceRefluxKey d} {fragment : FaceFluxFragmentKey d T}
    {measure : FaceFluxFragmentMeasure T} (valid : validateFaceFluxFragment fragment measure = .ok ())
    (outside : Outside key measure) (away : ¬ OnEdge key fragment) : matchesRefluxKey fragment key = false := by
  obtain ⟨late, early⟩ := phase_within valid
  by_contra selected
  simp only [matchesRefluxKey, Bool.not_eq_false, Bool.and_eq_true, decide_eq_true_eq, Bool.not_eq_true'] at selected
  obtain ⟨⟨face, notBefore⟩, notAfter⟩ := selected
  have start : key.windowBegin.value ≤ fragment.clock.phase.value := by
    refine not_lt.mp fun below => ?_
    rw [Rational.less_iff.mpr below] at notBefore
    cases notBefore
  have stop : fragment.clock.phase.value ≤ key.windowEnd.value := by
    refine not_lt.mp fun above => ?_
    rw [Rational.less_iff.mpr above] at notAfter
    cases notAfter
  rcases outside with before | after
  · exact away ⟨face, .inl (Rational.value_injective (le_antisymm (early.trans before) start))⟩
  · exact away ⟨face, .inr (Rational.value_injective (le_antisymm stop (after.trans late)))⟩

/-- A larger number of operations is never less tolerant. -/
def Tolerant (T : Type) [MetricDouble T] : Prop :=
  ∀ (left right : T) (operations more : ℕ), operations ≤ more →
    roundoffEqual left right operations = true → roundoffEqual left right more = true

variable [MetricDouble T] {axpy : Payload → T → Payload → Payload} {initial : Payload}
  {key : CoarseFaceRefluxKey d} {ratio : RefinementRatio d} {mapping : FaceRefinementMapping d}
  {budget : MetricRefluxBudget} {reflux : MetricFaceReflux T Payload}

theorem reconcile_tolerant (tolerant : Tolerant T) {expectedFine : Finset (Fin d → ℤ)} {size more : ℕ}
    (enough : size ≤ more) {coarse fine : Collected d T Payload}
    (returned : reconcile axpy key expectedFine initial size coarse fine = .ok reflux) :
    reconcile axpy key expectedFine initial more coarse fine = .ok reflux := by
  simp only [reconcile, bind_ok, throwIf_ok, unit_exists, Bool.not_eq_false] at returned ⊢
  obtain ⟨coarseComplete, fineComplete, covered, measured, result⟩ := returned
  exact ⟨coarseComplete, fineComplete, covered, tolerant _ _ _ _ enough measured, result⟩

/-- Published fragments whose substeps lie outside the interior of the window,
and that are not on its edge, do not change what the reconciliation returns. -/
theorem metricReflux_isolated {ledger larger : FaceFluxLedger d T Payload} (tolerant : Tolerant T)
    (added : ∀ axis, Inserted (fun entry => validateFaceFluxFragment entry.key entry.measure = .ok () ∧
      Outside key entry.measure ∧ ¬ OnEdge key entry.key) (ledger.published axis) (larger.published axis))
    (bounded : FaceFluxLedger.totalSize larger.published ≤ budget.maxPublishedEntries)
    (returned : metricReflux axpy initial ledger key ratio mapping budget = .ok reflux) :
    metricReflux axpy initial larger key ratio mapping budget = .ok reflux := by
  have sizes : FaceFluxLedger.totalSize ledger.published ≤ FaceFluxLedger.totalSize larger.published :=
    List.sum_le_sum fun axis _ => (added axis).length_le
  simp only [metricReflux, bind_ok, throwIf_ok, unit_exists] at returned ⊢
  obtain ⟨validKey, validBudget, -, expectedFine, expected, axis, onAxis, collected, ran, result⟩ := returned
  refine ⟨validKey, validBudget, not_lt.mpr bounded, expectedFine, expected, axis, onAxis, collected, ?_, ?_⟩
  · rw [(added axis).foldlM_eq _ _]
    · exact ran
    · rintro entry ⟨valid, outside, away⟩ state
      rw [reconcileEntry, not_matches valid outside away]
      rfl
  · exact reconcile_tolerant tolerant sizes result

/-! One coarse and one fine fragment over the first unit of a macro step, next to
a fragment of the second unit. -/

instance : MetricDouble ℚ where
  equal left right := left = right
  lessEqual left right := left ≤ right
  abs value := |value|
  max left right := max left right
  epsilon := 1 / 2 ^ 52

theorem tolerant_rat : Tolerant ℚ := by
  intro left right operations more enough close
  unfold roundoffEqual at close ⊢
  split at close
  · rename_i same
    rw [if_pos same]
  · rename_i differ
    rw [if_neg differ]
    split at close
    · cases close
    · rename_i finite
      rw [if_neg finite]
      have bound : |left - right| ≤ 128 * (1 / 2 ^ 52) * max |left| |right| * ((max operations 1 : ℕ) : ℤ) :=
        of_decide_eq_true close
      refine decide_eq_true (bound.trans ?_)
      have scale : (0 : ℚ) ≤ 128 * (1 / 2 ^ 52) * max |left| |right| := by positivity
      have larger : (((max operations 1 : ℕ) : ℤ) : ℚ) ≤ ((max more 1 : ℕ) : ℤ) := by
        exact_mod_cast max_le_max enough le_rfl
      exact mul_le_mul_of_nonneg_left larger scale

private theorem two_fits : int64Min ≤ 2 ∧ (2 : ℤ) ≤ int64Max := by decide
private theorem one_le_limit : (1 : ℤ) ≤ int64Max := by decide
private theorem two_reduced : (2 : ℤ).natAbs.Coprime (1 : ℤ).natAbs := by decide

def two : Rational := ⟨2, 1, two_fits, Int.one_pos, one_le_limit, two_reduced⟩

private theorem one_byte : 1 < 256 := by decide

/-- Any identity. -/
def unitName : Bytes := [⟨1, one_byte⟩]

def unitKey : CoarseFaceRefluxKey 1 :=
  { owner := unitName, state := unitName, levels := ⟨0, 1⟩, centering := .face, axis := 0, coarseFace := fun _ => 0,
    attempt := 1, macroStep := 0, windowBegin := .zero, windowEnd := .one }

/-- A fragment of the whole substep between two phases. -/
def unitFragment (role : FaceLedgerRole) (level : ℤ) (phase opening closing : Rational) :
    FaceFluxFragment 1 ℚ ℚ :=
  { key :=
      { owner := unitName, state := unitName, levels := ⟨0, 1⟩, centering := .face, axis := 0, face := fun _ => 0,
        coarseFace := fun _ => 0, clock := ⟨level, 0, phase, 0⟩, stage := unitName, attempt := 1, role,
        contribution := .numericalFlux }
    measure := ⟨.one, opening, closing, 1, 1⟩
    payload := 3 }

def unitLedger (others : List (FaceFluxFragment 1 ℚ ℚ)) : FaceFluxLedger 1 ℚ ℚ :=
  { published := fun _ => others ++ [unitFragment .coarse 0 .zero .zero .one, unitFragment .fine 1 .zero .zero .one]
    budget := ⟨4, 4, 2⟩
    positive := by decide }

private theorem unit_positive : ∀ axis : Fin 1, 1 ≤ (fun _ => 2 : Fin 1 → ℤ) axis := by decide

private theorem unit_bounded : ∀ axis : Fin 1, (fun _ => 2 : Fin 1 → ℤ) axis ≤ intMax := by decide

private theorem unit_children : ∏ axis : Fin 1, (fun _ => 2 : Fin 1 → ℤ) axis ≤ int64Max := by decide

/-- The reconciliation of the first unit. -/
def unitReflux (others : List (FaceFluxFragment 1 ℚ ℚ)) : Checked (MetricFaceReflux ℚ ℚ) :=
  metricReflux (fun total scale payload => total + scale * payload) 0 (unitLedger others) unitKey
    ⟨fun _ => 2, unit_positive, unit_bounded, unit_children⟩ ⟨fun _ => 0, fun _ => 0⟩ ⟨4, 4, 4⟩

theorem metricReflux_isolated_unit : ∃ reflux, unitReflux [] = .ok reflux ∧
    unitReflux [unitFragment .coarse 0 two .one two] = .ok reflux := by
  obtain ⟨reflux, returned⟩ := exists_of_isOk (show (unitReflux []).isOk = true by decide +kernel)
  refine ⟨reflux, returned, ?_⟩
  refine metricReflux_isolated tolerant_rat (fun axis => ?_) (by decide +kernel) returned
  refine .insert ⟨by decide +kernel, .inr le_rfl, ?_⟩ (.keep _ (.keep _ .nil))
  rintro ⟨-, atStart | atStop⟩
  · exact absurd atStart (by decide)
  · exact absurd atStop (by decide)

/-- A fragment of the second unit whose stage is where the first unit ends is
outside the window, but makes its reconciliation fail. -/
theorem edge_fragment_fails :
    validateFaceFluxFragment (unitFragment .coarse 0 .one .one two).key
        (unitFragment .coarse 0 .one .one two).measure = .ok () ∧
      Outside unitKey (unitFragment .coarse 0 .one .one two).measure ∧
      (unitReflux []).isOk = true ∧
      unitReflux [unitFragment .coarse 0 .one .one two] =
        .error (.runtimeError "ND metric reflux substeps do not cover the complete exact clock window") := by
  exact ⟨by decide +kernel, .inr le_rfl, by decide +kernel, by decide +kernel⟩

end MetricReflux

end Pops
