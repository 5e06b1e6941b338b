import Pops.RoeSpectral
import Pops.SpectralFunction
import Mathlib.Data.Sign.Basic

/-!
What the Roe functions return for a matrix with real eigenvalues. Two shifted
signs are functions of the matrix, so every result is one as well, and its value
on an eigenvalue only depends on where the eigenvalue lies between the cutoffs.
-/
namespace Pops.RoeSpectral
open SpectralFunction Matrix

variable {N : ℕ} {K : Type} [Field K] [LinearOrder K] [IsStrictOrderedRing K] {limits : Limits K}

omit [LinearOrder K] [IsStrictOrderedRing K] in
@[simp] theorem half_eq (x : K) : half x = x / 2 := by simp [half]

theorem safeAverage_eq (a b : K) : safeAverage a b = (a + b) / 2 := by
  simp only [safeAverage, half_eq]
  split
  · split <;> ring
  · rfl

omit [LinearOrder K] [IsStrictOrderedRing K] in
theorem matvec_eq (A : Matrix (Fin N) (Fin N) K) (x : Fin N → K) : matvec A x = A *ᵥ x := by
  have sums (columns : List (Fin N)) (i : Fin N) (start : K) :
      columns.foldl (fun value j => value + A i j * x j) start =
        start + (columns.map fun j => A i j * x j).sum := by
    induction columns generalizing start with
    | nil => simp
    | cons j rest ih => rw [List.foldl_cons, ih, List.map_cons, List.sum_cons, add_assoc]
  funext i
  rw [matvec, sums, zero_add, ← List.ofFn_eq_map, List.sum_ofFn]
  rfl

theorem Limits.max_pos (limits : Limits K) : 0 < limits.max := by
  linarith [limits.denormMin_pos, limits.denormMin_small]

theorem rowSum_step {r v : K} (nonneg : 0 ≤ r) (v_nonneg : 0 ≤ v) (bounded : r ≤ limits.max) :
    let next := if v ≤ limits.max - r then r + v else limits.max
    r ≤ next ∧ next ≤ limits.max ∧ (next = 0 → v = 0) := by
  have positive := limits.max_pos
  intro next
  simp only [next]
  split
  · refine ⟨by linarith, by linarith, ?_⟩
    intro vanishes
    linarith
  · refine ⟨bounded, le_refl _, ?_⟩
    intro vanishes
    linarith

theorem rowSum_bounds (row : Fin N → K) (columns : List (Fin N)) {r : K} (nonneg : 0 ≤ r)
    (bounded : r ≤ limits.max) :
    r ≤ rowSum limits row columns r ∧ rowSum limits row columns r ≤ limits.max ∧
      (rowSum limits row columns r = 0 → ∀ j ∈ columns, row j = 0) := by
  induction columns generalizing r with
  | nil => exact ⟨le_refl _, bounded, fun _ j member => by simp at member⟩
  | cons j rest ih =>
    obtain ⟨grows, fits, zero⟩ := rowSum_step nonneg (abs_nonneg (row j)) bounded
    obtain ⟨rest_grows, rest_fits, rest_zero⟩ := ih (le_trans nonneg grows) fits
    refine ⟨le_trans grows rest_grows, rest_fits, ?_⟩
    intro vanishes k member
    rcases List.mem_cons.mp member with rfl | later
    · have first_zero := le_antisymm (le_of_le_of_eq rest_grows vanishes) (le_trans nonneg grows)
      exact abs_eq_zero.mp (zero first_zero)
    · exact rest_zero vanishes k later

theorem largestRow_bounds (A : Matrix (Fin N) (Fin N) K) (rows : List (Fin N)) (m : K) :
    m ≤ largestRow limits A rows m ∧
      ∀ i ∈ rows, rowSum limits (A i) (List.finRange N) 0 ≤ largestRow limits A rows m := by
  induction rows generalizing m with
  | nil => exact ⟨le_refl _, fun i member => by simp at member⟩
  | cons first rest ih =>
    let r := rowSum limits (A first) (List.finRange N) 0
    obtain ⟨kept, covered⟩ := ih (if r > m then r else m)
    have grows : m ≤ if r > m then r else m := by
      split
      · exact le_of_lt ‹_›
      · exact le_refl _
    have counted : r ≤ if r > m then r else m := by
      split
      · exact le_refl _
      · exact not_lt.mp ‹_›
    refine ⟨le_trans grows kept, ?_⟩
    intro i member
    rcases List.mem_cons.mp member with rfl | later
    · exact le_trans counted kept
    · exact covered i later

theorem matNormInf_eq_zero {A : Matrix (Fin N) (Fin N) K} (vanishes : matNormInf limits A = 0) : A = 0 := by
  funext i j
  obtain ⟨grows, -, zero⟩ := rowSum_bounds (A i) (List.finRange N) (le_refl 0) limits.max_pos.le
  have below : rowSum limits (A i) (List.finRange N) 0 ≤ matNormInf limits A :=
    (largestRow_bounds A (List.finRange N) 0).2 i (List.mem_finRange i)
  have row_zero : rowSum limits (A i) (List.finRange N) 0 = 0 :=
    le_antisymm (le_of_le_of_eq below vanishes) grows
  exact zero row_zero j (List.mem_finRange j)

theorem selectedCutoff_pos {cutoff : K} (positive : 0 < cutoff) {attempt : ℕ} (early : attempt < 4) :
    0 < selectedCutoff limits cutoff attempt := by
  unfold selectedCutoff
  split
  · exact positive
  have few : (attempt : K) ≤ 3 := by exact_mod_cast Nat.le_of_lt_succ early
  have short : (attempt : K) * limits.boundaryStep < 1 := by
    have bound := mul_le_mul_of_nonneg_right few limits.boundaryStep_nonneg
    linarith [limits.boundaryStep_small]
  have relative : cutoff * ((attempt : K) * limits.boundaryStep) < cutoff := mul_lt_of_lt_one_right positive short
  have tiny := limits.denormMin_pos
  have small := limits.denormMin_small
  simp only
  split
  · split
    · linarith
    · linarith
  · split
    · linarith
    · linarith

/-- The sign of every shift of one matrix: exact where the shifted matrix is invertible, else refused. -/
structure ExactSign (matrixSignShifted : Matrix (Fin N) (Fin N) K → K → Option (Matrix (Fin N) (Fin N) K))
    (R : Matrix (Fin N) (Fin N) K) (eigenvalue : Fin N → K) : Prop where
  invertible : ∀ shift, (spectral R eigenvalue + shift • 1).det ≠ 0 →
    matrixSignShifted (spectral R eigenvalue) shift =
      some (spectral R fun i => (SignType.sign (eigenvalue i + shift) : K))
  singular : ∀ shift, (spectral R eigenvalue + shift • 1).det = 0 →
    matrixSignShifted (spectral R eigenvalue) shift = none

/-- Neither shift by a cutoff meets an eigenvalue. -/
def Clear (eigenvalue : Fin N → K) (selected : K) : Prop :=
  ∀ i, eigenvalue i + selected ≠ 0 ∧ eigenvalue i + -selected ≠ 0

/-- The cutoff that is selected: the one of the first attempt that meets no eigenvalue. -/
structure Selected (limits : Limits K) (eigenvalue : Fin N → K) (cutoff selected : K) (attempt : ℕ) : Prop where
  early : attempt < 4
  value : selected = selectedCutoff limits cutoff attempt
  clear : Clear eigenvalue selected
  first : ∀ earlier < attempt, ¬ Clear eigenvalue (selectedCutoff limits cutoff earlier)

section Signs
variable {matrixSignShifted : Matrix (Fin N) (Fin N) K → K → Option (Matrix (Fin N) (Fin N) K)}
  {R : Matrix (Fin N) (Fin N) K} {eigenvalue : Fin N → K}

theorem ExactSign.defined (exact : ExactSign matrixSignShifted R eigenvalue) (regular : IsUnit R.det)
    (shift : K) (apart : ∀ i, eigenvalue i + shift ≠ 0) :
    matrixSignShifted (spectral R eigenvalue) shift =
      some (spectral R fun i => (SignType.sign (eigenvalue i + shift) : K)) :=
  exact.invertible shift ((shift_invertible regular eigenvalue shift).mpr apart)

theorem ExactSign.refused (exact : ExactSign matrixSignShifted R eigenvalue) (regular : IsUnit R.det)
    (shift : K) (meets : ¬ ∀ i, eigenvalue i + shift ≠ 0) :
    matrixSignShifted (spectral R eigenvalue) shift = none := by
  apply exact.singular shift
  by_contra invertible
  exact meets ((shift_invertible regular eigenvalue shift).mp invertible)

theorem signActions_clear (exact : ExactSign matrixSignShifted R eigenvalue) (regular : IsUnit R.det)
    (x : Fin N → K) {selected : K} (clear : Clear eigenvalue selected) :
    signActions matrixSignShifted (spectral R eigenvalue) x selected =
      some (spectral R (fun i => (SignType.sign (eigenvalue i + selected) : K)) *ᵥ x,
        spectral R (fun i => (SignType.sign (eigenvalue i + -selected) : K)) *ᵥ x) := by
  have plus := exact.defined regular selected fun i => (clear i).1
  have minus := exact.defined regular (-selected) fun i => (clear i).2
  simp only [signActions, plus, minus, matvec_eq]

theorem signActions_blocked (exact : ExactSign matrixSignShifted R eigenvalue) (regular : IsUnit R.det)
    (x : Fin N → K) {selected : K} (blocked : ¬ Clear eigenvalue selected) :
    signActions matrixSignShifted (spectral R eigenvalue) x selected = none := by
  by_cases plus : ∀ i, eigenvalue i + selected ≠ 0
  · have minus : ¬ ∀ i, eigenvalue i + -selected ≠ 0 := by
      intro minus
      exact blocked fun i => ⟨plus i, minus i⟩
    simp only [signActions, exact.defined regular selected plus, exact.refused regular (-selected) minus]
  · simp only [signActions, exact.refused regular selected plus]

theorem shiftedSignActions_some (exact : ExactSign matrixSignShifted R eigenvalue) (regular : IsUnit R.det)
    {x : Fin N → K} {cutoff : K} {actions : (Fin N → K) × (Fin N → K)}
    (found : shiftedSignActions limits matrixSignShifted (spectral R eigenvalue) x cutoff = some actions) :
    ∃ selected attempt, Selected limits eigenvalue cutoff selected attempt ∧
      actions = (spectral R (fun i => (SignType.sign (eigenvalue i + selected) : K)) *ᵥ x,
        spectral R (fun i => (SignType.sign (eigenvalue i + -selected) : K)) *ᵥ x) := by
  obtain ⟨before, attempt, after, order, here, none_before⟩ := List.findSome?_eq_some_iff.mp found
  have clear : Clear eigenvalue (selectedCutoff limits cutoff attempt) := by
    by_contra blocked
    rw [signActions_blocked exact regular x blocked] at here
    cases here
  have position : before.length = attempt ∧ attempt < 4 := by
    have bound : before.length < 4 := by
      have lengths := congrArg List.length order
      simp only [List.length_range, List.length_append, List.length_cons] at lengths
      omega
    have entry : (List.range 4)[before.length]? = some attempt := by
      rw [order]
      simp
    rw [List.getElem?_range bound] at entry
    have same := Option.some.inj entry
    exact ⟨same, same ▸ bound⟩
  refine ⟨_, attempt, ⟨position.2, rfl, clear, ?_⟩, ?_⟩
  · intro earlier less clear_before
    have member : earlier ∈ before := by
      have entry : (List.range 4)[earlier]? = some earlier :=
        List.getElem?_range (lt_trans less position.2)
      rw [order, List.getElem?_append_left (by omega)] at entry
      exact List.mem_of_getElem? entry
    have absent := none_before earlier member
    rw [signActions_clear exact regular x clear_before] at absent
    cases absent
  · rw [signActions_clear exact regular x clear] at here
    exact (Option.some.inj here).symm

theorem shiftedSignActions_clear (exact : ExactSign matrixSignShifted R eigenvalue) (regular : IsUnit R.det)
    (x : Fin N → K) {cutoff : K} (clear : Clear eigenvalue cutoff) :
    shiftedSignActions limits matrixSignShifted (spectral R eigenvalue) x cutoff =
      some (spectral R (fun i => (SignType.sign (eigenvalue i + cutoff) : K)) *ᵥ x,
        spectral R (fun i => (SignType.sign (eigenvalue i + -cutoff) : K)) *ᵥ x) := by
  have first := signActions_clear exact regular x clear
  have attempts : List.range 4 = 0 :: [1, 2, 3] := rfl
  rw [shiftedSignActions, attempts, List.findSome?_cons]
  simp only [selectedCutoff, if_true, first]

end Signs

/-- Harten's function: the absolute value, rounded off below `delta`. -/
def harten (delta value : K) : K :=
  if |value| < delta then half (value * value / delta + delta) else |value|

theorem mean_sign {selected value : K} (positive : 0 < selected) (above : value + selected ≠ 0)
    (below : value + -selected ≠ 0) :
    ((SignType.sign (value + selected) : K) + (SignType.sign (value + -selected) : K)) / 2 =
      if selected < |value| then (SignType.sign value : K) else 0 := by
  rcases lt_or_gt_of_ne above with under | upper
  · have negative : value < 0 := by linarith
    have outside : selected < |value| := by
      rw [abs_of_neg negative]
      linarith
    rw [sign_neg under, sign_neg (by linarith), if_pos outside, sign_neg negative]
    norm_num
  · rcases lt_or_gt_of_ne below with short | beyond
    · have inside : ¬ selected < |value| := by
        rw [not_lt, abs_le]
        constructor
        · linarith
        · linarith
      rw [sign_pos upper, sign_neg short, if_neg inside]
      norm_num
    · have positive_value : 0 < value := by linarith
      have outside : selected < |value| := by
        rw [abs_of_pos positive_value]
        linarith
      rw [sign_pos upper, sign_pos beyond, if_pos outside, sign_pos positive_value]
      norm_num

theorem gap_sign {selected value : K} (positive : 0 < selected) (above : value + selected ≠ 0)
    (below : value + -selected ≠ 0) :
    ((SignType.sign (value + selected) : K) - (SignType.sign (value + -selected) : K)) / 2 =
      if selected < |value| then 0 else 1 := by
  rcases lt_or_gt_of_ne above with under | upper
  · have outside : selected < |value| := by
      rw [abs_of_neg (by linarith)]
      linarith
    rw [sign_neg under, sign_neg (by linarith), if_pos outside]
    norm_num
  · rcases lt_or_gt_of_ne below with short | beyond
    · have inside : ¬ selected < |value| := by
        rw [not_lt, abs_le]
        constructor
        · linarith
        · linarith
      rw [sign_pos upper, sign_neg short, if_neg inside]
      norm_num
    · have outside : selected < |value| := by
        rw [abs_of_pos (by linarith)]
        linarith
      rw [sign_pos upper, sign_pos beyond, if_pos outside]
      norm_num

theorem harten_eq {delta value : K} (positive : 0 < delta) (above : value + delta ≠ 0)
    (below : value + -delta ≠ 0) :
    value * (if delta < |value| then (SignType.sign value : K) else 0) +
        delta * ((value * (value * (if delta < |value| then 0 else 1) / delta) / delta +
          (if delta < |value| then 0 else 1)) / 2) =
      harten delta value := by
  have apart : |value| ≠ delta := by
    intro meets
    rcases abs_choice value with same | opposite
    · exact below (by linarith)
    · exact above (by linarith)
  unfold harten
  split
  · have outside : ¬ |value| < delta := not_lt.mpr (le_of_lt ‹_›)
    rw [if_neg outside, self_mul_sign]
    ring
  · have inside : |value| < delta := lt_of_le_of_ne (not_lt.mp ‹_›) apart
    rw [if_pos inside, half_eq]
    field_simp
    ring

theorem incoming_sign {selected value : K} (above : value + selected ≠ 0) :
    (1 + -(SignType.sign (value + selected) : K)) / 2 = if value < -selected then 1 else 0 := by
  rcases lt_or_gt_of_ne above with under | upper
  · rw [sign_neg under, if_pos (by linarith)]
    norm_num
  · rw [sign_pos upper, if_neg (by linarith)]
    norm_num

section Results
variable {matrixSignShifted : Matrix (Fin N) (Fin N) K → K → Option (Matrix (Fin N) (Fin N) K)}
  {R : Matrix (Fin N) (Fin N) K} {eigenvalue : Fin N → K}

theorem spectral_action_div (f : Fin N → K) (x : Fin N → K) (c : K) :
    (fun i => (spectral R f *ᵥ x) i / c) = spectral R (fun i => f i / c) *ᵥ x := by
  have scaled : (fun i => f i / c) = c⁻¹ • f := by
    funext i
    rw [Pi.smul_apply, smul_eq_mul, div_eq_inv_mul]
  rw [scaled, ← spectral_smul, smul_mulVec]
  funext i
  rw [Pi.smul_apply, smul_eq_mul, div_eq_inv_mul]

theorem spectral_action_add (f g : Fin N → K) (x : Fin N → K) :
    (fun i => (spectral R f *ᵥ x) i + (spectral R g *ᵥ x) i) =
      spectral R (fun i => f i + g i) *ᵥ x := by
  have sum := congrArg (· *ᵥ x) (spectral_add R f g)
  simp only [add_mulVec] at sum
  exact sum

theorem spectral_action_sub (f g : Fin N → K) (x : Fin N → K) :
    (fun i => (spectral R f *ᵥ x) i - (spectral R g *ᵥ x) i) =
      spectral R (fun i => f i - g i) *ᵥ x := by
  have difference := congrArg (· *ᵥ x) (spectral_sub R f g)
  simp only [sub_mulVec] at difference
  exact difference

theorem spectral_action_scale (f : Fin N → K) (x : Fin N → K) (c : K) :
    (fun i => c * (spectral R f *ᵥ x) i) = spectral R (fun i => c * f i) *ᵥ x := by
  have scaled := congrArg (· *ᵥ x) (spectral_smul R c f)
  simp only [smul_mulVec] at scaled
  exact scaled

theorem spectral_action_mean (f g : Fin N → K) (x : Fin N → K) :
    (fun i => ((spectral R f *ᵥ x) i + (spectral R g *ᵥ x) i) / 2) =
      spectral R (fun i => (f i + g i) / 2) *ᵥ x := by
  rw [← spectral_action_div, ← spectral_action_add]

theorem spectral_action_gap (f g : Fin N → K) (x : Fin N → K) :
    (fun i => ((spectral R f *ᵥ x) i - (spectral R g *ᵥ x) i) / 2) =
      spectral R (fun i => (f i - g i) / 2) *ᵥ x := by
  rw [← spectral_action_div, ← spectral_action_sub]

theorem spectral_mulVec_mulVec (regular : IsUnit R.det) (f g : Fin N → K) (x : Fin N → K) :
    spectral R f *ᵥ (spectral R g *ᵥ x) = spectral R (fun i => f i * g i) *ᵥ x := by
  rw [mulVec_mulVec, spectral_mul regular]
  rfl

theorem roeAbs_invertible (exact : ExactSign matrixSignShifted R eigenvalue) (regular : IsUnit R.det)
    (nonzero : ∀ i, eigenvalue i ≠ 0) (dU out : Fin N → K) :
    roeAbsApplyCertifiedReal limits matrixSignShifted (spectral R eigenvalue) dU out =
      (true, spectral R (fun i => |eigenvalue i|) *ᵥ dU) := by
  have sign := exact.defined regular 0 fun i => by simpa using nonzero i
  have absolute : (fun i => eigenvalue i * (SignType.sign (eigenvalue i + 0) : K)) =
      fun i => |eigenvalue i| := by
    funext i
    rw [add_zero, self_mul_sign]
  simp only [roeAbsApplyCertifiedReal, sign, matvec_eq, spectral_mulVec_mulVec regular, absolute]

/-- The cutoff of the modes that are resolved. The zero matrix needs none. -/
inductive ModeCutoff (limits : Limits K) (A : Matrix (Fin N) (Fin N) K) (eigenvalue : Fin N → K) : K → Prop
  | zero : matNormInf limits A = 0 → ModeCutoff limits A eigenvalue 0
  | attempt {selected : K} {attempt : ℕ} : Selected limits eigenvalue (zeroCutoff limits A) selected attempt →
      ModeCutoff limits A eigenvalue selected

theorem eigenvalue_zero (regular : IsUnit R.det) (vanishes : matNormInf limits (spectral R eigenvalue) = 0)
    (i : Fin N) : eigenvalue i = 0 :=
  congrFun (spectral_eq_zero regular (matNormInf_eq_zero vanishes)) i

theorem roeAbs_singular (exact : ExactSign matrixSignShifted R eigenvalue) (regular : IsUnit R.det)
    (singular : ∃ i, eigenvalue i = 0) {dU out result : Fin N → K}
    (returned : roeAbsApplyCertifiedReal limits matrixSignShifted (spectral R eigenvalue) dU out = (true, result)) :
    ∃ selected, ModeCutoff limits (spectral R eigenvalue) eigenvalue selected ∧
      result = spectral R (fun i => if selected < |eigenvalue i| then |eigenvalue i| else 0) *ᵥ dU := by
  have refused := exact.refused regular 0 (by
    obtain ⟨i, zero⟩ := singular
    intro apart
    exact apart i (by rw [add_zero, zero]))
  simp only [roeAbsApplyCertifiedReal, refused] at returned
  split at returned
  · rename_i vanishes
    refine ⟨0, .zero vanishes, ?_⟩
    have none_resolved : (fun i => if 0 < |eigenvalue i| then |eigenvalue i| else 0) = 0 := by
      funext i
      simp [eigenvalue_zero regular vanishes i]
    rw [none_resolved, spectral_zero, zero_mulVec]
    exact (congrArg Prod.snd returned).symm
  split at returned
  · cases returned
  rename_i positive
  rw [not_not] at positive
  split at returned
  · cases returned
  rename_i plusDu minusDu found
  obtain ⟨selected, attempt, chosen, actions⟩ := shiftedSignActions_some exact regular found
  obtain ⟨rfl, rfl⟩ := Prod.mk.inj actions
  have selected_pos : 0 < selected := by
    rw [chosen.value]
    exact selectedCutoff_pos positive chosen.early
  refine ⟨selected, .attempt chosen, ?_⟩
  have resolved : (fun i => eigenvalue i *
      (((SignType.sign (eigenvalue i + selected) : K) + (SignType.sign (eigenvalue i + -selected) : K)) / 2)) =
        fun i => if selected < |eigenvalue i| then |eigenvalue i| else 0 := by
    funext i
    rw [mean_sign selected_pos (chosen.clear i).1 (chosen.clear i).2]
    split
    · exact self_mul_sign _
    · exact mul_zero _
  have value := (congrArg Prod.snd returned).symm
  simp only [half_eq] at value
  rw [value, spectral_action_mean, matvec_eq, spectral_mulVec_mulVec regular, resolved]

theorem entropyFixed_spectral (regular : IsUnit R.det) (delta : K) (f g : Fin N → K) (x : Fin N → K) :
    entropyFixed (spectral R eigenvalue) delta (spectral R f *ᵥ x) (spectral R g *ᵥ x) =
      spectral R (fun i => eigenvalue i * ((f i + g i) / 2) +
        delta * ((eigenvalue i * (eigenvalue i * ((f i - g i) / 2) / delta) / delta +
          (f i - g i) / 2) / 2)) *ᵥ x := by
  have scaled : (fun i => (spectral R eigenvalue *ᵥ (spectral R (fun i => (f i - g i) / 2) *ᵥ x)) i / delta) =
      spectral R (fun i => eigenvalue i * ((f i - g i) / 2) / delta) *ᵥ x := by
    rw [spectral_mulVec_mulVec regular, spectral_action_div]
  unfold entropyFixed
  simp only [half_eq, safeAverage_eq, matvec_eq, spectral_action_mean, spectral_action_gap, scaled]
  rw [spectral_mulVec_mulVec regular, spectral_mulVec_mulVec regular]
  rw [← spectral_action_add, ← spectral_action_scale, ← spectral_action_mean, ← spectral_action_div,
    ← spectral_action_gap]

theorem entropyFix_exact (exact : ExactSign matrixSignShifted R eigenvalue) (regular : IsUnit R.det)
    {delta : K} (positive : 0 < delta) (bounded : delta ≤ limits.max)
    (off : ∀ i, eigenvalue i ≠ delta ∧ eigenvalue i ≠ -delta) (dU out : Fin N → K) :
    roeEntropyFixApplyCertifiedReal limits matrixSignShifted (spectral R eigenvalue) dU out delta =
      (true, spectral R (fun i => harten delta (eigenvalue i)) *ᵥ dU) := by
  have clear : Clear eigenvalue delta := by
    intro i
    constructor
    · intro meets
      exact (off i).2 (by linarith)
    · intro meets
      exact (off i).1 (by linarith)
  have guard : ¬ (¬ delta > 0 ∨ ¬ delta ≤ limits.max) := by
    rintro (small | large)
    · exact small positive
    · exact large bounded
  have modes : (fun i => eigenvalue i * (((SignType.sign (eigenvalue i + delta) : K) +
        (SignType.sign (eigenvalue i + -delta) : K)) / 2) +
      delta * ((eigenvalue i * (eigenvalue i * (((SignType.sign (eigenvalue i + delta) : K) -
        (SignType.sign (eigenvalue i + -delta) : K)) / 2) / delta) / delta +
        ((SignType.sign (eigenvalue i + delta) : K) - (SignType.sign (eigenvalue i + -delta) : K)) / 2) / 2)) =
      fun i => harten delta (eigenvalue i) := by
    funext i
    rw [mean_sign positive (clear i).1 (clear i).2, gap_sign positive (clear i).1 (clear i).2,
      harten_eq positive (clear i).1 (clear i).2]
  simp only [roeEntropyFixApplyCertifiedReal, if_neg guard, shiftedSignActions_clear exact regular dU clear]
  rw [entropyFixed_spectral regular, modes]

variable {realSpectrum : Matrix (Fin N) (Fin N) K → Spectrum}

theorem characteristic_projects (exact : ExactSign matrixSignShifted R eigenvalue) (regular : IsUnit R.det)
    {fluxJacobian : Matrix (Fin N) (Fin N) K} {outwardSign : ℤ}
    (orientation : oriented fluxJacobian outwardSign = spectral R eigenvalue) {jump out result : Fin N → K}
    (returned : characteristicIncomingApply limits matrixSignShifted realSpectrum fluxJacobian jump out
      outwardSign = (true, result)) :
    ∃ selected, ModeCutoff limits (spectral R eigenvalue) eigenvalue selected ∧
      result = spectral R (fun i => if eigenvalue i < -selected then 1 else 0) *ᵥ jump := by
  unfold characteristicIncomingApply at returned
  split at returned
  · cases returned
  simp only [orientation] at returned
  split at returned
  · cases returned
  split at returned
  · cases returned
  split at returned
  · rename_i vanishes
    refine ⟨0, .zero vanishes, ?_⟩
    have none_incoming : (fun i => if eigenvalue i < -0 then (1 : K) else 0) = 0 := by
      funext i
      simp [eigenvalue_zero regular vanishes i]
    rw [none_incoming, spectral_zero, zero_mulVec]
    exact (congrArg Prod.snd returned).symm
  split at returned
  · cases returned
  split at returned
  · cases returned
  rename_i plusJump minusJump found
  obtain ⟨selected, attempt, chosen, actions⟩ := shiftedSignActions_some exact regular found
  obtain ⟨rfl, -⟩ := Prod.mk.inj actions
  split at returned
  · cases returned
  refine ⟨selected, .attempt chosen, ?_⟩
  have value := (congrArg Prod.snd returned).symm
  simp only [safeAverage_eq, ← sub_eq_add_neg] at value
  have unchanged : jump = spectral R (fun _ => 1) *ᵥ jump := by
    have identity : spectral R (fun _ => (1 : K)) = 1 := spectral_one regular
    rw [identity, one_mulVec]
  have modes : (fun i => (1 - (SignType.sign (eigenvalue i + selected) : K)) / 2) =
      fun i => if eigenvalue i < -selected then 1 else 0 := by
    funext i
    rw [sub_eq_add_neg, incoming_sign (chosen.clear i).1]
  rw [value, ← modes, ← spectral_action_gap, ← unchanged]

end Results

section Refusals
variable (limits) (matrixSignShifted : Matrix (Fin N) (Fin N) K → K → Option (Matrix (Fin N) (Fin N) K))
  (realSpectrum : Matrix (Fin N) (Fin N) K → Spectrum) (A : Matrix (Fin N) (Fin N) K) (x out : Fin N → K)

theorem roeAbsCertified_refused :
    (roeAbsApplyCertifiedReal limits matrixSignShifted A x out).1 = false →
      (roeAbsApplyCertifiedReal limits matrixSignShifted A x out).2 = out := by
  unfold roeAbsApplyCertifiedReal
  split
  · intro refused
    cases refused
  split
  · intro refused
    cases refused
  split
  · intro _
    rfl
  split
  · intro _
    rfl
  · intro refused
    cases refused

theorem entropyFixCertified_refused (delta : K) :
    (roeEntropyFixApplyCertifiedReal limits matrixSignShifted A x out delta).1 = false →
      (roeEntropyFixApplyCertifiedReal limits matrixSignShifted A x out delta).2 = out := by
  unfold roeEntropyFixApplyCertifiedReal
  split
  · intro _
    rfl
  split
  · intro _
    rfl
  · intro refused
    cases refused

theorem roeAbs_refused :
    (roeAbsApply limits matrixSignShifted realSpectrum A x out).1 = false →
      (roeAbsApply limits matrixSignShifted realSpectrum A x out).2 = out := by
  unfold roeAbsApply
  split
  · intro _
    rfl
  · exact roeAbsCertified_refused limits matrixSignShifted A x out

theorem entropyFix_refused (delta : K) :
    (roeEntropyFixApply limits matrixSignShifted realSpectrum A x out delta).1 = false →
      (roeEntropyFixApply limits matrixSignShifted realSpectrum A x out delta).2 = out := by
  unfold roeEntropyFixApply
  split
  · intro _
    rfl
  split
  · intro _
    rfl
  · exact entropyFixCertified_refused limits matrixSignShifted A x out delta

theorem characteristic_refused (outwardSign : ℤ) :
    (characteristicIncomingApply limits matrixSignShifted realSpectrum A x out outwardSign).1 = false →
      (characteristicIncomingApply limits matrixSignShifted realSpectrum A x out outwardSign).2 = out := by
  unfold characteristicIncomingApply
  split
  · intro _
    rfl
  simp only
  split
  · intro _
    rfl
  split
  · intro _
    rfl
  split
  · intro refused
    cases refused
  split
  · intro _
    rfl
  split
  · intro _
    rfl
  split
  · intro _
    rfl
  · intro refused
    cases refused

end Refusals

/-- Every value a Roe function returns is the spectral one, and a refusal leaves the output as it was. -/
theorem roe_spectral_functions (limits : Limits K)
    {matrixSignShifted : Matrix (Fin N) (Fin N) K → K → Option (Matrix (Fin N) (Fin N) K)}
    (realSpectrum : Matrix (Fin N) (Fin N) K → Spectrum) {R : Matrix (Fin N) (Fin N) K} {eigenvalue : Fin N → K}
    (regular : IsUnit R.det) (exact : ExactSign matrixSignShifted R eigenvalue)
    (certified : realSpectrum (spectral R eigenvalue) = .real) :
    (∀ dU out, (∀ i, eigenvalue i ≠ 0) →
      roeAbsApply limits matrixSignShifted realSpectrum (spectral R eigenvalue) dU out =
        (true, spectral R (fun i => |eigenvalue i|) *ᵥ dU)) ∧
    (∀ dU out result, (∃ i, eigenvalue i = 0) →
      roeAbsApply limits matrixSignShifted realSpectrum (spectral R eigenvalue) dU out = (true, result) →
      ∃ selected, ModeCutoff limits (spectral R eigenvalue) eigenvalue selected ∧
        result = spectral R (fun i => if selected < |eigenvalue i| then |eigenvalue i| else 0) *ᵥ dU) ∧
    (∀ dU out delta, (∀ i, eigenvalue i ≠ delta ∧ eigenvalue i ≠ -delta) →
      roeEntropyFixApply limits matrixSignShifted realSpectrum (spectral R eigenvalue) dU out delta =
        if 0 < delta ∧ delta ≤ limits.max then
          (true, spectral R (fun i => harten delta (eigenvalue i)) *ᵥ dU)
        else (false, out)) ∧
    (∀ dU out, roeAbsApplyCertifiedReal limits matrixSignShifted (spectral R eigenvalue) dU out =
      roeAbsApply limits matrixSignShifted realSpectrum (spectral R eigenvalue) dU out) ∧
    (∀ dU out delta, roeEntropyFixApplyCertifiedReal limits matrixSignShifted (spectral R eigenvalue) dU out delta =
      roeEntropyFixApply limits matrixSignShifted realSpectrum (spectral R eigenvalue) dU out delta) ∧
    (∀ fluxJacobian outwardSign jump out result, oriented fluxJacobian outwardSign = spectral R eigenvalue →
      characteristicIncomingApply limits matrixSignShifted realSpectrum fluxJacobian jump out outwardSign =
        (true, result) →
      ∃ selected, ModeCutoff limits (spectral R eigenvalue) eigenvalue selected ∧
        result = spectral R (fun i => if eigenvalue i < -selected then 1 else 0) *ᵥ jump) ∧
    (∀ A x out, (roeAbsApply limits matrixSignShifted realSpectrum A x out).1 = false →
      (roeAbsApply limits matrixSignShifted realSpectrum A x out).2 = out) ∧
    (∀ A x out delta, (roeEntropyFixApply limits matrixSignShifted realSpectrum A x out delta).1 = false →
      (roeEntropyFixApply limits matrixSignShifted realSpectrum A x out delta).2 = out) ∧
    (∀ A x out outwardSign,
      (characteristicIncomingApply limits matrixSignShifted realSpectrum A x out outwardSign).1 = false →
      (characteristicIncomingApply limits matrixSignShifted realSpectrum A x out outwardSign).2 = out) := by
  have abs_certified (dU out : Fin N → K) :
      roeAbsApplyCertifiedReal limits matrixSignShifted (spectral R eigenvalue) dU out =
        roeAbsApply limits matrixSignShifted realSpectrum (spectral R eigenvalue) dU out := by
    rw [roeAbsApply, if_neg (not_not.mpr certified)]
  have fix_certified (dU out : Fin N → K) (delta : K) :
      roeEntropyFixApplyCertifiedReal limits matrixSignShifted (spectral R eigenvalue) dU out delta =
        roeEntropyFixApply limits matrixSignShifted realSpectrum (spectral R eigenvalue) dU out delta := by
    rw [roeEntropyFixApply, if_neg (not_not.mpr certified)]
    split
    · rw [roeEntropyFixApplyCertifiedReal, if_pos ‹_›]
    · rfl
  refine ⟨?_, ?_, ?_, abs_certified, fix_certified, ?_, ?_, ?_, ?_⟩
  · intro dU out nonzero
    rw [← abs_certified]
    exact roeAbs_invertible exact regular nonzero dU out
  · intro dU out result singular returned
    rw [← abs_certified] at returned
    exact roeAbs_singular exact regular singular returned
  · intro dU out delta off
    split
    · rename_i range
      rw [← fix_certified]
      exact entropyFix_exact exact regular range.1 range.2 off dU out
    · rename_i range
      rw [roeEntropyFixApply, if_pos (not_and_or.mp range)]
  · intro fluxJacobian outwardSign jump out result orientation returned
    exact characteristic_projects exact regular orientation returned
  · exact roeAbs_refused limits matrixSignShifted realSpectrum
  · exact entropyFix_refused limits matrixSignShifted realSpectrum
  · exact characteristic_refused limits matrixSignShifted realSpectrum

theorem binary64_denorm_pos : (0 : ℚ) < 1 / 2 ^ 1074 := by positivity

theorem two_le_gap {power : ℚ} (one_le : 1 ≤ power) : 1 + 1 ≤ power * 2 ^ 53 - power := by
  have factor : (2 : ℚ) ^ 53 = 9007199254740992 := by norm_num
  rw [factor]
  linarith

theorem binary64_denorm_small : (1 / 2 ^ 1074 + 1 / 2 ^ 1074 : ℚ) ≤ 2 ^ 971 * 2 ^ 53 - 2 ^ 971 := by
  have small : (1 / 2 ^ 1074 : ℚ) ≤ 1 := by
    rw [div_le_one (by positivity)]
    exact one_le_pow₀ (by norm_num)
  exact le_trans (add_le_add small small) (two_le_gap (one_le_pow₀ (by norm_num)))

theorem binary64_epsilon_pos : (0 : ℚ) < 1 / 2 ^ 52 := by positivity

theorem binary64_step_nonneg : (0 : ℚ) ≤ 1 / 2 ^ 26 := by positivity

theorem binary64_step_square : (1 / 2 ^ 26 * (1 / 2 ^ 26) : ℚ) = 1 / 2 ^ 52 := by norm_num

theorem binary64_step_small : (1 / 2 ^ 26 + 1 / 2 ^ 26 + 1 / 2 ^ 26 : ℚ) < 1 := by norm_num

/-- The limits of a double. -/
def binary64 : Limits ℚ where
  max := 2 ^ 971 * 2 ^ 53 - 2 ^ 971
  epsilon := 1 / 2 ^ 52
  denormMin := 1 / 2 ^ 1074
  boundaryStep := 1 / 2 ^ 26
  denormMin_pos := binary64_denorm_pos
  denormMin_small := binary64_denorm_small
  epsilon_pos := binary64_epsilon_pos
  boundaryStep_nonneg := binary64_step_nonneg
  boundaryStep_square := binary64_step_square
  boundaryStep_small := binary64_step_small

/-- The eigenvectors of a triangular matrix of two rows. -/
def shear : Matrix (Fin 2) (Fin 2) ℚ := !![1, 1; 0, 1]

/-- The matrix sign of a triangular matrix of two rows, by the difference quotient of the sign. -/
def triangularSign (A : Matrix (Fin 2) (Fin 2) ℚ) (shift : ℚ) : Option (Matrix (Fin 2) (Fin 2) ℚ) :=
  if ∀ i, A i i + shift ≠ 0 then
    let upper : ℚ := SignType.sign (A 0 0 + shift)
    let lower : ℚ := SignType.sign (A 1 1 + shift)
    some !![upper, (upper - lower) * A 0 1 / (A 0 0 - A 1 1); 0, lower]
  else none

theorem shear_regular : IsUnit shear.det := by simp [shear]

theorem spectral_shear (f : Fin 2 → ℚ) : spectral shear f = !![f 0, f 1 - f 0; 0, f 1] := by
  have inverse : shear⁻¹ = !![1, -1; 0, 1] := inv_eq_right_inv (by decide +kernel)
  rw [spectral, inverse, shear]
  ext i j
  rw [Matrix.mul_apply, Fin.sum_univ_two, mul_diagonal, mul_diagonal]
  fin_cases i <;> fin_cases j <;> simp [sub_eq_neg_add]

theorem triangularSign_exact : ExactSign triangularSign shear ![2, -3] := by
  have diagonals : ∀ i, (spectral shear ![2, -3]) i i = ![(2 : ℚ), -3] i := by
    rw [spectral_shear]
    intro i
    fin_cases i <;> rfl
  constructor
  · intro shift invertible
    have apart := (shift_invertible shear_regular ![2, -3] shift).mp invertible
    rw [triangularSign, if_pos (by simpa only [diagonals] using apart), spectral_shear, spectral_shear]
    norm_num
    ring
  · intro shift singular
    have meets : ¬ ∀ i, ![(2 : ℚ), -3] i + shift ≠ 0 := fun apart =>
      (shift_invertible shear_regular ![2, -3] shift).mpr apart singular
    rw [triangularSign]
    exact if_neg (by simpa only [diagonals] using meets)

/-- The absolute value of a triangular matrix with eigenvalues of both signs. -/
theorem sheared_absolute :
    roeAbsApply binary64 triangularSign (fun _ => .real) (spectral shear ![2, -3]) ![1, 2] ![0, 0] =
      (true, ![4, 6]) := by
  have absolute := (roe_spectral_functions binary64 (fun _ => .real) shear_regular triangularSign_exact rfl).1
    ![1, 2] ![0, 0] (by decide)
  rw [absolute, spectral_shear]
  congr 1
  funext i
  fin_cases i <;> norm_num [mulVec, dotProduct, Fin.sum_univ_two]

end Pops.RoeSpectral
