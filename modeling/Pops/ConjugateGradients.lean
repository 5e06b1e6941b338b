import Mathlib.Analysis.InnerProductSpace.Symmetric

/-!
Conjugate gradients of a symmetric positive definite map, in its Krylov spaces: what one step keeps
of a residual and a direction, and the error that a residual orthogonal to a space has least.
-/
namespace Pops.ConjugateGradients
open scoped InnerProductSpace

variable {V : Type*} [NormedAddCommGroup V] [InnerProductSpace ℝ V]

/-- The space of the first powers of a map on a vector. -/
def krylov (A : V →ₗ[ℝ] V) (start : V) (k : ℕ) : Submodule ℝ V :=
  Submodule.span ℝ ((fun power => (A ^ power) start) '' {power | power < k})

/-- A residual and a direction after `k` steps. -/
structure Conjugate (A : V →ₗ[ℝ] V) (start : V) (k : ℕ) (residual direction : V) : Prop where
  orthogonal : ∀ v ∈ krylov A start k, ⟪residual, v⟫_ℝ = 0
  conjugate : ∀ v ∈ krylov A start k, ⟪direction, A v⟫_ℝ = 0
  corrected : direction - residual ∈ krylov A start k
  generated : krylov A start (k + 1) = krylov A start k ⊔ Submodule.span ℝ {direction}

section Krylov
variable (A : V →ₗ[ℝ] V) (start : V)

theorem power_mem {power k : ℕ} (below : power < k) : (A ^ power) start ∈ krylov A start k :=
  Submodule.subset_span ⟨power, below, rfl⟩

@[simp] theorem krylov_zero : krylov A start 0 = ⊥ := by
  simp [krylov]

theorem krylov_one : krylov A start 1 = Submodule.span ℝ {start} := by
  simp [krylov]

theorem krylov_mono {k m : ℕ} (order : k ≤ m) : krylov A start k ≤ krylov A start m :=
  Submodule.span_mono (Set.image_mono fun _ below => lt_of_lt_of_le below order)

theorem apply_mem {k : ℕ} {v : V} (listed : v ∈ krylov A start k) : A v ∈ krylov A start (k + 1) := by
  induction listed using Submodule.span_induction with
  | mem w generator =>
    obtain ⟨power, below, rfl⟩ := generator
    have next : A ((A ^ power) start) = (A ^ (power + 1)) start := by
      rw [pow_succ', Module.End.mul_apply]
    exact next ▸ power_mem A start (Nat.succ_lt_succ below)
  | zero => exact (congrArg (· ∈ krylov A start (k + 1)) A.map_zero).mpr (Submodule.zero_mem _)
  | add v w _ _ first second => exact (congrArg (· ∈ krylov A start (k + 1)) (A.map_add v w)).mpr (Submodule.add_mem _ first second)
  | smul a v _ ih => exact (congrArg (· ∈ krylov A start (k + 1)) (A.map_smul a v)).mpr (Submodule.smul_mem _ a ih)

theorem krylov_succ_le (k : ℕ) {space : Submodule ℝ V} (first : krylov A start (k + 1) ≤ space)
    (images : ∀ v ∈ krylov A start (k + 1), A v ∈ space) : krylov A start (k + 2) ≤ space := by
  refine Submodule.span_le.mpr ?_
  rintro _ ⟨power, below, rfl⟩
  rcases Nat.lt_succ_iff_lt_or_eq.mp below with earlier | rfl
  · exact first (power_mem A start earlier)
  · have next : (A ^ (k + 1)) start = A ((A ^ k) start) := by
      rw [pow_succ', Module.End.mul_apply]
    exact (congrArg (· ∈ space) next).mpr (images _ (power_mem A start k.lt_succ_self))

theorem krylov_smul {a b : ℝ} (map : a ≠ 0) (vector : b ≠ 0) (k : ℕ) :
    krylov (a • A) (b • start) k = krylov A start k := by
  have scaled (power : ℕ) : ((a • A) ^ power) (b • start) = (a ^ power * b) • (A ^ power) start := by
    rw [smul_pow, LinearMap.smul_apply, LinearMap.map_smul, smul_smul]
  refine le_antisymm (Submodule.span_le.mpr ?_) (Submodule.span_le.mpr ?_)
  · rintro _ ⟨power, below, rfl⟩
    exact (congrArg (· ∈ krylov A start k) (scaled power)).mpr
      (Submodule.smul_mem _ _ (power_mem A start below))
  · rintro _ ⟨power, below, rfl⟩
    have unscaled : (a ^ power * b)⁻¹ • ((a • A) ^ power) (b • start) = (A ^ power) start := by
      rw [scaled, smul_smul, inv_mul_cancel₀ (mul_ne_zero (pow_ne_zero _ map) vector), one_smul]
    exact (congrArg (· ∈ krylov (a • A) (b • start) k) unscaled).mp
      (Submodule.smul_mem _ _ (power_mem (a • A) (b • start) below))

end Krylov

section Step
variable {A : V →ₗ[ℝ] V} {start : V} {k : ℕ} {residual direction : V}

theorem Conjugate.initial (A : V →ₗ[ℝ] V) (start : V) : Conjugate A start 0 start start where
  orthogonal v listed := by
    rw [krylov_zero, Submodule.mem_bot] at listed
    rw [listed, inner_zero_right]
  conjugate v listed := by
    rw [krylov_zero, Submodule.mem_bot] at listed
    rw [listed, A.map_zero, inner_zero_right]
  corrected := by
    rw [sub_self]
    exact Submodule.zero_mem _
  generated := by rw [zero_add, krylov_one, krylov_zero, bot_sup_eq]

variable (state : Conjugate A start k residual direction)
include state

theorem Conjugate.direction_mem : direction ∈ krylov A start (k + 1) :=
  state.generated ▸ Submodule.mem_sup_right (Submodule.mem_span_singleton_self direction)

theorem Conjugate.residual_mem : residual ∈ krylov A start (k + 1) := by
  have corrected := krylov_mono A start k.le_succ state.corrected
  simpa using Submodule.sub_mem _ state.direction_mem corrected

theorem Conjugate.inner_direction : ⟪residual, direction⟫_ℝ = ⟪residual, residual⟫_ℝ := by
  have correction := state.orthogonal _ state.corrected
  rw [inner_sub_right] at correction
  linarith

theorem Conjugate.direction_ne (remains : residual ≠ 0) : direction ≠ 0 := by
  rintro rfl
  have squared := state.inner_direction
  rw [inner_zero_right] at squared
  exact remains (inner_self_eq_zero.mp squared.symm)

theorem Conjugate.krylov_lt (remains : residual ≠ 0) : krylov A start k < krylov A start (k + 1) := by
  refine lt_of_le_of_ne (krylov_mono A start k.le_succ) fun equal => remains ?_
  exact inner_self_eq_zero.mp (state.orthogonal residual (equal ▸ state.residual_mem))

theorem Conjugate.orthogonal_step (symmetric : A.IsSymmetric) (curved : ⟪direction, A direction⟫_ℝ ≠ 0) :
    ∀ v ∈ krylov A start (k + 1),
      ⟪residual - (⟪residual, residual⟫_ℝ / ⟪direction, A direction⟫_ℝ) • A direction, v⟫_ℝ = 0 := by
  intro v listed
  rw [state.generated] at listed
  obtain ⟨old, before, new, along, rfl⟩ := Submodule.mem_sup.mp listed
  obtain ⟨a, rfl⟩ := Submodule.mem_span_singleton.mp along
  have past : ⟪residual - (⟪residual, residual⟫_ℝ / ⟪direction, A direction⟫_ℝ) • A direction, old⟫_ℝ = 0 := by
    rw [inner_sub_left, inner_smul_left, state.orthogonal old before, symmetric direction old,
      state.conjugate old before, mul_zero, sub_zero]
  have present :
      ⟪residual - (⟪residual, residual⟫_ℝ / ⟪direction, A direction⟫_ℝ) • A direction, direction⟫_ℝ = 0 := by
    rw [inner_sub_left, real_inner_smul_left, state.inner_direction, symmetric direction direction,
      div_mul_cancel₀ _ curved, sub_self]
  rw [inner_add_right, inner_smul_right, past, present, mul_zero, add_zero]

theorem Conjugate.step (symmetric : A.IsSymmetric) (positive : ∀ v, v ≠ 0 → 0 < ⟪v, A v⟫_ℝ) (remains : residual ≠ 0)
    {next : V} (moved : next = residual - (⟪residual, residual⟫_ℝ / ⟪direction, A direction⟫_ℝ) • A direction) :
    Conjugate A start (k + 1) next (next + (⟪next, next⟫_ℝ / ⟪residual, residual⟫_ℝ) • direction) := by
  have curved : ⟪direction, A direction⟫_ℝ ≠ 0 := (positive _ (state.direction_ne remains)).ne'
  have squared : ⟪residual, residual⟫_ℝ ≠ 0 := fun zero => remains (inner_self_eq_zero.mp zero)
  have orthogonal : ∀ v ∈ krylov A start (k + 1), ⟪next, v⟫_ℝ = 0 := by
    rw [moved]
    exact state.orthogonal_step symmetric curved
  -- The image of the direction is a combination of both residuals.
  have image : A direction = (⟪direction, A direction⟫_ℝ / ⟪residual, residual⟫_ℝ) • (residual - next) := by
    rw [moved, sub_sub_cancel, smul_smul, div_mul_div_cancel₀ squared, div_self curved, one_smul]
  have conjugate_direction :
      ⟪next + (⟪next, next⟫_ℝ / ⟪residual, residual⟫_ℝ) • direction, A direction⟫_ℝ = 0 := by
    have against : ⟪next, A direction⟫_ℝ =
        -(⟪direction, A direction⟫_ℝ / ⟪residual, residual⟫_ℝ * ⟪next, next⟫_ℝ) := by
      conv_lhs => rw [image]
      rw [real_inner_smul_right, inner_sub_right, orthogonal residual state.residual_mem]
      ring
    rw [inner_add_left, real_inner_smul_left, against]
    field_simp
    ring
  constructor
  · exact orthogonal
  · intro v listed
    rw [state.generated] at listed
    obtain ⟨old, before, new, along, rfl⟩ := Submodule.mem_sup.mp listed
    obtain ⟨a, rfl⟩ := Submodule.mem_span_singleton.mp along
    have past : ⟪next + (⟪next, next⟫_ℝ / ⟪residual, residual⟫_ℝ) • direction, A old⟫_ℝ = 0 := by
      rw [inner_add_left, real_inner_smul_left, orthogonal _ (apply_mem A start before),
        state.conjugate old before, mul_zero, add_zero]
    rw [A.map_add, A.map_smul, inner_add_right, real_inner_smul_right, past, conjugate_direction, mul_zero, add_zero]
  · rw [add_sub_cancel_left]
    exact Submodule.smul_mem _ _ state.direction_mem
  · have next_mem : next ∈ krylov A start (k + 2) := by
      rw [moved]
      exact Submodule.sub_mem _ (krylov_mono A start (k + 1).le_succ state.residual_mem)
        (Submodule.smul_mem _ _ (apply_mem A start state.direction_mem))
    refine le_antisymm ?_ (sup_le (krylov_mono A start (k + 1).le_succ) ?_)
    · refine krylov_succ_le A start k le_sup_left fun v listed => ?_
      have reached : next ∈ krylov A start (k + 1) ⊔
          Submodule.span ℝ {next + (⟪next, next⟫_ℝ / ⟪residual, residual⟫_ℝ) • direction} := by
        have whole : next = (next + (⟪next, next⟫_ℝ / ⟪residual, residual⟫_ℝ) • direction) -
            (⟪next, next⟫_ℝ / ⟪residual, residual⟫_ℝ) • direction := (add_sub_cancel_right _ _).symm
        rw [whole]
        refine Submodule.sub_mem _ ?_ (Submodule.mem_sup_left (Submodule.smul_mem _ _ state.direction_mem))
        rw [← whole]
        exact Submodule.mem_sup_right (Submodule.mem_span_singleton_self _)
      rw [state.generated] at listed
      obtain ⟨old, before, new, along, rfl⟩ := Submodule.mem_sup.mp listed
      obtain ⟨a, rfl⟩ := Submodule.mem_span_singleton.mp along
      rw [A.map_add, A.map_smul, image]
      refine Submodule.add_mem _ (Submodule.mem_sup_left (apply_mem A start before))
        (Submodule.smul_mem _ _ (Submodule.smul_mem _ _ (Submodule.sub_mem _ ?_ reached)))
      exact Submodule.mem_sup_left state.residual_mem
    · rw [Submodule.span_singleton_le_iff_mem]
      exact Submodule.add_mem _ next_mem
        (Submodule.smul_mem _ _ (krylov_mono A start (k + 1).le_succ state.direction_mem))

end Step

section Error
variable {A : V →ₗ[ℝ] V}

theorem exists_preimage [FiniteDimensional ℝ V] (positive : ∀ v, v ≠ 0 → 0 < ⟪v, A v⟫_ℝ) (value : V) :
    ∃ v, A v = value := by
  have injective : Function.Injective A := by
    rw [← LinearMap.ker_eq_bot, LinearMap.ker_eq_bot']
    intro v zero
    by_contra nonzero
    have curved := positive v nonzero
    rw [zero, inner_zero_right] at curved
    exact lt_irrefl _ curved
  exact LinearMap.surjective_of_injective injective value

theorem energy_le (symmetric : A.IsSymmetric) (positive : ∀ v, v ≠ 0 → 0 < ⟪v, A v⟫_ℝ) {space : Submodule ℝ V}
    {exact reached other : V} (orthogonal : ∀ v ∈ space, ⟪A (exact - reached), v⟫_ℝ = 0)
    (listed : other - reached ∈ space) :
    ⟪exact - reached, A (exact - reached)⟫_ℝ ≤ ⟪exact - other, A (exact - other)⟫_ℝ := by
  have split : exact - other = (exact - reached) - (other - reached) := (sub_sub_sub_cancel_right _ _ _).symm
  have cross := orthogonal _ listed
  have cross' : ⟪other - reached, A (exact - reached)⟫_ℝ = 0 := by rw [real_inner_comm, cross]
  have mixed : ⟪exact - reached, A (other - reached)⟫_ℝ = 0 := by rw [← symmetric, cross]
  have square : 0 ≤ ⟪other - reached, A (other - reached)⟫_ℝ := by
    by_cases zero : other - reached = 0
    · rw [zero, inner_zero_left]
    · exact (positive _ zero).le
  have expanded : ⟪exact - other, A (exact - other)⟫_ℝ =
      ⟪exact - reached, A (exact - reached)⟫_ℝ + ⟪other - reached, A (other - reached)⟫_ℝ := by
    rw [split, A.map_sub (exact - reached), inner_sub_left, inner_sub_right, inner_sub_right, cross', mixed]
    ring
  linarith

end Error

end Pops.ConjugateGradients
