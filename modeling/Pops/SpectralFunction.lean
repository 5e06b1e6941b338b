import Mathlib.LinearAlgebra.Matrix.NonsingularInverse
import Mathlib.Algebra.Order.Field.Basic

/-!
Functions of a matrix that a change of basis makes diagonal. What is computed
from such functions is computed on the eigenvalues one by one.
-/
namespace Pops.SpectralFunction
open Matrix

variable {n K : Type} [Fintype n] [DecidableEq n] [Field K]

/-- The function of the matrix with eigenvectors `R` that takes the values `f` on the eigenvalues. -/
noncomputable def spectral (R : Matrix n n K) (f : n → K) : Matrix n n K := R * diagonal f * R⁻¹

theorem spectral_add (R : Matrix n n K) (f g : n → K) :
    spectral R f + spectral R g = spectral R (f + g) := by
  rw [spectral, spectral, spectral, ← Matrix.add_mul, ← Matrix.mul_add, diagonal_add]
  rfl

theorem spectral_smul (R : Matrix n n K) (c : K) (f : n → K) :
    c • spectral R f = spectral R (c • f) := by
  rw [spectral, spectral, diagonal_smul, Matrix.mul_smul, Matrix.smul_mul]

theorem spectral_sub (R : Matrix n n K) (f g : n → K) :
    spectral R f - spectral R g = spectral R (f - g) := by
  have opposite : spectral R f - spectral R g = spectral R f + (-1 : K) • spectral R g := by
    rw [neg_one_smul, sub_eq_add_neg]
  rw [opposite, spectral_smul, spectral_add, neg_one_smul, sub_eq_add_neg]

theorem spectral_zero (R : Matrix n n K) : spectral R 0 = 0 := by
  rw [spectral, diagonal_zero', Matrix.mul_zero, Matrix.zero_mul]

variable {R : Matrix n n K}

theorem spectral_one (regular : IsUnit R.det) : spectral R 1 = 1 := by
  rw [spectral, diagonal_one', Matrix.mul_one, Matrix.mul_nonsing_inv R regular]

theorem spectral_mul (regular : IsUnit R.det) (f g : n → K) :
    spectral R f * spectral R g = spectral R (f * g) := by
  calc R * diagonal f * R⁻¹ * (R * diagonal g * R⁻¹)
      = R * diagonal f * (R⁻¹ * R) * (diagonal g * R⁻¹) := by simp only [Matrix.mul_assoc]
    _ = R * (diagonal f * diagonal g) * R⁻¹ := by
        rw [Matrix.nonsing_inv_mul R regular, Matrix.mul_one]
        simp only [Matrix.mul_assoc]
    _ = spectral R (f * g) := by
        rw [diagonal_mul_diagonal]
        rfl

theorem spectral_shift (regular : IsUnit R.det) (f : n → K) (s : K) :
    spectral R f + s • 1 = spectral R fun i => f i + s := by
  rw [← spectral_one regular, spectral_smul, spectral_add]
  congr 1
  funext i
  simp

theorem det_spectral (regular : IsUnit R.det) (f : n → K) :
    (spectral R f).det = ∏ i, f i := by
  have cancel : R.det * R⁻¹.det = 1 := by
    rw [← Matrix.det_mul, Matrix.mul_nonsing_inv R regular, Matrix.det_one]
  rw [spectral, Matrix.det_mul, Matrix.det_mul, det_diagonal, mul_right_comm, cancel, one_mul]

theorem shift_invertible (regular : IsUnit R.det) (f : n → K) (s : K) :
    (spectral R f + s • 1).det ≠ 0 ↔ ∀ i, f i + s ≠ 0 := by
  rw [spectral_shift regular, det_spectral regular, Finset.prod_ne_zero_iff]
  simp

theorem spectral_eq_zero (regular : IsUnit R.det) {f : n → K} (vanishes : spectral R f = 0) : f = 0 := by
  have conjugate : R⁻¹ * spectral R f * R = diagonal f := by
    calc R⁻¹ * (R * diagonal f * R⁻¹) * R
        = R⁻¹ * R * diagonal f * (R⁻¹ * R) := by simp only [Matrix.mul_assoc]
      _ = diagonal f := by rw [Matrix.nonsing_inv_mul R regular, Matrix.one_mul, Matrix.mul_one]
  rw [vanishes, Matrix.mul_zero, Matrix.zero_mul] at conjugate
  funext i
  have entry := congrFun (congrFun conjugate i) i
  simpa using entry.symm

end Pops.SpectralFunction
