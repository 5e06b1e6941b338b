import Mathlib.LinearAlgebra.Matrix.Notation
import Mathlib.Algebra.Order.Field.Basic

/-!
`numerics/linalg/dense_eig.hpp` and `numerics/linalg/block_inverse.hpp`: the
inverse of a small dense block, by elimination or in closed form. The numbers
are exact. An array that a call writes is passed as it was and returned as it is
left, next to what the call returned.
-/
namespace Pops.DenseInverse

variable {N : ℕ} {K : Type} [Field K] [LinearOrder K]

/-- The two arrays of `mat_inverse`, which see the same row operations. -/
structure Arrays (N : ℕ) (K : Type) where
  M : Matrix (Fin N) (Fin N) K
  inv : Matrix (Fin N) (Fin N) K

/-- The pivot row of a column and its magnitude: the largest one at or below the diagonal. -/
def pivot (M : Matrix (Fin N) (Fin N) K) (col : Fin N) : Fin N × K :=
  ((List.finRange N).filter (col < ·)).foldl
    (fun found r => if |M r col| > found.2 then (r, |M r col|) else found) (col, |M col col|)

/-- Two rows change places. -/
def swapRows (first second : Fin N) (X : Matrix (Fin N) (Fin N) K) : Matrix (Fin N) (Fin N) K :=
  Matrix.of fun i => X (Equiv.swap first second i)

/-- A row times a factor. -/
def scaleRow (col : Fin N) (factor : K) (X : Matrix (Fin N) (Fin N) K) : Matrix (Fin N) (Fin N) K :=
  Matrix.of fun i j => if i = col then X i j * factor else X i j

/-- A multiple of one row off every other row, whose factor is not zero. -/
def clearRows (col : Fin N) (factors : Fin N → K) (X : Matrix (Fin N) (Fin N) K) : Matrix (Fin N) (Fin N) K :=
  Matrix.of fun i j => if i = col ∨ factors i = 0 then X i j else X i j - factors i * X col j

/-- The pivot row in its place. -/
def Arrays.exchange (arrays : Arrays N K) (col piv : Fin N) : Arrays N K :=
  if piv = col then arrays else ⟨swapRows col piv arrays.M, swapRows col piv arrays.inv⟩

/-- The pivot row with a unit pivot. -/
def Arrays.normalize (arrays : Arrays N K) (col : Fin N) : Arrays N K :=
  ⟨scaleRow col (1 / arrays.M col col) arrays.M, scaleRow col (1 / arrays.M col col) arrays.inv⟩

/-- The other rows without the column. The factors are read before their rows change. -/
def Arrays.clear (arrays : Arrays N K) (col : Fin N) : Arrays N K :=
  ⟨clearRows col (fun r => arrays.M r col) arrays.M, clearRows col (fun r => arrays.M r col) arrays.inv⟩

/-- One column, with a given pivot row. -/
def Arrays.reduce (arrays : Arrays N K) (col piv : Fin N) : Arrays N K :=
  ((arrays.exchange col piv).normalize col).clear col

/-- The loop of `mat_inverse` over the columns. -/
def eliminate (tol : K) : List (Fin N) → Arrays N K → Bool × Arrays N K
  | [], arrays => (true, arrays)
  | col :: rest, arrays =>
    if (pivot arrays.M col).2 < tol then (false, arrays)
    else eliminate tol rest (arrays.reduce col (pivot arrays.M col).1)

/-- `mat_inverse`: whatever `inv` held, it is the identity before the first column. -/
def matInverse (tol : K) (A _inv : Matrix (Fin N) (Fin N) K) : Bool × Matrix (Fin N) (Fin N) K :=
  let done := eliminate tol (List.finRange N) ⟨A, Matrix.of fun i j => if i = j then 1 else 0⟩
  (done.1, done.2.inv)

/-- The determinant test of the closed forms. -/
def Negligible (tol det : K) : Prop := det < tol ∧ det > -tol

instance (tol det : K) : Decidable (Negligible tol det) := inferInstanceAs (Decidable (_ ∧ _))

/-- The two indices of a block of two. -/
def first : Fin 2 := Fin.castSucc (Fin.last 0)

def second : Fin 2 := Fin.last 1

/-- `block_inverse<2>`. -/
def blockInverse2 (tol : K) (A inv : Matrix (Fin 2) (Fin 2) K) : Bool × Matrix (Fin 2) (Fin 2) K :=
  let a := A first first
  let b := A first second
  let c := A second first
  let d := A second second
  let t := a * d
  let det := t - b * c
  if Negligible tol det then (false, inv)
  else (true, !![d / det, -b / det; -c / det, a / det])

/-- The cofactors of a block of three, row by row. -/
def cofactors (A : Matrix (Fin 3) (Fin 3) K) : Matrix (Fin 3) (Fin 3) K :=
  !![A 1 1 * A 2 2 - A 1 2 * A 2 1, A 1 2 * A 2 0 - A 1 0 * A 2 2, A 1 0 * A 2 1 - A 1 1 * A 2 0;
    A 0 2 * A 2 1 - A 0 1 * A 2 2, A 0 0 * A 2 2 - A 0 2 * A 2 0, A 0 1 * A 2 0 - A 0 0 * A 2 1;
    A 0 1 * A 1 2 - A 0 2 * A 1 1, A 0 2 * A 1 0 - A 0 0 * A 1 2, A 0 0 * A 1 1 - A 0 1 * A 1 0]

/-- The determinant of a block of three, along its first row. -/
def determinant (A : Matrix (Fin 3) (Fin 3) K) : K :=
  A 0 0 * cofactors A 0 0 + A 0 1 * cofactors A 0 1 + A 0 2 * cofactors A 0 2

/-- `block_inverse<3>`. -/
def blockInverse3 (tol : K) (A inv : Matrix (Fin 3) (Fin 3) K) : Bool × Matrix (Fin 3) (Fin 3) K :=
  let det := determinant A
  if Negligible tol det then (false, inv)
  else (true, Matrix.of fun i j => cofactors A j i / det)

/-- `block_inverse`. -/
def blockInverse (tol : K) : (N : ℕ) → Matrix (Fin N) (Fin N) K → Matrix (Fin N) (Fin N) K →
    Bool × Matrix (Fin N) (Fin N) K
  | 2, A, inv => blockInverse2 tol A inv
  | 3, A, inv => blockInverse3 tol A inv
  | _, A, inv => matInverse tol A inv

/-- `block_apply_inverse<2>`. -/
def blockApplyInverse2 (tol : K) (M : Matrix (Fin 2) (Fin 2) K) (v out : Fin 2 → K) : Bool × (Fin 2 → K) :=
  let a := M first first
  let b := M first second
  let c := M second first
  let d := M second second
  let t := a * d
  let det := t - b * c
  if Negligible tol det then (false, out)
  else
    let inv := 1 / det
    let t0 := d * v first
    let t1 := a * v second
    (true, ![inv * (t0 + -b * v second), inv * (-c * v first + t1)])

/-- `block_apply_inverse<3>`. -/
def blockApplyInverse3 (tol : K) (M : Matrix (Fin 3) (Fin 3) K) (v out : Fin 3 → K) : Bool × (Fin 3 → K) :=
  let det := determinant M
  if Negligible tol det then (false, out)
  else
    let inv := 1 / det
    (true, fun i => inv * (cofactors M 0 i * v 0 + cofactors M 1 i * v 1 + cofactors M 2 i * v 2))

/-- `block_apply_inverse`, whose own array for the inverse starts out with anything. -/
def blockApplyInverse (tol : K) : (N : ℕ) → Matrix (Fin N) (Fin N) K → (Fin N → K) → (Fin N → K) →
    Bool × (Fin N → K)
  | 2, M, v, out => blockApplyInverse2 tol M v out
  | 3, M, v, out => blockApplyInverse3 tol M v out
  | N, M, v, out =>
    let inverse := blockInverse tol N M 0
    if inverse.1 = false then (false, out)
    else (true, fun r => (List.finRange N).foldl (fun acc c => acc + inverse.2 r c * v c) 0)

end Pops.DenseInverse
