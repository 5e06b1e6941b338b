import Mathlib.Data.Matrix.Mul
import Mathlib.Algebra.Order.Field.Basic

/-!
`numerics/linalg/dense_eig.hpp`: the spectral functions of a Roe matrix, from
matrix signs alone. The numbers are exact, and the bounds of the number type are
those the code reads. The matrix sign and the certificate of a real spectrum are
given. An output array is passed as it was and returned as it is left.
-/
namespace Pops.RoeSpectral

variable {N : ℕ} {K : Type} [Field K] [LinearOrder K] [IsStrictOrderedRing K]

/-- What the functions read of `std::numeric_limits<Real>`, with the square root of `epsilon`. -/
structure Limits (K : Type) [Field K] [LinearOrder K] where
  max : K
  epsilon : K
  denormMin : K
  boundaryStep : K
  denormMin_pos : 0 < denormMin
  denormMin_small : denormMin + denormMin ≤ max
  epsilon_pos : 0 < epsilon
  boundaryStep_nonneg : 0 ≤ boundaryStep
  boundaryStep_square : boundaryStep * boundaryStep = epsilon
  boundaryStep_small : boundaryStep + boundaryStep + boundaryStep < 1

inductive Spectrum where
  | real
  | complexPair
  | unknown
  deriving DecidableEq

variable (limits : Limits K) (matrixSignShifted : Matrix (Fin N) (Fin N) K → K → Option (Matrix (Fin N) (Fin N) K))

def half (x : K) : K := x / ((2 : ℕ) : K)

/-- A row sum of `mat_norm_inf`, which saturates. -/
def rowSum (row : Fin N → K) (columns : List (Fin N)) (r : K) : K :=
  columns.foldl (fun r j => if |row j| ≤ limits.max - r then r + |row j| else limits.max) r

/-- The loop of `mat_norm_inf` over the rows. -/
def largestRow (A : Matrix (Fin N) (Fin N) K) (rows : List (Fin N)) (m : K) : K :=
  rows.foldl (fun m i =>
    let r := rowSum limits (A i) (List.finRange N) 0
    if r > m then r else m) m

def matNormInf (A : Matrix (Fin N) (Fin N) K) : K := largestRow limits A (List.finRange N) 0

def matvec (A : Matrix (Fin N) (Fin N) K) (x : Fin N → K) : Fin N → K :=
  fun i => (List.finRange N).foldl (fun value j => value + A i j * x j) 0

/-- `safe_average`: the mean, by interpolation from the smaller magnitude when the signs agree. -/
def safeAverage (a b : K) : K :=
  if (a > 0 ∧ b > 0) ∨ (a < 0 ∧ b < 0) then
    if |a| < |b| then a + half (b - a) else b + half (a - b)
  else half (a + b)

/-- The cutoff of one attempt. A later attempt goes outward, near the largest number inward. -/
def selectedCutoff (cutoff : K) (attempt : ℕ) : K :=
  if attempt = 0 then cutoff
  else
    let relativeIncrement := cutoff * ((attempt : K) * limits.boundaryStep)
    let increment := if relativeIncrement > limits.denormMin then relativeIncrement else limits.denormMin
    if cutoff ≤ limits.max - increment then cutoff + increment else cutoff - increment

/-- The two actions at one cutoff, when both signs are defined there. -/
def signActions (A : Matrix (Fin N) (Fin N) K) (x : Fin N → K) (selected : K) :
    Option ((Fin N → K) × (Fin N → K)) :=
  match matrixSignShifted A selected with
  | none => none
  | some plus =>
    match matrixSignShifted A (-selected) with
    | none => none
    | some minus => some (matvec plus x, matvec minus x)

/-- `shifted_sign_actions`. The arrays of a failed attempt are never read. -/
def shiftedSignActions (A : Matrix (Fin N) (Fin N) K) (x : Fin N → K) (cutoff : K) :
    Option ((Fin N → K) × (Fin N → K)) :=
  (List.range 4).findSome? fun attempt =>
    signActions matrixSignShifted A x (selectedCutoff limits cutoff attempt)

/-- The cutoff below which an eigenvalue counts as zero, relative to the matrix. -/
def zeroCutoff (A : Matrix (Fin N) (Fin N) K) : K :=
  ((64 : ℕ) : K) * limits.epsilon * matNormInf limits A

def roeAbsApplyCertifiedReal (A : Matrix (Fin N) (Fin N) K) (dU out : Fin N → K) : Bool × (Fin N → K) :=
  match matrixSignShifted A 0 with
  | some S => (true, matvec A (matvec S dU))
  | none =>
    if matNormInf limits A = 0 then (true, fun _ => 0)
    else if ¬ zeroCutoff limits A > 0 then (false, out)
    else
      match shiftedSignActions limits matrixSignShifted A dU (zeroCutoff limits A) with
      | none => (false, out)
      | some (plusDu, minusDu) => (true, matvec A fun i => half (plusDu i + minusDu i))

/-- What `roe_entropy_fix_apply_certified_real` writes, from the two actions at its cutoff. -/
def entropyFixed (A : Matrix (Fin N) (Fin N) K) (delta : K) (plusDu minusDu : Fin N → K) : Fin N → K :=
  let outsideSignDu := fun i => half (plusDu i + minusDu i)
  let insideDu := fun i => half (plusDu i - minusDu i)
  let scaledAInsideDu := fun i => matvec A insideDu i / delta
  fun i =>
    matvec A outsideSignDu i +
      delta * safeAverage (matvec A scaledAInsideDu i / delta) (insideDu i)

def roeEntropyFixApplyCertifiedReal (A : Matrix (Fin N) (Fin N) K) (dU out : Fin N → K) (delta : K) :
    Bool × (Fin N → K) :=
  if ¬ delta > 0 ∨ ¬ delta ≤ limits.max then (false, out)
  else
    match shiftedSignActions limits matrixSignShifted A dU delta with
    | none => (false, out)
    | some (plusDu, minusDu) => (true, entropyFixed A delta plusDu minusDu)

variable (realSpectrum : Matrix (Fin N) (Fin N) K → Spectrum)

/-- The flux Jacobian of an outward normal. -/
def oriented (fluxJacobian : Matrix (Fin N) (Fin N) K) (outwardSign : ℤ) : Matrix (Fin N) (Fin N) K :=
  Matrix.of fun i j => (outwardSign : K) * fluxJacobian i j

def characteristicIncomingApply (fluxJacobian : Matrix (Fin N) (Fin N) K) (jump out : Fin N → K)
    (outwardSign : ℤ) : Bool × (Fin N → K) :=
  if outwardSign ≠ -1 ∧ outwardSign ≠ 1 then (false, out)
  else
    let A := oriented fluxJacobian outwardSign
    if realSpectrum A ≠ .real then (false, out)
    else if ¬ matNormInf limits A ≤ limits.max then (false, out)
    else if matNormInf limits A = 0 then (true, fun _ => 0)
    else if ¬ zeroCutoff limits A > 0 ∨ ¬ zeroCutoff limits A ≤ limits.max then (false, out)
    else
      match shiftedSignActions limits matrixSignShifted A jump (zeroCutoff limits A) with
      | none => (false, out)
      | some (plusJump, _) =>
        let candidate := fun i => safeAverage (jump i) (-plusJump i)
        if ∃ i, ¬ candidate i ≤ limits.max ∨ ¬ candidate i ≥ -limits.max then (false, out)
        else (true, candidate)

def roeAbsApply (A : Matrix (Fin N) (Fin N) K) (dU out : Fin N → K) : Bool × (Fin N → K) :=
  if realSpectrum A ≠ .real then (false, out)
  else roeAbsApplyCertifiedReal limits matrixSignShifted A dU out

def roeEntropyFixApply (A : Matrix (Fin N) (Fin N) K) (dU out : Fin N → K) (delta : K) :
    Bool × (Fin N → K) :=
  if ¬ delta > 0 ∨ ¬ delta ≤ limits.max then (false, out)
  else if realSpectrum A ≠ .real then (false, out)
  else roeEntropyFixApplyCertifiedReal limits matrixSignShifted A dU out delta

end Pops.RoeSpectral
