import Mathlib.Data.Rat.Floor
import Pops.CheckpointWire
import Pops.MetricReflux

/-!
IEEE binary64 as its bits, to run the model on. Arithmetic on finite numbers is
exact arithmetic rounded to the nearest, ties to even; an operand that is not
finite gives a NaN, which is all that this development needs of it.
-/
namespace Pops

private theorem word_positive : 0 < 18446744073709551616 := by decide

/-- The bits of a `double`. -/
structure Binary64 where
  bits : Fin 18446744073709551616
  deriving DecidableEq

namespace Binary64

/-- The number with these bits, of the bits that there are. -/
def ofNat (bits : ℕ) : Binary64 := ⟨⟨bits % 18446744073709551616, Nat.mod_lt bits word_positive⟩⟩

def negative (number : Binary64) : Bool := number.bits.val / 2 ^ 63 = 1
def exponent (number : Binary64) : ℕ := number.bits.val / 2 ^ 52 % 2 ^ 11
def fraction (number : Binary64) : ℕ := number.bits.val % 2 ^ 52

def isFinite (number : Binary64) : Bool := number.exponent ≠ 2047
def isNaN (number : Binary64) : Bool := number.exponent = 2047 ∧ number.fraction ≠ 0
def nan : Binary64 := ofNat (2047 * 2 ^ 52 + 1)

/-- The bits without the sign. -/
def magnitude (number : Binary64) : ℕ := number.bits.val % 2 ^ 63

/-- A number that the order of the bits puts in its place. -/
def rank (number : Binary64) : ℤ := if number.negative then -number.magnitude else number.magnitude

/-- The value of a finite number. -/
def value (number : Binary64) : ℚ :=
  let size : ℚ :=
    if number.exponent = 0 then number.fraction * (2 : ℚ) ^ (-1074 : ℤ)
    else (2 ^ 52 + number.fraction) * (2 : ℚ) ^ ((number.exponent : ℤ) - 1075)
  if number.negative then -size else size

/-- The integer nearest to a number, ties to even. -/
def nearest (size : ℚ) : ℕ :=
  let low := size.num / size.den
  let rest := size - low
  (if rest < 1 / 2 ∨ rest = 1 / 2 ∧ low % 2 = 0 then low else low + 1).toNat

/-- The exponent of the greatest power of two up to a positive number. -/
def scale (size : ℚ) : ℤ :=
  let guess := (Nat.log2 size.num.natAbs : ℤ) - Nat.log2 size.den
  if size < (2 : ℚ) ^ guess then guess - 1 else guess

/-- The number nearest to a rational, as its bits. -/
def rounded (exact : ℚ) : Binary64 :=
  let sign := if exact < 0 then 2 ^ 63 else 0
  let size := |exact|
  if size = 0 then ofNat sign
  else
    let power := max (scale size) (-1022)
    let bits := ((power + 1022) * 2 ^ 52).toNat + nearest (size * (2 : ℚ) ^ (52 - power))
    ofNat (sign + min bits (2047 * 2 ^ 52))

/-- Exact arithmetic on finite numbers, rounded. -/
def compute (exact : ℚ → ℚ → ℚ) (left right : Binary64) : Binary64 :=
  if left.isFinite && right.isFinite then rounded (exact left.value right.value) else nan

instance : Double Binary64 where
  ofInt64 value := rounded value
  add := compute (· + ·)
  sub := compute (· - ·)
  mul := compute (· * ·)
  div left right := if right.magnitude = 0 then nan else compute (· / ·) left right
  less left right := !left.isNaN && !right.isNaN && left.rank < right.rank
  isFinite := isFinite

instance : MetricDouble Binary64 where
  equal left right := !left.isNaN && !right.isNaN && left.rank = right.rank
  lessEqual left right := !left.isNaN && !right.isNaN && left.rank ≤ right.rank
  abs number := ofNat number.magnitude
  max left right := if Double.less left right then right else left
  epsilon := ofNat (971 * 2 ^ 52)

instance : BitsDouble Binary64 where
  toBits number := number.bits.val
  ofBits := ofNat
  toBits_lt number := number.bits.isLt
  ofBits_toBits number := by
    rcases number with ⟨bits⟩
    rw [ofNat, Binary64.mk.injEq, Fin.mk.injEq]
    exact Nat.mod_eq_of_lt bits.isLt
  toBits_ofBits bits small := Nat.mod_eq_of_lt small

end Binary64

end Pops
