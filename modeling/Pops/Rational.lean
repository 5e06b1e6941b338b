import Mathlib.Data.Nat.GCD.Basic
import Mathlib.Data.Nat.Bitwise
import Mathlib.Tactic.Positivity
import Pops.Box

/-!
`numerics/time/amr/levels/amr_clock.hpp`: the exact rationals of the AMR
scheduler, with canonical `int64` parts. Sums go through 128-bit products kept
as two 64-bit words, which wrap as `std::uint64_t` does.
-/
namespace Pops

/-- The range of `std::int64_t`. -/
def FitsInt64 (value : ℤ) : Prop := int64Min ≤ value ∧ value ≤ int64Max

instance (value : ℤ) : Decidable (FitsInt64 value) := inferInstanceAs (Decidable (_ ∧ _))

/-- `std::uint64_t` arithmetic. -/
def wrap64 (value : ℕ) : ℕ := value % 2 ^ 64

/-- A canonical rational: `int64` parts in lowest terms over a positive denominator. -/
structure Rational where
  numerator : ℤ
  denominator : ℤ
  numeratorFits : FitsInt64 numerator
  positive : 0 < denominator
  denominatorFits : denominator ≤ int64Max
  reduced : numerator.natAbs.Coprime denominator.natAbs
  deriving DecidableEq

namespace Rational

def magnitude (value : ℤ) : ℕ := if value < 0 then (-(value + 1)).toNat + 1 else value.toNat

theorem magnitude_eq (value : ℤ) : magnitude value = value.natAbs := by
  unfold magnitude
  split <;> omega

/-- A magnitude with its sign. -/
def signed (negative : Bool) (magnitude : ℕ) : ℤ := if negative then -(magnitude : ℤ) else magnitude

@[simp]
theorem natAbs_signed (negative : Bool) (magnitude : ℕ) : (signed negative magnitude).natAbs = magnitude := by
  cases negative <;> simp [signed]

theorem signed_natAbs (value : ℤ) : signed (value < 0) value.natAbs = value := by
  unfold signed
  rcases lt_or_ge value 0 with below | above
  · simp only [below, decide_true, if_true]
    omega
  · simp only [not_lt.mpr above, decide_false, Bool.false_eq_true, if_false]
    omega

theorem signed_mul (left right : Bool) (first second : ℕ) :
    signed left first * signed right second = signed (left != right) (first * second) := by
  cases left <;> cases right <;> simp [signed]

theorem signed_zero (negative : Bool) (magnitude : ℕ) :
    signed (negative && magnitude != 0) magnitude = signed negative magnitude := by
  rcases Nat.eq_zero_or_pos magnitude with rfl | positive
  · cases negative <;> simp [signed]
  · have nonzero : (magnitude != 0) = true := bne_iff_ne.mpr positive.ne'
    rw [nonzero, Bool.and_true]

def signedMagnitude (magnitude : ℕ) (negative : Bool) : Checked ℤ := do
  throwIf ((magnitude : ℤ) > if negative then -int64Min else int64Max)
    (.overflowError "AMR clock rational arithmetic overflow")
  return signed negative magnitude

theorem signedMagnitude_ok {magnitude : ℕ} {negative : Bool} {value : ℤ} :
    signedMagnitude magnitude negative = .ok value ↔
      value = signed negative magnitude ∧ FitsInt64 value := by
  simp only [signedMagnitude, bind_ok, throwIf_ok, unit_exists, pure_ok, not_lt, gt_iff_lt]
  unfold FitsInt64 int64Min int64Max signed
  cases negative with
  | true =>
    simp only [↓reduceIte]
    omega
  | false =>
    simp only [Bool.false_eq_true, if_false]
    omega

def divideExact (value : ℤ) (divisor : ℕ) : Checked ℤ :=
  signedMagnitude (magnitude value / divisor) (value < 0)

def checkedMul (left right : ℤ) : Checked ℤ :=
  if left = 0 ∨ right = 0 then .ok 0
  else do
    let negative : Bool := (left < 0 : Bool) != (right < 0 : Bool)
    throwIf (magnitude left > (if negative then 2 ^ 63 else 2 ^ 63 - 1) / magnitude right)
      (.overflowError "AMR clock rational arithmetic overflow")
    signedMagnitude (magnitude left * magnitude right) negative

/-- The body of the constructor, before the fields are stored. -/
def canonical (n d : ℤ) : Checked (ℤ × ℕ) := do
  throwIf (d = 0) (.invalidArgument "AMR clock rational denominator must be non-zero")
  let negative : Bool := (n < 0 : Bool) != (d < 0 : Bool)
  let g := Nat.gcd (magnitude n) (magnitude d)
  let numeratorMagnitude := magnitude n / g
  let denominatorMagnitude := magnitude d / g
  throwIf ((denominatorMagnitude : ℤ) > int64Max)
    (.overflowError "AMR clock rational exceeds the exact int64 range")
  let numerator ← signedMagnitude numeratorMagnitude (negative && numeratorMagnitude != 0)
  return (numerator, denominatorMagnitude)

theorem canonical_ok {n d numerator : ℤ} {denominator : ℕ}
    (ran : canonical n d = .ok (numerator, denominator)) :
    d ≠ 0 ∧ FitsInt64 numerator ∧ 0 < denominator ∧ (denominator : ℤ) ≤ int64Max ∧
      numerator.natAbs.Coprime denominator ∧ numerator * d = n * denominator := by
  simp only [canonical, bind_ok, throwIf_ok, unit_exists, pure_ok, Prod.mk.injEq, gt_iff_lt, not_lt,
    magnitude_eq, signedMagnitude_ok, signed_zero] at ran
  obtain ⟨nonzero, bound, stored, ⟨value, fits⟩, rfl, rfl⟩ := ran
  have size : 0 < d.natAbs := Int.natAbs_pos.mpr nonzero
  have common : 0 < n.natAbs.gcd d.natAbs := Nat.gcd_pos_of_pos_right _ size
  have bottomParts := Nat.div_mul_cancel (Nat.gcd_dvd_right n.natAbs d.natAbs)
  have topParts := Nat.div_mul_cancel (Nat.gcd_dvd_left n.natAbs d.natAbs)
  have lowest := Nat.coprime_div_gcd_div_gcd common
  generalize n.natAbs.gcd d.natAbs = g at *
  generalize n.natAbs / g = top at *
  generalize d.natAbs / g = bottom at *
  refine ⟨nonzero, fits, ?_, bound, by rwa [value, natAbs_signed], ?_⟩
  · rw [← bottomParts] at size
    exact Nat.pos_of_mul_pos_right size
  · calc stored * d = signed ((n < 0 : Bool) != (d < 0 : Bool)) top * signed (d < 0) (bottom * g) := by
          rw [value, bottomParts, signed_natAbs]
      _ = signed (n < 0) (top * g) * signed false bottom := by
          rw [signed_mul, signed_mul, Bool.bne_assoc, bne_self_eq_false, Bool.bne_false]
          congr 1
          ring
      _ = n * bottom := by rw [topParts, signed_natAbs]; rfl

/-- `Rational(n, d)`. -/
def create (n d : ℤ) : Checked Rational :=
  match ran : canonical n d with
  | .error exception => .error exception
  | .ok (numerator, denominator) => .ok
      { numerator, denominator
        numeratorFits := (canonical_ok ran).2.1
        positive := Int.natCast_pos.mpr (canonical_ok ran).2.2.1
        denominatorFits := (canonical_ok ran).2.2.2.1
        reduced := (canonical_ok ran).2.2.2.2.1 }

/-- `Rational()`. -/
def zero : Rational := ⟨0, 1, by decide, by decide, by decide, by decide⟩

def Integral (rational : Rational) : Prop := rational.denominator = 1

instance (rational : Rational) : Decidable rational.Integral := inferInstanceAs (Decidable (_ = _))

/-- The loop of `positive_less_`. The denominators of the left side decrease, so
the first of them is fuel enough. -/
def positiveLess : ℕ → ℕ → ℕ → ℕ → ℕ → Bool → Bool
  | 0, _, _, _, _, _ => false
  | fuel + 1, an, ad, bn, bd, reversed =>
    if an / ad ≠ bn / bd then
      if reversed then an / ad > bn / bd else an / ad < bn / bd
    else if an % ad = 0 ∨ bn % bd = 0 then
      if an % ad = bn % bd then false
      else if reversed then bn % bd = 0 else an % ad = 0
    else positiveLess fuel ad (an % ad) bd (bn % bd) (!reversed)

/-- `operator<`. -/
def less (a b : Rational) : Bool :=
  if a.numerator < 0 ∧ b.numerator ≥ 0 then true
  else if a.numerator ≥ 0 ∧ b.numerator < 0 then false
  else if a.numerator < 0 then
    positiveLess b.denominator.toNat (magnitude b.numerator) b.denominator.toNat
      (magnitude a.numerator) a.denominator.toNat false
  else
    positiveLess a.denominator.toNat (magnitude a.numerator) a.denominator.toNat
      (magnitude b.numerator) b.denominator.toNat false

/-- `operator*`. -/
def mul (a b : Rational) : Checked Rational := do
  let ga := Nat.gcd (magnitude a.numerator) b.denominator.toNat
  let gb := Nat.gcd (magnitude b.numerator) a.denominator.toNat
  let left ← divideExact a.numerator ga
  let right ← divideExact b.numerator gb
  let numerator ← checkedMul left right
  let denominator ← checkedMul ↑(a.denominator.toNat / gb) ↑(b.denominator.toNat / ga)
  create numerator denominator

/-- `operator/`. -/
def div (a b : Rational) : Checked Rational := do
  throwIf (b.numerator = 0) (.invalidArgument "AMR clock rational division by zero")
  let gn := Nat.gcd (magnitude a.numerator) (magnitude b.numerator)
  let gd := Nat.gcd a.denominator.toNat b.denominator.toNat
  let top ← divideExact a.numerator gn
  let across ← divideExact b.denominator gd
  let numerator ← checkedMul top across
  let bottom ← divideExact a.denominator gd
  let under ← divideExact b.numerator gn
  let denominator ← checkedMul bottom under
  create numerator denominator

structure UInt128 where
  high : ℕ := 0
  low : ℕ := 0

structure Signed128 where
  magnitude : UInt128
  negative : Bool := false

/-- The low half of a word. -/
def lowHalf (word : ℕ) : ℕ := word % 2 ^ 32

def multiplyWide (a b : ℕ) : UInt128 :=
  let a0 := lowHalf a
  let a1 := a >>> 32
  let b0 := lowHalf b
  let b1 := b >>> 32
  let p00 := wrap64 (a0 * b0)
  let p01 := wrap64 (a0 * b1)
  let p10 := wrap64 (a1 * b0)
  let p11 := wrap64 (a1 * b1)
  let middle := wrap64 ((p00 >>> 32) + lowHalf p01 + lowHalf p10)
  ⟨wrap64 (p11 + (p01 >>> 32) + (p10 >>> 32) + (middle >>> 32)), wrap64 (middle <<< 32) ||| lowHalf p00⟩

namespace UInt128

def less (a b : UInt128) : Bool := if a.high ≠ b.high then a.high < b.high else a.low < b.low

def add (a b : UInt128) : UInt128 :=
  let low := wrap64 (a.low + b.low)
  ⟨wrap64 (a.high + b.high + if low < a.low then 1 else 0), low⟩

/-- `subtract_`: unsigned differences wrap around. -/
def subtract (a b : UInt128) : UInt128 :=
  ⟨wrap64 (a.high + 2 * 2 ^ 64 - b.high - if a.low < b.low then 1 else 0),
    wrap64 (a.low + 2 ^ 64 - b.low)⟩

def bit (value : UInt128) (index : ℕ) : Bool :=
  if index < 64 then value.low.testBit index else value.high.testBit (index - 64)

def setBit (value : UInt128) (index : ℕ) : UInt128 :=
  if index < 64 then { value with low := value.low ||| 1 <<< index }
  else { value with high := value.high ||| 1 <<< (index - 64) }

/-- One step of long division: the next bit comes down. -/
def bringDown (value : UInt128) (index remainder : ℕ) : ℕ :=
  wrap64 (remainder * 2 + if value.bit index then 1 else 0)

/-- The loop of `remainder_` over the bits below an index. -/
def remainderFrom (value : UInt128) (divisor : ℕ) : ℕ → ℕ → ℕ
  | 0, remainder => remainder
  | index + 1, remainder =>
    let remainder := value.bringDown index remainder
    remainderFrom value divisor index (if remainder ≥ divisor then remainder - divisor else remainder)

def remainder (value : UInt128) (divisor : ℕ) : ℕ := value.remainderFrom divisor 128 0

/-- The loop of `divide_` over the bits below an index. -/
def divideFrom (value : UInt128) (divisor : ℕ) : ℕ → ℕ → UInt128 → UInt128
  | 0, _, quotient => quotient
  | index + 1, remainder, quotient =>
    let remainder := value.bringDown index remainder
    if remainder < divisor then divideFrom value divisor index remainder quotient
    else divideFrom value divisor index (remainder - divisor) (quotient.setBit index)

def divide (value : UInt128) (divisor : ℕ) : UInt128 := value.divideFrom divisor 128 0 {}

end UInt128

def addProducts (a : ℤ) (aFactor : ℕ) (b : ℤ) (bFactor : ℕ) (subtractB : Bool) : Signed128 :=
  let left := multiplyWide (magnitude a) aFactor
  let right := multiplyWide (magnitude b) bFactor
  let leftNegative : Bool := a < 0
  let rightNegative : Bool := (b < 0 : Bool) != subtractB
  if leftNegative = rightNegative then ⟨left.add right, leftNegative⟩
  else if left.less right then ⟨right.subtract left, rightNegative⟩
  else
    let difference := left.subtract right
    ⟨difference, (difference.high != 0 || difference.low != 0) && leftNegative⟩

/-- `add_`. -/
def addOrSubtract (a b : Rational) (subtract : Bool) : Checked Rational := do
  let common := Nat.gcd a.denominator.toNat b.denominator.toNat
  let numerator := addProducts a.numerator (b.denominator.toNat / common) b.numerator
    (a.denominator.toNat / common) subtract
  let reduction := Nat.gcd (numerator.magnitude.remainder common) common
  let reduced := numerator.magnitude.divide reduction
  throwIf (reduced.high ≠ 0) (.overflowError "AMR clock rational arithmetic overflow")
  let top ← signedMagnitude reduced.low numerator.negative
  let bottom ← checkedMul ↑(a.denominator.toNat / reduction) ↑(b.denominator.toNat / common)
  create top bottom

/-- `operator+`. -/
def add (a b : Rational) : Checked Rational := addOrSubtract a b false

/-- `operator-`. -/
def sub (a b : Rational) : Checked Rational := addOrSubtract a b true

end Rational

end Pops
