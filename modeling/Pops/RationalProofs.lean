import Mathlib.Tactic.FieldSimp
import Mathlib.Tactic.LinearCombination
import Pops.Rational

/-!
The scheduler's rationals compute exactly: an operation that returns gives the
rational number it stands for, in lowest terms, and the comparison decides the
order. Two words are read as one number, and each loop over their bits is long
division.
-/
namespace Pops


namespace Rational.UInt128

/-- The number two words stand for. -/
def value (words : UInt128) : ℕ := words.high * 2 ^ 64 + words.low

/-- Both words are words. -/
def Words (words : UInt128) : Prop := words.high < 2 ^ 64 ∧ words.low < 2 ^ 64

theorem value_lt {words : UInt128} (inRange : words.Words) : words.value < 2 ^ 128 := by
  obtain ⟨high, low⟩ := inRange
  unfold value
  omega

theorem less_iff {left right : UInt128} (leftWords : left.Words) (rightWords : right.Words) :
    left.less right = true ↔ left.value < right.value := by
  obtain ⟨-, leftLow⟩ := leftWords
  obtain ⟨-, rightLow⟩ := rightWords
  unfold less value
  split <;> simp only [decide_eq_true_eq] <;> omega

theorem value_add {left right : UInt128} (leftWords : left.Words) (rightWords : right.Words)
    (room : left.value + right.value < 2 ^ 128) :
    (left.add right).Words ∧ (left.add right).value = left.value + right.value := by
  obtain ⟨leftHigh, leftLow⟩ := leftWords
  obtain ⟨rightHigh, rightLow⟩ := rightWords
  unfold value at room
  simp only [add, Words, value]
  by_cases carry : wrap64 (left.low + right.low) < left.low
  · rw [if_pos carry]
    unfold wrap64 at *
    omega
  · rw [if_neg carry]
    unfold wrap64 at *
    omega

theorem value_subtract {left right : UInt128} (leftWords : left.Words) (rightWords : right.Words)
    (ordered : right.value ≤ left.value) :
    (left.subtract right).Words ∧ (left.subtract right).value = left.value - right.value := by
  obtain ⟨leftHigh, leftLow⟩ := leftWords
  obtain ⟨rightHigh, rightLow⟩ := rightWords
  unfold value at ordered
  simp only [subtract, Words, value, wrap64]
  by_cases borrow : left.low < right.low
  · rw [if_pos borrow]
    omega
  · rw [if_neg borrow]
    omega

private theorem mod_succ (n index : ℕ) :
    n % 2 ^ (index + 1) = n % 2 ^ index + 2 ^ index * (n.testBit index).toNat := by
  rw [Nat.pow_succ, Nat.mod_mul, Nat.toNat_testBit]

theorem bit_eq {words : UInt128} (inRange : words.Words) (index : ℕ) :
    words.bit index = words.value.testBit index := by
  obtain ⟨-, low⟩ := inRange
  rw [value, mul_comm, Nat.testBit_two_pow_mul_add _ low, bit]

theorem value_setBit {words : UInt128} (inRange : words.Words) {index : ℕ} (below : index < 128)
    (clear : words.value % 2 ^ (index + 1) = 0) :
    (words.setBit index).Words ∧ (words.setBit index).value = words.value + 2 ^ index := by
  have adds {n place : ℕ} (zero : n % 2 ^ (place + 1) = 0) : n ||| 1 <<< place = n + 2 ^ place := by
    have small : 2 ^ place < 2 ^ (place + 1) := Nat.pow_lt_pow_right (by norm_num) (by omega)
    rw [Nat.one_shiftLeft, ← Nat.div_add_mod n (2 ^ (place + 1)), zero, add_zero,
      Nat.two_pow_add_eq_or_of_lt small]
  have fits {n place : ℕ} (word : n < 2 ^ 64) (inWord : place < 64) : n ||| 1 <<< place < 2 ^ 64 := by
    refine Nat.or_lt_two_pow word ?_
    rw [Nat.one_shiftLeft]
    exact Nat.pow_lt_pow_right (by norm_num) inWord
  obtain ⟨high, low⟩ := inRange
  unfold setBit
  split
  · rename_i inLow
    have divides : 2 ^ (index + 1) ∣ words.high * 2 ^ 64 :=
      Dvd.dvd.mul_left (Nat.pow_dvd_pow 2 (by omega)) _
    have lowClear : words.low % 2 ^ (index + 1) = 0 := by
      rwa [value, Nat.add_mod, Nat.mod_eq_zero_of_dvd divides, zero_add, Nat.mod_mod] at clear
    refine ⟨⟨high, fits low inLow⟩, ?_⟩
    simp only [value, adds lowClear]
    omega
  · rename_i inHigh
    obtain ⟨place, rfl⟩ : ∃ place, index = 64 + place := ⟨index - 64, by omega⟩
    rw [Nat.add_sub_cancel_left]
    rw [value, add_assoc, Nat.pow_add, mul_comm, Nat.mod_mul] at clear
    have parts : (2 ^ 64 * words.high + words.low) % 2 ^ 64 = words.low := by
      rw [Nat.mul_add_mod, Nat.mod_eq_of_lt low]
    have quotientParts : (2 ^ 64 * words.high + words.low) / 2 ^ 64 = words.high := by
      rw [Nat.mul_add_div (by norm_num), Nat.div_eq_of_lt low, add_zero]
    rw [parts, quotientParts] at clear
    have highClear : words.high % 2 ^ (place + 1) = 0 := by
      rcases Nat.add_eq_zero_iff.mp clear with ⟨-, zero⟩
      exact (Nat.mul_eq_zero.mp zero).resolve_left (by norm_num)
    refine ⟨⟨fits high (by omega), low⟩, ?_⟩
    simp only [value, adds highClear]
    rw [Nat.pow_add]
    ring

theorem bringDown_eq {words : UInt128} (inRange : words.Words) (index : ℕ) {remainder divisor : ℕ}
    (small : divisor ≤ 2 ^ 63) (bound : remainder < divisor) :
    words.bringDown index remainder = remainder * 2 + (words.value.testBit index).toNat := by
  have bit : (words.value.testBit index).toNat ≤ 1 := Bool.toNat_le _
  rw [bringDown, bit_eq inRange, wrap64, Nat.mod_eq_of_lt] <;>
    cases words.value.testBit index <;> simp at * <;> omega

private theorem rest_succ (words : UInt128) (index remainder : ℕ) :
    remainder * 2 ^ (index + 1) + words.value % 2 ^ (index + 1) =
      (remainder * 2 + (words.value.testBit index).toNat) * 2 ^ index + words.value % 2 ^ index := by
  rw [mod_succ, Nat.pow_succ]
  ring

theorem remainderFrom_eq {words : UInt128} (inRange : words.Words) {divisor : ℕ} (small : divisor ≤ 2 ^ 63)
    {count remainder : ℕ} (within : count ≤ 128) (bound : remainder < divisor) :
    words.remainderFrom divisor count remainder =
      (remainder * 2 ^ count + words.value % 2 ^ count) % divisor := by
  induction count generalizing remainder with
  | zero => simp [remainderFrom, Nat.mod_one, Nat.mod_eq_of_lt bound]
  | succ index ih =>
    have nextBound : remainder * 2 + (words.value.testBit index).toNat < 2 * divisor := by
      have bit : (words.value.testBit index).toNat ≤ 1 := Bool.toNat_le _
      omega
    rw [remainderFrom, bringDown_eq inRange index small bound, rest_succ]
    generalize remainder * 2 + (words.value.testBit index).toNat = next at *
    split
    · rename_i above
      rw [ih (by omega) (by omega)]
      conv_rhs => rw [← Nat.sub_add_cancel above, add_mul, add_right_comm,
        Nat.add_mul_mod_self_left]
    · rename_i below
      exact ih (by omega) (by omega)

theorem divideFrom_eq {words : UInt128} (inRange : words.Words) {divisor : ℕ} (small : divisor ≤ 2 ^ 63)
    {count remainder : ℕ} {quotient : UInt128} (within : count ≤ 128) (bound : remainder < divisor)
    (quotientWords : quotient.Words) (clear : quotient.value % 2 ^ count = 0) :
    (words.divideFrom divisor count remainder quotient).Words ∧
      (words.divideFrom divisor count remainder quotient).value =
        quotient.value + (remainder * 2 ^ count + words.value % 2 ^ count) / divisor := by
  induction count generalizing remainder quotient with
  | zero => simp [divideFrom, Nat.mod_one, Nat.div_eq_of_lt bound, quotientWords]
  | succ index ih =>
    have nextBound : remainder * 2 + (words.value.testBit index).toNat < 2 * divisor := by
      have bit : (words.value.testBit index).toNat ≤ 1 := Bool.toNat_le _
      omega
    have finer : quotient.value % 2 ^ index = 0 :=
      Nat.mod_eq_zero_of_dvd ((Nat.pow_dvd_pow 2 (by omega)).trans (Nat.dvd_of_mod_eq_zero clear))
    rw [divideFrom, bringDown_eq inRange index small bound, rest_succ]
    generalize remainder * 2 + (words.value.testBit index).toNat = next at *
    split
    · rename_i below
      exact ih (by omega) below quotientWords finer
    · rename_i above
      obtain ⟨setWords, setValue⟩ := value_setBit quotientWords (by omega) clear
      have setClear : (quotient.setBit index).value % 2 ^ index = 0 := by
        rw [setValue, Nat.add_mod_right, finer]
      have left : next - divisor < divisor := by omega
      obtain ⟨resultWords, result⟩ := ih (by omega) left setWords setClear
      refine ⟨resultWords, ?_⟩
      rw [result, setValue, add_assoc]
      congr 1
      have positive : 0 < divisor := by omega
      conv_rhs => rw [← Nat.sub_add_cancel (not_lt.mp above), add_mul, add_right_comm,
        Nat.add_mul_div_left _ _ positive]
      exact add_comm _ _

variable {words : UInt128} {divisor : ℕ}

theorem remainder_eq (inRange : words.Words) (positive : 0 < divisor) (small : divisor ≤ 2 ^ 63) :
    words.remainder divisor = words.value % divisor := by
  rw [remainder, remainderFrom_eq inRange small le_rfl positive, zero_mul, zero_add,
    Nat.mod_eq_of_lt (value_lt inRange)]

theorem divide_eq (inRange : words.Words) (positive : 0 < divisor) (small : divisor ≤ 2 ^ 63) :
    (words.divide divisor).Words ∧ (words.divide divisor).value = words.value / divisor := by
  obtain ⟨resultWords, result⟩ := divideFrom_eq inRange small le_rfl positive
    (show Words {} by simp [Words]) (show value {} % 2 ^ 128 = 0 by simp [value])
  refine ⟨resultWords, ?_⟩
  rw [divide, result, zero_mul, zero_add, Nat.mod_eq_of_lt (value_lt inRange)]
  simp [value]

end Rational.UInt128

namespace Rational
open UInt128

theorem value_multiplyWide {a b : ℕ} (aWord : a < 2 ^ 64) (bWord : b < 2 ^ 64) :
    (multiplyWide a b).Words ∧ (multiplyWide a b).value = a * b := by
  have aParts : a = a / 2 ^ 32 * 2 ^ 32 + a % 2 ^ 32 := by omega
  have bParts : b = b / 2 ^ 32 * 2 ^ 32 + b % 2 ^ 32 := by omega
  have a0 : a % 2 ^ 32 ≤ 2 ^ 32 - 1 := by omega
  have b0 : b % 2 ^ 32 ≤ 2 ^ 32 - 1 := by omega
  have a1 : a / 2 ^ 32 ≤ 2 ^ 32 - 1 := by omega
  have b1 : b / 2 ^ 32 ≤ 2 ^ 32 - 1 := by omega
  have p00 := Nat.mul_le_mul a0 b0
  have p01 := Nat.mul_le_mul a0 b1
  have p10 := Nat.mul_le_mul a1 b0
  have p11 := Nat.mul_le_mul a1 b1
  have product : a * b = a / 2 ^ 32 * (b / 2 ^ 32) * 2 ^ 64 +
      (a % 2 ^ 32 * (b / 2 ^ 32) + a / 2 ^ 32 * (b % 2 ^ 32)) * 2 ^ 32 + a % 2 ^ 32 * (b % 2 ^ 32) := by
    calc a * b = (a / 2 ^ 32 * 2 ^ 32 + a % 2 ^ 32) * (b / 2 ^ 32 * 2 ^ 32 + b % 2 ^ 32) := by
          rw [← aParts, ← bParts]
      _ = _ := by ring
  have bound : a * b < 2 ^ 128 := by
    calc a * b ≤ (2 ^ 64 - 1) * (2 ^ 64 - 1) := Nat.mul_le_mul (by omega) (by omega)
      _ < 2 ^ 128 := by norm_num
  simp only [multiplyWide, lowHalf, Nat.shiftRight_eq_div_pow, wrap64]
  generalize a % 2 ^ 32 * (b % 2 ^ 32) = q00 at *
  generalize a % 2 ^ 32 * (b / 2 ^ 32) = q01 at *
  generalize a / 2 ^ 32 * (b % 2 ^ 32) = q10 at *
  generalize a / 2 ^ 32 * (b / 2 ^ 32) = q11 at *
  have word (n : ℕ) (small : n ≤ (2 ^ 32 - 1) * (2 ^ 32 - 1)) : n % 2 ^ 64 = n :=
    Nat.mod_eq_of_lt (by omega)
  rw [word q00 p00, word q01 p01, word q10 p10, word q11 p11]
  have middleWord : (q00 / 2 ^ 32 + q01 % 2 ^ 32 + q10 % 2 ^ 32) % 2 ^ 64 =
      q00 / 2 ^ 32 + q01 % 2 ^ 32 + q10 % 2 ^ 32 := Nat.mod_eq_of_lt (by omega)
  rw [middleWord]
  generalize middle : q00 / 2 ^ 32 + q01 % 2 ^ 32 + q10 % 2 ^ 32 = m
  have shifted : (m <<< 32) % 2 ^ 64 = (m % 2 ^ 32) <<< 32 := by
    rw [Nat.shiftLeft_eq, Nat.shiftLeft_eq]
    omega
  rw [shifted, ← Nat.shiftLeft_add_eq_or_of_lt (Nat.mod_lt _ (by norm_num)), Nat.shiftLeft_eq]
  simp only [Words, value]
  omega

/-- The number a signed pair of words stands for. -/
def Signed128.value (number : Signed128) : ℤ := signed number.negative number.magnitude.value

private theorem signed_add_of_eq (negative : Bool) (first second : ℕ) :
    signed negative (first + second) = signed negative first + signed negative second := by
  cases negative with
  | true =>
    simp only [signed, ↓reduceIte, Nat.cast_add]
    ring
  | false => simp [signed]

private theorem signed_sub_of_ne {negative other : Bool} (apart : negative ≠ other) {small large : ℕ}
    (ordered : small ≤ large) :
    signed other (large - small) = signed negative small + signed other large := by
  cases negative <;> cases other <;> simp [signed, ordered] at * <;> ring

theorem value_addProducts {a b : ℤ} {aFactor bFactor : ℕ} (aFits : FitsInt64 a) (bFits : FitsInt64 b)
    (aWord : aFactor < 2 ^ 63) (bWord : bFactor < 2 ^ 63) (subtractB : Bool) :
    (addProducts a aFactor b bFactor subtractB).magnitude.Words ∧
      (addProducts a aFactor b bFactor subtractB).value =
        a * aFactor + if subtractB then -(b * bFactor) else b * bFactor := by
  have aSize : a.natAbs ≤ 2 ^ 63 := by
    unfold FitsInt64 int64Min int64Max at aFits
    omega
  have bSize : b.natAbs ≤ 2 ^ 63 := by
    unfold FitsInt64 int64Min int64Max at bFits
    omega
  obtain ⟨leftWords, left⟩ := value_multiplyWide (show a.natAbs < 2 ^ 64 by omega)
    (show aFactor < 2 ^ 64 by omega)
  obtain ⟨rightWords, right⟩ := value_multiplyWide (show b.natAbs < 2 ^ 64 by omega)
    (show bFactor < 2 ^ 64 by omega)
  have room : (multiplyWide a.natAbs aFactor).value + (multiplyWide b.natAbs bFactor).value < 2 ^ 128 := by
    have first : a.natAbs * aFactor ≤ 2 ^ 63 * 2 ^ 63 := Nat.mul_le_mul aSize aWord.le
    have second : b.natAbs * bFactor ≤ 2 ^ 63 * 2 ^ 63 := Nat.mul_le_mul bSize bWord.le
    rw [left, right]
    omega
  have aValue : signed (a < 0) (multiplyWide a.natAbs aFactor).value = a * aFactor := by
    rw [left, ← Bool.bne_false (decide (a < 0)), ← signed_mul, signed_natAbs]
    rfl
  have bValue : signed ((b < 0 : Bool) != subtractB) (multiplyWide b.natAbs bFactor).value =
      if subtractB then -(b * bFactor) else b * bFactor := by
    have factor : signed subtractB bFactor = if subtractB then -(bFactor : ℤ) else bFactor := rfl
    rw [right, ← signed_mul, signed_natAbs, factor]
    cases subtractB <;> simp
  rw [← aValue, ← bValue]
  simp only [addProducts, magnitude_eq]
  split
  · rename_i sameSign
    obtain ⟨words, sum⟩ := value_add leftWords rightWords room
    refine ⟨words, ?_⟩
    rw [Signed128.value, sum, signed_add_of_eq, sameSign]
  · rename_i apart
    split
    · rename_i smaller
      have ordered := (less_iff leftWords rightWords).mp smaller
      obtain ⟨words, difference⟩ := value_subtract rightWords leftWords ordered.le
      refine ⟨words, ?_⟩
      rw [Signed128.value, difference, signed_sub_of_ne apart ordered.le]
    · rename_i notSmaller
      have ordered := not_lt.mp (mt (less_iff leftWords rightWords).mpr notSmaller)
      obtain ⟨words, difference⟩ := value_subtract leftWords rightWords ordered
      refine ⟨words, ?_⟩
      -- a zero difference carries no sign
      have nonzero : (((multiplyWide a.natAbs aFactor).subtract (multiplyWide b.natAbs bFactor)).high != 0 ||
          ((multiplyWide a.natAbs aFactor).subtract (multiplyWide b.natAbs bFactor)).low != 0) =
          (((multiplyWide a.natAbs aFactor).subtract (multiplyWide b.natAbs bFactor)).value != 0) := by
        rw [Bool.eq_iff_iff]
        simp only [UInt128.value, Bool.or_eq_true, bne_iff_ne]
        omega
      simp only [Signed128.value, nonzero, Bool.and_comm _ (decide (a < 0)), signed_zero]
      rw [difference, signed_sub_of_ne (Ne.symm apart) ordered, add_comm]

/-- The rational number. -/
def value (rational : Rational) : ℚ := rational.numerator / rational.denominator

theorem denominator_pos (rational : Rational) : (0 : ℚ) < rational.denominator := by
  exact_mod_cast rational.positive

theorem value_injective {a b : Rational} (same : a.value = b.value) : a = b := by
  have cross : a.numerator * b.denominator = b.numerator * a.denominator := by
    rw [value, value, div_eq_div_iff a.denominator_pos.ne' b.denominator_pos.ne'] at same
    exact_mod_cast same
  have aPositive := a.positive
  have bPositive := b.positive
  have crossAbs : a.numerator.natAbs * b.denominator.natAbs = b.numerator.natAbs * a.denominator.natAbs := by
    rw [← Int.natAbs_mul, ← Int.natAbs_mul, cross]
  have down : a.denominator.natAbs ∣ b.denominator.natAbs :=
    a.reduced.symm.dvd_of_dvd_mul_left (crossAbs ▸ Dvd.intro_left _ rfl)
  have up : b.denominator.natAbs ∣ a.denominator.natAbs :=
    b.reduced.symm.dvd_of_dvd_mul_left (crossAbs ▸ Dvd.intro_left _ rfl)
  have denominators : a.denominator = b.denominator := by
    have := Nat.dvd_antisymm down up
    omega
  have numerators : a.numerator = b.numerator := by
    rw [denominators] at cross
    exact mul_right_cancel₀ bPositive.ne' cross
  cases a
  cases b
  simp_all

theorem create_of_reduced {n d : ℤ} (fits : FitsInt64 n) (positive : 0 < d) (bound : d ≤ int64Max)
    (reduced : n.natAbs.Coprime d.natAbs) : create n d = .ok ⟨n, d, fits, positive, bound, reduced⟩ := by
  have sign : (decide (n < 0) != decide (d < 0)) = decide (n < 0) := by
    rw [decide_eq_false positive.not_gt, Bool.bne_false]
  have parts : canonical n d = .ok (n, d.natAbs) := by
    have size : ¬ ((d.natAbs : ℤ) > int64Max) := by omega
    have kept : signedMagnitude n.natAbs (decide (n < 0) && n.natAbs != 0) = .ok n := by
      rw [signedMagnitude_ok, signed_zero, signed_natAbs]
      exact ⟨rfl, fits⟩
    simp only [canonical, magnitude_eq, reduced.gcd_eq_one, Nat.div_one, sign, kept,
      throwIf_of_not positive.ne', throwIf_of_not size, ok_bind]
    rfl
  unfold create
  split
  · rename_i failed
    rw [parts] at failed
    cases failed
  · rename_i numerator denominator stored
    rw [parts] at stored
    cases stored
    simp only [Except.ok.injEq, Rational.mk.injEq, true_and]
    omega

theorem create_ok {n d : ℤ} {rational : Rational} (ran : create n d = .ok rational) :
    d ≠ 0 ∧ rational.value = n / d := by
  unfold create at ran
  split at ran
  · cases ran
  · rename_i numerator denominator stored
    cases ran
    obtain ⟨nonzero, -, positive, -, -, cross⟩ := canonical_ok stored
    refine ⟨nonzero, ?_⟩
    have bottom : ((denominator : ℤ) : ℚ) ≠ 0 := by exact_mod_cast positive.ne'
    have given : (d : ℚ) ≠ 0 := by exact_mod_cast nonzero
    rw [value, div_eq_div_iff bottom given]
    exact_mod_cast cross

theorem divideExact_ok {number result : ℤ} {divisor : ℕ} (divides : divisor ∣ number.natAbs)
    (ran : divideExact number divisor = .ok result) : result * divisor = number := by
  rw [divideExact, signedMagnitude_ok, magnitude_eq] at ran
  calc result * divisor = signed (number < 0) (number.natAbs / divisor) * signed false divisor := by
        rw [ran.1]
        rfl
    _ = number := by rw [signed_mul, Bool.bne_false, Nat.div_mul_cancel divides, signed_natAbs]

theorem checkedMul_ok {left right product : ℤ} (ran : checkedMul left right = .ok product) :
    product = left * right := by
  unfold checkedMul at ran
  split at ran
  · rename_i zero
    cases ran
    rcases zero with rfl | rfl <;> simp
  · simp only [bind_ok, throwIf_ok, unit_exists, signedMagnitude_ok, magnitude_eq] at ran
    obtain ⟨-, rfl, -⟩ := ran
    rw [← signed_mul, signed_natAbs, signed_natAbs]

private theorem cross_lt_of_quotient_lt {small large first second down under : ℕ} (bound : first < down)
    (positive : 0 < under) (below : small < large) :
    (down * small + first) * under < (under * large + second) * down := by
  calc (down * small + first) * under < (down * small + down) * under := by gcongr
    _ = down * (small + 1) * under := by ring
    _ ≤ down * large * under := by gcongr; exact below
    _ ≤ (under * large + second) * down := by nlinarith

private theorem cross_lt_iff_rest {quotient first second down under : ℕ} :
    (down * quotient + first) * under < (under * quotient + second) * down ↔
      first * under < second * down := by
  have left : (down * quotient + first) * under = down * quotient * under + first * under := by ring
  have right : (under * quotient + second) * down = down * quotient * under + second * down := by ring
  rw [left, right]
  exact Nat.add_lt_add_iff_left

theorem positiveLess_iff {fuel an ad bn bd : ℕ} {reversed : Bool} (aPositive : 0 < ad) (bPositive : 0 < bd)
    (enough : ad ≤ fuel) : positiveLess fuel an ad bn bd reversed = true ↔
      if reversed then bn * ad < an * bd else an * bd < bn * ad := by
  induction fuel generalizing an ad bn bd reversed with
  | zero => omega
  | succ fuel ih =>
    have aParts := Nat.div_add_mod an ad
    have bParts := Nat.div_add_mod bn bd
    have aBound := Nat.mod_lt an aPositive
    have bBound := Nat.mod_lt bn bPositive
    rw [positiveLess]
    generalize an / ad = aq at *
    generalize bn / bd = bq at *
    generalize an % ad = ar at *
    generalize bn % bd = br at *
    subst aParts bParts
    split
    · rename_i different
      have up (below : aq < bq) : (ad * aq + ar) * bd < (bd * bq + br) * ad :=
        cross_lt_of_quotient_lt aBound bPositive below
      have down (below : bq < aq) : (bd * bq + br) * ad < (ad * aq + ar) * bd :=
        cross_lt_of_quotient_lt bBound aPositive below
      rcases Nat.lt_or_gt_of_ne different with below | above
      · have decided := up below
        cases reversed <;> simp <;> omega
      · have decided := down above
        cases reversed <;> simp <;> omega
    · rename_i same
      obtain rfl : aq = bq := not_not.mp same
      rw [cross_lt_iff_rest, cross_lt_iff_rest]
      split
      · rename_i done
        rcases Nat.eq_zero_or_pos ar with rfl | aRest
        · rcases Nat.eq_zero_or_pos br with rfl | bRest
          · cases reversed <;> simp
          · have positive := Nat.mul_pos bRest aPositive
            cases reversed <;> simp [bRest.ne, bRest.ne', positive]
        · obtain rfl : br = 0 := by omega
          have positive := Nat.mul_pos aRest bPositive
          cases reversed <;> simp [aRest.ne', positive]
      · rename_i more
        rw [ih (by omega) (by omega) (by omega)]
        cases reversed <;> simp [mul_comm]

theorem less_iff {a b : Rational} : a.less b = true ↔ a.value < b.value := by
  have aPositive := a.positive
  have bPositive := b.positive
  have cross : a.value < b.value ↔ a.numerator * b.denominator < b.numerator * a.denominator := by
    rw [value, value, div_lt_div_iff₀ a.denominator_pos b.denominator_pos]
    exact_mod_cast Iff.rfl
  have aDown : (a.denominator.toNat : ℤ) = a.denominator := Int.toNat_of_nonneg aPositive.le
  have bDown : (b.denominator.toNat : ℤ) = b.denominator := Int.toNat_of_nonneg bPositive.le
  rw [cross, less]
  split
  · rename_i signs
    simp only [true_iff]
    nlinarith
  · split
    · rename_i signs
      simp only [Bool.false_eq_true, false_iff, not_lt]
      nlinarith
    · split
      · -- both numerators are negative: the magnitudes compare the other way
        have aAbs : |a.numerator| = -a.numerator := abs_of_neg (by omega)
        have bAbs : |b.numerator| = -b.numerator := abs_of_neg (by omega)
        rw [positiveLess_iff (by omega) (by omega) le_rfl, magnitude_eq, magnitude_eq]
        simp only [Bool.false_eq_true, if_false]
        zify
        rw [aAbs, bAbs, aDown, bDown]
        constructor <;> intro ordered <;> linarith
      · have aAbs : |a.numerator| = a.numerator := abs_of_nonneg (by omega)
        have bAbs : |b.numerator| = b.numerator := abs_of_nonneg (by omega)
        rw [positiveLess_iff (by omega) (by omega) le_rfl, magnitude_eq, magnitude_eq]
        simp only [Bool.false_eq_true, if_false]
        zify
        rw [aAbs, bAbs, aDown, bDown]

private theorem denominator_parts (rational : Rational) {divisor : ℕ}
    (divides : divisor ∣ rational.denominator.toNat) :
    ((rational.denominator.toNat / divisor : ℕ) : ℤ) * divisor = rational.denominator := by
  have parts := Nat.div_mul_cancel divides
  have positive := rational.positive
  have whole : ((rational.denominator.toNat / divisor * divisor : ℕ) : ℤ) = rational.denominator := by
    rw [parts]
    omega
  rwa [Nat.cast_mul] at whole

private theorem toNat_denominator_pos (rational : Rational) : 0 < rational.denominator.toNat := by
  have := rational.positive
  omega

theorem mul_ok {a b result : Rational} (ran : mul a b = .ok result) :
    result.value = a.value * b.value := by
  simp only [mul, bind_ok, magnitude_eq] at ran
  obtain ⟨left, leftRan, right, rightRan, top, topRan, bottom, bottomRan, created⟩ := ran
  have leftParts := divideExact_ok (Nat.gcd_dvd_left _ _) leftRan
  have rightParts := divideExact_ok (Nat.gcd_dvd_left _ _) rightRan
  have aParts := a.denominator_parts (Nat.gcd_dvd_right b.numerator.natAbs _)
  have bParts := b.denominator_parts (Nat.gcd_dvd_right a.numerator.natAbs _)
  have gaPositive : 0 < a.numerator.natAbs.gcd b.denominator.toNat :=
    Nat.gcd_pos_of_pos_right _ b.toNat_denominator_pos
  have gbPositive : 0 < b.numerator.natAbs.gcd a.denominator.toNat :=
    Nat.gcd_pos_of_pos_right _ a.toNat_denominator_pos
  obtain rfl := checkedMul_ok topRan
  obtain rfl := checkedMul_ok bottomRan
  have exact := (create_ok created).2
  generalize a.numerator.natAbs.gcd b.denominator.toNat = ga at *
  generalize b.numerator.natAbs.gcd a.denominator.toNat = gb at *
  generalize ((a.denominator.toNat / gb : ℕ) : ℤ) = aShrunk at *
  generalize ((b.denominator.toNat / ga : ℕ) : ℤ) = bShrunk at *
  rw [exact, value, value, ← leftParts, ← rightParts, ← aParts, ← bParts]
  have gaNonzero : (ga : ℚ) ≠ 0 := by exact_mod_cast gaPositive.ne'
  have gbNonzero : (gb : ℚ) ≠ 0 := by exact_mod_cast gbPositive.ne'
  push_cast
  field_simp

theorem div_ok {a b result : Rational} (ran : div a b = .ok result) :
    result.value = a.value / b.value := by
  simp only [div, bind_ok, throwIf_ok, unit_exists, magnitude_eq] at ran
  obtain ⟨nonzero, top, topRan, across, acrossRan, numerator, numeratorRan, bottom, bottomRan, under,
    underRan, denominator, denominatorRan, created⟩ := ran
  have toNat (rational : Rational) : rational.denominator.toNat = rational.denominator.natAbs := by
    have := rational.positive
    omega
  rw [toNat a, toNat b] at *
  have topParts := divideExact_ok (Nat.gcd_dvd_left _ _) topRan
  have acrossParts := divideExact_ok (Nat.gcd_dvd_right _ _) acrossRan
  have bottomParts := divideExact_ok (Nat.gcd_dvd_left _ _) bottomRan
  have underParts := divideExact_ok (Nat.gcd_dvd_right _ _) underRan
  have gnPositive : 0 < a.numerator.natAbs.gcd b.numerator.natAbs :=
    Nat.gcd_pos_of_pos_right _ (Int.natAbs_pos.mpr nonzero)
  have gdPositive : 0 < a.denominator.natAbs.gcd b.denominator.natAbs :=
    Nat.gcd_pos_of_pos_right _ (toNat b ▸ b.toNat_denominator_pos)
  obtain rfl := checkedMul_ok numeratorRan
  obtain rfl := checkedMul_ok denominatorRan
  have exact := (create_ok created).2
  generalize a.numerator.natAbs.gcd b.numerator.natAbs = gn at *
  generalize a.denominator.natAbs.gcd b.denominator.natAbs = gd at *
  rw [exact, value, value, ← topParts, ← acrossParts, ← bottomParts, ← underParts]
  have gnNonzero : (gn : ℚ) ≠ 0 := by exact_mod_cast gnPositive.ne'
  have gdNonzero : (gd : ℚ) ≠ 0 := by exact_mod_cast gdPositive.ne'
  push_cast
  field_simp

/-- Sums and differences are exact: the reduction divides the two-word numerator. -/
theorem addOrSubtract_ok {a b result : Rational} {subtract : Bool}
    (ran : addOrSubtract a b subtract = .ok result) :
    result.value = a.value + if subtract then -b.value else b.value := by
  simp only [addOrSubtract, bind_ok, throwIf_ok, unit_exists, not_not, ne_eq, signedMagnitude_ok] at ran
  obtain ⟨high, top, ⟨topValue, -⟩, bottom, bottomRan, created⟩ := ran
  have aPositive := a.toNat_denominator_pos
  have bPositive := b.toNat_denominator_pos
  have aBound := a.denominatorFits
  have bBound := b.denominatorFits
  unfold int64Max at aBound bBound
  have commonPositive : 0 < a.denominator.toNat.gcd b.denominator.toNat := Nat.gcd_pos_of_pos_left _ aPositive
  have commonSmall : a.denominator.toNat.gcd b.denominator.toNat ≤ 2 ^ 63 :=
    (Nat.le_of_dvd aPositive (Nat.gcd_dvd_left _ _)).trans (by omega)
  have factorSmall (n g : ℕ) (bound : n < 2 ^ 63) : n / g < 2 ^ 63 :=
    lt_of_le_of_lt (Nat.div_le_self n g) bound
  obtain ⟨words, sum⟩ := value_addProducts a.numeratorFits b.numeratorFits
    (factorSmall b.denominator.toNat (a.denominator.toNat.gcd b.denominator.toNat) (by omega))
    (factorSmall a.denominator.toNat (a.denominator.toNat.gcd b.denominator.toNat) (by omega)) subtract
  have aParts := a.denominator_parts (Nat.gcd_dvd_left a.denominator.toNat b.denominator.toNat)
  have bParts := b.denominator_parts (Nat.gcd_dvd_right a.denominator.toNat b.denominator.toNat)
  have commonDivides := Nat.gcd_dvd_left a.denominator.toNat b.denominator.toNat
  generalize a.denominator.toNat.gcd b.denominator.toNat = common at *
  generalize addProducts a.numerator (b.denominator.toNat / common) b.numerator
    (a.denominator.toNat / common) subtract = numerator at *
  rw [UInt128.remainder_eq words commonPositive commonSmall] at *
  have reductionPositive : 0 < (numerator.magnitude.value % common).gcd common :=
    Nat.gcd_pos_of_pos_right _ commonPositive
  have reductionDivides : (numerator.magnitude.value % common).gcd common ∣ common := Nat.gcd_dvd_right _ _
  have dividesMagnitude : (numerator.magnitude.value % common).gcd common ∣ numerator.magnitude.value :=
    (Nat.dvd_mod_iff reductionDivides).mp (Nat.gcd_dvd_left _ _)
  have reducedParts := a.denominator_parts (reductionDivides.trans commonDivides)
  generalize (numerator.magnitude.value % common).gcd common = reduction at *
  obtain ⟨-, quotient⟩ := UInt128.divide_eq words reductionPositive
    ((Nat.le_of_dvd commonPositive reductionDivides).trans commonSmall)
  rw [UInt128.value, high, zero_mul, zero_add] at quotient
  have topParts : top * reduction = a.numerator * ((b.denominator.toNat / common : ℕ) : ℤ) +
      if subtract then -(b.numerator * ((a.denominator.toNat / common : ℕ) : ℤ))
        else b.numerator * ((a.denominator.toNat / common : ℕ) : ℤ) := by
    rw [← sum, Signed128.value, topValue, quotient]
    calc signed numerator.negative (numerator.magnitude.value / reduction) * reduction
        = signed numerator.negative (numerator.magnitude.value / reduction) * signed false reduction := rfl
      _ = signed numerator.negative numerator.magnitude.value := by
        rw [signed_mul, Bool.bne_false, Nat.div_mul_cancel dividesMagnitude]
  obtain rfl := checkedMul_ok bottomRan
  have exact := (create_ok created).2
  have aPart : (a.denominator : ℚ) ≠ 0 := a.denominator_pos.ne'
  have bPart : (b.denominator : ℚ) ≠ 0 := b.denominator_pos.ne'
  generalize ((a.denominator.toNat / common : ℕ) : ℤ) = aFactor at *
  generalize ((b.denominator.toNat / common : ℕ) : ℤ) = bFactor at *
  generalize ((a.denominator.toNat / reduction : ℕ) : ℤ) = shrunk at *
  have commonNonzero : (common : ℚ) ≠ 0 := by exact_mod_cast commonPositive.ne'
  have reductionNonzero : (reduction : ℚ) ≠ 0 := by exact_mod_cast reductionPositive.ne'
  -- over one denominator, `shrunk * reduction * bFactor`
  have sumOver : result.value = (top * reduction : ℤ) / (a.denominator * bFactor) := by
    rw [exact, ← reducedParts]
    push_cast
    field_simp
  have bOver : b.value = (b.numerator * aFactor) / (a.denominator * bFactor) := by
    rw [value, ← bParts, ← aParts]
    rw [← aParts] at aPart
    rw [← bParts] at bPart
    push_cast at aPart bPart ⊢
    have aFactorNonzero := left_ne_zero_of_mul aPart
    have bFactorNonzero := left_ne_zero_of_mul bPart
    field_simp
  have aOver : a.value = (a.numerator * bFactor) / (a.denominator * bFactor) := by
    rw [← bParts] at bPart
    push_cast at bPart
    have bFactorNonzero := left_ne_zero_of_mul bPart
    rw [value]
    field_simp
  rw [sumOver, topParts, aOver, bOver]
  cases subtract <;> simp only [Bool.false_eq_true, if_false, if_true] <;> push_cast <;> ring

theorem add_ok {a b result : Rational} (ran : add a b = .ok result) : result.value = a.value + b.value := by
  simpa using addOrSubtract_ok ran

theorem sub_ok {a b result : Rational} (ran : sub a b = .ok result) : result.value = a.value - b.value := by
  simpa [sub_eq_add_neg] using addOrSubtract_ok ran

end Rational

end Pops
