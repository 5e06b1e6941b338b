import Mathlib.RingTheory.Coprime.Lemmas
import Pops.RationalProofs

/-!
When the rationals of `amr_clock.hpp` overflow. Every operation forms its
result in lowest terms, so it returns whenever the result has `int64` parts;
the one exception is a quotient by a negative divisor, whose sign is settled
after its numerator is.
-/
namespace Pops.Rational
open UInt128

/-- A number of `int64`, or the overflow. -/
def bounded (value : ℤ) : Checked ℤ :=
  if FitsInt64 value then .ok value else .error (.overflowError "AMR clock rational arithmetic overflow")

theorem bounded_of_fits {value : ℤ} (fits : FitsInt64 value) : bounded value = .ok value := if_pos fits

theorem bounded_of_not {value : ℤ} (exceeds : ¬ FitsInt64 value) :
    bounded value = .error (.overflowError "AMR clock rational arithmetic overflow") := if_neg exceeds

theorem signedMagnitude_eq (magnitude : ℕ) (negative : Bool) :
    signedMagnitude magnitude negative = bounded (signed negative magnitude) := by
  by_cases fits : FitsInt64 (signed negative magnitude)
  · rw [bounded_of_fits fits]
    exact signedMagnitude_ok.mpr ⟨rfl, fits⟩
  · rw [bounded_of_not fits]
    have exceeds : (magnitude : ℤ) > if negative then -int64Min else int64Max := by
      revert fits
      unfold FitsInt64 signed int64Min int64Max
      cases negative with
      | true =>
        simp only [↓reduceIte]
        omega
      | false =>
        simp only [Bool.false_eq_true, if_false]
        omega
    have thrown : throwIf ((magnitude : ℤ) > if negative then -int64Min else int64Max)
        (.overflowError "AMR clock rational arithmetic overflow") =
          .error (.overflowError "AMR clock rational arithmetic overflow") := if_pos exceeds
    simp only [signedMagnitude, thrown, error_bind]

theorem checkedMul_eq (left right : ℤ) : checkedMul left right = bounded (left * right) := by
  unfold checkedMul
  split
  · rename_i zero
    have product : left * right = 0 := mul_eq_zero.mpr zero
    rw [product]
    exact (bounded_of_fits (by decide)).symm
  · rename_i nonzero
    rw [not_or] at nonzero
    have rightSize : 0 < right.natAbs := Int.natAbs_pos.mpr nonzero.2
    have sign : signed ((left < 0 : Bool) != (right < 0 : Bool)) (left.natAbs * right.natAbs) = left * right := by
      rw [← signed_mul, signed_natAbs, signed_natAbs]
    simp only [magnitude_eq, signedMagnitude_eq, sign]
    by_cases fits : FitsInt64 (left * right)
    · have passes : ¬ left.natAbs > (if ((left < 0 : Bool) != (right < 0 : Bool)) = true then 2 ^ 63 else 2 ^ 63 - 1) /
          right.natAbs := by
        rw [gt_iff_lt, Nat.div_lt_iff_lt_mul rightSize, not_lt]
        rw [← sign] at fits
        revert fits
        unfold FitsInt64 signed int64Min int64Max
        split <;> omega
      rw [throwIf_of_not passes, ok_bind]
    · rw [bounded_of_not fits]
      unfold throwIf
      split_ifs <;> rfl

private theorem neg_mul_iff {number : ℤ} {factor : ℕ} (positive : 0 < factor) :
    number * factor < 0 ↔ number < 0 := by
  have factorPositive : (0 : ℤ) < factor := by exact_mod_cast positive
  rw [mul_neg_iff]
  constructor
  · rintro (⟨-, negative⟩ | ⟨negative, -⟩)
    · exact absurd negative factorPositive.not_gt
    · exact negative
  · exact fun negative => .inr ⟨negative, factorPositive⟩

theorem fits_of_mul {quotient : ℤ} {divisor : ℕ} (positive : 0 < divisor) (fits : FitsInt64 (quotient * divisor)) :
    FitsInt64 quotient := by
  have size : (quotient * divisor).natAbs = quotient.natAbs * divisor := by rw [Int.natAbs_mul, Int.natAbs_natCast]
  have grows : quotient.natAbs ≤ quotient.natAbs * divisor := Nat.le_mul_of_pos_right _ positive
  have sign : quotient * divisor < 0 ↔ quotient < 0 := neg_mul_iff positive
  unfold FitsInt64 int64Min int64Max at *
  omega

theorem divideExact_eq {number quotient : ℤ} {divisor : ℕ} (positive : 0 < divisor) (fits : FitsInt64 number)
    (parts : number = quotient * divisor) : divideExact number divisor = .ok quotient := by
  subst parts
  have sign : decide (quotient * divisor < 0) = decide (quotient < 0) := decide_eq_decide.mpr (neg_mul_iff positive)
  have size : (quotient * divisor).natAbs / divisor = quotient.natAbs := by
    rw [Int.natAbs_mul, Int.natAbs_natCast, Nat.mul_div_cancel _ positive]
  rw [divideExact, magnitude_eq, sign, size, signedMagnitude_eq, signed_natAbs,
    bounded_of_fits (fits_of_mul positive fits)]

/-- What an operation on rationals is for: the rational with the exact value when
there is one, and the overflow when there is none. -/
structure Exact (outcome : Checked Rational) (number : ℚ) : Prop where
  returns : ∀ result : Rational, result.value = number → outcome = .ok result
  overflows : (¬ ∃ result : Rational, result.value = number) → ∃ what, outcome = .error (.overflowError what)

theorem parts_of_value {result : Rational} {n d : ℤ} (positive : 0 < d) (reduced : n.natAbs.Coprime d.natAbs)
    (same : result.value = n / d) : result.numerator = n ∧ result.denominator = d :=
  Rat.div_int_inj result.positive positive result.reduced reduced same

/-- An operation that ends in a fraction in lowest terms is exact when it
returns it as soon as it fits and overflows otherwise. -/
theorem Exact.of_parts {outcome : Checked Rational} {n d : ℤ} (positive : 0 < d)
    (reduced : n.natAbs.Coprime d.natAbs)
    (fitting : ∀ (fits : FitsInt64 n) (bound : d ≤ int64Max), outcome = .ok ⟨n, d, fits, positive, bound, reduced⟩)
    (exceeds : ¬ (FitsInt64 n ∧ d ≤ int64Max) → ∃ what, outcome = .error (.overflowError what)) :
    Exact outcome (n / d) where
  returns result same := by
    obtain ⟨numerator, denominator⟩ := parts_of_value positive reduced same
    have fits := result.numeratorFits
    have bound := result.denominatorFits
    rw [numerator] at fits
    rw [denominator] at bound
    rw [fitting fits bound]
    exact congrArg Except.ok (value_injective same.symm)
  overflows none := exceeds fun ⟨fits, bound⟩ => none ⟨⟨n, d, fits, positive, bound, reduced⟩, rfl⟩

/-- The end of an operation. -/
def settle (n d : ℤ) : Checked Rational := do
  let numerator ← bounded n
  let denominator ← bounded d
  create numerator denominator

theorem settle_of_fits {n d : ℤ} (fits : FitsInt64 n) (denominatorFits : FitsInt64 d) : settle n d = create n d := by
  rw [settle, bounded_of_fits fits, bounded_of_fits denominatorFits, ok_bind, ok_bind]

theorem settle_overflows {n d : ℤ} (exceeds : ¬ FitsInt64 n ∨ ¬ FitsInt64 d) :
    ∃ what, settle n d = .error (.overflowError what) := by
  refine ⟨"AMR clock rational arithmetic overflow", ?_⟩
  by_cases fits : FitsInt64 n
  · rw [settle, bounded_of_fits fits, bounded_of_not (exceeds.resolve_left (not_not.mpr fits)), ok_bind, error_bind]
  · rw [settle, bounded_of_not fits, error_bind]

theorem fits_of_pos {d : ℤ} (positive : 0 < d) : FitsInt64 d ↔ d ≤ int64Max := by
  unfold FitsInt64 int64Min
  omega

theorem settle_exact {n d : ℤ} (positive : 0 < d) (reduced : n.natAbs.Coprime d.natAbs) :
    Exact (settle n d) (n / d) := by
  refine .of_parts positive reduced (fun fits bound => ?_) fun exceeds => ?_
  · rw [settle_of_fits fits ((fits_of_pos positive).mpr bound), create_of_reduced fits positive bound reduced]
  · rw [not_and_or, ← fits_of_pos positive] at exceeds
    exact settle_overflows exceeds

theorem create_negative {n d : ℤ} (negative : d < 0) (reduced : n.natAbs.Coprime d.natAbs) :
    create n d = create (-n) (-d) := by
  have turned : canonical n d = canonical (-n) (-d) := by
    have sign : (decide (n < 0) != decide (d < 0) && n.natAbs != 0) =
        (decide (-n < 0) != decide (-d < 0) && n.natAbs != 0) := by
      rw [decide_eq_true negative, decide_eq_false (by omega : ¬ -d < 0), Bool.bne_true, Bool.bne_false]
      rcases lt_trichotomy n 0 with below | rfl | above
      · rw [decide_eq_true below, decide_eq_false (by omega : ¬ -n < 0), Bool.not_true]
      · rfl
      · rw [decide_eq_false (by omega : ¬ n < 0), decide_eq_true (by omega : -n < 0), Bool.not_false]
    simp only [canonical, magnitude_eq, Int.natAbs_neg, reduced.gcd_eq_one, Nat.div_one, sign,
      throwIf_of_not negative.ne, throwIf_of_not (neg_ne_zero.mpr negative.ne)]
  unfold create
  split
  · rename_i failed
    rw [turned] at failed
    split
    · rename_i failedToo
      rw [failed] at failedToo
      cases failedToo
      rfl
    · rename_i stored
      rw [failed] at stored
      cases stored
  · rename_i stored
    rw [turned] at stored
    split
    · rename_i failed
      rw [stored] at failed
      cases failed
    · rename_i storedToo
      rw [stored] at storedToo
      cases storedToo
      rfl

theorem create_overflows {n d : ℤ} (positive : 0 < d) (reduced : n.natAbs.Coprime d.natAbs)
    (exceeds : ¬ (FitsInt64 n ∧ d ≤ int64Max)) : ∃ what, create n d = .error (.overflowError what) := by
  have size : ((d.natAbs : ℕ) : ℤ) = d := by omega
  have sign : (decide (n < 0) != decide (d < 0)) = decide (n < 0) := by
    rw [decide_eq_false positive.not_gt, Bool.bne_false]
  have failed : ∃ what, canonical n d = .error (.overflowError what) := by
    simp only [canonical, magnitude_eq, reduced.gcd_eq_one, Nat.div_one, sign, size, throwIf_of_not positive.ne',
      ok_bind, signedMagnitude_eq, signed_zero, signed_natAbs]
    by_cases bound : d ≤ int64Max
    · have unfit : ¬ FitsInt64 n := fun fits => exceeds ⟨fits, bound⟩
      rw [throwIf_of_not (not_lt.mpr bound), bounded_of_not unfit]
      exact ⟨_, rfl⟩
    · refine ⟨"AMR clock rational exceeds the exact int64 range", ?_⟩
      rw [throwIf, if_pos (not_le.mp bound)]
      rfl
  obtain ⟨what, failed⟩ := failed
  refine ⟨what, ?_⟩
  unfold create
  split
  · rename_i failedToo
    rw [failed] at failedToo
    cases failedToo
    rfl
  · rename_i stored
    rw [failed] at stored
    cases stored

/-- Over a negative denominator the numerator is checked before it is turned, so
the one numerator that only fits with the other sign is lost. -/
theorem settle_negative_iff {n d : ℤ} (negative : d < 0) (reduced : n.natAbs.Coprime d.natAbs) :
    Exact (settle n d) (n / d) ↔ ¬ (n = 2 ^ 63 ∧ -d ≤ int64Max) := by
  have positive : 0 < -d := by omega
  have turnedReduced : (-n).natAbs.Coprime (-d).natAbs := by rwa [Int.natAbs_neg, Int.natAbs_neg]
  have turned : (n / d : ℚ) = ((-n : ℤ) : ℚ) / ((-d : ℤ) : ℚ) := by
    push_cast
    rw [neg_div_neg_eq]
  constructor
  · rintro exact ⟨edge, bound⟩
    have fits : FitsInt64 (-n) := by
      rw [edge]
      decide
    have returned := exact.returns ⟨-n, -d, fits, positive, bound, turnedReduced⟩ turned.symm
    have unfit : ¬ FitsInt64 n := by
      rw [edge]
      decide
    obtain ⟨what, thrown⟩ := settle_overflows (.inl unfit)
    rw [thrown] at returned
    cases returned
  · intro inside
    rw [turned]
    refine .of_parts positive turnedReduced (fun fits bound => ?_) fun exceeds => ?_
    · have plain : FitsInt64 n ∧ FitsInt64 d := by
        have notEdge : n ≠ 2 ^ 63 := fun edge => inside ⟨edge, bound⟩
        unfold FitsInt64 int64Min int64Max at *
        omega
      rw [settle_of_fits plain.1 plain.2, create_negative negative reduced,
        create_of_reduced fits positive bound turnedReduced]
    · by_cases plain : FitsInt64 n ∧ FitsInt64 d
      · rw [settle_of_fits plain.1 plain.2, create_negative negative reduced]
        exact create_overflows positive turnedReduced exceeds
      · exact settle_overflows (not_and_or.mp plain)

theorem cancelled (number : ℤ) {other : ℕ} (positive : 0 < other) :
    ∃ (quotient : ℤ) (rest : ℕ), 0 < number.natAbs.gcd other ∧
      number = quotient * (number.natAbs.gcd other : ℕ) ∧ other = rest * number.natAbs.gcd other ∧
      quotient.natAbs.Coprime rest := by
  have common : 0 < number.natAbs.gcd other := Nat.gcd_pos_of_pos_right _ positive
  obtain ⟨quotient, parts⟩ := Int.natCast_dvd.mpr (Nat.gcd_dvd_left number.natAbs other)
  have lowest := Nat.coprime_div_gcd_div_gcd common
  have size : number.natAbs / number.natAbs.gcd other = quotient.natAbs := by
    have whole := congrArg Int.natAbs parts
    rw [Int.natAbs_mul, Int.natAbs_natCast] at whole
    exact Nat.div_eq_of_eq_mul_right common whole
  rw [size] at lowest
  exact ⟨quotient, _, common, parts.trans (mul_comm _ _), (Nat.div_mul_cancel (Nat.gcd_dvd_right _ _)).symm, lowest⟩

theorem cancelled_nat (number : ℕ) {other : ℕ} (positive : 0 < other) :
    ∃ quotient rest : ℕ, 0 < number.gcd other ∧ number = quotient * number.gcd other ∧
      other = rest * number.gcd other ∧ quotient.Coprime rest := by
  have common : 0 < number.gcd other := Nat.gcd_pos_of_pos_right _ positive
  exact ⟨_, _, common, (Nat.div_mul_cancel (Nat.gcd_dvd_left _ _)).symm,
    (Nat.div_mul_cancel (Nat.gcd_dvd_right _ _)).symm, Nat.coprime_div_gcd_div_gcd common⟩

theorem coprime_products {l r : ℤ} {p q : ℕ} (lp : l.natAbs.Coprime p) (lq : l.natAbs.Coprime q)
    (rp : r.natAbs.Coprime p) (rq : r.natAbs.Coprime q) : (l * r).natAbs.Coprime (p * q) := by
  rw [Int.natAbs_mul]
  exact .mul_left (.mul_right lp lq) (.mul_right rp rq)

theorem toNat_denominator (rational : Rational) :
    0 < rational.denominator.toNat ∧ (rational.denominator.toNat : ℤ) = rational.denominator ∧
      rational.numerator.natAbs.Coprime rational.denominator.toNat := by
  have positive := rational.positive
  have reduced := rational.reduced
  have same : rational.denominator.natAbs = rational.denominator.toNat := by omega
  rw [same] at reduced
  exact ⟨by omega, by omega, reduced⟩

theorem value_toNat (rational : Rational) : rational.value = rational.numerator / (rational.denominator.toNat : ℚ) := by
  have same : ((rational.denominator.toNat : ℤ) : ℚ) = rational.denominator :=
    congrArg _ rational.toNat_denominator.2.1
  rw [value, ← same, Int.cast_natCast]

theorem mul_exact (a b : Rational) : Exact (a.mul b) (a.value * b.value) := by
  obtain ⟨aPositive, aSame, aReduced⟩ := a.toNat_denominator
  obtain ⟨bPositive, bSame, bReduced⟩ := b.toNat_denominator
  have aFits := a.numeratorFits
  have bFits := b.numeratorFits
  rw [value_toNat, value_toNat]
  unfold mul
  simp only [magnitude_eq]
  obtain ⟨l, q, gaPositive, aParts, bDown, lq⟩ := cancelled a.numerator bPositive
  obtain ⟨r, p, gbPositive, bParts, aDown, rp⟩ := cancelled b.numerator aPositive
  generalize a.numerator.natAbs.gcd b.denominator.toNat = ga at *
  generalize b.numerator.natAbs.gcd a.denominator.toNat = gb at *
  generalize a.denominator.toNat = down at *
  generalize b.denominator.toNat = under at *
  subst aDown bDown
  have lp : l.natAbs.Coprime p := by
    rw [aParts, Int.natAbs_mul] at aReduced
    exact aReduced.coprime_mul_right.coprime_mul_right_right
  have rq : r.natAbs.Coprime q := by
    rw [bParts, Int.natAbs_mul] at bReduced
    exact bReduced.coprime_mul_right.coprime_mul_right_right
  rw [divideExact_eq gaPositive aFits aParts, divideExact_eq gbPositive bFits bParts, ok_bind, ok_bind,
    Nat.mul_div_cancel _ gbPositive, Nat.mul_div_cancel _ gaPositive, checkedMul_eq, checkedMul_eq]
  have pPositive : 0 < p := Nat.pos_of_mul_pos_right aPositive
  have qPositive : 0 < q := Nat.pos_of_mul_pos_right bPositive
  have exact : Exact (settle (l * r) ((p : ℤ) * q)) ((l * r : ℤ) / ((p : ℤ) * q : ℤ)) := by
    refine settle_exact (by positivity) ?_
    rw [Int.natAbs_mul (p : ℤ), Int.natAbs_natCast, Int.natAbs_natCast]
    exact coprime_products lp lq rp rq
  have number : (a.numerator / ((p * gb : ℕ) : ℚ) * (b.numerator / ((q * ga : ℕ) : ℚ)) : ℚ) =
      (l * r : ℤ) / ((p : ℤ) * q : ℤ) := by
    have gaNonzero : (ga : ℚ) ≠ 0 := by exact_mod_cast gaPositive.ne'
    have gbNonzero : (gb : ℚ) ≠ 0 := by exact_mod_cast gbPositive.ne'
    rw [aParts, bParts]
    push_cast
    field_simp
  rw [number]
  exact exact

/-- A quotient by a negative divisor whose numerator in lowest terms is the least `int64`. -/
def QuotientEdge (a b : Rational) : Prop :=
  b.numerator < 0 ∧
    a.numerator / (a.numerator.natAbs.gcd b.numerator.natAbs : ℕ) *
      (b.denominator / (a.denominator.toNat.gcd b.denominator.toNat : ℕ)) = 2 ^ 63 ∧
    -(a.denominator / (a.denominator.toNat.gcd b.denominator.toNat : ℕ) *
      (b.numerator / (a.numerator.natAbs.gcd b.numerator.natAbs : ℕ))) ≤ int64Max

/-- `operator/` divides the cancelled parts. -/
structure Divided (a b : Rational) where
  l : ℤ
  r : ℤ
  p : ℕ
  q : ℕ
  pPositive : 0 < p
  divisor : r < 0 ↔ b.numerator < 0
  nonzero : r ≠ 0
  reduced : (l * q).natAbs.Coprime (p * r).natAbs
  settled : a.div b = settle (l * q) (p * r)
  number : a.value / b.value = (l * q : ℤ) / (p * r : ℤ)
  edge : QuotientEdge a b ↔ r < 0 ∧ l * q = 2 ^ 63 ∧ -(p * r : ℤ) ≤ int64Max

theorem denominator_fits (rational : Rational) : FitsInt64 rational.denominator :=
  (fits_of_pos rational.positive).mpr rational.denominatorFits

theorem cancelled_pair (number other : ℤ) (nonzero : other ≠ 0) :
    ∃ quotient rest : ℤ, 0 < number.natAbs.gcd other.natAbs ∧
      number = quotient * (number.natAbs.gcd other.natAbs : ℕ) ∧ other = rest * (number.natAbs.gcd other.natAbs : ℕ) ∧
      quotient.natAbs.Coprime rest.natAbs := by
  obtain ⟨quotient, rest, common, parts, size, lowest⟩ := cancelled number (Int.natAbs_pos.mpr nonzero)
  obtain ⟨signed, signedParts⟩ := Int.natCast_dvd.mpr (Nat.gcd_dvd_right number.natAbs other.natAbs)
  refine ⟨quotient, signed, common, parts, signedParts.trans (mul_comm _ _), ?_⟩
  have same : signed.natAbs * number.natAbs.gcd other.natAbs = rest * number.natAbs.gcd other.natAbs := by
    rw [← size]
    conv_rhs => rw [signedParts]
    rw [Int.natAbs_mul, Int.natAbs_natCast, mul_comm]
  rwa [Nat.eq_of_mul_eq_mul_right common same]

theorem divided (a b : Rational) (nonzero : b.numerator ≠ 0) : Nonempty (Divided a b) := by
  obtain ⟨aPositive, aSame, aReduced⟩ := a.toNat_denominator
  obtain ⟨bPositive, bSame, bReduced⟩ := b.toNat_denominator
  obtain ⟨l, r, gnPositive, aParts, bParts, lr⟩ := cancelled_pair a.numerator b.numerator nonzero
  obtain ⟨p, q, gdPositive, aDown, bDown, pq⟩ := cancelled_nat a.denominator.toNat bPositive
  have aFits := a.numeratorFits
  have bFits := b.numeratorFits
  have aDownFits := a.denominator_fits
  have bDownFits := b.denominator_fits
  have settled : a.div b = settle (l * q) (p * r) := by
    unfold div
    simp only [magnitude_eq]
    have aDownParts : a.denominator = p * (a.denominator.toNat.gcd b.denominator.toNat : ℕ) := by
      rw [← aSame]
      exact_mod_cast aDown
    have bDownParts : b.denominator = q * (a.denominator.toNat.gcd b.denominator.toNat : ℕ) := by
      rw [← bSame]
      exact_mod_cast bDown
    rw [throwIf_of_not nonzero, divideExact_eq gnPositive aFits aParts, divideExact_eq gdPositive bDownFits bDownParts,
      divideExact_eq gdPositive aDownFits aDownParts, divideExact_eq gnPositive bFits bParts]
    simp only [ok_bind, checkedMul_eq]
    rfl
  have aQuotient : a.numerator / (a.numerator.natAbs.gcd b.numerator.natAbs : ℕ) = l :=
    Int.ediv_eq_of_eq_mul_left (by exact_mod_cast gnPositive.ne') aParts
  have bQuotient : b.numerator / (a.numerator.natAbs.gcd b.numerator.natAbs : ℕ) = r :=
    Int.ediv_eq_of_eq_mul_left (by exact_mod_cast gnPositive.ne') bParts
  have aRest : a.denominator / (a.denominator.toNat.gcd b.denominator.toNat : ℕ) = p := by
    rw [← aSame]
    exact Int.ediv_eq_of_eq_mul_left (by exact_mod_cast gdPositive.ne') (by exact_mod_cast aDown)
  have bRest : b.denominator / (a.denominator.toNat.gcd b.denominator.toNat : ℕ) = q := by
    rw [← bSame]
    exact Int.ediv_eq_of_eq_mul_left (by exact_mod_cast gdPositive.ne') (by exact_mod_cast bDown)
  have divisor : r < 0 ↔ b.numerator < 0 := by
    conv_rhs => rw [bParts]
    exact (neg_mul_iff gnPositive).symm
  have edge : QuotientEdge a b ↔ r < 0 ∧ l * q = 2 ^ 63 ∧ -(p * r : ℤ) ≤ int64Max := by
    rw [QuotientEdge, aQuotient, bQuotient, aRest, bRest, divisor]
  clear aQuotient bQuotient aRest bRest
  have rNonzero : r ≠ 0 := by
    rintro rfl
    exact nonzero (bParts.trans (zero_mul _))
  have number : a.value / b.value = (l * q : ℤ) / (p * r : ℤ) := by
    have gnNonzero : ((a.numerator.natAbs.gcd b.numerator.natAbs : ℕ) : ℚ) ≠ 0 := by exact_mod_cast gnPositive.ne'
    have gdNonzero : ((a.denominator.toNat.gcd b.denominator.toNat : ℕ) : ℚ) ≠ 0 := by exact_mod_cast gdPositive.ne'
    have aOver : (a.numerator : ℚ) = l * (a.numerator.natAbs.gcd b.numerator.natAbs : ℕ) := by exact_mod_cast aParts
    have bOver : (b.numerator : ℚ) = r * (a.numerator.natAbs.gcd b.numerator.natAbs : ℕ) := by exact_mod_cast bParts
    have aUnder : (a.denominator.toNat : ℚ) = p * (a.denominator.toNat.gcd b.denominator.toNat : ℕ) := by
      exact_mod_cast aDown
    have bUnder : (b.denominator.toNat : ℚ) = q * (a.denominator.toNat.gcd b.denominator.toNat : ℕ) := by
      exact_mod_cast bDown
    rw [value_toNat, value_toNat]
    generalize (a.denominator.toNat.gcd b.denominator.toNat : ℕ) = gd at *
    generalize (a.numerator.natAbs.gcd b.numerator.natAbs : ℕ) = gn at *
    rw [aOver, bOver, aUnder, bUnder]
    push_cast
    field_simp
  have pPositive : 0 < p := Nat.pos_of_ne_zero fun zero => by
    rw [zero, zero_mul] at aDown
    exact aPositive.ne' aDown
  have lp : l.natAbs.Coprime p := by
    rw [aParts, Int.natAbs_mul, aDown] at aReduced
    exact aReduced.coprime_mul_right.coprime_mul_right_right
  have rq : r.natAbs.Coprime q := by
    rw [bParts, Int.natAbs_mul, bDown] at bReduced
    exact bReduced.coprime_mul_right.coprime_mul_right_right
  have reduced : (l * q).natAbs.Coprime (p * r).natAbs := by
    rw [Int.natAbs_mul, Int.natAbs_mul, Int.natAbs_natCast, Int.natAbs_natCast]
    exact .mul_left (.mul_right lp lr) (.mul_right pq.symm rq.symm)
  exact ⟨⟨l, r, p, q, pPositive, divisor, rNonzero, reduced, settled, number, edge⟩⟩

theorem div_exact_iff (a b : Rational) (nonzero : b.numerator ≠ 0) :
    Exact (a.div b) (a.value / b.value) ↔ ¬ QuotientEdge a b := by
  obtain ⟨l, r, p, q, pPositive, -, rNonzero, reduced, settled, number, edge⟩ := divided a b nonzero
  have down : (0 : ℤ) < p := by exact_mod_cast pPositive
  rw [settled, number, edge]
  rcases lt_or_gt_of_ne rNonzero with negative | positive
  · rw [settle_negative_iff (mul_neg_of_pos_of_neg down negative) reduced]
    exact not_congr (iff_and_self.mpr fun _ => negative)
  · exact iff_of_true (settle_exact (mul_pos down positive) reduced) fun inside => absurd inside.1 positive.not_gt

theorem sum_coprime {n z : ℤ} {p q : ℕ} (np : n.natAbs.Coprime p) (qp : q.Coprime p) :
    (n * q + z * p).natAbs.Coprime p := by
  have apart : IsCoprime (n * q) (p : ℤ) := by
    refine .mul_left ?_ (Nat.isCoprime_iff_coprime.mpr qp)
    exact Int.isCoprime_iff_gcd_eq_one.mpr (by rwa [Int.gcd, Int.natAbs_natCast])
  have shifted := Int.isCoprime_iff_gcd_eq_one.mp (apart.add_mul_right_left z)
  rwa [Int.gcd, Int.natAbs_natCast] at shifted

/-- `operator+` and `operator-` are exact. -/
theorem addOrSubtract_exact (a b : Rational) (subtract : Bool) :
    Exact (addOrSubtract a b subtract) (a.value + if subtract then -b.value else b.value) := by
  obtain ⟨aPositive, aSame, aReduced⟩ := a.toNat_denominator
  obtain ⟨bPositive, bSame, bReduced⟩ := b.toNat_denominator
  obtain ⟨p, q, gPositive, aDown, bDown, pq⟩ := cancelled_nat a.denominator.toNat bPositive
  have aBound := a.denominatorFits
  have bBound := b.denominatorFits
  have aFits := a.numeratorFits
  have bFits := b.numeratorFits
  unfold int64Max at aBound bBound
  rw [value_toNat, value_toNat]
  unfold addOrSubtract
  have gDivides : a.denominator.toNat.gcd b.denominator.toNat ∣ a.denominator.toNat := Nat.gcd_dvd_left _ _
  have gSmall : a.denominator.toNat.gcd b.denominator.toNat ≤ 2 ^ 63 := (Nat.le_of_dvd aPositive gDivides).trans (by omega)
  generalize a.denominator.toNat.gcd b.denominator.toNat = g at *
  have pPositive : 0 < p := Nat.pos_of_ne_zero fun zero => by simp [zero] at aDown; omega
  have qPositive : 0 < q := Nat.pos_of_ne_zero fun zero => by simp [zero] at bDown; omega
  have pSmall : p < 2 ^ 63 := by
    have := Nat.le_mul_of_pos_right p gPositive
    omega
  have qSmall : q < 2 ^ 63 := by
    have := Nat.le_mul_of_pos_right q gPositive
    omega
  dsimp only
  rw [aDown, bDown, Nat.mul_div_cancel _ gPositive, Nat.mul_div_cancel _ gPositive]
  obtain ⟨words, sum⟩ := value_addProducts aFits bFits qSmall pSmall subtract
  generalize addProducts a.numerator q b.numerator p subtract = numerator at *
  rw [UInt128.remainder_eq words gPositive gSmall, ← Nat.gcd_rec, Nat.gcd_comm]
  have size : numerator.value.natAbs = numerator.magnitude.value := natAbs_signed _ _
  obtain ⟨t, h, redPositive, topParts, gParts, lowest⟩ := cancelled numerator.value gPositive
  rw [size] at redPositive topParts gParts
  have redSmall : numerator.magnitude.value.gcd g ≤ 2 ^ 63 :=
    (Nat.le_of_dvd gPositive (Nat.gcd_dvd_right _ _)).trans gSmall
  obtain ⟨quotientWords, quotient⟩ := UInt128.divide_eq words redPositive redSmall
  generalize numerator.magnitude.value.gcd g = red at *
  generalize numerator.magnitude.divide red = reduced at *
  have redNonzero : (red : ℤ) ≠ 0 := by exact_mod_cast redPositive.ne'
  have magnitude : numerator.magnitude.value = t.natAbs * red := by
    rw [← size, topParts, Int.natAbs_mul, Int.natAbs_natCast]
  rw [magnitude, Nat.mul_div_cancel _ redPositive] at quotient
  have sign : signed numerator.negative t.natAbs = t := by
    refine mul_right_cancel₀ redNonzero ?_
    calc signed numerator.negative t.natAbs * red
        = signed numerator.negative t.natAbs * signed false red := rfl
      _ = signed numerator.negative (t.natAbs * red) := by rw [signed_mul, Bool.bne_false]
      _ = t * red := by rw [← magnitude, ← topParts, Signed128.value]
  have shrunk : p * g / red = p * h := by rw [gParts, ← mul_assoc, Nat.mul_div_cancel _ redPositive]
  have hPositive : 0 < h := Nat.pos_of_ne_zero fun zero => by simp [zero] at gParts; omega
  have positive : (0 : ℤ) < (p * h : ℕ) * (q : ℕ) := by positivity
  -- the sum over the least common denominator, with the sign of the second term in its numerator
  obtain ⟨z, zSize, zSum, zValue⟩ : ∃ z : ℤ, z.natAbs = b.numerator.natAbs ∧
      (if subtract then -(b.numerator * (p : ℤ)) else b.numerator * p) = z * p ∧
      (if subtract then -(b.numerator / ((q * g : ℕ) : ℚ)) else b.numerator / ((q * g : ℕ) : ℚ)) =
        z / ((q * g : ℕ) : ℚ) := by
    cases subtract with
    | true => exact ⟨-b.numerator, Int.natAbs_neg _, (neg_mul _ _).symm, by simp only [↓reduceIte]; push_cast; ring⟩
    | false => exact ⟨b.numerator, rfl, rfl, rfl⟩
  rw [sum, zSum] at topParts
  have divides : t.natAbs ∣ (a.numerator * q + z * p).natAbs := by
    rw [topParts, Int.natAbs_mul]
    exact Dvd.intro _ rfl
  have bottomReduced : t.natAbs.Coprime ((p * h : ℕ) * (q : ℕ) : ℤ).natAbs := by
    rw [aDown] at aReduced
    rw [bDown, ← zSize] at bReduced
    have overP : (a.numerator * q + z * p).natAbs.Coprime p := sum_coprime aReduced.coprime_mul_right_right pq.symm
    have overQ : (z * p + a.numerator * q).natAbs.Coprime q := sum_coprime bReduced.coprime_mul_right_right pq
    rw [add_comm] at overQ
    rw [Int.natAbs_mul, Int.natAbs_natCast, Int.natAbs_natCast]
    exact .mul_right (.mul_right (overP.coprime_dvd_left divides) lowest) (overQ.coprime_dvd_left divides)
  have number : (a.numerator / ((p * g : ℕ) : ℚ) +
      if subtract then -(b.numerator / ((q * g : ℕ) : ℚ)) else b.numerator / ((q * g : ℕ) : ℚ)) =
        t / (((p * h : ℕ) * (q : ℕ) : ℤ) : ℚ) := by
    have whole : (a.numerator * q + z * p : ℚ) = t * red := by exact_mod_cast topParts
    have pNonzero : (p : ℚ) ≠ 0 := by exact_mod_cast pPositive.ne'
    have qNonzero : (q : ℚ) ≠ 0 := by exact_mod_cast qPositive.ne'
    have hNonzero : (h : ℚ) ≠ 0 := by exact_mod_cast hPositive.ne'
    have rNonzero : (red : ℚ) ≠ 0 := by exact_mod_cast redPositive.ne'
    rw [zValue, gParts]
    push_cast
    calc (a.numerator : ℚ) / (p * (h * red)) + z / (q * (h * red))
        = (a.numerator * q + z * p) / (p * q * h * red) := by field_simp
      _ = t / (p * h * q) := by
        rw [whole]
        field_simp
  rw [number, shrunk]
  by_cases high : reduced.high = 0
  · have low : reduced.low = t.natAbs := by
      rw [UInt128.value, high] at quotient
      omega
    have settled : Exact (settle t ((p * h : ℕ) * (q : ℕ))) _ := settle_exact positive bottomReduced
    rw [throwIf_of_not (not_not.mpr high), ok_bind, low, signedMagnitude_eq, sign, checkedMul_eq]
    exact settled
  · have wide : 2 ^ 64 ≤ t.natAbs := by
      have some : 1 ≤ reduced.high := Nat.pos_of_ne_zero high
      rw [← quotient, UInt128.value]
      omega
    refine .of_parts positive bottomReduced (fun fits _ => ?_) fun _ => ?_
    · unfold FitsInt64 int64Min int64Max at fits
      omega
    · refine ⟨"AMR clock rational arithmetic overflow", ?_⟩
      rw [throwIf, if_pos high, error_bind]

/-- The numerator of a sum over the least common denominator. -/
def sumNumerator (a b : Rational) (subtract : Bool) : Signed128 :=
  addProducts a.numerator (b.denominator.toNat / a.denominator.toNat.gcd b.denominator.toNat) b.numerator
    (a.denominator.toNat / a.denominator.toNat.gcd b.denominator.toNat) subtract

/-- No word of an operation wraps around: the two-word numerator of a sum, its
remainder and its quotient are the exact ones, and a product that passes its
guard is one of 64 bits. -/
structure Unwrapped (a b : Rational) : Prop where
  sum : ∀ subtract, (sumNumerator a b subtract).value =
    a.numerator * (b.denominator.toNat / a.denominator.toNat.gcd b.denominator.toNat : ℕ) +
      if subtract then -(b.numerator * (a.denominator.toNat / a.denominator.toNat.gcd b.denominator.toNat : ℕ))
      else b.numerator * (a.denominator.toNat / a.denominator.toNat.gcd b.denominator.toNat : ℕ)
  remainder : ∀ subtract divisor, 0 < divisor → divisor ≤ 2 ^ 63 →
    (sumNumerator a b subtract).magnitude.remainder divisor = (sumNumerator a b subtract).magnitude.value % divisor
  quotient : ∀ subtract divisor, 0 < divisor → divisor ≤ 2 ^ 63 →
    ((sumNumerator a b subtract).magnitude.divide divisor).value =
      (sumNumerator a b subtract).magnitude.value / divisor
  product : ∀ left right product, checkedMul left right = .ok product →
    magnitude left * magnitude right < 2 ^ 64 ∧ product = left * right

theorem unwrapped (a b : Rational) : Unwrapped a b := by
  have aBound := a.denominatorFits
  have bBound := b.denominatorFits
  unfold int64Max at aBound bBound
  have small (n g : ℕ) (bound : n < 2 ^ 63) : n / g < 2 ^ 63 := lt_of_le_of_lt (Nat.div_le_self n g) bound
  have added (subtract : Bool) := value_addProducts a.numeratorFits b.numeratorFits
    (small b.denominator.toNat (a.denominator.toNat.gcd b.denominator.toNat) (by omega))
    (small a.denominator.toNat (a.denominator.toNat.gcd b.denominator.toNat) (by omega)) subtract
  refine ⟨fun subtract => (added subtract).2,
    fun subtract divisor positive least => UInt128.remainder_eq (added subtract).1 positive least,
    fun subtract divisor positive least => (UInt128.divide_eq (added subtract).1 positive least).2, ?_⟩
  intro left right product ran
  have exact := checkedMul_ok ran
  have fits : FitsInt64 (left * right) := by
    by_contra unfit
    rw [checkedMul_eq, bounded_of_not unfit] at ran
    cases ran
  refine ⟨?_, exact⟩
  rw [magnitude_eq, magnitude_eq, ← Int.natAbs_mul]
  unfold FitsInt64 int64Min int64Max at fits
  omega

/-- The four operations return every exact result that is a rational, overflow
where there is none, and lose no carry on the way. -/
structure ExactArithmetic (a b : Rational) : Prop where
  add : Exact (a.add b) (a.value + b.value)
  sub : Exact (a.sub b) (a.value - b.value)
  mul : Exact (a.mul b) (a.value * b.value)
  div : b.numerator ≠ 0 → Exact (a.div b) (a.value / b.value)
  unwrapped : Unwrapped a b

/-- The arithmetic is exact except for a quotient by a negative divisor whose
numerator is the least `int64`. -/
theorem arithmetic_exact_iff (a b : Rational) : ExactArithmetic a b ↔ ¬ QuotientEdge a b := by
  constructor
  · intro exact edge
    exact (div_exact_iff a b edge.1.ne).mp (exact.div edge.1.ne) edge
  · intro inside
    have difference : a.value - b.value = a.value + if true then -b.value else b.value := sub_eq_add_neg _ _
    refine ⟨addOrSubtract_exact a b false, ?_, mul_exact a b, fun nonzero => (div_exact_iff a b nonzero).mpr inside,
      unwrapped a b⟩
    rw [difference]
    exact addOrSubtract_exact a b true

/-- `2 ^ 62` over `-1/2` is the least `int64`, which the code refuses. -/
theorem least_quotient_overflows : ∃ a b least : Rational, a.numerator = 2 ^ 62 ∧ a.denominator = 1 ∧
    b.numerator = -1 ∧ b.denominator = 2 ∧ least.numerator = int64Min ∧ least.denominator = 1 ∧
    least.value = a.value / b.value ∧
    a.div b = .error (.overflowError "AMR clock rational arithmetic overflow") ∧ ¬ ExactArithmetic a b := by
  let a : Rational := ⟨2 ^ 62, 1, by decide, by decide, by decide, by decide⟩
  let b : Rational := ⟨-1, 2, by decide, by decide, by decide, by decide⟩
  let least : Rational := ⟨int64Min, 1, by decide, by decide, by decide, by decide⟩
  have number : least.value = a.value / b.value := by
    norm_num [value, a, b, least, int64Min]
  have thrown : a.div b = .error (.overflowError "AMR clock rational arithmetic overflow") := by decide +kernel
  refine ⟨a, b, least, rfl, rfl, rfl, rfl, rfl, rfl, number, thrown, fun exact => ?_⟩
  have returned := (exact.div (by decide)).returns least number
  rw [thrown] at returned
  cases returned

end Pops.Rational
