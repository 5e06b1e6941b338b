import Mathlib

/-!
Moments of a measure on the plane. Shifting the origin mixes a moment with the lower
ones by binomial coefficients, in either direction.
-/
namespace Pops.PlaneMoments
open MeasureTheory Finset

theorem shifted_pow (x y a b : ℝ) (p q : ℕ) :
    (x + a) ^ p * (y + b) ^ q = ∑ i ∈ range (p + 1), ∑ j ∈ range (q + 1),
      ((p.choose i * q.choose j : ℕ) : ℝ) * a ^ (p - i) * b ^ (q - j) * (x ^ i * y ^ j) := by
  rw [add_pow, add_pow, Finset.sum_mul_sum]
  apply Finset.sum_congr rfl
  intro i _
  apply Finset.sum_congr rfl
  intro j _
  push_cast
  ring

section
variable {Ω : Type*} [MeasurableSpace Ω] {μ : Measure Ω} {f g : Ω → ℝ} {p q : ℕ}

/-- The mixed powers up to a pair of exponents are integrable. -/
def Mixed (μ : Measure Ω) (f g : Ω → ℝ) (p q : ℕ) : Prop :=
  ∀ i ≤ p, ∀ j ≤ q, Integrable (fun z => f z ^ i * g z ^ j) μ

theorem Mixed.summand (mixed : Mixed μ f g p q) (c : ℕ → ℕ → ℝ) {i : ℕ} (below : i ∈ range (p + 1)) :
    Integrable (fun z => ∑ j ∈ range (q + 1), c i j * (f z ^ i * g z ^ j)) μ := by
  apply integrable_finsetSum
  intro j listed
  apply Integrable.const_mul
  exact mixed i (Nat.lt_succ_iff.mp (mem_range.mp below)) j (Nat.lt_succ_iff.mp (mem_range.mp listed))

theorem Mixed.shift (mixed : Mixed μ f g p q) (a b : ℝ) :
    Mixed μ (fun z => f z + a) (fun z => g z + b) p q := by
  intro i below j left
  simp only [shifted_pow]
  apply integrable_finsetSum
  intro k listed
  have lower : Mixed μ f g i j := fun r small s little => mixed r (small.trans below) s (little.trans left)
  exact lower.summand (fun k l => ((i.choose k * j.choose l : ℕ) : ℝ) * a ^ (i - k) * b ^ (j - l)) listed

theorem Mixed.integral_shift (mixed : Mixed μ f g p q) (a b : ℝ) :
    ∫ z, (f z + a) ^ p * (g z + b) ^ q ∂μ = ∑ i ∈ range (p + 1), ∑ j ∈ range (q + 1),
      ((p.choose i * q.choose j : ℕ) : ℝ) * a ^ (p - i) * b ^ (q - j) * ∫ z, f z ^ i * g z ^ j ∂μ := by
  simp only [shifted_pow]
  rw [integral_finsetSum _ fun i below =>
    mixed.summand (fun k l => ((p.choose k * q.choose l : ℕ) : ℝ) * a ^ (p - k) * b ^ (q - l)) below]
  apply Finset.sum_congr rfl
  intro i below
  rw [integral_finsetSum]
  · apply Finset.sum_congr rfl
    intro j _
    rw [integral_const_mul]
  · intro j left
    apply Integrable.const_mul
    exact mixed i (Nat.lt_succ_iff.mp (mem_range.mp below)) j (Nat.lt_succ_iff.mp (mem_range.mp left))

end

section
variable (μ : Measure (ℝ × ℝ)) (p q : ℕ)

/-- The moments of total order at most `order` exist. -/
def HasMoments (order : ℕ) : Prop :=
  ∀ i j, i + j ≤ order → Integrable (fun z : ℝ × ℝ => z.1 ^ i * z.2 ^ j) μ

noncomputable def rawMoment : ℝ := ∫ z, z.1 ^ p * z.2 ^ q ∂μ

noncomputable def meanX : ℝ := rawMoment μ 1 0 / rawMoment μ 0 0

noncomputable def meanY : ℝ := rawMoment μ 0 1 / rawMoment μ 0 0

/-- The moment about the mean, per unit density. -/
noncomputable def centralMoment : ℝ :=
  (∫ z, (z.1 - meanX μ) ^ p * (z.2 - meanY μ) ^ q ∂μ) / rawMoment μ 0 0

/-- The central moment in units of the two standard deviations. -/
noncomputable def standardizedMoment : ℝ :=
  centralMoment μ p q / (Real.sqrt (centralMoment μ 2 0) ^ p * Real.sqrt (centralMoment μ 0 2) ^ q)

end

section
variable {μ : Measure (ℝ × ℝ)} {p q order : ℕ}

theorem HasMoments.mixed (has : HasMoments μ order) (within : p + q ≤ order) :
    Mixed μ (fun z => z.1) (fun z => z.2) p q :=
  fun i below j left => has i j (by omega)

theorem centralMoment_eq (has : HasMoments μ order) (within : p + q ≤ order) :
    centralMoment μ p q = ∑ i ∈ range (p + 1), ∑ j ∈ range (q + 1),
      ((p.choose i * q.choose j : ℕ) : ℝ) * (-meanX μ) ^ (p - i) * (-meanY μ) ^ (q - j) *
        (rawMoment μ i j / rawMoment μ 0 0) := by
  simp only [centralMoment, sub_eq_add_neg]
  rw [(has.mixed within).integral_shift, Finset.sum_div]
  apply Finset.sum_congr rfl
  intro i _
  rw [Finset.sum_div]
  apply Finset.sum_congr rfl
  intro j _
  rw [mul_div_assoc]
  rfl

theorem rawMoment_eq (has : HasMoments μ order) (within : p + q ≤ order) (dense : rawMoment μ 0 0 ≠ 0) :
    rawMoment μ p q = rawMoment μ 0 0 * ∑ i ∈ range (p + 1), ∑ j ∈ range (q + 1),
      ((p.choose i * q.choose j : ℕ) : ℝ) * meanX μ ^ (p - i) * meanY μ ^ (q - j) *
        centralMoment μ i j := by
  have centred := (has.mixed within).shift (-meanX μ) (-meanY μ)
  have expanded := centred.integral_shift (meanX μ) (meanY μ)
  simp only [neg_add_cancel_right] at expanded
  rw [rawMoment, expanded, Finset.mul_sum]
  apply Finset.sum_congr rfl
  intro i _
  rw [Finset.mul_sum]
  apply Finset.sum_congr rfl
  intro j _
  simp only [centralMoment, sub_eq_add_neg]
  field_simp

theorem centralMoment_zero (dense : rawMoment μ 0 0 ≠ 0) : centralMoment μ 0 0 = 1 := by
  simpa [centralMoment, rawMoment] using div_self dense

theorem centralMoment_first (has : HasMoments μ order) (positive : 0 < order) (dense : rawMoment μ 0 0 ≠ 0) :
    centralMoment μ 1 0 = 0 ∧ centralMoment μ 0 1 = 0 := by
  constructor
  · rw [centralMoment_eq has (p := 1) (q := 0) (by omega)]
    simp [Finset.sum_range_succ, meanX, dense]
  · rw [centralMoment_eq has (p := 0) (q := 1) (by omega)]
    simp [Finset.sum_range_succ, meanY, dense]

end

end Pops.PlaneMoments
