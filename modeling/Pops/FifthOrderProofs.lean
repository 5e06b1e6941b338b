import Pops.CellTransferProofs

/-!
Fifth-order prolongation. Along one axis the weights of a child turn the five
cell averages of a polynomial of degree at most four into the average over the
child, and over all children of a cell they average to the cell itself. Averages
of monomials and weights are products over the axes, so the tensor product
inherits both.
-/
namespace Pops.CellTransfer
open Finset Function MixedRadix
open FaceTransfer (IndexMapping radix IsChild childCell parent_and_child)

variable {K : Type} [Field K] [LinearOrder K] [IsStrictOrderedRing K] {d : ℕ}

/-! ### Averages -/

/-- The average of `x ^ degree` over an interval. -/
def monomialAverage (degree : ℕ) (lower upper : K) : K :=
  (upper ^ (degree + 1) - lower ^ (degree + 1)) / ((degree + 1 : ℕ) * (upper - lower))

/-- The average of a polynomial over an interval. -/
def intervalAverage (polynomial : Polynomial K) (lower upper : K) : K :=
  polynomial.sum fun degree coefficient => coefficient * monomialAverage degree lower upper

/-- The average of a polynomial over a box. -/
def boxAverage (polynomial : MvPolynomial (Fin d) K) (lower upper : Fin d → K) : K :=
  ∑ exponents ∈ polynomial.support,
    polynomial.coeff exponents * ∏ axis, monomialAverage (exponents axis) (lower axis) (upper axis)

/-! ### The weights of one axis -/

omit [LinearOrder K] [IsStrictOrderedRing K] in
theorem integerPower_eq (value : K) (exponent : ℕ) : integerPower value exponent = value ^ exponent := by
  induction exponent with
  | zero => simp [integerPower]
  | succ exponent ih =>
    rw [integerPower] at ih ⊢
    rw [List.range_succ, List.foldl_concat, ih, pow_succ]

/-- Where the child of a cell starts, in units of the cell. -/
def childLower (center : K) (child ratio : ℤ) : K := center + (-(1 / (2 : ℕ)) + (child : K) / (ratio : K))

/-- Where it ends. -/
def childUpper (center : K) (child ratio : ℤ) : K := center + (-(1 / (2 : ℕ)) + ((child + 1 : ℤ) : K) / (ratio : K))

theorem monomialAverage_shift (center : K) {lower upper : K} (apart : upper - lower ≠ 0) {degree : ℕ} (low : degree ≤ 4) :
    monomialAverage degree (center + lower) (center + upper) =
      ∑ part ∈ range (degree + 1), (degree.choose part * center ^ (degree - part)) * monomialAverage part lower upper := by
  have same : center + upper - (center + lower) = upper - lower := by ring
  simp only [monomialAverage, same]
  interval_cases degree <;> simp [sum_range_succ, Nat.choose] <;> field_simp <;> ring

theorem moment_inverse {degree other : ℕ} (low : degree < 5) (otherLow : other < 5) :
    ∑ stencil ∈ range 5, (inverseQuarticCellMoment degree stencil : K) *
        monomialAverage other ((stencil : K) - 2 - 1 / 2) ((stencil : K) - 2 + 1 / 2) =
      if degree = other then 1 else 0 := by
  interval_cases degree <;> interval_cases other <;>
    norm_num [sum_range_succ, inverseQuarticCellMoment, monomialAverage]

omit [LinearOrder K] [IsStrictOrderedRing K] in
theorem averagedMonomial_eq [CharZero K] {child ratio : ℤ} (nonzero : (ratio : K) ≠ 0) (degree : ℕ) :
    (averagedMonomial child ratio degree : K) =
      monomialAverage degree (childLower 0 child ratio) (childUpper 0 child ratio) := by
  have lower : (childLower 0 child ratio : K) = -(1 / (2 : ℕ)) + child * (1 / ratio) := by rw [childLower]; ring
  have upper : (childUpper 0 child ratio : K) = -(1 / (2 : ℕ)) + child * (1 / ratio) + 1 / ratio := by
    rw [childUpper]
    push_cast
    ring
  have width : (childUpper 0 child ratio - childLower 0 child ratio : K) = 1 / ratio := by rw [lower, upper]; ring
  rw [monomialAverage, width, averagedMonomial, integerPower_eq, integerPower_eq, ← upper, ← lower]
  split
  · rename_i flat
    subst flat
    rw [zero_add, pow_one, pow_one, width, Nat.cast_one, one_mul, div_self (one_div_ne_zero nonzero)]
  · have degreeNonzero : ((degree + 1 : ℕ) : K) ≠ 0 := Nat.cast_ne_zero.mpr (Nat.succ_ne_zero degree)
    field_simp

/-- Along one axis the weights reproduce the average of every monomial up to degree four. -/
theorem weights_reproduce_monomial (center : K) {child ratio : ℤ} (positive : 0 < ratio)
    (isDigit : 0 ≤ child ∧ child < ratio) {degree : ℕ} (low : degree ≤ 4) :
    ∑ stencil ∈ range 5, fifthOrderCellAverageWeight child ratio stencil *
        monomialAverage degree (center + ((stencil : K) - 2 - 1 / 2)) (center + ((stencil : K) - 2 + 1 / 2)) =
      monomialAverage degree (childLower center child ratio) (childUpper center child ratio) := by
  have nonzero : (ratio : K) ≠ 0 := by exact_mod_cast positive.ne'
  by_cases plain : ratio = 1
  · subst plain
    obtain rfl : child = 0 := by omega
    simp only [fifthOrderCellAverageWeight, if_true, sum_range_succ, range_zero, sum_empty, childLower, childUpper]
    norm_num
  · have cells (stencil : ℕ) : monomialAverage degree (center + ((stencil : K) - 2 - 1 / 2))
        (center + ((stencil : K) - 2 + 1 / 2)) = ∑ part ∈ range (degree + 1),
          (degree.choose part * center ^ (degree - part)) *
            monomialAverage part ((stencil : K) - 2 - 1 / 2) ((stencil : K) - 2 + 1 / 2) := by
      refine monomialAverage_shift center ?_ low
      norm_num
    have width : (-(1 / (2 : ℕ)) + ((child + 1 : ℤ) : K) / ratio) - (-(1 / (2 : ℕ)) + (child : K) / ratio) ≠ 0 := by
      have one : (-(1 / (2 : ℕ)) + ((child + 1 : ℤ) : K) / ratio) - (-(1 / (2 : ℕ)) + (child : K) / ratio) = 1 / ratio := by
        push_cast
        ring
      rw [one]
      exact one_div_ne_zero nonzero
    rw [childLower, childUpper, monomialAverage_shift center width low]
    simp only [cells, mul_sum]
    rw [sum_comm]
    refine sum_congr rfl fun part inside => ?_
    have partLow : part < 5 := by have := mem_range.mp inside; omega
    calc ∑ stencil ∈ range 5, fifthOrderCellAverageWeight child ratio stencil *
            ((degree.choose part * center ^ (degree - part)) *
              monomialAverage part ((stencil : K) - 2 - 1 / 2) ((stencil : K) - 2 + 1 / 2))
        = (degree.choose part * center ^ (degree - part)) * ∑ other ∈ range 5, averagedMonomial child ratio other *
            ∑ stencil ∈ range 5, (inverseQuarticCellMoment other stencil : K) *
              monomialAverage part ((stencil : K) - 2 - 1 / 2) ((stencil : K) - 2 + 1 / 2) := by
          simp only [fifthOrderCellAverageWeight, if_neg plain, mul_sum, sum_mul]
          rw [sum_comm]
          exact sum_congr rfl fun _ _ => sum_congr rfl fun _ _ => by ring
      _ = (degree.choose part * center ^ (degree - part)) * averagedMonomial child ratio part := by
          have each (other : ℕ) (member : other ∈ range 5) : averagedMonomial child ratio other *
              ∑ stencil ∈ range 5, (inverseQuarticCellMoment other stencil : K) *
                monomialAverage part ((stencil : K) - 2 - 1 / 2) ((stencil : K) - 2 + 1 / 2) =
                averagedMonomial child ratio other * if other = part then 1 else 0 := by
            rw [moment_inverse (mem_range.mp member) partLow]
          rw [sum_congr rfl each]
          simp [partLow]
      _ = _ := by
          rw [averagedMonomial_eq nonzero, childLower, childUpper, zero_add, zero_add]

theorem moment_unit {stencil : ℕ} (inside : stencil < 5) :
    ∑ degree ∈ range 5, monomialAverage degree (-(1 / 2)) (1 / 2) * (inverseQuarticCellMoment degree stencil : K) =
      if stencil = 2 then 1 else 0 := by
  interval_cases stencil <;> norm_num [sum_range_succ, inverseQuarticCellMoment, monomialAverage]

/-- Over the children of a cell the weights average to the cell itself. -/
theorem sum_weights {ratio : ℤ} (positive : 0 < ratio) {stencil : ℕ} (inside : stencil < 5) :
    ∑ child ∈ range ratio.toNat, (fifthOrderCellAverageWeight (child : ℤ) ratio stencil : K) =
      if stencil = 2 then (ratio : K) else 0 := by
  by_cases plain : ratio = 1
  · subst plain
    simp [fifthOrderCellAverageWeight]
  · have nonzero : (ratio : K) ≠ 0 := by exact_mod_cast positive.ne'
    have count : ((ratio.toNat : ℕ) : K) = ratio := by
      rw [← Int.cast_natCast, Int.toNat_of_nonneg positive.le]
    have step (child : ℕ) (degree : ℕ) : (averagedMonomial (child : ℤ) ratio degree : K) =
        ratio / (degree + 1 : ℕ) * ((-(1 / 2) + ((child + 1 : ℕ) : K) / ratio) ^ (degree + 1) -
          (-(1 / 2) + (child : K) / ratio) ^ (degree + 1)) := by
      have lower : (childLower 0 child ratio : K) = -(1 / 2) + (child : K) / ratio := by simp [childLower]
      have upper : (childUpper 0 child ratio : K) = -(1 / 2) + ((child + 1 : ℕ) : K) / ratio := by simp [childUpper]
      have width : (childUpper 0 child ratio - childLower 0 child ratio : K) = 1 / ratio := by
        rw [lower, upper]
        push_cast
        ring
      rw [averagedMonomial_eq nonzero, monomialAverage, width, lower, upper]
      field_simp
    have monomial (degree : ℕ) : ∑ child ∈ range ratio.toNat, (averagedMonomial (child : ℤ) ratio degree : K) =
        ratio * monomialAverage degree (-(1 / 2)) (1 / 2) := by
      simp only [step]
      rw [← mul_sum, sum_range_sub fun child : ℕ => (-(1 / 2) + (child : K) / ratio) ^ (degree + 1), count,
        div_self nonzero, monomialAverage]
      norm_num
      ring
    simp only [fifthOrderCellAverageWeight, if_neg plain]
    rw [sum_comm]
    simp only [← sum_mul, monomial, mul_assoc]
    rw [← mul_sum, moment_unit inside]
    split <;> simp

/-! ### The tensor product -/

variable {ratio : RefinementRatio d} {mapping : IndexMapping d} {source : CellSource K d} {parent child : Index d}
  {component : ℤ}

omit [LinearOrder K] [IsStrictOrderedRing K] in
theorem interpolateFifthOrderCell_child (coarseFits : ∀ axis, FitsInt (parent axis)) (isChild : IsChild ratio child) :
    interpolateFifthOrderCell ratio mapping source (childCell ratio mapping parent child) component =
      sumDigits (stencilRadix ratio) (fun digits =>
          stencilWeight ratio child digits * source (stencilIndex ratio parent digits) component)
        (List.finRange d) (fun _ => 0) := by
  obtain ⟨isParent, isOffset⟩ := parent_and_child ratio mapping parent child coarseFits isChild
  have loop := sum_decode (stencilRadix ratio) (List.finRange d) 1 (fun digits _ =>
    stencilWeight ratio child digits * source (stencilIndex ratio parent digits) component) (fun _ => 0)
  simp only [range_one, sum_singleton, mul_one] at loop
  simp only [interpolateFifthOrderCell, isParent, isOffset]
  exact loop

theorem axis_reproduces {axis : Fin d} (isDigit : 0 ≤ child axis ∧ child axis < ratio axis) {degree : ℕ}
    (low : degree ≤ 4) :
    ∑ digit ∈ range (stencilRadix ratio axis),
        (if ratio axis = 1 then 1 else fifthOrderCellAverageWeight (child axis) (ratio axis) digit) *
          monomialAverage degree
            (((if ratio axis = 1 then parent axis else parent axis + ((digit : ℤ) - 2) : ℤ) : K) - 1 / 2)
            (((if ratio axis = 1 then parent axis else parent axis + ((digit : ℤ) - 2) : ℤ) : K) + 1 / 2) =
      monomialAverage degree (childLower (parent axis : K) (child axis) (ratio axis))
        (childUpper (parent axis : K) (child axis) (ratio axis)) := by
  by_cases plain : ratio axis = 1
  · have first : child axis = 0 := by omega
    simp only [stencilRadix, plain, if_true, range_one, sum_singleton, one_mul, childLower, childUpper, first]
    congr 1
    · norm_num
      ring
    · norm_num
  · rw [stencilRadix, if_neg plain, ← weights_reproduce_monomial (parent axis : K) (ratio.pos axis) isDigit low]
    refine sum_congr rfl fun digit _ => ?_
    rw [if_neg plain, if_neg plain]
    push_cast
    congr 2 <;> ring

/-- From the cell averages of a polynomial of degree at most four in each
coordinate the prolongation makes its averages over the children. -/
theorem fifthOrder_reproduces {polynomial : MvPolynomial (Fin d) K} (low : ∀ axis, polynomial.degreeOf axis ≤ 4)
    (averages : ∀ index, source index component =
      boxAverage polynomial (fun axis => (index axis : K) - 1 / 2) (fun axis => (index axis : K) + 1 / 2))
    (coarseFits : ∀ axis, FitsInt (parent axis)) (isChild : IsChild ratio child) :
    interpolateFifthOrderCell ratio mapping source (childCell ratio mapping parent child) component =
      boxAverage polynomial (fun axis => childLower (parent axis : K) (child axis) (ratio axis))
        (fun axis => childUpper (parent axis : K) (child axis) (ratio axis)) := by
  have expand (digits : Fin d → ℕ) :
      stencilWeight ratio child digits * source (stencilIndex ratio parent digits) component =
        ∑ exponents ∈ polynomial.support, polynomial.coeff exponents * ((List.finRange d).map fun axis =>
          (if ratio axis = 1 then 1 else fifthOrderCellAverageWeight (child axis) (ratio axis) (digits axis)) *
            monomialAverage (exponents axis)
              (((if ratio axis = 1 then parent axis else parent axis + ((digits axis : ℤ) - 2) : ℤ) : K) - 1 / 2)
              (((if ratio axis = 1 then parent axis else parent axis + ((digits axis : ℤ) - 2) : ℤ) : K) + 1 / 2)).prod := by
    rw [averages, boxAverage, mul_sum]
    refine sum_congr rfl fun exponents _ => ?_
    rw [List.prod_map_mul, ← List.prod_ofFn, List.ofFn_eq_map, stencilWeight]
    simp only [stencilIndex]
    ring
  rw [interpolateFifthOrderCell_child coarseFits isChild]
  simp only [expand]
  rw [sumDigits_sum, boxAverage]
  refine sum_congr rfl fun exponents listed => ?_
  rw [sumDigits_mul_left, sumDigits_prod (fun axis digit =>
    (if ratio axis = 1 then 1 else fifthOrderCellAverageWeight (child axis) (ratio axis) digit) *
      monomialAverage (exponents axis)
        (((if ratio axis = 1 then parent axis else parent axis + ((digit : ℤ) - 2) : ℤ) : K) - 1 / 2)
        (((if ratio axis = 1 then parent axis else parent axis + ((digit : ℤ) - 2) : ℤ) : K) + 1 / 2))
    (List.nodup_finRange d), ← List.prod_ofFn, List.ofFn_eq_map]
  congr 2
  refine List.map_congr_left fun axis _ => ?_
  exact axis_reproduces (isChild axis) (MvPolynomial.degreeOf_le_iff.mp (low axis) exponents listed)

/-- What the weights of one axis add up to over the children. -/
def axisTotal (ratio : RefinementRatio d) (axis : Fin d) (digit : ℕ) : K :=
  if ratio axis = 1 then 1 else if digit = 2 then (ratio axis : K) else 0

theorem sum_stencilWeight {digits : Fin d → ℕ} (inside : ∀ axis, digits axis < stencilRadix ratio axis) :
    sumDigits (radix ratio) (fun offsets => stencilWeight ratio (fun axis => (offsets axis : ℤ)) digits : _ → K)
      (List.finRange d) (fun _ => 0) = ((List.finRange d).map fun axis => (axisTotal ratio axis (digits axis) : K)).prod := by
  simp only [stencilWeight]
  rw [sumDigits_prod (fun axis offset => if ratio axis = 1 then 1
    else (fifthOrderCellAverageWeight (offset : ℤ) (ratio axis) (digits axis) : K)) (List.nodup_finRange d)]
  congr 1
  refine List.map_congr_left fun axis _ => ?_
  rw [axisTotal]
  split
  · rename_i plain
    simp [radix, plain]
  · rename_i refined
    have five : digits axis < 5 := by
      have bound := inside axis
      rwa [stencilRadix, if_neg refined] at bound
    exact sum_weights (ratio.pos axis) five

/-- The children of a coarse cell average to its value. -/
theorem sum_interpolateFifthOrderCell (coarseFits : ∀ axis, FitsInt (parent axis)) :
    sumDigits (radix ratio) (fun offsets =>
        interpolateFifthOrderCell ratio mapping source (childDigits ratio mapping parent offsets) component)
      (List.finRange d) (fun _ => 0) = (ratio.childCount : K) * source parent component := by
  have loop (offsets : Fin d → ℕ) (within : ∀ axis ∈ List.finRange d, offsets axis < radix ratio axis) :
      interpolateFifthOrderCell ratio mapping source (childDigits ratio mapping parent offsets) component =
        ∑ ordinal ∈ range (volume (stencilRadix ratio) (List.finRange d)),
          stencilWeight ratio (fun axis => (offsets axis : ℤ)) (stencilDigit ratio ordinal) *
            source (stencilIndex ratio parent (stencilDigit ratio ordinal)) component := by
    obtain ⟨isParent, isOffset⟩ := parent_and_child ratio mapping parent (fun axis => (offsets axis : ℤ)) coarseFits
      (FaceTransfer.digits_isChild fun axis => within axis (List.mem_finRange axis))
    simp only [childDigits, interpolateFifthOrderCell, isParent, isOffset]
  have digitInside (ordinal : ℕ) (axis : Fin d) : stencilDigit ratio ordinal axis < stencilRadix ratio axis := by
    refine decode_lt (fun axis _ => ?_) (List.mem_finRange axis) ..
    unfold stencilRadix
    split <;> omega
  have atParent (ordinal : ℕ) : ((List.finRange d).map fun axis =>
      (axisTotal ratio axis (stencilDigit ratio ordinal axis) : K)).prod *
        source (stencilIndex ratio parent (stencilDigit ratio ordinal)) component =
      source parent component * ((List.finRange d).map fun axis =>
        (axisTotal ratio axis (stencilDigit ratio ordinal axis) : K)).prod := by
    by_cases central : ∀ axis, ratio axis ≠ 1 → stencilDigit ratio ordinal axis = 2
    · have same : stencilIndex ratio parent (stencilDigit ratio ordinal) = parent := by
        funext axis
        by_cases plain : ratio axis = 1
        · simp [stencilIndex, plain]
        · simp [stencilIndex, central axis plain]
      rw [same, mul_comm]
    · push Not at central
      obtain ⟨axis, refined, aside⟩ := central
      have zero : ((List.finRange d).map fun axis =>
          (axisTotal ratio axis (stencilDigit ratio ordinal axis) : K)).prod = 0 :=
        List.prod_eq_zero (List.mem_map.mpr ⟨axis, List.mem_finRange axis, by simp [axisTotal, refined, aside]⟩)
      rw [zero, zero_mul, mul_zero]
  have stencils := sum_decode (stencilRadix ratio) (List.finRange d) 1 (fun digits _ =>
    ((List.finRange d).map fun axis => (axisTotal ratio axis (digits axis) : K)).prod) (fun _ => 0)
  simp only [range_one, sum_singleton, mul_one] at stencils
  rw [sumDigits_congr fun offsets within _ => loop offsets within, sumDigits_sum]
  have children (ordinal : ℕ) : sumDigits (radix ratio) (fun offsets =>
        stencilWeight ratio (fun axis => (offsets axis : ℤ)) (stencilDigit ratio ordinal) *
          source (stencilIndex ratio parent (stencilDigit ratio ordinal)) component) (List.finRange d) (fun _ => 0) =
      source parent component * ((List.finRange d).map fun axis =>
        (axisTotal ratio axis (stencilDigit ratio ordinal axis) : K)).prod := by
    simp only [mul_comm _ (source (stencilIndex ratio parent (stencilDigit ratio ordinal)) component)]
    rw [sumDigits_mul_left, sum_stencilWeight (digitInside ordinal), mul_comm, atParent]
  simp only [children]
  rw [← mul_sum, mul_comm]
  congr 1
  calc _ = sumDigits (stencilRadix ratio) (fun digits =>
        ((List.finRange d).map fun axis => (axisTotal ratio axis (digits axis) : K)).prod) (List.finRange d) (fun _ => 0) :=
        stencils
    _ = ((List.finRange d).map fun axis => (ratio axis : K)).prod := by
        rw [sumDigits_prod (fun axis digit => (axisTotal ratio axis digit : K)) (List.nodup_finRange d)]
        congr 1
        refine List.map_congr_left fun axis _ => ?_
        by_cases plain : ratio axis = 1
        · simp [stencilRadix, axisTotal, plain]
        · simp [stencilRadix, axisTotal, plain]
    _ = (ratio.childCount : K) := by
        rw [← List.ofFn_eq_map, List.prod_ofFn, RefinementRatio.childCount, Int.cast_prod]

theorem weights_reproduce (center : K) {child ratio : ℤ} (positive : 0 < ratio) (isDigit : 0 ≤ child ∧ child < ratio)
    {polynomial : Polynomial K} (low : polynomial.natDegree ≤ 4) :
    ∑ stencil ∈ range 5, fifthOrderCellAverageWeight child ratio stencil *
        intervalAverage polynomial (center + ((stencil : K) - 2 - 1 / 2)) (center + ((stencil : K) - 2 + 1 / 2)) =
      intervalAverage polynomial (childLower center child ratio) (childUpper center child ratio) := by
  simp only [intervalAverage, Polynomial.sum, mul_sum]
  rw [sum_comm]
  refine sum_congr rfl fun degree listed => ?_
  have bound : degree ≤ 4 := (Polynomial.le_natDegree_of_mem_supp degree listed).trans low
  rw [← weights_reproduce_monomial center positive isDigit bound, mul_sum]
  exact sum_congr rfl fun stencil _ => by ring

/-- The weights of a child reproduce its average of every polynomial of degree at
most four, and average over the children to the unit weight on the cell. So the
tensor product makes the child averages of every polynomial of degree at most
four in each coordinate, and its children average to the coarse value. -/
theorem fifth_order_exact_conservative (ratio : RefinementRatio d) (mapping : IndexMapping d) (component : ℤ)
    (parent : Index d) (coarseFits : ∀ axis, FitsInt (parent axis)) :
    (∀ child axisRatio : ℤ, 0 < axisRatio → 0 ≤ child ∧ child < axisRatio →
      ∀ (polynomial : Polynomial K) (center : K), polynomial.natDegree ≤ 4 →
        ∑ stencil ∈ range 5, fifthOrderCellAverageWeight child axisRatio stencil *
            intervalAverage polynomial (center + ((stencil : K) - 2 - 1 / 2)) (center + ((stencil : K) - 2 + 1 / 2)) =
          intervalAverage polynomial (childLower center child axisRatio) (childUpper center child axisRatio)) ∧
    (∀ axisRatio : ℤ, 0 < axisRatio → ∀ stencil < 5,
      (∑ child ∈ range axisRatio.toNat, (fifthOrderCellAverageWeight (child : ℤ) axisRatio stencil : K)) / axisRatio =
        if stencil = 2 then 1 else 0) ∧
    (∀ (polynomial : MvPolynomial (Fin d) K) (source : CellSource K d), (∀ axis, polynomial.degreeOf axis ≤ 4) →
      (∀ index, source index component =
        boxAverage polynomial (fun axis => (index axis : K) - 1 / 2) (fun axis => (index axis : K) + 1 / 2)) →
      ∀ child, IsChild ratio child →
        interpolateFifthOrderCell ratio mapping source (childCell ratio mapping parent child) component =
          boxAverage polynomial (fun axis => childLower (parent axis : K) (child axis) (ratio axis))
            (fun axis => childUpper (parent axis : K) (child axis) (ratio axis))) ∧
    ∀ source : CellSource K d, sumDigits (radix ratio) (fun offsets =>
        interpolateFifthOrderCell ratio mapping source (childDigits ratio mapping parent offsets) component)
      (List.finRange d) (fun _ => 0) / (ratio.childCount : K) = source parent component := by
  refine ⟨fun child axisRatio positive isDigit polynomial center low => weights_reproduce center positive isDigit low,
    fun axisRatio positive stencil inside => ?_,
    fun polynomial source low averages child isChild => fifthOrder_reproduces low averages coarseFits isChild,
    fun source => ?_⟩
  · have nonzero : (axisRatio : K) ≠ 0 := by exact_mod_cast positive.ne'
    rw [sum_weights positive inside]
    split
    · exact div_self nonzero
    · exact zero_div _
  · have positive : (ratio.childCount : K) ≠ 0 :=
      Int.cast_ne_zero.mpr (Finset.prod_pos fun axis _ => ratio.pos axis).ne'
    rw [sum_interpolateFifthOrderCell coarseFits, mul_div_cancel_left₀ _ positive]

theorem fifth_order_exact_conservative_fours :
    sumDigits (radix fours) (fun offsets => interpolateFifthOrderCell fours ⟨fun _ => 0, fun _ => 0⟩
        (fun index _ => (index 1 : ℚ)) (childDigits fours ⟨fun _ => 0, fun _ => 0⟩ (fun _ => -3) offsets) 0)
      (List.finRange 2) (fun _ => 0) / (fours.childCount : ℚ) = -3 :=
  (fifth_order_exact_conservative fours ⟨fun _ => 0, fun _ => 0⟩ 0 (fun _ => -3) (by decide)).2.2.2
    fun index _ => (index 1 : ℚ)

end Pops.CellTransfer
