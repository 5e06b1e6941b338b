import Pops.CellTransfer
import Pops.FaceTransferProofs

/-!
Limited linear prolongation. The offset of a child along an axis sums to zero
over the children, so their average is the coarse value whatever the limiter
does. The limiter bounds what one axis adds; several axes together stay between
the extremes of the stencil exactly when their relative reaches add up to one.
-/
namespace Pops.CellTransfer
open Finset Function MixedRadix
open FaceTransfer (IndexMapping radix raise monotonizedCentralSlope IsChild childCell offset
  parent_and_child sum_offset)

variable {K : Type} [Field K] [LinearOrder K] [IsStrictOrderedRing K] {d : ℕ}
  {ratio : RefinementRatio d} {mapping : IndexMapping d} {source : CellSource K d} {parent child : Index d}
  {component : ℤ}

/-! ### Conservation -/

omit [LinearOrder K] [IsStrictOrderedRing K] in
theorem axis_term (slope : K) (axis : Fin d) :
    slope * ((2 * child axis + 1 - ratio axis : ℤ) : K) / ((2 * ratio axis : ℤ) : K) =
      slope * offset ratio axis (child axis) := by
  rw [offset, mul_div_assoc]

omit [IsStrictOrderedRing K] in
theorem interpolateCell_child (coarseFits : ∀ axis, FitsInt (parent axis)) (isChild : IsChild ratio child) :
    interpolateCell ratio mapping source (childCell ratio mapping parent child) component =
      source parent component + ∑ axis, if ratio axis = 1 then 0
        else limitedSlope source parent component axis * offset ratio axis (child axis) := by
  obtain ⟨isParent, isOffset⟩ := parent_and_child ratio mapping parent child coarseFits isChild
  simp only [interpolateCell, isParent, isOffset, axis_term]

/-- The children of a coarse cell, as the digits of their offsets. -/
def childDigits (ratio : RefinementRatio d) (mapping : IndexMapping d) (parent : Index d) (digits : Fin d → ℕ) :
    Index d := childCell ratio mapping parent fun axis => (digits axis : ℤ)

omit [LinearOrder K] [IsStrictOrderedRing K] in
theorem volume_radix (ratio : RefinementRatio d) :
    (volume (radix ratio) (List.finRange d) : K) = (ratio.childCount : K) := by
  have factors : (volume (radix ratio) (List.finRange d) : ℤ) = ratio.childCount := by
    rw [volume, RefinementRatio.childCount, ← List.prod_ofFn, List.ofFn_eq_map, Nat.cast_list_prod, List.map_map]
    congr 1
    exact List.map_congr_left fun axis _ => FaceTransfer.cast_radix ratio axis
  rw [← factors, Int.cast_natCast]

/-- The children of a coarse cell average to its value. -/
theorem sum_interpolateCell (coarseFits : ∀ axis, FitsInt (parent axis)) :
    sumDigits (radix ratio) (fun digits =>
        interpolateCell ratio mapping source (childDigits ratio mapping parent digits) component)
      (List.finRange d) (fun _ => 0) = (ratio.childCount : K) * source parent component := by
  calc sumDigits (radix ratio) (fun digits =>
          interpolateCell ratio mapping source (childDigits ratio mapping parent digits) component)
        (List.finRange d) (fun _ => 0)
      = sumDigits (radix ratio) (fun digits => ∑ term : Option (Fin d), match term with
          | none => source parent component
          | some axis => if ratio axis = 1 then 0
            else limitedSlope source parent component axis * offset ratio axis (digits axis))
        (List.finRange d) (fun _ => 0) := by
        refine sumDigits_congr fun digits within _ => ?_
        rw [childDigits, interpolateCell_child coarseFits
          (FaceTransfer.digits_isChild fun axis => within axis (List.mem_finRange axis)), Fintype.sum_option]
    _ = _ := by
        rw [sumDigits_sum, Fintype.sum_option, sumDigits_const, nsmul_eq_mul, volume_radix]
        simp only
        rw [add_eq_left]
        refine sum_eq_zero fun axis _ => ?_
        refine sumDigits_axis_eq_zero (fun digit => if ratio axis = 1 then 0
          else limitedSlope source parent component axis * offset ratio axis digit) (List.nodup_finRange d)
          (List.mem_finRange axis) ?_ _
        split
        · exact sum_const_zero
        · rw [← mul_sum, sum_offset, mul_zero]

/-! ### Bounds -/

/-- The limiter: no slope at an extremum, else at most twice either difference. -/
theorem monotonizedCentralSlope_cases (lower center upper : K) :
    monotonizedCentralSlope lower center upper = 0 ∨
      (0 < monotonizedCentralSlope lower center upper ∧
        monotonizedCentralSlope lower center upper ≤ 2 * (center - lower) ∧
          monotonizedCentralSlope lower center upper ≤ 2 * (upper - center)) ∨
      (monotonizedCentralSlope lower center upper < 0 ∧
        2 * (center - lower) ≤ monotonizedCentralSlope lower center upper ∧
          2 * (upper - center) ≤ monotonizedCentralSlope lower center upper) := by
  simp only [monotonizedCentralSlope]
  by_cases rising : center - lower > 0 ∧ 1 / 2 * (upper - lower) > 0 ∧ upper - center > 0
  · obtain ⟨backward, centered, forward⟩ := rising
    have first : ¬2 * (center - lower) < 0 := by linarith
    have last : ¬2 * (upper - center) < 0 := by linarith
    rw [if_neg fun flat => flat.1 ⟨backward, centered, forward⟩, if_pos ⟨backward, centered, forward⟩, if_neg first,
      if_neg (not_lt.mpr centered.le), if_neg last]
    refine .inr (.inl ?_)
    split <;> split <;> exact ⟨by linarith, by linarith, by linarith⟩
  · by_cases falling : center - lower < 0 ∧ 1 / 2 * (upper - lower) < 0 ∧ upper - center < 0
    · obtain ⟨backward, centered, forward⟩ := falling
      have first : 2 * (center - lower) < 0 := by linarith
      have last : 2 * (upper - center) < 0 := by linarith
      rw [if_neg fun flat => flat.2 ⟨backward, centered, forward⟩, if_neg rising, if_pos first, if_pos centered,
        if_pos last]
      refine .inr (.inr ?_)
      split <;> split <;> exact ⟨by linarith, by linarith, by linarith⟩
    · exact .inl (if_pos ⟨rising, falling⟩)

/-- How far the children reach along an axis, relative to half a coarse cell. -/
def reach (ratio : RefinementRatio d) (axis : Fin d) : K := 1 - 1 / (ratio axis : K)

omit [LinearOrder K] [IsStrictOrderedRing K] in
theorem reach_one {axis : Fin d} (plain : ratio axis = 1) : (reach ratio axis : K) = 0 := by simp [reach, plain]

theorem reach_nonneg (ratio : RefinementRatio d) (axis : Fin d) : (0 : K) ≤ reach ratio axis := by
  have positive : (1 : K) ≤ ratio axis := by exact_mod_cast ratio.positive axis
  have small : 1 / (ratio axis : K) ≤ 1 := (div_le_one (by linarith)).mpr positive
  unfold reach
  linarith

theorem offset_bounds {axis : Fin d} (isDigit : 0 ≤ child axis ∧ child axis < ratio axis) :
    -(reach ratio axis / 2) ≤ (offset ratio axis (child axis) : K) ∧
      (offset ratio axis (child axis) : K) ≤ reach ratio axis / 2 := by
  have positive : (0 : K) < ratio axis := by exact_mod_cast ratio.pos axis
  have low : (0 : K) ≤ child axis := by exact_mod_cast isDigit.1
  have high : (child axis : K) + 1 ≤ ratio axis := by exact_mod_cast isDigit.2
  have reached : (reach ratio axis / 2 : K) = (ratio axis - 1) / (2 * ratio axis) := by
    unfold reach
    field_simp
  rw [reached, offset, ← neg_div]
  push_cast
  exact ⟨div_le_div_of_nonneg_right (by linarith) (by linarith), div_le_div_of_nonneg_right (by linarith) (by linarith)⟩

theorem slope_bounds {axis : Fin d} {low high lower center upper : K} {isOffset : K}
    (within : -(reach ratio axis / 2) ≤ isOffset ∧ isOffset ≤ reach ratio axis / 2)
    (lowers : low ≤ lower ∧ lower ≤ high) (centers : low ≤ center ∧ center ≤ high)
    (uppers : low ≤ upper ∧ upper ≤ high) :
    -(reach ratio axis * (center - low)) ≤ monotonizedCentralSlope lower center upper * isOffset ∧
      monotonizedCentralSlope lower center upper * isOffset ≤ reach ratio axis * (high - center) := by
  have wide := reach_nonneg (K := K) ratio axis
  have below : 0 ≤ reach ratio axis * (center - low) := mul_nonneg wide (by linarith)
  have above : 0 ≤ reach ratio axis * (high - center) := mul_nonneg wide (by linarith)
  rcases monotonizedCentralSlope_cases lower center upper with flat | ⟨rising, backward, forward⟩ | ⟨falling, backward, forward⟩
  · rw [flat, zero_mul]
    exact ⟨by linarith, above⟩
  · have least : monotonizedCentralSlope lower center upper ≤ 2 * (center - low) := by linarith
    have most : monotonizedCentralSlope lower center upper ≤ 2 * (high - center) := by linarith
    constructor
    · nlinarith [mul_le_mul_of_nonneg_left within.1 rising.le, mul_le_mul_of_nonneg_left least wide]
    · nlinarith [mul_le_mul_of_nonneg_left within.2 rising.le, mul_le_mul_of_nonneg_left most wide]
  · have least : -monotonizedCentralSlope lower center upper ≤ 2 * (center - low) := by linarith
    have most : -monotonizedCentralSlope lower center upper ≤ 2 * (high - center) := by linarith
    constructor
    · nlinarith [mul_le_mul_of_nonpos_left within.2 falling.le, mul_le_mul_of_nonneg_left least wide]
    · nlinarith [mul_le_mul_of_nonpos_left within.1 falling.le, mul_le_mul_of_nonneg_left most wide]

/-- A value is between the bounds of the coarse stencil of its parent. -/
def StencilBounded (ratio : RefinementRatio d) (source : CellSource K d) (parent : Index d) (component : ℤ)
    (value : K) : Prop :=
  ∀ low high, (∀ index ∈ linearStencil ratio parent, low ≤ source index component ∧ source index component ≤ high) →
    low ≤ value ∧ value ≤ high

theorem mem_linearStencil {index : Index d} :
    index ∈ linearStencil ratio parent ↔
      index = parent ∨ ∃ axis, ratio axis ≠ 1 ∧ (index = lowered parent axis ∨ index = raise parent axis) := by
  simp only [linearStencil, List.mem_cons, List.mem_flatMap, List.mem_filter, List.mem_finRange, true_and,
    decide_eq_true_eq, List.not_mem_nil, or_false]
  constructor
  · rintro (rfl | ⟨axis, refined, below | rfl | above⟩)
    · exact .inl rfl
    · exact .inr ⟨axis, refined, .inl below⟩
    · exact .inl rfl
    · exact .inr ⟨axis, refined, .inr above⟩
  · rintro (rfl | ⟨axis, refined, below | above⟩)
    · exact .inl rfl
    · exact .inr ⟨axis, refined, .inl below⟩
    · exact .inr ⟨axis, refined, .inr (.inr above)⟩

/-- Axes that reach no further than one coarse cell together keep every child bounded. -/
theorem bounded_of_reach (small : ∑ axis, (reach ratio axis : K) ≤ 1) (coarseFits : ∀ axis, FitsInt (parent axis))
    (isChild : IsChild ratio child) :
    StencilBounded ratio source parent component
      (interpolateCell ratio mapping source (childCell ratio mapping parent child) component) := by
  intro low high bounded
  have center := bounded parent (mem_linearStencil.mpr (.inl rfl))
  have term (axis : Fin d) :
      -(reach ratio axis * (source parent component - low)) ≤ (if ratio axis = 1 then 0
          else limitedSlope source parent component axis * offset ratio axis (child axis)) ∧
        (if ratio axis = 1 then 0
          else limitedSlope source parent component axis * offset ratio axis (child axis)) ≤
            reach ratio axis * (high - source parent component) := by
    split
    · rename_i plain
      simp [reach_one plain]
    · rename_i refined
      exact slope_bounds (offset_bounds (isChild axis))
        (bounded _ (mem_linearStencil.mpr (.inr ⟨axis, refined, .inl rfl⟩))) center
        (bounded _ (mem_linearStencil.mpr (.inr ⟨axis, refined, .inr rfl⟩)))
  have below := sum_le_sum fun axis (_ : axis ∈ univ) => (term axis).1
  have above := sum_le_sum fun axis (_ : axis ∈ univ) => (term axis).2
  rw [sum_neg_distrib, ← sum_mul] at below
  rw [← sum_mul] at above
  rw [interpolateCell_child coarseFits isChild]
  constructor
  · nlinarith [mul_le_mul_of_nonneg_right small (sub_nonneg.mpr center.1)]
  · nlinarith [mul_le_mul_of_nonneg_right small (sub_nonneg.mpr center.2)]

/-- A field with one slope about a cell: the value above along every axis is the
maximum, and the value below is out of the limiter's way. -/
def steepSource (parent : Index d) : CellSource K d := fun index _ =>
  if index = parent then 0 else if ∃ axis, index = raise parent axis then 1 else -(3 : ℕ)

omit [LinearOrder K] [IsStrictOrderedRing K] in
theorem raise_ne (parent : Index d) (axis : Fin d) : raise parent axis ≠ parent := by
  intro same
  have here := congrFun same axis
  simp [raise] at here

omit [LinearOrder K] [IsStrictOrderedRing K] in
theorem lowered_ne (parent : Index d) (axis : Fin d) :
    lowered parent axis ≠ parent ∧ ∀ other, lowered parent axis ≠ raise parent other := by
  constructor
  · intro same
    have here := congrFun same axis
    simp [lowered] at here
  · intro other same
    have here := congrFun same axis
    by_cases equal : axis = other
    · subst equal
      simp only [lowered, raise, update_self] at here
      omega
    · simp [lowered, raise, equal] at here

theorem limitedSlope_steep (parent : Index d) (component : ℤ) (axis : Fin d) :
    limitedSlope (steepSource parent : CellSource K d) parent component axis = 2 := by
  have below : (steepSource parent : CellSource K d) (lowered parent axis) component = -3 := by
    rw [steepSource, if_neg (lowered_ne parent axis).1, if_neg fun ⟨other, same⟩ => (lowered_ne parent axis).2 other same]
    norm_num
  have above : (steepSource parent : CellSource K d) (raise parent axis) component = 1 := by
    rw [steepSource, if_neg (raise_ne parent axis), if_pos ⟨axis, rfl⟩]
  have here : (steepSource parent : CellSource K d) parent component = 0 := if_pos rfl
  rw [limitedSlope, below, above, here]
  norm_num [monotonizedCentralSlope]

/-- Axes that reach further together leave the bounds in the last child. -/
theorem unbounded_of_reach (large : 1 < ∑ axis, (reach ratio axis : K)) (coarseFits : ∀ axis, FitsInt (parent axis)) :
    ¬StencilBounded ratio (steepSource parent) parent component
      (interpolateCell ratio mapping (steepSource parent : CellSource K d)
        (childCell ratio mapping parent fun axis => ratio axis - 1) component) := by
  intro bounded
  have isChild : IsChild ratio fun axis => ratio axis - 1 := fun axis =>
    ⟨sub_nonneg.mpr (ratio.positive axis), sub_one_lt _⟩
  have top := (bounded (-3) 1 fun index _ => by
    simp only [steepSource]
    split
    · norm_num
    · split <;> norm_num).2
  rw [interpolateCell_child coarseFits isChild] at top
  have terms : ∑ axis, (if ratio axis = 1 then 0
      else limitedSlope (steepSource parent : CellSource K d) parent component axis *
        offset ratio axis (ratio axis - 1)) = ∑ axis, (reach ratio axis : K) := by
    refine sum_congr rfl fun axis _ => ?_
    split
    · rename_i plain
      rw [reach_one plain]
    · have positive : (ratio axis : K) ≠ 0 := by exact_mod_cast (ratio.pos axis).ne'
      rw [limitedSlope_steep, offset, reach]
      push_cast
      field_simp
      ring
  rw [terms, show (steepSource parent : CellSource K d) parent component = 0 from if_pos rfl, zero_add] at top
  exact absurd top (not_le.mpr large)

/-- The children of a coarse cell average to its value. All of them stay between
the extremes of the coarse stencil, for every field, exactly when the reaches of
the axes add up to at most one coarse cell. -/
theorem linear_prolongation_conservative (ratio : RefinementRatio d) (mapping : IndexMapping d) (component : ℤ)
    (parent : Index d) (coarseFits : ∀ axis, FitsInt (parent axis)) :
    (∀ source : CellSource K d, sumDigits (radix ratio) (fun digits =>
        interpolateCell ratio mapping source (childDigits ratio mapping parent digits) component)
      (List.finRange d) (fun _ => 0) / (ratio.childCount : K) = source parent component) ∧
    ((∀ (source : CellSource K d) (child : Index d), IsChild ratio child →
        StencilBounded ratio source parent component
          (interpolateCell ratio mapping source (childCell ratio mapping parent child) component)) ↔
      ∑ axis, (1 - 1 / (ratio axis : K)) ≤ 1) := by
  refine ⟨fun source => ?_, fun bounded => ?_, fun small source child isChild => ?_⟩
  · have positive : (ratio.childCount : K) ≠ 0 :=
      Int.cast_ne_zero.mpr (Finset.prod_pos fun axis _ => ratio.pos axis).ne'
    rw [sum_interpolateCell coarseFits, mul_div_cancel_left₀ _ positive]
  · by_contra large
    exact unbounded_of_reach (not_le.mp large) coarseFits (bounded _ _ fun axis =>
      ⟨sub_nonneg.mpr (ratio.positive axis), sub_one_lt _⟩)
  · exact bounded_of_reach small coarseFits isChild

private theorem four_positive : ∀ _ : Fin 2, (1 : ℤ) ≤ 4 := by decide

private theorem four_bounded : ∀ _ : Fin 2, (4 : ℤ) ≤ intMax := by decide

private theorem four_children : ∏ _ : Fin 2, (4 : ℤ) ≤ int64Max := by decide

/-- Both axes refined by four. -/
def fours : RefinementRatio 2 := ⟨fun _ => 4, four_positive, four_bounded, four_children⟩

theorem linear_prolongation_conservative_origin :
    sumDigits (radix fours) (fun digits => interpolateCell fours ⟨fun _ => 0, fun _ => 0⟩
        (fun index _ => (index 0 : ℚ)) (childDigits fours ⟨fun _ => 0, fun _ => 0⟩ (fun _ => -1) digits) 0)
      (List.finRange 2) (fun _ => 0) / (fours.childCount : ℚ) = -1 :=
  (linear_prolongation_conservative fours ⟨fun _ => 0, fun _ => 0⟩ 0 (fun _ => -1) (by decide)).1
    fun index _ => (index 0 : ℚ)

/-- With both axes refined by four a child leaves the extremes of its stencil. -/
theorem linear_prolongation_overshoots : ¬∀ (source : CellSource ℚ 2) (child : Index 2), IsChild fours child →
    StencilBounded fours source (fun _ => 0) 0 (interpolateCell fours ⟨fun _ => 0, fun _ => 0⟩ source
      (childCell fours ⟨fun _ => 0, fun _ => 0⟩ (fun _ => 0) child) 0) := by
  intro bounded
  refine @unbounded_of_reach ℚ _ _ _ 2 fours _ _ _ ?_ (by decide) (bounded (steepSource fun _ => 0)
    (fun _ => 4 - 1) fun _ => ⟨by norm_num, sub_one_lt _⟩)
  norm_num [reach, fours]

end Pops.CellTransfer
