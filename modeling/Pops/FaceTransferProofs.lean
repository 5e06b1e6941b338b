import Mathlib.Algebra.BigOperators.Field
import Mathlib.Tactic.FieldSimp
import Mathlib.Tactic.LinearCombination
import Pops.FaceTransfer

/-!
Every fine child cell of a refined parent receives its parent's divergence.
The base faces are linear across the parent, so the error of a child is a sum
of antisymmetric transverse offsets and vanishes over all children together.
The correction is a prefix sum of those errors along the spanning tree; it
closes all equations but the last, and the last by that total.
-/
namespace Pops.FaceTransfer
open Finset Function MixedRadix

variable {K : Type} [Field K] [LinearOrder K] [IsStrictOrderedRing K] {d : ℕ}

/-! ### Index arithmetic -/

variable {ratio : RefinementRatio d} {mapping : IndexMapping d} {parent child : Index d}

/-- A child offset of a parent: one digit below the ratio along every axis. -/
def IsChild (ratio : RefinementRatio d) (child : Index d) : Prop :=
  ∀ axis, 0 ≤ child axis ∧ child axis < ratio axis

/-- The index of a child cell, before any conversion to `int`. -/
def childCell (ratio : RefinementRatio d) (mapping : IndexMapping d) (parent child : Index d) :
    Index d := fun axis =>
  mapping.fineOrigin axis + (parent axis - mapping.coarseOrigin axis) * ratio axis + child axis

/-- The indices a refined parent is reached by are `int` values: its own
faces' coordinates and those of all its children. -/
structure Representable (ratio : RefinementRatio d) (mapping : IndexMapping d) (parent : Index d) :
    Prop where
  coarse : ∀ axis, FitsInt (parent axis) ∧ FitsInt (parent axis + 1)
  fine : ∀ child, IsChild ratio child → ∀ axis, FitsInt (childCell ratio mapping parent child axis)

theorem digit_fits (isDigit : 0 ≤ child axis ∧ child axis < ratio axis) : FitsInt (child axis) := by
  have := ratio.bounded axis
  unfold FitsInt intMin intMax at *
  omega

/-- The conversions of `fine_parent_and_child` recover parent and child from
any cell index written as origin, parent multiple and offset. -/
theorem parent_and_child (ratio : RefinementRatio d) (mapping : IndexMapping d)
    (owner offset : Index d) (coarseFits : ∀ axis, FitsInt (owner axis))
    (isChild : IsChild ratio offset) :
    parentOf ratio mapping (childCell ratio mapping owner offset) = owner ∧
      childOf ratio mapping (childCell ratio mapping owner offset) = offset := by
  have quotient (axis : Fin d) : floorDivPositive
      (childCell ratio mapping owner offset axis - mapping.fineOrigin axis) (ratio axis) =
        owner axis - mapping.coarseOrigin axis := by
    rw [floorDivPositive, floorDiv_eq _ (ratio.pos axis)]
    refine (Int.ediv_eq_iff_of_pos (ratio.pos axis)).mpr ?_
    have := isChild axis
    simp only [childCell]
    constructor <;> linarith
  constructor
  · funext axis
    simp only [parentOf, quotient]
    rw [show mapping.coarseOrigin axis + (owner axis - mapping.coarseOrigin axis) = owner axis by ring]
    exact castInt_of_fits (coarseFits axis)
  · funext axis
    simp only [childOf, quotient]
    rw [show childCell ratio mapping owner offset axis - mapping.fineOrigin axis -
      (owner axis - mapping.coarseOrigin axis) * ratio axis = offset axis by
        simp only [childCell]; ring]
    exact castInt_of_fits (digit_fits (isChild axis))

theorem fineCell_eq (fits : Representable ratio mapping parent) (isChild : IsChild ratio child) :
    fineCell ratio mapping parent child = childCell ratio mapping parent child := by
  funext axis
  exact castInt_of_fits (fits.fine child isChild axis)

/-- The upper neighbour of a child cell is either its sibling or the first
child of the parent's upper neighbour. -/
theorem raise_childCell (axis : Fin d) :
    raise (childCell ratio mapping parent child) axis =
      if child axis + 1 < ratio axis then childCell ratio mapping parent (raise child axis)
      else childCell ratio mapping (raise parent axis)
        (update child axis (child axis + 1 - ratio axis)) := by
  funext other
  by_cases same : other = axis
  · subst same
    split <;> simp [raise, childCell] <;> ring
  · split <;> simp [raise, childCell, same]

theorem isChild_raise {axis : Fin d} (isChild : IsChild ratio child)
    (sibling : child axis + 1 < ratio axis) : IsChild ratio (raise child axis) := by
  intro other
  by_cases same : other = axis
  · subst same
    have := isChild other
    simp only [raise, update_self]
    omega
  · simpa [raise, same] using isChild other

theorem isChild_update {axis : Fin d} {digit : ℤ} (isChild : IsChild ratio child)
    (isDigit : 0 ≤ digit ∧ digit < ratio axis) : IsChild ratio (update child axis digit) := by
  intro other
  by_cases same : other = axis
  · subst same
    simpa using isDigit
  · simpa [same] using isChild other

theorem raise_fits {axis : Fin d} (fits : Representable ratio mapping parent) (other : Fin d) :
    FitsInt (raise parent axis other) := by
  by_cases same : other = axis
  · subst same
    simpa [raise] using (fits.coarse other).2
  · simpa [raise, same] using (fits.coarse other).1

/-! ### Base faces are linear across a parent -/

section Base
variable (source : FaceSource K d) (component : ℤ)

/-- The antisymmetric transverse offset of a child about its parent's centre. -/
def offset (ratio : RefinementRatio d) (axis : Fin d) (digit : ℤ) : K :=
  ((2 * digit + 1 - ratio axis : ℤ) : K) / ((2 * ratio axis : ℤ) : K)

omit [IsStrictOrderedRing K] in
/-- A boundary value reads neither the parent's nor the child's own normal
coordinate. -/
theorem transverseBoundaryValue_congr {normal : Fin d} {parent child other sibling : Index d}
    (parents : ∀ axis, axis ≠ normal → parent axis = other axis)
    (children : ∀ axis, axis ≠ normal → child axis = sibling axis) (normalFace : ℤ) :
    transverseBoundaryValue ratio source normal parent child normalFace component =
      transverseBoundaryValue ratio source normal other sibling normalFace component := by
  have center : update parent normal normalFace = update other normal normalFace := by
    funext axis
    by_cases same : axis = normal
    · simp [same]
    · simp [same, parents axis same]
  simp only [transverseBoundaryValue, center]
  congr 1
  refine sum_congr rfl fun axis _ => ?_
  by_cases same : axis = normal
  · simp [same]
  · rw [children axis same]

/-- The boundary value of a child on the lower or upper coarse face. -/
abbrev boundary (ratio : RefinementRatio d) (normal : Fin d) (parent child : Index d)
    (normalFace : ℤ) : K :=
  transverseBoundaryValue ratio source normal parent child normalFace component

omit [IsStrictOrderedRing K] in
/-- Within a parent the base face value is the linear interpolation of the two
boundary values, at the lower face of a child ... -/
theorem baseFaceValue_lower (fits : Representable ratio mapping parent)
    (isChild : IsChild ratio child) (normal : Fin d) :
    baseFaceValue ratio mapping source normal (childCell ratio mapping parent child) component =
      boundary source component ratio normal parent child (parent normal) +
        (child normal : K) / (ratio normal : K) *
          (boundary source component ratio normal parent child (parent normal + 1) -
            boundary source component ratio normal parent child (parent normal)) := by
  obtain ⟨isParent, isOffset⟩ :=
    parent_and_child ratio mapping parent child (fun a => (fits.coarse a).1) isChild
  simp only [baseFaceValue, isParent, isOffset]
  split
  · rename_i zero
    simp [zero]
  · rfl

/-- ... and at its upper face, even when that face belongs to the next parent. -/
theorem baseFaceValue_upper (fits : Representable ratio mapping parent)
    (isChild : IsChild ratio child) (normal : Fin d) :
    baseFaceValue ratio mapping source normal
        (raise (childCell ratio mapping parent child) normal) component =
      boundary source component ratio normal parent child (parent normal) +
        ((child normal + 1 : ℤ) : K) / (ratio normal : K) *
          (boundary source component ratio normal parent child (parent normal + 1) -
            boundary source component ratio normal parent child (parent normal)) := by
  have nonzero : (ratio normal : K) ≠ 0 := Int.cast_ne_zero.mpr (ratio.pos normal).ne'
  rw [raise_childCell]
  split
  · rename_i sibling
    rw [baseFaceValue_lower source component fits (isChild_raise isChild sibling)]
    have boundaries (face : ℤ) : boundary source component ratio normal parent (raise child normal) face =
        boundary source component ratio normal parent child face :=
      transverseBoundaryValue_congr source component (fun _ _ => rfl)
        (fun axis different => by simp [raise, different]) face
    rw [boundaries, boundaries]
    simp [raise]
  · rename_i last
    have digit : child normal + 1 - ratio normal = 0 := by
      have := isChild normal
      omega
    rw [digit]
    have isFirst : IsChild ratio (update child normal 0) :=
      isChild_update isChild ⟨le_rfl, ratio.pos normal⟩
    obtain ⟨isParent, isOffset⟩ := parent_and_child ratio mapping
      (raise parent normal) (update child normal 0) (raise_fits fits) isFirst
    simp only [baseFaceValue, isParent, isOffset, update_self, ↓reduceIte]
    rw [show child normal + 1 = ratio normal by omega, div_self nonzero, one_mul,
      add_sub_cancel]
    simp only [raise, update_self]
    exact transverseBoundaryValue_congr source component
      (fun axis different => by simp [different]) (fun axis different => by simp [different]) _

theorem baseFineDivergence_eq (fits : Representable ratio mapping parent)
    (isChild : IsChild ratio child) :
    baseFineDivergence ratio mapping source parent child component =
      ∑ axis, (boundary source component ratio axis parent child (parent axis + 1) -
        boundary source component ratio axis parent child (parent axis)) := by
  simp only [baseFineDivergence, fineCell_eq fits isChild]
  refine sum_congr rfl fun axis _ => ?_
  have nonzero : (ratio axis : K) ≠ 0 := Int.cast_ne_zero.mpr (ratio.pos axis).ne'
  rw [baseFaceValue_upper source component fits isChild, baseFaceValue_lower source component fits isChild]
  push_cast
  field_simp
  ring

/-- The slope difference a pair of axes contributes to every child's error. -/
def slopeDifference (ratio : RefinementRatio d) (parent : Index d) (normal axis : Fin d) : K :=
  if axis = normal ∨ ratio axis = 1 then 0
  else transverseSlope source normal (raise parent normal) component axis -
    transverseSlope source normal parent component axis

theorem divergenceError_eq (fits : Representable ratio mapping parent)
    (isChild : IsChild ratio child) :
    divergenceError ratio mapping source parent child component =
      ∑ normal, ∑ axis, -(slopeDifference source component ratio parent normal axis *
        offset ratio axis (child axis)) := by
  rw [divergenceError, baseFineDivergence_eq source component fits isChild, coarseDivergence,
    ← sum_sub_distrib]
  refine sum_congr rfl fun normal _ => ?_
  have lower : update parent normal (parent normal) = parent := update_eq_self _ _
  have upper : update parent normal (parent normal + 1) = raise parent normal := rfl
  simp only [boundary, transverseBoundaryValue, lower, upper]
  rw [sum_neg_distrib, show ∀ a b x y : K, a - b - (a + x - (b + y)) = -(x - y) by intros; ring,
    ← sum_sub_distrib]
  congr 1
  refine sum_congr rfl fun axis _ => ?_
  simp only [slopeDifference, offset]
  split
  · ring
  · ring

omit [LinearOrder K] [IsStrictOrderedRing K] in
theorem sum_offset (axis : Fin d) :
    ∑ digit ∈ range (radix ratio axis), (offset ratio axis (digit : ℤ) : K) = 0 := by
  have partialSum (count : ℕ) : ∑ digit ∈ range count, (2 * (digit : ℤ) + 1 - ratio axis) =
      (count : ℤ) * (count - ratio axis) := by
    induction count with
    | zero => simp
    | succ count ih =>
      rw [sum_range_succ, ih]
      push_cast
      ring
  have total := partialSum (radix ratio axis)
  rw [radix, Int.toNat_of_nonneg (ratio.pos axis).le, sub_self, mul_zero] at total
  simp only [offset]
  rw [← sum_div, ← Int.cast_sum, radix, total, Int.cast_zero, zero_div]

/-! ### The correction is a prefix sum along the spanning tree -/

/-- The error of the child with the given digits. -/
def errorAt (ratio : RefinementRatio d) (mapping : IndexMapping d) (parent : Index d)
    (digits : Fin d → ℕ) : K :=
  divergenceError ratio mapping source parent (fun axis => (digits axis : ℤ)) component

/-- The total error of the children that agree with `digits` from axis `count` on. -/
def blockError (ratio : RefinementRatio d) (mapping : IndexMapping d) (parent : Index d)
    (count : ℕ) (digits : Fin d → ℕ) : K :=
  sumDigits (radix ratio) (errorAt source component ratio mapping parent) (axesBelow count) digits

/-- The child is the last one along every axis below `count`. -/
def FullBelow (ratio : RefinementRatio d) (count : ℕ) (digits : Fin d → ℕ) : Prop :=
  ∀ axis : Fin d, axis.val < count → digits axis + 1 = radix ratio axis

instance (count : ℕ) (digits : Fin d → ℕ) : Decidable (FullBelow ratio count digits) :=
  inferInstanceAs (Decidable (∀ _, _))

theorem cast_radix (ratio : RefinementRatio d) (axis : Fin d) : (radix ratio axis : ℤ) = ratio axis :=
  Int.toNat_of_nonneg (ratio.pos axis).le

variable {digits : Fin d → ℕ}

theorem digits_isChild (isChild : ∀ axis, digits axis < radix ratio axis) :
    IsChild ratio fun axis => (digits axis : ℤ) := by
  intro axis
  have bound := isChild axis
  have width := cast_radix ratio axis
  simp only
  omega

theorem mem_axesBelow {count : ℕ} {axis : Fin d} : axis ∈ axesBelow count ↔ axis.val < count := by
  simp only [axesBelow, List.mem_take_iff_getElem, List.getElem_finRange, List.length_finRange]
  constructor
  · rintro ⟨position, bound, rfl⟩
    simp at bound ⊢
    omega
  · intro below
    exact ⟨axis.val, by simp [below], by ext; simp⟩

theorem axesBelow_succ (axis : Fin d) :
    (axesBelow (axis.val + 1) : List (Fin d)) = axesBelow axis.val ++ [axis] := by
  rw [axesBelow, axesBelow, List.take_add_one]
  simp

theorem axesBelow_all : (axesBelow d : List (Fin d)) = List.finRange d := by
  simp [axesBelow]

omit [IsStrictOrderedRing K] in
theorem blockError_succ (axis : Fin d) (digits : Fin d → ℕ) :
    blockError source component ratio mapping parent (axis.val + 1) digits =
      ∑ digit ∈ range (radix ratio axis),
        blockError source component ratio mapping parent axis.val (update digits axis digit) := by
  rw [blockError, axesBelow_succ, sumDigits_concat]
  · rfl
  · simp [mem_axesBelow]

omit [IsStrictOrderedRing K] in
theorem sum_prefixSample (normal : Fin d) (digits : Fin d → ℕ) :
    ∑ ordinal ∈ range (digits normal * volume (radix ratio) (axesBelow normal)),
        divergenceError ratio mapping source parent
          (prefixSample ratio normal (fun axis => (digits axis : ℤ)) ordinal) component =
      ∑ digit ∈ range (digits normal),
        blockError source component ratio mapping parent normal (update digits normal digit) := by
  have flat := sum_decode (radix ratio) (axesBelow normal) (digits normal)
    (fun counted quotient =>
      errorAt source component ratio mapping parent (update counted normal quotient)) digits
  rw [mul_comm]
  calc
    _ = _ := flat
    _ = _ := by
      rw [sumDigits_sum]
      refine sum_congr rfl fun digit _ => ?_
      exact sumDigits_update _ (by simp [mem_axesBelow]) digit digits

omit [IsStrictOrderedRing K] in
/-- The correction of a face inside a refined parent: zero off the spanning
tree, the error of the blocks before the face on it. -/
theorem divergenceCorrection_eq (coarseFits : ∀ axis, FitsInt (parent axis))
    (isChild : ∀ axis, digits axis < radix ratio axis) (normal : Fin d) :
    divergenceCorrection ratio mapping source normal
        (childCell ratio mapping parent fun axis => (digits axis : ℤ)) component =
      if FullBelow ratio normal digits then
        (∑ digit ∈ range (digits normal), blockError source component ratio mapping parent normal
          (update digits normal digit)) / (ratio normal : K)
      else 0 := by
  obtain ⟨isParent, isOffset⟩ := parent_and_child ratio mapping parent
    (fun axis => (digits axis : ℤ)) coarseFits (digits_isChild isChild)
  have branch : (∃ axis < normal, (digits axis : ℤ) ≠ ratio axis - 1) ↔
      ¬ FullBelow ratio normal digits := by
    simp only [FullBelow, not_forall, exists_prop]
    refine exists_congr fun axis => and_congr_right fun _ => not_congr ?_
    rw [← cast_radix]
    omega
  simp only [divergenceCorrection, isParent, isOffset, branch, Int.toNat_natCast, sum_prefixSample]
  split
  · rename_i first
    simp [Int.natCast_eq_zero.mp first]
  · rw [ite_not]

omit [IsStrictOrderedRing K] in
/-- The upper face of a child that is not the last one along the axis is the
face of its sibling, with one more block; the last child's belongs to the next
parent and is not corrected. -/
theorem divergenceCorrection_upper (fits : Representable ratio mapping parent)
    (isChild : ∀ axis, digits axis < radix ratio axis) (normal : Fin d) :
    divergenceCorrection ratio mapping source normal
        (raise (childCell ratio mapping parent fun axis => (digits axis : ℤ)) normal) component =
      if digits normal + 1 = radix ratio normal then 0
      else if FullBelow ratio normal digits then
        (∑ digit ∈ range (digits normal + 1), blockError source component ratio mapping parent normal
          (update digits normal digit)) / (ratio normal : K)
      else 0 := by
  have bound := isChild normal
  have width := cast_radix ratio normal
  have moved (digit : ℕ) : update (fun axis => (digits axis : ℤ)) normal digit =
      fun axis => ((update digits normal digit axis : ℕ) : ℤ) := by
    funext axis
    by_cases same : axis = normal
    · subst same
      simp
    · simp [same]
  have movedChild {digit : ℕ} (isDigit : digit < radix ratio normal) (axis : Fin d) :
      update digits normal digit axis < radix ratio axis := by
    by_cases same : axis = normal
    · subst same
      simpa using isDigit
    · simpa [same] using isChild axis
  have belowKept (digit : ℕ) : FullBelow ratio normal (update digits normal digit) ↔
      FullBelow ratio normal digits := by
    refine forall_congr' fun axis => imp_congr_right fun below => ?_
    rw [update_of_ne (fun same => by simp [same] at below)]
  rw [raise_childCell]
  by_cases last : digits normal + 1 = radix ratio normal
  · have wrapped : (digits normal : ℤ) + 1 - ratio normal = ((0 : ℕ) : ℤ) := by
      push_cast
      omega
    rw [if_neg (by omega), if_pos last, wrapped, moved,
      divergenceCorrection_eq source component (raise_fits fits) (movedChild (by omega))]
    simp
  · rw [if_pos (by omega), if_neg last, raise,
      show (digits normal : ℤ) + 1 = ((digits normal + 1 : ℕ) : ℤ) by push_cast; rfl, moved,
      divergenceCorrection_eq source component (fun a => (fits.coarse a).1) (movedChild (by omega))]
    simp only [belowKept, update_idem, update_self]

/-- What the correction adds to the divergence of a child along one axis. -/
def correctionTerm (ratio : RefinementRatio d) (mapping : IndexMapping d) (parent : Index d)
    (digits : Fin d → ℕ) (axis : Fin d) : K :=
  let fine := childCell ratio mapping parent fun a => (digits a : ℤ)
  (ratio axis : K) * (divergenceCorrection ratio mapping source axis (raise fine axis) component -
    divergenceCorrection ratio mapping source axis fine component)

/-- The error that is still open at a child once the axes below `count` are
corrected: that of its block on the spanning tree, none off the tree. -/
def openError (ratio : RefinementRatio d) (mapping : IndexMapping d) (parent : Index d)
    (digits : Fin d → ℕ) (count : ℕ) : K :=
  if FullBelow ratio count digits then
    blockError source component ratio mapping parent count digits
  else 0

theorem fullBelow_succ {axis : Fin d} :
    FullBelow ratio (axis.val + 1) digits ↔
      FullBelow ratio axis digits ∧ digits axis + 1 = radix ratio axis := by
  constructor
  · exact fun full => ⟨fun other below => full other (by omega), full axis (by omega)⟩
  · rintro ⟨full, last⟩ other below
    rcases Nat.lt_succ_iff_lt_or_eq.mp below with lower | same
    · exact full other lower
    · rwa [Fin.ext same]

theorem correctionTerm_eq (fits : Representable ratio mapping parent)
    (isChild : ∀ axis, digits axis < radix ratio axis) (axis : Fin d) :
    correctionTerm source component ratio mapping parent digits axis =
      openError source component ratio mapping parent digits axis -
        openError source component ratio mapping parent digits (axis.val + 1) := by
  have nonzero : (ratio axis : K) ≠ 0 := Int.cast_ne_zero.mpr (ratio.pos axis).ne'
  simp only [correctionTerm, openError, divergenceCorrection_upper source component fits isChild,
    divergenceCorrection_eq source component (fun a => (fits.coarse a).1) isChild, fullBelow_succ]
  by_cases full : FullBelow ratio axis digits
  · have block : blockError source component ratio mapping parent axis
        (update digits axis (digits axis)) =
          blockError source component ratio mapping parent axis digits := by
      rw [update_eq_self]
    by_cases last : digits axis + 1 = radix ratio axis
    · -- the children of the block along this axis are the next block
      simp only [full, last, and_self, if_true, blockError_succ]
      rw [← last, sum_range_succ, block]
      field_simp
      ring
    · simp only [full, last, and_false, if_true, if_false, sum_range_succ, block]
      field_simp
      ring
  · simp [full]

theorem blockError_all (fits : Representable ratio mapping parent) (digits : Fin d → ℕ) :
    blockError source component ratio mapping parent d digits = 0 := by
  have expanded : blockError source component ratio mapping parent d digits =
      sumDigits (radix ratio) (fun counted => ∑ normal, ∑ axis,
        -(slopeDifference source component ratio parent normal axis *
          offset ratio axis (counted axis : ℤ))) (List.finRange d) digits := by
    rw [blockError, axesBelow_all]
    exact sumDigits_congr fun counted within _ =>
      divergenceError_eq source component fits (digits_isChild fun axis => within axis (by simp))
  rw [expanded, sumDigits_sum]
  refine sum_eq_zero fun normal _ => ?_
  rw [sumDigits_sum]
  refine sum_eq_zero fun axis _ => ?_
  refine sumDigits_axis_eq_zero (fun digit => -(slopeDifference source component ratio parent normal
    axis * offset ratio axis (digit : ℤ))) (List.nodup_finRange d) (List.mem_finRange axis) ?_ digits
  rw [sum_neg_distrib, ← mul_sum, sum_offset, mul_zero, neg_zero]

theorem sum_correctionTerm (fits : Representable ratio mapping parent)
    (isChild : ∀ axis, digits axis < radix ratio axis) :
    ∑ axis, correctionTerm source component ratio mapping parent digits axis =
      errorAt source component ratio mapping parent digits := by
  have start : openError source component ratio mapping parent digits 0 =
      errorAt source component ratio mapping parent digits := by
    simp [openError, FullBelow, blockError, axesBelow, sumDigits]
  have finish : openError source component ratio mapping parent digits d = 0 := by
    simp [openError, blockError_all source component fits]
  calc
    _ = ∑ axis : Fin d, (openError source component ratio mapping parent digits axis -
        openError source component ratio mapping parent digits (axis.val + 1)) :=
      sum_congr rfl fun axis _ => correctionTerm_eq source component fits isChild axis
    _ = openError source component ratio mapping parent digits 0 -
        openError source component ratio mapping parent digits d := by
      rw [Fin.sum_univ_eq_sum_range fun count =>
        openError source component ratio mapping parent digits count -
          openError source component ratio mapping parent digits (count + 1)]
      exact sum_range_sub' _ _
    _ = _ := by rw [start, finish, sub_zero]

end Base

/-! ### What the provider writes -/

/-- Under `Representable`, the face values give every child its parent's divergence. -/
theorem divergence_of_representable (source : FaceSource K d) (component : ℤ)
    (fits : Representable ratio mapping parent) (isChild : IsChild ratio child) :
    ∑ axis, (ratio axis : K) *
        (faceValue ratio mapping source axis (raise (childCell ratio mapping parent child) axis) component -
          faceValue ratio mapping source axis (childCell ratio mapping parent child) component) =
      coarseDivergence source parent component := by
  obtain ⟨digits, rfl⟩ : ∃ digits : Fin d → ℕ, child = fun axis => (digits axis : ℤ) :=
    ⟨fun axis => (child axis).toNat, funext fun axis => (Int.toNat_of_nonneg (isChild axis).1).symm⟩
  have within (axis : Fin d) : digits axis < radix ratio axis := by
    have bound := (isChild axis).2
    rw [← cast_radix] at bound
    simpa using bound
  have corrected := sum_correctionTerm source component fits within
  rw [errorAt, divergenceError, baseFineDivergence, fineCell_eq fits isChild] at corrected
  set fine := childCell ratio mapping parent fun axis => (digits axis : ℤ)
  calc
    _ = ∑ axis, (ratio axis : K) * (baseFaceValue ratio mapping source axis (raise fine axis) component -
          baseFaceValue ratio mapping source axis fine component) +
        ∑ axis, correctionTerm source component ratio mapping parent digits axis := by
      rw [← sum_add_distrib]
      refine sum_congr rfl fun axis _ => ?_
      rw [faceValue, faceValue, correctionTerm]
      ring
    _ = _ := by
      rw [corrected]
      ring

theorem le_ceilDivPositive (numerator : ℤ) {denominator : ℤ} (positive : 0 < denominator) :
    numerator / denominator ≤ ceilDivPositive numerator denominator := by
  unfold ceilDivPositive
  simp only [Int.tdiv_eq_ediv, Int.sign_eq_one_of_pos positive]
  split <;> split <;> omega

theorem checkedTransferAdd_ok {left right sum : ℤ} {operation : String}
    (ran : checkedTransferAdd left right operation = .ok sum) : sum = left + right := by
  simp only [checkedTransferAdd, bind_ok, throwIf_ok, unit_exists, pure_ok] at ran
  exact ran.2.symm

/-- Along its normal axis the stencil of a face region has `int` bounds, and
no transverse widening. -/
theorem faceInterpolationSourceAxis_normal {region : Box d} {normal : Fin d} {bounds : ℤ × ℤ}
    (ran : faceInterpolationSourceAxis region normal ratio mapping normal = .ok bounds) :
    FitsInt (mapping.coarseOrigin normal +
        (region.lo normal - mapping.fineOrigin normal) / ratio normal) ∧
      FitsInt (mapping.coarseOrigin normal +
        ceilDivPositive (region.hi normal - mapping.fineOrigin normal) (ratio normal)) := by
  simp only [faceInterpolationSourceAxis, bind_ok, pure_ok, checkedIndex_ok] at ran
  obtain ⟨lower, atLower, upper, atUpper, low, atLow, high, atHigh, _, ⟨lowFits, -⟩, _, ⟨highFits, -⟩, -⟩ :=
    ran
  rw [checkedTransferAdd_ok atLow, checkedTransferAdd_ok atLower] at lowFits
  rw [checkedTransferAdd_ok atHigh, checkedTransferAdd_ok atUpper] at highFits
  rw [floorDivPositive, floorDiv_eq _ (ratio.pos normal)] at lowFits
  simp only [ne_eq, not_true_eq_false, false_and, if_false, neg_zero, add_zero] at lowFits highFits
  exact ⟨lowFits, highFits⟩

/-- An accepted preparation has checked the coordinates of every refined parent. -/
theorem representable_of_prepared {source destination : Fin d → FieldView d} {region : Box d}
    {components : ComponentRange} {transfer : PreparedTransfer d}
    (prepared : prepare source destination region ratio mapping components = .ok transfer)
    (refined : ∀ child, IsChild ratio child → childCell ratio mapping parent child ∈ region.cells) :
    Representable ratio mapping parent := by
  simp only [prepare, bind_ok, throwIf_ok, unit_exists, pure_ok, axes_ok] at prepared
  obtain ⟨-, nonempty, checked, each, -⟩ := prepared
  have facts (axis : Fin d) : FitsInt (region.lo axis) ∧ FitsInt (region.hi axis + 1) ∧
      FitsInt (mapping.coarseOrigin axis +
        (region.lo axis - mapping.fineOrigin axis) / ratio axis) ∧
      FitsInt (mapping.coarseOrigin axis +
        ceilDivPositive (region.hi axis + 1 - mapping.fineOrigin axis) (ratio axis)) := by
    have ran := each axis
    simp only [prepareAxis, faceRegion, faceInterpolationSourceBox, bind_ok, throwIf_ok, unit_exists,
      pure_ok, axes_ok, checkedIndex_ok] at ran
    obtain ⟨_, -, destinationView, validated, -, _, ⟨raised, added, _, ⟨upperFits, rfl⟩, rfl⟩,
      contains, _, ⟨bounds, stencil, -⟩, -⟩ := ran
    rw [checkedTransferAdd_ok added] at upperFits contains stencil
    have lowFits := FieldView.validate_box validated axis
    have inside := (not_not.mp contains).2 axis
    have along := faceInterpolationSourceAxis_normal (stencil axis)
    simp only [update_self] at along inside
    refine ⟨lowFits.1.between upperFits inside.1 ?_, upperFits, along.1, along.2⟩
    have := Box.not_empty_iff.mp nonempty axis
    omega
  have first := refined (fun _ => 0) fun axis => ⟨le_rfl, ratio.pos axis⟩
  have last := refined (fun axis => ratio axis - 1) fun axis =>
    ⟨sub_nonneg.mpr (ratio.positive axis), sub_one_lt _⟩
  simp only [Box.mem_cells, childCell] at first last
  constructor
  · intro axis
    obtain ⟨-, -, lowFits, highFits⟩ := facts axis
    have positive := ratio.pos axis
    have above : (region.lo axis - mapping.fineOrigin axis) / ratio axis ≤
        parent axis - mapping.coarseOrigin axis := by
      refine Int.ediv_le_of_le_mul positive ?_
      linarith [(first axis).1]
    have below : parent axis - mapping.coarseOrigin axis + 1 ≤
        (region.hi axis + 1 - mapping.fineOrigin axis) / ratio axis := by
      refine (Int.le_ediv_iff_mul_le positive).mpr ?_
      linarith [(last axis).2]
    have rounded := le_ceilDivPositive (region.hi axis + 1 - mapping.fineOrigin axis) positive
    exact ⟨lowFits.between highFits (by linarith) (by linarith),
      lowFits.between highFits (by linarith) (by linarith)⟩
  · intro child isChild axis
    have inside := Box.mem_cells.mp (refined child isChild) axis
    obtain ⟨lowFits, highFits, -⟩ := facts axis
    exact lowFits.between highFits inside.1 (by linarith [inside.2])

/-- Every fine child cell of a refined parent receives the parent's coarse divergence. -/
theorem fine_divergence_eq_coarse {source destination : Fin d → FieldView d} {region : Box d}
    {components : ComponentRange} {transfer : PreparedTransfer d}
    (prepared : prepare source destination region ratio mapping components = .ok transfer)
    (memory : ℤ → K) (component : ℤ)
    (refined : ∀ child, IsChild ratio child → childCell ratio mapping parent child ∈ region.cells)
    (isChild : IsChild ratio child) :
    ∑ axis, (ratio axis : K) *
        (transfer.produced memory axis (raise (childCell ratio mapping parent child) axis) component -
          transfer.produced memory axis (childCell ratio mapping parent child) component) =
      coarseDivergence (transfer.values memory) parent (components.sourceBegin + component) := by
  have fits := representable_of_prepared prepared refined
  simp only [prepare, bind_ok, throwIf_ok, unit_exists, pure_ok] at prepared
  obtain ⟨-, -, checked, -, -, -, rfl⟩ := prepared
  exact divergence_of_representable _ _ fits isChild

/-- A packed 3 × 3 view whose storage begins at the given element. -/
def packedView (element : ℕ) (origin : ℤ) (fits : FitsInt origin) : FieldView 2 where
  data := sizeofReal * element
  origin _ := origin
  originFits _ := fits
  extents _ := 3
  strides := ![1, 3]
  ncomp := 1
  componentStride := 9

/-- Two children along each of two axes. -/
def quadRatio : RefinementRatio 2 where
  values _ := 2
  positive _ := by decide
  bounded _ := by decide
  childCountFits := by decide

def negativeOrigins : IndexMapping 2 := ⟨fun _ => -1, fun _ => -3⟩

/-- The transfer onto the four children of one cell. -/
def quadTransfer : Checked (PreparedTransfer 2) :=
  prepare (fun normal => packedView (1 + 9 * normal) (-2) (by decide))
    (fun normal => packedView (19 + 9 * normal) (-3) (by decide)) ⟨fun _ => -3, fun _ => -2⟩
    quadRatio negativeOrigins {}

def squares (address : ℤ) : ℚ := address ^ 2

set_option maxRecDepth 4000 in
/-- The last child of that cell, whose equation no correction imposes. -/
theorem fine_divergence_eq_coarse_quad : ∃ transfer, quadTransfer = .ok transfer ∧
    ∑ axis, (quadRatio axis : ℚ) *
        (transfer.produced squares axis (raise (fun _ => -2) axis) 0 -
          transfer.produced squares axis (fun _ => -2) 0) =
      coarseDivergence (transfer.values squares) (fun _ => -1) 0 := by
  obtain ⟨transfer, prepared⟩ : ∃ transfer, quadTransfer = .ok transfer := ⟨_, rfl⟩
  have lastChild : childCell quadRatio negativeOrigins (fun _ => -1) (fun _ => 1) = fun _ => -2 := rfl
  have refined : ∀ child, IsChild quadRatio child →
      childCell quadRatio negativeOrigins (fun _ => -1) child ∈
        (⟨fun _ => -3, fun _ => -2⟩ : Box 2).cells := by
    intro child isChild
    rw [Box.mem_cells]
    intro axis
    have digit := isChild axis
    simp only [childCell, quadRatio, negativeOrigins] at digit ⊢
    omega
  have isChild : IsChild quadRatio fun _ => 1 := fun axis => by simp [quadRatio]
  have equal := fine_divergence_eq_coarse prepared squares 0 refined isChild
  rw [lastChild] at equal
  exact ⟨transfer, prepared, equal⟩

end Pops.FaceTransfer
