import Mathlib
import Pops.EmbeddedTransport

/-!
The residual around an embedded boundary: at a face between two patches each of
them takes the aperture of its own cell, and elsewhere both sides of a face take
one flux. The residual is that of any other decomposition, and conserves, for
every flux exactly when these apertures agree.
-/
namespace Pops.EmbeddedTransport

variable {d : ℕ}

section Neighbours
variable (axis : Fin d) (cell : Index d)

@[simp] theorem below_above : below axis (above axis cell) = cell := by
  simp [below, above]

@[simp] theorem above_below : above axis (below axis cell) = cell := by
  simp [below, above]

@[simp] theorem above_axis : above axis cell axis = cell axis + 1 := Function.update_self ..

@[simp] theorem below_axis : below axis cell axis = cell axis - 1 := Function.update_self ..

theorem below_other {other : Fin d} (differs : other ≠ axis) : below axis cell other = cell other :=
  Function.update_of_ne differs ..

theorem above_other {other : Fin d} (differs : other ≠ axis) : above axis cell other = cell other :=
  Function.update_of_ne differs ..

variable {cell : Index d}

theorem contains_below {box : Box d} {axis : Fin d} (inside : box.Contains cell)
    (inner : cell axis ≠ box.lo axis) : box.Contains (below axis cell) := by
  refine ⟨inside.1, fun other => ?_⟩
  have bounds := inside.2 other
  by_cases same : other = axis
  · subst same
    rw [below_axis]
    omega
  · rw [below_other axis cell same]
    exact bounds

end Neighbours

/-- The cells between two corners. -/
noncomputable def cells (box : Box d) : Finset (Index d) := Finset.Icc box.lo box.hi

theorem mem_cells {box : Box d} : cell ∈ cells box ↔ box.Contains cell := by
  rw [cells, Finset.mem_Icc]
  constructor
  · rintro ⟨low, high⟩
    refine ⟨?_, fun axis => ⟨low axis, high axis⟩⟩
    rintro ⟨axis, empty⟩
    exact absurd ((low axis).trans (high axis)) (not_le.mpr empty)
  · exact fun inside => ⟨fun axis => (inside.2 axis).1, fun axis => (inside.2 axis).2⟩

theorem sum_differences {M : Type} [AddCommGroup M] (box : Box d) (axis : Fin d) (value : Index d → M) :
    ∑ cell ∈ cells box, (value (above axis cell) - value cell) =
      ∑ cell ∈ (cells box).filter (fun cell => cell axis = box.hi axis), value (above axis cell) -
        ∑ cell ∈ (cells box).filter (fun cell => cell axis = box.lo axis), value cell := by
  have shifted : ∑ cell ∈ (cells box).filter (fun cell => ¬ cell axis = box.hi axis), value (above axis cell) =
      ∑ cell ∈ (cells box).filter (fun cell => ¬ cell axis = box.lo axis), value cell := by
    refine Finset.sum_nbij' (above axis) (below axis) ?_ ?_ ?_ ?_ ?_
    · intro cell listed
      obtain ⟨inside, inner⟩ := Finset.mem_filter.mp listed
      have contained := mem_cells.mp inside
      refine Finset.mem_filter.mpr ⟨mem_cells.mpr ⟨contained.1, fun other => ?_⟩, ?_⟩
      · have bounds := contained.2 other
        by_cases same : other = axis
        · subst same
          rw [above_axis]
          omega
        · rw [above_other axis cell same]
          exact bounds
      · have bounds := contained.2 axis
        rw [above_axis]
        omega
    · intro cell listed
      obtain ⟨inside, inner⟩ := Finset.mem_filter.mp listed
      have contained := mem_cells.mp inside
      refine Finset.mem_filter.mpr ⟨mem_cells.mpr (contains_below contained inner), ?_⟩
      have bounds := contained.2 axis
      rw [below_axis]
      omega
    · exact fun cell _ => below_above axis cell
    · exact fun cell _ => above_below axis cell
    · exact fun _ _ => rfl
  rw [Finset.sum_sub_distrib, ← Finset.sum_filter_add_sum_filter_not (cells box) (fun cell => cell axis = box.hi axis),
    ← Finset.sum_filter_add_sum_filter_not (cells box) (fun cell => cell axis = box.lo axis), shifted]
  abel

variable {K V : Type} [Field K] [LinearOrder K]

/-- An operator whose geometry is valid: the spacings are positive, and every
active cell has a positive fraction and apertures that are not negative. -/
structure Valid (operator : MaskedOperator d K V) : Prop where
  spacing : ∀ axis, 0 < operator.metric.spacing axis
  fraction : ∀ cell, operator.active cell = true → 0 < operator.metric.inverseVolumeFraction cell
  lower : ∀ cell axis, 0 ≤ operator.metric.faceApertureLower cell axis
  upper : ∀ cell axis, 0 ≤ operator.metric.faceApertureUpper cell axis

namespace MaskedOperator
variable (operator : MaskedOperator d K V)

/-- An operator with a flux at every face. -/
def withFlux (flux : Fin d → Index d → V) : MaskedOperator d K V :=
  { operator with density := fun axis face => .ok (flux axis face) }

/-- A face is open: it is not omitted and both its cells are active. -/
def Open (axis : Fin d) (face : Index d) : Prop :=
  operator.omission.omits axis face = false ∧ operator.active (below axis face) = true ∧ operator.active face = true

instance (axis : Fin d) (face : Index d) : Decidable (operator.Open axis face) := inferInstanceAs (Decidable (_ ∧ _))

/-- The measure of a cell with a positive fraction. -/
def measure (cell : Index d) : K := operator.metric.baseCellMeasure / operator.metric.inverseVolumeFraction cell

end MaskedOperator

open MaskedOperator

variable [IsStrictOrderedRing K] {operator : MaskedOperator d K V} {flux : Fin d → Index d → V}

namespace Valid

theorem baseCellMeasure_pos (valid : Valid operator) : 0 < operator.metric.baseCellMeasure :=
  List.prod_pos fun value listed => by
    obtain ⟨axis, -, rfl⟩ := List.mem_map.mp listed
    exact valid.spacing axis

theorem baseFaceArea_pos (valid : Valid operator) (axis : Fin d) : 0 < operator.metric.baseFaceArea axis :=
  List.prod_pos fun value listed => by
    obtain ⟨other, -, rfl⟩ := List.mem_map.mp listed
    split
    · exact one_pos
    · exact valid.spacing other

theorem measure_pos (valid : Valid operator) (active : operator.active cell = true) :
    0 < operator.measure cell :=
  div_pos valid.baseCellMeasure_pos (valid.fraction cell active)

theorem cellMeasure_eq (valid : Valid operator) (active : operator.active cell = true) :
    operator.metric.cellMeasure cell = some (operator.measure cell) :=
  if_pos ⟨valid.fraction cell active, valid.measure_pos active⟩

theorem faceMeasure_eq (valid : Valid operator) (axis : Fin d) (side : MetricFaceSide) (cell : Index d) :
    operator.metric.faceMeasure axis side cell =
      operator.metric.baseFaceArea axis * operator.metric.faceAperture axis side cell := by
  refine abs_of_nonneg (mul_nonneg (valid.baseFaceArea_pos axis).le ?_)
  cases side with
  | lower => exact valid.lower cell axis
  | upper => exact valid.upper cell axis

end Valid

variable [AddCommGroup V] [Module K V]

namespace MaskedOperator
variable (operator : MaskedOperator d K V)

/-- The integrated flux through a face with the aperture of one of its cells. -/
def sideFlux (flux : Fin d → Index d → V) (axis : Fin d) (face : Index d) (holder : MetricFaceSide × Index d) : V :=
  if operator.Open axis face then operator.metric.faceMeasure axis holder.1 holder.2 • flux axis face else 0

/-- The integrated flux through a face in a patch. -/
def patchFlux (flux : Fin d → Index d → V) (patch : Box d) (axis : Fin d) (face : Index d) : V :=
  operator.sideFlux flux axis face (faceHolder patch axis face)

end MaskedOperator

namespace Valid

theorem faceFlux_eq (valid : Valid operator) (patch : Box d) (axis : Fin d) (face : Index d) :
    (operator.withFlux flux).faceFlux patch axis face = .ok (operator.patchFlux flux patch axis face) := by
  unfold faceFlux patchFlux sideFlux
  by_cases closed : operator.Open axis face
  · obtain ⟨kept, left, right⟩ := closed
    have holder : operator.active (faceHolder patch axis face).2 = true := by
      unfold faceHolder
      split
      · exact right
      · exact left
    have measured := valid.cellMeasure_eq holder
    rw [if_neg (by simp [withFlux, kept, left, right]), if_pos ⟨kept, left, right⟩]
    simp only [withFlux, measured, Option.isSome_some, Bool.true_eq_false, throwIf, if_false, ok_bind]
    by_cases positive : operator.metric.faceMeasure axis (faceHolder patch axis face).1 (faceHolder patch axis face).2 > 0
    · exact if_pos positive
    · have vanishes : operator.metric.faceMeasure axis (faceHolder patch axis face).1 (faceHolder patch axis face).2 = 0 :=
        le_antisymm (not_lt.mp positive) (abs_nonneg _)
      refine (if_neg positive).trans (congrArg Except.ok ?_)
      rw [vanishes, zero_smul]
  · rw [if_neg closed, if_pos]
    by_contra opened
    simp only [withFlux, not_or, Bool.not_eq_true, Bool.not_eq_false] at opened
    exact closed ⟨opened.1, opened.2.1, opened.2.2⟩

theorem residual_eq (valid : Valid operator) (patch : Box d) (active : operator.active cell = true) :
    (operator.withFlux flux).residual patch cell = .ok (-((List.finRange d).map fun axis =>
      (1 / operator.measure cell) •
        (operator.patchFlux flux patch axis (above axis cell) - operator.patchFlux flux patch axis cell)).sum) := by
  have loop (axes : List (Fin d)) (start : V) :
      (axes.foldlM (fun (sum : V) axis => do
          let lower ← (operator.withFlux flux).faceFlux patch axis cell
          let upper ← (operator.withFlux flux).faceFlux patch axis (above axis cell)
          return sum + (1 / operator.measure cell) • (upper - lower)) start : Checked V) =
        .ok (start + (axes.map fun axis => (1 / operator.measure cell) •
          (operator.patchFlux flux patch axis (above axis cell) - operator.patchFlux flux patch axis cell)).sum) := by
    induction axes generalizing start with
    | nil => simp [pure, Except.pure]
    | cons axis axes ih =>
      rw [List.foldlM_cons, valid.faceFlux_eq, valid.faceFlux_eq, ok_bind, ok_bind]
      refine (ih _).trans ?_
      rw [List.map_cons, List.sum_cons, add_assoc]
  have opened : ¬ (operator.withFlux flux).active cell = false := by simp [withFlux, active]
  have measured : (operator.withFlux flux).metric.cellMeasure cell = some (operator.measure cell) :=
    valid.cellMeasure_eq active
  rw [MaskedOperator.residual, if_neg opened, measured]
  dsimp only
  rw [loop, ok_bind, zero_add]
  rfl

end Valid

/-- A layout whose patches hold every cell of a domain, each in one patch. -/
structure Decomposition (domain : Box d) (layout : List (Box d)) : Prop where
  covers : ∀ cell, domain.Contains cell ↔ ∃ patch ∈ layout, patch.Contains cell
  disjoint : layout.Pairwise fun first second => ∀ cell, ¬ (first.Contains cell ∧ second.Contains cell)

theorem Decomposition.patchOf_contains {domain : Box d} {layout : List (Box d)}
    (tiles : Decomposition domain layout) (inside : domain.Contains cell) :
    (patchOf layout cell).Contains cell ∧ ∀ other, (patchOf layout cell).Contains other → domain.Contains other := by
  obtain ⟨patch, listed, holds⟩ := (tiles.covers cell).mp inside
  cases found : layout.find? fun patch => patch.Contains cell with
  | none => exact absurd holds (by simpa using List.find?_eq_none.mp found patch listed)
  | some held =>
    rw [patchOf, found, Option.getD_some]
    exact ⟨by simpa using List.find?_some found,
      fun other contains => (tiles.covers other).mpr ⟨held, List.mem_of_find?_eq_some found, contains⟩⟩

/-- What a computation returned, and nothing where it threw. -/
def returned (result : Checked V) : V := result.toOption.getD 0

section
variable (operator : MaskedOperator d K V) (domain : Box d) (layout first second : List (Box d))
  (flux : Fin d → Index d → V)

/-- The net flux out of a domain through its outer faces. -/
noncomputable def outerFlux : V :=
  ∑ axis, (∑ cell ∈ (cells domain).filter (fun cell => cell axis = domain.hi axis),
      returned ((operator.withFlux flux).faceFlux (patchOf layout cell) axis (above axis cell)) -
    ∑ cell ∈ (cells domain).filter (fun cell => cell axis = domain.lo axis),
      returned ((operator.withFlux flux).faceFlux (patchOf layout cell) axis cell))

/-- The measures of the active cells times their residuals sum up to minus the net outer flux. -/
def Conserves : Prop :=
  ∑ cell ∈ (cells domain).filter (fun cell => operator.active cell = true),
      operator.measure cell • returned ((operator.withFlux flux).assembleResidual layout cell) =
    -outerFlux operator domain layout flux

/-- Both layouts give one residual, which is conserved. -/
structure Exact : Prop where
  same : ∀ cell, domain.Contains cell → operator.active cell = true →
    (operator.withFlux flux).assembleResidual first cell = (operator.withFlux flux).assembleResidual second cell
  first : Conserves operator domain first flux
  second : Conserves operator domain second flux

/-- At an open face between two patches, the apertures of its two cells are the same. -/
def AperturesAgree : Prop :=
  ∀ axis cell, domain.Contains cell → domain.Contains (below axis cell) →
    cell axis = (patchOf layout cell).lo axis → operator.Open axis cell →
      operator.metric.faceApertureLower cell axis = operator.metric.faceApertureUpper (below axis cell) axis

/-- The flux through a face of a domain with one aperture: that of the cell below it, where there is one. -/
def oneFlux (axis : Fin d) (face : Index d) : V :=
  operator.sideFlux flux axis face
    (if domain.Contains (below axis face) then (.upper, below axis face) else (.lower, face))

/-- What the patch of a cell takes too much through its lower face. -/
def mismatch (axis : Fin d) (cell : Index d) : V :=
  operator.patchFlux flux (patchOf layout cell) axis cell - oneFlux operator domain flux axis cell

end

variable {domain : Box d} {layout first second : List (Box d)}

omit [IsStrictOrderedRing K] in
theorem lower_flux (axis : Fin d) (cell : Index d) :
    operator.patchFlux flux (patchOf layout cell) axis cell =
      oneFlux operator domain flux axis cell + mismatch operator domain layout flux axis cell := by
  rw [mismatch, add_sub_cancel]

section
variable (tiles : Decomposition domain layout)
include tiles

omit [IsStrictOrderedRing K] in
theorem upper_flux (inside : domain.Contains cell) (axis : Fin d) :
    operator.patchFlux flux (patchOf layout cell) axis (above axis cell) =
      oneFlux operator domain flux axis (above axis cell) := by
  have low := ((tiles.patchOf_contains inside).1.2 axis).1
  have inner : ¬ above axis cell axis = (patchOf layout cell).lo axis := by
    rw [above_axis]
    omega
  rw [patchFlux, oneFlux, faceHolder, if_neg inner, below_above, if_pos inside]

theorem mismatch_eq (valid : Valid operator) (inside : domain.Contains cell) (axis : Fin d) :
    mismatch operator domain layout flux axis cell =
      if domain.Contains (below axis cell) ∧ cell axis = (patchOf layout cell).lo axis ∧ operator.Open axis cell then
        (operator.metric.baseFaceArea axis * (operator.metric.faceApertureLower cell axis -
          operator.metric.faceApertureUpper (below axis cell) axis)) • flux axis cell
      else 0 := by
  unfold mismatch patchFlux oneFlux faceHolder
  by_cases seam : cell axis = (patchOf layout cell).lo axis
  · rw [if_pos seam]
    by_cases neighbour : domain.Contains (below axis cell)
    · rw [if_pos neighbour, sideFlux, sideFlux]
      by_cases opened : operator.Open axis cell
      · rw [if_pos opened, if_pos opened, if_pos ⟨neighbour, seam, opened⟩, ← sub_smul, valid.faceMeasure_eq,
          valid.faceMeasure_eq, ← mul_sub]
        rfl
      · rw [if_neg opened, if_neg opened, if_neg fun all => opened all.2.2, sub_zero]
    · rw [if_neg neighbour, sub_self, if_neg fun all => neighbour all.1]
  · obtain ⟨held, within⟩ := tiles.patchOf_contains inside
    rw [if_neg seam, if_pos (within _ (contains_below held seam)), sub_self, if_neg fun all => seam all.2.1]

theorem weighted_residual (valid : Valid operator) (inside : domain.Contains cell) :
    (if operator.active cell = true then
        operator.measure cell • returned ((operator.withFlux flux).assembleResidual layout cell) else 0) =
      -∑ axis, (oneFlux operator domain flux axis (above axis cell) - oneFlux operator domain flux axis cell -
        mismatch operator domain layout flux axis cell) := by
  split
  · rename_i active
    rw [assembleResidual, valid.residual_eq _ active, returned, Except.toOption, Option.getD_some, smul_neg,
      List.smul_sum, List.map_map, ← Fin.sum_univ_def]
    refine congrArg Neg.neg (Finset.sum_congr rfl fun axis _ => ?_)
    have cancels : operator.measure cell * (1 / operator.measure cell) = 1 :=
      mul_one_div_cancel (valid.measure_pos active).ne'
    dsimp only [Function.comp]
    rw [smul_smul, cancels, one_smul, upper_flux tiles inside, lower_flux]
    abel
  · rename_i inactive
    symm
    rw [neg_eq_zero]
    -- The fluxes of an inactive cell are closed.
    refine Finset.sum_eq_zero fun axis _ => ?_
    have closedHere : ¬ operator.Open axis cell := fun opened => inactive opened.2.2
    have closedAbove : ¬ operator.Open axis (above axis cell) := fun opened => inactive (by
      have left := opened.2.1
      rwa [below_above] at left)
    rw [mismatch, patchFlux, oneFlux, oneFlux, sideFlux, sideFlux, sideFlux, if_neg closedHere, if_neg closedHere,
      if_neg closedAbove]
    simp

theorem outerFlux_eq (valid : Valid operator) :
    outerFlux operator domain layout flux = ∑ axis, ∑ cell ∈ cells domain,
      (oneFlux operator domain flux axis (above axis cell) - oneFlux operator domain flux axis cell) := by
  refine Finset.sum_congr rfl fun axis _ => ?_
  rw [sum_differences]
  refine congrArg₂ _ (Finset.sum_congr rfl fun cell listed => ?_) (Finset.sum_congr rfl fun cell listed => ?_)
  · obtain ⟨inside, -⟩ := Finset.mem_filter.mp listed
    rw [valid.faceFlux_eq, returned, Except.toOption, Option.getD_some, upper_flux tiles (mem_cells.mp inside)]
  · obtain ⟨inside, bottom⟩ := Finset.mem_filter.mp listed
    have outside : ¬ domain.Contains (below axis cell) := fun contains => by
      have low := (contains.2 axis).1
      rw [below_axis] at low
      omega
    rw [valid.faceFlux_eq, returned, Except.toOption, Option.getD_some, lower_flux,
      mismatch_eq tiles valid (mem_cells.mp inside), if_neg fun all => outside all.1, add_zero]

theorem conserves_iff (valid : Valid operator) :
    Conserves operator domain layout flux ↔
      ∑ axis, ∑ cell ∈ cells domain, mismatch operator domain layout flux axis cell = 0 := by
  have weighted : ∑ cell ∈ (cells domain).filter (fun cell => operator.active cell = true),
        operator.measure cell • returned ((operator.withFlux flux).assembleResidual layout cell) =
      -∑ cell ∈ cells domain, ∑ axis, (oneFlux operator domain flux axis (above axis cell) -
        oneFlux operator domain flux axis cell - mismatch operator domain layout flux axis cell) := by
    rw [Finset.sum_filter, ← Finset.sum_neg_distrib]
    exact Finset.sum_congr rfl fun cell listed => weighted_residual tiles valid (mem_cells.mp listed)
  rw [Conserves, weighted, outerFlux_eq tiles valid, Finset.sum_comm, neg_inj]
  simp only [Finset.sum_sub_distrib]
  rw [sub_eq_self]

theorem mismatch_eq_zero (valid : Valid operator) (agree : AperturesAgree operator domain layout)
    (inside : domain.Contains cell) (axis : Fin d) : mismatch operator domain layout flux axis cell = 0 := by
  rw [mismatch_eq tiles valid inside]
  split
  · rename_i all
    rw [agree axis cell inside all.1 all.2.1 all.2.2, sub_self, mul_zero, zero_smul]
  · rfl

theorem conserves_of_agree (valid : Valid operator) (agree : AperturesAgree operator domain layout) :
    Conserves operator domain layout flux :=
  (conserves_iff tiles valid).mpr (Finset.sum_eq_zero fun axis _ =>
    Finset.sum_eq_zero fun _ listed => mismatch_eq_zero tiles valid agree (mem_cells.mp listed) axis)

theorem agree_of_conserves [Nontrivial V] (valid : Valid operator)
    (conserves : ∀ flux, Conserves operator domain layout flux) : AperturesAgree operator domain layout := by
  intro axis cell inside neighbour seam opened
  obtain ⟨vector, nonzero⟩ := exists_ne (0 : V)
  -- A flux through this face only.
  have zero := (conserves_iff tiles valid).mp (conserves fun other face =>
    if other = axis ∧ face = cell then vector else 0)
  have elsewhere (other : Fin d) (face : Index d) (known : face ∈ cells domain) (away : ¬ (other = axis ∧ face = cell)) :
      mismatch operator domain layout (fun other face => if other = axis ∧ face = cell then vector else 0) other face =
        0 := by
    rw [mismatch_eq tiles valid (mem_cells.mp known), if_neg away, smul_zero, ite_self]
  rw [Finset.sum_eq_single_of_mem axis (Finset.mem_univ axis),
    Finset.sum_eq_single_of_mem cell (mem_cells.mpr inside), mismatch_eq tiles valid inside,
    if_pos ⟨neighbour, seam, opened⟩, if_pos ⟨rfl, rfl⟩] at zero
  · have difference := (mul_eq_zero.mp ((smul_eq_zero.mp zero).resolve_right nonzero)).resolve_left
      (valid.baseFaceArea_pos axis).ne'
    exact sub_eq_zero.mp difference
  · exact fun face known differs => elsewhere axis face known fun same => differs same.2
  · exact fun other _ differs => Finset.sum_eq_zero fun face known => elsewhere other face known fun same => differs same.1

end

/-! Two cells in one dimension, in one patch or in one patch each. -/

def segment (low high : ℤ) : Box 1 := ⟨fun _ => low, fun _ => high⟩

theorem segment_contains {low high : ℤ} {cell : Index 1} :
    (segment low high).Contains cell ↔ low ≤ cell 0 ∧ cell 0 ≤ high := by
  refine ⟨fun inside => inside.2 0, fun bounds => ⟨?_, fun axis => ?_⟩⟩
  · rintro ⟨axis, empty⟩
    exact absurd (bounds.1.trans bounds.2) (not_le.mpr empty)
  · rw [Fin.eq_zero axis]
    exact bounds

def onePatch : List (Box 1) := [segment 0 1]

def twoPatches : List (Box 1) := [segment 0 0, segment 1 1]

theorem onePatch_tiles : Decomposition (segment 0 1) onePatch :=
  ⟨fun cell => by simp [onePatch], List.pairwise_singleton _ _⟩

theorem twoPatches_tiles : Decomposition (segment 0 1) twoPatches := by
  refine ⟨fun cell => ?_, ?_⟩
  · simp only [twoPatches, List.mem_cons, List.not_mem_nil, or_false, exists_eq_or_imp, exists_eq_left,
      segment_contains]
    omega
  · simp only [twoPatches, List.pairwise_cons, List.mem_singleton, forall_eq, List.not_mem_nil, false_implies,
      implies_true, List.Pairwise.nil, and_true, segment_contains]
    omega

/-- Two cut cells, with less and less of their faces covered. -/
def slopedOperator : MaskedOperator 1 ℚ ℚ :=
  ⟨⟨fun _ => 1, fun cell => if cell 0 = 0 then 8 / 3 else 8 / 5, fun cell _ => if cell 0 = 0 then 1 / 4 else 1 / 2,
      fun cell _ => if cell 0 = 0 then 1 / 2 else 3 / 4⟩, fun _ => true,
    ⟨segment 0 1, fun _ => false, fun _ => false⟩, fun _ _ => .ok 1⟩

theorem sloped_agree (layout : List (Box 1)) : AperturesAgree slopedOperator (segment 0 1) layout := by
  intro axis cell inside belowInside _ _
  obtain rfl := Fin.eq_zero axis
  have first := (segment_contains.mp belowInside).1
  have last := (segment_contains.mp inside).2
  have under : below 0 cell 0 = cell 0 - 1 := Function.update_self ..
  rw [under] at first
  simp only [slopedOperator, under, if_neg (show cell 0 ≠ 0 by omega), if_pos (show cell 0 - 1 = 0 by omega)]

theorem sloped_valid : Valid slopedOperator where
  spacing _ := one_pos
  fraction cell _ := by
    dsimp only [slopedOperator]
    split <;> norm_num
  lower cell _ := by
    dsimp only [slopedOperator]
    split <;> norm_num
  upper cell _ := by
    dsimp only [slopedOperator]
    split <;> norm_num

/-- The samples of a level set that is negative everywhere, and bends. -/
def bentSamples (index : ℤ) : ℚ := if index = -1 then -9 else -1

def bentFractions (cell : Index 1) : CutCellFractions ℚ :=
  cutCellFractionsFromPhiCell (1 / 1000) bentSamples (cell 0)

/-- The metric of the level set, and a flux of one. -/
def bentOperator : MaskedOperator 1 ℚ ℚ :=
  ⟨⟨fun _ => 1, fun cell => 1 / (bentFractions cell).volumeFraction, fun cell _ => (bentFractions cell).faceLower,
      fun cell _ => (bentFractions cell).faceUpper⟩, fun _ => true,
    ⟨segment 0 1, fun _ => false, fun _ => false⟩, fun _ _ => .ok 1⟩

/-- Two decompositions of a domain give one residual that conserves every flux
exactly when the apertures of both agree between their patches. -/
theorem embedded_transport_exact_iff [Nontrivial V] {operator : MaskedOperator d K V} (valid : Valid operator)
    {domain : Box d} {first second : List (Box d)} (firstTiles : Decomposition domain first)
    (secondTiles : Decomposition domain second) :
    (∀ flux, Exact operator domain first second flux) ↔
      AperturesAgree operator domain first ∧ AperturesAgree operator domain second := by
  constructor
  · intro exact
    exact ⟨agree_of_conserves firstTiles valid fun flux => (exact flux).first,
      agree_of_conserves secondTiles valid fun flux => (exact flux).second⟩
  · rintro ⟨firstAgree, secondAgree⟩ flux
    have lower {layout : List (Box d)} (tiles : Decomposition domain layout)
        (agree : AperturesAgree operator domain layout) {cell : Index d} (inside : domain.Contains cell) (axis : Fin d) :
        operator.patchFlux flux (patchOf layout cell) axis cell = oneFlux operator domain flux axis cell :=
      sub_eq_zero.mp (mismatch_eq_zero tiles valid agree inside axis)
    refine ⟨fun cell inside active => ?_, conserves_of_agree firstTiles valid firstAgree,
      conserves_of_agree secondTiles valid secondAgree⟩
    rw [assembleResidual, assembleResidual, valid.residual_eq _ active, valid.residual_eq _ active]
    refine congrArg (fun sum => Except.ok (-List.sum sum)) (List.map_congr_left fun axis _ => ?_)
    rw [upper_flux firstTiles inside, upper_flux secondTiles inside, lower firstTiles firstAgree inside,
      lower secondTiles secondAgree inside]

/-- In two cut cells the residual of a growing flux is the same in one and in two patches, and conserved. -/
theorem sloped_transport_exact : Exact slopedOperator (segment 0 1) onePatch twoPatches fun _ face => face 0 + 3 :=
  (embedded_transport_exact_iff sloped_valid onePatch_tiles twoPatches_tiles).mpr
    ⟨sloped_agree onePatch, sloped_agree twoPatches⟩ fun _ face => face 0 + 3

/-- A bent level set gives another residual once its cells are in two patches. -/
theorem bent_residual_differs : Decomposition (segment 0 1) onePatch ∧ Decomposition (segment 0 1) twoPatches ∧
    bentOperator.assembleResidual onePatch (fun _ => 1) ≠ bentOperator.assembleResidual twoPatches (fun _ => 1) :=
  ⟨onePatch_tiles, twoPatches_tiles, by decide +kernel⟩

end Pops.EmbeddedTransport
