import Pops.CellTransfer
import Pops.FaceTransferProofs
import Pops.TemporalInterpolation

/-!
What prepared transfers read. Preparation checks one source box, computed from
the corners of the destination region. Floor division is monotone, so the box
bounds the parents of every index of the region, and its widening the stencils.
The face transfer also visits the siblings of a face's child, whose indices no
check has seen: it stays inside as long as those are `int` values.
-/
namespace Pops.CellTransfer
open Function MixedRadix
open FaceTransfer (IndexMapping parentOf childOf radix raise IsChild childCell floorDivPositive ceilDivPositive
  checkedTransferAdd_ok le_ceilDivPositive)

variable {K : Type} [Field K] [LinearOrder K] {d : ℕ} {ratio : RefinementRatio d} {mapping : IndexMapping d}

theorem produced_congr (transfer : PreparedTransfer d) {source other : CellSource K d} (index : Index d) (component : ℤ)
    (same : ∀ read ∈ transfer.reads index, source read (transfer.components.sourceBegin + component) =
      other read (transfer.components.sourceBegin + component)) :
    transfer.produced source index component = transfer.produced other index component := by
  have linear (listed : ∀ read ∈ interpolateReads transfer.ratio transfer.mapping index,
      source read (transfer.components.sourceBegin + component) =
        other read (transfer.components.sourceBegin + component)) :
      interpolateCell transfer.ratio transfer.mapping source index (transfer.components.sourceBegin + component) =
        interpolateCell transfer.ratio transfer.mapping other index (transfer.components.sourceBegin + component) := by
    simp only [interpolateReads, linearStencil, List.mem_cons, List.mem_flatMap, List.mem_filter, List.mem_finRange,
      true_and, decide_eq_true_eq] at listed
    simp only [interpolateCell]
    rw [listed _ (.inl rfl)]
    congr 1
    refine Finset.sum_congr rfl fun axis _ => ?_
    split
    · rfl
    · rename_i refined
      rw [limitedSlope, limitedSlope, listed _ (.inl rfl), listed _ (.inr ⟨axis, refined, by simp⟩),
        listed (raise (parentOf transfer.ratio transfer.mapping index) axis) (.inr ⟨axis, refined, by simp⟩)]
  obtain ⟨kind, ratio, mapping, components, sourceView, destination, region⟩ := transfer
  cases kind with
  | conservativeRestriction =>
    simp only [PreparedTransfer.reads, restrictReads, List.mem_cons, List.mem_map] at same
    simp only [PreparedTransfer.produced, restrictCell]
    rw [same _ (.inl rfl)]
    congr 3
    exact List.map_congr_left fun child listed => by rw [same _ (.inr ⟨child, listed, rfl⟩)]
  | linearProlongation => exact linear same
  | coarseFineGhostInterpolation => exact linear same
  | constantInjection => exact same _ List.mem_cons_self
  | fifthOrderCoarseFineGhostInterpolation =>
    simp only [PreparedTransfer.reads, fifthOrderReads, List.mem_map, List.mem_range] at same
    simp only [PreparedTransfer.produced, interpolateFifthOrderCell]
    exact Finset.sum_congr rfl fun ordinal member => by
      rw [same _ ⟨ordinal, Finset.mem_range.mp member, rfl⟩]
  | nodeMultilinearProlongation =>
    simp only [PreparedTransfer.reads, nodeReads, List.mem_map, List.mem_range] at same
    simp only [PreparedTransfer.produced, interpolateNode]
    exact Finset.sum_congr rfl fun corner member => by
      rw [same _ ⟨corner, Finset.mem_range.mp member, rfl⟩]
  | divergencePreservingFaceProlongation => exact linear same

omit [Field K] [LinearOrder K] in
theorem checkedTransferMultiply_ok {value multiplier product : ℤ} {operation : String}
    (ran : checkedTransferMultiply value multiplier operation = .ok product) : product = value * multiplier := by
  simp only [checkedTransferMultiply, bind_ok, throwIf_ok, unit_exists, pure_ok] at ran
  exact ran.2.symm

/-- How far `interpolation_source_box` widens an axis. -/
def widening (ratio : RefinementRatio d) (radius : ℤ) (axis : Fin d) : ℤ :=
  if ratio axis > 1 ∧ radius > 0 then radius else 0

variable {region box : Box d} {components : ComponentRange} {transfer : PreparedTransfer d}

theorem interpolationSourceBox_ok {radius : ℤ} (ran : interpolationSourceBox region ratio mapping radius = .ok box)
    (axis : Fin d) :
    FitsInt (box.lo axis) ∧ FitsInt (box.hi axis) ∧
      box.lo axis = mapping.coarseOrigin axis + (region.lo axis - mapping.fineOrigin axis) / ratio axis -
        widening ratio radius axis ∧
      box.hi axis = mapping.coarseOrigin axis + (region.hi axis - mapping.fineOrigin axis) / ratio axis +
        widening ratio radius axis := by
  simp only [interpolationSourceBox, bind_ok, pure_ok, axes_ok, checkedIndex_ok] at ran
  obtain ⟨bounds, each, rfl⟩ := ran
  obtain ⟨lower, atLower, upper, atUpper, low, atLow, high, atHigh, _, ⟨lowFits, rfl⟩, _, ⟨highFits, rfl⟩, same⟩ := each axis
  rw [floorDivPositive, floorDiv_eq _ (ratio.pos axis)] at atLower atUpper
  have first := checkedTransferAdd_ok atLower
  have second := checkedTransferAdd_ok atUpper
  have third := checkedTransferAdd_ok atLow
  have fourth := checkedTransferAdd_ok atHigh
  simp only [← same, widening]
  refine ⟨lowFits, highFits, ?_, ?_⟩
  · rw [third, first]
    ring
  · rw [fourth, second]

theorem nodeInterpolationSourceBox_ok (ran : nodeInterpolationSourceBox region ratio mapping = .ok box)
    (axis : Fin d) :
    FitsInt (box.lo axis) ∧ FitsInt (box.hi axis) ∧
      box.lo axis = mapping.coarseOrigin axis + (region.lo axis - mapping.fineOrigin axis) / ratio axis ∧
      box.hi axis = mapping.coarseOrigin axis + ceilDivPositive (region.hi axis - mapping.fineOrigin axis) (ratio axis) := by
  simp only [nodeInterpolationSourceBox, bind_ok, pure_ok, axes_ok, checkedIndex_ok] at ran
  obtain ⟨bounds, each, rfl⟩ := ran
  obtain ⟨lower, atLower, upper, atUpper, _, ⟨lowFits, rfl⟩, _, ⟨highFits, rfl⟩, same⟩ := each axis
  rw [floorDivPositive, floorDiv_eq _ (ratio.pos axis)] at atLower
  simp only [← same]
  exact ⟨lowFits, highFits, checkedTransferAdd_ok atLower, checkedTransferAdd_ok atUpper⟩

theorem refinedSourceBox_ok (ran : refinedSourceBox region ratio mapping = .ok box) (axis : Fin d) :
    FitsInt (box.lo axis) ∧ FitsInt (box.hi axis) ∧
      box.lo axis = mapping.fineOrigin axis + (region.lo axis - mapping.coarseOrigin axis) * ratio axis ∧
      box.hi axis = mapping.fineOrigin axis + (region.hi axis - mapping.coarseOrigin axis) * ratio axis +
        (ratio axis - 1) := by
  simp only [refinedSourceBox, bind_ok, pure_ok, axes_ok, checkedIndex_ok] at ran
  obtain ⟨bounds, each, rfl⟩ := ran
  obtain ⟨_, lowScaled, _, highScaled, _, atLower, _, atUpper, _, atLast, _, ⟨lowFits, rfl⟩, _, ⟨highFits, rfl⟩, same⟩ := each axis
  simp only [← same]
  refine ⟨lowFits, highFits, ?_, ?_⟩
  · rw [checkedTransferAdd_ok atLower, checkedTransferMultiply_ok lowScaled]
  · rw [checkedTransferAdd_ok atLast, checkedTransferAdd_ok atUpper, checkedTransferMultiply_ok highScaled]

variable {region : Box d} {index : Index d}

theorem parentOf_eq {axis : Fin d} {low high : ℤ} (lowFits : FitsInt low) (highFits : FitsInt high)
    (above : low ≤ mapping.coarseOrigin axis + (index axis - mapping.fineOrigin axis) / ratio axis)
    (below : mapping.coarseOrigin axis + (index axis - mapping.fineOrigin axis) / ratio axis ≤ high) :
    parentOf ratio mapping index axis =
      mapping.coarseOrigin axis + (index axis - mapping.fineOrigin axis) / ratio axis := by
  rw [parentOf, floorDivPositive, floorDiv_eq _ (ratio.pos axis)]
  exact castInt_of_fits (lowFits.between highFits above below)

theorem childOf_eq (index : Index d) (axis : Fin d) :
    childOf ratio mapping index axis = (index axis - mapping.fineOrigin axis) % ratio axis := by
  have positive := ratio.pos axis
  have low := Int.emod_nonneg (index axis - mapping.fineOrigin axis) positive.ne'
  have high := Int.emod_lt_of_pos (index axis - mapping.fineOrigin axis) positive
  have split := Int.mul_ediv_add_emod (index axis - mapping.fineOrigin axis) (ratio axis)
  simp only [childOf]
  rw [floorDivPositive, floorDiv_eq _ positive, show index axis - mapping.fineOrigin axis -
    (index axis - mapping.fineOrigin axis) / ratio axis * ratio axis =
      (index axis - mapping.fineOrigin axis) % ratio axis by linarith]
  exact castInt_of_fits (by
    have bound := ratio.bounded axis
    unfold FitsInt intMin intMax at *
    omega)

theorem parent_between (inside : index ∈ region.cells) (axis : Fin d) :
    (region.lo axis - mapping.fineOrigin axis) / ratio axis ≤ (index axis - mapping.fineOrigin axis) / ratio axis ∧
      (index axis - mapping.fineOrigin axis) / ratio axis ≤ (region.hi axis - mapping.fineOrigin axis) / ratio axis := by
  have bounds := Box.mem_cells.mp inside axis
  exact ⟨Int.ediv_le_ediv (ratio.pos axis) (by omega), Int.ediv_le_ediv (ratio.pos axis) (by omega)⟩

theorem widening_nonneg (ratio : RefinementRatio d) (radius : ℤ) (axis : Fin d) : 0 ≤ widening ratio radius axis := by
  unfold widening
  split <;> omega

theorem interpolation_inside {box : Box d} {radius : ℤ}
    (ran : interpolationSourceBox region ratio mapping radius = .ok box) (inside : index ∈ region.cells)
    {read : Index d} (near : ∀ axis, |read axis - parentOf ratio mapping index axis| ≤ widening ratio radius axis) :
    read ∈ box.cells := by
  rw [Box.mem_cells]
  intro axis
  obtain ⟨lowFits, highFits, low, high⟩ := interpolationSourceBox_ok ran axis
  have between := @parent_between _ ratio mapping _ _ inside axis
  have wide := widening_nonneg ratio radius axis
  have exact := @parentOf_eq _ ratio mapping index axis _ _ lowFits highFits (by omega) (by omega)
  have shift := abs_le.mp (near axis)
  omega

theorem lowered_near (parent : Index d) {axis : Fin d} (refined : ratio axis ≠ 1) (other : Fin d) :
    |lowered parent axis other - parent other| ≤ widening ratio 1 other := by
  have wide : 1 < ratio axis := lt_of_le_of_ne (ratio.positive axis) (Ne.symm refined)
  by_cases same : other = axis
  · subst same
    simp [lowered, widening, wide]
  · simp [lowered, same, widening_nonneg]

theorem raise_near (parent : Index d) {axis : Fin d} (refined : ratio axis ≠ 1) (other : Fin d) :
    |raise parent axis other - parent other| ≤ widening ratio 1 other := by
  have wide : 1 < ratio axis := lt_of_le_of_ne (ratio.positive axis) (Ne.symm refined)
  by_cases same : other = axis
  · subst same
    simp [raise, widening, wide]
  · simp [raise, same, widening_nonneg]

theorem stencilDigit_lt (ratio : RefinementRatio d) (ordinal : ℕ) (axis : Fin d) :
    stencilDigit ratio ordinal axis < stencilRadix ratio axis := by
  refine decode_lt (fun axis _ => ?_) (List.mem_finRange axis) ..
  unfold stencilRadix
  split <;> omega

theorem stencilIndex_near (parent : Index d) (ordinal : ℕ) (axis : Fin d) :
    |stencilIndex ratio parent (stencilDigit ratio ordinal) axis - parent axis| ≤ widening ratio 2 axis := by
  by_cases plain : ratio axis = 1
  · simp [stencilIndex, plain, widening_nonneg]
  · have wide : 1 < ratio axis := lt_of_le_of_ne (ratio.positive axis) (Ne.symm plain)
    have bound := stencilDigit_lt ratio ordinal axis
    rw [stencilRadix, if_neg plain] at bound
    rw [stencilIndex, if_neg plain, widening, if_pos ⟨wide, by norm_num⟩, abs_le]
    constructor <;> omega

theorem next_le_ceil {numerator bound denominator : ℤ} (positive : 0 < denominator) (below : numerator ≤ bound)
    (left : numerator % denominator ≠ 0) : numerator / denominator + 1 ≤ ceilDivPositive bound denominator := by
  have split := Int.mul_ediv_add_emod numerator denominator
  have rest := Int.emod_nonneg numerator positive.ne'
  have whole := Int.mul_ediv_add_emod bound denominator
  have boundRest := Int.emod_nonneg bound positive.ne'
  have mono : numerator / denominator ≤ bound / denominator := Int.ediv_le_ediv positive below
  have rounded := le_ceilDivPositive bound positive
  rcases mono.lt_or_eq with less | same
  · omega
  · have more : bound % denominator ≠ 0 := by
      intro zero
      rw [same] at split
      have strict : 0 < numerator % denominator := lt_of_le_of_ne rest (Ne.symm left)
      linarith
    unfold ceilDivPositive
    rw [same]
    simp only [Int.tdiv_eq_ediv, Int.tmod_eq_emod, Int.sign_eq_one_of_pos positive]
    split <;> split <;> omega

theorem cornerBit_cases (child : Index d) (corner : ℕ) (axis : Fin d) :
    cornerBit child corner axis = 0 ∨ cornerBit child corner axis = 1 ∧ child axis ≠ 0 := by
  unfold cornerBit
  by_cases active : axis ∈ activeAxes child
  · have two (other : Fin d) (_ : other ∈ activeAxes child) : 0 < (fun _ : Fin d => 2) other := Nat.two_pos
    have bound := decode_lt two active corner fun _ => 0
    have moved : child axis ≠ 0 := by simpa [activeAxes] using active
    omega
  · exact .inl (decode_of_not_mem active ..)

theorem node_inside {box : Box d} (ran : nodeInterpolationSourceBox region ratio mapping = .ok box)
    (inside : index ∈ region.cells) (corner : ℕ) :
    cornerIndex (parentOf ratio mapping index) (childOf ratio mapping index) corner ∈ box.cells := by
  rw [Box.mem_cells]
  intro axis
  obtain ⟨lowFits, highFits, low, high⟩ := nodeInterpolationSourceBox_ok ran axis
  have between := @parent_between _ ratio mapping _ _ inside axis
  have rounded := le_ceilDivPositive (region.hi axis - mapping.fineOrigin axis) (ratio.pos axis)
  have exact := @parentOf_eq _ ratio mapping index axis _ _ lowFits highFits (by omega) (by omega)
  rw [cornerIndex, exact]
  rcases cornerBit_cases (childOf ratio mapping index) corner axis with zero | ⟨one, moved⟩
  · rw [zero]
    omega
  · rw [childOf_eq] at moved
    have bounds := Box.mem_cells.mp inside axis
    have next := @next_le_ceil _ (region.hi axis - mapping.fineOrigin axis) _ (ratio.pos axis) (by omega) moved
    rw [one]
    omega

theorem mem_children {child : Index d} (listed : child ∈ children ratio) : IsChild ratio child := by
  simp only [children, List.mem_map, List.mem_range] at listed
  obtain ⟨ordinal, -, rfl⟩ := listed
  refine FaceTransfer.digits_isChild fun axis => decode_lt (fun axis _ => ?_) (List.mem_finRange axis) ..
  have positive := ratio.pos axis
  unfold radix
  omega

theorem restrict_inside {box : Box d} (ran : refinedSourceBox region ratio mapping = .ok box)
    (inside : index ∈ region.cells) {child : Index d} (isChild : IsChild ratio child) :
    fineChild ratio mapping index child ∈ box.cells := by
  rw [Box.mem_cells]
  intro axis
  obtain ⟨lowFits, highFits, low, high⟩ := refinedSourceBox_ok ran axis
  have bounds := Box.mem_cells.mp inside axis
  have positive := ratio.pos axis
  have first : (region.lo axis - mapping.coarseOrigin axis) * ratio axis ≤
      (index axis - mapping.coarseOrigin axis) * ratio axis := Int.mul_le_mul_of_nonneg_right (by omega) positive.le
  have last : (index axis - mapping.coarseOrigin axis) * ratio axis ≤
      (region.hi axis - mapping.coarseOrigin axis) * ratio axis := Int.mul_le_mul_of_nonneg_right (by omega) positive.le
  have digit := isChild axis
  rw [fineChild, fineBase, castInt_of_fits (lowFits.between highFits (by omega) (by omega))]
  omega

theorem prepare_ok {provider : TransferProvider} {source destination : FieldView d}
    (prepared : provider.prepare source destination region ratio mapping components = .ok transfer) :
    ∃ view required, source.validate = .ok view ∧ requiredSource provider.kind region ratio mapping = .ok required ∧
      required.cells ⊆ view.box.cells ∧ 0 ≤ components.sourceBegin ∧
      components.sourceBegin + components.count ≤ source.ncomp ∧
      transfer = ⟨provider.kind, ratio, mapping, components, source, destination, region⟩ := by
  simp only [TransferProvider.prepare, bind_ok, throwIf_ok, unit_exists, pure_ok] at prepared
  obtain ⟨-, -, view, validated, destinationView, -, -, components, -, required, ran, contains, rfl⟩ := prepared
  rw [FieldView.validateComponents, throwIf_ok, not_or, not_or, not_or, not_or] at components
  exact ⟨view, required, validated, ran, (Box.containsBox_iff.mp (not_not.mp contains)).2, not_lt.mp components.1,
    by have := components.2.2.2.1; omega, rfl⟩

theorem prepared_reads_inside {provider : TransferProvider} {source destination : FieldView d}
    {view : ValidatedView d}
    (prepared : provider.prepare source destination region ratio mapping components = .ok transfer)
    (validated : source.validate = .ok view) (inside : index ∈ region.cells) {read : Index d}
    (listed : read ∈ transfer.reads index) : read ∈ view.box.cells := by
  obtain ⟨checked, required, same, ran, contained, -, -, rfl⟩ := prepare_ok prepared
  obtain rfl := Except.ok.inj (same.symm.trans validated)
  refine contained ?_
  have linear (ran : interpolationSourceBox region ratio mapping 1 = .ok required)
      (listed : read ∈ interpolateReads ratio mapping index) : read ∈ required.cells := by
    refine interpolation_inside ran inside fun axis => ?_
    simp only [interpolateReads, linearStencil, List.mem_cons, List.mem_flatMap, List.mem_filter, List.mem_finRange,
      true_and, decide_eq_true_eq, List.not_mem_nil, or_false] at listed
    rcases listed with rfl | ⟨along, refined, rfl | rfl | rfl⟩
    · simp [widening_nonneg]
    · exact lowered_near _ refined axis
    · simp [widening_nonneg]
    · exact raise_near _ refined axis
  obtain ⟨kind, center⟩ := provider
  cases kind with
  | conservativeRestriction =>
    simp only [PreparedTransfer.reads, restrictReads, List.mem_cons, List.mem_map] at listed
    rcases listed with rfl | ⟨child, isChild, rfl⟩
    · have first := @restrict_inside _ ratio mapping _ _ _ ran inside (fun _ => 0) fun axis => ⟨le_rfl, ratio.pos axis⟩
      simpa [fineChild] using first
    · exact restrict_inside ran inside (mem_children isChild)
  | linearProlongation => exact linear ran listed
  | coarseFineGhostInterpolation => exact linear ran listed
  | constantInjection =>
    refine interpolation_inside ran inside fun axis => ?_
    rw [List.mem_singleton.mp listed]
    simp [widening_nonneg]
  | fifthOrderCoarseFineGhostInterpolation =>
    simp only [PreparedTransfer.reads, fifthOrderReads, List.mem_map] at listed
    obtain ⟨ordinal, -, rfl⟩ := listed
    exact interpolation_inside ran inside (stencilIndex_near _ ordinal)
  | nodeMultilinearProlongation =>
    simp only [PreparedTransfer.reads, nodeReads, List.mem_map] at listed
    obtain ⟨corner, -, rfl⟩ := listed
    exact node_inside ran inside corner
  | divergencePreservingFaceProlongation => exact linear ran listed

end Pops.CellTransfer

namespace Pops.FaceTransfer
open Function MixedRadix
open CellTransfer (parentOf_eq childOf_eq next_le_ceil)

variable {K : Type} [Field K] [LinearOrder K] {d : ℕ}

section Reads
variable (ratio : RefinementRatio d) (mapping : IndexMapping d)

/-- What `transverse_boundary_value_` reads: the normal axis of the field, and the index. -/
def transverseReads (normal : Fin d) (parent : Index d) (normalFace : ℤ) : List (Fin d × Index d) :=
  let center := update parent normal normalFace
  (normal, center) :: ((List.finRange d).filter fun axis => axis ≠ normal ∧ ratio axis ≠ 1).flatMap fun axis =>
    [(normal, update center axis (center axis - 1)), (normal, center), (normal, update center axis (center axis + 1))]

/-- What `base_face_value_` reads. -/
def baseFaceReads (normal : Fin d) (fineFace : Index d) : List (Fin d × Index d) :=
  let parent := parentOf ratio mapping fineFace
  transverseReads ratio normal parent (parent normal) ++
    if childOf ratio mapping fineFace normal = 0 then [] else transverseReads ratio normal parent (parent normal + 1)

/-- What `coarse_divergence_` reads. -/
def coarseDivergenceReads (parent : Index d) : List (Fin d × Index d) :=
  (List.finRange d).flatMap fun axis => [(axis, raise parent axis), (axis, parent)]

/-- What `divergence_error_` reads. -/
def divergenceErrorReads (parent child : Index d) : List (Fin d × Index d) :=
  let fine := fineCell ratio mapping parent child
  coarseDivergenceReads parent ++ (List.finRange d).flatMap fun axis =>
    baseFaceReads ratio mapping axis (raise fine axis) ++ baseFaceReads ratio mapping axis fine

/-- A face whose correction visits the siblings of its child. -/
def Corrected (normal : Fin d) (fineFace : Index d) : Prop :=
  childOf ratio mapping fineFace normal ≠ 0 ∧
    ∀ axis < normal, childOf ratio mapping fineFace axis = ratio axis - 1

instance (normal : Fin d) (fineFace : Index d) : Decidable (Corrected ratio mapping normal fineFace) :=
  inferInstanceAs (Decidable (_ ∧ _))

/-- What `divergence_correction_` reads. -/
def divergenceCorrectionReads (normal : Fin d) (fineFace : Index d) : List (Fin d × Index d) :=
  let child := childOf ratio mapping fineFace
  if Corrected ratio mapping normal fineFace then
    (List.range ((child normal).toNat * volume (radix ratio) (axesBelow normal))).flatMap fun ordinal =>
      divergenceErrorReads ratio mapping (parentOf ratio mapping fineFace) (prefixSample ratio normal child ordinal)
  else []

/-- What `operator()` reads for a destination face. -/
def faceReads (normal : Fin d) (fineFace : Index d) : List (Fin d × Index d) :=
  baseFaceReads ratio mapping normal fineFace ++ divergenceCorrectionReads ratio mapping normal fineFace

end Reads

variable {ratio : RefinementRatio d} {mapping : IndexMapping d} {source other : FaceSource K d} {component : ℤ}

/-- Two fields have the same values at what is read. -/
def Agree (source other : FaceSource K d) (component : ℤ) (reads : List (Fin d × Index d)) : Prop :=
  ∀ read ∈ reads, source read.1 read.2 component = other read.1 read.2 component

omit [Field K] [LinearOrder K] in
theorem agree_append {first last : List (Fin d × Index d)} :
    Agree source other component (first ++ last) ↔
      Agree source other component first ∧ Agree source other component last := List.forall_mem_append

variable {normal : Fin d} {fineFace : Index d}

theorem transverseBoundaryValue_agree {parent child : Index d} {normalFace : ℤ}
    (same : Agree source other component (transverseReads ratio normal parent normalFace)) :
    transverseBoundaryValue ratio source normal parent child normalFace component =
      transverseBoundaryValue ratio other normal parent child normalFace component := by
  simp only [Agree, transverseReads, List.mem_cons, List.mem_flatMap, List.mem_filter, List.mem_finRange, true_and,
    decide_eq_true_eq, List.not_mem_nil, or_false] at same
  simp only [transverseBoundaryValue]
  rw [same _ (.inl rfl)]
  congr 1
  refine Finset.sum_congr rfl fun axis _ => ?_
  split
  · rfl
  · rename_i refined
    rw [not_or] at refined
    rw [transverseSlope, transverseSlope, same _ (.inr ⟨axis, refined, .inl rfl⟩), same _ (.inl rfl),
      same _ (.inr ⟨axis, refined, .inr (.inr rfl)⟩)]

theorem baseFaceValue_agree (same : Agree source other component (baseFaceReads ratio mapping normal fineFace)) :
    baseFaceValue ratio mapping source normal fineFace component =
      baseFaceValue ratio mapping other normal fineFace component := by
  obtain ⟨lower, upper⟩ := agree_append.mp same
  simp only [baseFaceValue]
  rw [transverseBoundaryValue_agree lower]
  split
  · rfl
  · rename_i inner
    rw [if_neg inner] at upper
    rw [transverseBoundaryValue_agree upper]

theorem divergenceError_agree {parent child : Index d}
    (same : Agree source other component (divergenceErrorReads ratio mapping parent child)) :
    divergenceError ratio mapping source parent child component =
      divergenceError ratio mapping other parent child component := by
  obtain ⟨coarse, fine⟩ := agree_append.mp same
  simp only [Agree, coarseDivergenceReads, List.mem_flatMap, List.mem_finRange, true_and, List.mem_cons,
    List.not_mem_nil, or_false] at coarse
  simp only [Agree, List.mem_flatMap, List.mem_finRange, true_and, List.mem_append] at fine
  rw [divergenceError, divergenceError]
  congr 1
  · exact Finset.sum_congr rfl fun axis _ => by
      rw [coarse (axis, raise parent axis) ⟨axis, .inl rfl⟩, coarse (axis, parent) ⟨axis, .inr rfl⟩]
  · refine Finset.sum_congr rfl fun axis _ => ?_
    rw [baseFaceValue_agree fun read listed => fine read ⟨axis, .inl listed⟩,
      baseFaceValue_agree fun read listed => fine read ⟨axis, .inr listed⟩]

theorem faceValue_agree (same : Agree source other component (faceReads ratio mapping normal fineFace)) :
    faceValue ratio mapping source normal fineFace component =
      faceValue ratio mapping other normal fineFace component := by
  obtain ⟨base, correction⟩ := agree_append.mp same
  rw [faceValue, faceValue, baseFaceValue_agree base]
  congr 1
  simp only [divergenceCorrection]
  split
  · rfl
  · rename_i inner
    split
    · rfl
    · rename_i full
      push Not at full
      rw [divergenceCorrectionReads, if_pos ⟨inner, full⟩] at correction
      simp only [Agree, List.mem_flatMap, List.mem_range] at correction
      congr 1
      exact Finset.sum_congr rfl fun ordinal member => divergenceError_agree fun read listed =>
        correction read ⟨ordinal, Finset.mem_range.mp member, listed⟩

/-- The bounds `face_interpolation_source_box` computes on an axis. -/
def SourceBounds (ratio : RefinementRatio d) (mapping : IndexMapping d) (region : Box d) (normal axis : Fin d)
    (value : ℤ) : Prop :=
  let widening := if axis ≠ normal ∧ ratio axis > 1 then 1 else 0
  mapping.coarseOrigin axis + (region.lo axis - mapping.fineOrigin axis) / ratio axis - widening ≤ value ∧
    value ≤ mapping.coarseOrigin axis + (if axis = normal
      then ceilDivPositive (region.hi axis + 1 - mapping.fineOrigin axis) (ratio axis)
      else (region.hi axis - mapping.fineOrigin axis) / ratio axis) + widening

/-- The coarse cells that have a child in the region, axis by axis. -/
def Parental (ratio : RefinementRatio d) (mapping : IndexMapping d) (region : Box d) (axis : Fin d) (value : ℤ) : Prop :=
  mapping.coarseOrigin axis + (region.lo axis - mapping.fineOrigin axis) / ratio axis ≤ value ∧
    value ≤ mapping.coarseOrigin axis + (region.hi axis - mapping.fineOrigin axis) / ratio axis

variable {region : Box d}

theorem faceInterpolationSourceAxis_ok {faces : Box d} {normal axis : Fin d} {bounds : ℤ × ℤ}
    (ran : faceInterpolationSourceAxis faces normal ratio mapping axis = .ok bounds) :
    FitsInt bounds.1 ∧ FitsInt bounds.2 ∧
      bounds.1 = mapping.coarseOrigin axis + (faces.lo axis - mapping.fineOrigin axis) / ratio axis -
        (if axis ≠ normal ∧ ratio axis > 1 then 1 else 0) ∧
      bounds.2 = mapping.coarseOrigin axis + (if axis = normal
        then ceilDivPositive (faces.hi axis - mapping.fineOrigin axis) (ratio axis)
        else (faces.hi axis - mapping.fineOrigin axis) / ratio axis) +
          (if axis ≠ normal ∧ ratio axis > 1 then 1 else 0) := by
  simp only [faceInterpolationSourceAxis, bind_ok, pure_ok, checkedIndex_ok] at ran
  obtain ⟨lower, atLower, upper, atUpper, low, atLow, high, atHigh, _, ⟨lowFits, rfl⟩, _, ⟨highFits, rfl⟩, rfl⟩ := ran
  rw [floorDivPositive, floorDiv_eq _ (ratio.pos axis)] at atLower
  rw [floorDivPositive, floorDiv_eq _ (ratio.pos axis)] at atUpper
  refine ⟨lowFits, highFits, ?_, ?_⟩
  · rw [checkedTransferAdd_ok atLow, checkedTransferAdd_ok atLower]
    ring
  · rw [checkedTransferAdd_ok atHigh, checkedTransferAdd_ok atUpper]

/-- What the preparation has checked, axis by axis. -/
structure Checks (ratio : RefinementRatio d) (mapping : IndexMapping d) (region : Box d)
    (views : Fin d → ValidatedView d) : Prop where
  nonempty : ∀ axis, region.lo axis ≤ region.hi axis
  faces : ∀ axis, FitsInt (region.lo axis) ∧ FitsInt (region.hi axis + 1)
  fits : ∀ axis, FitsInt (mapping.coarseOrigin axis + (region.lo axis - mapping.fineOrigin axis) / ratio axis) ∧
    FitsInt (mapping.coarseOrigin axis + ceilDivPositive (region.hi axis + 1 - mapping.fineOrigin axis) (ratio axis))
  covers : ∀ normal index, (∀ axis, SourceBounds ratio mapping region normal axis (index axis)) →
    index ∈ (views normal).box.cells

theorem prepare_checks {source destination : Fin d → FieldView d} {views : Fin d → ValidatedView d}
    (prepared : prepare source destination region ratio mapping components = .ok transfer)
    (validated : ∀ normal, (source normal).validate = .ok (views normal)) :
    Checks ratio mapping region views ∧ transfer.ratio = ratio ∧ transfer.mapping = mapping ∧
      transfer.source = source ∧ transfer.components = components ∧
      (∀ normal, 0 ≤ components.sourceBegin ∧ components.sourceBegin + components.count ≤ (source normal).ncomp) ∧
      ∀ normal, transfer.destinationFaceRegions normal =
        ⟨region.lo, update region.hi normal (region.hi normal + 1)⟩ := by
  simp only [prepare, bind_ok, throwIf_ok, unit_exists, pure_ok, axes_ok] at prepared
  obtain ⟨-, nonempty, checked, each, -, -, rfl⟩ := prepared
  rw [Box.not_empty_iff] at nonempty
  have facts (normal : Fin d) :
      FitsInt (region.hi normal + 1) ∧ FitsInt (region.lo normal) ∧
      (checked normal).faceRegion = ⟨region.lo, update region.hi normal (region.hi normal + 1)⟩ ∧
      (0 ≤ components.sourceBegin ∧ components.sourceBegin + components.count ≤ (source normal).ncomp) ∧
      ∃ required, faceInterpolationSourceBox ⟨region.lo, update region.hi normal (region.hi normal + 1)⟩ normal ratio
        mapping = .ok required ∧ required.cells ⊆ (views normal).box.cells := by
    have ran := each normal
    simp only [prepareAxis, faceRegion, bind_ok, throwIf_ok, unit_exists, pure_ok, checkedIndex_ok] at ran
    obtain ⟨view, seen, destinationView, target, ranges, _, ⟨raised, added, _, ⟨upperFits, rfl⟩, rfl⟩, contains, required,
      box, inside, made⟩ := ran
    obtain rfl := checkedTransferAdd_ok added
    obtain rfl := Except.ok.inj (seen.symm.trans (validated normal))
    rw [FieldView.validateComponents, throwIf_ok, not_or, not_or, not_or, not_or] at ranges
    have start : _ ≤ region.lo normal := ((not_not.mp contains).2 normal).1
    have low := (FieldView.validate_box target normal).1.between upperFits start
      (by have := nonempty normal; omega)
    refine ⟨upperFits, low, by rw [← made], ⟨not_lt.mp ranges.1, by have := ranges.2.2.2.1; omega⟩, required, box, ?_⟩
    exact (Box.containsBox_iff.mp (not_not.mp inside)).2
  refine ⟨⟨nonempty, fun axis => ⟨(facts axis).2.1, (facts axis).1⟩, fun axis => ?_, fun normal index bounded => ?_⟩,
    rfl, rfl, rfl, rfl, fun normal => (facts normal).2.2.2.1, fun normal => (facts normal).2.2.1⟩
  · obtain ⟨required, box, -⟩ := (facts axis).2.2.2.2
    simp only [faceInterpolationSourceBox, bind_ok, pure_ok, axes_ok] at box
    obtain ⟨bounds, ran, rfl⟩ := box
    obtain ⟨lowFits, highFits, low, high⟩ := faceInterpolationSourceAxis_ok (ran axis)
    rw [low] at lowFits
    rw [high] at highFits
    simp only [ne_eq, not_true_eq_false, false_and, if_false, if_true, sub_zero, add_zero, update_self] at lowFits highFits
    exact ⟨lowFits, highFits⟩
  · obtain ⟨required, box, contained⟩ := (facts normal).2.2.2.2
    refine contained (Box.mem_cells.mpr fun axis => ?_)
    simp only [faceInterpolationSourceBox, bind_ok, pure_ok, axes_ok] at box
    obtain ⟨bounds, ran, rfl⟩ := box
    obtain ⟨-, -, low, high⟩ := faceInterpolationSourceAxis_ok (ran axis)
    have within := bounded axis
    simp only [SourceBounds] at within
    simp only [low, high]
    by_cases along : axis = normal
    · subst along
      simpa using within
    · simpa [along] using within

variable {views : Fin d → ValidatedView d} {normal : Fin d}

theorem floor_next_le_ceil (bound : ℤ) {denominator : ℤ} (positive : 0 < denominator) :
    bound / denominator + 1 ≤ ceilDivPositive (bound + 1) denominator := by
  by_cases left : bound % denominator + 1 = denominator
  · have rounded := le_ceilDivPositive (bound + 1) positive
    have split := Int.mul_ediv_add_emod bound denominator
    have next : (bound + 1) / denominator = bound / denominator + 1 := by
      rw [show bound + 1 = (bound / denominator + 1) * denominator by linarith]
      exact Int.mul_ediv_cancel _ positive.ne'
    omega
  · have rest := Int.emod_nonneg bound positive.ne'
    have small := Int.emod_lt_of_pos bound positive
    have split := Int.mul_ediv_add_emod bound denominator
    have short : bound % denominator + 1 < denominator := by omega
    have quotient : (bound + 1) / denominator = bound / denominator :=
      (Int.ediv_eq_iff_of_pos positive).mpr ⟨by linarith, by linarith⟩
    have moved : (bound + 1) % denominator ≠ 0 := by
      have whole := Int.mul_ediv_add_emod (bound + 1) denominator
      rw [quotient] at whole
      omega
    have next := next_le_ceil positive le_rfl moved
    rwa [quotient] at next

theorem transverseReads_bounded {parent : Index d} {normalFace : ℤ}
    (parental : ∀ axis, axis ≠ normal → Parental ratio mapping region axis (parent axis))
    (along : SourceBounds ratio mapping region normal normal normalFace) {read : Fin d × Index d}
    (listed : read ∈ transverseReads ratio normal parent normalFace) :
    read.1 = normal ∧ ∀ axis, SourceBounds ratio mapping region normal axis (read.2 axis) := by
  have centered (axis : Fin d) : SourceBounds ratio mapping region normal axis (update parent normal normalFace axis) := by
    by_cases same : axis = normal
    · subst same
      rwa [update_self]
    · obtain ⟨low, high⟩ := parental axis same
      rw [update_of_ne same]
      simp only [SourceBounds, same, if_false]
      constructor <;> split <;> omega
  have shifted (along : Fin d) (refined : along ≠ normal ∧ ratio along ≠ 1) (shift : ℤ) (one : |shift| ≤ 1) (axis : Fin d) :
      SourceBounds ratio mapping region normal axis
        (update (update parent normal normalFace) along (update parent normal normalFace along + shift) axis) := by
    by_cases same : axis = along
    · subst same
      obtain ⟨low, high⟩ := parental axis refined.1
      have wide : ratio axis > 1 := lt_of_le_of_ne (ratio.positive axis) (Ne.symm refined.2)
      have bound := abs_le.mp one
      rw [update_self, update_of_ne refined.1]
      simp only [SourceBounds, refined.1, ne_eq, not_false_eq_true, wide, and_self, if_true, if_false]
      omega
    · rw [update_of_ne same]
      exact centered axis
  simp only [transverseReads, List.mem_cons, List.mem_flatMap, List.mem_filter, List.mem_finRange, true_and,
    decide_eq_true_eq, List.not_mem_nil, or_false] at listed
  rcases listed with rfl | ⟨axis, refined, rfl | rfl | rfl⟩
  · exact ⟨rfl, centered⟩
  · exact ⟨rfl, shifted axis refined (-1) (by norm_num)⟩
  · exact ⟨rfl, centered⟩
  · exact ⟨rfl, shifted axis refined 1 (by norm_num)⟩

theorem baseFaceReads_bounded
    (parental : ∀ axis, axis ≠ normal → Parental ratio mapping region axis (parentOf ratio mapping fineFace axis))
    (along : SourceBounds ratio mapping region normal normal (parentOf ratio mapping fineFace normal))
    (next : childOf ratio mapping fineFace normal ≠ 0 → SourceBounds ratio mapping region normal normal (parentOf ratio mapping fineFace normal + 1))
    {read : Fin d × Index d} (listed : read ∈ baseFaceReads ratio mapping normal fineFace) :
    read.1 = normal ∧ ∀ axis, SourceBounds ratio mapping region normal axis (read.2 axis) := by
  rw [baseFaceReads, List.mem_append] at listed
  rcases listed with lower | upper
  · exact transverseReads_bounded parental along lower
  · split at upper
    · cases upper
    · rename_i inner
      exact transverseReads_bounded parental (next inner) upper

theorem sourceBounds_normal {value : ℤ} : SourceBounds ratio mapping region normal normal value ↔
    mapping.coarseOrigin normal + (region.lo normal - mapping.fineOrigin normal) / ratio normal ≤ value ∧
      value ≤ mapping.coarseOrigin normal +
        ceilDivPositive (region.hi normal + 1 - mapping.fineOrigin normal) (ratio normal) := by
  simp [SourceBounds]

theorem parental_bounds {value : ℤ} (parental : Parental ratio mapping region normal value) :
    SourceBounds ratio mapping region normal normal value ∧
      SourceBounds ratio mapping region normal normal (value + 1) := by
  obtain ⟨low, high⟩ := parental
  have next := floor_next_le_ceil (region.hi normal - mapping.fineOrigin normal) (ratio.pos normal)
  rw [show region.hi normal - mapping.fineOrigin normal + 1 = region.hi normal + 1 - mapping.fineOrigin normal by ring] at next
  simp only [sourceBounds_normal]
  exact ⟨⟨low, by omega⟩, ⟨by omega, by omega⟩⟩

theorem Checks.parental_fits (checks : Checks ratio mapping region views) {axis : Fin d} {value : ℤ}
    (parental : Parental ratio mapping region axis value) : FitsInt value ∧ FitsInt (value + 1) := by
  obtain ⟨lowFits, highFits⟩ := checks.fits axis
  obtain ⟨here, next⟩ := parental_bounds parental
  rw [sourceBounds_normal] at here next
  exact ⟨lowFits.between highFits here.1 here.2, lowFits.between highFits next.1 next.2⟩

/-- A destination face of a normal axis. -/
def IsFace (region : Box d) (normal : Fin d) (fineFace : Index d) : Prop :=
  fineFace ∈ (⟨region.lo, update region.hi normal (region.hi normal + 1)⟩ : Box d).cells

theorem IsFace.bounds (isFace : IsFace region normal fineFace) (axis : Fin d) :
    region.lo axis ≤ fineFace axis ∧ (axis ≠ normal → fineFace axis ≤ region.hi axis) ∧
      fineFace axis ≤ region.hi axis + 1 := by
  have within := Box.mem_cells.mp isFace axis
  by_cases along : axis = normal
  · subst along
    simp only [update_self] at within
    exact ⟨within.1, fun different => absurd rfl different, within.2⟩
  · simp only [update_of_ne along] at within
    exact ⟨within.1, fun _ => within.2, by omega⟩

/-- The parent of a destination face: across the normal axis a parent of the
region, along it within the rounded bounds. -/
theorem Checks.face_parent (checks : Checks ratio mapping region views) (isFace : IsFace region normal fineFace) :
    (∀ axis, parentOf ratio mapping fineFace axis =
      mapping.coarseOrigin axis + (fineFace axis - mapping.fineOrigin axis) / ratio axis) ∧
    (∀ axis, axis ≠ normal ∨ childOf ratio mapping fineFace axis ≠ 0 →
      Parental ratio mapping region axis (parentOf ratio mapping fineFace axis)) ∧
    SourceBounds ratio mapping region normal normal (parentOf ratio mapping fineFace normal) := by
  have exact (axis : Fin d) : parentOf ratio mapping fineFace axis =
      mapping.coarseOrigin axis + (fineFace axis - mapping.fineOrigin axis) / ratio axis := by
    obtain ⟨low, -, high⟩ := isFace.bounds axis
    have below : (region.lo axis - mapping.fineOrigin axis) / ratio axis ≤
        (fineFace axis - mapping.fineOrigin axis) / ratio axis := Int.ediv_le_ediv (ratio.pos axis) (by omega)
    have above : (fineFace axis - mapping.fineOrigin axis) / ratio axis ≤
        (region.hi axis + 1 - mapping.fineOrigin axis) / ratio axis := Int.ediv_le_ediv (ratio.pos axis) (by omega)
    have rounded := le_ceilDivPositive (region.hi axis + 1 - mapping.fineOrigin axis) (ratio.pos axis)
    exact parentOf_eq (checks.fits axis).1 (checks.fits axis).2 (by omega) (by omega)
  refine ⟨exact, fun axis condition => ?_, ?_⟩
  · obtain ⟨low, across, high⟩ := isFace.bounds axis
    have positive := ratio.pos axis
    rw [exact axis]
    refine ⟨by have := Int.ediv_le_ediv positive (show region.lo axis - mapping.fineOrigin axis ≤
      fineFace axis - mapping.fineOrigin axis by omega); omega, ?_⟩
    by_cases inner : fineFace axis ≤ region.hi axis
    · have := Int.ediv_le_ediv positive (show fineFace axis - mapping.fineOrigin axis ≤
        region.hi axis - mapping.fineOrigin axis by omega)
      omega
    · -- the last face of the region is not the first child of its parent
      have along : axis = normal := by
        by_contra different
        exact inner (across different)
      have moved := condition.resolve_left (not_not.mpr along)
      rw [childOf_eq] at moved
      have split := Int.mul_ediv_add_emod (fineFace axis - mapping.fineOrigin axis) (ratio axis)
      have rest := Int.emod_nonneg (fineFace axis - mapping.fineOrigin axis) positive.ne'
      have floor := (Int.le_ediv_iff_mul_le positive).mpr (show (fineFace axis - mapping.fineOrigin axis) / ratio axis *
        ratio axis ≤ region.hi axis - mapping.fineOrigin axis by rw [mul_comm]; omega)
      omega
  · obtain ⟨low, -, high⟩ := isFace.bounds normal
    have below := Int.ediv_le_ediv (ratio.pos normal) (show region.lo normal - mapping.fineOrigin normal ≤
      fineFace normal - mapping.fineOrigin normal by omega)
    have above := Int.ediv_le_ediv (ratio.pos normal) (show fineFace normal - mapping.fineOrigin normal ≤
      region.hi normal + 1 - mapping.fineOrigin normal by omega)
    have rounded := le_ceilDivPositive (region.hi normal + 1 - mapping.fineOrigin normal) (ratio.pos normal)
    rw [sourceBounds_normal, exact normal]
    omega

theorem Checks.divergenceErrorReads_bounded (checks : Checks ratio mapping region views) {parent child : Index d}
    (parental : ∀ axis, Parental ratio mapping region axis (parent axis)) (isChild : IsChild ratio child)
    (childFits : ∀ axis, FitsInt (childCell ratio mapping parent child axis)) {read : Fin d × Index d}
    (listed : read ∈ divergenceErrorReads ratio mapping parent child) (axis : Fin d) :
    SourceBounds ratio mapping region read.1 axis (read.2 axis) := by
  have fits (axis : Fin d) := checks.parental_fits (parental axis)
  have cell : fineCell ratio mapping parent child = childCell ratio mapping parent child :=
    funext fun axis => castInt_of_fits (childFits axis)
  have widened {normal axis : Fin d} (different : axis ≠ normal) {value : ℤ}
      (within : Parental ratio mapping region axis value) : SourceBounds ratio mapping region normal axis value := by
    obtain ⟨low, high⟩ := within
    simp only [SourceBounds, different, if_false]
    constructor <;> split <;> omega
  simp only [divergenceErrorReads, List.mem_append, coarseDivergenceReads, List.mem_flatMap, List.mem_finRange, true_and,
    List.mem_cons, List.not_mem_nil, or_false] at listed
  rcases listed with ⟨normal, rfl | rfl⟩ | ⟨normal, upper | lower⟩
  · by_cases same : axis = normal
    · subst same
      simpa [raise] using (parental_bounds (parental axis)).2
    · simpa [raise, same] using widened same (parental axis)
  · by_cases same : axis = normal
    · subst same
      exact (parental_bounds (parental axis)).1
    · exact widened same (parental axis)
  · rw [cell, raise_childCell] at upper
    split at upper
    · rename_i sibling
      obtain ⟨isParent, -⟩ := parent_and_child ratio mapping parent (raise child normal) (fun axis => (fits axis).1)
        (isChild_raise isChild sibling)
      obtain ⟨rfl, bounded⟩ := baseFaceReads_bounded (fun axis _ => by rw [isParent]; exact parental axis)
        (by rw [isParent]; exact (parental_bounds (parental normal)).1) (fun _ => by rw [isParent]; exact (parental_bounds (parental normal)).2) upper
      exact bounded axis
    · rename_i final
      have digit := isChild normal
      have positive := ratio.pos normal
      obtain ⟨isParent, isOffset⟩ := parent_and_child ratio mapping (raise parent normal)
        (update child normal (child normal + 1 - ratio normal)) (fun axis => by
          by_cases same : axis = normal
          · subst same
            simpa [raise] using (fits axis).2
          · simpa [raise, same] using (fits axis).1)
        (isChild_update isChild ⟨by omega, by omega⟩)
      obtain ⟨rfl, bounded⟩ := baseFaceReads_bounded
        (fun axis different => by rw [isParent]; simpa [raise, different] using parental axis)
        (by rw [isParent]; simpa [raise] using (parental_bounds (parental normal)).2)
        (fun inner => absurd (by rw [isOffset, update_self]; omega) inner) upper
      exact bounded axis
  · rw [cell] at lower
    obtain ⟨isParent, -⟩ := parent_and_child ratio mapping parent child (fun axis => (fits axis).1) isChild
    obtain ⟨rfl, bounded⟩ := baseFaceReads_bounded (fun axis _ => by rw [isParent]; exact parental axis)
      (by rw [isParent]; exact (parental_bounds (parental normal)).1) (fun _ => by rw [isParent]; exact (parental_bounds (parental normal)).2) lower
    exact bounded axis

theorem prefixSample_digits {child : Index d} (isChild : IsChild ratio child) {ordinal : ℕ}
    (inside : ordinal < (child normal).toNat * volume (radix ratio) (axesBelow normal)) (axis : Fin d) :
    0 ≤ prefixSample ratio normal child ordinal axis ∧ prefixSample ratio normal child ordinal axis < ratio axis ∧
      (axis = normal → prefixSample ratio normal child ordinal axis < child normal) ∧
      (normal < axis → prefixSample ratio normal child ordinal axis = child axis) := by
  have positive (axis : Fin d) : 0 < radix ratio axis := by
    have := ratio.pos axis
    unfold radix
    omega
  have width := cast_radix ratio axis
  have digit := isChild axis
  by_cases same : axis = normal
  · subst same
    have quotient : (decode (radix ratio) (axesBelow axis) ordinal fun a => (child a).toNat).2 < (child axis).toNat := by
      rw [decode_quotient]
      exact Nat.div_lt_of_lt_mul (by rwa [mul_comm] at inside)
    simp only [prefixSample, update_self]
    exact ⟨by omega, by omega, fun _ => by omega, fun above => absurd above (lt_irrefl _)⟩
  · simp only [prefixSample, update_of_ne same]
    by_cases below : axis < normal
    · have small := decode_lt (fun axis _ => positive axis) (mem_axesBelow.mpr below) ordinal fun a => (child a).toNat
      exact ⟨by omega, by omega, fun along => absurd along same, fun above => absurd above (not_lt.mpr below.le)⟩
    · rw [decode_of_not_mem fun listed => below (mem_axesBelow.mp listed)]
      exact ⟨by omega, by omega, fun along => absurd along same, fun _ => by omega⟩

/-- The first sibling of every corrected face is an `int` index on the axes the prefix counts. -/
def SiblingsFit (ratio : RefinementRatio d) (mapping : IndexMapping d) (region : Box d) : Prop :=
  ∀ normal fineFace, IsFace region normal fineFace → Corrected ratio mapping normal fineFace →
    ∀ axis ≤ normal, intMin ≤ fineFace axis - childOf ratio mapping fineFace axis

theorem Checks.faceReads_bounded (checks : Checks ratio mapping region views)
    (fit : SiblingsFit ratio mapping region) (isFace : IsFace region normal fineFace) {read : Fin d × Index d}
    (listed : read ∈ faceReads ratio mapping normal fineFace) (axis : Fin d) :
    SourceBounds ratio mapping region read.1 axis (read.2 axis) := by
  obtain ⟨exact, parental, along⟩ := checks.face_parent isFace
  rw [faceReads, List.mem_append] at listed
  rcases listed with base | correction
  · obtain ⟨rfl, bounded⟩ := baseFaceReads_bounded (fun axis different => parental axis (.inl different)) along
      (fun inner => (parental_bounds (parental normal (.inr inner))).2) base
    exact bounded axis
  · rw [divergenceCorrectionReads] at correction
    split at correction
    · rename_i corrected
      simp only [List.mem_flatMap, List.mem_range] at correction
      obtain ⟨ordinal, inside, read⟩ := correction
      have inner (axis : Fin d) : Parental ratio mapping region axis (parentOf ratio mapping fineFace axis) := by
        by_cases same : axis = normal
        · subst same
          exact parental axis (.inr corrected.1)
        · exact parental axis (.inl same)
      have isChild : IsChild ratio (childOf ratio mapping fineFace) := fun axis => by
        rw [childOf_eq]
        exact ⟨Int.emod_nonneg _ (ratio.pos axis).ne', Int.emod_lt_of_pos _ (ratio.pos axis)⟩
      have digits (axis : Fin d) := prefixSample_digits isChild inside axis
      refine checks.divergenceErrorReads_bounded inner (fun axis => ⟨(digits axis).1, (digits axis).2.1⟩)
        (fun axis => ?_) read axis
      -- a sibling lies between the first one and the face itself
      obtain ⟨low, -, high⟩ := isFace.bounds axis
      obtain ⟨nonneg, -, onNormal, above⟩ := digits axis
      have split := Int.mul_ediv_add_emod (fineFace axis - mapping.fineOrigin axis) (ratio axis)
      have isRest : childOf ratio mapping fineFace axis = (fineFace axis - mapping.fineOrigin axis) % ratio axis :=
        childOf_eq ..
      have place : childCell ratio mapping (parentOf ratio mapping fineFace)
          (prefixSample ratio normal (childOf ratio mapping fineFace) ordinal) axis =
          fineFace axis - childOf ratio mapping fineFace axis +
            prefixSample ratio normal (childOf ratio mapping fineFace) ordinal axis := by
        rw [childCell, exact axis, isRest]
        linarith
      obtain ⟨lowFits, highFits⟩ := checks.faces axis
      rw [place]
      rcases lt_trichotomy axis normal with below | rfl | beyond
      · have start := fit normal fineFace isFace corrected axis below.le
        have last := corrected.2 axis below
        have small := (digits axis).2.1
        exact ⟨by omega, le_trans (by omega) highFits.2⟩
      · have start := fit axis fineFace isFace corrected axis le_rfl
        have small := onNormal rfl
        exact ⟨by omega, le_trans (by omega) highFits.2⟩
      · rw [above beyond, sub_add_cancel]
        exact lowFits.between highFits low high
    · cases correction

end Pops.FaceTransfer

namespace Pops.TransferFootprint
open FaceTransfer (IndexMapping SiblingsFit packedView quadRatio negativeOrigins)

variable {d : ℕ}

theorem temporal_reads_inside {T : Type} [TemporalInterpolation.TemporalDouble T] {older newer destination : FieldView d}
    {region : Box d} {ratio : RefinementRatio d}
    {olderState newerState targetState : TemporalInterpolation.QualifiedTemporalState T}
    {components : TemporalInterpolation.TemporalComponentRange}
    {interpolation : TemporalInterpolation.PreparedLinearTemporalInterpolation d T} {olderView newerView : ValidatedView d}
    (prepared : TemporalInterpolation.prepare older newer destination region ratio olderState newerState targetState
      components = .ok interpolation)
    (olderValidated : older.validate = .ok olderView) (newerValidated : newer.validate = .ok newerView) {index read : Index d}
    (inside : index ∈ region.cells) (listed : read ∈ interpolation.reads index) :
    read ∈ olderView.box.cells ∧ read ∈ newerView.box.cells := by
  simp only [TemporalInterpolation.prepare, bind_ok, throwIf_ok, unit_exists, pure_ok] at prepared
  obtain ⟨-, -, view, seen, next, nextSeen, _, -, image, -⟩ := prepared
  obtain rfl := Except.ok.inj (seen.symm.trans olderValidated)
  obtain rfl := Except.ok.inj (nextSeen.symm.trans newerValidated)
  simp only [not_or, not_not] at image
  obtain ⟨common, -, contains, -⟩ := image
  rw [List.mem_singleton.mp listed, ← common]
  exact ⟨(Box.containsBox_iff.mp contains).2 inside, (Box.containsBox_iff.mp contains).2 inside⟩

/-- No prepared transfer reads outside its validated sources, the face transfer
as long as the siblings it visits are `int` indices. -/
theorem prepared_transfers_read_inside (region : Box d) (ratio : RefinementRatio d) (mapping : IndexMapping d) :
    (∀ (provider : CellTransfer.TransferProvider) (source destination : FieldView d) (components : ComponentRange)
      (transfer : CellTransfer.PreparedTransfer d) (view : ValidatedView d),
      provider.prepare source destination region ratio mapping components = .ok transfer → source.validate = .ok view →
        ∀ index ∈ region.cells, ∀ read ∈ transfer.reads index, read ∈ view.box.cells) ∧
    (∀ (T : Type) [TemporalInterpolation.TemporalDouble T] (older newer destination : FieldView d)
      (olderState newerState targetState : TemporalInterpolation.QualifiedTemporalState T)
      (components : TemporalInterpolation.TemporalComponentRange)
      (interpolation : TemporalInterpolation.PreparedLinearTemporalInterpolation d T) (olderView newerView : ValidatedView d),
      TemporalInterpolation.prepare older newer destination region ratio olderState newerState targetState components =
        .ok interpolation → older.validate = .ok olderView → newer.validate = .ok newerView →
        ∀ index ∈ region.cells, ∀ read ∈ interpolation.reads index,
          read ∈ olderView.box.cells ∧ read ∈ newerView.box.cells) ∧
    (SiblingsFit ratio mapping region → ∀ (source destination : Fin d → FieldView d) (components : ComponentRange)
      (transfer : FaceTransfer.PreparedTransfer d) (views : Fin d → ValidatedView d),
      FaceTransfer.prepare source destination region ratio mapping components = .ok transfer →
        (∀ normal, (source normal).validate = .ok (views normal)) →
        ∀ normal, ∀ fineFace ∈ (transfer.destinationFaceRegions normal).cells,
          ∀ read ∈ FaceTransfer.faceReads ratio mapping normal fineFace, read.2 ∈ (views read.1).box.cells) := by
  refine ⟨fun provider source destination components transfer view prepared validated index inside read listed =>
      CellTransfer.prepared_reads_inside prepared validated inside listed,
    fun T _ older newer destination olderState newerState targetState components interpolation olderView newerView prepared
      olderValidated newerValidated index inside read listed =>
      temporal_reads_inside prepared olderValidated newerValidated inside listed,
    fun fit source destination components transfer views prepared validated normal fineFace inside read listed => ?_⟩
  obtain ⟨checks, -, -, -, -, -, regions⟩ := FaceTransfer.prepare_checks prepared validated
  rw [regions normal] at inside
  exact checks.covers read.1 read.2 fun axis => checks.faceReads_bounded fit inside listed axis

private theorem quad_siblings_fit : SiblingsFit quadRatio negativeOrigins (⟨fun _ => -3, fun _ => -2⟩ : Box 2) := by
  intro normal fineFace isFace corrected axis _
  obtain ⟨low, -, -⟩ := FaceTransfer.IsFace.bounds isFace axis
  have small : FaceTransfer.childOf quadRatio negativeOrigins fineFace axis < quadRatio axis := by
    rw [CellTransfer.childOf_eq]
    exact Int.emod_lt_of_pos _ (quadRatio.pos axis)
  have two : quadRatio axis = 2 := rfl
  have bottom : intMin ≤ -4 := by decide
  exact bottom.trans (by simp only at low; omega)

set_option maxRecDepth 4000 in
/-- The transfer onto the four children of one cell reads inside its three by three faces. -/
theorem prepared_transfers_read_inside_quad : ∃ transfer, FaceTransfer.quadTransfer = .ok transfer ∧
    ∃ views : Fin 2 → ValidatedView 2,
      (∀ normal, (packedView (1 + 9 * normal.val) (-2) (by decide)).validate = .ok (views normal)) ∧
      ∀ normal, ∀ fineFace ∈ (transfer.destinationFaceRegions normal).cells,
        ∀ read ∈ FaceTransfer.faceReads quadRatio negativeOrigins normal fineFace, read.2 ∈ (views read.1).box.cells := by
  obtain ⟨transfer, prepared⟩ : ∃ transfer, FaceTransfer.quadTransfer = .ok transfer := ⟨_, rfl⟩
  obtain ⟨views, validated⟩ : ∃ views : Fin 2 → ValidatedView 2, ∀ normal,
      (packedView (1 + 9 * normal.val) (-2) (by decide)).validate = .ok (views normal) :=
    ⟨![_, _], Fin.forall_fin_two.mpr ⟨rfl, rfl⟩⟩
  exact ⟨transfer, prepared, views, validated,
    (prepared_transfers_read_inside _ quadRatio negativeOrigins).2.2 quad_siblings_fit _ _ _ transfer views prepared validated⟩

/-- What a prepared transfer writes depends on nothing outside its validated sources. -/
theorem prepared_transfers_confined {K : Type} [Field K] [LinearOrder K] (region : Box d) (ratio : RefinementRatio d)
    (mapping : IndexMapping d) (components : ComponentRange) :
    (∀ (provider : CellTransfer.TransferProvider) (source destination : FieldView d) (view : ValidatedView d)
      (transfer : CellTransfer.PreparedTransfer d),
      provider.prepare source destination region ratio mapping components = .ok transfer → source.validate = .ok view →
        ∀ values others : CellTransfer.CellSource K d, (∀ cell ∈ view.box.cells, values cell = others cell) →
          ∀ index ∈ region.cells, transfer.produced values index = transfer.produced others index) ∧
    (SiblingsFit ratio mapping region → ∀ (source destination : Fin d → FieldView d) (views : Fin d → ValidatedView d)
      (transfer : FaceTransfer.PreparedTransfer d),
      FaceTransfer.prepare source destination region ratio mapping components = .ok transfer →
        (∀ normal, (source normal).validate = .ok (views normal)) →
        ∀ values others : FaceTransfer.FaceSource K d,
          (∀ normal, ∀ face ∈ (views normal).box.cells, values normal face = others normal face) →
          ∀ normal, ∀ fineFace ∈ (transfer.destinationFaceRegions normal).cells,
            FaceTransfer.faceValue ratio mapping values normal fineFace =
              FaceTransfer.faceValue ratio mapping others normal fineFace) := by
  constructor
  · intro provider source destination view transfer prepared validated values others same index inside
    funext component
    refine CellTransfer.produced_congr transfer index component fun read listed => ?_
    rw [same read (CellTransfer.prepared_reads_inside prepared validated inside listed)]
  · intro fit source destination views transfer prepared validated values others same normal fineFace inside
    obtain ⟨checks, -, -, -, -, -, regions⟩ := FaceTransfer.prepare_checks prepared validated
    rw [regions normal] at inside
    funext component
    refine FaceTransfer.faceValue_agree fun read listed => ?_
    rw [same read.1 read.2 (checks.covers _ _ fun axis => checks.faceReads_bounded fit inside listed axis)]

set_option maxRecDepth 4000 in
theorem prepared_transfers_confined_quad : ∃ transfer, FaceTransfer.quadTransfer = .ok transfer ∧
    ∃ views : Fin 2 → ValidatedView 2,
      (∀ normal, (packedView (1 + 9 * normal.val) (-2) (by decide)).validate = .ok (views normal)) ∧
      ∀ values others : FaceTransfer.FaceSource ℚ 2,
        (∀ normal, ∀ face ∈ (views normal).box.cells, values normal face = others normal face) →
        ∀ normal, ∀ fineFace ∈ (transfer.destinationFaceRegions normal).cells,
          FaceTransfer.faceValue quadRatio negativeOrigins values normal fineFace =
            FaceTransfer.faceValue quadRatio negativeOrigins others normal fineFace := by
  obtain ⟨transfer, prepared⟩ : ∃ transfer, FaceTransfer.quadTransfer = .ok transfer := ⟨_, rfl⟩
  obtain ⟨views, validated⟩ : ∃ views : Fin 2 → ValidatedView 2, ∀ normal,
      (packedView (1 + 9 * normal.val) (-2) (by decide)).validate = .ok (views normal) :=
    ⟨![_, _], Fin.forall_fin_two.mpr ⟨rfl, rfl⟩⟩
  exact ⟨transfer, prepared, views, validated,
    (prepared_transfers_confined _ quadRatio negativeOrigins _).2 quad_siblings_fit _ _ _ transfer prepared validated⟩

/-- The face of the lowest index, the last child of its parent. -/
def lowestFaces : Box 1 := ⟨fun _ => intMin, fun _ => intMin⟩

private theorem quarter_positive : ∀ _ : Fin 1, (1 : ℤ) ≤ 4 := by decide

private theorem quarter_bounded : ∀ _ : Fin 1, (4 : ℤ) ≤ intMax := by decide

private theorem quarter_children : ∏ _ : Fin 1, (4 : ℤ) ≤ int64Max := by decide

def quarterRatio : RefinementRatio 1 := ⟨fun _ => 4, quarter_positive, quarter_bounded, quarter_children⟩

def lowestOrigins : IndexMapping 1 := ⟨fun _ => 0, fun _ => intMin + 1⟩

/-- Two packed faces. -/
def twoFaces (element : ℕ) (origin : ℤ) (fits : FitsInt origin) : FieldView 1 :=
  ⟨sizeofReal * element, fun _ => origin, fun _ => fits, fun _ => 2, fun _ => 1, 1, 2⟩

private theorem lowest_fits : FitsInt intMin := by decide

private theorem minus_one_fits : FitsInt (-1) := by decide

/-- A face whose siblings lie below `INT_MIN`: the wrapped sibling reads a face of parent `2 ^ 30 - 1`. -/
theorem lowest_face_reads_outside : ∃ transfer view,
    FaceTransfer.prepare (fun _ => twoFaces 1 (-1) minus_one_fits) (fun _ => twoFaces 3 intMin lowest_fits) lowestFaces
        quarterRatio lowestOrigins {} = .ok transfer ∧
      (twoFaces 1 (-1) minus_one_fits).validate = .ok view ∧
      (fun _ => intMin) ∈ (transfer.destinationFaceRegions 0).cells ∧
      (0, fun _ => 2 ^ 30 - 1) ∈ FaceTransfer.faceReads quarterRatio lowestOrigins 0 (fun _ => intMin) ∧
      (fun _ => 2 ^ 30 - 1) ∉ view.box.cells := by
  refine ⟨_, _, rfl, rfl, ?_, ?_, ?_⟩
  · rw [Box.mem_cells]
    decide
  · decide
  · rw [Box.mem_cells]
    decide

end Pops.TransferFootprint
