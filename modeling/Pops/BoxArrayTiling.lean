import Pops.BoxArrayProofs
import Pops.Throws

/-!
The validation and the tiling of a domain as whole calls: which of them return,
and what they return. Exact counts overflow only past four limbs; the tiling
refuses only counts that no vector holds.
-/
namespace Pops.BoxArray
open MixedRadix

variable {d : ℕ} {domain : Box d} {patches : BoxArray d} {budget : BoxArrayValidationBudget}

/-- Non-empty disjoint boxes inside the domain, which cover each of its cells. -/
def TilesDomain (domain : Box d) (boxes : List (Box d)) : Prop :=
  Packed Box.cells domain.cells boxes ∧ ∀ index ∈ domain.cells, ∃ box ∈ boxes, index ∈ box.cells

theorem tilesDomain_empty (empty : domain.Empty) {boxes : List (Box d)} :
    TilesDomain domain boxes ↔ boxes = [] := by
  rw [Box.empty_iff_cells] at empty
  unfold TilesDomain
  rw [empty]
  constructor
  · rintro ⟨packed, -⟩
    refine List.eq_nil_iff_forall_not_mem.mpr fun box listed => ?_
    exact packed.nonempty box listed (Finset.subset_empty.mp (packed.inside box listed))
  · rintro rfl
    exact ⟨.nil, by simp⟩

theorem card_cells_lt (fits : domain.Fits) (dimension : d ≤ 3) : domain.cells.card < 4294967296 ^ 4 := by
  calc domain.cells.card ≤ 4294967296 ^ d := card_cells_le_pow fits
    _ ≤ 4294967296 ^ 3 := Nat.pow_le_pow_right (by norm_num) dimension
    _ < 4294967296 ^ 4 := by norm_num

theorem exactCellCount_iff (fits : ∀ box ∈ patches.boxes, box.Fits) {total : ExactCellCount} :
    patches.exactCellCount = .ok total ↔ total.value = (patches.boxes.map fun box => box.cells.card).sum := by
  constructor
  · intro ran
    rw [foldl_addCount_ok fits ran, ExactCellCount.value_zero, zero_add]
  · intro same
    have room : ExactCellCount.zero.value + (patches.boxes.map fun box => box.cells.card).sum <
        4294967296 ^ 4 := by
      rw [ExactCellCount.value_zero, zero_add, ← same]
      exact total.value_lt
    obtain ⟨after, ran⟩ := @foldl_addCount_fits d _
      (.overflowError "BoxArray exact cell count exceeds four limbs") _ fits room
    have exact := foldl_addCount_ok fits ran
    rw [ExactCellCount.value_zero, zero_add, ← same] at exact
    rw [← ExactCellCount.value_injective exact]
    exact ran

theorem requireBudget_throws :
    Throws (fun exception => ∃ what, exception = .lengthError what) (patches.requireBudget budget) :=
  .bind (.throwIf fun _ => ⟨_, rfl⟩) fun _ _ => .bind (.throwIf fun _ => ⟨_, rfl⟩) fun _ _ => .throwIf fun _ => ⟨_, rfl⟩

theorem tilesExactly_returns (fits : domain.Fits) (dimension : d ≤ 3) (affordable : patches.Affordable budget) :
    ∃ answer, patches.tilesExactly domain budget = .ok answer := by
  unfold tilesExactly
  split
  · exact ⟨_, rfl⟩
  · unfold Affordable at affordable
    simp only [isDisjointWithin, affordable, ok_bind]
    cases apart : disjointFrom domain [] patches.boxes with
    | false => exact ⟨false, rfl⟩
    | true =>
      have packed := disjointFrom_iff_packed.mp apart
      have small := card_cells_lt fits dimension
      have sum : (patches.boxes.map fun box => box.cells.card).sum ≤ domain.cells.card := by
        rw [sum_card_eq packed]
        exact Finset.card_le_card Finset.inter_subset_left
      obtain ⟨total, summed⟩ := @foldl_addCount_fits d _
        (.overflowError "BoxArray exact cell count exceeds four limbs") .zero
        (fits_of_packed fits packed) (by rw [ExactCellCount.value_zero]; omega)
      obtain ⟨whole, counted⟩ := ExactCellCount.fromBox_fits fits small
      have total_ok : patches.exactCellCount = .ok total := summed
      simp only [pure, Except.pure, ok_bind, if_true, total_ok, counted]
      exact ⟨_, rfl⟩

/-- The validation answers exactly whether the boxes tile the domain, whenever its
budget admits them or the domain is empty, and throws `length_error` otherwise. The
counter behind it is the sum of the cells or throws. -/
theorem tilesExactly_decides (domain : Box d) (fits : domain.Fits) (dimension : d ≤ 3) (patches : BoxArray d)
    (budget : BoxArrayValidationBudget) :
    (domain.Empty ∨ patches.Affordable budget →
      ∃ answer, patches.tilesExactly domain budget = .ok answer ∧
        (answer = true ↔ TilesDomain domain patches.boxes)) ∧
    (¬ (domain.Empty ∨ patches.Affordable budget) →
      ∃ what, patches.tilesExactly domain budget = .error (.lengthError what)) ∧
    ((∀ box ∈ patches.boxes, box.Fits) →
      (∀ total, patches.exactCellCount = .ok total →
        total.value = (patches.boxes.map fun box => box.cells.card).sum) ∧
      ((patches.boxes.map fun box => box.cells.card).sum < 2 ^ 128 →
        ∃ total, patches.exactCellCount = .ok total)) := by
  refine ⟨fun admitted => ?_, fun refused => ?_, fun boxFits => ⟨fun total => (exactCellCount_iff boxFits).mp, ?_⟩⟩
  · by_cases empty : domain.Empty
    · refine ⟨patches.boxes.isEmpty, if_pos empty, ?_⟩
      rw [tilesDomain_empty empty, List.isEmpty_iff]
    · obtain ⟨answer, ran⟩ := tilesExactly_returns fits dimension (admitted.resolve_left empty)
      exact ⟨answer, ran, tilesExactly_ok fits empty ran⟩
  · rw [not_or] at refused
    obtain ⟨nonempty, unaffordable⟩ := refused
    unfold Affordable at unaffordable
    obtain ⟨_, thrown, what, rfl⟩ := requireBudget_throws.thrown fun _ => unaffordable
    refine ⟨what, ?_⟩
    rw [tilesExactly, if_neg nonempty, isDisjointWithin, thrown]
    rfl
  · intro room
    refine foldl_addCount_fits boxFits ?_
    rw [ExactCellCount.value_zero, zero_add]
    exact room.trans_le (by norm_num)

/-- A one-cell domain and its one tile, which the default budget does not admit. -/
theorem tilesExactly_refuses_tiling :
    TilesDomain (⟨fun _ => 0, fun _ => 0⟩ : Box 1) [⟨fun _ => 0, fun _ => 0⟩] ∧
      (⟨[⟨fun _ => 0, fun _ => 0⟩]⟩ : BoxArray 1).tilesExactly ⟨fun _ => 0, fun _ => 0⟩ {} =
        .error (.lengthError "BoxArray validation exceeds the explicit patch budget") := by
  refine ⟨⟨?_, fun index member => ⟨_, by simp, member⟩⟩, rfl⟩
  refine .singleton ?_ le_rfl
  rw [Ne, Finset.bot_eq_empty, ← Box.empty_iff_cells]
  decide

/-- A square cut in a column and two boxes beside it. -/
def cutSquare : BoxArray 2 := ⟨[⟨![0, 0], ![1, 3]⟩, ⟨![2, 0], ![3, 1]⟩, ⟨![2, 2], ![3, 3]⟩]⟩

theorem tilesExactly_decides_cutSquare :
    ∃ answer, cutSquare.tilesExactly ⟨![0, 0], ![3, 3]⟩ ⟨3, 3⟩ = .ok answer ∧
      (answer = true ↔ TilesDomain ⟨![0, 0], ![3, 3]⟩ cutSquare.boxes) :=
  (tilesExactly_decides ⟨![0, 0], ![3, 3]⟩ (by decide) (by decide) cutSquare ⟨3, 3⟩).1 (.inr rfl)
theorem checkedVolume_fits {exception : Exception} {extents : Fin d → ℕ} (positive : ∀ axis, 0 < extents axis)
    (fits : volume extents (List.finRange d) ≤ sizeMax) :
    checkedVolume exception extents = .ok (volume extents (List.finRange d)) := by
  have steps (axes : List (Fin d)) (product : ℕ) (someProduct : 0 < product)
      (room : product * volume extents axes ≤ sizeMax) :
      axes.foldlM (fun product axis => do
        throwIf (extents axis > sizeMax / product) exception
        return product * extents axis) product = .ok (product * volume extents axes) := by
    induction axes generalizing product with
    | nil => simp [pure, Except.pure]
    | cons axis axes ih =>
      rw [volume_cons, ← mul_assoc] at room
      have rest : 0 < volume extents axes := volume_pos fun a _ => positive a
      have step : product * extents axis ≤ sizeMax := (Nat.le_mul_of_pos_right _ rest).trans room
      have fitted : ¬ extents axis > sizeMax / product := by
        rw [gt_iff_lt, not_lt, Nat.le_div_iff_mul_le someProduct, mul_comm]
        exact step
      rw [List.foldlM_cons, throwIf_of_not fitted, ok_bind]
      change (List.foldlM _ (product * extents axis) axes) = _
      rw [ih _ (Nat.mul_pos someProduct (positive axis)) room, volume_cons, mul_assoc]
  have whole := steps (List.finRange d) 1 one_pos (by rwa [one_mul])
  rwa [one_mul] at whole

theorem checkedVolume_throws {exception : Exception} {extents : Fin d → ℕ} :
    Throws (· = exception) (checkedVolume exception extents) := by
  unfold checkedVolume
  refine .foldlM ?_ _ _
  intro product axis
  exact .bind (.throwIf fun _ => rfl) fun _ _ => .pure _

/-- The number of tiles of a domain. -/
def tileCount (domain : Box d) (limits : Extent d) : ℕ := volume (tileCounts domain limits) (List.finRange d)

/-- What a decomposition of a domain is: boxes that tile it, within the maximum
size, whose extents along an axis differ by at most one cell. -/
structure Decomposes (domain : Box d) (limits : Extent d) (boxes : List (Box d)) : Prop where
  tiles : TilesDomain domain boxes
  limited : ∀ box ∈ boxes, ∀ axis, box.length axis ≤ limits axis
  balanced : ∀ box ∈ boxes, ∀ other ∈ boxes, ∀ axis, box.length axis ≤ other.length axis + 1
  fits : ∀ box ∈ boxes, box.Fits

/-- What the loop computes for a tile along an axis before it narrows to `int`:
the offset and the width stay inside the length, and both corners inside the domain. -/
theorem tile_inRange (limits : Extent d) (fits : domain.Fits) (nonempty : ¬ domain.Empty) (ordinal : ℕ)
    (axis : Fin d) :
    let length := (domain.length axis).toNat
    let count := tileCounts domain limits axis
    let segment := segmentOf domain limits ordinal axis
    let lower := domain.lo axis + segmentOffset length count segment
    segment * (length / count) ≤ length ∧ segmentOffset length count segment + segmentWidth length count segment ≤
        length ∧ length ≤ 4294967296 ∧ FitsInt lower ∧ FitsInt (lower + segmentWidth length count segment - 1) := by
  intro length count segment lower
  have extent := Box.length_of_nonempty nonempty axis
  have some := Box.length_pos nonempty axis
  have bound := ExactCellCount.length_lt fits axis
  have sameLength : (length : ℤ) = domain.length axis := Int.toNat_of_nonneg some.le
  have long : 0 < length := by omega
  have wide : 0 < segmentWidth length count segment := segmentWidth_pos long
  have ending : segmentOffset length count segment + segmentWidth length count segment ≤ length :=
    segment_end_le (segmentOf_lt ordinal axis)
  have base : segment * (length / count) ≤ segmentOffset length count segment := Nat.le_add_right _ _
  have inside {value : ℤ} (above : domain.lo axis ≤ value) (below : value ≤ domain.hi axis) : FitsInt value :=
    (fits axis).1.between (fits axis).2 above below
  have opens : lower = domain.lo axis + segmentOffset length count segment := rfl
  exact ⟨by omega, ending, by omega, inside (by omega) (by omega), inside (by omega) (by omega)⟩

theorem tile_length (limits : Extent d) (fits : domain.Fits) (nonempty : ¬ domain.Empty) (ordinal : ℕ)
    (axis : Fin d) :
    (tile domain (tileCounts domain limits) ordinal).length axis = segmentWidth (domain.length axis).toNat
      (tileCounts domain limits axis) (segmentOf domain limits ordinal axis) := by
  have boxNonempty : ¬ (tile domain (tileCounts domain limits) ordinal).Empty := by
    rw [Box.not_empty_iff]
    intro other
    obtain ⟨-, upper⟩ := tile_corners limits fits nonempty ordinal other
    have some := Box.length_pos nonempty other
    have long : 0 < (domain.length other).toNat := by omega
    have wide : 0 < segmentWidth (domain.length other).toNat (tileCounts domain limits other)
        (segmentOf domain limits ordinal other) := segmentWidth_pos long
    omega
  obtain ⟨-, upper⟩ := tile_corners limits fits nonempty ordinal axis
  rw [Box.length_of_nonempty boxNonempty]
  omega

theorem segmentWidth_balanced (length count first second : ℕ) :
    segmentWidth length count first ≤ segmentWidth length count second + 1 := by
  unfold segmentWidth
  split <;> omega

theorem fromDomain_decomposes {limits : Extent d} (fits : domain.Fits) (nonempty : ¬ domain.Empty)
    (ran : fromDomain domain limits = .ok patches) : Decomposes domain limits patches.boxes := by
  obtain ⟨packed, covers, limited⟩ := fromDomain_ok fits ran
  refine ⟨⟨packed, covers⟩, limited, ?_, fits_of_packed fits packed⟩
  simp only [fromDomain, bind_ok, throwIf_ok, unit_exists, if_neg nonempty, pure_ok] at ran
  obtain ⟨-, count, -, -, rfl⟩ := ran
  intro box listed other otherListed axis
  obtain ⟨ordinal, -, rfl⟩ := List.mem_map.mp listed
  obtain ⟨second, -, rfl⟩ := List.mem_map.mp otherListed
  have same (ordinal : ℕ) : (tile domain (fun axis => segments (domain.length axis).toNat (limits axis).toNat)
      ordinal).length axis = segmentWidth (domain.length axis).toNat (tileCounts domain limits axis)
        (segmentOf domain limits ordinal axis) := tile_length limits fits nonempty ordinal axis
  have balanced := segmentWidth_balanced (domain.length axis).toNat (tileCounts domain limits axis)
    (segmentOf domain limits ordinal axis) (segmentOf domain limits second axis)
  rw [same, same]
  omega

/-- A decomposition is returned for every domain and every maximum size whose tiles
fit a vector, and only then; its loop stays inside `int`. -/
theorem fromDomain_iff_fits (domain : Box d) (fits : domain.Fits) (nonempty : ¬ domain.Empty)
    (limits : Extent d) (positive : ∀ axis, 0 < limits axis) :
    (tileCount domain limits ≤ vectorMaxSize d →
      ∃ patches, fromDomain domain limits = .ok patches ∧ patches.boxes.length = tileCount domain limits ∧
        Decomposes domain limits patches.boxes) ∧
    (vectorMaxSize d < tileCount domain limits →
      ∃ what, fromDomain domain limits = .error (.lengthError what)) ∧
    ∀ ordinal axis,
      let length := (domain.length axis).toNat
      let count := tileCounts domain limits axis
      let segment := segmentOf domain limits ordinal axis
      let lower := domain.lo axis + segmentOffset length count segment
      segment * (length / count) ≤ length ∧
        segmentOffset length count segment + segmentWidth length count segment ≤ length ∧
        length ≤ 4294967296 ∧ FitsInt lower ∧ FitsInt (lower + segmentWidth length count segment - 1) := by
  have accepted : ¬ ∃ axis, limits axis ≤ 0 := by simpa using positive
  refine ⟨fun small => ?_, fun large => ?_, tile_inRange limits fits nonempty⟩
  · have words : tileCount domain limits ≤ sizeMax := small.trans (by
      unfold vectorMaxSize sizeMax
      exact (Nat.div_le_self _ _).trans (by norm_num))
    have counted : checkedVolume (.lengthError "BoxArray tile count exceeds size_t") (tileCounts domain limits) =
        .ok (tileCount domain limits) := checkedVolume_fits tileCounts_pos words
    have ran : fromDomain domain limits = .ok ⟨(List.range (tileCount domain limits)).map
        (tile domain (tileCounts domain limits))⟩ := by
      unfold fromDomain
      rw [throwIf_of_not accepted, ok_bind, if_neg nonempty]
      change (checkedVolume _ (tileCounts domain limits) >>= _) = _
      have held : ¬ tileCount domain limits > vectorMaxSize d := not_lt.mpr small
      rw [counted, ok_bind, throwIf_of_not held, ok_bind]
      rfl
    exact ⟨_, ran, by simp, fromDomain_decomposes fits nonempty ran⟩
  · have refused : ∀ patches, fromDomain domain limits ≠ .ok patches := by
      intro patches ran
      simp only [fromDomain, bind_ok, throwIf_ok, unit_exists, if_neg nonempty, pure_ok] at ran
      obtain ⟨-, count, counted, fitted, -⟩ := ran
      obtain rfl := checkedVolume_ok counted
      exact fitted large
    have throws : Throws (fun exception => ∃ what, exception = .lengthError what) (fromDomain domain limits) := by
      unfold fromDomain
      rw [throwIf_of_not accepted, ok_bind, if_neg nonempty]
      refine .bind (fun exception thrown => ⟨_, checkedVolume_throws exception thrown⟩) fun _ _ => ?_
      exact .bind (.throwIf fun _ => ⟨_, rfl⟩) fun _ _ => .pure _
    obtain ⟨_, thrown, what, rfl⟩ := throws.thrown refused
    exact ⟨what, thrown⟩

/-- A square domain of all `int` coordinates has more cells than `size_t` counts. -/
theorem fromDomain_refuses_cells :
    ¬ (⟨fun _ => intMin, fun _ => intMax⟩ : Box 2).Empty ∧
      fromDomain (⟨fun _ => intMin, fun _ => intMax⟩ : Box 2) (fun _ => 1) =
        .error (.lengthError "BoxArray tile count exceeds size_t") := by
  refine ⟨by decide, ?_⟩
  rfl

/-- Five cells in boxes of at most two cells. -/
theorem fromDomain_iff_fits_five :
    ∃ patches, fromDomain (⟨fun _ => -2, fun _ => 2⟩ : Box 1) (fun _ => 2) = .ok patches ∧
      patches.boxes.length = tileCount (⟨fun _ => -2, fun _ => 2⟩ : Box 1) (fun _ => 2) ∧
      Decomposes (⟨fun _ => -2, fun _ => 2⟩ : Box 1) (fun _ => 2) patches.boxes :=
  (fromDomain_iff_fits ⟨fun _ => -2, fun _ => 2⟩ (by decide) (by decide) (fun _ => 2) (by decide)).1 (by decide)

end Pops.BoxArray
