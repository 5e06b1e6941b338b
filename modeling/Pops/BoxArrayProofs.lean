import Mathlib.Algebra.Order.BigOperators.Ring.Finset
import Pops.BoxArray

/-!
What the tiling and the validation of patches mean for cells. The tiles of a
domain pack it, cover it and keep the maximum grid size; the disjointness loop
decides that the patches pack the domain; equal exact counts of a packing and
its domain decide that the packing covers it.
-/
namespace Pops.BoxArray
open MixedRadix

section Segments
variable {length count limit segment : ℕ}

theorem segmentOffset_zero : segmentOffset length count 0 = 0 := by
  unfold segmentOffset
  split <;> omega

theorem segmentOffset_succ :
    segmentOffset length count (segment + 1) =
      segmentOffset length count segment + segmentWidth length count segment := by
  simp only [segmentOffset, segmentWidth, Nat.succ_mul]
  split <;> split <;> omega

theorem segmentOffset_count (positive : 0 < count) : segmentOffset length count count = length := by
  have remainder := Nat.mod_lt length positive
  rw [segmentOffset, if_neg (by omega)]
  exact Nat.div_add_mod length count

theorem segmentOffset_mono : Monotone (segmentOffset length count) :=
  monotone_nat_of_le_succ fun segment => by
    rw [segmentOffset_succ]
    omega

theorem segmentOffset_le_of_lt (length count : ℕ) {first second : ℕ} (less : first < second) :
    segmentOffset length count (first + 1) ≤ segmentOffset length count second :=
  segmentOffset_mono less

theorem exists_segment {offset : ℕ} (positive : 0 < count) (inside : offset < length) :
    ∃ segment < count, segmentOffset length count segment ≤ offset ∧
      offset < segmentOffset length count segment + segmentWidth length count segment := by
  have below (bound : ℕ) (before : offset < segmentOffset length count bound) :
      ∃ segment < bound, segmentOffset length count segment ≤ offset ∧
        offset < segmentOffset length count segment + segmentWidth length count segment := by
    induction bound with
    | zero =>
      rw [segmentOffset_zero] at before
      omega
    | succ bound ih =>
      rcases lt_or_ge offset (segmentOffset length count bound) with earlier | here
      · obtain ⟨segment, less, found⟩ := ih earlier
        exact ⟨segment, by omega, found⟩
      · rw [segmentOffset_succ] at before
        exact ⟨bound, by omega, here, before⟩
  exact below count (by rwa [segmentOffset_count positive])

theorem segment_end_le (within : segment < count) :
    segmentOffset length count segment + segmentWidth length count segment ≤ length := by
  rw [← segmentOffset_succ]
  calc segmentOffset length count (segment + 1)
      ≤ segmentOffset length count count := segmentOffset_mono within
    _ = length := segmentOffset_count (Nat.zero_lt_of_lt within)

theorem segments_pos : 0 < segments length limit :=
  Nat.add_pos_left one_pos _

theorem segments_le (positive : 0 < length) : segments length limit ≤ length := by
  have := Nat.div_le_self (length - 1) limit
  unfold segments
  omega

theorem segmentWidth_pos (positive : 0 < length) :
    0 < segmentWidth length (segments length limit) segment := by
  have whole : 0 < length / segments length limit :=
    Nat.div_pos (segments_le positive) segments_pos
  unfold segmentWidth
  omega

theorem segmentWidth_le (limited : 0 < limit) :
    segmentWidth length (segments length limit) segment ≤ limit := by
  have enough : length ≤ segments length limit * limit := by
    have split := Nat.div_add_mod (length - 1) limit
    have remainder := Nat.mod_lt (length - 1) limited
    rw [segments, Nat.add_mul, one_mul, mul_comm (_ / _)]
    omega
  have parts := Nat.div_add_mod length (segments length limit)
  have floor : length / segments length limit ≤ limit :=
    Nat.div_le_of_le_mul enough
  unfold segmentWidth
  split
  · rename_i longer
    by_contra wide
    have full : length / segments length limit = limit := by omega
    rw [full] at parts
    omega
  · omega

end Segments

variable {d : ℕ} {domain : Box d}

section Tiles
variable (domain) (limits : Extent d)

/-- The number of tiles along each axis. -/
def tileCounts (axis : Fin d) : ℕ := segments (domain.length axis).toNat (limits axis).toNat

/-- The segments of a tile, one per axis. -/
def segmentOf (ordinal : ℕ) : Fin d → ℕ :=
  (decode (tileCounts domain limits) (List.finRange d) ordinal fun _ => 0).1

/-- The offsets of a segment of the domain along an axis, from the lower bound. -/
def InSegment (axis : Fin d) (segment : ℕ) (coordinate : ℤ) : Prop :=
  domain.lo axis + segmentOffset (domain.length axis).toNat (tileCounts domain limits axis) segment ≤
      coordinate ∧
    coordinate < domain.lo axis + (segmentOffset (domain.length axis).toNat
      (tileCounts domain limits axis) segment +
        segmentWidth (domain.length axis).toNat (tileCounts domain limits axis) segment : ℕ)

variable {domain limits}

theorem tileCounts_pos (axis : Fin d) : 0 < tileCounts domain limits axis := segments_pos

theorem segmentOf_lt (ordinal : ℕ) (axis : Fin d) :
    segmentOf domain limits ordinal axis < tileCounts domain limits axis :=
  decode_lt (fun a _ => tileCounts_pos a) (List.mem_finRange axis) ordinal _

theorem tile_corners (limits : Extent d) (fits : domain.Fits) (nonempty : ¬ domain.Empty) (ordinal : ℕ) (axis : Fin d) :
    (tile domain (tileCounts domain limits) ordinal).lo axis =
        domain.lo axis + segmentOffset (domain.length axis).toNat (tileCounts domain limits axis)
          (segmentOf domain limits ordinal axis) ∧
      (tile domain (tileCounts domain limits) ordinal).hi axis =
        (tile domain (tileCounts domain limits) ordinal).lo axis + segmentWidth
          (domain.length axis).toNat (tileCounts domain limits axis)
            (segmentOf domain limits ordinal axis) - 1 := by
  have extent := Box.length_of_nonempty nonempty axis
  have some := Box.length_pos nonempty axis
  have long : 0 < (domain.length axis).toNat := by omega
  have wide : 0 < segmentWidth (domain.length axis).toNat (tileCounts domain limits axis)
      (segmentOf domain limits ordinal axis) := segmentWidth_pos long
  have ending : segmentOffset (domain.length axis).toNat (tileCounts domain limits axis)
      (segmentOf domain limits ordinal axis) + segmentWidth (domain.length axis).toNat
        (tileCounts domain limits axis) (segmentOf domain limits ordinal axis) ≤
          (domain.length axis).toNat := segment_end_le (segmentOf_lt ordinal axis)
  have exactly {value : ℤ} (above : domain.lo axis ≤ value) (below : value ≤ domain.hi axis) :
      castInt value = value :=
    castInt_of_fits ((fits axis).1.between (fits axis).2 above below)
  set offset := segmentOffset (domain.length axis).toNat (tileCounts domain limits axis)
    (segmentOf domain limits ordinal axis)
  set width := segmentWidth (domain.length axis).toNat (tileCounts domain limits axis)
    (segmentOf domain limits ordinal axis)
  have lower : castInt (domain.lo axis + offset) = domain.lo axis + offset :=
    exactly (by omega) (by omega)
  have upper : castInt (domain.lo axis + offset + width - 1) = domain.lo axis + offset + width - 1 :=
    exactly (by omega) (by omega)
  exact ⟨lower, upper.trans (congrArg (· + (width : ℤ) - 1) lower.symm)⟩

variable {index : Index d}

theorem mem_tile (fits : domain.Fits) (nonempty : ¬ domain.Empty) {ordinal : ℕ} :
    index ∈ (tile domain (tileCounts domain limits) ordinal).cells ↔
      ∀ axis, InSegment domain limits axis (segmentOf domain limits ordinal axis) (index axis) := by
  rw [Box.mem_cells]
  refine forall_congr' fun axis => ?_
  obtain ⟨lower, upper⟩ := tile_corners limits fits nonempty ordinal axis
  rw [upper, lower, InSegment]
  push_cast
  constructor <;> rintro ⟨above, below⟩ <;> exact ⟨above, by linarith⟩

theorem inSegment_unique {axis : Fin d} {first second : ℕ} {coordinate : ℤ}
    (inFirst : InSegment domain limits axis first coordinate)
    (inSecond : InSegment domain limits axis second coordinate) : first = second := by
  unfold InSegment at inFirst inSecond
  rw [← segmentOffset_succ] at inFirst inSecond
  by_contra different
  rcases Nat.lt_or_gt_of_ne different with less | greater
  · have := segmentOffset_le_of_lt (domain.length axis).toNat (tileCounts domain limits axis) less
    omega
  · have := segmentOffset_le_of_lt (domain.length axis).toNat (tileCounts domain limits axis) greater
    omega

theorem exists_inSegment (limits : Extent d) (member : index ∈ domain.cells) (axis : Fin d) :
    ∃ segment < tileCounts domain limits axis, InSegment domain limits axis segment (index axis) := by
  have bounds := Box.mem_cells.mp member axis
  have extent := Box.length_of_nonempty (Box.nonempty_of_mem member) axis
  obtain ⟨segment, within, above, below⟩ := exists_segment (tileCounts_pos axis)
    (show (index axis - domain.lo axis).toNat < (domain.length axis).toNat by omega)
  exact ⟨segment, within, by unfold InSegment; omega⟩

theorem packed_tiles (limits : Extent d) (fits : domain.Fits) (nonempty : ¬ domain.Empty) :
    Packed Box.cells domain.cells ((List.range (volume (tileCounts domain limits) (List.finRange d))).map
      (tile domain (tileCounts domain limits))) := by
  constructor
  · intro piece listed
    obtain ⟨ordinal, -, rfl⟩ := List.mem_map.mp listed
    rw [Ne, Finset.bot_eq_empty, ← Box.empty_iff_cells, Box.not_empty_iff]
    intro axis
    obtain ⟨-, upper⟩ := tile_corners limits fits nonempty ordinal axis
    have some := Box.length_pos nonempty axis
    have long : 0 < (domain.length axis).toNat := by omega
    have wide : 0 < segmentWidth (domain.length axis).toNat (tileCounts domain limits axis)
        (segmentOf domain limits ordinal axis) := segmentWidth_pos long
    omega
  · intro piece listed index member
    obtain ⟨ordinal, -, rfl⟩ := List.mem_map.mp listed
    rw [mem_tile fits nonempty] at member
    rw [Box.mem_cells]
    intro axis
    have bounds := member axis
    have extent := Box.length_of_nonempty nonempty axis
    have ending : segmentOffset (domain.length axis).toNat (tileCounts domain limits axis)
        (segmentOf domain limits ordinal axis) + segmentWidth (domain.length axis).toNat
          (tileCounts domain limits axis) (segmentOf domain limits ordinal axis) ≤
            (domain.length axis).toNat := segment_end_le (segmentOf_lt ordinal axis)
    unfold InSegment at bounds
    omega
  · rw [List.pairwise_map]
    refine List.nodup_range.imp_of_mem fun {left right} leftListed rightListed different => ?_
    rw [Finset.disjoint_left]
    intro index inLeft inRight
    rw [mem_tile fits nonempty] at inLeft inRight
    -- tiles that share a cell have the same segment along every axis
    apply different
    refine decode_injective (List.nodup_finRange d) (List.mem_range.mp leftListed)
      (List.mem_range.mp rightListed) (fun _ => 0) fun axis _ => ?_
    exact inSegment_unique (inLeft axis) (inRight axis)

theorem tiles_cover (limits : Extent d) (fits : domain.Fits) (member : index ∈ domain.cells) :
    ∃ box ∈ (List.range (volume (tileCounts domain limits) (List.finRange d))).map
      (tile domain (tileCounts domain limits)), index ∈ box.cells := by
  choose segment within found using exists_inSegment limits member
  have ordinal : encode (tileCounts domain limits) (List.finRange d) segment <
      volume (tileCounts domain limits) (List.finRange d) := encode_lt fun axis _ => within axis
  refine ⟨_, List.mem_map.mpr ⟨_, List.mem_range.mpr ordinal, rfl⟩, ?_⟩
  rw [mem_tile fits (Box.nonempty_of_mem member)]
  intro axis
  rw [segmentOf, decode_encode (List.nodup_finRange d) (fun a _ => within a) _ (List.mem_finRange axis)]
  exact found axis

end Tiles

/-- The tiles `from_domain` returns pack and cover the domain, and none is
longer than the maximum grid size. -/
theorem fromDomain_ok {limits : Extent d} {patches : BoxArray d} (fits : domain.Fits)
    (ran : fromDomain domain limits = .ok patches) :
    Packed Box.cells domain.cells patches.boxes ∧
      (∀ index ∈ domain.cells, ∃ box ∈ patches.boxes, index ∈ box.cells) ∧
      ∀ box ∈ patches.boxes, ∀ axis, box.length axis ≤ limits axis := by
  simp only [fromDomain, bind_ok, throwIf_ok, unit_exists, not_exists, not_le] at ran
  obtain ⟨positive, ran⟩ := ran
  split at ran
  · rename_i empty
    cases ran
    refine ⟨.nil, fun index member => ?_, by simp⟩
    exact absurd empty (Box.nonempty_of_mem member)
  · rename_i nonempty
    simp only [bind_ok, throwIf_ok, unit_exists, pure_ok] at ran
    obtain ⟨count, counted, -, rfl⟩ := ran
    rw [checkedVolume_ok counted]
    have packed := packed_tiles limits fits nonempty
    refine ⟨packed, fun index member => tiles_cover limits fits member, ?_⟩
    intro box listed axis
    have boxNonempty : ¬ box.Empty := by
      rw [Box.empty_iff_cells]
      exact packed.nonempty box listed
    obtain ⟨ordinal, -, rfl⟩ := List.mem_map.mp listed
    obtain ⟨-, upper⟩ := tile_corners limits fits nonempty ordinal axis
    rw [Box.length_of_nonempty boxNonempty]
    have limited := positive axis
    have natural : 0 < (limits axis).toNat := by omega
    have narrow : segmentWidth (domain.length axis).toNat (tileCounts domain limits axis)
        (segmentOf domain limits ordinal axis) ≤ (limits axis).toNat := segmentWidth_le natural
    change (tile domain (tileCounts domain limits) ordinal).hi axis -
      (tile domain (tileCounts domain limits) ordinal).lo axis + 1 ≤ limits axis
    omega

variable {patches : BoxArray d} {budget : BoxArrayValidationBudget}

private theorem disjointFrom_iff (earlier later : List (Box d)) :
    disjointFrom domain earlier later = true ↔
      (∀ box ∈ later, ¬ box.Empty ∧ box.cells ⊆ domain.cells) ∧
        (∀ box ∈ later, ∀ other ∈ earlier, Disjoint other.cells box.cells) ∧
          later.Pairwise fun left right => Disjoint left.cells right.cells := by
  induction later generalizing earlier with
  | nil => simp [disjointFrom]
  | cons box later ih =>
    unfold disjointFrom
    split
    · rename_i rejected
      simp only [Bool.false_eq_true, false_iff, not_and]
      intro valid
      have head := valid box (by simp)
      rw [Box.containsBox_iff] at rejected
      rcases rejected with empty | escapes
      · exact absurd empty head.1
      · exact absurd head escapes
    · rename_i accepted
      rw [not_or, not_not, Box.containsBox_iff] at accepted
      split
      · rename_i overlap
        obtain ⟨other, listed, meets⟩ := overlap
        rw [Box.intersect_empty_iff] at meets
        simp only [Bool.false_eq_true, false_iff, not_and]
        intro _ apart
        exact absurd (apart box (by simp) other listed).symm meets
      · rename_i apart
        push Not at apart
        simp only [ih, List.forall_mem_cons, List.pairwise_cons, List.mem_append, List.mem_singleton]
        have headApart : ∀ other ∈ earlier, Disjoint other.cells box.cells := fun other listed =>
          (Box.intersect_empty_iff.mp (apart other listed)).symm
        constructor
        · rintro ⟨inside, disjoint, rest⟩
          refine ⟨⟨accepted.2, inside⟩, ⟨headApart, fun b listed other before => ?_⟩, ?_, rest⟩
          · exact disjoint b listed other (.inl before)
          · exact fun b listed => disjoint b listed box (.inr rfl)
        · rintro ⟨⟨-, inside⟩, ⟨-, disjoint⟩, first, rest⟩
          refine ⟨inside, fun b listed other before => ?_, rest⟩
          rcases before with before | rfl
          · exact disjoint b listed other before
          · exact first b listed

variable {boxes : List (Box d)} {overflow : Exception}

theorem disjointFrom_iff_packed :
    disjointFrom domain [] boxes = true ↔ Packed Box.cells domain.cells boxes := by
  rw [disjointFrom_iff]
  constructor
  · rintro ⟨inside, -, apart⟩
    refine ⟨fun box listed => ?_, fun box listed => (inside box listed).2, apart⟩
    rw [Ne, Finset.bot_eq_empty, ← Box.empty_iff_cells]
    exact (inside box listed).1
  · intro packed
    refine ⟨fun box listed => ⟨?_, packed.inside box listed⟩, by simp, packed.disjoint⟩
    rw [Box.empty_iff_cells]
    exact packed.nonempty box listed

theorem isDisjointWithin_ok {answer : Bool}
    (ran : patches.isDisjointWithin domain budget = .ok answer) :
    answer = true ↔ Packed Box.cells domain.cells patches.boxes := by
  simp only [isDisjointWithin, bind_ok, pure_ok] at ran
  obtain ⟨-, -, rfl⟩ := ran
  exact disjointFrom_iff_packed

/-- The budget of a validation suffices. -/
def Affordable (patches : BoxArray d) (budget : BoxArrayValidationBudget) : Prop :=
  patches.requireBudget budget = .ok ()

theorem isDisjointWithin_of_packed (affordable : patches.Affordable budget)
    (packed : Packed Box.cells domain.cells patches.boxes) :
    patches.isDisjointWithin domain budget = .ok true := by
  unfold Affordable at affordable
  simp only [isDisjointWithin, affordable, ok_bind, disjointFrom_iff_packed.mpr packed]
  rfl

/-- The cells of all boxes of a list. -/
noncomputable def union (boxes : List (Box d)) : Finset (Index d) :=
  boxes.toFinset.biUnion Box.cells

theorem mem_union {index : Index d} :
    index ∈ union boxes ↔ ∃ box ∈ boxes, index ∈ box.cells := by
  simp [union]

theorem addCount_ok {total sum : ExactCellCount} {box : Box d} (fits : box.Fits)
    (ran : addCount overflow total box = .ok sum) :
    sum.value = total.value + box.cells.card := by
  simp only [addCount, bind_ok, throwIf_ok, unit_exists, pure_ok, Bool.not_eq_false] at ran
  obtain ⟨count, counted, fitted, rfl⟩ := ran
  rw [ExactCellCount.value_add fitted, ExactCellCount.value_fromBox fits counted]

theorem foldl_addCount_ok {before after : ExactCellCount} (fits : ∀ box ∈ boxes, box.Fits)
    (ran : boxes.foldlM (addCount overflow) before = .ok after) :
    after.value = before.value + (boxes.map fun box => box.cells.card).sum := by
  induction boxes generalizing before with
  | nil =>
    cases ran
    simp
  | cons box boxes ih =>
    rw [List.foldlM_cons, bind_ok] at ran
    obtain ⟨middle, first, rest⟩ := ran
    rw [ih (fun b listed => fits b (by simp [listed])) rest, addCount_ok (fits box (by simp)) first,
      List.map_cons, List.sum_cons, add_assoc]

theorem foldl_addCount_fits {before : ExactCellCount} (fits : ∀ box ∈ boxes, box.Fits)
    (room : before.value + (boxes.map fun box => box.cells.card).sum < 4294967296 ^ 4) :
    ∃ after, boxes.foldlM (addCount overflow) before = .ok after := by
  induction boxes generalizing before with
  | nil => exact ⟨before, rfl⟩
  | cons box boxes ih =>
    rw [List.map_cons, List.sum_cons, ← add_assoc] at room
    obtain ⟨count, counted⟩ := ExactCellCount.fromBox_fits (fits box (by simp)) (by omega)
    have exact := ExactCellCount.value_fromBox (fits box (by simp)) counted
    have fitted : (before.add count).2 = true := by
      rw [ExactCellCount.add_iff, exact]
      omega
    have first : addCount overflow before box = .ok (before.add count).1 := by
      simp [addCount, counted, fitted, throwIf]
    have total := addCount_ok (fits box (by simp)) first
    rw [← total] at room
    obtain ⟨after, rest⟩ := ih (fun b listed => fits b (by simp [listed])) room
    exact ⟨after, by rw [List.foldlM_cons, first, ok_bind, rest]⟩

theorem patch_unique (disjoint : boxes.Pairwise fun left right => Disjoint left.cells right.cells)
    {first second : ℕ} {box other : Box d} (here : boxes[first]? = some box) (there : boxes[second]? = some other)
    {cell : Index d} (member : cell ∈ box.cells) (otherMember : cell ∈ other.cells) : first = second := by
  obtain ⟨firstKnown, rfl⟩ := List.getElem?_eq_some_iff.mp here
  obtain ⟨secondKnown, rfl⟩ := List.getElem?_eq_some_iff.mp there
  have apart := List.pairwise_iff_getElem.mp disjoint
  rcases Nat.lt_trichotomy first second with before | same | after
  · exact absurd otherMember (Finset.disjoint_left.mp (apart _ _ firstKnown secondKnown before) member)
  · exact same
  · exact absurd member (Finset.disjoint_left.mp (apart _ _ secondKnown firstKnown after) otherMember)

theorem card_cells_le_pow (fits : domain.Fits) : domain.cells.card ≤ 4294967296 ^ d := by
  by_cases empty : domain.Empty
  · rw [Box.empty_iff_cells.mp empty, Finset.card_empty]
    exact Nat.zero_le _
  · rw [← ExactCellCount.card_cells_prod empty, ← Fin.prod_univ_def]
    calc ∏ axis, (domain.length axis).toNat ≤ ∏ _axis : Fin d, 4294967296 := by
          refine Finset.prod_le_prod (fun _ _ => Nat.zero_le _) fun axis _ => ?_
          have := ExactCellCount.length_lt fits axis
          omega
      _ = 4294967296 ^ d := by simp

theorem card_union (apart : boxes.Pairwise fun left right => Disjoint left.cells right.cells)
    (region : Finset (Index d)) :
    (boxes.map fun box => (region ∩ box.cells).card).sum = (region ∩ union boxes).card := by
  induction boxes with
  | nil => simp [union]
  | cons box boxes ih =>
    obtain ⟨head, rest⟩ := List.pairwise_cons.mp apart
    have split : region ∩ union (box :: boxes) = (region ∩ box.cells) ∪ (region ∩ union boxes) := by
      ext index
      simp only [Finset.mem_inter, Finset.mem_union, mem_union, List.mem_cons, exists_eq_or_imp]
      tauto
    have disjoint : Disjoint (region ∩ box.cells) (region ∩ union boxes) := by
      rw [Finset.disjoint_left]
      intro index inBox inRest
      obtain ⟨other, listed, member⟩ := mem_union.mp (Finset.mem_inter.mp inRest).2
      exact Finset.disjoint_left.mp (head other listed) (Finset.mem_inter.mp inBox).2 member
    rw [List.map_cons, List.sum_cons, ih rest, split, Finset.card_union_of_disjoint disjoint]

/-- The part of a region inside disjoint boxes is all of it exactly when the
counts agree. -/
theorem card_inter_eq_iff {region : Finset (Index d)} :
    (region ∩ union boxes).card = region.card ↔ ∀ index ∈ region, ∃ box ∈ boxes, index ∈ box.cells := by
  constructor
  · intro same index member
    have whole := Finset.eq_of_subset_of_card_le Finset.inter_subset_left same.ge
    rw [← whole] at member
    exact mem_union.mp (Finset.mem_inter.mp member).2
  · intro covered
    congr 1
    exact Finset.inter_eq_left.mpr fun index member => mem_union.mpr (covered index member)

theorem fits_of_packed (fits : domain.Fits)
    (packed : Packed Box.cells domain.cells boxes) : ∀ box ∈ boxes, box.Fits := by
  intro box listed
  refine fits.subset ?_ (packed.inside box listed)
  rw [Box.empty_iff_cells]
  exact packed.nonempty box listed

theorem sum_card_eq (packed : Packed Box.cells domain.cells boxes) :
    (boxes.map fun box => box.cells.card).sum = (domain.cells ∩ union boxes).card := by
  rw [← card_union packed.disjoint]
  congr 1
  refine List.map_congr_left fun box listed => ?_
  rw [Finset.inter_eq_right.mpr (packed.inside box listed)]

theorem tilesExactly_ok (fits : domain.Fits) (nonempty : ¬ domain.Empty) {answer : Bool}
    (ran : patches.tilesExactly domain budget = .ok answer) :
    answer = true ↔ Packed Box.cells domain.cells patches.boxes ∧
      ∀ index ∈ domain.cells, ∃ box ∈ patches.boxes, index ∈ box.cells := by
  simp only [tilesExactly, if_neg nonempty, bind_ok] at ran
  obtain ⟨disjoint, checked, ran⟩ := ran
  have packed := isDisjointWithin_ok checked
  split at ran
  · rename_i apart
    simp only [bind_ok, pure_ok] at ran
    obtain ⟨total, summed, whole, counted, rfl⟩ := ran
    have inside := packed.mp apart
    have sum := foldl_addCount_ok (fits_of_packed fits inside) summed
    rw [ExactCellCount.value_zero, zero_add, sum_card_eq inside] at sum
    have all := ExactCellCount.value_fromBox fits counted
    rw [decide_eq_true_eq, ← card_inter_eq_iff, ← sum, ← all]
    constructor
    · rintro rfl
      exact ⟨inside, rfl⟩
    · rintro ⟨-, same⟩
      exact ExactCellCount.value_injective same
  · rename_i apart
    cases ran
    simp only [Bool.false_eq_true, false_iff, not_and]
    intro inside
    exact absurd (packed.mpr inside) apart

end Pops.BoxArray
