import Pops.Box
import Pops.MixedRadix

/-!
The traversal of the cells of a box by one flat ordinal, axis 0 fastest, as
`for_each_index_` of `amr/tagging/tag_mask.hpp` and the transfer kernels do it.
-/
namespace Pops
open MixedRadix

variable {d : ℕ}

namespace Box

/-- `static_cast<size_t>(box.length(axis))`. -/
def counts (box : Box d) (axis : Fin d) : ℕ := (box.length axis).toNat

/-- The cell `for_each_index_` visits at an ordinal. -/
def indexAt (box : Box d) (ordinal : ℕ) : Index d := fun axis =>
  castInt (box.lo axis + (decode box.counts (List.finRange d) ordinal fun _ => 0).1 axis)

/-- The cells `for_each_index_` visits, in order. -/
def forEachIndex (box : Box d) : Checked (List (Index d)) := do
  let count ← box.numPts
  return (List.range count.toNat).map box.indexAt

/-- The offset of a cell from the lower corner. -/
def offset (box : Box d) (index : Index d) (axis : Fin d) : ℕ := (index axis - box.lo axis).toNat

/-- The position of a cell in the storage of its patch. -/
def linear (box : Box d) (index : Index d) : ℕ :=
  strided box.counts (box.offset index) (List.finRange d) 0 1

/-! ### The cells a traversal visits -/

variable {box : Box d} {index : Index d}

theorem cast_counts (nonempty : ¬ box.Empty) (axis : Fin d) :
    (box.counts axis : ℤ) = box.hi axis - box.lo axis + 1 := by
  rw [counts, Int.toNat_of_nonneg (length_pos nonempty axis).le, length_of_nonempty nonempty]

theorem counts_pos (nonempty : ¬ box.Empty) (axis : Fin d) : 0 < box.counts axis := by
  have := length_pos nonempty axis
  unfold counts
  omega

theorem numPts_ok {count : ℤ} (nonempty : ¬ box.Empty) (ran : box.numPts = .ok count) :
    count = volume box.counts (List.finRange d) := by
  rw [numPts, if_neg nonempty] at ran
  have facts := foldlM_ok_invariant (fun done total => total = (volume box.counts done : ℤ))
    (fun done axis before after held stepped => by
      simp only [countStep, bind_ok, throwIf_ok, unit_exists, pure_ok] at stepped
      have length : (box.counts axis : ℤ) = box.length axis :=
        Int.toNat_of_nonneg (length_pos nonempty axis).le
      rw [← stepped.2, held, volume, volume, ← length]
      simp)
    (List.finRange d) 1 count [] (by simp) ran
  simpa using facts

theorem indexAt_mem (fits : box.Fits) (nonempty : ¬ box.Empty) (ordinal : ℕ) :
    box.indexAt ordinal ∈ box.cells ∧ ∀ axis, box.indexAt ordinal axis =
      box.lo axis + (decode box.counts (List.finRange d) ordinal fun _ => 0).1 axis := by
  have digit (axis : Fin d) : (decode box.counts (List.finRange d) ordinal fun _ => 0).1 axis <
      box.counts axis :=
    decode_lt (fun a _ => counts_pos nonempty a) (List.mem_finRange axis) _ _
  have exactly (axis : Fin d) : box.indexAt ordinal axis =
      box.lo axis + (decode box.counts (List.finRange d) ordinal fun _ => 0).1 axis := by
    have bound := digit axis
    have width := cast_counts nonempty axis
    exact castInt_of_fits ((fits axis).1.between (fits axis).2 (by omega) (by omega))
  refine ⟨mem_cells.mpr fun axis => ?_, exactly⟩
  have bound := digit axis
  have width := cast_counts nonempty axis
  have := exactly axis
  omega

theorem exists_indexAt (fits : box.Fits) (member : index ∈ box.cells) :
    ∃ ordinal < volume box.counts (List.finRange d), box.indexAt ordinal = index := by
  have nonempty := nonempty_of_mem member
  have within (axis : Fin d) : box.offset index axis < box.counts axis := by
    have bounds := mem_cells.mp member axis
    have width := cast_counts nonempty axis
    unfold offset
    omega
  refine ⟨encode box.counts (List.finRange d) (box.offset index), encode_lt fun axis _ => within axis,
    funext fun axis => ?_⟩
  rw [(indexAt_mem fits nonempty _).2 axis,
    decode_encode (List.nodup_finRange d) (fun a _ => within a) _ (List.mem_finRange axis)]
  have bounds := mem_cells.mp member axis
  unfold offset
  omega

theorem indexAt_injective (fits : box.Fits) (nonempty : ¬ box.Empty) {first second : ℕ}
    (firstBelow : first < volume box.counts (List.finRange d))
    (secondBelow : second < volume box.counts (List.finRange d))
    (same : box.indexAt first = box.indexAt second) : first = second := by
  refine decode_injective (List.nodup_finRange d) firstBelow secondBelow (fun _ => 0) fun axis _ => ?_
  have left := (indexAt_mem fits nonempty first).2 axis
  have right := (indexAt_mem fits nonempty second).2 axis
  rw [same] at left
  omega

theorem mem_forEachIndex (fits : box.Fits) (nonempty : ¬ box.Empty) {visited : List (Index d)}
    (ran : box.forEachIndex = .ok visited) : index ∈ visited ↔ index ∈ box.cells := by
  simp only [forEachIndex, bind_ok, pure_ok] at ran
  obtain ⟨count, counted, rfl⟩ := ran
  rw [numPts_ok nonempty counted, Int.toNat_natCast, List.mem_map]
  constructor
  · rintro ⟨ordinal, -, rfl⟩
    exact (indexAt_mem fits nonempty ordinal).1
  · intro member
    obtain ⟨ordinal, below, found⟩ := exists_indexAt fits member
    exact ⟨ordinal, List.mem_range.mpr below, found⟩

end Box

end Pops
