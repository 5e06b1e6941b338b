import Mathlib.Data.Int.ConditionallyCompleteOrder
import Mathlib.Data.Int.Interval
import Mathlib.Algebra.BigOperators.Fin
import Mathlib.Tactic.Ring
import Mathlib.Tactic.Linarith
import Pops.Checked

/-!
Inclusive index boxes, as `mesh/index/box.hpp` defines them. Coordinates are
unbounded integers here, and every place where the source narrows one to
`int` keeps its check. The meaning of a box is its finite set of cells.
-/
namespace Pops

/-- A cell or face coordinate per axis. -/
abbrev Index (d : ℕ) := Fin d → ℤ

/-- A non-negative size per axis. -/
abbrev Extent (d : ℕ) := Fin d → ℤ

def intMin : ℤ := -2147483648
def intMax : ℤ := 2147483647
def int64Max : ℤ := 9223372036854775807
def int64Min : ℤ := -9223372036854775808
def sizeMax : ℕ := 18446744073709551615

/-- The value is representable as `int`. -/
def FitsInt (value : ℤ) : Prop := intMin ≤ value ∧ value ≤ intMax

instance (value : ℤ) : Decidable (FitsInt value) := inferInstanceAs (Decidable (_ ∧ _))

theorem FitsInt.between {low value high : ℤ} (lowFits : FitsInt low) (highFits : FitsInt high)
    (above : low ≤ value) (below : value ≤ high) : FitsInt value :=
  ⟨lowFits.1.trans above, below.trans highFits.2⟩

/-- `checked_box_index` and its siblings: narrow to `int` or throw. -/
def checkedIndex (value : ℤ) (operation : String) : Checked ℤ :=
  if FitsInt value then .ok value else .error (.overflowError operation)

theorem checkedIndex_ok {value r : ℤ} {operation : String} :
    checkedIndex value operation = .ok r ↔ FitsInt value ∧ value = r := by
  unfold checkedIndex
  split <;> simp_all

/-- `static_cast<int>` of a wider integer. -/
def castInt (value : ℤ) : ℤ := value.bmod 4294967296

theorem castInt_of_fits {value : ℤ} (fits : FitsInt value) : castInt value = value := by
  unfold FitsInt intMin intMax at fits
  unfold castInt
  rw [Int.bmod_eq_iff (by norm_num)]
  omega

/-- `floor_div` and its siblings: truncating division, corrected to round down. -/
def floorDiv (numerator denominator : ℤ) : ℤ :=
  let quotient := numerator.tdiv denominator
  let remainder := numerator.tmod denominator
  if remainder < 0 then quotient - 1 else quotient

/-- The corrected quotient rounds down, also for negative numerators. -/
theorem floorDiv_eq (numerator : ℤ) {denominator : ℤ} (positive : 0 < denominator) :
    floorDiv numerator denominator = numerator / denominator := by
  have low := Int.emod_nonneg numerator positive.ne'
  have high := Int.emod_lt_of_pos numerator positive
  unfold floorDiv
  simp only [Int.tdiv_eq_ediv, Int.tmod_eq_emod, Int.sign_eq_one_of_pos positive]
  by_cases exact : 0 ≤ numerator ∨ denominator ∣ numerator
  · simp [exact, not_lt.mpr low]
  · simp [exact, abs_of_pos positive, high]

/-- Run a checked computation on every axis, axis 0 first. -/
def axes {d : ℕ} {α : Type} (f : Fin d → Checked α) : Checked (Fin d → α) :=
  match d with
  | 0 => .ok Fin.elim0
  | _ + 1 => do
    let head ← f 0
    let tail ← axes fun axis => f axis.succ
    return Fin.cons head tail

/-- A loop over the axes returns exactly when each axis does. -/
theorem axes_ok {d : ℕ} {α : Type} {f : Fin d → Checked α} {r : Fin d → α} :
    axes f = .ok r ↔ ∀ axis, f axis = .ok (r axis) := by
  induction d with
  | zero =>
    refine ⟨fun _ axis => axis.elim0, fun _ => ?_⟩
    rw [axes, Subsingleton.elim r Fin.elim0]
  | succ d ih =>
    simp only [axes, bind_ok, pure_ok]
    constructor
    · rintro ⟨head, first, tail, rest, rfl⟩ axis
      refine Fin.cases ?_ (fun axis => ?_) axis
      · simpa using first
      · simpa using ih.mp rest axis
    · intro each
      exact ⟨r 0, each 0, fun axis => r axis.succ, ih.mpr fun axis => each axis.succ,
        Fin.cons_self_tail r⟩

/-- An inclusive integer box. It is empty when any upper bound is below its
lower bound. -/
structure Box (d : ℕ) where
  lo : Index d
  hi : Index d

instance {d : ℕ} : DecidableEq (Box d) := fun ⟨lo, hi⟩ ⟨otherLo, otherHi⟩ =>
  decidable_of_iff (lo = otherLo ∧ hi = otherHi) (by simp)

namespace Box
variable {d : ℕ}

/-- The default box, empty along every axis. -/
def default : Box d := ⟨fun _ => 0, fun _ => -1⟩

/-- Every coordinate is an `int`, as the source's type has it. -/
def Fits (box : Box d) : Prop := ∀ axis, FitsInt (box.lo axis) ∧ FitsInt (box.hi axis)

instance (box : Box d) : Decidable box.Fits := inferInstanceAs (Decidable (∀ _, _))

/-- `empty()`. -/
def Empty (box : Box d) : Prop := ∃ axis, box.hi axis < box.lo axis

instance (box : Box d) : Decidable box.Empty := inferInstanceAs (Decidable (∃ _, _))

/-- `length(axis)`: the extent along an axis, zero along every axis of an
empty box. -/
def length (box : Box d) (axis : Fin d) : ℤ :=
  if box.Empty then 0 else box.hi axis - box.lo axis + 1

/-- `contains(index)`. -/
def Contains (box : Box d) (index : Index d) : Prop :=
  ¬ box.Empty ∧ ∀ axis, box.lo axis ≤ index axis ∧ index axis ≤ box.hi axis

instance (box : Box d) (index : Index d) : Decidable (box.Contains index) :=
  inferInstanceAs (Decidable (_ ∧ _))

/-- `contains(other)`. -/
def ContainsBox (box other : Box d) : Prop :=
  ¬ other.Empty ∧ ∀ axis, box.lo axis ≤ other.lo axis ∧ other.hi axis ≤ box.hi axis

instance (box other : Box d) : Decidable (box.ContainsBox other) :=
  inferInstanceAs (Decidable (_ ∧ _))

/-- `intersect(other)`. -/
def intersect (box other : Box d) : Box d where
  lo axis := if box.lo axis < other.lo axis then other.lo axis else box.lo axis
  hi axis := if box.hi axis < other.hi axis then box.hi axis else other.hi axis

/-- The loop of `numPts()`, one axis at a time. -/
def countStep (box : Box d) (count : ℤ) (axis : Fin d) : Checked ℤ := do
  throwIf (count > int64Max / box.length axis)
    (.overflowError "pops::Box::numPts: point count exceeds int64_t")
  return count * box.length axis

/-- `numPts()`. -/
def numPts (box : Box d) : Checked ℤ :=
  if box.Empty then .ok 0 else (List.finRange d).foldlM box.countStep 1

/-! ### The cells of a box -/

/-- The cells a box stands for. -/
noncomputable def cells (box : Box d) : Finset (Index d) :=
  Fintype.piFinset fun axis => Finset.Icc (box.lo axis) (box.hi axis)

variable {box other : Box d} {index : Index d}

@[simp]
theorem mem_cells : index ∈ box.cells ↔ ∀ axis, box.lo axis ≤ index axis ∧ index axis ≤ box.hi axis :=
  Fintype.mem_piFinset.trans (forall_congr' fun _ => Finset.mem_Icc)

theorem not_empty_iff : ¬ box.Empty ↔ ∀ axis, box.lo axis ≤ box.hi axis :=
  not_exists.trans (forall_congr' fun _ => not_lt)

theorem nonempty_of_mem (member : index ∈ box.cells) : ¬ box.Empty := by
  rw [mem_cells] at member
  exact not_empty_iff.mpr fun axis => (member axis).1.trans (member axis).2

/-- A box is empty exactly when it has no cell. -/
theorem empty_iff_cells : box.Empty ↔ box.cells = ∅ := by
  constructor
  · intro empty
    by_contra some
    obtain ⟨index, member⟩ := Finset.nonempty_of_ne_empty some
    exact nonempty_of_mem member empty
  · intro none
    by_contra some
    have corner : box.lo ∈ box.cells :=
      mem_cells.mpr fun axis => ⟨le_rfl, not_empty_iff.mp some axis⟩
    rw [none] at corner
    exact Finset.notMem_empty _ corner

theorem lo_mem (nonempty : ¬ box.Empty) : box.lo ∈ box.cells :=
  mem_cells.mpr fun axis => ⟨le_rfl, not_empty_iff.mp nonempty axis⟩

theorem hi_mem (nonempty : ¬ box.Empty) : box.hi ∈ box.cells :=
  mem_cells.mpr fun axis => ⟨not_empty_iff.mp nonempty axis, le_rfl⟩

@[simp]
theorem contains_iff : box.Contains index ↔ index ∈ box.cells := by
  constructor
  · exact fun inside => mem_cells.mpr inside.2
  · exact fun member => ⟨nonempty_of_mem member, mem_cells.mp member⟩

/-- Containment of boxes is containment of cells, for a non-empty inner box. -/
theorem containsBox_iff : box.ContainsBox other ↔ ¬ other.Empty ∧ other.cells ⊆ box.cells := by
  refine and_congr_right fun nonempty => ⟨fun bounds index member => ?_, fun inside axis => ?_⟩
  · rw [mem_cells] at member ⊢
    exact fun axis => ⟨(bounds axis).1.trans (member axis).1, (member axis).2.trans (bounds axis).2⟩
  · exact ⟨(mem_cells.mp (inside (lo_mem nonempty)) axis).1,
      (mem_cells.mp (inside (hi_mem nonempty)) axis).2⟩

/-- A non-empty box inside a box of `int` coordinates has `int` coordinates. -/
theorem Fits.subset (fits : box.Fits) (nonempty : ¬ other.Empty) (inside : other.cells ⊆ box.cells) :
    other.Fits := by
  intro axis
  have low := mem_cells.mp (inside (lo_mem nonempty)) axis
  have high := mem_cells.mp (inside (hi_mem nonempty)) axis
  exact ⟨(fits axis).1.between (fits axis).2 low.1 low.2,
    (fits axis).1.between (fits axis).2 high.1 high.2⟩

/-- Intersection of boxes is intersection of cells. -/
@[simp]
theorem cells_intersect : (box.intersect other).cells = box.cells ∩ other.cells := by
  ext index
  simp only [mem_cells, Finset.mem_inter, intersect, ← forall_and]
  refine forall_congr' fun axis => ?_
  split <;> split <;> omega

/-- Two boxes meet in an empty box exactly when they share no cell. -/
theorem intersect_empty_iff : (box.intersect other).Empty ↔ Disjoint box.cells other.cells := by
  rw [empty_iff_cells, cells_intersect, Finset.disjoint_iff_inter_eq_empty]

theorem length_of_nonempty (nonempty : ¬ box.Empty) (axis : Fin d) :
    box.length axis = box.hi axis - box.lo axis + 1 :=
  if_neg nonempty

theorem length_pos (nonempty : ¬ box.Empty) (axis : Fin d) : 0 < box.length axis := by
  rw [length_of_nonempty nonempty]
  have := not_empty_iff.mp nonempty axis
  omega

/-- The number of cells of a non-empty box is the product of its lengths. -/
theorem card_cells (nonempty : ¬ box.Empty) : (box.cells.card : ℤ) = ∏ axis, box.length axis := by
  rw [cells, Fintype.card_piFinset]
  push_cast
  refine Finset.prod_congr rfl fun axis _ => ?_
  have positive := length_pos nonempty axis
  rw [length_of_nonempty nonempty] at positive ⊢
  rw [Int.card_Icc]
  omega

end Box

end Pops
