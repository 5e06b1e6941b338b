import Pops.Box
import Pops.Packing

/-!
The box operations halo and coarse/fine schedules are made of: the checked
translation and growth of `mesh/index/box.hpp`, and the cut of one box out of
another into disjoint boxes, of which both schedules have a copy.
-/
namespace Pops

namespace Box
variable {d : ℕ}

/-- `shift(offset)`. -/
def shift (box : Box d) (offset : Index d) : Checked (Box d) :=
  if box.Empty then .ok box
  else do
    let corners ← axes fun axis => do
      let lo ← checkedIndex (box.lo axis + offset axis) "pops::Box::shift: lower bound overflow"
      let hi ← checkedIndex (box.hi axis + offset axis) "pops::Box::shift: upper bound overflow"
      return (lo, hi)
    return ⟨fun axis => (corners axis).1, fun axis => (corners axis).2⟩

/-- `grow(axis, amount)`. -/
def growAxis (box : Box d) (axis : Fin d) (amount : ℤ) : Checked (Box d) :=
  if box.Empty then .ok box
  else do
    let lo ← checkedIndex (box.lo axis - amount) "pops::Box::grow: lower bound overflow"
    let hi ← checkedIndex (box.hi axis + amount) "pops::Box::grow: upper bound overflow"
    return ⟨Function.update box.lo axis lo, Function.update box.hi axis hi⟩

/-- The axis loop of `subtract`. -/
def subtractAxes (overlap : Box d) : List (Fin d) → Box d → List (Box d)
  | [], _ => []
  | axis :: rest, remainder =>
    let lower := if remainder.lo axis < overlap.lo axis then
      [{ remainder with hi := Function.update remainder.hi axis (overlap.lo axis - 1) }] else []
    let raised := if remainder.lo axis < overlap.lo axis then
      { remainder with lo := Function.update remainder.lo axis (overlap.lo axis) } else remainder
    let upper := if overlap.hi axis < raised.hi axis then
      [{ raised with lo := Function.update raised.lo axis (overlap.hi axis + 1) }] else []
    let lowered := if overlap.hi axis < raised.hi axis then
      { raised with hi := Function.update raised.hi axis (overlap.hi axis) } else raised
    lower ++ upper ++ subtractAxes overlap rest lowered

/-- `subtract(subject, cut)`, for a subject that is not empty. -/
def subtract (subject cut : Box d) : List (Box d) :=
  let overlap := subject.intersect cut
  if overlap.Empty then [subject]
  else if overlap = subject then []
  else subtractAxes overlap (List.finRange d) subject

variable {box : Box d} {offset : Index d} {index : Index d}

/-- The box moved by an offset, without range checks. -/
def translate (box : Box d) (offset : Index d) : Box d :=
  ⟨fun axis => box.lo axis + offset axis, fun axis => box.hi axis + offset axis⟩

theorem mem_translate : index ∈ (box.translate offset).cells ↔
    (fun axis => index axis - offset axis) ∈ box.cells := by
  simp only [mem_cells, translate]
  refine forall_congr' fun axis => ?_
  omega

theorem shift_ok {shifted : Box d} (nonempty : ¬ box.Empty) (ran : box.shift offset = .ok shifted) :
    shifted = box.translate offset ∧ shifted.Fits := by
  simp only [shift, if_neg nonempty, bind_ok, axes_ok, pure_ok, checkedIndex_ok] at ran
  obtain ⟨corners, each, rfl⟩ := ran
  have moved (axis : Fin d) : corners axis = (box.lo axis + offset axis, box.hi axis + offset axis) ∧
      FitsInt (box.lo axis + offset axis) ∧ FitsInt (box.hi axis + offset axis) := by
    obtain ⟨lo, ⟨lowFits, rfl⟩, hi, ⟨highFits, rfl⟩, same⟩ := each axis
    exact ⟨same.symm, lowFits, highFits⟩
  constructor
  · unfold translate
    congr 1 <;> funext axis <;> rw [(moved axis).1]
  · intro axis
    simp only [(moved axis).1]
    exact (moved axis).2

theorem growAxis_ok {axis : Fin d} {amount : ℤ} {grown : Box d} (nonempty : ¬ box.Empty)
    (ran : box.growAxis axis amount = .ok grown) :
    grown = ⟨Function.update box.lo axis (box.lo axis - amount),
      Function.update box.hi axis (box.hi axis + amount)⟩ := by
  simp only [growAxis, if_neg nonempty, bind_ok, pure_ok, checkedIndex_ok] at ran
  obtain ⟨lo, ⟨-, rfl⟩, hi, ⟨-, rfl⟩, rfl⟩ := ran
  rfl

variable {overlap remainder : Box d} {axis : Fin d}

/-- The overlap is a non-empty part of the remainder. -/
def Inside (overlap remainder : Box d) : Prop :=
  (∀ axis, overlap.lo axis ≤ overlap.hi axis) ∧
    ∀ axis, remainder.lo axis ≤ overlap.lo axis ∧ overlap.hi axis ≤ remainder.hi axis

/-- The cells of a box between two bounds on one axis. -/
def between (box : Box d) (axis : Fin d) (lower upper : ℤ) : Box d :=
  ⟨Function.update box.lo axis lower, Function.update box.hi axis upper⟩

theorem mem_between {lower upper : ℤ} (above : box.lo axis ≤ lower) (below : upper ≤ box.hi axis) :
    index ∈ (box.between axis lower upper).cells ↔
      index ∈ box.cells ∧ lower ≤ index axis ∧ index axis ≤ upper := by
  simp only [mem_cells, between]
  constructor
  · intro member
    have here := member axis
    simp only [Function.update_self] at here
    refine ⟨fun other => ?_, here⟩
    by_cases same : other = axis
    · subst same
      exact ⟨above.trans here.1, here.2.trans below⟩
    · simpa only [Function.update_of_ne same] using member other
  · rintro ⟨member, bounds⟩ other
    by_cases same : other = axis
    · subst same
      simpa only [Function.update_self] using bounds
    · simpa only [Function.update_of_ne same] using member other

theorem Inside.between (inside : overlap.Inside remainder) (axis : Fin d) :
    overlap.Inside (remainder.between axis (overlap.lo axis) (overlap.hi axis)) := by
  refine ⟨inside.1, fun other => ?_⟩
  by_cases same : other = axis
  · subst same
    simp [Box.between]
  · simpa [Box.between, Function.update_of_ne same] using inside.2 other

theorem subtractAxes_cons (inside : overlap.Inside remainder) (rest : List (Fin d)) :
    subtractAxes overlap (axis :: rest) remainder =
      (if remainder.lo axis < overlap.lo axis then
        [remainder.between axis (remainder.lo axis) (overlap.lo axis - 1)] else []) ++
      (if overlap.hi axis < remainder.hi axis then
        [remainder.between axis (overlap.hi axis + 1) (remainder.hi axis)] else []) ++
      subtractAxes overlap rest (remainder.between axis (overlap.lo axis) (overlap.hi axis)) := by
  have bounds := inside.2 axis
  have raised : (if remainder.lo axis < overlap.lo axis then
      ({ remainder with lo := Function.update remainder.lo axis (overlap.lo axis) } : Box d) else remainder) =
      { remainder with lo := Function.update remainder.lo axis (overlap.lo axis) } := by
    split
    · rfl
    · have level : overlap.lo axis = remainder.lo axis := by omega
      rw [level, Function.update_eq_self]
  have lowered : (if overlap.hi axis < remainder.hi axis then
      (⟨Function.update remainder.lo axis (overlap.lo axis), Function.update remainder.hi axis (overlap.hi axis)⟩ :
        Box d)
      else { remainder with lo := Function.update remainder.lo axis (overlap.lo axis) }) =
      ⟨Function.update remainder.lo axis (overlap.lo axis), Function.update remainder.hi axis (overlap.hi axis)⟩ := by
    split
    · rfl
    · have level : overlap.hi axis = remainder.hi axis := by omega
      rw [level, Function.update_eq_self]
  rw [subtractAxes]
  simp only [raised, lowered, Function.update_idem, Box.between, Function.update_eq_self]

theorem between_nonempty (inside : overlap.Inside remainder) {lower upper : ℤ} (forward : lower ≤ upper) :
    ¬ (remainder.between axis lower upper).Empty := by
  rw [not_empty_iff]
  intro other
  have width := inside.1 other
  have bounds := inside.2 other
  by_cases same : other = axis
  · subst same
    simpa [between] using forward
  · simp only [between, Function.update_of_ne same]
    omega

theorem packed_slab {slab : Box d} {listed : Prop} [Decidable listed] (nonempty : listed → ¬ slab.Empty) :
    Packed Box.cells slab.cells (if listed then [slab] else []) := by
  split
  · rename_i holds
    refine .singleton ?_ le_rfl
    rw [Ne, Finset.bot_eq_empty, ← empty_iff_cells]
    exact nonempty holds
  · exact .nil

theorem exists_slab {slab : Box d} {listed : Prop} [Decidable listed] (otherwise : ¬ listed → slab.Empty) :
    (∃ piece ∈ if listed then [slab] else [], index ∈ piece.cells) ↔ index ∈ slab.cells := by
  split
  · simp
  · rename_i fails
    rw [empty_iff_cells.mp (otherwise fails)]
    simp

/-- The pieces are what leaves the overlap on one of the listed axes, and they
do not meet. -/
theorem subtractAxes_packed (overlap : Box d) (axes : List (Fin d)) (remainder : Box d)
    (inside : overlap.Inside remainder) :
    Packed Box.cells remainder.cells (subtractAxes overlap axes remainder) ∧
      ∀ index, (∃ piece ∈ subtractAxes overlap axes remainder, index ∈ piece.cells) ↔
        index ∈ remainder.cells ∧ ∃ axis ∈ axes, ¬ (overlap.lo axis ≤ index axis ∧ index axis ≤ overlap.hi axis) := by
  induction axes generalizing remainder with
  | nil => exact ⟨.nil, by simp [subtractAxes]⟩
  | cons axis rest ih =>
    obtain ⟨packed, covers⟩ := ih _ (inside.between axis)
    have bounds := inside.2 axis
    have width := inside.1 axis
    rw [subtractAxes_cons inside]
    set low := remainder.between axis (remainder.lo axis) (overlap.lo axis - 1) with lowEq
    set high := remainder.between axis (overlap.hi axis + 1) (remainder.hi axis) with highEq
    set level := remainder.between axis (overlap.lo axis) (overlap.hi axis) with levelEq
    have memLow (index : Index d) : index ∈ low.cells ↔ index ∈ remainder.cells ∧ index axis < overlap.lo axis := by
      rw [lowEq, mem_between le_rfl (by omega)]
      refine and_congr_right fun member => ?_
      have := mem_cells.mp member axis
      omega
    have memHigh (index : Index d) : index ∈ high.cells ↔ index ∈ remainder.cells ∧ overlap.hi axis < index axis := by
      rw [highEq, mem_between (by omega) le_rfl]
      refine and_congr_right fun member => ?_
      have := mem_cells.mp member axis
      omega
    have memLevel (index : Index d) : index ∈ level.cells ↔
        index ∈ remainder.cells ∧ overlap.lo axis ≤ index axis ∧ index axis ≤ overlap.hi axis :=
      mem_between bounds.1 bounds.2
    have lowPacked : Packed Box.cells low.cells (if remainder.lo axis < overlap.lo axis then [low] else []) :=
      packed_slab fun below => between_nonempty inside (by omega)
    have highPacked : Packed Box.cells high.cells (if overlap.hi axis < remainder.hi axis then [high] else []) :=
      packed_slab fun above => between_nonempty inside (by omega)
    have sidesApart : Disjoint low.cells high.cells := by
      refine Finset.disjoint_left.mpr fun index inLow inHigh => ?_
      have := ((memLow index).mp inLow).2
      have := ((memHigh index).mp inHigh).2
      omega
    have levelApart : Disjoint (low.cells ⊔ high.cells) level.cells := by
      refine Finset.disjoint_left.mpr fun index inSides inLevel => ?_
      have beside := ((memLevel index).mp inLevel).2
      rcases Finset.mem_union.mp inSides with inLow | inHigh
      · have := ((memLow index).mp inLow).2
        omega
      · have := ((memHigh index).mp inHigh).2
        omega
    have lowInside : low.cells ≤ remainder.cells := fun index member => ((memLow index).mp member).1
    have highInside : high.cells ≤ remainder.cells := fun index member => ((memHigh index).mp member).1
    have levelInside : level.cells ≤ remainder.cells := fun index member => ((memLevel index).mp member).1
    have sides := lowPacked.append highPacked sidesApart le_sup_left le_sup_right
    refine ⟨sides.append packed levelApart (sup_le lowInside highInside) levelInside, fun index => ?_⟩
    have lowListed : (∃ piece ∈ if remainder.lo axis < overlap.lo axis then [low] else [], index ∈ piece.cells) ↔
        index ∈ low.cells :=
      exists_slab fun level => ⟨axis, by simp only [lowEq, between, Function.update_self]; omega⟩
    have highListed : (∃ piece ∈ if overlap.hi axis < remainder.hi axis then [high] else [], index ∈ piece.cells) ↔
        index ∈ high.cells :=
      exists_slab fun level => ⟨axis, by simp only [highEq, between, Function.update_self]; omega⟩
    simp only [List.mem_append, or_and_right, exists_or, lowListed, highListed, covers index, memLow, memHigh,
      memLevel, List.mem_cons, exists_eq_left]
    constructor
    · rintro ((⟨member, below⟩ | ⟨member, above⟩) | ⟨⟨member, -⟩, other, listed, off⟩)
      · exact ⟨member, .inl (by omega)⟩
      · exact ⟨member, .inl (by omega)⟩
      · exact ⟨member, .inr ⟨other, listed, off⟩⟩
    · rintro ⟨member, off | ⟨other, listed, off⟩⟩
      · by_cases below : index axis < overlap.lo axis
        · exact .inl (.inl ⟨member, below⟩)
        · exact .inl (.inr ⟨member, by omega⟩)
      · by_cases below : index axis < overlap.lo axis
        · exact .inl (.inl ⟨member, below⟩)
        · by_cases above : overlap.hi axis < index axis
          · exact .inl (.inr ⟨member, above⟩)
          · exact .inr ⟨⟨member, by omega, by omega⟩, other, listed, off⟩

/-- Cutting a box out of a non-empty one leaves disjoint boxes that hold the
rest of it. -/
theorem subtract_packed {subject : Box d} (nonempty : ¬ subject.Empty) (cut : Box d) :
    Packed Box.cells subject.cells (subject.subtract cut) ∧
      ∀ index, (∃ piece ∈ subject.subtract cut, index ∈ piece.cells) ↔
        index ∈ subject.cells ∧ index ∉ cut.cells := by
  have meet (index : Index d) : index ∈ (subject.intersect cut).cells ↔ index ∈ subject.cells ∧ index ∈ cut.cells := by
    rw [cells_intersect, Finset.mem_inter]
  unfold subtract
  simp only
  split
  · rename_i apart
    rw [empty_iff_cells] at apart nonempty
    refine ⟨.singleton nonempty le_rfl, fun index => ?_⟩
    have outside := meet index
    rw [apart] at outside
    simp only [Finset.notMem_empty, false_iff, not_and] at outside
    simpa using outside
  · rename_i touching
    split
    · rename_i whole
      refine ⟨.nil, fun index => ?_⟩
      have inside := meet index
      rw [whole] at inside
      simp only [List.not_mem_nil, false_and, exists_false, false_iff, not_and, not_not]
      exact fun member => (inside.mp member).2
    · have inside : (subject.intersect cut).Inside subject := by
        refine ⟨not_empty_iff.mp touching, fun axis => ?_⟩
        simp only [intersect]
        constructor <;> split <;> omega
      obtain ⟨packed, covers⟩ := subtractAxes_packed (subject.intersect cut) (List.finRange d) subject inside
      refine ⟨packed, fun index => ?_⟩
      rw [covers]
      refine and_congr_right fun member => ?_
      simp only [List.mem_finRange, true_and, ← not_forall]
      refine not_congr ?_
      rw [← mem_cells, meet]
      simp [member]

end Box

end Pops
