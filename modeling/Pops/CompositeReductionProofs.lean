import Pops.CompositeReduction
import Mathlib.Algebra.Order.BigOperators.Group.Multiset

/-!
The reduction sees every physical cell once: what the processes hold adds up to
the cells of all patches. Where all masks, measures and selected values are in
order, the collective result is the sum or the extremum over the selected cells.
-/
namespace Pops.CompositeReduction
open Scalar

variable {d : ℕ} {K : Type} [Field K] [LinearOrder K] [IsStrictOrderedRing K] {limit : K}
  {kind : CompositeReductionKind}

omit [IsStrictOrderedRing K] in
omit [Field K] in
theorem equal_finite {scalar : Scalar K} {value : K} :
    scalar.equal (finite value) = true ↔ scalar = finite value := by
  cases scalar with
  | finite other => simp [equal]
  | infinite negative => simp [equal]
  | nan => simp [equal]

omit [IsStrictOrderedRing K] in
omit [Field K] in
@[simp] theorem less_finite {left right : K} : (finite left).less (finite right) = decide (left < right) := rfl

omit [IsStrictOrderedRing K] in
omit [Field K] in
@[simp] theorem max_finite {left right : K} : (finite left).max (finite right) = finite (Max.max left right) := by
  rw [Scalar.max, less_finite]
  by_cases lower : left < right
  · simp [lower, max_eq_right lower.le]
  · simp [lower, max_eq_left (not_lt.mp lower)]

omit [LinearOrder K] [IsStrictOrderedRing K] in
@[simp] theorem add_finite {left right : K} : (finite left).add (finite right) = finite (left + right) := rfl

omit [IsStrictOrderedRing K] in
@[simp] theorem mul_finite {left right : K} : (finite left).mul (finite right) = finite (left * right) := rfl

/-- The number, zero where there is none. -/
def Scalar.real : Scalar K → K
  | finite value => value
  | _ => 0

omit [LinearOrder K] [IsStrictOrderedRing K] in
@[simp] theorem real_finite (value : K) : (finite value).real = value := rfl

namespace Cell

/-- The mask or the relative measure hides the cell. -/
def Hidden (cell : Cell K) : Prop := cell.active = finite 0 ∨ cell.relative = some (finite 0)

/-- The mask is zero or one. -/
def Binary (cell : Cell K) : Prop := cell.active = finite 0 ∨ cell.active = finite 1

/-- The relative measure lies in the unit interval. -/
def Measured (cell : Cell K) : Prop :=
  ∀ relative, cell.relative = some relative →
    ∃ measure, relative = finite measure ∧ 0 ≤ measure ∧ measure ≤ 1

/-- The value is a number, unless the cell is hidden. -/
def Numeric (limit : K) (cell : Cell K) : Prop :=
  ¬ cell.Hidden → ∃ value, cell.value = finite value ∧ -limit ≤ value ∧ value ≤ limit

/-- A cell that is in order. -/
structure Valid (limit : K) (cell : Cell K) : Prop where
  mask : cell.Binary
  value : cell.Numeric limit
  relative : cell.Measured

open Classical in
/-- The relative measure of a selected cell. -/
noncomputable def mass (cell : Cell K) : K := if cell.Hidden then 0 else cell.weight.real

/-- The value that a reduction takes of a cell. -/
def taken (kind : CompositeReductionKind) (cell : Cell K) : K :=
  match kind with
  | .absoluteSum | .absoluteMaximum => |cell.value.real|
  | .sumSquares => cell.value.real * cell.value.real
  | .sum | .minimum | .maximum => cell.value.real

omit [IsStrictOrderedRing K] in
theorem hides_iff (cell : Cell K) : cell.hides = true ↔ cell.Hidden := by
  unfold hides Hidden
  cases known : cell.relative with
  | none => simp [equal_finite]
  | some relative => simp [equal_finite]

variable {cell : Cell K}

omit [IsStrictOrderedRing K] in
theorem Valid.weight_eq (valid : cell.Valid limit) : cell.weight = finite cell.weight.real := by
  unfold weight
  cases known : cell.relative with
  | none => rfl
  | some relative =>
    obtain ⟨measure, rfl, -⟩ := valid.relative relative known
    rfl

omit [IsStrictOrderedRing K] in
theorem Valid.activeCell_eq (valid : cell.Valid limit) : cell.activeCell = finite cell.mass := by
  unfold activeCell mass
  rcases valid.mask with off | on
  · have hidden : cell.Hidden := .inl off
    rw [if_pos hidden, off]
    simp [equal]
  · rw [if_pos (equal_finite.mpr on)]
    split
    · rename_i hidden
      rcases hidden with off | empty
      · rw [on] at off
        simp at off
      · rw [weight, empty]
        rfl
    · exact valid.weight_eq

open Classical in
theorem Valid.sumValue_eq (valid : cell.Valid limit) (summed : kind.isSumKind = true) :
    cell.sumValue kind = finite (cell.mass * cell.taken kind) := by
  unfold sumValue mass
  by_cases hidden : cell.Hidden
  · rw [if_pos ((hides_iff cell).mpr hidden), if_pos hidden, zero_mul]
  · have shown : ¬ cell.hides = true := fun hides => hidden ((hides_iff cell).mp hides)
    obtain ⟨value, known, -⟩ := valid.value hidden
    have real : cell.value.real = value := by rw [known]; rfl
    rw [if_neg shown, if_neg hidden, valid.weight_eq, known]
    cases kind with
    | sum => simp [taken, real, mul_comm]
    | absoluteSum =>
      by_cases negative : value < 0
      · simp [taken, real, negative, negate, abs_of_neg negative, mul_comm]
      · simp [taken, real, negative, abs_of_nonneg (not_lt.mp negative), mul_comm]
    | sumSquares => simp [taken, real, mul_comm]
    | minimum => cases summed
    | maximum => cases summed
    | absoluteMaximum => cases summed

/-- What an extremum compares: the minimum is the greatest of the opposites. -/
def key (kind : CompositeReductionKind) (cell : Cell K) : K :=
  if kind = .minimum then -cell.taken kind else cell.taken kind

theorem Valid.extremumValue_eq (valid : cell.Valid limit) (summed : kind.isSumKind = false) :
    (cell.Hidden ∧ cell.extremumValue limit kind = finite (-limit)) ∨
      (¬ cell.Hidden ∧ cell.extremumValue limit kind = finite (cell.key kind) ∧ -limit ≤ cell.key kind) := by
  unfold extremumValue
  by_cases hidden : cell.Hidden
  · exact .inl ⟨hidden, if_pos ((hides_iff cell).mpr hidden)⟩
  · have shown : ¬ cell.hides = true := fun hides => hidden ((hides_iff cell).mp hides)
    obtain ⟨value, known, low, high⟩ := valid.value hidden
    have real : cell.value.real = value := by rw [known]; rfl
    refine .inr ⟨hidden, ?_⟩
    rw [if_neg shown, known]
    cases kind with
    | sum => cases summed
    | absoluteSum => cases summed
    | sumSquares => cases summed
    | minimum =>
      refine ⟨by simp [key, taken, real, negate], ?_⟩
      simp only [key, taken, real, if_true]
      linarith
    | maximum =>
      refine ⟨by simp [key, taken, real], ?_⟩
      simpa [key, taken, real] using low
    | absoluteMaximum =>
      have absolute : -limit ≤ |value| := by linarith [le_abs_self value]
      by_cases negative : value < 0
      · exact ⟨by simp [key, taken, real, negative, negate, abs_of_neg negative],
          by simpa [key, taken, real] using absolute⟩
      · exact ⟨by simp [key, taken, real, negative, abs_of_nonneg (not_lt.mp negative)],
          by simpa [key, taken, real] using absolute⟩

end Cell

/-- A flag is one where something is wrong, else zero. -/
def Flag (scalar : Scalar K) (wrong : Prop) : Prop := wrong ∧ scalar = finite 1 ∨ ¬ wrong ∧ scalar = finite 0

theorem Flag.max {left right : Scalar K} {first second : Prop} (one : Flag left first) (other : Flag right second) :
    Flag (left.max right) (first ∨ second) := by
  rcases one with ⟨holds, rfl⟩ | ⟨fails, rfl⟩ <;> rcases other with ⟨holds', rfl⟩ | ⟨fails', rfl⟩
  · exact .inl ⟨.inl holds, by simp⟩
  · exact .inl ⟨.inl holds, by simp⟩
  · exact .inl ⟨.inr holds', by simp⟩
  · exact .inr ⟨by tauto, by simp⟩

omit [LinearOrder K] [IsStrictOrderedRing K] in
theorem Flag.congr {scalar : Scalar K} {first second : Prop} (flag : Flag scalar first) (same : first ↔ second) :
    Flag scalar second := by
  rw [← propext same]
  exact flag

omit [IsStrictOrderedRing K] in
theorem reduceMax_cons (kernel : Cell K → Scalar K) (cell : Cell K) (rest : List (Cell K)) :
    reduceMax limit kernel (cell :: rest) = (cell :: rest).foldl (fun accumulator cell =>
      if accumulator.less (kernel cell) then kernel cell else accumulator) (finite (-limit)) := rfl

theorem reduceMax_flag (limit_pos : 0 < limit) {kernel : Cell K → Scalar K} {wrong : Cell K → Prop}
    (flags : ∀ cell, Flag (kernel cell) (wrong cell)) (cells : List (Cell K)) :
    Flag (reduceMax limit kernel cells) (∃ cell ∈ cells, wrong cell) := by
  have later (rest : List (Cell K)) (start : Scalar K) (before : Prop) (flag : Flag start before) :
      Flag (rest.foldl (fun accumulator cell =>
        if accumulator.less (kernel cell) then kernel cell else accumulator) start)
        (before ∨ ∃ cell ∈ rest, wrong cell) := by
    induction rest generalizing start before with
    | nil => exact flag.congr (by simp)
    | cons cell rest ih => exact (ih _ _ (flag.max (flags cell))).congr (by simp [or_assoc])
  cases cells with
  | nil => exact .inr ⟨by simp, rfl⟩
  | cons cell rest =>
    have first : (if (finite (-limit)).less (kernel cell) then kernel cell else finite (-limit)) = kernel cell := by
      rcases flags cell with ⟨-, one⟩ | ⟨-, zero⟩
      · rw [one, less_finite]
        exact if_pos (by simp; linarith)
      · rw [zero, less_finite]
        exact if_pos (by simp; linarith)
    rw [reduceMax_cons, List.foldl_cons, first]
    exact (later rest _ _ (flags cell)).congr (by simp)

namespace Cell

omit [IsStrictOrderedRing K] in
theorem invalidMaskValue_flag (cell : Cell K) :
    Flag cell.invalidMaskValue (¬ cell.Binary) := by
  unfold invalidMaskValue Binary
  split
  · rename_i binary
    rw [Bool.or_eq_true, equal_finite, equal_finite] at binary
    exact .inr ⟨not_not.mpr binary, rfl⟩
  · rename_i other
    rw [Bool.or_eq_true, equal_finite, equal_finite] at other
    exact .inl ⟨other, rfl⟩

omit [IsStrictOrderedRing K] in
theorem invalidSelectedValue_flag (cell : Cell K) :
    Flag (cell.invalidSelectedValue limit) (¬ cell.Numeric limit) := by
  unfold invalidSelectedValue Numeric
  split
  · rename_i hides
    exact .inr ⟨not_not.mpr fun shown => absurd ((hides_iff cell).mp hides) shown, rfl⟩
  rename_i shown
  have selected : ¬ cell.Hidden := fun hidden => shown ((hides_iff cell).mpr hidden)
  cases known : cell.value with
  | finite value =>
    have low : (finite (-limit)).atMost (finite value) = decide (-limit ≤ value) := by
      simp [atMost, equal, le_iff_lt_or_eq]
    have high : (finite value).atMost (finite limit) = decide (value ≤ limit) := by
      simp [atMost, equal, le_iff_lt_or_eq]
    rw [low, high]
    split
    · rename_i bounds
      simp only [Bool.and_eq_true, decide_eq_true_eq] at bounds
      exact .inr ⟨not_not.mpr fun _ => ⟨value, rfl, bounds.2, bounds.1⟩, rfl⟩
    · rename_i bounds
      simp only [Bool.and_eq_true, decide_eq_true_eq] at bounds
      refine .inl ⟨fun fine => ?_, rfl⟩
      obtain ⟨other, same, lower, upper⟩ := fine selected
      cases same
      exact bounds ⟨upper, lower⟩
  | infinite negative =>
    refine .inl ⟨fun fine => ?_, ?_⟩
    · obtain ⟨other, same, -⟩ := fine selected
      cases same
    · cases negative <;> rfl
  | nan =>
    refine .inl ⟨fun fine => ?_, rfl⟩
    obtain ⟨other, same, -⟩ := fine selected
    cases same

omit [IsStrictOrderedRing K] in
theorem invalidRelativeMeasure_flag (cell : Cell K) :
    Flag cell.invalidRelativeMeasure (¬ cell.Measured) := by
  unfold invalidRelativeMeasure Measured
  cases known : cell.relative with
  | none =>
    refine .inr ⟨not_not.mpr fun relative absent => ?_, rfl⟩
    cases absent
  | some relative =>
    cases relative with
    | finite measure =>
      have low : (finite 0).atMost (finite measure) = decide (0 ≤ measure) := by
        simp [atMost, equal, le_iff_lt_or_eq]
      have high : (finite measure).atMost (finite 1) = decide (measure ≤ 1) := by
        simp [atMost, equal, le_iff_lt_or_eq]
      simp only [low, high, isFinite, Bool.and_true]
      split
      · rename_i bounds
        simp only [Bool.and_eq_true, decide_eq_true_eq] at bounds
        refine .inr ⟨not_not.mpr fun relative same => ?_, rfl⟩
        cases same
        exact ⟨measure, rfl, bounds.1, bounds.2⟩
      · rename_i bounds
        simp only [Bool.and_eq_true, decide_eq_true_eq] at bounds
        refine .inl ⟨fun fine => ?_, rfl⟩
        obtain ⟨other, same, lower, upper⟩ := fine _ rfl
        cases same
        exact bounds ⟨lower, upper⟩
    | infinite negative =>
      refine .inl ⟨fun fine => ?_, by cases negative <;> rfl⟩
      obtain ⟨other, same, -⟩ := fine _ rfl
      cases same
    | nan =>
      refine .inl ⟨fun fine => ?_, rfl⟩
      obtain ⟨other, same, -⟩ := fine _ rfl
      cases same

omit [IsStrictOrderedRing K] in
theorem not_valid_iff (cell : Cell K) :
    ¬ cell.Valid limit ↔ ¬ cell.Binary ∨ ¬ cell.Numeric limit ∨ ¬ cell.Measured := by
  rw [← not_and_or, ← not_and_or]
  exact not_congr ⟨fun valid => ⟨valid.mask, valid.value, valid.relative⟩,
    fun fine => ⟨fine.1, fine.2.1, fine.2.2⟩⟩

omit [IsStrictOrderedRing K] in
theorem exists_not_valid (cells : List (Cell K)) :
    (∃ cell ∈ cells, ¬ cell.Valid limit) ↔
      (∃ cell ∈ cells, ¬ cell.Binary) ∨ (∃ cell ∈ cells, ¬ cell.Numeric limit) ∨
        ∃ cell ∈ cells, ¬ cell.Measured := by
  simp only [not_valid_iff, and_or_left, exists_or]

end Cell

/-- A cell with the measure of its level. -/
abbrev Sample (K : Type) := K × Cell K

/-- All cells are in order. -/
def Sound (limit : K) (samples : Multiset (Sample K)) : Prop := ∀ sample ∈ samples, sample.2.Valid limit

/-- The keys of the selected cells. -/
def keys (kind : CompositeReductionKind) (samples : Multiset (Sample K)) : Set K :=
  {value | ∃ sample ∈ samples, ¬ sample.2.Hidden ∧ sample.2.key kind = value}

/-- The measured sum over the selected cells. -/
noncomputable def total (kind : CompositeReductionKind) (samples : Multiset (Sample K)) : K :=
  (samples.map fun sample => sample.1 * (sample.2.mass * sample.2.taken kind)).sum

/-- The measure of the selected cells. -/
noncomputable def measure (samples : Multiset (Sample K)) : K :=
  (samples.map fun sample => sample.1 * sample.2.mass).sum

/-- The selected value of some samples, and below it the sentinel. -/
def Selects (limit : K) (kind : CompositeReductionKind) (samples : Multiset (Sample K)) (scalar : Scalar K) : Prop :=
  if kind.isSumKind = true then scalar = finite (total kind samples)
  else ∃ greatest, scalar = finite greatest ∧ IsGreatest (insert (-limit) (keys kind samples)) greatest

/-- What a process has found in some samples. -/
structure Part (limit : K) (kind : CompositeReductionKind) (samples : Multiset (Sample K)) (found : Partial K) :
    Prop where
  invalid : Flag found.invalid (¬ Sound limit samples)
  activeMeasure : Sound limit samples → found.activeMeasure = finite (measure samples)
  selected : Sound limit samples → Selects limit kind samples found.selected

variable {first second : Multiset (Sample K)} {cells : List (Cell K)} {hasRelative : Bool}
  {samples : Multiset (Sample K)} {found : Partial K}

omit [IsStrictOrderedRing K] in
theorem sound_add :
    Sound limit (first + second) ↔ Sound limit first ∧ Sound limit second := by
  simp only [Sound, Multiset.mem_add]
  constructor
  · intro sound
    exact ⟨fun sample member => sound sample (.inl member), fun sample member => sound sample (.inr member)⟩
  · rintro ⟨first, second⟩ sample (member | member)
    · exact first sample member
    · exact second sample member

omit [IsStrictOrderedRing K] in
theorem keys_add (first second : Multiset (Sample K)) :
    keys kind (first + second) = keys kind first ∪ keys kind second := by
  ext value
  simp only [keys, Multiset.mem_add, Set.mem_ofPred_eq, Set.mem_union, or_and_right, exists_or]

omit [IsStrictOrderedRing K] in
theorem total_add (first second : Multiset (Sample K)) :
    total kind (first + second) = total kind first + total kind second := by
  rw [total, Multiset.map_add, Multiset.sum_add]
  rfl

omit [LinearOrder K] [IsStrictOrderedRing K] in
theorem measure_add (first second : Multiset (Sample K)) :
    measure (first + second) = measure first + measure second := by
  rw [measure, Multiset.map_add, Multiset.sum_add]
  rfl

omit [Field K] [IsStrictOrderedRing K] in
theorem greatest_union {first second : Set K} {bottom left right : K} (one : IsGreatest (insert bottom first) left)
    (other : IsGreatest (insert bottom second) right) :
    IsGreatest (insert bottom (first ∪ second)) (Max.max left right) := by
  have union := one.union other
  have same : insert bottom first ∪ insert bottom second = insert bottom (first ∪ second) := by
    ext value
    simp only [Set.mem_union, Set.mem_insert_iff]
    tauto
  rwa [same] at union

omit [IsStrictOrderedRing K] in
theorem Selects.add {left right : Scalar K} (one : Selects limit kind first left)
    (other : Selects limit kind second right) :
    Selects limit kind (first + second) (if kind.isSumKind = true then left.add right else left.max right) := by
  unfold Selects at *
  split
  · rename_i summed
    rw [if_pos summed] at one other
    rw [one, other, total_add]
    rfl
  · rename_i extremum
    rw [if_neg extremum] at one other
    obtain ⟨greatest, rfl, isGreatest⟩ := one
    obtain ⟨greatest', rfl, isGreatest'⟩ := other
    rw [keys_add]
    exact ⟨_, max_finite, greatest_union isGreatest isGreatest'⟩

/-- The cells of a level with its measure. -/
def weigh (measure : K) (cells : List (Cell K)) : Multiset (Sample K) :=
  ((cells.map fun cell => (measure, cell) : List (Sample K)) : Multiset (Sample K))

omit [Field K] [LinearOrder K] [IsStrictOrderedRing K] in
theorem weigh_append (factor : K) (first second : List (Cell K)) :
    weigh factor (first ++ second) = weigh factor first + weigh factor second := by
  rw [weigh, List.map_append]
  rfl

omit [Field K] [LinearOrder K] [IsStrictOrderedRing K] in
theorem mem_weigh {factor : K} {sample : Sample K} :
    sample ∈ weigh factor cells ↔ ∃ cell ∈ cells, (factor, cell) = sample := by
  simp [weigh]

omit [IsStrictOrderedRing K] in
theorem sound_weigh {factor : K} :
    Sound limit (weigh factor cells) ↔ ∀ cell ∈ cells, cell.Valid limit := by
  simp [Sound, weigh]

omit [LinearOrder K] [IsStrictOrderedRing K] in
theorem measure_weigh (factor : K) (cells : List (Cell K)) :
    measure (weigh factor cells) = factor * (cells.map Cell.mass).sum := by
  simp only [measure, weigh, Multiset.map_coe, List.map_map, Multiset.sum_coe, ← List.sum_map_mul_left]
  rfl

omit [IsStrictOrderedRing K] in
theorem total_weigh (factor : K) (cells : List (Cell K)) :
    total kind (weigh factor cells) = factor * (cells.map fun cell => cell.mass * cell.taken kind).sum := by
  simp only [total, weigh, Multiset.map_coe, List.map_map, Multiset.sum_coe, ← List.sum_map_mul_left]
  rfl

omit [IsStrictOrderedRing K] in
theorem keys_weigh (factor other : K) (cells : List (Cell K)) :
    keys kind (weigh factor cells) = keys kind (weigh other cells) := by
  ext value
  simp [keys, weigh]

omit [LinearOrder K] [IsStrictOrderedRing K] in
theorem reduceSum_finite {kernel : Cell K → Scalar K} {value : Cell K → K}
    (finite_cells : ∀ cell ∈ cells, kernel cell = finite (value cell)) :
    reduceSum kernel cells = finite (cells.map value).sum := by
  have sums (rest : List (Cell K)) (start : K) (finite_rest : ∀ cell ∈ rest, kernel cell = finite (value cell)) :
      rest.foldl (fun accumulator cell => accumulator.add (kernel cell)) (finite start) =
        finite (start + (rest.map value).sum) := by
    induction rest generalizing start with
    | nil => simp
    | cons cell rest ih =>
      rw [List.foldl_cons, finite_rest cell (List.mem_cons_self ..), add_finite,
        ih _ fun other member => finite_rest other (List.mem_cons_of_mem _ member), List.map_cons, List.sum_cons,
        add_assoc]
  rw [reduceSum, sums cells 0 finite_cells, zero_add]

theorem selects_cell (extremum : kind.isSumKind = false) {cell : Cell K} (valid : cell.Valid limit) :
    Selects limit kind (weigh 1 [cell]) (cell.extremumValue limit kind) := by
  rw [Selects, if_neg (by simp [extremum])]
  rcases valid.extremumValue_eq extremum with ⟨hidden, value⟩ | ⟨selected, value, above⟩
  · refine ⟨-limit, value, Set.mem_insert _ _, ?_⟩
    rintro other (rfl | ⟨sample, member, selected, -⟩)
    · exact le_refl _
    · obtain ⟨here, listed, rfl⟩ := mem_weigh.mp member
      rw [List.mem_singleton.mp listed] at selected
      exact absurd hidden selected
  · refine ⟨cell.key kind, value, ?_, ?_⟩
    · exact .inr ⟨(1, cell), mem_weigh.mpr ⟨cell, List.mem_singleton_self cell, rfl⟩, selected, rfl⟩
    · rintro other (rfl | ⟨sample, member, -, rfl⟩)
      · exact above
      · obtain ⟨here, listed, rfl⟩ := mem_weigh.mp member
        rw [List.mem_singleton.mp listed]

omit [IsStrictOrderedRing K] in
theorem selects_nil (extremum : kind.isSumKind = false) : Selects limit kind 0 (finite (-limit)) := by
  rw [Selects, if_neg (by simp [extremum])]
  refine ⟨-limit, rfl, Set.mem_insert _ _, ?_⟩
  rintro other (rfl | ⟨sample, member, -⟩)
  · exact le_refl _
  · exact absurd member (Multiset.notMem_zero sample)

theorem reduceMax_selects (extremum : kind.isSumKind = false) (filled : cells ≠ [])
    (valid : ∀ cell ∈ cells, cell.Valid limit) :
    Selects limit kind (weigh 1 cells) (reduceMax limit (Cell.extremumValue limit kind) cells) := by
  have later (rest : List (Cell K)) (before : Multiset (Sample K)) (start : Scalar K)
      (selects : Selects limit kind before start) (fine : ∀ cell ∈ rest, cell.Valid limit) :
      Selects limit kind (before + weigh 1 rest) (rest.foldl (fun accumulator cell =>
        if accumulator.less (cell.extremumValue limit kind) then cell.extremumValue limit kind
        else accumulator) start) := by
    induction rest generalizing before start with
    | nil => simpa [weigh] using selects
    | cons cell rest ih =>
      have joined := selects.add (selects_cell extremum (fine cell (List.mem_cons_self ..)))
      rw [if_neg (by simp [extremum])] at joined
      have done := ih _ _ joined fun other member => fine other (List.mem_cons_of_mem _ member)
      rw [add_assoc, ← weigh_append] at done
      exact done
  cases cells with
  | nil => exact absurd rfl filled
  | cons cell rest =>
    rw [reduceMax_cons]
    have done := later (cell :: rest) 0 (finite (-limit)) (selects_nil extremum) valid
    rwa [zero_add] at done

/-- What a level has found in some of its patches, without its measure. -/
structure Inner (limit : K) (kind : CompositeReductionKind) (wrong : Prop) (cells : List (Cell K)) (level : Partial K) :
    Prop where
  invalid : Flag level.invalid (wrong ∨ ∃ cell ∈ cells, ¬ cell.Valid limit)
  activeMeasure : (∀ cell ∈ cells, cell.Valid limit) → level.activeMeasure = finite (cells.map Cell.mass).sum
  selected : (∀ cell ∈ cells, cell.Valid limit) → Selects limit kind (weigh 1 cells) level.selected

theorem Inner.patch (limit_pos : 0 < limit) {wrong : Prop} {seen cells : List (Cell K)} {level : Partial K}
    (inner : Inner limit kind wrong seen level) (relative : ∀ cell ∈ cells, cell.relative.isSome = hasRelative)
    (filled : kind.isSumKind = true ∨ cells ≠ []) :
    Inner limit kind wrong (seen ++ cells) (patchStep limit kind hasRelative level cells) where
  invalid := by
    have masked := inner.invalid.max (reduceMax_flag limit_pos Cell.invalidMaskValue_flag cells)
    have selected := masked.max (reduceMax_flag limit_pos (@Cell.invalidSelectedValue_flag _ _ _ limit) cells)
    have measured := selected.max (reduceMax_flag limit_pos Cell.invalidRelativeMeasure_flag cells)
    have split : (∃ cell ∈ seen ++ cells, ¬ cell.Valid limit) ↔
        (∃ cell ∈ seen, ¬ cell.Valid limit) ∨ ∃ cell ∈ cells, ¬ cell.Valid limit := by
      simp only [List.mem_append, or_and_right, exists_or]
    rw [split, Cell.exists_not_valid cells]
    simp only [patchStep]
    cases hasRelative with
    | true => exact measured.congr (by simp only [or_assoc])
    | false =>
      have fine : ¬ ∃ cell ∈ cells, ¬ cell.Measured := by
        rintro ⟨cell, member, bad⟩
        refine bad fun other known => ?_
        have absent := relative cell member
        rw [known] at absent
        cases absent
      exact selected.congr (by simp only [or_assoc, fine, or_false])
  activeMeasure valid := by
    have before := inner.activeMeasure fun cell member => valid cell (List.mem_append_left _ member)
    have here : reduceSum Cell.activeCell cells = finite (cells.map Cell.mass).sum :=
      reduceSum_finite fun cell member => (valid cell (List.mem_append_right _ member)).activeCell_eq
    simp only [patchStep, before, here, add_finite, List.map_append, List.sum_append]
  selected valid := by
    have before := inner.selected fun cell member => valid cell (List.mem_append_left _ member)
    have later : ∀ cell ∈ cells, cell.Valid limit := fun cell member => valid cell (List.mem_append_right _ member)
    rw [weigh_append]
    cases summed : kind.isSumKind with
    | true =>
      have here : Selects limit kind (weigh 1 cells) (reduceSum (Cell.sumValue kind) cells) := by
        rw [Selects, if_pos summed, total_weigh, one_mul]
        exact reduceSum_finite fun cell member => (later cell member).sumValue_eq summed
      have joined := before.add here
      rw [if_pos summed] at joined
      simpa [patchStep, summed] using joined
    | false =>
      have nonempty : cells ≠ [] := filled.resolve_left (by simp [summed])
      have joined := before.add (reduceMax_selects summed nonempty later)
      rw [if_neg (by simp [summed])] at joined
      simpa [patchStep, summed] using joined

theorem Inner.patches (limit_pos : 0 < limit) {wrong : Prop} {seen : List (Cell K)} {level : Partial K}
    (inner : Inner limit kind wrong seen level) (patches : List (List (Cell K)))
    (relative : ∀ cells ∈ patches, ∀ cell ∈ cells, cell.relative.isSome = hasRelative)
    (filled : kind.isSumKind = true ∨ ∀ cells ∈ patches, cells ≠ []) :
    Inner limit kind wrong (seen ++ patches.flatten) (patches.foldl (patchStep limit kind hasRelative) level) := by
  induction patches generalizing seen level with
  | nil => simpa using inner
  | cons cells rest ih =>
    have here := inner.patch limit_pos (relative cells (List.mem_cons_self ..))
      (filled.imp_right fun nonempty => nonempty cells (List.mem_cons_self ..))
    have done := ih here (fun other member => relative other (List.mem_cons_of_mem _ member))
      (filled.imp_right fun nonempty other member => nonempty other (List.mem_cons_of_mem _ member))
    rw [List.append_assoc] at done
    exact done

theorem Part.level (limit_pos : 0 < limit) (part : Part limit kind samples found) (factor : K)
    (patches : List (List (Cell K)))
    (relative : ∀ cells ∈ patches, ∀ cell ∈ cells, cell.relative.isSome = hasRelative)
    (filled : kind.isSumKind = true ∨ ∀ cells ∈ patches, cells ≠ []) :
    Part limit kind (samples + weigh factor patches.flatten)
      (levelStep limit kind hasRelative (finite factor) found patches) := by
  have start : Inner limit kind (¬ Sound limit samples) [] ⟨startValue limit kind, finite 0, found.invalid⟩ := by
    refine ⟨part.invalid.congr (by simp), fun _ => rfl, fun _ => ?_⟩
    cases summed : kind.isSumKind with
    | true => simp [Selects, summed, startValue, total, weigh]
    | false =>
      have sentinel := @selects_nil _ _ _ limit kind summed
      simpa [startValue, summed, weigh] using sentinel
  have inner := start.patches limit_pos patches relative filled
  rw [List.nil_append] at inner
  have split : Sound limit (samples + weigh factor patches.flatten) ↔
      Sound limit samples ∧ ∀ cell ∈ patches.flatten, cell.Valid limit := by
    rw [sound_add, sound_weigh]
  constructor
  · refine inner.invalid.congr ?_
    rw [split, not_and_or]
    simp only [not_forall, exists_prop]
  · intro sound
    have both := split.mp sound
    simp only [levelStep, part.activeMeasure both.1, inner.activeMeasure both.2, mul_finite, add_finite]
    rw [measure_add, measure_weigh, mul_comm factor]
  · intro sound
    have both := split.mp sound
    have before := part.selected both.1
    have here := inner.selected both.2
    cases summed : kind.isSumKind with
    | true =>
      rw [Selects, if_pos summed] at before here ⊢
      rw [total_weigh, one_mul] at here
      simp only [levelStep, summed, if_true, before, here, mul_finite, add_finite]
      rw [total_add, total_weigh, mul_comm factor]
    | false =>
      have rekeyed : Selects limit kind (weigh factor patches.flatten)
          (patches.foldl (patchStep limit kind hasRelative)
            ⟨startValue limit kind, finite 0, found.invalid⟩).selected := by
        rw [Selects, if_neg (by simp [summed])] at here ⊢
        rwa [keys_weigh factor 1]
      have joined := before.add rekeyed
      rw [if_neg (by simp [summed])] at joined
      simpa [levelStep, summed] using joined

omit [IsStrictOrderedRing K] in
theorem cellMeasure_finite {extent : Fin d → Scalar K}
    (positive : ∀ axis, (finite 0).less (extent axis) = true ∧ (extent axis).isFinite = true) :
    cellMeasure extent = finite (cellMeasure extent).real := by
  have products (axes : List (Fin d)) (start : K) :
      ∃ product, axes.foldl (fun measure axis => measure.mul (extent axis)) (finite start) = finite product := by
    induction axes generalizing start with
    | nil => exact ⟨start, rfl⟩
    | cons axis rest ih =>
      rw [List.foldl_cons]
      cases known : extent axis with
      | finite value => exact ih _
      | infinite negative =>
        have bounded := (positive axis).2
        rw [known] at bounded
        cases bounded
      | nan =>
        have bounded := (positive axis).2
        rw [known] at bounded
        cases bounded
  obtain ⟨product, known⟩ := products (List.finRange d) 1
  rw [cellMeasure, known]
  rfl

variable {component : ℤ} {process : ℕ}

omit [IsStrictOrderedRing K] in
theorem requireLevelShape_ok {level : CompositeLevelView d K} {fields : MultiFab d K × MultiFab d K}
    (shaped : requireLevelShape level component process = .ok fields) :
    level.values = some fields.1 ∧ level.active = some fields.2 ∧
      ∀ axis, (finite 0).less (level.cellExtent axis) = true ∧ (level.cellExtent axis).isFinite = true := by
  unfold requireLevelShape at shaped
  split at shaped
  · rename_i values active hasValues hasActive
    simp only [bind_ok, throwIf_ok, unit_exists, pure_ok] at shaped
    obtain ⟨-, -, -, extents, rfl⟩ := shaped
    refine ⟨hasValues, hasActive, fun axis => ?_⟩
    have fine : ¬ ((finite 0).less (level.cellExtent axis) = false ∨ (level.cellExtent axis).isFinite = false) :=
      fun bad => extents ⟨axis, bad⟩
    simpa using fine
  · cases shaped

/-- The cells that a process holds of a level, if it contributes. -/
def held (component : ℤ) (process : ℕ) (level : CompositeLevelView d K) : Multiset (Sample K) :=
  match level.values, level.active with
  | some values, some active =>
    if Contributes values process then
      weigh (cellMeasure level.cellExtent).real
        ((values.localBoxes process).map (patchCells values active level.relativeMeasure component process)).flatten
    else 0
  | _, _ => 0

/-- No patch of the layout is empty. -/
def Filled (level : CompositeLevelView d K) : Prop :=
  ∀ values, level.values = some values → ∀ box ∈ values.layout.boxes, cellsOf box ≠ []

omit [IsStrictOrderedRing K] [LinearOrder K] in
omit [Field K] in
theorem patchCells_filled {values active : MultiFab d K} {relative : Option (MultiFab d K)} {patch : ℕ}
    (filled : ∀ box ∈ values.layout.boxes, cellsOf box ≠ [])
    (listed : patch ∈ List.range values.layout.boxes.length) :
    patchCells values active relative component process patch ≠ [] := by
  have inside := List.mem_range.mp listed
  rw [patchCells, ne_eq, List.map_eq_nil_iff, List.getD_eq_getElem?_getD, List.getElem?_eq_getElem inside]
  exact filled _ (List.getElem_mem inside)

theorem localReduce_part (limit_pos : 0 < limit) (part : Part limit kind samples found)
    (levels : List (CompositeLevelView d K))
    (shaped : ∀ level ∈ levels, ∃ fields, requireLevelShape level component process = .ok fields)
    (filled : kind.isSumKind = true ∨ ∀ level ∈ levels, Filled level) :
    ∃ result, localReduce limit component kind process found levels = .ok result ∧
      Part limit kind (samples + (levels.map (held component process)).sum) result := by
  induction levels generalizing samples found with
  | nil =>
    refine ⟨found, rfl, ?_⟩
    rwa [List.map_nil, List.sum_nil, add_zero]
  | cons level rest ih =>
    obtain ⟨⟨values, active⟩, here⟩ := shaped level (List.mem_cons_self ..)
    obtain ⟨hasValues, hasActive, positive⟩ := requireLevelShape_ok here
    have later := fun other member => shaped other (List.mem_cons_of_mem level member)
    have filled_later := filled.imp_right fun each other member => each other (List.mem_cons_of_mem level member)
    rw [localReduce, here, ok_bind, List.map_cons, List.sum_cons, ← add_assoc]
    by_cases contributes : Contributes values process
    · have own : held component process level = weigh (cellMeasure level.cellExtent).real
          ((values.localBoxes process).map
            (patchCells values active level.relativeMeasure component process)).flatten := by
        simp only [held, hasValues, hasActive, if_pos contributes]
      have relative : ∀ cells ∈ (values.localBoxes process).map
          (patchCells values active level.relativeMeasure component process),
          ∀ cell ∈ cells, cell.relative.isSome = level.relativeMeasure.isSome := by
        intro cells member cell inside
        obtain ⟨patch, -, rfl⟩ := List.mem_map.mp member
        obtain ⟨index, -, rfl⟩ := List.mem_map.mp inside
        exact Option.isSome_map
      have nonempty : kind.isSumKind = true ∨ ∀ cells ∈ (values.localBoxes process).map
          (patchCells values active level.relativeMeasure component process), cells ≠ [] := by
        refine filled.imp_right fun each cells member => ?_
        obtain ⟨patch, listed, rfl⟩ := List.mem_map.mp member
        exact patchCells_filled (each level (List.mem_cons_self ..) values hasValues) (List.mem_filter.mp listed).1
      have step := part.level limit_pos (cellMeasure level.cellExtent).real _ relative nonempty
      rw [← cellMeasure_finite positive, ← own] at step
      simp only [if_pos contributes]
      exact ih step later filled_later
    · have own : held component process level = 0 := by
        simp only [held, hasValues, hasActive, if_neg contributes]
      simp only [if_neg contributes]
      rw [own, add_zero]
      exact ih part later filled_later

/-- The values that a reduction takes of the selected cells. -/
def takenValues (kind : CompositeReductionKind) (samples : Multiset (Sample K)) : Set K :=
  {value | ∃ sample ∈ samples, ¬ sample.2.Hidden ∧ sample.2.taken kind = value}

/-- The measured sum or the extremum over the selected cells. -/
def ReducesTo (kind : CompositeReductionKind) (samples : Multiset (Sample K)) (value : K) : Prop :=
  if kind.isSumKind = true then value = total kind samples
  else if kind = .minimum then IsLeast (takenValues kind samples) value
  else IsGreatest (takenValues kind samples) value

/-- What a reduction over some cells has to return. -/
inductive Reduces (limit : K) (kind : CompositeReductionKind) (samples : Multiset (Sample K)) :
    Checked (CompositeReductionResult K) → Prop
  | unsound : ¬ Sound limit samples → Reduces limit kind samples
      (.error (.runtimeError "composite reduction observed a non-binary mask or non-finite value"))
  | unmeasured : Sound limit samples → measure samples ≤ 0 → Reduces limit kind samples
      (.error (.runtimeError "composite reduction has no finite positive active measure"))
  | reduced {value : K} : Sound limit samples → 0 < measure samples → ReducesTo kind samples value →
      Reduces limit kind samples (.ok ⟨finite value, finite (measure samples)⟩)

theorem Part.join {left right : Partial K} (one : Part limit kind first left)
    (other : Part limit kind second right) :
    Part limit kind (first + second)
      ⟨if kind.isSumKind = true then left.selected.add right.selected else left.selected.max right.selected,
        left.activeMeasure.add right.activeMeasure, left.invalid.max right.invalid⟩ where
  invalid := (one.invalid.max other.invalid).congr (by rw [sound_add, not_and_or])
  activeMeasure sound := by
    have both := sound_add.mp sound
    simp only [one.activeMeasure both.1, other.activeMeasure both.2, add_finite, measure_add]
  selected sound := by
    have both := sound_add.mp sound
    exact (one.selected both.1).add (other.selected both.2)

theorem Part.joinAll (part : Part limit kind samples found) (pairs : List (Multiset (Sample K) × Partial K))
    (parts : ∀ pair ∈ pairs, Part limit kind pair.1 pair.2) :
    Part limit kind (samples + (pairs.map Prod.fst).sum)
      ⟨if kind.isSumKind = true then ((pairs.map Prod.snd).map Partial.selected).foldl Scalar.add found.selected
        else ((pairs.map Prod.snd).map Partial.selected).foldl Scalar.max found.selected,
        ((pairs.map Prod.snd).map Partial.activeMeasure).foldl Scalar.add found.activeMeasure,
        ((pairs.map Prod.snd).map Partial.invalid).foldl Scalar.max found.invalid⟩ := by
  induction pairs generalizing samples found with
  | nil =>
    rw [List.map_nil, List.sum_nil, add_zero]
    simpa using part
  | cons pair rest ih =>
    have joined := part.join (parts pair (List.mem_cons_self ..))
    have done := ih joined fun other member => parts other (List.mem_cons_of_mem pair member)
    rw [List.map_cons, List.sum_cons, ← add_assoc]
    cases summed : kind.isSumKind with
    | true => simpa [summed] using done
    | false => simpa [summed] using done

omit [IsStrictOrderedRing K] in
theorem measure_selected (positive : 0 < measure samples) :
    ∃ sample ∈ samples, ¬ sample.2.Hidden := by
  by_contra none_selected
  push Not at none_selected
  have zero : measure samples = 0 := by
    apply Multiset.sum_eq_zero
    intro value member
    obtain ⟨sample, listed, rfl⟩ := Multiset.mem_map.mp member
    rw [Cell.mass, if_pos (none_selected sample listed), mul_zero]
  exact absurd positive (by rw [zero]; exact lt_irrefl 0)

omit [IsStrictOrderedRing K] in
theorem keys_minimum (samples : Multiset (Sample K)) (value : K) :
    value ∈ keys .minimum samples ↔ -value ∈ takenValues .minimum samples := by
  simp only [keys, takenValues, Set.mem_ofPred_eq, Cell.key, if_true]
  constructor
  · rintro ⟨sample, member, selected, rfl⟩
    exact ⟨sample, member, selected, (neg_neg _).symm⟩
  · rintro ⟨sample, member, selected, same⟩
    exact ⟨sample, member, selected, by rw [same, neg_neg]⟩

omit [IsStrictOrderedRing K] in
theorem keys_of_ne_minimum (other : kind ≠ .minimum) (samples : Multiset (Sample K)) :
    keys kind samples = takenValues kind samples := by
  ext value
  simp only [keys, takenValues, Set.mem_ofPred_eq, Cell.key, if_neg other]

theorem greatest_key {greatest : K} (extremum : kind.isSumKind = false) (sound : Sound limit samples)
    (positive : 0 < measure samples) (isGreatest : IsGreatest (insert (-limit) (keys kind samples)) greatest) :
    IsGreatest (keys kind samples) greatest := by
  have bound : greatest ∈ upperBounds (keys kind samples) := fun value member => isGreatest.2 (.inr member)
  refine ⟨?_, bound⟩
  rcases isGreatest.1 with sentinel | member
  · obtain ⟨sample, listed, selected⟩ := measure_selected positive
    have here : sample.2.key kind ∈ keys kind samples := ⟨sample, listed, selected, rfl⟩
    rcases (sound sample listed).extremumValue_eq extremum with ⟨hidden, -⟩ | ⟨-, -, above⟩
    · exact absurd hidden selected
    · have equal : sample.2.key kind = greatest := le_antisymm (bound here) (by rw [sentinel]; exact above)
      rwa [equal] at here
  · exact member

/-- The collective end turns what the processes found into the result over all their cells. -/
theorem finish_reduces {pairs : List (Multiset (Sample K) × Partial K)} (some_process : pairs ≠ [])
    (parts : ∀ pair ∈ pairs, Part limit kind pair.1 pair.2) :
    Reduces limit kind (pairs.map Prod.fst).sum (finish kind (pairs.map Prod.snd)) := by
  cases pairs with
  | nil => exact absurd rfl some_process
  | cons pair rest =>
    have own := parts pair (List.mem_cons_self ..)
    have started : Part limit kind pair.1
        ⟨if kind.isSumKind = true then (finite 0).add pair.2.selected else pair.2.selected,
          (finite 0).add pair.2.activeMeasure, pair.2.invalid⟩ := by
      refine ⟨own.invalid, fun sound => ?_, fun sound => ?_⟩
      · simp only [own.activeMeasure sound, add_finite, zero_add]
      · have selected := own.selected sound
        unfold Selects at selected ⊢
        split
        · rename_i summed
          rw [if_pos summed] at selected
          rw [selected, add_finite, zero_add]
        · rename_i extremum
          rwa [if_neg extremum] at selected
    have whole := started.joinAll rest fun other member => parts other (List.mem_cons_of_mem pair member)
    have gathered : pair.1 + (rest.map Prod.fst).sum = ((pair :: rest).map Prod.fst).sum := by
      rw [List.map_cons, List.sum_cons]
    rw [gathered] at whole
    generalize ((pair :: rest).map Prod.fst).sum = samples at whole ⊢
    obtain ⟨invalid, activeMeasure, selected⟩ := whole
    simp only [] at invalid activeMeasure selected
    unfold finish
    simp only [List.map_cons, allReduceMax, allReduceSum, List.foldl_cons]
    rcases invalid with ⟨unsound, one⟩ | ⟨sound, zero⟩
    · rw [one]
      have raised : (finite (1 : K)).equal (finite 0) = false := by simp [equal]
      rw [raised]
      exact .unsound unsound
    · have sound := not_not.mp sound
      have measured := activeMeasure sound
      have chosen := selected sound
      rw [zero, throwIf_of_not (by simp [equal]), ok_bind, measured]
      by_cases positive : 0 < measure samples
      · rw [throwIf_of_not (by simp [isFinite, positive]), ok_bind]
        unfold Selects at chosen
        cases summed : kind.isSumKind with
        | true =>
          simp only [summed, if_true] at chosen ⊢
          rw [chosen, throwIf_of_not (by simp [isFinite])]
          exact .reduced sound positive (by rw [ReducesTo, if_pos summed])
        | false =>
          simp only [summed, Bool.false_eq_true, if_false] at chosen ⊢
          obtain ⟨greatest, value, isGreatest⟩ := chosen
          have best := greatest_key summed sound positive isGreatest
          rw [value]
          by_cases least : kind = .minimum
          · subst least
            rw [if_pos rfl, throwIf_of_not (by simp [isFinite, negate])]
            refine .reduced sound positive ?_
            rw [ReducesTo, if_neg (by simp [summed]), if_pos rfl]
            refine ⟨(keys_minimum _ _).mp best.1, ?_⟩
            intro other member
            have opposite : -other ∈ keys .minimum samples := (keys_minimum _ _).mpr (by rwa [neg_neg])
            linarith [best.2 opposite]
          · rw [if_neg least, throwIf_of_not (by simp [isFinite])]
            refine .reduced sound positive ?_
            rw [ReducesTo, if_neg (by simp [summed]), if_neg least, ← keys_of_ne_minimum least]
            exact best
      · have refused : (finite 0).less (finite (measure samples)) = false := by simp [not_lt.mp positive]
        rw [throwIf, if_pos (.inl refused)]
        exact .unmeasured sound (not_lt.mp positive)

end Pops.CompositeReduction
