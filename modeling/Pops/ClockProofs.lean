import Pops.Clock
import Pops.RationalRangeProofs
import Pops.Throws
import Pops.Tiling

/-!
The substeps of a parent window tile it exactly: the nominal substeps follow
each other from its start, and either the last of them ends where the window
does or the remainder closes it.
-/
namespace Pops

variable {T : Type}

/-- Exact arithmetic, which is what `double` does on small dyadic values. -/
instance : Double ℚ where
  ofInt64 value := value
  add := (· + ·)
  sub := (· - ·)
  mul := (· * ·)
  div := (· / ·)
  less left right := left < right
  isFinite _ := true

namespace ClockWindow

/-- The phases a window runs between. -/
def start (window : ClockWindow T) : ℚ := window.opening.phase.value
def stop (window : ClockWindow T) : ℚ := window.closing.phase.value

/-- A window of one level and one macro step. -/
def On (window : ClockWindow T) (level macroStep : ℤ) : Prop :=
  window.opening.level = level ∧ window.closing.level = level ∧
    window.opening.macroStep = macroStep ∧ window.closing.macroStep = macroStep

end ClockWindow

namespace ParentChildClockRelation
variable [Double T] {relation : ParentChildClockRelation} {parent : ClockWindow T}

theorem makeChildWindow_ok {opening closing : Rational} {window : ClockWindow T}
    (ran : relation.makeChildWindow parent opening closing = .ok window) :
    window.opening.phase = opening ∧ window.closing.phase = closing ∧
      window.On relation.childLevel parent.opening.macroStep := by
  simp only [makeChildWindow, bind_ok, pure_ok] at ran
  obtain ⟨_, -, _, -, _, -, rfl⟩ := ran
  exact ⟨rfl, rfl, rfl, rfl, rfl, rfl⟩

theorem nominalSubsteps_ok {nominal : Rational} (positive : 0 < nominal.value) {count : ℕ}
    {cursor last : Rational} {substeps : List (ChildSubstep T)}
    (ran : relation.nominalSubsteps parent nominal count cursor = .ok (substeps, last)) :
    Tiles ClockWindow.start ClockWindow.stop cursor.value (substeps.map ChildSubstep.window) last.value ∧
      last.value = cursor.value + count * nominal.value ∧
        ∀ substep ∈ substeps, substep.window.On relation.childLevel parent.opening.macroStep := by
  induction count generalizing cursor substeps with
  | zero =>
    cases ran
    exact ⟨.nil _, by simp, by simp⟩
  | succ count ih =>
    simp only [nominalSubsteps, bind_ok, pure_ok, Prod.mk.injEq] at ran
    obtain ⟨next, added, window, made, ⟨later, reached⟩, rest, rfl, rfl⟩ := ran
    obtain ⟨tiles, total, on⟩ := ih rest
    obtain ⟨opens, closes, windowOn⟩ := makeChildWindow_ok made
    have nextValue := Rational.add_ok added
    have start : window.start = cursor.value := by rw [ClockWindow.start, opens]
    have stop : window.stop = next.value := by rw [ClockWindow.stop, closes]
    refine ⟨?_, ?_, ?_⟩
    · rw [List.map_cons, ← start]
      refine .cons ?_ ?_
      · rw [start, stop, nextValue]
        linarith
      · rwa [stop]
    · rw [total, nextValue]
      push_cast
      ring
    · intro substep listed
      rcases List.mem_cons.mp listed with rfl | listed
      · exact windowOn
      · exact on substep listed

theorem full_le_ratio {ratio : Rational} (atLeastOne : ratio.less .one = false) :
    0 < ratio.value ∧ ((ratio.numerator / ratio.denominator).toNat : ℚ) ≤ ratio.value := by
  have bound : 1 ≤ ratio.value := by
    apply not_lt.mp
    intro below
    have one : Rational.one.value = 1 := by norm_num [Rational.value, Rational.one]
    rw [← one, ← Rational.less_iff, atLeastOne] at below
    cases below
  refine ⟨by linarith, ?_⟩
  have positive := ratio.denominator_pos
  rw [Rational.value, le_div_iff₀ positive] at bound ⊢
  have nonnegative : 0 ≤ ratio.numerator / ratio.denominator := by
    apply Int.ediv_nonneg _ ratio.positive.le
    have whole : ratio.denominator ≤ ratio.numerator := by
      rw [one_mul] at bound
      exact_mod_cast bound
    exact ratio.positive.le.trans whole
  have floor := Int.ediv_mul_le ratio.numerator ratio.positive.ne'
  have cast : ((ratio.numerator / ratio.denominator).toNat : ℤ) = ratio.numerator / ratio.denominator :=
    Int.toNat_of_nonneg nonnegative
  rw [← cast] at floor
  exact_mod_cast floor

theorem integral_iff {rational : Rational} : rational.Integral ↔ ∃ count : ℤ, rational.value = count := by
  constructor
  · intro integral
    exact ⟨rational.numerator, by rw [Rational.value, integral, Int.cast_one, div_one]⟩
  · rintro ⟨count, same⟩
    rw [Rational.value, div_eq_iff rational.denominator_pos.ne'] at same
    have product : rational.numerator = count * rational.denominator := by exact_mod_cast same
    have divides : rational.denominator.natAbs ∣ rational.numerator.natAbs :=
      Int.natAbs_dvd_natAbs.mpr ⟨count, by rw [product, mul_comm]⟩
    have unit := Nat.Coprime.eq_one_of_dvd rational.reduced.symm divides
    have positive := rational.positive
    unfold Rational.Integral
    omega

theorem ratio_lt_full {ratio : Rational} (atLeastOne : ratio.less .one = false) :
    ratio.value < ((ratio.numerator / ratio.denominator).toNat : ℚ) + 1 := by
  obtain ⟨ratioPositive, -⟩ := full_le_ratio atLeastOne
  have positive := ratio.denominator_pos
  rw [Rational.value, div_pos_iff_of_pos_right positive] at ratioPositive
  have top : 0 < ratio.numerator := by exact_mod_cast ratioPositive
  have nonnegative := Int.ediv_nonneg top.le ratio.positive.le
  have floor := Int.lt_ediv_add_one_mul_self ratio.numerator ratio.positive
  have cast : ((ratio.numerator / ratio.denominator).toNat : ℤ) = ratio.numerator / ratio.denominator :=
    Int.toNat_of_nonneg nonnegative
  rw [← cast] at floor
  rw [Rational.value, div_lt_iff₀ positive]
  exact_mod_cast floor

/-- The exact length of a parent window over the temporal ratio. -/
def nominalLength (relation : ParentChildClockRelation) (parent : ClockWindow T) : ℚ :=
  (parent.stop - parent.start) / relation.temporalRatio.value

/-- The parent window is a whole number of nominal lengths. -/
def DividesWhole (relation : ParentChildClockRelation) (parent : ClockWindow T) : Prop :=
  ∃ count : ℤ, parent.stop - parent.start = count * relation.nominalLength parent

omit [Double T] in
theorem dividesWhole_iff (proper : parent.start < parent.stop) :
    relation.DividesWhole parent ↔ relation.temporalRatio.Integral := by
  have ratioPositive := (full_le_ratio relation.atLeastOne).1
  have span : parent.stop - parent.start ≠ 0 := (sub_pos.mpr proper).ne'
  rw [integral_iff]
  refine exists_congr fun count => ?_
  rw [nominalLength, mul_div_assoc', eq_div_iff ratioPositive.ne', mul_comm (count : ℚ), mul_right_inj' span]

variable {children : List (ChildSubstep T)}

theorem partition_steps (ran : relation.partition parent = .ok children) :
    parent.opening.level = relation.parentLevel ∧ parent.start < parent.stop ∧
    (relation.temporalRatio.Integral ∨ relation.remainderPolicy = .explicitFinalSubstep) ∧
    ∃ (nominal cursor : Rational) (result remainder : List (ChildSubstep T)),
      nominal.value = relation.nominalLength parent ∧
      relation.nominalSubsteps parent nominal
        (relation.temporalRatio.numerator / relation.temporalRatio.denominator).toNat parent.opening.phase =
          .ok (result, cursor) ∧
      children = result ++ remainder ∧
      (parent.stop ≤ cursor.value ∧ remainder = [] ∨
        cursor.value < parent.stop ∧ ∃ window,
          relation.makeChildWindow parent cursor parent.closing.phase = .ok window ∧
            remainder = [⟨window, true⟩]) := by
  simp only [partition, bind_ok, throwIf_ok, unit_exists, not_or, not_not, not_and, ne_eq,
    Bool.not_eq_false] at ran
  obtain ⟨⟨level, -, forward, -⟩, declared, span, spanRan, nominal, nominalRan, -, ⟨result, cursor⟩, steps, ran⟩ := ran
  refine ⟨level, Rational.less_iff.mp forward, ?_, nominal, cursor, result, ?_⟩
  · by_cases integral : relation.temporalRatio.Integral
    · exact .inl integral
    · right
      cases policy : relation.remainderPolicy with
      | integralOnly => exact absurd policy (declared integral)
      | explicitFinalSubstep => rfl
  have length : nominal.value = relation.nominalLength parent := by
    rw [Rational.div_ok nominalRan, Rational.sub_ok spanRan]
    rfl
  split at ran
  · rename_i short
    simp only [bind_ok, pure_ok] at ran
    obtain ⟨window, made, rfl⟩ := ran
    exact ⟨[⟨window, true⟩], length, steps, rfl, .inr ⟨Rational.less_iff.mp short, window, made, rfl⟩⟩
  · rename_i whole
    cases ran
    exact ⟨[], length, steps, (List.append_nil _).symm,
      .inl ⟨not_lt.mp (mt Rational.less_iff.mpr (by simpa using whole)), rfl⟩⟩

omit [Double T] in
theorem cursor_iff {cursor : ℚ} (proper : parent.start < parent.stop)
    (reached : cursor = parent.start +
      ((relation.temporalRatio.numerator / relation.temporalRatio.denominator).toNat : ℚ) *
        relation.nominalLength parent) :
    cursor ≤ parent.stop ∧ parent.stop - cursor < relation.nominalLength parent ∧
      (cursor < parent.stop ↔ ¬ relation.DividesWhole parent) := by
  obtain ⟨ratioPositive, full⟩ := full_le_ratio relation.atLeastOne
  have above := ratio_lt_full relation.atLeastOne
  have positive : 0 < relation.nominalLength parent := div_pos (sub_pos.mpr proper) ratioPositive
  have span : relation.temporalRatio.value * relation.nominalLength parent = parent.stop - parent.start :=
    mul_div_cancel₀ _ ratioPositive.ne'
  rw [dividesWhole_iff proper, integral_iff]
  generalize (relation.temporalRatio.numerator / relation.temporalRatio.denominator).toNat = count at *
  have lower := mul_le_mul_of_nonneg_right full positive.le
  have upper := mul_lt_mul_of_pos_right above positive
  rw [span] at lower upper
  refine ⟨by linarith, by linarith, ?_⟩
  constructor
  · rintro short ⟨whole, same⟩
    rw [same] at full above
    have equal : whole = count := by
      have low : (count : ℤ) ≤ whole := by exact_mod_cast full
      have high : whole < count + 1 := by exact_mod_cast above
      omega
    rw [same, equal, Int.cast_natCast] at span
    linarith
  · intro fractional
    refine lt_of_le_of_ne (by linarith) fun same => fractional ⟨count, ?_⟩
    have product : (count : ℚ) * relation.nominalLength parent =
        relation.temporalRatio.value * relation.nominalLength parent := by linarith
    rw [Int.cast_natCast]
    exact (mul_right_cancel₀ positive.ne' product).symm

theorem partition_ok (ran : relation.partition parent = .ok children) :
    parent.opening.level = relation.parentLevel ∧ parent.start < parent.stop ∧
      Tiles ClockWindow.start ClockWindow.stop parent.start (children.map ChildSubstep.window) parent.stop ∧
        ∀ child ∈ children, child.window.On relation.childLevel parent.opening.macroStep := by
  obtain ⟨level, proper, -, nominal, cursor, result, remainder, length, steps, rfl, last⟩ := partition_steps ran
  have positive : 0 < nominal.value := by
    rw [length]
    exact div_pos (sub_pos.mpr proper) (full_le_ratio relation.atLeastOne).1
  obtain ⟨tiles, reached, on⟩ := nominalSubsteps_ok positive steps
  rw [length] at reached
  obtain ⟨within, -⟩ := cursor_iff proper reached
  refine ⟨level, proper, ?_⟩
  rcases last with ⟨whole, rfl⟩ | ⟨short, window, made, rfl⟩
  · have ended : cursor.value = parent.stop := le_antisymm within whole
    rw [← ended, List.append_nil]
    exact ⟨tiles, on⟩
  · obtain ⟨opens, closes, windowOn⟩ := makeChildWindow_ok made
    have start : window.start = cursor.value := by rw [ClockWindow.start, opens]
    have stop : window.stop = parent.stop := by rw [ClockWindow.stop, closes, ClockWindow.stop]
    refine ⟨?_, ?_⟩
    · rw [List.map_append]
      refine tiles.append ?_
      rw [← start, ← stop]
      apply Tiles.singleton
      rw [start, stop]
      exact short
    · intro child listed
      rcases List.mem_append.mp listed with earlier | last
      · exact on child earlier
      · rw [List.mem_singleton.mp last]
        exact windowOn

/-- The stamp the children of a parent window put at a phase. -/
def childStamp (relation : ParentChildClockRelation) (parent : ClockWindow T) (phase : Rational) :
    Checked (ClockStamp T) := do
  let parentSpan ← parent.closing.phase.sub parent.opening.phase
  let time ← physicalTime parent parentSpan phase
  return ⟨relation.childLevel, parent.opening.macroStep, phase, time⟩

theorem makeChildWindow_stamps {opening closing : Rational} {window : ClockWindow T}
    (ran : relation.makeChildWindow parent opening closing = .ok window) :
    relation.childStamp parent window.opening.phase = .ok window.opening ∧
      relation.childStamp parent window.closing.phase = .ok window.closing := by
  simp only [makeChildWindow, bind_ok, pure_ok] at ran
  obtain ⟨span, spanRan, _, openingTime, _, closingTime, rfl⟩ := ran
  simp only [childStamp, spanRan, openingTime, closingTime, ok_bind]
  exact ⟨rfl, rfl⟩

theorem nominalSubsteps_uniform {nominal : Rational} {count : ℕ} {cursor last : Rational}
    {substeps : List (ChildSubstep T)}
    (ran : relation.nominalSubsteps parent nominal count cursor = .ok (substeps, last)) :
    substeps.length = count ∧ ∀ substep ∈ substeps, substep.isDeclaredRemainder = false ∧
      substep.window.stop - substep.window.start = nominal.value ∧
      relation.childStamp parent substep.window.opening.phase = .ok substep.window.opening ∧
      relation.childStamp parent substep.window.closing.phase = .ok substep.window.closing := by
  induction count generalizing cursor substeps with
  | zero =>
    cases ran
    exact ⟨rfl, by simp⟩
  | succ count ih =>
    simp only [nominalSubsteps, bind_ok, pure_ok, Prod.mk.injEq] at ran
    obtain ⟨next, added, window, made, ⟨later, reached⟩, rest, rfl, rfl⟩ := ran
    obtain ⟨counted, uniform⟩ := ih rest
    obtain ⟨opens, closes, -⟩ := makeChildWindow_ok made
    refine ⟨by rw [List.length_cons, counted], fun substep listed => ?_⟩
    rcases List.mem_cons.mp listed with rfl | listed
    · refine ⟨rfl, ?_, makeChildWindow_stamps made⟩
      rw [ClockWindow.stop, ClockWindow.start, opens, closes, Rational.add_ok added]
      ring
    · exact uniform substep listed

/-- What a partition of a parent window into child windows is: nominal children,
and after them at most one shorter remainder. -/
structure Partitions (relation : ParentChildClockRelation) (parent : ClockWindow T)
    (nominal remainder : List (ChildSubstep T)) : Prop where
  tiles : Tiles ClockWindow.start ClockWindow.stop parent.start
    ((nominal ++ remainder).map ChildSubstep.window) parent.stop
  begins : ∃ first, (nominal ++ remainder).head? = some first ∧
    first.window.opening.phase = parent.opening.phase
  ends : ∃ last, (nominal ++ remainder).getLast? = some last ∧
    last.window.closing.phase = parent.closing.phase
  contiguous : (nominal ++ remainder).IsChain fun earlier later =>
    earlier.window.closing = later.window.opening
  levels : ∀ child ∈ nominal ++ remainder, child.window.On relation.childLevel parent.opening.macroStep
  nominalCount : (nominal.length : ℚ) ≤ relation.temporalRatio.value ∧
    relation.temporalRatio.value < nominal.length + 1
  nominalLengths : ∀ child ∈ nominal, child.isDeclaredRemainder = false ∧
    child.window.stop - child.window.start = relation.nominalLength parent
  atMostOne : remainder.length ≤ 1
  shorter : ∀ child ∈ remainder, child.isDeclaredRemainder = true ∧
    child.window.stop - child.window.start < relation.nominalLength parent
  present : remainder ≠ [] ↔
    ¬ relation.DividesWhole parent ∧ relation.remainderPolicy = .explicitFinalSubstep

theorem partition_stamps (ran : relation.partition parent = .ok children) :
    ∀ child ∈ children, relation.childStamp parent child.window.opening.phase = .ok child.window.opening ∧
      relation.childStamp parent child.window.closing.phase = .ok child.window.closing := by
  obtain ⟨-, -, -, nominal, cursor, result, remainder, -, steps, rfl, last⟩ := partition_steps ran
  intro child listed
  rcases List.mem_append.mp listed with early | late
  · exact ((nominalSubsteps_uniform steps).2 child early).2.2
  · rcases last with ⟨-, rfl⟩ | ⟨-, window, made, rfl⟩
    · cases late
    · rw [List.mem_singleton.mp late]
      exact makeChildWindow_stamps made

theorem partition_partitions (ran : relation.partition parent = .ok children) :
    ∃ nominal remainder, children = nominal ++ remainder ∧ relation.Partitions parent nominal remainder := by
  obtain ⟨-, -, tiles, levels⟩ := partition_ok ran
  have stamps := partition_stamps ran
  obtain ⟨-, proper, declared, nominal, cursor, result, remainder, length, steps, rfl, last⟩ := partition_steps ran
  have positive : 0 < nominal.value := by
    rw [length]
    exact div_pos (sub_pos.mpr proper) (full_le_ratio relation.atLeastOne).1
  obtain ⟨counted, uniform⟩ := nominalSubsteps_uniform steps
  have reached := (nominalSubsteps_ok positive steps).2.1
  rw [length] at reached
  obtain ⟨within, short, remains⟩ := cursor_iff proper reached
  have nonempty : result ++ remainder ≠ [] := by
    intro none
    rw [none] at tiles
    exact proper.ne tiles.nil_eq
  refine ⟨result, remainder, rfl, tiles, ?_, ?_, ?_, levels, ?_, ?_, ?_, ?_, ?_⟩
  · obtain ⟨first, rest, split⟩ := List.exists_cons_of_ne_nil nonempty
    rw [split] at tiles ⊢
    exact ⟨first, rfl, Rational.value_injective tiles.lo_head⟩
  · obtain none | ⟨early, final, split⟩ := List.eq_nil_or_concat (result ++ remainder)
    · exact absurd none nonempty
    · rw [split, List.concat_eq_append] at tiles ⊢
      rw [List.map_append] at tiles
      exact ⟨final, List.getLast?_concat, Rational.value_injective tiles.hi_getLast⟩
  · have meets := (List.isChain_map ChildSubstep.window).mp tiles.isChain
    refine meets.imp_of_mem_imp fun earlier later earlierListed laterListed meet => ?_
    have closes := (stamps earlier earlierListed).2
    have opens := (stamps later laterListed).1
    rw [Rational.value_injective meet, opens] at closes
    exact (Except.ok.inj closes).symm
  · rw [counted]
    exact ⟨(full_le_ratio relation.atLeastOne).2, ratio_lt_full relation.atLeastOne⟩
  · intro child listed
    obtain ⟨unmarked, long, -⟩ := uniform child listed
    exact ⟨unmarked, long.trans length⟩
  · rcases last with ⟨-, rfl⟩ | ⟨-, window, -, rfl⟩ <;> simp
  · intro child listed
    rcases last with ⟨-, rfl⟩ | ⟨-, window, made, rfl⟩
    · cases listed
    · obtain ⟨opens, closes, -⟩ := makeChildWindow_ok made
      rw [List.mem_singleton.mp listed, ClockWindow.stop, ClockWindow.start, opens, closes]
      exact ⟨rfl, short⟩
  · rw [← remains]
    rcases last with ⟨whole, rfl⟩ | ⟨more, window, -, rfl⟩
    · simp [not_lt.mpr whole]
    · rw [remains, dividesWhole_iff proper] at *
      simp only [ne_eq, List.cons_ne_self, not_false_eq_true, true_iff]
      exact ⟨more, declared.resolve_left more⟩

/-- The parent window is a forward one of the parent level that the nominal length divides or whose remainder is
declared. -/
structure Accepts (relation : ParentChildClockRelation) (parent : ClockWindow T) : Prop where
  opening : parent.opening.level = relation.parentLevel
  closing : parent.closing.level = relation.parentLevel
  forward : parent.start < parent.stop
  later : Double.less parent.opening.physicalTime parent.closing.physicalTime = true
  declared : relation.DividesWhole parent ∨ relation.remainderPolicy = .explicitFinalSubstep

/-- What an exact number without an `int64` form throws, and what more substeps than a vector holds do. -/
def ExceedsRange (exception : Exception) : Prop :=
  (∃ what, exception = .overflowError what) ∨ exception = .lengthError "vector::reserve"

/-- The exact number has an `int64` form. -/
def Representable (number : ℚ) : Prop := ∃ rational : Rational, rational.value = number

/-- The numbers of a partition have `int64` forms: the span, the nominal length and, for each endpoint, its phase, its
offset and the part of the span it lies at. A vector holds the substeps. -/
structure InRange (relation : ParentChildClockRelation) (parent : ClockWindow T) : Prop where
  span : Representable (parent.stop - parent.start)
  nominal : Representable (relation.nominalLength parent)
  endpoints : ∀ index : ℕ, index ≤ relation.temporalRatio.value →
    Representable (parent.start + index * relation.nominalLength parent) ∧
      Representable (index * relation.nominalLength parent) ∧ Representable (index / relation.temporalRatio.value)
  capacity : relation.temporalRatio.numerator / relation.temporalRatio.denominator +
    (if relation.temporalRatio.Integral then 0 else 1) ≤ childSubstepMaxSize

/-- A number exceeds its range, against the property. -/
def Lacks (property : Prop) (exception : Exception) : Prop := ExceedsRange exception ∧ ¬ property

section
variable {property : Prop}

theorem exact_throws {outcome : Checked Rational} {number : ℚ} (exact : Rational.Exact outcome number)
    (fits : property → Representable number) : Throws (Lacks property) outcome := by
  intro exception thrown
  have unfit : ¬ Representable number := by
    rintro ⟨result, same⟩
    rw [exact.returns result same] at thrown
    cases thrown
  obtain ⟨what, overflow⟩ := exact.overflows unfit
  rw [overflow] at thrown
  cases thrown
  exact ⟨.inl ⟨what, rfl⟩, mt fits unfit⟩

theorem add_throws (a b : Rational) (fits : property → Representable (a.value + b.value)) :
    Throws (Lacks property) (a.add b) :=
  exact_throws (Rational.addOrSubtract_exact a b false) fits

theorem sub_throws (a b : Rational) (fits : property → Representable (a.value - b.value)) :
    Throws (Lacks property) (a.sub b) := by
  rw [sub_eq_add_neg] at fits
  exact exact_throws (Rational.addOrSubtract_exact a b true) fits

theorem div_throws (a : Rational) {b : Rational} (positive : 0 < b.value)
    (fits : property → Representable (a.value / b.value)) : Throws (Lacks property) (a.div b) := by
  rw [Rational.value, div_pos_iff_of_pos_right b.denominator_pos] at positive
  have top : 0 < b.numerator := by exact_mod_cast positive
  exact exact_throws ((Rational.div_exact_iff a b top.ne').mpr fun edge => absurd edge.1 top.not_gt) fits

/-- The offset of a phase and the part of the span it lies at are representable. -/
def Timed (parent : ClockWindow T) (phase : ℚ) : Prop :=
  Representable (phase - parent.start) ∧ Representable ((phase - parent.start) / (parent.stop - parent.start))

theorem physicalTime_throws {span phase : Rational} (length : span.value = parent.stop - parent.start)
    (positive : 0 < span.value) (timed : property → Timed parent phase.value) :
    Throws (Lacks property) (physicalTime parent span phase) := by
  refine .bind (sub_throws _ _ fun holds => (timed holds).1) fun offset moved => ?_
  refine .bind (div_throws _ positive fun holds => ?_) fun _ _ => .pure _
  rw [Rational.sub_ok moved, length]
  exact (timed holds).2

theorem makeChildWindow_throws (forward : parent.start < parent.stop)
    (fits : property → Representable (parent.stop - parent.start)) {opening closing : Rational}
    (opens : property → Timed parent opening.value) (closes : property → Timed parent closing.value) :
    Throws (Lacks property) (relation.makeChildWindow parent opening closing) := by
  refine .bind (sub_throws _ _ fits) fun span spanned => ?_
  have length : span.value = parent.stop - parent.start := Rational.sub_ok spanned
  have positive : 0 < span.value := length ▸ sub_pos.mpr forward
  exact .bind (physicalTime_throws length positive opens) fun _ _ =>
    .bind (physicalTime_throws length positive closes) fun _ _ => .pure _

end

omit [Double T] in
theorem InRange.timed (inRange : relation.InRange parent) (forward : parent.start < parent.stop) {index : ℕ}
    (reached : index ≤ relation.temporalRatio.value) :
    Timed parent (parent.start + index * relation.nominalLength parent) := by
  obtain ⟨-, offset, part⟩ := inRange.endpoints index reached
  have span : parent.stop - parent.start ≠ 0 := (sub_pos.mpr forward).ne'
  have share : index * relation.nominalLength parent / (parent.stop - parent.start) =
      index / relation.temporalRatio.value := by
    rw [nominalLength]
    field_simp
  rw [Timed, add_sub_cancel_left, share]
  exact ⟨offset, part⟩

omit [Double T] in
theorem InRange.timed_stop (inRange : relation.InRange parent) (forward : parent.start < parent.stop) :
    Timed parent parent.stop := by
  have whole : (parent.stop - parent.start) / (parent.stop - parent.start) = 1 := div_self (sub_pos.mpr forward).ne'
  have one : Rational.one.value = 1 := by norm_num [Rational.value, Rational.one]
  exact ⟨inRange.span, Rational.one, one.trans whole.symm⟩

theorem nominalSubsteps_throws (forward : parent.start < parent.stop) {nominal : Rational}
    (length : nominal.value = relation.nominalLength parent) (count index : ℕ) {cursor : Rational}
    (stands : cursor.value = parent.start + index * relation.nominalLength parent)
    (reached : ((index + count : ℕ) : ℚ) ≤ relation.temporalRatio.value) :
    Throws (Lacks (relation.InRange parent)) (relation.nominalSubsteps parent nominal count cursor) := by
  induction count generalizing index cursor with
  | zero => exact .ok _
  | succ count ih =>
    have onward : cursor.value + nominal.value =
        parent.start + ((index + 1 : ℕ) : ℚ) * relation.nominalLength parent := by
      rw [stands, length]
      push_cast
      ring
    have later : ((index + 1 : ℕ) : ℚ) ≤ relation.temporalRatio.value := le_trans (by push_cast; linarith) reached
    have earlier : (index : ℚ) ≤ relation.temporalRatio.value := le_trans (by push_cast; linarith) later
    refine .bind (add_throws _ _ fun inRange => onward ▸ (inRange.endpoints _ later).1) fun next added => ?_
    have nextValue := (Rational.add_ok added).trans onward
    exact .bind (makeChildWindow_throws forward InRange.span (fun inRange => stands ▸ inRange.timed forward earlier)
      fun inRange => nextValue ▸ inRange.timed forward later) fun _ _ =>
        .bind (ih (index + 1) nextValue (by rwa [Nat.add_assoc, Nat.add_comm 1])) fun _ _ => .pure _

theorem partition_throws (accepts : relation.Accepts parent) :
    Throws (Lacks (relation.InRange parent)) (relation.partition parent) := by
  obtain ⟨opening, closing, forward, later, declared⟩ := accepts
  rw [dividesWhole_iff forward] at declared
  have matched : ¬ (parent.opening.level ≠ relation.parentLevel ∨ parent.closing.level ≠ relation.parentLevel ∨
      parent.opening.phase.less parent.closing.phase = false ∨
      Double.less parent.opening.physicalTime parent.closing.physicalTime = false) := by
    simp [opening, closing, later, Rational.less_iff.mpr forward]
  have allowed : ¬ (¬ relation.temporalRatio.Integral ∧ relation.remainderPolicy = .integralOnly) := by
    rintro ⟨fractional, policy⟩
    rw [declared.resolve_left fractional] at policy
    cases policy
  obtain ⟨positive, reached⟩ := full_le_ratio relation.atLeastOne
  rw [partition, throwIf_of_not matched, ok_bind, throwIf_of_not allowed, ok_bind]
  refine .bind (sub_throws _ _ InRange.span) fun span spanned => ?_
  have share : span.value / relation.temporalRatio.value = relation.nominalLength parent := by
    rw [Rational.sub_ok spanned]
    rfl
  refine .bind (div_throws _ positive fun inRange => share ▸ inRange.nominal) fun nominal divided => ?_
  refine .bind (.throwIf fun exceeds => ⟨.inr rfl, fun inRange => absurd exceeds inRange.capacity.not_gt⟩) fun _ _ => ?_
  have length : nominal.value = relation.nominalLength parent := (Rational.div_ok divided).trans share
  have start : parent.opening.phase.value = parent.start + (0 : ℕ) * relation.nominalLength parent := by
    rw [Nat.cast_zero, zero_mul, add_zero]
    rfl
  refine .bind (nominalSubsteps_throws forward length _ 0 start (by rwa [Nat.zero_add])) fun steps stepped => ?_
  obtain ⟨result, cursor⟩ := steps
  have nominalPositive : 0 < nominal.value := length ▸ div_pos (sub_pos.mpr forward) positive
  have total : cursor.value = parent.start + _ * relation.nominalLength parent :=
    length ▸ (nominalSubsteps_ok nominalPositive stepped).2.1
  dsimp only
  split
  · exact .bind (makeChildWindow_throws forward InRange.span (fun inRange => total ▸ inRange.timed forward reached)
      fun inRange => inRange.timed_stop forward) fun _ _ => .pure _
  · exact .pure _

theorem partition_returns (accepts : relation.Accepts parent) (inRange : relation.InRange parent) :
    ∃ children, relation.partition parent = .ok children := by
  cases ran : relation.partition parent with
  | ok children => exact ⟨children, rfl⟩
  | error exception => exact absurd inRange (partition_throws accepts exception ran).2

theorem partition_refuses (refused : ¬ relation.Accepts parent) :
    ∃ what, relation.partition parent = .error (.runtimeError what) := by
  unfold partition
  by_cases matched : parent.opening.level ≠ relation.parentLevel ∨ parent.closing.level ≠ relation.parentLevel ∨
      parent.opening.phase.less parent.closing.phase = false ∨
      Double.less parent.opening.physicalTime parent.closing.physicalTime = false
  · rw [throwIf, if_pos matched]
    exact ⟨_, rfl⟩
  · rw [throwIf_of_not matched, ok_bind]
    simp only [not_or, not_not, ne_eq, Bool.not_eq_false] at matched
    obtain ⟨opening, closing, forward, later⟩ := matched
    have undeclared : ¬ relation.temporalRatio.Integral ∧ relation.remainderPolicy = .integralOnly := by
      have proper := Rational.less_iff.mp forward
      have neither := mt (Accepts.mk opening closing proper later) refused
      rw [not_or, dividesWhole_iff proper] at neither
      refine ⟨neither.1, ?_⟩
      cases policy : relation.remainderPolicy with
      | integralOnly => rfl
      | explicitFinalSubstep => exact absurd policy neither.2
    rw [throwIf, if_pos undeclared]
    exact ⟨_, rfl⟩

/-- `partition` returns nothing but a partition of its parent window. It refuses every window it does not accept,
leaves an accepted one unpartitioned only where a number exceeds its range, and returns where none does. -/
theorem partition_splits_or_throws (relation : ParentChildClockRelation) (parent : ClockWindow T) :
    (∀ children, relation.partition parent = .ok children →
      ∃ nominal remainder, children = nominal ++ remainder ∧ relation.Partitions parent nominal remainder) ∧
    (¬ relation.Accepts parent → ∃ what, relation.partition parent = .error (.runtimeError what)) ∧
    (relation.Accepts parent → Throws ExceedsRange (relation.partition parent)) ∧
    (relation.Accepts parent → relation.InRange parent → ∃ children, relation.partition parent = .ok children) :=
  ⟨fun _ ran => partition_partitions ran, partition_refuses,
    fun accepts exception thrown => (partition_throws accepts exception thrown).1, partition_returns⟩

example : ((⟨0, 1, ⟨5, 2, by decide, by decide, by decide, by decide⟩, .explicitFinalSubstep, le_rfl, rfl, by decide⟩ :
    ParentChildClockRelation).partition ⟨⟨0, 0, .zero, (0 : ℚ)⟩, ⟨0, 0, .one, 1⟩⟩).map
      (List.map ChildSubstep.isDeclaredRemainder) = .ok [false, false, true] := by
  decide +kernel

end ParentChildClockRelation

end Pops
