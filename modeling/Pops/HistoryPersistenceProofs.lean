import Pops.Checked
import Pops.HistoryPersistence

/-!
Where the positions of a `Revolve` policy are not disturbed by their division in binary64, they are
distinct, no gap between two of them is wider than it has to be, and the loop has nothing to fill.
-/
namespace Pops.HistoryPersistence

/-- The largest gap between neighbours. -/
def largestGap (slots : List ℤ) : ℤ := ((neighbours slots).map fun pair => pair.2 - pair.1).foldr max 0

/-- Slots of a ring in increasing order, with its newest and its oldest one. -/
structure Spread (depth : ℤ) (slots : List ℤ) : Prop where
  increasing : slots.Pairwise (· < ·)
  inside : ∀ slot ∈ slots, 0 ≤ slot ∧ slot < depth
  newest : 0 ∈ slots
  oldest : depth - 1 ∈ slots

/-- The placement that a policy with a budget promises. -/
structure Placement (depth snapshots : ℤ) (slots : List ℤ) : Prop where
  spread : Spread depth slots
  count : (slots.length : ℤ) = min snapshots depth
  optimal : ∀ other, Spread depth other → other.length = slots.length → largestGap slots ≤ largestGap other

/-- No position falls on another slot once its quotient is a binary64 number. -/
def RoundsExactly (depth snapshots : ℤ) : Prop :=
  depth ≤ snapshots ∨ ∀ i, 0 ≤ i → i < snapshots →
    Rounding.isFinite (Rounding.binary64 (quotient depth snapshots i)) = true ∧
      Rounding.nearest (Rounding.binary64 (quotient depth snapshots i)) =
        Rounding.nearest (quotient depth snapshots i)

variable {slots : List ℤ} {anchors : List ℤ} {policy : Policy}

theorem mem_neighbours {pair : ℤ × ℤ} (listed : pair ∈ neighbours slots) :
    ∃ (n : ℕ) (inside : n + 1 < slots.length), pair = (slots[n], slots[n + 1]) := by
  obtain ⟨n, below, found⟩ := List.mem_iff_getElem.mp listed
  rw [neighbours, List.length_zip, List.length_tail] at below
  refine ⟨n, by omega, ?_⟩
  rw [← found]
  simp [neighbours]

theorem le_foldr_max {values : List ℤ} {value : ℤ} (listed : value ∈ values) : value ≤ values.foldr max 0 := by
  induction values with
  | nil => cases listed
  | cons first later ih =>
    rw [List.foldr_cons]
    rcases List.mem_cons.mp listed with rfl | deeper
    · exact le_max_left _ _
    · exact (ih deeper).trans (le_max_right _ _)

theorem foldr_max_le {values : List ℤ} {bound : ℤ} (nonneg : 0 ≤ bound) (each : ∀ value ∈ values, value ≤ bound) :
    values.foldr max 0 ≤ bound := by
  induction values with
  | nil => exact nonneg
  | cons first later ih =>
    rw [List.foldr_cons]
    exact max_le (each first List.mem_cons_self) (ih fun value listed => each value (List.mem_cons_of_mem _ listed))

theorem le_largestGap {pair : ℤ × ℤ} (listed : pair ∈ neighbours slots) :
    pair.2 - pair.1 ≤ largestGap slots :=
  le_foldr_max (List.mem_map_of_mem listed)

theorem largestGap_le {bound : ℤ} (nonneg : 0 ≤ bound)
    (each : ∀ pair ∈ neighbours slots, pair.2 - pair.1 ≤ bound) : largestGap slots ≤ bound := by
  refine foldr_max_le nonneg fun value listed => ?_
  obtain ⟨pair, found, rfl⟩ := List.mem_map.mp listed
  exact each pair found

theorem largestGap_nonneg (slots : List ℤ) : 0 ≤ largestGap slots := by
  unfold largestGap
  induction (neighbours slots).map fun pair => pair.2 - pair.1 with
  | nil => exact le_rfl
  | cons first later ih => exact ih.trans (le_max_right _ _)

theorem span_le {first slot : ℤ} {later : List ℤ} (listed : slot ∈ first :: later) :
    slot - first ≤ later.length * largestGap (first :: later) := by
  induction later generalizing first with
  | nil =>
    rw [List.mem_singleton.mp listed]
    simp
  | cons second later ih =>
    have step : second - first ≤ largestGap (first :: second :: later) :=
      le_largestGap (show (first, second) ∈ neighbours (first :: second :: later) from List.mem_cons_self)
    have wider : largestGap (second :: later) ≤ largestGap (first :: second :: later) := le_max_right _ _
    have nonneg := largestGap_nonneg (first :: second :: later)
    rw [List.length_cons, Nat.cast_add, Nat.cast_one, add_mul, one_mul]
    rcases List.mem_cons.mp listed with rfl | deeper
    · rw [sub_self]
      positivity
    · have rest := ih deeper
      have scaled : (later.length : ℤ) * largestGap (second :: later) ≤
          later.length * largestGap (first :: second :: later) := mul_le_mul_of_nonneg_left wider (by positivity)
      omega

variable {depth snapshots : ℤ} {slots : List ℤ}

theorem Spread.reaches (spread : Spread depth slots) : depth - 1 ≤ (slots.length - 1) * largestGap slots := by
  cases slots with
  | nil => cases spread.newest
  | cons first later =>
    have low : first = 0 := by
      rcases List.mem_cons.mp spread.newest with found | deeper
      · exact found.symm
      · have below := (List.pairwise_cons.mp spread.increasing).1 0 deeper
        have inside := (spread.inside first List.mem_cons_self).1
        omega
    have span := span_le spread.oldest
    rw [low] at span ⊢
    simpa using span

theorem Spread.placement (spread : Spread depth slots) (count : (slots.length : ℤ) = min snapshots depth) {bound : ℤ}
    (nonneg : 0 ≤ bound) (gaps : ∀ pair ∈ neighbours slots, pair.2 - pair.1 ≤ bound)
    (needed : 0 < bound → (slots.length - 1) * (bound - 1) < depth - 1) : Placement depth snapshots slots := by
  refine ⟨spread, count, fun other otherSpread same => ?_⟩
  refine (largestGap_le nonneg gaps).trans ?_
  by_contra narrower
  have positive : 0 < bound := lt_of_le_of_lt (largestGap_nonneg other) (not_le.mp narrower)
  have across := otherSpread.reaches
  rw [same] at across
  have some : (1 : ℤ) ≤ slots.length := mod_cast List.length_pos_of_mem spread.newest
  have scaled : ((slots.length : ℤ) - 1) * largestGap other ≤ (slots.length - 1) * (bound - 1) :=
    mul_le_mul_of_nonneg_left (by omega) (by omega)
  exact absurd (needed positive) (not_lt.mpr (across.trans scaled))

theorem range_placement (ring : 1 ≤ depth) (budget : depth ≤ snapshots) : Placement depth snapshots (range depth) := by
  have spread : Spread depth (range depth) :=
    ⟨range_increasing depth, fun slot listed => mem_range.mp listed, mem_range.mpr ⟨le_rfl, by omega⟩,
      mem_range.mpr ⟨by omega, by omega⟩⟩
  have length : ((range depth).length : ℤ) = depth := by
    rw [length_range]
    omega
  by_cases single : depth = 1
  · subst single
    exact spread.placement (length.trans (min_eq_right budget).symm) le_rfl (by decide) fun positive => absurd positive
      (lt_irrefl 0)
  · refine spread.placement (length.trans (min_eq_right budget).symm) zero_le_one (fun pair listed => ?_) fun _ => ?_
    · obtain ⟨n, inside, rfl⟩ := mem_neighbours listed
      simp [range]
    · rw [sub_self, mul_zero]
      omega

theorem quotient_add_one (depth snapshots i : ℤ) :
    quotient depth snapshots (i + 1) = quotient depth snapshots i + quotient depth snapshots 1 := by
  unfold quotient
  push_cast
  rw [← add_div]
  ring

theorem position_gap (depth snapshots i : ℤ) :
    Rounding.nearest (quotient depth snapshots (i + 1)) - Rounding.nearest (quotient depth snapshots i) ≤
      ⌈quotient depth snapshots 1⌉ := by
  have next := quotient_add_one depth snapshots i
  have narrow := Int.le_ceil (quotient depth snapshots 1)
  generalize ⌈quotient depth snapshots 1⌉ = gap at narrow ⊢
  rcases lt_or_eq_of_le narrow with narrower | whole
  · have before := (abs_le.mp (Rounding.nearest_error (quotient depth snapshots i))).1
    have after := (abs_le.mp (Rounding.nearest_error (quotient depth snapshots (i + 1)))).2
    have bounded : ((Rounding.nearest (quotient depth snapshots (i + 1)) -
        Rounding.nearest (quotient depth snapshots i) : ℤ) : ℚ) < (gap + 1 : ℤ) := by
      push_cast
      linarith
    exact Int.lt_add_one_iff.mp (by exact_mod_cast bounded)
  · -- Then every position is a slot.
    have step : quotient depth snapshots i = ((i * gap : ℤ) : ℚ) := by
      push_cast
      rw [← whole]
      unfold quotient
      push_cast
      ring
    rw [next, step, whole, ← Int.cast_add, Rounding.nearest_intCast, Rounding.nearest_intCast]
    omega

theorem position_first (depth snapshots : ℤ) : Rounding.nearest (quotient depth snapshots 0) = 0 := by
  have zero : quotient depth snapshots 0 = ((0 : ℤ) : ℚ) := by simp [quotient]
  rw [zero, Rounding.nearest_intCast]

theorem position_last (least : 2 ≤ snapshots) :
    Rounding.nearest (quotient depth snapshots (snapshots - 1)) = depth - 1 := by
  have nonzero : ((snapshots - 1 : ℤ) : ℚ) ≠ 0 := by exact_mod_cast (by omega : snapshots - 1 ≠ 0)
  have whole : quotient depth snapshots (snapshots - 1) = ((depth - 1 : ℤ) : ℚ) := by
    rw [quotient, Int.cast_mul, mul_div_cancel_left₀ _ nonzero]
  rw [whole, Rounding.nearest_intCast]

section
variable (least : 2 ≤ snapshots) (short : snapshots < depth)
include least short

theorem one_lt_quotient : 1 < quotient depth snapshots 1 := by
  have positive : (0 : ℚ) < (snapshots - 1 : ℤ) := by exact_mod_cast (by omega : 0 < snapshots - 1)
  rw [quotient, one_mul, one_lt_div positive]
  exact_mod_cast (by omega : snapshots - 1 < depth - 1)

theorem position_strictMono : StrictMono fun i => Rounding.nearest (quotient depth snapshots i) := by
  refine strictMono_int_of_lt_succ fun i => ?_
  have apart := one_lt_quotient least short
  have before := (abs_le.mp (Rounding.nearest_error (quotient depth snapshots i))).2
  have after := (abs_le.mp (Rounding.nearest_error (quotient depth snapshots (i + 1)))).1
  have next := quotient_add_one depth snapshots i
  have less : (Rounding.nearest (quotient depth snapshots i) : ℚ) <
      Rounding.nearest (quotient depth snapshots (i + 1)) := by linarith
  exact_mod_cast less

theorem positions_placement :
    Placement depth snapshots ((range snapshots).map fun i => Rounding.nearest (quotient depth snapshots i)) := by
  have increasing := position_strictMono least short
  have first := position_first depth snapshots
  have last := @position_last depth snapshots least
  have spread : Spread depth ((range snapshots).map fun i => Rounding.nearest (quotient depth snapshots i)) := by
    refine ⟨List.pairwise_map.mpr ((range_increasing snapshots).imp fun less => increasing less), fun slot listed => ?_,
      List.mem_map.mpr ⟨0, mem_range.mpr ⟨le_rfl, by omega⟩, first⟩,
      List.mem_map.mpr ⟨snapshots - 1, mem_range.mpr ⟨by omega, by omega⟩, last⟩⟩
    obtain ⟨i, member, rfl⟩ := List.mem_map.mp listed
    obtain ⟨low, high⟩ := mem_range.mp member
    have above := increasing.monotone low
    have below := increasing.monotone (Int.le_sub_one_of_lt high)
    omega
  have length : (((range snapshots).map fun i => Rounding.nearest (quotient depth snapshots i)).length : ℤ) =
      snapshots := by
    rw [List.length_map, length_range]
    omega
  have apart := one_lt_quotient least short
  have nonneg : 0 ≤ ⌈quotient depth snapshots 1⌉ := Int.ceil_nonneg (by linarith)
  refine spread.placement (length.trans (min_eq_left short.le).symm) nonneg (fun pair listed => ?_) fun _ => ?_
  · obtain ⟨n, inside, rfl⟩ := mem_neighbours listed
    simpa [range] using position_gap depth snapshots n
  · rw [length]
    have narrower := Int.ceil_lt_add_one (quotient depth snapshots 1)
    have positive : (0 : ℚ) < (snapshots - 1 : ℤ) := by exact_mod_cast (by omega : 0 < snapshots - 1)
    have scaled : ((snapshots - 1 : ℤ) : ℚ) * (⌈quotient depth snapshots 1⌉ - 1) < (depth - 1 : ℤ) := by
      calc ((snapshots - 1 : ℤ) : ℚ) * (⌈quotient depth snapshots 1⌉ - 1)
          < (snapshots - 1 : ℤ) * quotient depth snapshots 1 := mul_lt_mul_of_pos_left (by linarith) positive
        _ = (depth - 1 : ℤ) := by rw [quotient, one_mul, mul_div_cancel₀ _ positive.ne']
    exact_mod_cast scaled

end

theorem binary64_half {k : ℤ} (nonneg : 0 ≤ k) (small : k < 2 ^ 52) :
    Rounding.binary64 ((2 * k + 1) / 2) = (2 * k + 1) / 2 := by
  have odd : (1 : ℚ) ≤ 2 * k + 1 := by exact_mod_cast (by omega : (1 : ℤ) ≤ 2 * k + 1)
  have positive : (0 : ℚ) < (2 * k + 1) / 2 := by linarith
  have low := Int.zpow_log_le_self (b := 2) one_lt_two positive
  have high := Int.lt_zpow_succ_log_self (b := 2) one_lt_two ((2 * k + 1) / 2 : ℚ)
  generalize logarithm : Int.log 2 ((2 * k + 1) / 2 : ℚ) = power at low high
  push_cast at low high
  have least : -1 ≤ power := by
    rw [← logarithm]
    refine (Int.zpow_le_iff_le_log one_lt_two positive).mp ?_
    norm_num
    linarith
  have most : power < 52 := by
    have below : ((2 * k + 1) / 2 : ℚ) < 2 ^ (52 : ℤ) := by
      have bound : (k : ℚ) + 1 ≤ 2 ^ 52 := by exact_mod_cast Int.add_one_le_of_lt small
      norm_num at bound ⊢
      linarith
    exact (zpow_lt_zpow_iff_right₀ one_lt_two).mp (low.trans_lt below)
  -- The number is a multiple of the spacing about it.
  have multiple : (((2 * k + 1) * 2 ^ (51 - power).toNat : ℤ) : ℚ) * 2 ^ (power - 52) = (2 * k + 1) / 2 := by
    have shift : (2 : ℚ) ^ (51 - power).toNat = 2 ^ (51 - power) := by
      rw [← zpow_natCast, Int.toNat_of_nonneg (by omega)]
    push_cast
    rw [shift, mul_assoc, ← zpow_add₀ two_ne_zero, show 51 - power + (power - 52) = -1 by ring]
    norm_num
    ring
  have spacing : (0 : ℚ) < 2 ^ (power - 52) := by positivity
  rw [Rounding.binary64_eq ((2 * k + 1) * 2 ^ (51 - power).toNat) (power - 52) (by omega)
    (by rwa [sub_add_cancel]) (by rwa [show power - 52 + 53 = power + 1 by ring]), multiple]
  · rw [sub_mul, multiple]
    linarith
  · rw [add_mul, multiple]
    linarith

/-- A quotient of small integers rounds to the same integer from its binary64 number: that number is
closer than the nearest half of an integer, or the quotient is one. -/
theorem nearest_binary64 {p q : ℤ} (nonneg : 0 ≤ p) (positive : 0 < q) (small : p < 2 ^ 52) (divisor : q ≤ 2 ^ 52) :
    Rounding.nearest (Rounding.binary64 (p / q)) = Rounding.nearest (p / q : ℚ) := by
  rcases eq_or_lt_of_le nonneg with rfl | some
  · simp
  have divides : (0 : ℚ) < q := by exact_mod_cast positive
  have normal : (2 : ℚ) ^ (-1022 : ℤ) ≤ p / q := by
    have one : (1 : ℚ) ≤ p := by exact_mod_cast some
    have least : (2 : ℚ) ^ (-1022 : ℤ) * q ≤ 1 := by
      have bound : (q : ℚ) ≤ 2 ^ 52 := by exact_mod_cast divisor
      calc (2 : ℚ) ^ (-1022 : ℤ) * q ≤ 2 ^ (-52 : ℤ) * 2 ^ 52 :=
            mul_le_mul (zpow_le_zpow_right₀ one_le_two (by decide)) bound divides.le (by positivity)
        _ = 1 := by norm_num
    rw [le_div_iff₀ divides]
    exact least.trans one
  have error : |Rounding.binary64 (p / q) - p / q| < 1 / (2 * q) := by
    refine (Rounding.binary64_error normal).trans_lt ?_
    rw [div_div, div_lt_div_iff₀ (by positivity) (by positivity)]
    have bound : (p : ℚ) < 2 ^ 52 := by exact_mod_cast small
    nlinarith
  have close := Rounding.nearest_error (p / q : ℚ)
  generalize slot : Rounding.nearest (p / q : ℚ) = n at close
  have scaled : (p / q : ℚ) * q = p := div_mul_cancel₀ _ divides.ne'
  have distance : |2 * (p - n * q)| ≤ q := by
    have real : |(2 * (p - n * q) : ℚ)| ≤ q := by
      have factored : (2 * (p - n * q) : ℚ) = -2 * q * (n - p / q) := by linear_combination -2 * scaled
      rw [factored, abs_mul, abs_mul, abs_neg, abs_two, abs_of_pos divides]
      nlinarith
    exact_mod_cast real
  rcases lt_or_eq_of_le distance with inner | half
  · -- The slot is nearer than half, by at least half of one in the divisor.
    have real : |(2 * (p - n * q) : ℚ)| ≤ q - 1 := by exact_mod_cast Int.le_sub_one_of_lt inner
    have lower := (abs_le.mp real).1
    have upper := (abs_le.mp real).2
    have width : 1 / (2 * (q : ℚ)) * (2 * q) = 1 := one_div_mul_cancel (by positivity)
    obtain ⟨above, below⟩ := abs_lt.mp error
    refine Rounding.nearest_eq ?_ ?_
    · nlinarith
    · nlinarith
  · rw [← slot]
    congr 1
    have odd : ∃ k : ℤ, 2 * p = (2 * k + 1) * q := by
      rcases abs_choice (2 * (p - n * q)) with same | same
      · exact ⟨n, by linarith⟩
      · exact ⟨n - 1, by linarith⟩
    obtain ⟨k, twice⟩ := odd
    have quotient : (p / q : ℚ) = (2 * k + 1) / 2 := by
      rw [div_eq_div_iff divides.ne' two_ne_zero]
      exact_mod_cast (by linarith : p * 2 = (2 * k + 1) * q)
    have low : 0 ≤ k := by
      by_contra below
      nlinarith
    have high : k < 2 ^ 52 := by
      by_contra above
      nlinarith
    rw [quotient]
    exact binary64_half low high

theorem roundsExactly_of_small (least : 2 ≤ snapshots) (ring : 1 ≤ depth)
    (small : (snapshots - 1) * (depth - 1) < 2 ^ 52) : RoundsExactly depth snapshots := by
  by_cases budget : depth ≤ snapshots
  · exact .inl budget
  refine .inr fun i low high => ?_
  have nonneg : 0 ≤ i * (depth - 1) := mul_nonneg low (by omega)
  have below : i * (depth - 1) < 2 ^ 52 :=
    (mul_le_mul_of_nonneg_right (by omega : i ≤ snapshots - 1) (by omega)).trans_lt small
  have divisor : snapshots - 1 ≤ 2 ^ 52 := by nlinarith
  have exact := nearest_binary64 nonneg (by omega : 0 < snapshots - 1) below divisor
  have size : (0 : ℚ) ≤ quotient depth snapshots i ∧ quotient depth snapshots i ≤ 2 ^ (52 : ℤ) := by
    have one : (1 : ℚ) ≤ (snapshots - 1 : ℤ) := by exact_mod_cast (by omega : 1 ≤ snapshots - 1)
    have dividend : ((i * (depth - 1) : ℤ) : ℚ) ≤ 2 ^ (52 : ℤ) := by exact_mod_cast below.le
    exact ⟨div_nonneg (by exact_mod_cast nonneg) (by linarith), (div_le_self (by exact_mod_cast nonneg) one).trans dividend⟩
  have lower := Rounding.binary64_mono size.1
  have upper := Rounding.binary64_mono size.2
  rw [Rounding.binary64_zero] at lower
  rw [Rounding.binary64_zpow (by decide)] at upper
  refine ⟨Rounding.isFinite_of_le ?_, exact⟩
  rw [abs_of_nonneg lower]
  exact upper.trans (by norm_num)

theorem fill_of_met (met : snapshots ≤ anchors.length) (passes : ℕ) :
    fill snapshots passes anchors = .ok anchors := by
  cases passes with
  | zero => rw [fill, if_neg (not_lt.mpr met)]
  | succ passes => rw [fill, if_neg (not_lt.mpr met)]

theorem split_length (increasing : anchors.Pairwise (· < ·)) (slot : ℤ) :
    sortedSet (slot :: anchors) = anchors ∨ (sortedSet (slot :: anchors)).length = anchors.length + 1 := by
  have distinct : anchors.Nodup := increasing.imp fun less => less.ne
  by_cases listed : slot ∈ anchors
  · left
    rw [sortedSet, List.dedup_cons_of_mem listed]
    exact sortedSet_eq increasing
  · right
    rw [sortedSet, List.length_insertionSort, List.dedup_cons_of_notMem listed, distinct.dedup, List.length_cons]

theorem eq_range (increasing : slots.Pairwise (· < ·)) (inside : ∀ slot ∈ slots, slot ∈ range depth)
    (many : depth ≤ slots.length) : slots = range depth := by
  have distinct : slots.Nodup := increasing.imp fun less => less.ne
  have same : slots.Perm (range depth) :=
    (List.subperm_of_subset distinct inside).perm_of_length_le (by rw [length_range]; omega)
  exact List.Perm.eq_of_pairwise (fun _ _ _ _ less greater => absurd (less.trans greater) (lt_irrefl _)) increasing
    (range_increasing depth) same

theorem fill_increasing {passes : ℕ} (increasing : anchors.Pairwise (· < ·))
    (ran : fill snapshots passes anchors = .ok slots) : slots.Pairwise (· < ·) := by
  induction passes generalizing anchors with
  | zero =>
    rw [fill] at ran
    split at ran
    · cases ran
    · cases ran
      exact increasing
  | succ passes ih =>
    rw [fill] at ran
    split at ran
    · exact ih (sortedSet_increasing _) ran
    · cases ran
      exact increasing

theorem fill_length {passes : ℕ} (increasing : anchors.Pairwise (· < ·)) (few : anchors.length ≤ snapshots)
    (ran : fill snapshots passes anchors = .ok slots) : slots.length ≤ snapshots := by
  induction passes generalizing anchors with
  | zero =>
    rw [fill] at ran
    split at ran
    · cases ran
    · cases ran
      exact few
  | succ passes ih =>
    rw [fill] at ran
    split at ran
    · refine ih (sortedSet_increasing _) ?_ ran
      rcases split_length increasing (midpoint anchors) with stuck | grown
      · rwa [stuck]
      · rw [grown]
        omega
    · cases ran
      exact few

theorem checkDepth_ok {checked : ℤ} (ran : checkDepth policy depth = .ok checked) :
    checked = depth ∧ 1 ≤ depth := by
  rw [checkDepth] at ran
  split at ran
  · cases ran
  · cases ran
    exact ⟨rfl, by omega⟩

theorem storedSlots_increasing (ran : policy.storedSlots depth = .ok slots) :
    slots.Pairwise (· < ·) := by
  obtain ⟨checked, found, placed⟩ := bind_ok.mp ran
  obtain ⟨rfl, -⟩ := checkDepth_ok found
  clear ran
  cases policy with
  | dense =>
    cases placed
    exact range_increasing _
  | interval k positive =>
    cases placed
    exact sortedSet_increasing _
  | revolve snapshots least =>
    dsimp only at placed
    rw [optimalPlacement] at placed
    split at placed
    · cases placed
      exact range_increasing _
    · rw [if_neg (by omega)] at placed
      obtain ⟨positions, -, filled⟩ := bind_ok.mp placed
      exact fill_increasing (sortedSet_increasing _) filled

theorem storedSlots_whole (ran : policy.storedSlots depth = .ok slots) (many : depth ≤ slots.length) :
    slots = range depth := by
  have increasing := storedSlots_increasing ran
  obtain ⟨checked, found, placed⟩ := bind_ok.mp ran
  obtain ⟨rfl, ring⟩ := checkDepth_ok found
  clear ran
  cases policy with
  | dense =>
    cases placed
    rfl
  | interval k positive =>
    cases placed
    refine eq_range increasing (fun slot listed => ?_) many
    rcases List.mem_cons.mp (mem_sortedSet.mp listed) with rfl | filtered
    · exact mem_range.mpr ⟨le_rfl, by omega⟩
    · exact (List.mem_filter.mp filtered).1
  | revolve snapshots least =>
    dsimp only at placed
    rw [optimalPlacement] at placed
    split at placed
    · cases placed
      rfl
    · rw [if_neg (by omega)] at placed
      obtain ⟨positions, computed, filled⟩ := bind_ok.mp placed
      have count : positions.length = snapshots.toNat := by
        rw [← (mapM_ok.mp computed).length_eq, length_range]
      have few : ((sortedSet positions).length : ℤ) ≤ snapshots := by
        rw [sortedSet, List.length_insertionSort]
        have shorter := (List.dedup_sublist positions).length_le
        omega
      have short := fill_length (sortedSet_increasing _) few filled
      omega

/-- A policy whose positions are exact stores as many distinct slots as it may, the newest and the
oldest among them, with the least largest gap. -/
theorem revolve_slots_optimal (least : 2 ≤ snapshots) (ring : 1 ≤ depth) (exact : RoundsExactly depth snapshots) :
    ∃ slots, (Policy.revolve snapshots least).storedSlots depth = .ok slots ∧ Placement depth snapshots slots := by
  have checked : checkDepth (.revolve snapshots least) depth = .ok depth := if_neg (by omega)
  rw [Policy.storedSlots, checked, ok_bind]
  dsimp only
  rw [optimalPlacement]
  by_cases budget : depth ≤ snapshots
  · rw [if_pos budget]
    exact ⟨_, rfl, range_placement ring budget⟩
  · have short := not_le.mp budget
    have placed := positions_placement least short
    have positions : (range snapshots).mapM (position depth snapshots) =
        .ok ((range snapshots).map fun i => Rounding.nearest (quotient depth snapshots i)) := by
      refine mapM_ok.mpr (List.forall₂_map_right_iff.mpr (List.forall₂_same.mpr fun i listed => ?_))
      obtain ⟨low, high⟩ := mem_range.mp listed
      obtain ⟨finite, same⟩ := exact.resolve_left budget i low high
      rw [position, if_pos finite, same]
    have met : snapshots ≤ ((range snapshots).map fun i => Rounding.nearest (quotient depth snapshots i)).length := by
      rw [placed.count, min_eq_left short.le]
    rw [if_neg budget, if_neg (by omega), positions, ok_bind, sortedSet_eq placed.spread.increasing]
    exact ⟨_, fill_of_met met _, placed⟩

/-- A small ring is stored at exact positions. -/
theorem three_slots_of_five : ∃ slots, (Policy.revolve 3 (by decide)).storedSlots 5 = .ok slots ∧ Placement 5 3 slots :=
  revolve_slots_optimal (by decide) (by decide) (roundsExactly_of_small (by decide) (by decide) (by norm_num))

/-- The quotient of the oldest slot is no binary64 number: the next one is stored. -/
theorem oldest_slot_lost :
    (Policy.revolve 2 le_rfl).storedSlots 18014398509481986 = .ok [0, 18014398509481984] ∧
      ¬ Placement 18014398509481986 2 [0, 18014398509481984] := by
  constructor
  · have first : position 18014398509481986 2 0 = .ok 0 := by
      have zero : quotient 18014398509481986 2 0 = 0 := by simp [quotient]
      rw [position, zero, Rounding.binary64_zero, if_pos (Rounding.isFinite_of_le (by norm_num))]
      exact congrArg Except.ok (Rounding.nearest_intCast 0)
    have last : position 18014398509481986 2 1 = .ok 18014398509481984 := by
      have rounded : Rounding.binary64 (quotient 18014398509481986 2 1) = (18014398509481984 : ℤ) := by
        rw [Rounding.binary64_eq (2 ^ 52) 2 (by decide) (by norm_num [quotient]) (by norm_num [quotient])
          (by norm_num [quotient]) (by norm_num [quotient])]
        norm_num
      rw [position, rounded, if_pos (Rounding.isFinite_of_le (by norm_num)), Rounding.nearest_intCast]
    have checked : checkDepth (.revolve 2 le_rfl) 18014398509481986 = .ok 18014398509481986 := if_neg (by decide)
    have indices : range 2 = [0, 1] := by decide
    rw [Policy.storedSlots, checked, ok_bind]
    dsimp only
    rw [optimalPlacement, if_neg (by decide), if_neg (by decide), indices, List.mapM_cons, first, ok_bind,
      List.mapM_cons, last, ok_bind, List.mapM_nil]
    change fill 2 2 (sortedSet [0, 18014398509481984]) = _
    rw [sortedSet_eq (by simp), fill_of_met (by simp)]
  · intro placed
    have oldest := placed.spread.oldest
    revert oldest
    decide

end Pops.HistoryPersistence
