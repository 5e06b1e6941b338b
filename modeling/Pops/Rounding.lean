import Mathlib

/-!
Rounding of rationals to the nearest binary64 number, ties to even. A result is rounded without
a bound on its exponent, and it is finite where it stays below the overflow threshold.
-/
namespace Pops.Rounding

/-- The nearest integer, ties to even. -/
def nearest (x : ℚ) : ℤ :=
  let low := ⌊x⌋
  let rest := x - low
  if rest < 1 / 2 ∨ rest = 1 / 2 ∧ low % 2 = 0 then low else low + 1

/-- The exponent of the spacing of the numbers about `x`. -/
def exponent (x : ℚ) : ℤ := if x = 0 then -1074 else max (Int.log 2 |x|) (-1022) - 52

/-- The spacing of the numbers about `x`. -/
def ulp (x : ℚ) : ℚ := 2 ^ exponent x

def roundSize (size : ℚ) : ℚ := nearest (size / ulp size) * ulp size

/-- The number nearest to `exact`. -/
def binary64 (exact : ℚ) : ℚ := if exact < 0 then -roundSize (-exact) else roundSize exact

def isFinite (x : ℚ) : Bool := |x| < 2 ^ 1024

/-- A finite number. -/
def IsBinary64 (x : ℚ) : Prop := binary64 x = x ∧ isFinite x = true

theorem isFinite_of_le {x : ℚ} (small : |x| ≤ 2 ^ 64) : isFinite x = true := by
  have threshold : (2 : ℚ) ^ 64 < 2 ^ 1024 := pow_lt_pow_right₀ one_lt_two (by norm_num)
  simp only [isFinite, decide_eq_true_eq]
  exact small.trans_lt threshold

theorem floor_le_nearest (x : ℚ) : ⌊x⌋ ≤ nearest x := by
  simp only [nearest]
  split <;> omega

theorem nearest_le_floor (x : ℚ) : nearest x ≤ ⌊x⌋ + 1 := by
  simp only [nearest]
  split <;> omega

theorem nearest_mono : Monotone nearest := by
  intro x y below
  rcases lt_or_eq_of_le (Int.floor_mono below) with apart | same
  · have up := nearest_le_floor x
    have down := floor_le_nearest y
    omega
  · simp only [nearest, same]
    split
    · split <;> omega
    · rename_i high
      split
      · rename_i low
        exfalso
        apply high
        rcases low with small | ⟨half, even⟩
        · exact .inl (by linarith)
        · rcases lt_or_eq_of_le below with less | rfl
          · exact .inl (by linarith)
          · exact .inr ⟨half, even⟩
      · exact le_rfl

/-- A number closer than half to an integer is rounded to it. -/
theorem nearest_eq {x : ℚ} {n : ℤ} (above : (n : ℚ) - 1 / 2 < x) (below : x < n + 1 / 2) : nearest x = n := by
  rcases le_or_gt (n : ℚ) x with up | down
  · have floor : ⌊x⌋ = n := Int.floor_eq_iff.mpr ⟨up, by linarith⟩
    simp only [nearest, floor]
    rw [if_pos (.inl (by linarith))]
  · have floor : ⌊x⌋ = n - 1 := Int.floor_eq_iff.mpr ⟨by push_cast; linarith, by push_cast; linarith⟩
    simp only [nearest, floor]
    rw [if_neg]
    · omega
    · push_cast
      rintro (small | ⟨half, -⟩) <;> linarith

@[simp] theorem nearest_intCast (n : ℤ) : nearest n = n := nearest_eq (by linarith) (by linarith)

theorem nearest_error (x : ℚ) : |(nearest x : ℚ) - x| ≤ 1 / 2 := by
  have low := Int.floor_le x
  have high := Int.lt_floor_add_one x
  simp only [nearest]
  split
  · rename_i down
    rw [abs_le]
    constructor
    · rcases down with small | ⟨half, -⟩ <;> linarith
    · linarith
  · rename_i up
    have beyond : 1 / 2 ≤ x - ⌊x⌋ := not_lt.mp fun small => up (.inl small)
    push_cast
    rw [abs_le]
    constructor <;> linarith

theorem exponent_of_pos {x : ℚ} (positive : 0 < x) : exponent x = max (Int.log 2 x) (-1022) - 52 := by
  rw [exponent, if_neg positive.ne', abs_of_pos positive]

theorem exponent_mono {x y : ℚ} (nonneg : 0 ≤ x) (below : x ≤ y) : exponent x ≤ exponent y := by
  rcases lt_or_eq_of_le nonneg with positive | rfl
  · rw [exponent_of_pos positive, exponent_of_pos (positive.trans_le below)]
    have logs := Int.log_mono_right (b := 2) positive below
    omega
  · rcases lt_or_eq_of_le below with positive | rfl
    · rw [exponent_of_pos positive, exponent, if_pos rfl]
      omega
    · exact le_rfl

theorem lt_binade {x : ℚ} (nonneg : 0 ≤ x) : x < 2 ^ (exponent x + 53) := by
  rcases lt_or_eq_of_le nonneg with positive | rfl
  · have below : x < 2 ^ (Int.log 2 x + 1) := mod_cast Int.lt_zpow_succ_log_self (b := 2) one_lt_two x
    refine below.trans_le (zpow_le_zpow_right₀ one_le_two ?_)
    rw [exponent_of_pos positive]
    omega
  · positivity

/-- Above the least exponent a number is at least its power of two. -/
theorem binade_le {x : ℚ} (positive : 0 < x) (normal : -1074 < exponent x) : 2 ^ (exponent x + 52) ≤ x := by
  have above : (2 : ℚ) ^ Int.log 2 x ≤ x := mod_cast Int.zpow_log_le_self (b := 2) one_lt_two positive
  rw [exponent_of_pos positive] at normal ⊢
  have same : max (Int.log 2 x) (-1022) - 52 + 52 = Int.log 2 x := by omega
  rwa [same]

/-- The exponent of a number between two powers of two. -/
theorem exponent_eq {x : ℚ} {e : ℤ} (least : -1074 ≤ e) (low : 2 ^ (e + 52) ≤ x) (high : x < 2 ^ (e + 53)) :
    exponent x = e := by
  have positive : 0 < x := lt_of_lt_of_le (by positivity) low
  have lower : e + 52 ≤ Int.log 2 x := (Int.zpow_le_iff_le_log one_lt_two positive).mp (mod_cast low)
  have upper : Int.log 2 x < e + 53 := (Int.lt_zpow_iff_log_lt one_lt_two positive).mp (mod_cast high)
  rw [exponent_of_pos positive]
  omega

theorem ulp_pos (x : ℚ) : 0 < ulp x := by
  unfold ulp
  positivity

theorem roundSize_nonneg {x : ℚ} (nonneg : 0 ≤ x) : 0 ≤ roundSize x := by
  have low : nearest 0 ≤ nearest (x / ulp x) := nearest_mono (div_nonneg nonneg (ulp_pos x).le)
  have zero : nearest 0 = 0 := mod_cast nearest_intCast 0
  rw [zero] at low
  have size : (0 : ℚ) ≤ nearest (x / ulp x) := mod_cast low
  exact mul_nonneg size (ulp_pos x).le

theorem roundSize_mono {x y : ℚ} (nonneg : 0 ≤ x) (below : x ≤ y) : roundSize x ≤ roundSize y := by
  rcases lt_or_eq_of_le (exponent_mono nonneg below) with apart | same
  · -- a power of two lies between them, and it is rounded to itself
    have normal : -1074 < exponent y := by
      have least : -1074 ≤ exponent x := by
        unfold exponent
        split <;> omega
      omega
    have positive : 0 < y := by
      refine lt_of_le_of_ne (nonneg.trans below) fun zero => ?_
      rw [← zero, exponent, if_pos rfl] at normal
      omega
    have left : roundSize x ≤ 2 ^ (exponent x + 53) := by
      have scaled : x / ulp x ≤ ((2 ^ 53 : ℤ) : ℚ) := by
        rw [div_le_iff₀ (ulp_pos x), ulp]
        have edge := lt_binade nonneg
        rw [zpow_add₀ two_ne_zero] at edge
        push_cast
        refine edge.le.trans (le_of_eq ?_)
        rw [mul_comm]
        norm_num
      have rounded := nearest_mono scaled
      rw [nearest_intCast] at rounded
      have cast : (nearest (x / ulp x) : ℚ) ≤ 2 ^ 53 := mod_cast rounded
      calc roundSize x ≤ 2 ^ 53 * ulp x := mul_le_mul_of_nonneg_right cast (ulp_pos x).le
        _ = 2 ^ (exponent x + 53) := by rw [ulp, zpow_add₀ two_ne_zero, mul_comm]; norm_num
    have right : 2 ^ (exponent y + 52) ≤ roundSize y := by
      have scaled : ((2 ^ 52 : ℤ) : ℚ) ≤ y / ulp y := by
        rw [le_div_iff₀ (ulp_pos y), ulp]
        have edge := binade_le positive normal
        rw [zpow_add₀ two_ne_zero] at edge
        push_cast
        refine (le_of_eq ?_).trans edge
        rw [mul_comm]
        norm_num
      have rounded := nearest_mono scaled
      rw [nearest_intCast] at rounded
      have cast : (2 ^ 52 : ℚ) ≤ nearest (y / ulp y) := mod_cast rounded
      calc (2 : ℚ) ^ (exponent y + 52) = 2 ^ 52 * ulp y := by rw [ulp, zpow_add₀ two_ne_zero, mul_comm]; norm_num
        _ ≤ roundSize y := mul_le_mul_of_nonneg_right cast (ulp_pos y).le
    calc roundSize x ≤ 2 ^ (exponent x + 53) := left
      _ ≤ 2 ^ (exponent y + 52) := zpow_le_zpow_right₀ one_le_two (by omega)
      _ ≤ roundSize y := right
  · have spacing : ulp x = ulp y := by rw [ulp, ulp, same]
    have scaled : x / ulp y ≤ y / ulp y := div_le_div_of_nonneg_right below (ulp_pos y).le
    have rounded : (nearest (x / ulp y) : ℚ) ≤ nearest (y / ulp y) := mod_cast nearest_mono scaled
    rw [roundSize, roundSize, spacing]
    exact mul_le_mul_of_nonneg_right rounded (ulp_pos y).le

theorem binary64_mono : Monotone binary64 := by
  intro x y below
  unfold binary64
  split
  · rename_i negative
    split
    · exact neg_le_neg (roundSize_mono (by linarith) (neg_le_neg below))
    · have size := roundSize_nonneg (x := -x) (by linarith)
      have other := roundSize_nonneg (x := y) (by linarith)
      linarith
  · rename_i nonneg
    rw [if_neg (by linarith)]
    exact roundSize_mono (not_lt.mp nonneg) below

/-- A number is rounded to `m * 2 ^ e` where that is the closest with its exponent. -/
theorem binary64_eq {x : ℚ} (m e : ℤ) (least : -1074 ≤ e) (low : 2 ^ (e + 52) ≤ x) (high : x < 2 ^ (e + 53))
    (above : (m - 1 / 2) * 2 ^ e < x) (below : x < (m + 1 / 2) * 2 ^ e) : binary64 x = m * 2 ^ e := by
  have positive : (0 : ℚ) < 2 ^ e := by positivity
  have nonneg : 0 ≤ x := le_trans (by positivity) low
  have closest : nearest (x / 2 ^ e) = m :=
    nearest_eq ((lt_div_iff₀ positive).mpr above) ((div_lt_iff₀ positive).mpr below)
  rw [binary64, if_neg (not_lt.mpr nonneg), roundSize, ulp, exponent_eq least low high, closest]

/-- A power of two is a number. -/
theorem binary64_zpow {e : ℤ} (normal : -1022 ≤ e) : binary64 (2 ^ e) = 2 ^ e := by
  have positive : (0 : ℚ) < 2 ^ (e - 52) := by positivity
  have scaled : (2 : ℚ) ^ e = 2 ^ 52 * 2 ^ (e - 52) := by
    rw [zpow_sub₀ two_ne_zero]
    norm_num
    ring
  have rounded := binary64_eq (x := 2 ^ e) (2 ^ 52) (e - 52) (by omega)
    (zpow_le_zpow_right₀ one_le_two (by omega)) (zpow_lt_zpow_right₀ one_lt_two (by omega))
    (by rw [scaled]; exact mul_lt_mul_of_pos_right (by norm_num) positive)
    (by rw [scaled]; exact mul_lt_mul_of_pos_right (by norm_num) positive)
  rw [rounded, scaled]
  norm_num

/-- The relative error of rounding a normal number. -/
theorem binary64_error {x : ℚ} (normal : 2 ^ (-1022 : ℤ) ≤ x) : |binary64 x - x| ≤ x / 2 ^ 53 := by
  have positive : 0 < x := lt_of_lt_of_le (by positivity) normal
  have lower : -1022 ≤ Int.log 2 x := (Int.zpow_le_iff_le_log one_lt_two positive).mp (mod_cast normal)
  have above : (2 : ℚ) ^ Int.log 2 x ≤ x := mod_cast Int.zpow_log_le_self (b := 2) one_lt_two positive
  have spacing : ulp x ≤ x / 2 ^ 52 := by
    rw [ulp, exponent_of_pos positive, max_eq_left lower, zpow_sub₀ two_ne_zero]
    exact div_le_div_of_nonneg_right above (by positivity)
  have scaled : x = x / ulp x * ulp x := (div_mul_cancel₀ x (ulp_pos x).ne').symm
  calc |binary64 x - x| = |(nearest (x / ulp x) - x / ulp x) * ulp x| := by
        rw [binary64, if_neg (not_lt.mpr positive.le), roundSize, sub_mul, ← scaled]
    _ = |(nearest (x / ulp x) : ℚ) - x / ulp x| * ulp x := by rw [abs_mul, abs_of_pos (ulp_pos x)]
    _ ≤ 1 / 2 * (x / 2 ^ 52) := mul_le_mul (nearest_error _) spacing (ulp_pos x).le (by norm_num)
    _ = x / 2 ^ 53 := by ring

@[simp] theorem binary64_zero : binary64 0 = 0 := by
  have zero : nearest 0 = 0 := mod_cast nearest_intCast 0
  simp [binary64, roundSize, zero]

end Pops.Rounding
