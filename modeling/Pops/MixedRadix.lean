import Mathlib.Algebra.BigOperators.Intervals
import Mathlib.Algebra.BigOperators.Ring.Finset
import Mathlib.Algebra.Order.BigOperators.Group.List
import Mathlib.Tactic.Ring

/-!
Counting through a product of ranges with one flat ordinal. The first listed
axis varies fastest: its digit is the ordinal modulo its radix, and the
quotient is passed to the axes after it. The library is about digits and
sums over them, for any axes, any radices and any commutative sums.
-/
namespace Pops.MixedRadix
open Finset Function

section Digits
variable {ι : Type*} (radix : ι → ℕ)

/-- The number of digit combinations of the listed axes. -/
def volume (axes : List ι) : ℕ := (axes.map radix).prod

/-- The ordinal of a digit combination. -/
def encode : List ι → (ι → ℕ) → ℕ
  | [], _ => 0
  | axis :: axes, digits => digits axis + radix axis * encode axes digits

@[simp] theorem volume_nil : volume radix [] = 1 := rfl

@[simp] theorem volume_cons (axis : ι) (axes : List ι) :
    volume radix (axis :: axes) = radix axis * volume radix axes := by
  simp [volume]

/-- The loop `linear += digit * stride; stride *= radix` over the listed axes. -/
def strided (digits : ι → ℕ) : List ι → ℕ → ℕ → ℕ
  | [], linear, _ => linear
  | axis :: axes, linear, stride =>
    strided digits axes (linear + digits axis * stride) (stride * radix axis)

variable {radix} {axes : List ι} {base digits : ι → ℕ}

/-- Accumulating strides computes the ordinal. -/
theorem strided_eq_encode (linear stride : ℕ) :
    strided radix digits axes linear stride = linear + stride * encode radix axes digits := by
  induction axes generalizing linear stride with
  | nil => simp [strided, encode]
  | cons axis axes ih =>
    rw [strided, ih, encode]
    ring

theorem volume_pos (positive : ∀ axis ∈ axes, 0 < radix axis) : 0 < volume radix axes := by
  induction axes with
  | nil => simp
  | cons axis axes ih =>
    rw [volume_cons]
    exact Nat.mul_pos (positive axis (by simp)) (ih fun a member => positive a (by simp [member]))

/-- A digit combination within its radices has an ordinal below the volume. -/
theorem encode_lt (within : ∀ axis ∈ axes, digits axis < radix axis) :
    encode radix axes digits < volume radix axes := by
  induction axes with
  | nil => simp [encode]
  | cons axis axes ih =>
    have head := within axis (by simp)
    have tail := ih fun a member => within a (by simp [member])
    rw [encode, volume_cons]
    calc digits axis + radix axis * encode radix axes digits
        < radix axis + radix axis * encode radix axes digits := by omega
      _ = radix axis * (encode radix axes digits + 1) := by ring
      _ ≤ radix axis * volume radix axes := Nat.mul_le_mul_left _ tail

variable [DecidableEq ι]

/-- Write the digit of every listed axis into `digits`, and return the
quotient that is left. -/
def decode (radix : ι → ℕ) : List ι → ℕ → (ι → ℕ) → (ι → ℕ) × ℕ
  | [], ordinal, digits => (digits, ordinal)
  | axis :: axes, ordinal, digits =>
    decode radix axes (ordinal / radix axis) (update digits axis (ordinal % radix axis))

/-- An axis that is not listed keeps the digit it had. -/
theorem decode_of_not_mem {axis : ι} (absent : axis ∉ axes) (ordinal : ℕ) (base : ι → ℕ) :
    (decode radix axes ordinal base).1 axis = base axis := by
  induction axes generalizing ordinal base with
  | nil => rfl
  | cons head axes ih =>
    simp only [List.mem_cons, not_or] at absent
    rw [decode, ih absent.2, update_of_ne absent.1]

/-- Every written digit is below its radix. -/
theorem decode_lt (positive : ∀ axis ∈ axes, 0 < radix axis) {axis : ι} (listed : axis ∈ axes)
    (ordinal : ℕ) (base : ι → ℕ) : (decode radix axes ordinal base).1 axis < radix axis := by
  induction axes generalizing ordinal base with
  | nil => simp at listed
  | cons head axes ih =>
    by_cases later : axis ∈ axes
    · exact ih (fun a member => positive a (by simp [member])) later _ _
    · obtain rfl : axis = head := by simpa [later] using listed
      rw [decode, decode_of_not_mem later, update_self]
      exact Nat.mod_lt _ (positive axis (by simp))

/-- The quotient left after all listed axes is the ordinal over their volume. -/
theorem decode_quotient (ordinal : ℕ) (base : ι → ℕ) :
    (decode radix axes ordinal base).2 = ordinal / volume radix axes := by
  induction axes generalizing ordinal base with
  | nil => simp [decode]
  | cons axis axes ih => rw [decode, ih, volume_cons, Nat.div_div_eq_div_mul]

/-- The ordinal of a digit combination decodes to that combination. -/
theorem decode_encode (distinct : axes.Nodup) (within : ∀ axis ∈ axes, digits axis < radix axis)
    (base : ι → ℕ) {axis : ι} (listed : axis ∈ axes) :
    (decode radix axes (encode radix axes digits) base).1 axis = digits axis := by
  induction axes generalizing base with
  | nil => simp at listed
  | cons head axes ih =>
    obtain ⟨fresh, rest⟩ := List.nodup_cons.mp distinct
    have bound := within head (by simp)
    have low : (digits head + radix head * encode radix axes digits) % radix head = digits head := by
      rw [Nat.add_mul_mod_self_left, Nat.mod_eq_of_lt bound]
    have high : (digits head + radix head * encode radix axes digits) / radix head =
        encode radix axes digits := by
      rw [Nat.add_mul_div_left _ _ (by omega), Nat.div_eq_of_lt bound, zero_add]
    rw [decode, encode, low, high]
    by_cases later : axis ∈ axes
    · exact ih rest (fun a member => within a (by simp [member])) _ later
    · obtain rfl : axis = head := by simpa [later] using listed
      rw [decode_of_not_mem later, update_self]

/-- The digits and the quotient of an ordinal determine it. -/
theorem encode_decode (radix : ι → ℕ) (distinct : axes.Nodup) (ordinal : ℕ) (base : ι → ℕ) :
    encode radix axes (decode radix axes ordinal base).1 +
      volume radix axes * (decode radix axes ordinal base).2 = ordinal := by
  induction axes generalizing ordinal base with
  | nil => simp [encode, decode]
  | cons axis axes ih =>
    obtain ⟨fresh, rest⟩ := List.nodup_cons.mp distinct
    have tail := ih rest (ordinal / radix axis) (update base axis (ordinal % radix axis))
    simp only [decode, encode, volume_cons, decode_of_not_mem fresh, update_self]
    rw [Nat.add_assoc, Nat.mul_assoc, ← Nat.mul_add, tail]
    exact Nat.mod_add_div _ _

/-- Two ordinals below the volume with the same listed digits are the same. -/
theorem decode_injective (distinct : axes.Nodup) {first second : ℕ}
    (firstBound : first < volume radix axes) (secondBound : second < volume radix axes)
    (base : ι → ℕ)
    (same : ∀ axis ∈ axes, (decode radix axes first base).1 axis =
      (decode radix axes second base).1 axis) : first = second := by
  have codes : encode radix axes (decode radix axes first base).1 =
      encode radix axes (decode radix axes second base).1 := by
    congr 1
    funext axis
    by_cases listed : axis ∈ axes
    · exact same axis listed
    · rw [decode_of_not_mem listed, decode_of_not_mem listed]
  have left := encode_decode radix distinct first base
  have right := encode_decode radix distinct second base
  rw [decode_quotient, Nat.div_eq_of_lt firstBound] at left
  rw [decode_quotient, Nat.div_eq_of_lt secondBound] at right
  omega

end Digits

section Sums
variable {ι M : Type*} [DecidableEq ι] [AddCommMonoid M] (radix : ι → ℕ)

/-- The sum over every digit of every listed axis, one nested sum per axis. -/
def sumDigits (value : (ι → ℕ) → M) : List ι → (ι → ℕ) → M
  | [], digits => value digits
  | axis :: axes, digits =>
    ∑ digit ∈ range (radix axis), sumDigits value axes (update digits axis digit)

variable {radix}

/-- A sum over ordinals below `radix * count` by remainder, then quotient. -/
theorem sum_range_mul (count step : ℕ) (value : ℕ → ℕ → M) :
    ∑ ordinal ∈ range (step * count), value (ordinal % step) (ordinal / step) =
      ∑ digit ∈ range step, ∑ quotient ∈ range count, value digit quotient := by
  rcases Nat.eq_zero_or_pos step with rfl | positive
  · simp
  induction count with
  | zero => simp
  | succ count ih =>
    rw [Nat.mul_succ, sum_range_add, ih]
    simp only [sum_range_succ, sum_add_distrib]
    congr 1
    refine sum_congr rfl fun digit member => ?_
    have bound : digit < step := mem_range.mp member
    rw [Nat.mul_add_mod, Nat.mod_eq_of_lt bound, Nat.mul_add_div positive,
      Nat.div_eq_of_lt bound, add_zero]

/-- A flat loop over ordinals is the nested loop over digits, with the left
over quotient innermost. -/
theorem sum_decode (radix : ι → ℕ) (axes : List ι) (count : ℕ) (value : (ι → ℕ) → ℕ → M) (base : ι → ℕ) :
    ∑ ordinal ∈ range (volume radix axes * count),
        value (decode radix axes ordinal base).1 (decode radix axes ordinal base).2 =
      sumDigits radix (fun digits => ∑ quotient ∈ range count, value digits quotient) axes base := by
  induction axes generalizing base with
  | nil => simp [decode, sumDigits]
  | cons axis axes ih =>
    simp only [volume_cons, decode, sumDigits, mul_assoc]
    rw [sum_range_mul (volume radix axes * count) (radix axis) (fun digit quotient =>
      value (decode radix axes quotient (update base axis digit)).1
        (decode radix axes quotient (update base axis digit)).2)]
    exact sum_congr rfl fun digit _ => ih _

/-- Only digit combinations within the radices are summed over. -/
theorem sumDigits_congr {value other : (ι → ℕ) → M} {axes : List ι} {base : ι → ℕ}
    (same : ∀ digits, (∀ axis ∈ axes, digits axis < radix axis) →
      (∀ axis ∉ axes, digits axis = base axis) → value digits = other digits) :
    sumDigits radix value axes base = sumDigits radix other axes base := by
  induction axes generalizing base with
  | nil => exact same base (by simp) (by simp)
  | cons head axes ih =>
    refine sum_congr rfl fun digit member => ih fun digits within outside => ?_
    refine same digits (fun axis listed => ?_) fun axis unlisted => ?_
    · by_cases later : axis ∈ axes
      · exact within axis later
      · obtain rfl : axis = head := by simpa [later] using listed
        rw [outside axis later, update_self]
        exact mem_range.mp member
    · simp only [List.mem_cons, not_or] at unlisted
      rw [outside axis unlisted.2, update_of_ne unlisted.1]

theorem sumDigits_append (value : (ι → ℕ) → M) (axes later : List ι) (base : ι → ℕ) :
    sumDigits radix value (axes ++ later) base =
      sumDigits radix (fun digits => sumDigits radix value later digits) axes base := by
  induction axes generalizing base with
  | nil => rfl
  | cons axis axes ih => exact sum_congr rfl fun digit _ => ih _

/-- A finite sum inside the nested sums may be taken outside them. -/
theorem sumDigits_sum {κ : Type*} (items : Finset κ) (value : κ → (ι → ℕ) → M) (axes : List ι)
    (base : ι → ℕ) :
    sumDigits radix (fun digits => ∑ item ∈ items, value item digits) axes base =
      ∑ item ∈ items, sumDigits radix (value item) axes base := by
  induction axes generalizing base with
  | nil => rfl
  | cons axis axes ih =>
    simp only [sumDigits, ih]
    exact sum_comm

/-- A digit written to an unlisted axis may be written before the summation. -/
theorem sumDigits_update (value : (ι → ℕ) → M) {axes : List ι} {axis : ι} (fresh : axis ∉ axes)
    (digit : ℕ) (base : ι → ℕ) :
    sumDigits radix (fun digits => value (update digits axis digit)) axes base =
      sumDigits radix value axes (update base axis digit) := by
  induction axes generalizing base with
  | nil => rfl
  | cons head axes ih =>
    simp only [List.mem_cons, not_or] at fresh
    refine sum_congr rfl fun other _ => ?_
    rw [ih fresh.2, update_comm fresh.1]

/-- Summing over one more axis, listed last, sums over its digits outside. -/
theorem sumDigits_concat (value : (ι → ℕ) → M) {axes : List ι} {axis : ι} (fresh : axis ∉ axes)
    (base : ι → ℕ) :
    sumDigits radix value (axes ++ [axis]) base =
      ∑ digit ∈ range (radix axis), sumDigits radix value axes (update base axis digit) := by
  rw [sumDigits_append]
  simp only [sumDigits]
  rw [sumDigits_sum]
  exact sum_congr rfl fun digit _ => sumDigits_update value fresh digit base

/-- A summand that reads no listed axis is counted once per combination. -/
theorem sumDigits_const (value : M) (axes : List ι) (base : ι → ℕ) :
    sumDigits radix (fun _ => value) axes base = volume radix axes • value := by
  induction axes generalizing base with
  | nil => rw [sumDigits, volume_nil, one_nsmul]
  | cons axis axes ih => simp [sumDigits, ih, mul_nsmul']

/-- A summand that reads one listed axis, and sums to zero over its digits,
sums to zero over all combinations. -/
theorem sumDigits_axis_eq_zero (value : ℕ → M) {axes : List ι} (distinct : axes.Nodup) {axis : ι}
    (listed : axis ∈ axes) (zero : ∑ digit ∈ range (radix axis), value digit = 0) (base : ι → ℕ) :
    sumDigits radix (fun digits => value (digits axis)) axes base = 0 := by
  induction axes generalizing base with
  | nil => simp at listed
  | cons head axes ih =>
    obtain ⟨fresh, rest⟩ := List.nodup_cons.mp distinct
    by_cases later : axis ∈ axes
    · exact sum_eq_zero fun digit _ => ih rest later _
    · obtain rfl : axis = head := by simpa [later] using listed
      have inner (digit : ℕ) : sumDigits radix (fun digits => value (digits axis)) axes
          (update base axis digit) = volume radix axes • value digit := by
        rw [← sumDigits_update _ fresh]
        simp only [update_self]
        exact sumDigits_const _ _ _
      simp only [sumDigits, inner]
      rw [sum_nsmul, zero, nsmul_zero]

end Sums

section Products
variable {ι M : Type*} [DecidableEq ι] [CommSemiring M] {radix : ι → ℕ}

theorem sumDigits_mul_left (factor : M) (value : (ι → ℕ) → M) (axes : List ι) (base : ι → ℕ) :
    sumDigits radix (fun digits => factor * value digits) axes base = factor * sumDigits radix value axes base := by
  induction axes generalizing base with
  | nil => rfl
  | cons axis axes ih => simp only [sumDigits, ih, mul_sum]

/-- A product of one factor for each axis is summed axis by axis. -/
theorem sumDigits_prod (factor : ι → ℕ → M) {axes : List ι} (distinct : axes.Nodup) (base : ι → ℕ) :
    sumDigits radix (fun digits => (axes.map fun axis => factor axis (digits axis)).prod) axes base =
      (axes.map fun axis => ∑ digit ∈ range (radix axis), factor axis digit).prod := by
  induction axes generalizing base with
  | nil => simp [sumDigits]
  | cons head axes ih =>
    obtain ⟨fresh, rest⟩ := List.nodup_cons.mp distinct
    rw [List.map_cons, List.prod_cons, sumDigits, sum_mul]
    refine sum_congr rfl fun digit _ => ?_
    rw [← ih rest (update base head digit), ← sumDigits_mul_left]
    refine sumDigits_congr fun digits _ kept => ?_
    rw [List.map_cons, List.prod_cons, kept head fresh, update_self]

end Products

end Pops.MixedRadix
