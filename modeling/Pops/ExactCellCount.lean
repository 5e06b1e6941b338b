import Pops.Box

/-!
`ExactCellCount` of `mesh/layout/box_array.hpp`: an unsigned count in four
little-endian 32-bit limbs. The bit-level loops are proved to count exactly,
or to throw when four limbs do not suffice.
-/
namespace Pops

namespace Limbs

/-- The number a limb list denotes, least significant limb first. -/
def value : List UInt32 → ℕ
  | [] => 0
  | limb :: limbs => limb.toNat + 4294967296 * value limbs

/-- The loop of `add`: limb-wise sums with a carry. -/
def add : List UInt32 → List UInt32 → ℕ → List UInt32 × ℕ
  | limb :: limbs, other :: others, carry =>
    let sum := limb.toNat + other.toNat + carry
    let rest := add limbs others (sum / 4294967296)
    (UInt32.ofNat sum :: rest.1, rest.2)
  | _, _, carry => ([], carry)

/-- The loop of `add_word_` from its offset on. -/
def addWord : List UInt32 → UInt32 → Checked (List UInt32)
  | [], word => do
    throwIf (word ≠ 0) (.overflowError "ExactCellCount exceeds four limbs")
    return []
  | limb :: limbs, word =>
    if word = 0 then .ok (limb :: limbs)
    else do
      let sum := limb.toNat + word.toNat
      let rest ← addWord limbs (UInt32.ofNat (sum / 4294967296))
      return UInt32.ofNat sum :: rest

/-- `add_word_`. -/
def addWordAt (limbs : List UInt32) (offset : ℕ) (word : UInt32) : Checked (List UInt32) := do
  let upper ← addWord (limbs.drop offset) word
  return limbs.take offset ++ upper

def addProduct (limbs : List UInt32) (offset : ℕ) (left right : UInt32) : Checked (List UInt32) := do
  let product := left.toNat * right.toNat
  let limbs ← addWordAt limbs offset (UInt32.ofNat product)
  addWordAt limbs (offset + 1) (UInt32.ofNat (product / 4294967296))

/-- One guarded product of `multiply_`, `if (word != 0) add_product_(...)`. -/
def addNonzeroProduct (limbs : List UInt32) (offset : ℕ) (limb word : UInt32) :
    Checked (List UInt32) :=
  if word ≠ 0 then addProduct limbs offset limb word else .ok limbs

/-- The loop of `multiply_` over the limbs of the old value. -/
def multiplyFrom (low high : UInt32) : List UInt32 → ℕ → List UInt32 → Checked (List UInt32)
  | [], _, result => .ok result
  | limb :: limbs, offset, result => do
    let result ← addNonzeroProduct result offset limb low
    let result ← addNonzeroProduct result (offset + 1) limb high
    multiplyFrom low high limbs (offset + 1) result

theorem value_lt (limbs : List UInt32) : value limbs < 4294967296 ^ limbs.length := by
  induction limbs with
  | nil => simp [value]
  | cons limb limbs ih =>
    have bound := limb.toNat_lt
    rw [value, List.length_cons, pow_succ]
    omega

theorem value_injective {left right : List UInt32} (lengths : left.length = right.length)
    (values : value left = value right) : left = right := by
  induction left generalizing right with
  | nil => simpa [eq_comm] using lengths
  | cons limb limbs ih =>
    cases right with
    | nil => simp at lengths
    | cons other others =>
      have limbBound := limb.toNat_lt
      have otherBound := other.toNat_lt
      simp only [value] at values
      have head : limb.toNat = other.toNat := by omega
      have tail : value limbs = value others := by omega
      rw [UInt32.toNat_inj.mp head, ih (by simpa using lengths) tail]

theorem value_append (lower upper : List UInt32) :
    value (lower ++ upper) = value lower + 4294967296 ^ lower.length * value upper := by
  induction lower with
  | nil => simp [value]
  | cons limb limbs ih =>
    simp only [List.cons_append, value, List.length_cons, ih]
    ring

theorem value_add {left right : List UInt32} (lengths : left.length = right.length) (carry : ℕ) :
    value (add left right carry).1 + 4294967296 ^ left.length * (add left right carry).2 =
        value left + value right + carry ∧
      (add left right carry).1.length = left.length := by
  induction left generalizing right carry with
  | nil =>
    cases right with
    | nil => simp [add, value]
    | cons other others => simp at lengths
  | cons limb limbs ih =>
    cases right with
    | nil => simp at lengths
    | cons other others =>
      have rest : limbs.length = others.length := by simpa using lengths
      obtain ⟨total, length⟩ := ih rest ((limb.toNat + other.toNat + carry) / 4294967296)
      have split := Nat.mod_add_div (limb.toNat + other.toNat + carry) 4294967296
      refine ⟨?_, by simp [add, length]⟩
      simp only [add, value, List.length_cons, pow_succ, UInt32.toNat_ofNat']
      rw [show ∀ a c : ℕ, a * 4294967296 * c = 4294967296 * (a * c) by intros; ring]
      omega

variable {word : UInt32} {limbs result : List UInt32} {offset : ℕ}

theorem addWord_spec {limbs : List UInt32} (fits : value limbs + word.toNat < 4294967296 ^ limbs.length) :
    ∃ result, addWord limbs word = .ok result ∧ value result = value limbs + word.toNat ∧
      result.length = limbs.length := by
  induction limbs generalizing word with
  | nil =>
    have zero : word.toNat = 0 := by simpa [value] using fits
    refine ⟨[], ?_, by simp [value, zero], rfl⟩
    have none : word = 0 := UInt32.toNat_inj.mp zero
    simp [addWord, none, throwIf]
  | cons limb limbs ih =>
    by_cases none : word = 0
    · subst none
      exact ⟨limb :: limbs, by simp [addWord], by simp, rfl⟩
    · have limbBound := limb.toNat_lt
      have wordBound := word.toNat_lt
      have split := Nat.mod_add_div (limb.toNat + word.toNat) 4294967296
      have carry : (UInt32.ofNat ((limb.toNat + word.toNat) / 4294967296)).toNat =
          (limb.toNat + word.toNat) / 4294967296 := by
        rw [UInt32.toNat_ofNat']
        omega
      rw [value, List.length_cons, pow_succ] at fits
      have room : value limbs + (UInt32.ofNat ((limb.toNat + word.toNat) / 4294967296)).toNat <
          4294967296 ^ limbs.length := by
        rw [carry]
        omega
      obtain ⟨rest, ran, total, length⟩ := ih room
      refine ⟨UInt32.ofNat (limb.toNat + word.toNat) :: rest, by simp [addWord, none, ran], ?_,
        by simp [length]⟩
      simp only [value, total, carry, UInt32.toNat_ofNat']
      omega

theorem addWord_ok (ran : addWord limbs word = .ok result) :
    value result = value limbs + word.toNat ∧ result.length = limbs.length := by
  induction limbs generalizing word result with
  | nil =>
    simp only [addWord, bind_ok, throwIf_ok, unit_exists, pure_ok, not_not] at ran
    obtain ⟨rfl, rfl⟩ := ran
    simp [value]
  | cons limb limbs ih =>
    have limbBound := limb.toNat_lt
    have wordBound := word.toNat_lt
    unfold addWord at ran
    split at ran
    · rename_i none
      cases ran
      simp [none]
    · simp only [bind_ok, pure_ok] at ran
      obtain ⟨rest, added, rfl⟩ := ran
      obtain ⟨total, length⟩ := ih added
      have split := Nat.mod_add_div (limb.toNat + word.toNat) 4294967296
      refine ⟨?_, by simp [length]⟩
      simp only [value, total, UInt32.toNat_ofNat']
      omega

theorem addWordAt_ok (ran : addWordAt limbs offset word = .ok result) :
    value result = value limbs + 4294967296 ^ offset * word.toNat ∧ result.length = limbs.length := by
  simp only [addWordAt, bind_ok, pure_ok] at ran
  obtain ⟨upper, added, rfl⟩ := ran
  obtain ⟨total, length⟩ := addWord_ok added
  have parts := value_append (limbs.take offset) (limbs.drop offset)
  rw [List.take_append_drop] at parts
  refine ⟨?_, by simp [length]; omega⟩
  rw [value_append, total, parts]
  rcases le_or_gt offset limbs.length with inside | outside
  · rw [List.length_take_of_le inside]
    ring
  · -- past the last limb only a zero word is accepted
    rw [List.drop_of_length_le outside.le] at added total
    cases upper with
    | nil =>
      have zero : word.toNat = 0 := by simpa [value] using total.symm
      simp [zero]
    | cons limb limbs => simp [List.drop_of_length_le outside.le] at length

theorem addWordAt_fits {limbs : List UInt32}
    (fits : value limbs + 4294967296 ^ offset * word.toNat < 4294967296 ^ limbs.length) :
    ∃ result, addWordAt limbs offset word = .ok result := by
  have parts := value_append (limbs.take offset) (limbs.drop offset)
  rw [List.take_append_drop] at parts
  have room : value (limbs.drop offset) + word.toNat < 4294967296 ^ (limbs.drop offset).length := by
    rcases le_or_gt offset limbs.length with inside | outside
    · rw [List.length_take_of_le inside] at parts
      rw [List.length_drop]
      have power : 4294967296 ^ limbs.length =
          4294967296 ^ offset * 4294967296 ^ (limbs.length - offset) := by
        rw [← pow_add, Nat.add_sub_cancel' inside]
      refine Nat.lt_of_mul_lt_mul_left (a := 4294967296 ^ offset) ?_
      rw [← power, mul_add]
      omega
    · have zero : word.toNat = 0 := by
        by_contra positive
        have small := Nat.pow_lt_pow_right (show 1 < 4294967296 by norm_num) outside
        have large := Nat.le_mul_of_pos_right (4294967296 ^ offset) (Nat.pos_of_ne_zero positive)
        omega
      simp [List.drop_of_length_le outside.le, value, zero]
  obtain ⟨upper, added, -⟩ := addWord_spec room
  exact ⟨limbs.take offset ++ upper, by simp [addWordAt, added]⟩

private theorem product_parts (left right : UInt32) :
    (UInt32.ofNat (left.toNat * right.toNat)).toNat +
      4294967296 * (UInt32.ofNat (left.toNat * right.toNat / 4294967296)).toNat =
        left.toNat * right.toNat := by
  have small : left.toNat * right.toNat < 4294967296 * 4294967296 :=
    Nat.mul_lt_mul'' left.toNat_lt right.toNat_lt
  rw [UInt32.toNat_ofNat', UInt32.toNat_ofNat']
  omega

theorem addProduct_ok {left right : UInt32} (ran : addProduct limbs offset left right = .ok result) :
    value result = value limbs + 4294967296 ^ offset * (left.toNat * right.toNat) ∧
      result.length = limbs.length := by
  simp only [addProduct, bind_ok] at ran
  obtain ⟨middle, low, high⟩ := ran
  obtain ⟨lowTotal, lowLength⟩ := addWordAt_ok low
  obtain ⟨highTotal, highLength⟩ := addWordAt_ok high
  refine ⟨?_, highLength.trans lowLength⟩
  rw [highTotal, lowTotal, add_assoc, pow_succ, mul_assoc, ← mul_add, product_parts]

theorem addProduct_fits {limbs : List UInt32} {left right : UInt32}
    (fits : value limbs + 4294967296 ^ offset * (left.toNat * right.toNat) < 4294967296 ^ limbs.length) :
    ∃ result, addProduct limbs offset left right = .ok result := by
  rw [← product_parts left right, mul_add, ← add_assoc, ← mul_assoc, ← pow_succ] at fits
  obtain ⟨middle, low⟩ := addWordAt_fits (lt_of_le_of_lt (Nat.le_add_right _ _) fits)
  obtain ⟨total, length⟩ := addWordAt_ok low
  rw [← total, ← length] at fits
  obtain ⟨result, high⟩ := addWordAt_fits fits
  exact ⟨result, by simp only [addProduct, low, ok_bind, high]⟩

theorem addNonzeroProduct_ok {limb word : UInt32} (ran : addNonzeroProduct limbs offset limb word = .ok result) :
    value result = value limbs + 4294967296 ^ offset * (limb.toNat * word.toNat) ∧
      result.length = limbs.length := by
  unfold addNonzeroProduct at ran
  split at ran
  · exact addProduct_ok ran
  · rename_i zero
    cases ran
    simp [not_not.mp zero]

theorem addNonzeroProduct_fits {limbs : List UInt32} {limb word : UInt32}
    (fits : value limbs + 4294967296 ^ offset * (limb.toNat * word.toNat) < 4294967296 ^ limbs.length) :
    ∃ result, addNonzeroProduct limbs offset limb word = .ok result := by
  unfold addNonzeroProduct
  split
  · exact addProduct_fits fits
  · exact ⟨limbs, rfl⟩

theorem multiplyFrom_ok {low high : UInt32} {limbs before result : List UInt32}
    (ran : multiplyFrom low high limbs offset before = .ok result) :
    value result = value before +
        4294967296 ^ offset * (value limbs * (low.toNat + 4294967296 * high.toNat)) ∧
      result.length = before.length := by
  induction limbs generalizing offset before with
  | nil =>
    cases ran
    simp [value]
  | cons limb limbs ih =>
    simp only [multiplyFrom, bind_ok] at ran
    obtain ⟨lowAdded, first, highAdded, second, rest⟩ := ran
    obtain ⟨lowTotal, lowLength⟩ := addNonzeroProduct_ok first
    obtain ⟨highTotal, highLength⟩ := addNonzeroProduct_ok second
    obtain ⟨total, length⟩ := ih rest
    refine ⟨?_, length.trans (highLength.trans lowLength)⟩
    rw [total, highTotal, lowTotal, value]
    ring

theorem multiplyFrom_fits {low high : UInt32} {limbs before : List UInt32}
    (fits : value before + 4294967296 ^ offset * (value limbs * (low.toNat + 4294967296 * high.toNat)) < 4294967296 ^ before.length) :
    ∃ result, multiplyFrom low high limbs offset before = .ok result := by
  induction limbs generalizing offset before with
  | nil => exact ⟨before, rfl⟩
  | cons limb limbs ih =>
    have expanded : value before + 4294967296 ^ offset * (limb.toNat * low.toNat) +
        4294967296 ^ (offset + 1) * (limb.toNat * high.toNat) + 4294967296 ^ (offset + 1) *
          (value limbs * (low.toNat + 4294967296 * high.toNat)) < 4294967296 ^ before.length := by
      refine lt_of_eq_of_lt ?_ fits
      rw [value]
      ring
    have lowRoom : value before + 4294967296 ^ offset * (limb.toNat * low.toNat) <
        4294967296 ^ before.length := by omega
    obtain ⟨lowAdded, first⟩ := addNonzeroProduct_fits lowRoom
    obtain ⟨lowTotal, lowLength⟩ := addNonzeroProduct_ok first
    rw [← lowTotal, ← lowLength] at expanded
    obtain ⟨highAdded, second⟩ := addNonzeroProduct_fits (lt_of_le_of_lt (Nat.le_add_right _ _) expanded)
    obtain ⟨highTotal, highLength⟩ := addNonzeroProduct_ok second
    rw [← highTotal, ← highLength] at expanded
    obtain ⟨result, rest⟩ := ih expanded
    exact ⟨result, by simp only [multiplyFrom, first, second, ok_bind, rest]⟩

end Limbs

/-- Four limbs. -/
structure ExactCellCount where
  limbs : List UInt32
  fourLimbs : limbs.length = 4
  deriving DecidableEq

namespace ExactCellCount

/-- The number counted. -/
def value (count : ExactCellCount) : ℕ := Limbs.value count.limbs

/-- The default constructor. -/
def zero : ExactCellCount := ⟨[0, 0, 0, 0], rfl⟩

def fromUint64 (value : UInt64) : ExactCellCount :=
  ⟨[UInt32.ofNat value.toNat, UInt32.ofNat (value.toNat / 4294967296), 0, 0], rfl⟩

/-- `add`: the sum, and whether it fits. -/
def add (count other : ExactCellCount) : ExactCellCount × Bool :=
  let sum := Limbs.add count.limbs other.limbs 0
  (⟨sum.1, (Limbs.value_add (count.fourLimbs.trans other.fourLimbs.symm) 0).2.trans count.fourLimbs⟩,
    sum.2 == 0)

def multiply (count : ExactCellCount) (factor : UInt64) : Checked ExactCellCount :=
  match ran : Limbs.multiplyFrom (UInt32.ofNat factor.toNat) (UInt32.ofNat (factor.toNat / 4294967296))
      count.limbs 0 [0, 0, 0, 0] with
  | .error exception => .error exception
  | .ok limbs => .ok ⟨limbs, (Limbs.multiplyFrom_ok ran).2⟩

def fromBox {d : ℕ} (box : Box d) : Checked ExactCellCount :=
  if box.Empty then .ok zero
  else (List.finRange d).foldlM
    (fun count axis => count.multiply (UInt64.ofNat (box.length axis).toNat)) (fromUint64 1)

@[simp] theorem value_zero : zero.value = 0 := rfl

theorem value_injective {left right : ExactCellCount} (same : left.value = right.value) :
    left = right := by
  cases left with
  | mk limbs four =>
    cases right with
    | mk others otherFour =>
      congr
      exact Limbs.value_injective (four.trans otherFour.symm) same

theorem value_lt (count : ExactCellCount) : count.value < 4294967296 ^ 4 := by
  have bound := Limbs.value_lt count.limbs
  rwa [count.fourLimbs] at bound

theorem add_iff (count other : ExactCellCount) :
    (count.add other).2 = true ↔ count.value + other.value < 4294967296 ^ 4 := by
  have total := (Limbs.value_add (count.fourLimbs.trans other.fourLimbs.symm) 0).1
  have bound := (count.add other).1.value_lt
  rw [count.fourLimbs, add_zero] at total
  simp only [add, value, beq_iff_eq] at bound ⊢
  constructor
  · intro none
    rw [none] at total
    omega
  · intro fits
    omega

theorem value_add {count other : ExactCellCount} (fits : (count.add other).2 = true) :
    (count.add other).1.value = count.value + other.value := by
  have total := (Limbs.value_add (count.fourLimbs.trans other.fourLimbs.symm) 0).1
  simp only [add, value, beq_iff_eq] at fits ⊢
  rw [fits] at total
  omega

private theorem factor_parts (factor : UInt64) : (UInt32.ofNat factor.toNat).toNat +
    4294967296 * (UInt32.ofNat (factor.toNat / 4294967296)).toNat = factor.toNat := by
  have bound := factor.toNat_lt
  rw [UInt32.toNat_ofNat', UInt32.toNat_ofNat']
  omega

theorem multiply_ok {count product : ExactCellCount} {factor : UInt64}
    (ran : count.multiply factor = .ok product) :
    product.value = count.value * factor.toNat := by
  unfold multiply at ran
  split at ran
  · cases ran
  · rename_i limbs multiplied
    cases ran
    have total := (Limbs.multiplyFrom_ok multiplied).1
    rw [factor_parts] at total
    simpa [Limbs.value, value] using total

theorem multiply_fits {count : ExactCellCount} {factor : UInt64}
    (fits : count.value * factor.toNat < 4294967296 ^ 4) :
    ∃ product, count.multiply factor = .ok product := by
  have room : ∃ limbs, Limbs.multiplyFrom (UInt32.ofNat factor.toNat)
      (UInt32.ofNat (factor.toNat / 4294967296)) count.limbs 0 [0, 0, 0, 0] = .ok limbs := by
    refine Limbs.multiplyFrom_fits ?_
    rw [factor_parts]
    simpa [Limbs.value, value] using fits
  obtain ⟨limbs, multiplied⟩ := room
  unfold multiply
  split
  · rename_i thrown
    rw [multiplied] at thrown
    cases thrown
  · exact ⟨_, rfl⟩

variable {d : ℕ} {box : Box d}

theorem length_lt (fits : box.Fits) (axis : Fin d) : box.length axis ≤ 4294967296 := by
  unfold Box.length
  have low := (fits axis).1.1
  have high := (fits axis).2.2
  unfold intMin at low
  unfold intMax at high
  split <;> omega

theorem toNat_factor (fits : box.Fits) (axis : Fin d) :
    (UInt64.ofNat (box.length axis).toNat).toNat = (box.length axis).toNat := by
  have bound := length_lt fits axis
  rw [UInt64.toNat_ofNat']
  omega

theorem value_fromUint64_one : (fromUint64 1).value = 1 := rfl

private theorem foldl_ok (fits : box.Fits) (axes : List (Fin d)) (before after : ExactCellCount)
    (ran : axes.foldlM (fun count axis => count.multiply (UInt64.ofNat (box.length axis).toNat))
      before = .ok after) :
    after.value = before.value * (axes.map fun axis => (box.length axis).toNat).prod := by
  induction axes generalizing before with
  | nil =>
    cases ran
    simp
  | cons axis axes ih =>
    rw [List.foldlM_cons, bind_ok] at ran
    obtain ⟨middle, first, rest⟩ := ran
    rw [ih middle rest, multiply_ok first, toNat_factor fits, List.map_cons, List.prod_cons, mul_assoc]

private theorem foldl_fits (fits : box.Fits) (nonempty : ¬ box.Empty) (axes : List (Fin d))
    (before : ExactCellCount)
    (room : before.value * (axes.map fun axis => (box.length axis).toNat).prod < 4294967296 ^ 4) :
    ∃ after, axes.foldlM (fun count axis => count.multiply (UInt64.ofNat (box.length axis).toNat))
      before = .ok after := by
  induction axes generalizing before with
  | nil => exact ⟨before, rfl⟩
  | cons axis axes ih =>
    rw [List.map_cons, List.prod_cons, ← mul_assoc] at room
    -- the remaining lengths are positive, so no intermediate product is larger than the whole
    have positive : 0 < (axes.map fun axis => (box.length axis).toNat).prod := by
      apply Nat.pos_of_ne_zero
      rw [Ne, List.prod_eq_zero_iff, List.mem_map]
      rintro ⟨other, -, zero⟩
      have := Box.length_pos nonempty other
      omega
    obtain ⟨middle, first⟩ : ∃ middle,
        before.multiply (UInt64.ofNat (box.length axis).toNat) = .ok middle := by
      apply multiply_fits
      rw [toNat_factor fits]
      exact lt_of_le_of_lt (Nat.le_mul_of_pos_right _ positive) room
    have total := multiply_ok first
    rw [toNat_factor fits] at total
    obtain ⟨after, rest⟩ := ih middle (by rwa [total])
    exact ⟨after, by rw [List.foldlM_cons, first, ok_bind, rest]⟩

theorem card_cells_prod (nonempty : ¬ box.Empty) :
    ((List.finRange d).map fun axis => (box.length axis).toNat).prod = box.cells.card := by
  rw [← List.ofFn_eq_map, List.prod_ofFn]
  zify
  rw [Box.card_cells nonempty]
  refine Finset.prod_congr rfl fun axis _ => ?_
  exact Int.toNat_of_nonneg (Box.length_pos nonempty axis).le

theorem value_fromBox (fits : box.Fits) {count : ExactCellCount} (ran : fromBox box = .ok count) :
    count.value = box.cells.card := by
  unfold fromBox at ran
  split at ran
  · rename_i empty
    cases ran
    rw [Box.empty_iff_cells.mp empty, Finset.card_empty, value_zero]
  · rename_i nonempty
    have total := foldl_ok fits _ _ _ ran
    rw [total, value_fromUint64_one, one_mul, card_cells_prod nonempty]

theorem fromBox_fits (fits : box.Fits) (room : box.cells.card < 4294967296 ^ 4) :
    ∃ count, fromBox box = .ok count := by
  unfold fromBox
  split
  · exact ⟨zero, rfl⟩
  · rename_i nonempty
    refine foldl_fits fits nonempty _ _ ?_
    rwa [value_fromUint64_one, one_mul, card_cells_prod nonempty]

end ExactCellCount

end Pops
