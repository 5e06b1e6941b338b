import Mathlib
import Pops.DenseInverse

/-!
What the inverse of a dense block is. Every column of the elimination keeps
`inv * A = M` and clears one more column of `M`, so an elimination that ends has
an inverse; the closed forms divide the adjugate by the determinant. A call that
fails leaves its output alone in the closed forms, and not in the elimination.
-/
namespace Pops.DenseInverse

variable {N : ℕ} {K : Type} [Field K]

theorem swapRows_mul (first second : Fin N) (X A : Matrix (Fin N) (Fin N) K) :
    swapRows first second X * A = swapRows first second (X * A) := rfl

theorem scaleRow_mul (col : Fin N) (factor : K) (X A : Matrix (Fin N) (Fin N) K) :
    scaleRow col factor X * A = scaleRow col factor (X * A) := by
  ext i j
  simp only [scaleRow, Matrix.mul_apply, Matrix.of_apply]
  split
  · rw [Finset.sum_mul]
    exact Finset.sum_congr rfl fun k _ => mul_right_comm (X i k) factor (A k j)
  · rfl

variable [LinearOrder K]

theorem clearRows_mul (col : Fin N) (factors : Fin N → K) (X A : Matrix (Fin N) (Fin N) K) :
    clearRows col factors X * A = clearRows col factors (X * A) := by
  ext i j
  simp only [clearRows, Matrix.mul_apply, Matrix.of_apply]
  split
  · rfl
  · rw [Finset.mul_sum, ← Finset.sum_sub_distrib]
    refine Finset.sum_congr rfl fun k _ => ?_
    ring

theorem Arrays.reduce_product {arrays : Arrays N K} {A : Matrix (Fin N) (Fin N) K}
    (product : arrays.inv * A = arrays.M) (col piv : Fin N) :
    (arrays.reduce col piv).inv * A = (arrays.reduce col piv).M := by
  have exchanged : (arrays.exchange col piv).inv * A = (arrays.exchange col piv).M := by
    unfold Arrays.exchange
    split
    · exact product
    · rw [swapRows_mul, product]
  unfold Arrays.reduce Arrays.clear Arrays.normalize
  simp only [clearRows_mul, scaleRow_mul, exchanged]

theorem pivot_spec (M : Matrix (Fin N) (Fin N) K) (col : Fin N) :
    col ≤ (pivot M col).1 ∧ (pivot M col).2 = |M (pivot M col).1 col| := by
  have general : ∀ (rows : List (Fin N)) (found : Fin N × K), (∀ r ∈ rows, col < r) →
      col ≤ found.1 ∧ found.2 = |M found.1 col| →
      col ≤ (rows.foldl (fun found r => if |M r col| > found.2 then (r, |M r col|) else found) found).1 ∧
        (rows.foldl (fun found r => if |M r col| > found.2 then (r, |M r col|) else found) found).2 =
          |M (rows.foldl (fun found r => if |M r col| > found.2 then (r, |M r col|) else found) found).1 col| := by
    intro rows
    induction rows with
    | nil => exact fun found _ held => held
    | cons r rows ih =>
      intro found below held
      refine ih _ (fun other listed => below other (List.mem_cons_of_mem _ listed)) ?_
      dsimp only
      split
      · exact ⟨(below r List.mem_cons_self).le, rfl⟩
      · exact held
  exact general _ _ (fun r listed => of_decide_eq_true (List.mem_filter.mp listed).2) ⟨le_rfl, rfl⟩

/-- A column that is done: a column of the identity. -/
def Cleared (M : Matrix (Fin N) (Fin N) K) (j : Fin N) : Prop := ∀ i, M i j = if i = j then 1 else 0

variable {arrays : Arrays N K} {col piv : Fin N}

omit [Field K] [LinearOrder K] in
theorem exchange_pivot (arrays : Arrays N K) (col piv : Fin N) :
    (arrays.exchange col piv).M col col = arrays.M piv col := by
  unfold Arrays.exchange
  split
  · rename_i same
    rw [same]
  · show arrays.M (Equiv.swap col piv col) col = _
    rw [Equiv.swap_apply_left]

omit [LinearOrder K] in
theorem Cleared.exchange {j : Fin N} (cleared : Cleared arrays.M j) (notCol : j ≠ col) (notPiv : j ≠ piv) :
    Cleared (arrays.exchange col piv).M j := by
  unfold Arrays.exchange
  split
  · exact cleared
  · intro i
    show arrays.M (Equiv.swap col piv i) j = _
    rw [cleared]
    by_cases same : i = j
    · rw [same, Equiv.swap_apply_of_ne_of_ne notCol notPiv]
    · rw [if_neg same, if_neg]
      intro moved
      rw [Equiv.swap_apply_eq_iff, Equiv.swap_apply_of_ne_of_ne notCol notPiv] at moved
      exact same moved

omit [LinearOrder K] in
theorem Cleared.normalize {j : Fin N} (cleared : Cleared arrays.M j) (notCol : j ≠ col) :
    Cleared (arrays.normalize col).M j := by
  intro i
  show scaleRow col (1 / arrays.M col col) arrays.M i j = _
  simp only [scaleRow, Matrix.of_apply]
  split
  · rename_i same
    rw [cleared, same, if_neg (Ne.symm notCol), zero_mul]
  · exact cleared i

theorem Cleared.clear {j : Fin N} (cleared : Cleared arrays.M j) (notCol : j ≠ col) :
    Cleared (arrays.clear col).M j := by
  intro i
  show clearRows col (fun r => arrays.M r col) arrays.M i j = _
  simp only [clearRows, Matrix.of_apply]
  split
  · exact cleared i
  · rw [cleared col, if_neg (Ne.symm notCol), mul_zero, sub_zero]
    exact cleared i

theorem clear_column (unit : arrays.M col col = 1) : Cleared (arrays.clear col).M col := by
  intro i
  show clearRows col (fun r => arrays.M r col) arrays.M i col = _
  simp only [clearRows, Matrix.of_apply]
  by_cases same : i = col
  · rw [if_pos (.inl same), if_pos same, same, unit]
  · by_cases zero : arrays.M i col = 0
    · rw [if_pos (.inr zero), if_neg same, zero]
    · rw [if_neg (not_or.mpr ⟨same, zero⟩), if_neg same, unit, mul_one, sub_self]

omit [LinearOrder K] in
theorem normalize_unit (nonzero : arrays.M col col ≠ 0) : (arrays.normalize col).M col col = 1 := by
  show scaleRow col (1 / arrays.M col col) arrays.M col col = 1
  simp only [scaleRow, Matrix.of_apply]
  rw [if_pos trivial, mul_one_div_cancel nonzero]

/-- The elimination of the left array alone finds a pivot in every column. -/
def Pivoted (tol : K) : List (Fin N) → Matrix (Fin N) (Fin N) K → Prop
  | [], _ => True
  | col :: rest, M => tol ≤ (pivot M col).2 ∧ Pivoted tol rest (Arrays.reduce ⟨M, M⟩ col (pivot M col).1).M

theorem reduce_M (arrays : Arrays N K) (other : Matrix (Fin N) (Fin N) K) (col piv : Fin N) :
    (arrays.reduce col piv).M = (Arrays.reduce ⟨arrays.M, other⟩ col piv).M := by
  unfold Arrays.reduce Arrays.clear Arrays.normalize Arrays.exchange
  by_cases same : piv = col
  · simp only [if_pos same]
  · simp only [if_neg same]

theorem eliminate_iff (tol : K) (columns : List (Fin N)) (arrays : Arrays N K) :
    (eliminate tol columns arrays).1 = true ↔ Pivoted tol columns arrays.M := by
  induction columns generalizing arrays with
  | nil => exact iff_of_true rfl trivial
  | cons col rest ih =>
    rw [eliminate, Pivoted]
    split
    · rename_i small
      exact iff_of_false Bool.false_ne_true fun found => absurd small (not_lt.mpr found.1)
    · rename_i large
      rw [ih, reduce_M arrays arrays.M]
      exact (and_iff_right (not_lt.mp large)).symm

section Ordered
variable {tol : K} {A : Matrix (Fin N) (Fin N) K}

/-- What holds before the columns that are left. -/
structure Reduced (A : Matrix (Fin N) (Fin N) K) (columns : List (Fin N)) (arrays : Arrays N K) : Prop where
  product : arrays.inv * A = arrays.M
  cleared : ∀ j, j ∉ columns → Cleared arrays.M j

theorem Reduced.step {rest : List (Fin N)} (reduced : Reduced A (col :: rest) arrays)
    (nonzero : arrays.M piv col ≠ 0) (listed : piv ∈ col :: rest) : Reduced A rest (arrays.reduce col piv) := by
  refine ⟨Arrays.reduce_product reduced.product col piv, fun j absent => ?_⟩
  have unit : ((arrays.exchange col piv).normalize col).M col col = 1 := by
    refine normalize_unit ?_
    rwa [exchange_pivot]
  by_cases here : j = col
  · rw [here]
    exact clear_column unit
  · have done : j ∉ col :: rest := fun listed => (List.mem_cons.mp listed).elim here absent
    have notPiv : j ≠ piv := fun same => done (same ▸ listed)
    exact (((reduced.cleared j done).exchange here notPiv).normalize here).clear here

variable [IsStrictOrderedRing K]

theorem eliminate_inverse (positive : 0 < tol) {columns : List (Fin N)} (sorted : columns.Pairwise (· < ·))
    (upward : ∀ i ∈ columns, ∀ j, i ≤ j → j ∈ columns) (reduced : Reduced A columns arrays)
    (ended : (eliminate tol columns arrays).1 = true) : (eliminate tol columns arrays).2.inv * A = 1 := by
  induction columns generalizing arrays with
  | nil =>
    show arrays.inv * A = 1
    rw [reduced.product]
    ext i j
    rw [reduced.cleared j List.not_mem_nil i, Matrix.one_apply]
  | cons col rest ih =>
    rw [eliminate] at ended ⊢
    split at ended
    · cases ended
    · rename_i large
      rw [if_neg large]
      obtain ⟨below, magnitude⟩ := pivot_spec arrays.M col
      obtain ⟨first, later⟩ := List.pairwise_cons.mp sorted
      have nonzero : arrays.M (pivot arrays.M col).1 col ≠ 0 := by
        intro zero
        rw [magnitude, zero, abs_zero] at large
        exact large positive
      refine ih later (fun i listed j above => ?_)
        (reduced.step nonzero (upward col List.mem_cons_self _ below)) ended
      have lower := first i listed
      have found := upward i (List.mem_cons_of_mem _ listed) j above
      rcases List.mem_cons.mp found with rfl | later
      · exact absurd lower (not_lt.mpr above)
      · exact later

theorem matInverse_inverse (positive : 0 < tol) {inv result : Matrix (Fin N) (Fin N) K}
    (ran : matInverse tol A inv = (true, result)) : A * result = 1 ∧ result * A = 1 := by
  unfold matInverse at ran
  obtain ⟨ended, rfl⟩ := Prod.mk.inj ran
  have start : Reduced A (List.finRange N) ⟨A, Matrix.of fun i j => if i = j then 1 else 0⟩ := by
    refine ⟨?_, fun j absent => absurd (List.mem_finRange j) absent⟩
    have identity : (Matrix.of fun i j => if i = j then 1 else 0 : Matrix (Fin N) (Fin N) K) = 1 := by
      ext i j
      rw [Matrix.one_apply, Matrix.of_apply]
    dsimp only
    rw [identity, one_mul]
  have left := eliminate_inverse positive (List.pairwise_lt_finRange N) (fun _ _ j _ => List.mem_finRange j) start ended
  exact ⟨mul_eq_one_comm.mp left, left⟩

theorem ne_zero_of_not_negligible (positive : 0 < tol) {det : K} (large : ¬ Negligible tol det) : det ≠ 0 := by
  rintro rfl
  exact large ⟨positive, neg_lt_zero.mpr positive⟩

omit [IsStrictOrderedRing K] [LinearOrder K] in
theorem mul_adjugate_div {A result : Matrix (Fin N) (Fin N) K} (nonzero : A.det ≠ 0)
    (entries : ∀ i j, result i j = A.adjugate i j / A.det) : A * result = 1 ∧ result * A = 1 := by
  have scaled : result = A.det⁻¹ • A.adjugate := by
    ext i j
    rw [entries, Matrix.smul_apply, smul_eq_mul, div_eq_inv_mul]
  have right : A * result = 1 := by
    rw [scaled, Matrix.mul_smul, Matrix.mul_adjugate, smul_smul, inv_mul_cancel₀ nonzero, one_smul]
  exact ⟨right, mul_eq_one_comm.mp right⟩

@[simp] theorem first_eq : first = 0 := rfl

@[simp] theorem second_eq : second = 1 := rfl

theorem blockInverse2_inverse (positive : 0 < tol) {A inv result : Matrix (Fin 2) (Fin 2) K}
    (ran : blockInverse2 tol A inv = (true, result)) : A * result = 1 ∧ result * A = 1 := by
  unfold blockInverse2 at ran
  dsimp only [first_eq, second_eq] at ran
  split at ran
  · cases ran
  · rename_i large
    have nonzero := ne_zero_of_not_negligible positive large
    obtain ⟨-, rfl⟩ := Prod.mk.inj ran
    rw [← Matrix.det_fin_two] at nonzero
    refine mul_adjugate_div nonzero fun i j => ?_
    rw [Matrix.det_fin_two, Matrix.adjugate_fin_two]
    fin_cases i <;> fin_cases j <;> rfl

omit [IsStrictOrderedRing K] [LinearOrder K] in
theorem determinant_eq (A : Matrix (Fin 3) (Fin 3) K) : determinant A = A.det := by
  rw [Matrix.det_fin_three]
  simp only [determinant, cofactors, Matrix.of_apply, Matrix.cons_val]
  ring

omit [IsStrictOrderedRing K] [LinearOrder K] in
theorem cofactors_eq (A : Matrix (Fin 3) (Fin 3) K) (i j : Fin 3) : cofactors A j i = A.adjugate i j := by
  rw [Matrix.adjugate_fin_three]
  fin_cases i <;> fin_cases j <;> simp [cofactors] <;> ring

theorem blockInverse3_inverse (positive : 0 < tol) {A inv result : Matrix (Fin 3) (Fin 3) K}
    (ran : blockInverse3 tol A inv = (true, result)) : A * result = 1 ∧ result * A = 1 := by
  unfold blockInverse3 at ran
  dsimp only at ran
  split at ran
  · cases ran
  · rename_i large
    have nonzero := ne_zero_of_not_negligible positive large
    obtain ⟨-, rfl⟩ := Prod.mk.inj ran
    rw [determinant_eq] at nonzero
    refine mul_adjugate_div nonzero fun i j => ?_
    rw [Matrix.of_apply, determinant_eq, cofactors_eq]

theorem blockInverse_inverse (positive : 0 < tol) {A inv result : Matrix (Fin N) (Fin N) K}
    (ran : blockInverse tol N A inv = (true, result)) : A * result = 1 ∧ result * A = 1 := by
  unfold blockInverse at ran
  split at ran
  · exact blockInverse2_inverse positive ran
  · exact blockInverse3_inverse positive ran
  · exact matInverse_inverse positive ran

omit [IsStrictOrderedRing K] [LinearOrder K] in
theorem foldl_row (f : Fin N → K) : (List.finRange N).foldl (fun acc c => acc + f c) 0 = ∑ c, f c := by
  rw [Fin.sum_univ_def, List.sum_eq_foldl, List.foldl_map]

theorem apply2_product (positive : 0 < tol) {A : Matrix (Fin 2) (Fin 2) K} {v out result : Fin 2 → K}
    (ran : blockApplyInverse2 tol A v out = (true, result)) : result = A⁻¹.mulVec v := by
  unfold blockApplyInverse2 at ran
  dsimp only [first_eq, second_eq] at ran
  split at ran
  · cases ran
  · rename_i large
    obtain ⟨-, rfl⟩ := Prod.mk.inj ran
    have inverse : blockInverse2 tol A 0 = (true, _) := if_neg large
    rw [Matrix.inv_eq_right_inv (blockInverse2_inverse positive inverse).1]
    funext i
    fin_cases i <;> simp [Matrix.mulVec, dotProduct, Fin.sum_univ_two] <;> ring

theorem apply3_product (positive : 0 < tol) {A : Matrix (Fin 3) (Fin 3) K} {v out result : Fin 3 → K}
    (ran : blockApplyInverse3 tol A v out = (true, result)) : result = A⁻¹.mulVec v := by
  unfold blockApplyInverse3 at ran
  dsimp only at ran
  split at ran
  · cases ran
  · rename_i large
    obtain ⟨-, rfl⟩ := Prod.mk.inj ran
    have inverse : blockInverse3 tol A 0 = (true, _) := if_neg large
    rw [Matrix.inv_eq_right_inv (blockInverse3_inverse positive inverse).1]
    funext i
    simp only [Matrix.mulVec, dotProduct, Fin.sum_univ_three, Matrix.of_apply]
    ring

theorem blockApplyInverse_product (positive : 0 < tol) {v out result : Fin N → K}
    (ran : blockApplyInverse tol N A v out = (true, result)) : result = A⁻¹.mulVec v := by
  unfold blockApplyInverse at ran
  split at ran
  · exact apply2_product positive ran
  · exact apply3_product positive ran
  · dsimp only at ran
    split at ran
    · cases ran
    · rename_i found
      obtain ⟨-, rfl⟩ := Prod.mk.inj ran
      have inverse := blockInverse_inverse positive (Prod.ext (Bool.eq_true_of_not_eq_false found) rfl)
      rw [Matrix.inv_eq_right_inv inverse.1]
      funext r
      exact foldl_row _

omit [IsStrictOrderedRing K] in
theorem blockApplyInverse_kept {v out result : Fin N → K}
    (ran : blockApplyInverse tol N A v out = (false, result)) : result = out := by
  unfold blockApplyInverse at ran
  split at ran
  · unfold blockApplyInverse2 at ran
    dsimp only at ran
    split at ran <;> cases ran
    rfl
  · unfold blockApplyInverse3 at ran
    dsimp only at ran
    split at ran <;> cases ran
    rfl
  · dsimp only at ran
    split at ran <;> cases ran
    rfl

/-- What the inverses of a block promise: every success is the inverse, a
singular block never succeeds, and a failure leaves the output as it was. -/
structure Contract (tol : K) (A : Matrix (Fin N) (Fin N) K) : Prop where
  inverse : ∀ inv result, matInverse tol A inv = (true, result) → A * result = 1 ∧ result * A = 1
  singular : ¬ IsUnit A → ∀ inv, (matInverse tol A inv).1 = false
  blockInverse : ∀ inv result, blockInverse tol N A inv = (true, result) → A * result = 1 ∧ result * A = 1
  applied : ∀ v out result, blockApplyInverse tol N A v out = (true, result) → result = A⁻¹.mulVec v
  blockKept : ∀ inv result, DenseInverse.blockInverse tol N A inv = (false, result) → result = inv
  appliedKept : ∀ v out result, blockApplyInverse tol N A v out = (false, result) → result = out

omit [IsStrictOrderedRing K] in
/-- A block that is eliminated keeps its output exactly when it is not refused:
the identity and the columns done so far are in the output by then. -/
theorem matInverse_kept_iff (tol : K) (A : Matrix (Fin N) (Fin N) K) :
    (∀ inv result, matInverse tol A inv = (false, result) → result = inv) ↔ Pivoted tol (List.finRange N) A := by
  rw [← eliminate_iff tol _ ⟨A, Matrix.of fun i j => if i = j then 1 else 0⟩]
  constructor
  · intro kept
    by_contra refused
    have failed := Bool.eq_false_of_not_eq_true refused
    -- some column was refused, so there is a row
    obtain ⟨row⟩ : Nonempty (Fin N) := by
      cases N with
      | zero => exact absurd rfl refused
      | succ n => exact ⟨Fin.last n⟩
    generalize left : (eliminate tol (List.finRange N) ⟨A, Matrix.of fun i j => if i = j then 1 else 0⟩).2.inv = array
      at *
    have changed := kept (Matrix.of fun i j => array i j + 1) array (Prod.ext failed left)
    have entry := congrFun (congrFun changed row) row
    rw [Matrix.of_apply] at entry
    exact one_ne_zero (left_eq_add.mp entry)
  · intro pivoted inv result ran
    unfold matInverse at ran
    have failed := congrArg Prod.fst ran
    dsimp only at failed
    rw [pivoted] at failed
    cases failed

omit [IsStrictOrderedRing K] in
theorem blockKept_iff (tol : K) (A : Matrix (Fin N) (Fin N) K) :
    (∀ inv result, blockInverse tol N A inv = (false, result) → result = inv) ↔
      N = 2 ∨ N = 3 ∨ Pivoted tol (List.finRange N) A := by
  by_cases two : N = 2
  · subst two
    refine iff_of_true (fun inv result ran => ?_) (.inl rfl)
    change blockInverse2 tol A inv = _ at ran
    unfold blockInverse2 at ran
    dsimp only at ran
    split at ran <;> cases ran
    rfl
  by_cases three : N = 3
  · subst three
    refine iff_of_true (fun inv result ran => ?_) (.inr (.inl rfl))
    change blockInverse3 tol A inv = _ at ran
    unfold blockInverse3 at ran
    dsimp only at ran
    split at ran <;> cases ran
    rfl
  · have generic : ∀ inv, blockInverse tol N A inv = matInverse tol A inv := by
      intro inv
      unfold blockInverse
      split
      · exact absurd rfl two
      · exact absurd rfl three
      · rfl
    simp only [generic, two, three, false_or]
    exact matInverse_kept_iff tol A

/-- The promises are kept exactly by the closed forms and by the blocks that the
elimination does not refuse. -/
theorem contract_iff (positive : 0 < tol) (A : Matrix (Fin N) (Fin N) K) :
    Contract tol A ↔ N = 2 ∨ N = 3 ∨ Pivoted tol (List.finRange N) A := by
  rw [← blockKept_iff]
  refine ⟨Contract.blockKept, fun kept => ⟨fun inv result ran => matInverse_inverse positive ran, ?_,
    fun inv result ran => blockInverse_inverse positive ran,
    fun v out result ran => blockApplyInverse_product positive ran, kept,
    fun v out result ran => blockApplyInverse_kept ran⟩⟩
  intro singular inv
  by_contra found
  have inverse := matInverse_inverse positive (Prod.ext (Bool.eq_true_of_not_eq_false found) rfl :
    matInverse tol A inv = (true, _))
  exact singular (isUnit_iff_exists.mpr ⟨_, inverse⟩)

end Ordered

/-- `Real(1e-300)`. -/
def defaultTol : ℚ := 1 / ((10 : ℕ) : ℚ) ^ 300

theorem defaultTol_pos : 0 < defaultTol := by
  unfold defaultTol
  positivity

/-- A block whose first two columns and last two columns have their pivots a row below. -/
def exchanged : Matrix (Fin 4) (Fin 4) ℚ := !![0, 2, 0, 1; 1, 0, 1, 0; 0, 1, 0, 2; 0, 0, 3, 1]

/-- A block whose rows are exchanged keeps every promise. -/
theorem exchanged_block_contract : Contract defaultTol exchanged := by
  refine (contract_iff defaultTol_pos exchanged).mpr (.inr (.inr ?_))
  exact (eliminate_iff defaultTol _ ⟨exchanged, 1⟩).mp (by decide +kernel)

/-- A zero block of four fails and leaves the identity in its output, over what was there. -/
theorem zero_block_overwrites :
    blockInverse defaultTol 4 0 (Matrix.of fun _ _ => ((7 : ℕ) : ℚ)) = (false, 1) ∧
      ¬ Contract defaultTol (0 : Matrix (Fin 4) (Fin 4) ℚ) := by
  have ran : blockInverse defaultTol 4 0 (Matrix.of fun _ _ => ((7 : ℕ) : ℚ)) = (false, 1) := by decide +kernel
  refine ⟨ran, fun contract => ?_⟩
  have kept := contract.blockKept _ _ ran
  revert kept
  decide +kernel

end Pops.DenseInverse
