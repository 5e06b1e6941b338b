import Pops.MomentFlux
import Pops.PlaneMoments

/-!
The moment hierarchy closes on the moments of the distribution it was closed with, as
long as a closed moment is named by two single digits.
-/
namespace Pops.MomentFlux
open PlaneMoments

section Dictionaries
variable {κ K : Type} [DecidableEq κ]

@[simp] theorem getItem_nil (key : κ) : getItem ([] : Dict κ K) key = none := rfl

@[simp] theorem getItem_cons_self (key : κ) (value : Operand K) (rest : Dict κ K) :
    getItem ((key, value) :: rest) key = some value := by
  simp [getItem]

theorem getItem_cons_of_ne {key first : κ} (different : key ≠ first) (old : Operand K) (rest : Dict κ K) :
    getItem ((first, old) :: rest) key = getItem rest key := by
  rw [getItem, List.lookup_cons, beq_eq_false_iff_ne.mpr different]
  rfl

variable {dict : Dict κ K}

theorem mem_of_getItem {key : κ} {value : Operand K} (found : getItem dict key = some value) :
    (key, value) ∈ dict := by
  obtain ⟨before, after, split, _⟩ := List.lookup_eq_some_iff.mp found
  rw [split]
  simp

theorem getItem_setItem (key other : κ) (value : Operand K) (dict : Dict κ K) :
    getItem (setItem other value dict) key = if key = other then some value else getItem dict key := by
  induction dict with
  | nil =>
    by_cases same : key = other
    · simp [setItem, same]
    · rw [setItem, getItem_cons_of_ne same, if_neg same]
  | cons entry rest ih =>
    obtain ⟨first, old⟩ := entry
    by_cases here : first = other
    · subst here
      rw [setItem, if_pos rfl]
      by_cases same : key = first
      · simp [same]
      · rw [getItem_cons_of_ne same, getItem_cons_of_ne same, if_neg same]
    · rw [setItem, if_neg here]
      by_cases same : key = first
      · subst same
        simp [here]
      · rw [getItem_cons_of_ne same, getItem_cons_of_ne same, ih]

theorem mem_setItem {key : κ} {value : Operand K} {entry : κ × Operand K}
    (listed : entry ∈ setItem key value dict) : entry = (key, value) ∨ entry ∈ dict := by
  induction dict with
  | nil => exact .inl (List.mem_singleton.mp listed)
  | cons head rest ih =>
    obtain ⟨first, old⟩ := head
    by_cases here : first = key
    · subst here
      simp only [setItem, if_true] at listed
      rcases List.mem_cons.mp listed with same | later
      · exact .inl same
      · exact .inr (List.mem_cons_of_mem _ later)
    · simp only [setItem, if_neg here] at listed
      rcases List.mem_cons.mp listed with same | later
      · exact .inr (same ▸ List.mem_cons_self)
      · exact (ih later).imp_right (List.mem_cons_of_mem _)

theorem getItem_foldl_setItem (value : κ → Operand K) (keys : List κ) (dict : Dict κ K) (key : κ) :
    getItem (keys.foldl (fun dict key => setItem key (value key) dict) dict) key =
      if key ∈ keys then some (value key) else getItem dict key := by
  induction keys generalizing dict with
  | nil => simp
  | cons first rest ih =>
    rw [List.foldl_cons, ih, getItem_setItem]
    by_cases later : key ∈ rest
    · simp [later]
    · by_cases here : key = first <;> simp [later, here]

theorem mem_foldl_setItem (value : κ → Operand K) {keys : List κ} {entry : κ × Operand K}
    (listed : entry ∈ keys.foldl (fun dict key => setItem key (value key) dict) dict) :
    (entry.1 ∈ keys ∧ entry.2 = value entry.1) ∨ entry ∈ dict := by
  induction keys generalizing dict with
  | nil => exact .inr listed
  | cons first rest ih =>
    rcases ih listed with ⟨later, set⟩ | earlier
    · exact .inl ⟨List.mem_cons_of_mem _ later, set⟩
    · rcases mem_setItem earlier with rfl | old
      · exact .inl ⟨List.mem_cons_self, rfl⟩
      · exact .inr old

theorem getItem_tabulated (value : κ → Operand K) (keys : List κ) (key : κ) :
    getItem (keys.map fun key => (key, value key)) key = if key ∈ keys then some (value key) else none := by
  induction keys with
  | nil => simp
  | cons first rest ih =>
    rw [List.map_cons]
    by_cases same : key = first
    · simp [same]
    · simp [getItem_cons_of_ne same, same, ih]

end Dictionaries

theorem mem_momentIndices {order p q : ℕ} : (p, q) ∈ momentIndices order ↔ p + q ≤ order := by
  simp only [momentIndices, List.mem_flatMap, List.mem_range, List.mem_map, Prod.mk.injEq]
  constructor
  · rintro ⟨q, _, p, _, rfl, rfl⟩
    omega
  · intro within
    exact ⟨q, by omega, p, by omega, rfl, rfl⟩

theorem mem_centralIndices {order p q : ℕ} :
    (p, q) ∈ centralIndices order ↔ 2 ≤ p + q ∧ p + q ≤ order := by
  simp only [centralIndices, List.mem_flatMap, List.mem_range'_1, List.mem_map, List.mem_range, Prod.mk.injEq]
  constructor
  · rintro ⟨degree, bounds, j, below, rfl, rfl⟩
    omega
  · intro bounds
    exact ⟨p + q, by omega, q, by omega, by omega, rfl⟩

section Values
variable {K : Type} [Field K]

@[simp] theorem value_add (left right : Operand K) : (left + right).value = left.value + right.value := by
  cases left <;> cases right <;> rfl

@[simp] theorem value_sub (left right : Operand K) : (left - right).value = left.value - right.value := by
  cases left <;> cases right <;> rfl

@[simp] theorem value_mul (left right : Operand K) : (left * right).value = left.value * right.value := by
  cases left <;> cases right <;> rfl

@[simp] theorem value_div (left right : Operand K) : (left / right).value = left.value / right.value := by
  cases left <;> cases right <;> rfl

omit [Field K] in
@[simp] theorem value_number (value : K) : (Operand.number value).value = value := rfl

omit [Field K] in
@[simp] theorem value_expr (value : K) : (Operand.expr value).value = value := rfl

@[simp] theorem value_pow (e : Operand K) (k : ℕ) : (pow e k).value = e.value ^ k := by
  induction k using pow.induct with
  | case1 => simp [pow]
  | case2 => simp [pow]
  | case3 k ih => rw [pow, value_mul, ih, ← pow_succ]

private theorem sumTerms_step (terms : List (Operand K)) (first : Operand K) :
    ∃ total, terms.foldl (fun expr term =>
      match expr with
      | none => some term
      | some expr => some (expr + term)) (some first) = some total ∧
      total.value = first.value + (terms.map Operand.value).sum := by
  induction terms generalizing first with
  | nil => exact ⟨first, rfl, by simp⟩
  | cons term rest ih =>
    obtain ⟨total, summed, worth⟩ := ih (first + term)
    exact ⟨total, summed, by rw [worth, value_add, List.map_cons, List.sum_cons, add_assoc]⟩

theorem sumTerms_value {terms : List (Operand K)} (met : terms ≠ []) :
    ∃ total, sumTerms terms = some total ∧ total.value = (terms.map Operand.value).sum := by
  cases terms with
  | nil => exact absurd rfl met
  | cons first rest =>
    obtain ⟨total, summed, worth⟩ := sumTerms_step rest first
    exact ⟨total, summed, by rw [worth, List.map_cons, List.sum_cons]⟩

theorem sum_range (f : ℕ → K) (n : ℕ) : ((List.range n).map f).sum = ∑ i ∈ Finset.range n, f i := rfl

theorem sum_nested (terms : ℕ → List K) (n : ℕ) :
    ((List.range n).flatMap terms).sum = ∑ i ∈ Finset.range n, (terms i).sum := by
  rw [List.flatMap, List.sum_flatten, List.map_map]
  rfl

variable [DecidableEq K]

theorem value_of_isZero {e : Operand K} (zero : isZero e = true) : e.value = 0 := by
  cases e with
  | number value => exact beq_iff_eq.mp zero
  | const value => exact beq_iff_eq.mp zero
  | expr value => simp [isZero] at zero

theorem value_of_isUnit {e : Operand K} (unit : isUnit e = true) : e.value = 1 := by
  cases e with
  | number value => exact beq_iff_eq.mp unit
  | const value => simp [isUnit] at unit
  | expr value => simp [isUnit] at unit

/-- What the closed dictionary contributes at an index, nothing where it is silent. -/
def closedValue (closed : Dict Index K) (index : Index) : K :=
  ((getItem closed index).map Operand.value).getD 0

/-- The raw moment per unit density, as a sum. -/
def rawSum (u v : K) (closed : Dict Index K) (index : Index) : K :=
  ∑ i ∈ Finset.range (index.1 + 1), ∑ j ∈ Finset.range (index.2 + 1),
    ((index.1.choose i * index.2.choose j : ℕ) : K) * u ^ (index.1 - i) * v ^ (index.2 - j) *
      closedValue closed (i, j)

theorem rawTerms_value (u v : Operand K) (closed : Dict Index K) (index : Index) :
    ((rawTerms u v closed index).map Operand.value).sum = rawSum u.value v.value closed index := by
  rw [rawTerms, List.map_flatMap, sum_nested]
  apply Finset.sum_congr rfl
  intro i _
  rw [← sum_range]
  induction List.range (index.2 + 1) with
  | nil => rfl
  | cons j rest ih =>
    rw [List.map_cons, List.sum_cons, ← ih, List.filterMap_cons]
    cases found : getItem closed (i, j) with
    | none => simp [closedValue, found]
    | some central =>
      by_cases zero : isZero central = true
      · simp [closedValue, found, zero, value_of_isZero zero]
      · by_cases unit : isUnit central = true
        · simp [closedValue, found, zero, unit, value_of_isUnit unit]
        · simp [closedValue, found, zero, unit]

theorem rawTerms_ne_nil {u v : Operand K} {closed : Dict Index K} {index : Index}
    (origin : ∃ central, getItem closed (0, 0) = some central ∧ central.value ≠ 0) :
    rawTerms u v closed index ≠ [] := by
  obtain ⟨central, found, present⟩ := origin
  have kept : isZero central ≠ true := fun zero => present (value_of_isZero zero)
  intro empty
  rw [rawTerms, List.flatMap_eq_nil_iff] at empty
  have first := empty 0 (by simp)
  rw [List.filterMap_eq_nil_iff] at first
  simpa [found, kept] using first 0 (by simp)

end Values

/-- The author's primitives are let bindings. -/
def LetBinding {K : Type} (author : Author K) : Prop :=
  ∀ name expression, (author.primitive name expression).value = expression.value

section Builder
variable {K : Type} [Field K] [DecidableEq K] {author : Author K} (binds : LetBinding author)
include binds

omit binds [DecidableEq K] in
theorem centralTerms_value (u v : Operand K) (normalized : Dict Index K) (index : Index)
    (origin : (item normalized (0, 0)).value = 1) :
    ((centralTerms u v normalized index).map Operand.value).sum =
      ∑ i ∈ Finset.range (index.1 + 1), ∑ j ∈ Finset.range (index.2 + 1),
        ((index.1.choose i * index.2.choose j : ℕ) : K) * (-u.value) ^ (index.1 - i) *
          (-v.value) ^ (index.2 - j) * (item normalized (i, j)).value := by
  rw [centralTerms, List.map_flatMap, sum_nested]
  apply Finset.sum_congr rfl
  intro i _
  rw [List.map_map, sum_range]
  apply Finset.sum_congr rfl
  intro j _
  have signs : (-1 : K) ^ (index.1 - i + (index.2 - j)) * u.value ^ (index.1 - i) * v.value ^ (index.2 - j) =
      (-u.value) ^ (index.1 - i) * (-v.value) ^ (index.2 - j) := by
    rw [pow_add, neg_pow u.value, neg_pow v.value]
    ring
  by_cases first : (i, j) = (0, 0)
  · obtain ⟨rfl, rfl⟩ := Prod.mk.inj first
    simp only [Function.comp, if_true, value_mul, value_number, value_pow, origin, mul_one]
    rw [mul_assoc, mul_assoc, ← mul_assoc ((-1 : K) ^ _), signs, mul_assoc]
  · simp only [Function.comp, if_neg first, value_mul, value_number, value_pow]
    rw [mul_assoc (_ : K) ((-u.value) ^ _), ← signs]
    ring

theorem closeMoment_ok (sx sy : Operand K) (closed : Dict Index K) {entry : String × Operand K} {p q : ℕ}
    (first : digitAt entry.1 1 = .ok p) (second : digitAt entry.1 2 = .ok q) :
    ∃ value, closeMoment author sx sy closed entry = .ok (setItem (p, q) value closed) ∧
      value.value = entry.2.value * sx.value ^ p * sy.value ^ q := by
  by_cases zero : isZero entry.2 = true
  · refine ⟨.number 0, by simp [closeMoment, first, second, zero, pure, Except.pure], ?_⟩
    simp [value_of_isZero zero]
  · refine ⟨author.primitive (indexed "C" (p, q)) (entry.2 * pow sx p * pow sy q),
      by simp [closeMoment, first, second, zero, pure, Except.pure], ?_⟩
    simp [binds _ _]

omit binds in
theorem highestMoment_ok {m00 u v : Operand K} {closed highest next : Dict Index K} {index : Index}
    (ran : highestMoment author m00 u v closed highest index = .ok next) :
    ∃ expr, sumTerms (rawTerms u v closed index) = some expr ∧
      next = setItem index (author.primitive (indexed "M" index) (m00 * expr)) highest := by
  unfold highestMoment at ran
  cases summed : sumTerms (rawTerms u v closed index) with
  | none => rw [summed] at ran; cases ran
  | some expr => rw [summed] at ran; cases ran; exact ⟨expr, rfl, rfl⟩

theorem highest_ok {m00 u v : Operand K} {closed highest : Dict Index K} {indices : List Index}
    (ran : indices.foldlM (highestMoment author m00 u v closed) [] = .ok highest) {index : Index}
    (listed : index ∈ indices) :
    (item highest index).value = m00.value * rawSum u.value v.value closed index := by
  have kept := foldlM_ok_invariant
    (fun done (highest : Dict Index K) => ∀ index ∈ done,
      (item highest index).value = m00.value * rawSum u.value v.value closed index)
    (by
      intro done current highest next sofar ran index listed
      obtain ⟨expr, summed, rfl⟩ := highestMoment_ok ran
      by_cases same : index = current
      · subst same
        have met : rawTerms u v closed index ≠ [] := by
          intro empty
          rw [empty] at summed
          cases summed
        obtain ⟨total, again, worth⟩ := sumTerms_value met
        rw [summed, Option.some.injEq] at again
        rw [item, getItem_setItem, if_pos rfl, Option.getD_some, binds, value_mul, again, worth, rawTerms_value]
      · rw [item, getItem_setItem, if_neg same]
        apply sofar index
        simpa [same] using listed)
    indices [] highest [] (by simp) ran
  exact kept index (by simpa using listed)

omit binds in
theorem exists_highest {m00 u v : Operand K} {closed : Dict Index K}
    (origin : ∃ central, getItem closed (0, 0) = some central ∧ central.value ≠ 0) (indices : List Index) :
    ∃ highest, indices.foldlM (highestMoment author m00 u v closed) [] = .ok highest := by
  apply exists_foldlM_ok
  intro highest index _
  have met : rawTerms u v closed index ≠ [] := rawTerms_ne_nil origin
  obtain ⟨total, summed, _⟩ := sumTerms_value met
  exact ⟨_, by rw [highestMoment, summed]⟩

end Builder

theorem digits_read : ∀ p < 10, ∀ q < 10,
    digitAt (indexed "S" (p, q)) 1 = .ok p ∧ digitAt (indexed "S" (p, q)) 2 = .ok q := by
  decide +kernel

theorem digitAt_lt {key : String} {position digit : ℕ} (read : digitAt key position = .ok digit) : digit < 10 := by
  unfold digitAt at read
  cases found : key.toList[position]? with
  | none => rw [found] at read; cases read
  | some character =>
    simp only [found] at read
    split at read
    · rename_i isDigit
      cases read
      simp only [Char.isDigit, Bool.and_eq_true, decide_eq_true_eq] at isDigit
      have upper : character.toNat ≤ 57 := isDigit.2
      have zero : '0'.toNat = 48 := rfl
      omega
    · cases read

theorem indexed_injective {p q i j : ℕ} (small : p < 10 ∧ q < 10) (other : i < 10 ∧ j < 10)
    (same : indexed "S" (p, q) = indexed "S" (i, j)) : p = i ∧ q = j := by
  obtain ⟨first, second⟩ := digits_read p small.1 q small.2
  obtain ⟨third, fourth⟩ := digits_read i other.1 j other.2
  rw [same] at first second
  exact ⟨Except.ok.inj (first.symm.trans third), Except.ok.inj (second.symm.trans fourth)⟩

section Closing
open MeasureTheory

/-- The transported moments of a distribution, as the state variables of the model. -/
noncomputable def stateOf (μ : Measure (ℝ × ℝ)) (order : ℕ) : List (Operand ℝ) :=
  (momentIndices order).map fun index => .expr (rawMoment μ index.1 index.2)

/-- A dictionary that carries the standardized moments of a distribution. -/
def Carries (μ : Measure (ℝ × ℝ)) (order : ℕ) (given : Dict String ℝ) : Prop :=
  ∀ p q, 2 ≤ p + q → p + q ≤ order →
    ∃ e, getItem given (indexed "S" (p, q)) = some e ∧ e.value = standardizedMoment μ p q

/-- A closure that returns the next standardized moments of the distribution. -/
structure Closes (μ : Measure (ℝ × ℝ)) (order : ℕ) (closure : Closure ℝ) : Prop where
  declared : closure.order = none ∨ closure.order = some order
  keys : ∀ given, Carries μ order given →
    sameKeys ((closure.evaluate given).map Prod.fst) (closureKeys order) = true
  moments : ∀ given, Carries μ order given → ∀ p q, p + q = order + 1 →
    ∃ e, getItem (closure.evaluate given) (indexed "S" (p, q)) = some e ∧ e.value = standardizedMoment μ p q

/-- The generated fluxes are the next raw moments, for every distribution whose closure is exact. -/
def ReproducesMoments (order : ℕ) : Prop :=
  ∀ author : Author ℝ, LetBinding author → ∀ μ : Measure (ℝ × ℝ), HasMoments μ (order + 1) →
    rawMoment μ 0 0 ≠ 0 → 0 < centralMoment μ 2 0 → 0 < centralMoment μ 0 2 →
    ∀ closure, Closes μ order closure → ∀ epsM00 epsCov, ∃ flux,
      momentFluxExpressions author Real.sqrt abs (stateOf μ order) order closure false epsM00 epsCov = .ok flux ∧
      flux.x.map Operand.value = (momentIndices order).map (fun index => rawMoment μ (index.1 + 1) index.2) ∧
      flux.y.map Operand.value = (momentIndices order).map (fun index => rawMoment μ index.1 (index.2 + 1))

/-- The state of the builder, in terms of the distribution. -/
structure Standardized (μ : Measure (ℝ × ℝ)) (order : ℕ) (s : Standardization ℝ) : Prop where
  moments : ∀ p q, getItem s.moments (p, q) = if p + q ≤ order then some (.expr (rawMoment μ p q)) else none
  m00 : s.m00.value = rawMoment μ 0 0
  u : s.u.value = meanX μ
  v : s.v.value = meanY μ
  sx : s.sx.value = Real.sqrt (centralMoment μ 2 0)
  sy : s.sy.value = Real.sqrt (centralMoment μ 0 2)
  central : ∀ p q, p + q ≤ order → ∃ e, getItem s.central (p, q) = some e ∧ e.value = centralMoment μ p q
  absent : ∀ p q, 2 ≤ order → order < p + q → getItem s.central (p, q) = none
  entries : ∀ p q e, ((p, q), e) ∈ s.central → 2 ≤ p + q → p + q ≤ order ∧ e.value = centralMoment μ p q

variable {μ : Measure (ℝ × ℝ)} {order : ℕ} {author : Author ℝ} (binds : LetBinding author)

include binds in
private theorem central_value (has : HasMoments μ order) {u v : Operand ℝ} {normalized : Dict Index ℝ}
    (dense : rawMoment μ 0 0 ≠ 0) (mean_u : u.value = meanX μ) (mean_v : v.value = meanY μ)
    (unit : ∀ i j, i + j ≤ order → (item normalized (i, j)).value = rawMoment μ i j / rawMoment μ 0 0)
    {p q : ℕ} (within : p + q ≤ order) :
    (author.primitive (indexed "C" (p, q))
      ((sumTerms (centralTerms u v normalized (p, q))).getD (.number 0))).value = centralMoment μ p q := by
  have met : centralTerms u v normalized (p, q) ≠ [] := by
    intro empty
    rw [centralTerms, List.flatMap_eq_nil_iff] at empty
    simpa using empty 0 (by simp)
  obtain ⟨total, summed, worth⟩ := sumTerms_value met
  have origin : (item normalized (0, 0)).value = 1 := by rw [unit 0 0 (by omega), div_self dense]
  rw [binds, summed, Option.getD_some, worth, centralTerms_value _ _ _ _ origin, centralMoment_eq has within]
  apply Finset.sum_congr rfl
  intro i below
  apply Finset.sum_congr rfl
  intro j left
  rw [Finset.mem_range] at below left
  rw [mean_u, mean_v, unit i j (by simp only [] at below left; omega)]

include binds in
theorem standardize_standardized (two : 2 ≤ order) (has : HasMoments μ order) (dense : rawMoment μ 0 0 ≠ 0)
    (epsM00 epsCov : ℝ) :
    Standardized μ order (standardize author Real.sqrt abs (stateOf μ order) order false epsM00 epsCov) := by
  have listed : (momentIndices order).zip (stateOf μ order) =
      (momentIndices order).map fun index => (index, .expr (rawMoment μ index.1 index.2)) :=
    List.map_prod_left_eq_zip.symm
  have moments : ∀ p q, getItem ((momentIndices order).zip (stateOf μ order)) (p, q) =
      if p + q ≤ order then some (.expr (rawMoment μ p q)) else none := by
    intro p q
    rw [listed, getItem_tabulated (fun index : Index => Operand.expr (rawMoment μ index.1 index.2))]
    simp only [mem_momentIndices]
  have read : ∀ p q, p + q ≤ order →
      item ((momentIndices order).zip (stateOf μ order)) (p, q) = .expr (rawMoment μ p q) := by
    intro p q within
    rw [item, moments, if_pos within, Option.getD_some]
  have first := centralMoment_first has (by omega) dense
  set m := (momentIndices order).zip (stateOf μ order) with m_def
  set normalized := m.map fun entry : Index × Operand ℝ =>
    (entry.1, if entry.1 = (0, 0) then Operand.number 1 else entry.2 / item m (0, 0)) with normalized_def
  set u := author.primitive "u" (item m (1, 0) / item m (0, 0)) with u_def
  set v := author.primitive "v" (item m (0, 1) / item m (0, 0)) with v_def
  have mean_u : u.value = meanX μ := by
    rw [u_def, binds, value_div, read 1 0 (by omega), read 0 0 (by omega)]
    rfl
  have mean_v : v.value = meanY μ := by
    rw [v_def, binds, value_div, read 0 1 (by omega), read 0 0 (by omega)]
    rfl
  have unit : ∀ i j, i + j ≤ order → (item normalized (i, j)).value = rawMoment μ i j / rawMoment μ 0 0 := by
    intro i j within
    have tabulated : normalized = (momentIndices order).map fun index : Index =>
        (index, if index = (0, 0) then Operand.number 1
          else Operand.expr (rawMoment μ index.1 index.2) / item m (0, 0)) :=
      normalized_def.trans ((congrArg (List.map _) listed).trans List.map_map)
    rw [item, tabulated, getItem_tabulated (fun index : Index => if index = (0, 0) then Operand.number 1
      else Operand.expr (rawMoment μ index.1 index.2) / item m (0, 0)), if_pos (mem_momentIndices.mpr within)]
    by_cases origin : (i, j) = ((0, 0) : Index)
    · obtain ⟨rfl, rfl⟩ := Prod.mk.inj origin
      rw [if_pos rfl, Option.getD_some, value_number, div_self dense]
    · rw [if_neg origin, Option.getD_some, value_div, value_expr, read 0 0 (by omega), value_expr]
  have worth : ∀ p q, p + q ≤ order → _ := fun p q within =>
    central_value binds has dense mean_u mean_v unit (p := p) (q := q) within
  have central : ∀ p q, p + q ≤ order → ∃ e,
      getItem (centralMoments author order u v normalized) (p, q) = some e ∧ e.value = centralMoment μ p q := by
    intro p q within
    rw [centralMoments, getItem_foldl_setItem (fun index => author.primitive (indexed "C" index)
      ((sumTerms (centralTerms u v normalized index)).getD (.number 0)))]
    by_cases computed : 2 ≤ p + q
    · rw [if_pos (mem_centralIndices.mpr ⟨computed, within⟩)]
      exact ⟨_, rfl, worth p q within⟩
    · rw [if_neg (fun listed => computed (mem_centralIndices.mp listed).1)]
      have low : (p = 0 ∧ q = 0) ∨ (p = 1 ∧ q = 0) ∨ (p = 0 ∧ q = 1) := by omega
      rcases low with ⟨rfl, rfl⟩ | ⟨rfl, rfl⟩ | ⟨rfl, rfl⟩
      · exact ⟨_, rfl, (centralMoment_zero dense).symm⟩
      · exact ⟨_, rfl, first.1.symm⟩
      · exact ⟨_, rfl, first.2.symm⟩
  have deviation : ∀ p q, p + q ≤ order → (item (centralMoments author order u v normalized) (p, q)).value =
      centralMoment μ p q := by
    intro p q within
    obtain ⟨e, found, known⟩ := central p q within
    rw [item, found, Option.getD_some, known]
  refine ⟨moments, ?_, mean_u, mean_v, ?_, ?_, central, ?_, ?_⟩
  · change (item m (0, 0)).value = _
    rw [read 0 0 (by omega), value_expr]
  · change (author.primitive "sx" (.expr (Real.sqrt
      (item (centralMoments author order u v normalized) (2, 0)).value))).value = _
    rw [binds, value_expr, deviation 2 0 two]
  · change (author.primitive "sy" (.expr (Real.sqrt
      (item (centralMoments author order u v normalized) (0, 2)).value))).value = _
    rw [binds, value_expr, deviation 0 2 two]
  · intro p q _ beyond
    change getItem (centralMoments author order u v normalized) (p, q) = none
    rw [centralMoments, getItem_foldl_setItem (fun index => author.primitive (indexed "C" index)
      ((sumTerms (centralTerms u v normalized index)).getD (.number 0)))]
    rw [if_neg (fun listed => absurd (mem_centralIndices.mp listed).2 (by omega))]
    rw [getItem_cons_of_ne (by simp; omega), getItem_cons_of_ne (by simp; omega), getItem_cons_of_ne (by simp; omega)]
    rfl
  · intro p q e listed computed
    rcases mem_foldl_setItem (fun index => author.primitive (indexed "C" index)
      ((sumTerms (centralTerms u v normalized index)).getD (.number 0))) listed with ⟨known, same⟩ | base
    · have within := (mem_centralIndices.mp known).2
      refine ⟨within, ?_⟩
      simp only [] at same
      rw [same]
      exact worth p q within
    · simp only [List.mem_cons, Prod.mk.injEq, List.not_mem_nil, or_false] at base
      omega

variable {s : Standardization ℝ}

/-- What a dictionary holds is right. -/
def CarriesOnly (μ : Measure (ℝ × ℝ)) (order : ℕ) (given : Dict String ℝ) : Prop :=
  ∀ p q, 2 ≤ p + q → p + q ≤ order → ∀ e, getItem given (indexed "S" (p, q)) = some e →
    e.value = standardizedMoment μ p q

theorem isSome_setItem {κ K : Type} [DecidableEq κ] {dict : Dict κ K} {key : κ} (other : κ) (value : Operand K)
    (present : (getItem dict key).isSome) : (getItem (setItem other value dict) key).isSome := by
  rw [getItem_setItem]
  by_cases same : key = other
  · simp [same]
  · simpa [same] using present

include binds in
private theorem carried (small : order ≤ 8) (known : Standardized μ order s)
    (entries : Dict Index ℝ) (given : Dict String ℝ)
    (each : ∀ p q e, ((p, q), e) ∈ entries → 2 ≤ p + q → p + q ≤ order ∧ e.value = centralMoment μ p q)
    (sound : CarriesOnly μ order given) (scale_x : (getItem given (indexed "S" (2, 0))).isSome)
    (scale_y : (getItem given (indexed "S" (0, 2))).isSome) :
    CarriesOnly μ order (entries.foldl (standardizeMoment author s.sx s.sy) given) ∧
      ∀ p q, 2 ≤ p + q → p + q ≤ order →
        ((∃ e, ((p, q), e) ∈ entries) ∨ (getItem given (indexed "S" (p, q))).isSome) →
        (getItem (entries.foldl (standardizeMoment author s.sx s.sy) given) (indexed "S" (p, q))).isSome := by
  induction entries generalizing given with
  | nil =>
    refine ⟨sound, fun p q _ _ present => ?_⟩
    rcases present with ⟨e, listed⟩ | present
    · cases listed
    · exact present
  | cons entry rest ih =>
    obtain ⟨⟨i, j⟩, e⟩ := entry
    have later : ∀ p q e, ((p, q), e) ∈ rest → 2 ≤ p + q → p + q ≤ order ∧ e.value = centralMoment μ p q :=
      fun p q e listed => each p q e (List.mem_cons_of_mem _ listed)
    rw [List.foldl_cons, standardizeMoment]
    by_cases set : 2 ≤ i + j ∧ (i, j) ≠ ((2, 0) : Index) ∧ (i, j) ≠ ((0, 2) : Index)
    · rw [if_pos set]
      obtain ⟨within, worth⟩ := each i j e List.mem_cons_self set.1
      have next := ih (setItem (indexed "S" (i, j)) (author.primitive (indexed "S" (i, j))
        (e / (pow s.sx i * pow s.sy j))) given) later ?_ (isSome_setItem _ _ scale_x) (isSome_setItem _ _ scale_y)
      · refine ⟨next.1, fun p q two fits present => next.2 p q two fits ?_⟩
        rcases present with ⟨other, listed⟩ | present
        · rcases List.mem_cons.mp listed with same | listed
          · simp only [Prod.mk.injEq] at same
            obtain ⟨⟨rfl, rfl⟩, _⟩ := same
            right
            simp [getItem_setItem]
          · exact .inl ⟨other, listed⟩
        · exact .inr (isSome_setItem _ _ present)
      · intro p q two fits other found
        rw [getItem_setItem] at found
        by_cases same : indexed "S" (p, q) = indexed "S" (i, j)
        · obtain ⟨rfl, rfl⟩ := indexed_injective (by omega) (by omega) same
          rw [if_pos rfl, Option.some.injEq] at found
          rw [← found, binds, value_div, value_mul, value_pow, value_pow, worth, known.sx, known.sy]
          rfl
        · rw [if_neg same] at found
          exact sound p q two fits other found
    · rw [if_neg set]
      have next := ih given later sound scale_x scale_y
      refine ⟨next.1, fun p q two fits present => next.2 p q two fits ?_⟩
      rcases present with ⟨other, listed⟩ | present
      · rcases List.mem_cons.mp listed with same | listed
        · -- the two scales are in the dictionary from the start
          simp only [Prod.mk.injEq] at same
          obtain ⟨⟨rfl, rfl⟩, _⟩ := same
          right
          by_cases first : (p, q) = ((2, 0) : Index)
          · rw [first]
            exact scale_x
          · by_cases second : (p, q) = ((0, 2) : Index)
            · rw [second]
              exact scale_y
            · exact absurd ⟨two, first, second⟩ set
        · exact .inl ⟨other, listed⟩
      · exact .inr present

theorem standardizedMoment_scale (wide_x : 0 < centralMoment μ 2 0) (wide_y : 0 < centralMoment μ 0 2) :
    standardizedMoment μ 2 0 = 1 ∧ standardizedMoment μ 0 2 = 1 := by
  constructor
  · rw [standardizedMoment, Real.sq_sqrt wide_x.le, pow_zero, mul_one, div_self wide_x.ne']
  · rw [standardizedMoment, Real.sq_sqrt wide_y.le, pow_zero, one_mul, div_self wide_y.ne']

include binds in
theorem standardizedMoments_carries (small : order ≤ 8) (known : Standardized μ order s)
    (wide_x : 0 < centralMoment μ 2 0) (wide_y : 0 < centralMoment μ 0 2) :
    Carries μ order (standardizedMoments author s.sx s.sy s.central) := by
  have scale := standardizedMoment_scale wide_x wide_y
  have start : CarriesOnly μ order [("S20", .number 1), ("S02", .number 1)] := by
    intro p q two fits e found
    have x_key : indexed "S" (2, 0) = "S20" := by decide
    have y_key : indexed "S" (0, 2) = "S02" := by decide
    by_cases x_scale : indexed "S" (p, q) = "S20"
    · obtain ⟨rfl, rfl⟩ := indexed_injective (by omega) (by omega) (x_scale.trans x_key.symm)
      rw [x_scale, getItem_cons_self, Option.some.injEq] at found
      rw [← found, scale.1]
      rfl
    · rw [getItem_cons_of_ne x_scale] at found
      by_cases y_scale : indexed "S" (p, q) = "S02"
      · obtain ⟨rfl, rfl⟩ := indexed_injective (by omega) (by omega) (y_scale.trans y_key.symm)
        rw [y_scale, getItem_cons_self, Option.some.injEq] at found
        rw [← found, scale.2]
        rfl
      · rw [getItem_cons_of_ne y_scale] at found
        cases found
  have given := carried binds small known s.central [("S20", .number 1), ("S02", .number 1)] known.entries start
    (by decide) (by decide)
  intro p q two fits
  obtain ⟨e, found, _⟩ := known.central p q fits
  have listed : ((p, q), e) ∈ s.central := mem_of_getItem found
  obtain ⟨value, present⟩ := Option.isSome_iff_exists.mp (given.2 p q two fits (.inl ⟨e, listed⟩))
  exact ⟨value, present, given.1 p q two fits value present⟩

theorem applyLocalClosure_ok {closure : Closure ℝ} {given : Dict String ℝ} (closes : Closes μ order closure)
    (carries : Carries μ order given) :
    ∃ top, applyLocalClosure closure order given = .ok top ∧
      (∀ entry ∈ top, ∃ p q, p + q = order + 1 ∧ entry.1 = indexed "S" (p, q) ∧
        entry.2.value = standardizedMoment μ p q) ∧
      ∀ p q, p + q = order + 1 → ∃ entry ∈ top, entry.1 = indexed "S" (p, q) := by
  have same := closes.keys given carries
  have declared : closure.order.any (· != order) = false := by
    rcases closes.declared with none | some
    · simp [none]
    · simp [some]
  refine ⟨_, by rw [applyLocalClosure]; simp only [declared, same, if_true]; rfl, ?_, ?_⟩
  · intro entry listed
    obtain ⟨key, key_listed, found⟩ := List.mem_filterMap.mp listed
    obtain ⟨e, looked, rfl⟩ := Option.map_eq_some_iff.mp found
    have wanted : key ∈ closureKeys order := by
      simp only [sameKeys, Bool.and_eq_true, List.all_eq_true, List.contains_iff_mem] at same
      exact same.1 key (List.mem_mergeSort.mp key_listed)
    obtain ⟨p, below, rfl⟩ := List.mem_map.mp wanted
    rw [List.mem_range] at below
    obtain ⟨e', again, worth⟩ := closes.moments given carries p (order + 1 - p) (by omega)
    rw [looked, Option.some.injEq] at again
    exact ⟨p, order + 1 - p, by omega, rfl, again ▸ worth⟩
  · intro p q total
    obtain ⟨e, found, _⟩ := closes.moments given carries p q total
    refine ⟨(indexed "S" (p, q), e), List.mem_filterMap.mpr ⟨indexed "S" (p, q), ?_, by rw [found]; rfl⟩, rfl⟩
    apply List.mem_mergeSort.mpr
    simp only [sameKeys, Bool.and_eq_true, List.all_eq_true, List.contains_iff_mem] at same
    apply same.2
    refine List.mem_map.mpr ⟨p, List.mem_range.mpr (by omega), ?_⟩
    rw [show order + 1 - p = q by omega]

include binds in
theorem closed_ok (small : order ≤ 8) (known : Standardized μ order s) (wide_x : 0 < centralMoment μ 2 0)
    (wide_y : 0 < centralMoment μ 0 2) {top : Dict String ℝ}
    (each : ∀ entry ∈ top, ∃ p q, p + q = order + 1 ∧ entry.1 = indexed "S" (p, q) ∧
      entry.2.value = standardizedMoment μ p q)
    (all : ∀ p q, p + q = order + 1 → ∃ entry ∈ top, entry.1 = indexed "S" (p, q)) :
    ∃ closed, top.foldlM (closeMoment author s.sx s.sy) s.central = .ok closed ∧
      ∀ p q, p + q ≤ order + 1 → ∃ e, getItem closed (p, q) = some e ∧ e.value = centralMoment μ p q := by
  have step : ∀ closed, ∀ entry ∈ top, ∃ p q value, p + q = order + 1 ∧ entry.1 = indexed "S" (p, q) ∧
      closeMoment author s.sx s.sy closed entry = .ok (setItem (p, q) value closed) ∧
      value.value = centralMoment μ p q := by
    intro closed entry listed
    obtain ⟨p, q, total, key, worth⟩ := each entry listed
    obtain ⟨first, second⟩ := digits_read p (by omega) q (by omega)
    rw [← key] at first second
    obtain ⟨value, ran, scaled⟩ := closeMoment_ok binds s.sx s.sy closed first second
    refine ⟨p, q, value, total, key, ran, ?_⟩
    have x_pos : 0 < Real.sqrt (centralMoment μ 2 0) := Real.sqrt_pos.mpr wide_x
    have y_pos : 0 < Real.sqrt (centralMoment μ 0 2) := Real.sqrt_pos.mpr wide_y
    rw [scaled, worth, known.sx, known.sy, standardizedMoment]
    field_simp
  obtain ⟨closed, ran⟩ := exists_foldlM_ok (fun closed entry listed => by
    obtain ⟨p, q, value, _, _, ran, _⟩ := step closed entry listed
    exact ⟨_, ran⟩) s.central
  refine ⟨closed, ran, ?_⟩
  have kept := foldlM_ok_invariant
    (fun done (closed : Dict Index ℝ) => (∀ entry ∈ done, entry ∈ top) →
      ∀ p q, (p + q ≤ order ∨ ∃ entry ∈ done, entry.1 = indexed "S" (p, q)) → p + q ≤ order + 1 →
        ∃ e, getItem closed (p, q) = some e ∧ e.value = centralMoment μ p q)
    (by
      intro done entry closed next sofar ran within p q reached fits
      obtain ⟨i, j, value, total, key, stepped, worth⟩ := step closed entry (within entry (by simp))
      rw [stepped, Except.ok.injEq] at ran
      subst ran
      rw [getItem_setItem]
      by_cases same : (p, q) = (i, j)
      · obtain ⟨rfl, rfl⟩ := Prod.mk.inj same
        exact ⟨value, by simp, worth⟩
      · rw [if_neg same]
        apply sofar (fun other listed => within other (by simp [listed])) p q ?_ fits
        rcases reached with low | ⟨other, listed, named⟩
        · exact .inl low
        · rcases List.mem_append.mp listed with earlier | here
          · exact .inr ⟨other, earlier, named⟩
          · rw [List.mem_singleton.mp here, key] at named
            obtain ⟨rfl, rfl⟩ := indexed_injective (by omega) (by omega) named
            exact absurd rfl same)
    top s.central closed [] (by
      intro _ p q reached _
      rcases reached with low | ⟨entry, listed, _⟩
      · exact known.central p q low
      · cases listed) ran (by simp)
  intro p q fits
  rcases Nat.lt_or_ge order (p + q) with high | low
  · obtain ⟨entry, listed, key⟩ := all p q (by omega)
    exact kept p q (.inr ⟨entry, by simpa using listed, key⟩) fits
  · exact kept p q (.inl low) fits

theorem rawSum_eq (has : HasMoments μ (order + 1)) (dense : rawMoment μ 0 0 ≠ 0) {closed : Dict Index ℝ}
    (known : ∀ p q, p + q ≤ order + 1 → ∃ e, getItem closed (p, q) = some e ∧ e.value = centralMoment μ p q)
    {p q : ℕ} (fits : p + q ≤ order + 1) :
    rawMoment μ 0 0 * rawSum (meanX μ) (meanY μ) closed (p, q) = rawMoment μ p q := by
  rw [rawMoment_eq has fits dense, rawSum]
  apply congrArg (rawMoment μ 0 0 * ·)
  apply Finset.sum_congr rfl
  intro i below
  apply Finset.sum_congr rfl
  intro j left
  rw [Finset.mem_range] at below left
  obtain ⟨e, found, worth⟩ := known i j (by simp only [] at below left; omega)
  rw [closedValue, found, Option.map_some, Option.getD_some, worth]

theorem stateOf_length (μ : Measure (ℝ × ℝ)) (order : ℕ) :
    (stateOf μ order).length = (momentIndices order).length := by
  simp [stateOf]

theorem reproducesMoments_of_le (two : 2 ≤ order) (small : order ≤ 8) : ReproducesMoments order := by
  intro author binds μ has dense wide_x wide_y closure closes epsM00 epsCov
  have lower : HasMoments μ order := fun i j within => has i j (by omega)
  have known := standardize_standardized binds two lower dense epsM00 epsCov
  set s := standardize author Real.sqrt abs (stateOf μ order) order false epsM00 epsCov with s_def
  obtain ⟨top, validated, each, all⟩ :=
    applyLocalClosure_ok closes (standardizedMoments_carries binds small known wide_x wide_y)
  obtain ⟨closed, ran, next⟩ := closed_ok binds small known wide_x wide_y each all
  obtain ⟨origin, found, worth⟩ := next 0 0 (by omega)
  obtain ⟨highest, raised⟩ : ∃ highest, ((List.range (order + 2)).map fun q => (order + 1 - q, q)).foldlM
      (highestMoment author s.m00 s.u s.v closed) [] = .ok highest :=
    exists_highest ⟨origin, found, by rw [worth, centralMoment_zero dense]; exact one_ne_zero⟩ _
  have raw : ∀ p q, p + q ≤ order + 1 →
      ((getItem s.moments (p, q)).getD (item highest (p, q))).value = rawMoment μ p q := by
    intro p q fits
    rw [known.moments]
    by_cases transported : p + q ≤ order
    · rw [if_pos transported, Option.getD_some, value_expr]
    · have listed : (p, q) ∈ (List.range (order + 2)).map fun q => (order + 1 - q, q) :=
        List.mem_map.mpr ⟨q, List.mem_range.mpr (by omega), by rw [show order + 1 - q = p by omega]⟩
      rw [if_neg transported, Option.getD_none, highest_ok binds raised listed, known.m00, known.u, known.v,
        rawSum_eq has dense next fits]
  refine ⟨_, by
    simp only [momentFluxExpressions, if_neg (Nat.not_lt.mpr two), stateOf_length, ne_eq, not_true, if_false,
      ← s_def, validated, ok_bind, ran, raised]
    rfl, ?_, ?_⟩
  · rw [List.map_map]
    apply List.map_congr_left
    rintro ⟨p, q⟩ listed
    exact raw (p + 1) q (by have := mem_momentIndices.mp listed; omega)
  · rw [List.map_map]
    apply List.map_congr_left
    rintro ⟨p, q⟩ listed
    exact raw p (q + 1) (by have := mem_momentIndices.mp listed; omega)

theorem closed_untouched {K : Type} [Field K] [DecidableEq K] {author : Author K} {sx sy : Operand K}
    {top : Dict String K} {central closed : Dict Index K}
    (ran : top.foldlM (closeMoment author sx sy) central = .ok closed) {p q : ℕ} (long : 10 ≤ q) :
    getItem closed (p, q) = getItem central (p, q) := by
  apply foldlM_ok_invariant (fun _ closed => getItem closed (p, q) = getItem central (p, q)) ?_ top central closed []
    rfl ran
  intro _ entry closed next sofar ran
  simp only [closeMoment, bind_ok, pure_ok] at ran
  obtain ⟨i, _, j, second, rfl⟩ := ran
  have short := digitAt_lt second
  rw [getItem_setItem, if_neg (by simp only [Prod.mk.injEq]; omega)]
  exact sofar

/-- Three particles, one at `(2, 2)` and two at `(-1, -1)`. -/
noncomputable def threeParticles : Measure (ℝ × ℝ) :=
  Measure.dirac (((2 : ℕ) : ℝ), ((2 : ℕ) : ℝ)) + (Measure.dirac (-1, -1) + Measure.dirac (-1, -1))

theorem integrable_threeParticles (f : ℝ × ℝ → ℝ) : Integrable f threeParticles := by
  apply Integrable.add_measure (integrable_dirac enorm_lt_top)
  exact Integrable.add_measure (integrable_dirac enorm_lt_top) (integrable_dirac enorm_lt_top)

theorem integral_threeParticles (f : ℝ × ℝ → ℝ) :
    ∫ z, f z ∂threeParticles = f (2, 2) + (f (-1, -1) + f (-1, -1)) := by
  have one : ∀ a, Integrable f (Measure.dirac a) := fun a => integrable_dirac enorm_lt_top
  rw [threeParticles, integral_add_measure (one _) ((one _).add_measure (one _)),
    integral_add_measure (one _) (one _)]
  simp only [integral_dirac, Nat.cast_ofNat]

theorem raw_threeParticles (p q : ℕ) :
    rawMoment threeParticles p q = 2 ^ (p + q) + 2 * (-1) ^ (p + q) := by
  rw [rawMoment, integral_threeParticles, pow_add, pow_add]
  ring

theorem centred_threeParticles : meanX threeParticles = 0 ∧ meanY threeParticles = 0 := by
  constructor
  · rw [meanX, raw_threeParticles]
    norm_num
  · rw [meanY, raw_threeParticles]
    norm_num

theorem central_threeParticles (p q : ℕ) :
    centralMoment threeParticles p q = rawMoment threeParticles p q / 3 := by
  have mass : rawMoment threeParticles 0 0 = 3 := by
    rw [raw_threeParticles]
    norm_num
  simp only [centralMoment, centred_threeParticles.1, centred_threeParticles.2, sub_zero, mass]
  rfl

theorem dense_threeParticles : rawMoment threeParticles 0 0 ≠ 0 ∧
    0 < centralMoment threeParticles 2 0 ∧ 0 < centralMoment threeParticles 0 2 := by
  simp only [central_threeParticles, raw_threeParticles]
  norm_num

theorem standardized_threeParticles (p q : ℕ) :
    standardizedMoment threeParticles p q = standardizedMoment threeParticles 0 (p + q) := by
  simp only [standardizedMoment, central_threeParticles, raw_threeParticles, zero_add, add_zero, pow_zero, one_mul,
    ← pow_add]

/-- A closure that returns one number for every moment. -/
def constantClosure (order : ℕ) (value : ℝ) : Closure ℝ where
  order := some order
  evaluate _ := (closureKeys order).dedup.map fun key => (key, .number value)

theorem constantClosure_closes (order : ℕ) :
    Closes threeParticles order
      (constantClosure order (standardizedMoment threeParticles 0 (order + 1))) := by
  refine ⟨.inr rfl, fun given _ => ?_, fun given _ p q total => ?_⟩
  · simp only [constantClosure, List.map_map, sameKeys, Bool.and_eq_true, List.all_eq_true, List.contains_iff_mem]
    constructor
    · intro key listed
      simpa using listed
    · intro key listed
      simpa using listed
  · refine ⟨.number (standardizedMoment threeParticles 0 (order + 1)), ?_, ?_⟩
    · rw [constantClosure, getItem_tabulated (fun _ : String => Operand.number _), if_pos]
      rw [List.mem_dedup]
      exact List.mem_map.mpr ⟨p, List.mem_range.mpr (by omega), by rw [show order + 1 - p = q by omega]⟩
    · rw [value_number, standardized_threeParticles p q, total]

theorem not_reproducesMoments (large : 9 ≤ order) : ¬ ReproducesMoments order := by
  intro reproduces
  have plain : LetBinding (⟨fun _ expression => expression⟩ : Author ℝ) := fun _ _ => rfl
  obtain ⟨dense, wide_x, wide_y⟩ := dense_threeParticles
  have has : ∀ order, HasMoments threeParticles order := fun _ _ _ _ => integrable_threeParticles _
  obtain ⟨flux, built, _, y⟩ := reproduces _ plain threeParticles (has _) dense wide_x wide_y _
    (constantClosure_closes order) 0 0
  have known := standardize_standardized plain (by omega) (has order) dense 0 0
  simp only [momentFluxExpressions, if_neg (show ¬ order < 2 by omega), stateOf_length, ne_eq, not_true, if_false,
    bind_ok, pure_ok] at built
  obtain ⟨top, _, closed, ran, highest, raised, rfl⟩ := built
  rw [List.map_map, List.map_inj_left] at y
  have last := y (0, order) (mem_momentIndices.mpr (by omega))
  simp only [Function.comp] at last
  have listed : (0, order + 1) ∈ (List.range (order + 2)).map fun q => (order + 1 - q, q) :=
    List.mem_map.mpr ⟨order + 1, List.mem_range.mpr (by omega), by simp⟩
  have unset : closedValue closed (0, order + 1) = 0 := by
    rw [closedValue, closed_untouched ran (by omega), known.absent 0 (order + 1) (by omega) (by omega)]
    rfl
  have vanishes : rawSum (0 : ℝ) 0 closed (0, order + 1) = 0 := by
    rw [rawSum, Finset.sum_range_one]
    apply Finset.sum_eq_zero
    intro j below
    rw [Finset.mem_range] at below
    rcases Nat.lt_or_eq_of_le (Nat.lt_succ_iff.mp below) with lower | rfl
    · rw [zero_pow (Nat.sub_ne_zero_of_lt lower)]
      simp
    · rw [unset, mul_zero]
  rw [known.moments, if_neg (by omega), Option.getD_none, highest_ok plain raised listed, known.u, known.v,
    centred_threeParticles.1, centred_threeParticles.2, vanishes, mul_zero, raw_threeParticles] at last
  have big : (2 : ℝ) ^ 2 ≤ 2 ^ (0 + (order + 1)) := pow_le_pow_right₀ (by norm_num) (by omega)
  rcases neg_one_pow_eq_or ℝ (0 + (order + 1)) with even | odd
  · rw [even] at last
    linarith
  · rw [odd] at last
    linarith

/-- The generated fluxes are right at an order exactly when no index of the closed moments has two digits. -/
theorem reproducesMoments_iff (two : 2 ≤ order) : ReproducesMoments order ↔ order ≤ 8 := by
  constructor
  · intro reproduces
    by_contra beyond
    exact not_reproducesMoments (by omega) reproduces
  · exact reproducesMoments_of_le two

theorem reproducesMoments_fourth : ReproducesMoments 4 ↔ 4 ≤ 8 := reproducesMoments_iff (by omega)

theorem ninth_moments_lost : ¬ ReproducesMoments 9 := not_reproducesMoments le_rfl

end Closing

end Pops.MomentFlux
