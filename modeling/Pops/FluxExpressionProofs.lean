import Mathlib.Algebra.Polynomial.Eval.Algebra
import Pops.FluxExpression

/-! Proofs about the flux provenance: its polynomials are those of `ℚ[X]`, and
the expressions of the states follow the field data through every operation. -/
namespace Pops

private theorem foldlM_adds {σ α ε : Type} {A : Type*} [AddMonoid A] {step : σ → α → Except ε σ} (measure : σ → A)
    (part : α → A) {items : List α}
    (adds : ∀ item ∈ items, ∀ before after, step before item = .ok after →
      measure after = measure before + part item)
    {before after : σ} (ran : items.foldlM step before = .ok after) :
    measure after = measure before + (items.map part).sum := by
  induction items generalizing before with
  | nil =>
    cases ran
    simp
  | cons item items ih =>
    rw [List.foldlM_cons, bind_ok] at ran
    obtain ⟨middle, first, rest⟩ := ran
    rw [ih (fun other listed => adds other (by simp [listed])) rest, adds item (by simp) before middle first,
      List.map_cons, List.sum_cons, add_assoc]

namespace ExactPolynomial

open Polynomial

/-- The polynomial in `dt`. -/
noncomputable def toPolynomial (polynomial : ExactPolynomial) : ℚ[X] :=
  (polynomial.terms.map fun term => monomial term.1 term.2.value).sum

@[simp]
theorem toPolynomial_empty : empty.toPolynomial = 0 := rfl

@[simp]
theorem toPolynomial_single (power : ℕ) (factor : Rational) :
    (single power factor).toPolynomial = monomial power factor.value := by
  simp [toPolynomial, single]

private theorem value_eq_zero {factor : Rational} (zero : factor.numerator = 0) : factor.value = 0 := by
  simp [Rational.value, zero]

theorem toPolynomial_eraseZeroTerms (polynomial : ExactPolynomial) :
    polynomial.eraseZeroTerms.toPolynomial = polynomial.toPolynomial := by
  unfold eraseZeroTerms toPolynomial
  simp only
  induction polynomial.terms with
  | nil => rfl
  | cons term rest ih =>
    rw [List.filter_cons, List.map_cons, List.sum_cons]
    split
    · rw [List.map_cons, List.sum_cons, ih]
    · rename_i zero
      rw [ih, value_eq_zero (by simpa using zero), monomial_zero_right, zero_add]

theorem canonical_eraseZeroTerms (polynomial : ExactPolynomial) : polynomial.eraseZeroTerms.Canonical := by
  intro term listed
  simpa using (List.mem_filter.mp listed).2

private theorem toPolynomial_set (polynomial : ExactPolynomial) (power : ℕ) (factor : Rational) :
    (polynomial.set power factor).toPolynomial +
        (polynomial.find power).elim 0 (fun known => monomial power known.value) =
      polynomial.toPolynomial + monomial power factor.value :=
  OrderedMap.sum_update keyLess_iff fun power (factor : Rational) => monomial power factor.value

theorem toPolynomial_addTerm {polynomial result : ExactPolynomial} {power : ℕ} {factor : Rational}
    (ran : polynomial.addTerm power factor = .ok result) :
    result.toPolynomial = polynomial.toPolynomial + monomial power factor.value := by
  unfold addTerm at ran
  cases found : polynomial.find power with
  | none =>
    simp only [found] at ran
    cases ran
    have added := toPolynomial_set polynomial power factor
    rwa [found, Option.elim_none, add_zero] at added
  | some known =>
    simp only [found, bind_ok, pure_ok] at ran
    obtain ⟨sum, ranSum, rfl⟩ := ran
    have replaced := toPolynomial_set polynomial power sum
    rw [found, Option.elim_some, Rational.add_ok ranSum, map_add, add_comm (monomial power known.value),
      ← add_assoc] at replaced
    exact add_right_cancel replaced

theorem add_ok {destination source result : ExactPolynomial} (ran : destination.add source = .ok result) :
    result.toPolynomial = destination.toPolynomial + source.toPolynomial ∧ result.Canonical := by
  simp only [add, bind_ok, pure_ok] at ran
  obtain ⟨sum, ranSum, rfl⟩ := ran
  refine ⟨?_, canonical_eraseZeroTerms sum⟩
  rw [toPolynomial_eraseZeroTerms]
  exact foldlM_adds toPolynomial _ (fun _ _ _ _ added => toPolynomial_addTerm added) ranSum

private theorem toPolynomial_addProduct {result after : ExactPolynomial} {left right : ℕ × Rational}
    (ran : result.addProduct left right = .ok after) :
    after.toPolynomial = result.toPolynomial + monomial left.1 left.2.value * monomial right.1 right.2.value := by
  simp only [addProduct, bind_ok, unit_exists] at ran
  obtain ⟨-, product, ranProduct, added⟩ := ran
  rw [toPolynomial_addTerm added, Rational.mul_ok ranProduct, monomial_mul_monomial]

theorem multiply_ok {left right result : ExactPolynomial} (ran : left.multiply right = .ok result) :
    result.toPolynomial = left.toPolynomial * right.toPolynomial ∧ result.Canonical := by
  simp only [multiply, bind_ok, pure_ok] at ran
  obtain ⟨sum, ranSum, rfl⟩ := ran
  refine ⟨?_, canonical_eraseZeroTerms sum⟩
  rw [toPolynomial_eraseZeroTerms]
  have whole := foldlM_adds toPolynomial (fun term : ℕ × Rational => monomial term.1 term.2.value * right.toPolynomial)
    (fun term _ before after ranRow => ?_) ranSum
  · rw [whole, toPolynomial_empty, zero_add, List.sum_map_mul_right]
    rfl
  · rw [foldlM_adds toPolynomial _ (fun _ _ _ _ added => toPolynomial_addProduct added) ranRow, List.sum_map_mul_left]
    rfl

theorem evaluate_eq (polynomial : ExactPolynomial) (dt : ℚ) : polynomial.evaluate dt = polynomial.toPolynomial.eval dt := by
  have folded (terms : List (ℕ × Rational)) (start : ℚ) :
      terms.foldl (fun result term => result + term.2.value * dt ^ term.1) start =
        start + (terms.map fun term => monomial term.1 term.2.value).sum.eval dt := by
    induction terms generalizing start with
    | nil => simp
    | cons term rest ih =>
      rw [List.foldl_cons, ih, List.map_cons, List.sum_cons, eval_add, eval_monomial, add_assoc]
  rw [evaluate, folded, zero_add]
  rfl

end ExactPolynomial

theorem exactCoefficient_ok {currentDt factor referenceDt : ℚ} {terms : List ExactCoefficientTerm}
    {polynomial : ExactPolynomial} (ran : exactCoefficient currentDt factor referenceDt terms = .ok polynomial) :
    polynomial.toPolynomial.eval currentDt = factor := by
  simp only [exactCoefficient, bind_ok, throwIf_ok, unit_exists, pure_ok, not_not] at ran
  obtain ⟨same, sum, -, agrees, rfl⟩ := ran
  rw [← ExactPolynomial.evaluate_eq, ← same]
  exact agrees

private theorem signed_size {value scale : ℚ} {number : ℤ} (size : (number : ℚ) = |value| * scale) :
    ((if value < 0 then -number else number : ℤ) : ℚ) = value * scale := by
  split
  · rename_i negative
    rw [Int.cast_neg, size, abs_of_neg negative, neg_mul, neg_neg]
  · rename_i nonnegative
    rw [size, abs_of_nonneg (not_lt.mp nonnegative)]

theorem exactBinaryRational_ok {value : ℚ} {rational : Rational} (ran : exactBinaryRational value = .ok rational) :
    rational.value = value := by
  unfold exactBinaryRational at ran
  split at ran
  · rename_i zero
    rw [(Rational.create_ok ran).2, zero]
    simp
  · simp only [bind_ok, throwIf_ok, unit_exists, not_not] at ran
    obtain ⟨whole, ran⟩ := ran
    generalize frexpExponent |value| - 53 = binaryPower at whole ran
    have mantissa : ((|value| * (2 : ℚ) ^ (-binaryPower)).num : ℚ) = |value| * (2 : ℚ) ^ (-binaryPower) :=
      Rat.coe_int_num_of_den_eq_one whole
    split at ran
    · rename_i nonnegative
      obtain ⟨power, rfl⟩ := Int.eq_ofNat_of_zero_le nonnegative
      simp only [bind_ok, unit_exists] at ran
      obtain ⟨-, ran⟩ := ran
      rw [(Rational.create_ok ran).2, Int.cast_one, div_eq_iff one_ne_zero]
      refine signed_size ?_
      rw [Int.cast_mul, mantissa]
      push_cast
      rw [Int.toNat_natCast, mul_assoc, zpow_neg, zpow_natCast, inv_mul_cancel₀ (by positivity)]
    · rename_i negative
      obtain ⟨power, rfl⟩ := Int.exists_eq_neg_ofNat (not_le.mp negative).le
      simp only [bind_ok, unit_exists] at ran
      obtain ⟨-, ran⟩ := ran
      rw [(Rational.create_ok ran).2, div_eq_iff (by positivity)]
      refine signed_size ?_
      rw [mantissa]
      push_cast
      rw [neg_neg, Int.toNat_natCast, zpow_natCast]

section
variable {B R N : Type} [CommRing R] [AddCommGroup N] [Module R N] (interpret : Polynomial ℚ →+* R) (flux : B → N)

namespace FluxExpression

/-- The linear combination of the bases that an expression stands for. -/
noncomputable def combine (expression : FluxExpression B) : N :=
  (expression.terms.map fun entry => interpret entry.2.coefficient.toPolynomial • flux entry.2.basis).sum

@[simp]
theorem combine_empty : (empty : FluxExpression B).combine interpret flux = 0 := rfl

private theorem combine_set (expression : FluxExpression B) (identity : ℕ) (term : FluxExpressionTerm B) :
    (expression.set identity term).combine interpret flux +
        (expression.find identity).elim 0 (fun known =>
          interpret known.coefficient.toPolynomial • flux known.basis) =
      expression.combine interpret flux + interpret term.coefficient.toPolynomial • flux term.basis :=
  OrderedMap.sum_update keyLess_iff fun _ (term : FluxExpressionTerm B) =>
    interpret term.coefficient.toPolynomial • flux term.basis

private theorem combine_erase (expression : FluxExpression B) (identity : ℕ) :
    (expression.erase identity).combine interpret flux +
        (expression.find identity).elim 0 (fun known =>
          interpret known.coefficient.toPolynomial • flux known.basis) =
      expression.combine interpret flux :=
  OrderedMap.sum_erase keyLess_iff fun _ (term : FluxExpressionTerm B) =>
    interpret term.coefficient.toPolynomial • flux term.basis

variable {interpret flux}

theorem combine_addTerm [DecidableEq B] {destination result : FluxExpression B} {entry : ℕ × FluxExpressionTerm B}
    (ran : destination.addTerm entry = .ok result) :
    result.combine interpret flux =
      destination.combine interpret flux + interpret entry.2.coefficient.toPolynomial • flux entry.2.basis := by
  unfold addTerm at ran
  cases found : destination.find entry.1 with
  | none =>
    simp only [found] at ran
    cases ran
    have added := combine_set interpret flux destination entry.1 entry.2
    rwa [found, Option.elim_none, add_zero] at added
  | some known =>
    simp only [found, bind_ok, throwIf_ok, unit_exists, not_not] at ran
    obtain ⟨sameBasis, coefficient, ranSum, ran⟩ := ran
    have sum := (ExactPolynomial.add_ok ranSum).1
    split at ran
    · rename_i vanished
      cases ran
      have removed := combine_erase interpret flux destination entry.1
      have nothing : coefficient.toPolynomial = 0 := by
        rw [ExactPolynomial.toPolynomial, vanished]
        rfl
      rw [found, Option.elim_some] at removed
      rw [← removed, ← sameBasis, add_assoc, ← add_smul, ← map_add, ← sum, nothing, map_zero, zero_smul, add_zero]
    · cases ran
      have replaced := combine_set interpret flux destination entry.1 ⟨known.basis, coefficient⟩
      rw [found, Option.elim_some, sum, map_add, add_smul, add_comm (interpret known.coefficient.toPolynomial • _),
        ← add_assoc] at replaced
      rw [← sameBasis]
      exact add_right_cancel replaced

theorem combine_add [DecidableEq B] {destination source result : FluxExpression B} (ran : destination.add source = .ok result) :
    result.combine interpret flux = destination.combine interpret flux + source.combine interpret flux :=
  foldlM_adds (combine interpret flux) _ (fun _ _ _ _ added => combine_addTerm added) ran

private theorem find_fresh {expression : FluxExpression B} {identity : ℕ}
    (below : ∀ entry ∈ expression.terms, entry.1 < identity) : expression.find identity = none := by
  refine Option.eq_none_iff_forall_ne_some.mpr fun term found => ?_
  have listed := (OrderedMap.find_eq_some keyLess_iff expression.ordered).mp found
  exact absurd (below _ listed) (lt_irrefl _)

private theorem combine_foldlM_scaleTerm {coefficient : ExactPolynomial} {items : List (ℕ × FluxExpressionTerm B)}
    (ordered : items.Pairwise fun left right => left.1 < right.1) {before after : FluxExpression B}
    (below : ∀ entry ∈ before.terms, ∀ item ∈ items, entry.1 < item.1)
    (ran : items.foldlM (scaleTerm coefficient) before = .ok after) :
    after.combine interpret flux = before.combine interpret flux + interpret coefficient.toPolynomial •
      (items.map fun entry => interpret entry.2.coefficient.toPolynomial • flux entry.2.basis).sum := by
  induction items generalizing before with
  | nil =>
    cases ran
    simp
  | cons item items ih =>
    obtain ⟨later, tail⟩ := List.pairwise_cons.mp ordered
    rw [List.foldlM_cons, bind_ok] at ran
    obtain ⟨middle, first, rest⟩ := ran
    simp only [scaleTerm, bind_ok] at first
    obtain ⟨product, ranProduct, first⟩ := first
    have productIs := (ExactPolynomial.multiply_ok ranProduct).1
    rw [List.map_cons, List.sum_cons, smul_add, ← add_assoc]
    split at first
    · rename_i vanished
      cases first
      have nothing : product.toPolynomial = 0 := by
        rw [ExactPolynomial.toPolynomial, vanished]
        rfl
      rw [ih tail (fun entry listed other known => below entry listed other (by simp [known])) rest, smul_smul,
        ← map_mul, mul_comm coefficient.toPolynomial, ← productIs, nothing, map_zero, zero_smul, add_zero]
    · cases first
      have added := combine_set interpret flux before item.1 ⟨item.2.basis, product⟩
      rw [find_fresh fun entry listed => below entry listed item (by simp), Option.elim_none, add_zero] at added
      rw [ih tail _ rest, added, smul_smul, ← map_mul, mul_comm coefficient.toPolynomial, ← productIs]
      intro entry listed other known
      rcases OrderedMap.update_mem keyLess_iff listed with ⟨same, -⟩ | kept
      · rw [same]
        exact later other known
      · exact below entry kept other (by simp [known])

theorem combine_scaled {expression result : FluxExpression B} {coefficient : ExactPolynomial}
    (ran : expression.scaled coefficient = .ok result) :
    result.combine interpret flux = interpret coefficient.toPolynomial • expression.combine interpret flux := by
  unfold scaled at ran
  split at ran
  · rename_i nothing
    cases ran
    rw [ExactPolynomial.toPolynomial, nothing]
    simp
  · rw [combine_foldlM_scaleTerm expression.ordered (by simp [empty]) ran, combine_empty, zero_add]
    rfl

end FluxExpression

end

namespace FluxExpression

variable {B : Type}

theorem canonical_empty : (empty : FluxExpression B).Canonical := by
  intro entry listed
  cases listed

private theorem Canonical.set {expression : FluxExpression B} (canonical : expression.Canonical) {identity : ℕ}
    {term : FluxExpressionTerm B} (present : term.coefficient.terms ≠ []) (exact' : term.coefficient.Canonical) :
    (expression.set identity term).Canonical := by
  intro entry listed
  rcases OrderedMap.update_mem keyLess_iff listed with ⟨-, _, same⟩ | kept
  · rw [same]
    exact ⟨present, exact'⟩
  · exact canonical entry kept

theorem canonical_scaled {expression result : FluxExpression B} {coefficient : ExactPolynomial}
    (ran : expression.scaled coefficient = .ok result) : result.Canonical := by
  unfold scaled at ran
  split at ran
  · cases ran
    exact canonical_empty
  · refine foldlM_ok_invariant (fun _ result => result.Canonical) (fun _ entry before after canonical stepped => ?_)
      expression.terms empty result [] canonical_empty ran
    simp only [scaleTerm, bind_ok] at stepped
    obtain ⟨product, ranProduct, stepped⟩ := stepped
    split at stepped
    · cases stepped
      exact canonical
    · rename_i present
      cases stepped
      exact canonical.set present (ExactPolynomial.multiply_ok ranProduct).2

private theorem Canonical.addTerm [DecidableEq B] {destination result : FluxExpression B}
    (canonical : destination.Canonical) {entry : ℕ × FluxExpressionTerm B}
    (present : entry.2.coefficient.terms ≠ []) (nonzero : entry.2.coefficient.Canonical)
    (ran : destination.addTerm entry = .ok result) : result.Canonical := by
  unfold FluxExpression.addTerm at ran
  split at ran
  · cases ran
    exact canonical.set present nonzero
  · simp only [bind_ok, unit_exists] at ran
    obtain ⟨-, coefficient, ranSum, ran⟩ := ran
    split at ran
    · cases ran
      exact fun other kept => canonical other ((OrderedMap.erase_sublist _ _ _).subset kept)
    · rename_i some
      cases ran
      exact canonical.set some (ExactPolynomial.add_ok ranSum).2

theorem Canonical.add [DecidableEq B] {destination source result : FluxExpression B}
    (canonical : destination.Canonical) (other : source.Canonical) (ran : destination.add source = .ok result) :
    result.Canonical := by
  unfold FluxExpression.add at ran
  have each : ∀ entry ∈ source.terms, entry.2.coefficient.terms ≠ [] ∧ entry.2.coefficient.Canonical := other
  generalize source.terms = items at each ran
  induction items generalizing destination with
  | nil =>
    cases ran
    exact canonical
  | cons item items ih =>
    rw [List.foldlM_cons, bind_ok] at ran
    obtain ⟨middle, first, rest⟩ := ran
    have here := each item (by simp)
    exact ih (canonical.addTerm here.1 here.2 first) (fun entry listed => each entry (by simp [listed])) rest

end FluxExpression

section
variable {B F M : Type} [DecidableEq F] [DecidableEq B] [AddCommGroup M] [Module ℚ M] {settings : FluxSettings B}

/-- What an expression contributes to the data of its state, over an active `dt`. -/
noncomputable def FluxSettings.contribution (settings : FluxSettings B) (flux : B → M) (expression : FluxExpression B) :
    M :=
  expression.combine (Polynomial.evalRingHom settings.currentDt) flux

omit [DecidableEq F] [DecidableEq B] in
private theorem contribution_scaled {flux : B → M} {expression result : FluxExpression B}
    {coefficient : ExactPolynomial} (ran : expression.scaled coefficient = .ok result) :
    settings.contribution flux result =
      coefficient.toPolynomial.eval settings.currentDt • settings.contribution flux expression :=
  FluxExpression.combine_scaled ran

omit [DecidableEq F] in
private theorem contribution_add {flux : B → M} {destination source result : FluxExpression B}
    (ran : destination.add source = .ok result) :
    settings.contribution flux result =
      settings.contribution flux destination + settings.contribution flux source :=
  FluxExpression.combine_add ran

/-- States with the same expressions, whose data differ by what these contribute. -/
structure Follows (settings : FluxSettings B) (flux : B → M) (states without : FluxStates F B M) : Prop where
  same : without.expressions = states.expressions
  data : ∀ field, states.data field = without.data field + settings.contribution flux (states.expressions field)

/-- Every expression is canonical. -/
def FluxStates.Canonical (states : FluxStates F B M) : Prop := ∀ field, (states.expressions field).Canonical

variable {flux : B → M} {states without after : FluxStates F B M} {factor : ℚ} {coefficient : ExactPolynomial}

private theorem axpyWith_follows {destination source : F} (follows : Follows settings flux states without)
    (value : coefficient.toPolynomial.eval settings.currentDt • settings.contribution flux (states.expressions source) = factor • settings.contribution flux (states.expressions source))
    (ran : axpyWith settings states destination factor source coefficient = .ok after) :
    ∃ withoutAfter, axpyWith settings without destination factor source coefficient = .ok withoutAfter ∧
      Follows settings flux after withoutAfter := by
  obtain ⟨same, data⟩ := follows
  simp only [axpyWith, bind_ok, unit_exists, pure_ok] at ran
  obtain ⟨scaled, ranScaled, result, ranSum, budget, rfl⟩ := ran
  refine ⟨⟨Function.update without.expressions destination result,
    Function.update without.data destination (without.data destination + factor • without.data source)⟩, ?_, ?_, ?_⟩
  · simp only [axpyWith, bind_ok, unit_exists, pure_ok, same]
    exact ⟨scaled, ranScaled, result, ranSum, budget, rfl⟩
  · rw [same]
  · intro field
    by_cases here : field = destination
    · subst here
      simp only [Function.update_self]
      rw [data, data, contribution_add ranSum, contribution_scaled ranScaled, value, smul_add]
      exact add_add_add_comm _ _ _ _
    · simp only [Function.update_of_ne here]
      exact data field

private theorem lincombWith_follows {destination left right : F} {leftFactor rightFactor : ℚ}
    {leftCoefficient rightCoefficient : ExactPolynomial} (follows : Follows settings flux states without)
    (leftValue : leftCoefficient.toPolynomial.eval settings.currentDt = leftFactor)
    (rightValue : rightCoefficient.toPolynomial.eval settings.currentDt = rightFactor)
    (ran : lincombWith settings states destination leftFactor left leftCoefficient rightFactor right rightCoefficient = .ok after) :
    ∃ withoutAfter, lincombWith settings without destination leftFactor left leftCoefficient rightFactor right
        rightCoefficient = .ok withoutAfter ∧ Follows settings flux after withoutAfter := by
  obtain ⟨same, data⟩ := follows
  simp only [lincombWith, bind_ok, unit_exists, pure_ok] at ran
  obtain ⟨scaledLeft, ranLeft, scaledRight, ranRight, result, ranSum, budget, rfl⟩ := ran
  refine ⟨⟨Function.update without.expressions destination result, Function.update without.data destination
    (leftFactor • without.data left + rightFactor • without.data right)⟩, ?_, ?_, ?_⟩
  · simp only [lincombWith, bind_ok, unit_exists, pure_ok, same]
    exact ⟨scaledLeft, ranLeft, scaledRight, ranRight, result, ranSum, budget, rfl⟩
  · rw [same]
  · intro field
    by_cases here : field = destination
    · subst here
      simp only [Function.update_self]
      rw [data, data, contribution_add ranSum, contribution_scaled ranLeft, contribution_scaled ranRight, leftValue,
        rightValue, smul_add, smul_add]
      exact add_add_add_comm _ _ _ _
    · simp only [Function.update_of_ne here]
      exact data field

omit [DecidableEq B] in
private theorem exactRuntimeCoefficient_ok {factor dt : ℚ}
    (ran : exactRuntimeCoefficient factor = .ok coefficient) : coefficient.toPolynomial.eval dt = factor := by
  simp only [exactRuntimeCoefficient, bind_ok, pure_ok] at ran
  obtain ⟨rational, exactly, rfl⟩ := ran
  rw [ExactPolynomial.toPolynomial_single, Polynomial.eval_monomial, pow_zero, mul_one, exactBinaryRational_ok exactly]

omit [DecidableEq F] [DecidableEq B] in
private theorem exactRuntimeAxpyCoefficient_ok {states : FluxStates F B M} {source : F}
    (ran : exactRuntimeAxpyCoefficient settings states factor source = .ok coefficient) :
    coefficient.toPolynomial.eval settings.currentDt • settings.contribution flux (states.expressions source) =
      factor • settings.contribution flux (states.expressions source) := by
  unfold exactRuntimeAxpyCoefficient at ran
  split at ran
  · rename_i nothing
    have none : settings.contribution flux (states.expressions source) = 0 := by
      rw [FluxSettings.contribution, FluxExpression.combine, nothing]
      rfl
    rw [none, smul_zero, smul_zero]
  · simp only [bind_ok, throwIf_ok, unit_exists, pure_ok, not_not] at ran
    obtain ⟨-, exactly, rational, isRational, rfl⟩ := ran
    rw [ExactPolynomial.toPolynomial_single, Polynomial.eval_monomial, pow_one, exactBinaryRational_ok isRational,
      exactly]

omit [DecidableEq B] in
private theorem commit_follows {states without : FluxStates F B M} (follows : Follows settings flux states without)
    {commits : List (F × F)} {expressions : F → FluxExpression B} {data withoutData : F → M}
    (start : ∀ field, data field = withoutData field + settings.contribution flux (expressions field)) (field : F) :
    commits.foldl (fun data pair => Function.update data pair.1 (states.data pair.2)) data field =
      commits.foldl (fun data pair => Function.update data pair.1 (without.data pair.2)) withoutData field +
        settings.contribution flux (commits.foldl
          (fun expressions pair => Function.update expressions pair.1 (states.expressions pair.2)) expressions field) := by
  induction commits generalizing expressions data withoutData with
  | nil => exact start field
  | cons pair rest ih =>
    rw [List.foldl_cons, List.foldl_cons, List.foldl_cons]
    apply ih
    intro other
    by_cases here : other = pair.1
    · subst here
      simp only [Function.update_self]
      exact follows.data pair.2
    · simp only [Function.update_of_ne here]
      exact start other

theorem FluxOperation.follows {operation : FluxOperation F} (follows : Follows settings flux states without)
    (ran : operation.run settings states = .ok after) :
    ∃ withoutAfter, operation.run settings without = .ok withoutAfter ∧ Follows settings flux after withoutAfter := by
  cases operation with
  | axpy destination factor source =>
    simp only [FluxOperation.run, bind_ok] at ran ⊢
    obtain ⟨coefficient, ranCoefficient, ran⟩ := ran
    obtain ⟨withoutAfter, ranWithout, after⟩ :=
      axpyWith_follows follows (exactRuntimeAxpyCoefficient_ok ranCoefficient) ran
    refine ⟨withoutAfter, ⟨coefficient, ?_, ranWithout⟩, after⟩
    unfold exactRuntimeAxpyCoefficient at ranCoefficient ⊢
    rwa [follows.same]
  | exactAxpy destination factor source referenceDt terms =>
    simp only [FluxOperation.run, bind_ok] at ran ⊢
    obtain ⟨coefficient, ranCoefficient, ran⟩ := ran
    obtain ⟨withoutAfter, ranWithout, after⟩ :=
      axpyWith_follows follows (by rw [exactCoefficient_ok ranCoefficient]) ran
    exact ⟨withoutAfter, ⟨coefficient, ranCoefficient, ranWithout⟩, after⟩
  | lincomb destination leftFactor left rightFactor right =>
    simp only [FluxOperation.run, bind_ok] at ran ⊢
    obtain ⟨leftCoefficient, ranLeft, rightCoefficient, ranRight, ran⟩ := ran
    obtain ⟨withoutAfter, ranWithout, after⟩ :=
      lincombWith_follows follows (exactRuntimeCoefficient_ok ranLeft) (exactRuntimeCoefficient_ok ranRight) ran
    exact ⟨withoutAfter, ⟨leftCoefficient, ranLeft, rightCoefficient, ranRight, ranWithout⟩, after⟩
  | exactLincomb destination leftFactor left rightFactor right referenceDt leftTerms rightTerms =>
    simp only [FluxOperation.run, bind_ok] at ran ⊢
    obtain ⟨leftCoefficient, ranLeft, rightCoefficient, ranRight, ran⟩ := ran
    obtain ⟨withoutAfter, ranWithout, after⟩ :=
      lincombWith_follows follows (exactCoefficient_ok ranLeft) (exactCoefficient_ok ranRight) ran
    exact ⟨withoutAfter, ⟨leftCoefficient, ranLeft, rightCoefficient, ranRight, ranWithout⟩, after⟩
  | commit commits =>
    simp only [FluxOperation.run, bind_ok, unit_exists, pure_ok] at ran ⊢
    obtain ⟨unique, rfl⟩ := ran
    refine ⟨_, ⟨unique, rfl⟩, by rw [follows.same], ?_⟩
    exact commit_follows follows follows.data

omit [DecidableEq B] [AddCommGroup M] [Module ℚ M] in
private theorem commit_canonical {states : FluxStates F B M} (canonical : states.Canonical) {commits : List (F × F)}
    {expressions : F → FluxExpression B} (start : ∀ field, (expressions field).Canonical) (field : F) :
    (commits.foldl (fun expressions pair => Function.update expressions pair.1 (states.expressions pair.2))
      expressions field).Canonical := by
  induction commits generalizing expressions with
  | nil => exact start field
  | cons pair rest ih =>
    rw [List.foldl_cons]
    apply ih
    intro other
    by_cases here : other = pair.1
    · subst here
      rw [Function.update_self]
      exact canonical pair.2
    · rw [Function.update_of_ne here]
      exact start other

omit [DecidableEq B] [AddCommGroup M] [Module ℚ M] in
private theorem update_canonical {states : FluxStates F B M} (canonical : states.Canonical) {destination : F}
    {result : FluxExpression B} (exact' : result.Canonical) (field : F) :
    (Function.update states.expressions destination result field).Canonical := by
  by_cases here : field = destination
  · subst here
    rwa [Function.update_self]
  · rw [Function.update_of_ne here]
    exact canonical field

private theorem axpyWith_canonical {states after : FluxStates F B M} (canonical : states.Canonical)
    {destination source : F}
    (ran : axpyWith settings states destination factor source coefficient = .ok after) : after.Canonical := by
  simp only [axpyWith, bind_ok, unit_exists, pure_ok] at ran
  obtain ⟨scaled, ranScaled, result, ranSum, -, rfl⟩ := ran
  exact update_canonical canonical
    ((canonical destination).add (FluxExpression.canonical_scaled ranScaled) ranSum)

private theorem lincombWith_canonical {states after : FluxStates F B M} (canonical : states.Canonical)
    {destination left right : F} {leftFactor rightFactor : ℚ} {leftCoefficient rightCoefficient : ExactPolynomial}
    (ran : lincombWith settings states destination leftFactor left leftCoefficient rightFactor right rightCoefficient =
      .ok after) : after.Canonical := by
  simp only [lincombWith, bind_ok, unit_exists, pure_ok] at ran
  obtain ⟨scaledLeft, ranLeft, scaledRight, ranRight, result, ranSum, -, rfl⟩ := ran
  exact update_canonical canonical
    ((FluxExpression.canonical_scaled ranLeft).add (FluxExpression.canonical_scaled ranRight) ranSum)

theorem FluxOperation.canonical {states after : FluxStates F B M} {operation : FluxOperation F}
    (canonical : states.Canonical) (ran : operation.run settings states = .ok after) : after.Canonical := by
  cases operation with
  | axpy destination factor source =>
    simp only [FluxOperation.run, bind_ok] at ran
    obtain ⟨coefficient, -, ran⟩ := ran
    exact axpyWith_canonical canonical ran
  | exactAxpy destination factor source referenceDt terms =>
    simp only [FluxOperation.run, bind_ok] at ran
    obtain ⟨coefficient, -, ran⟩ := ran
    exact axpyWith_canonical canonical ran
  | lincomb destination leftFactor left rightFactor right =>
    simp only [FluxOperation.run, bind_ok] at ran
    obtain ⟨leftCoefficient, -, rightCoefficient, -, ran⟩ := ran
    exact lincombWith_canonical canonical ran
  | exactLincomb destination leftFactor left rightFactor right referenceDt leftTerms rightTerms =>
    simp only [FluxOperation.run, bind_ok] at ran
    obtain ⟨leftCoefficient, -, rightCoefficient, -, ran⟩ := ran
    exact lincombWith_canonical canonical ran
  | commit commits =>
    simp only [FluxOperation.run, bind_ok, unit_exists, pure_ok] at ran
    obtain ⟨-, rfl⟩ := ran
    exact commit_canonical canonical canonical

theorem runFluxOperations_follows {operations : List (FluxOperation F)} (canonical : states.Canonical)
    (follows : Follows settings flux states without)
    (ran : runFluxOperations settings states operations = .ok after) :
    after.Canonical ∧ ∃ withoutAfter, runFluxOperations settings without operations = .ok withoutAfter ∧
      Follows settings flux after withoutAfter := by
  unfold runFluxOperations at ran ⊢
  induction operations generalizing states without with
  | nil =>
    cases ran
    exact ⟨canonical, without, rfl, follows⟩
  | cons operation rest ih =>
    rw [List.foldlM_cons, bind_ok] at ran
    obtain ⟨middle, first, later⟩ := ran
    obtain ⟨withoutMiddle, ranFirst, followsMiddle⟩ := FluxOperation.follows follows first
    obtain ⟨done, withoutAfter, ranLater, followsAfter⟩ := ih (FluxOperation.canonical canonical first) followsMiddle later
    exact ⟨done, withoutAfter, by rw [List.foldlM_cons, ranFirst, ok_bind, ranLater], followsAfter⟩

/-- The polynomials are those of `ℚ[X]`. Over every run of operations no
expression holds a zero term, and what the expressions contribute to the field
data goes through the run as the data do: data without the contributions, taken
through the same run, differ from the data by the new contributions. -/
theorem flux_expressions_follow_data :
    (∀ left right result : ExactPolynomial, left.multiply right = .ok result →
      result.toPolynomial = left.toPolynomial * right.toPolynomial ∧ result.Canonical) ∧
    (∀ destination source result : ExactPolynomial, destination.add source = .ok result →
      result.toPolynomial = destination.toPolynomial + source.toPolynomial ∧ result.Canonical) ∧
    ∀ (settings : FluxSettings B) (flux : B → M) (states without after : FluxStates F B M)
      (operations : List (FluxOperation F)), states.Canonical → Follows settings flux states without →
      runFluxOperations settings states operations = .ok after →
        after.Canonical ∧ ∃ withoutAfter, runFluxOperations settings without operations = .ok withoutAfter ∧
          Follows settings flux after withoutAfter :=
  ⟨fun _ _ _ => ExactPolynomial.multiply_ok, fun _ _ _ => ExactPolynomial.add_ok,
    fun _ _ _ _ _ _ canonical follows ran => runFluxOperations_follows canonical follows ran⟩

end

end Pops
