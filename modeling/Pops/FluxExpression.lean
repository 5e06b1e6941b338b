import Pops.OrderedMap
import Pops.RationalProofs

/-!
The flux provenance of `runtime/program/amr_program_context_flux_expression_*.inc`:
exact polynomials in `dt`, expressions over flux bases, and the state operations
that carry them along with the field data. `Real` is exact here, field data are
vectors, and a basis is known by its address. The collective form of a failure
and the contract of the field layouts are not modelled.
-/
namespace Pops

/-- `ExactPolynomial`: the factors by their power of `dt`, a non-negative `int`. -/
structure ExactPolynomial where
  terms : List (ℕ × Rational)
  ordered : terms.Pairwise fun left right => left.1 < right.1

/-- The order of the map keys. -/
def keyLess (left right : ℕ) : Bool := left < right

theorem keyLess_iff (left right : ℕ) : keyLess left right = true ↔ left < right := decide_eq_true_iff

namespace ExactPolynomial

/-- An empty map. -/
def empty : ExactPolynomial := ⟨[], .nil⟩

def find (polynomial : ExactPolynomial) (power : ℕ) : Option Rational :=
  OrderedMap.find keyLess power polynomial.terms

/-- `emplace` of a new power, or an assignment to a known one. -/
def set (polynomial : ExactPolynomial) (power : ℕ) (factor : Rational) : ExactPolynomial :=
  ⟨OrderedMap.update keyLess power (fun _ => factor) polynomial.terms,
    OrderedMap.update_ordered keyLess_iff polynomial.ordered⟩

/-- The term with one power and factor. -/
def single (power : ℕ) (factor : Rational) : ExactPolynomial := ⟨[(power, factor)], List.pairwise_singleton _ _⟩

def eraseZeroTerms (polynomial : ExactPolynomial) : ExactPolynomial :=
  ⟨polynomial.terms.filter fun term => term.2.numerator ≠ 0, polynomial.ordered.filter _⟩

/-- A factor, added to the one its power has. -/
def addTerm (polynomial : ExactPolynomial) (power : ℕ) (factor : Rational) : Checked ExactPolynomial :=
  match polynomial.find power with
  | none => .ok (polynomial.set power factor)
  | some known => do
    let sum ← Rational.add known factor
    return polynomial.set power sum

/-- One product of terms, added to a result. -/
def addProduct (result : ExactPolynomial) (left right : ℕ × Rational) : Checked ExactPolynomial := do
  throwIf ((left.1 : ℤ) > intMax - right.1)
    (.overflowError "AMR Program flux coefficient dt power exceeds int")
  let product ← Rational.mul left.2 right.2
  result.addTerm (left.1 + right.1) product

/-- `multiply_exact_polynomials_`. -/
def multiply (left right : ExactPolynomial) : Checked ExactPolynomial := do
  let result ← left.terms.foldlM
    (fun result leftTerm => right.terms.foldlM (fun result rightTerm => result.addProduct leftTerm rightTerm) result)
    empty
  return result.eraseZeroTerms

/-- `add_exact_polynomial_`: the new destination. -/
def add (destination source : ExactPolynomial) : Checked ExactPolynomial := do
  let sum ← source.terms.foldlM (fun sum term => sum.addTerm term.1 term.2) destination
  return sum.eraseZeroTerms

/-- `evaluate_exact_polynomial_`. -/
def evaluate (polynomial : ExactPolynomial) (dt : ℚ) : ℚ :=
  polynomial.terms.foldl (fun result term => result + term.2.value * dt ^ term.1) 0

/-- No factor is zero. -/
def Canonical (polynomial : ExactPolynomial) : Prop := ∀ term ∈ polynomial.terms, term.2.numerator ≠ 0

end ExactPolynomial

structure ExactCoefficientTerm where
  dtPower : ℤ
  numerator : ℤ
  denominator : ℤ

/-- One term of `exact_coefficient_unchecked_`. -/
def addCoefficientTerm (polynomial : ExactPolynomial) (term : ExactCoefficientTerm) : Checked ExactPolynomial := do
  throwIf (term.dtPower < 0 ∨ term.denominator ≤ 0)
    (.invalidArgument "AMR Program flux coefficient metadata is invalid")
  let coefficient ← Rational.create term.numerator term.denominator
  throwIf (coefficient.numerator ≠ term.numerator ∨ coefficient.denominator ≠ term.denominator)
    (.invalidArgument "AMR Program flux coefficient metadata is not canonical")
  polynomial.addTerm term.dtPower.toNat coefficient

/-- `exact_coefficient_unchecked_`. -/
def exactCoefficient (currentDt factor referenceDt : ℚ) (terms : List ExactCoefficientTerm) :
    Checked ExactPolynomial := do
  throwIf (referenceDt ≠ currentDt)
    (.invalidArgument "AMR Program flux coefficient does not name the active exact dt")
  let sum ← terms.foldlM addCoefficientTerm .empty
  let polynomial := sum.eraseZeroTerms
  throwIf (polynomial.evaluate referenceDt ≠ factor)
    (.invalidArgument "AMR Program numerical coefficient differs from its exact metadata")
  return polynomial

/-- The exponent of `std::frexp`: the least power of two above a positive number. -/
def frexpExponent (size : ℚ) : ℤ :=
  let guess := (Nat.log2 size.num.natAbs : ℤ) - Nat.log2 size.den
  (if size < (2 : ℚ) ^ guess then guess - 1 else guess) + 1

/-- `exact_binary_rational_`. Only a number that is a `double` has a whole
mantissa; the source gets no other. -/
def exactBinaryRational (value : ℚ) : Checked Rational :=
  if value = 0 then Rational.create 0 1
  else do
    let binaryPower := frexpExponent |value| - 53
    let mantissa := |value| * (2 : ℚ) ^ (-binaryPower)
    throwIf (mantissa.den ≠ 1) (.invalidArgument "AMR Program coefficient is not finite")
    if binaryPower ≥ 0 then
      throwIf (binaryPower ≥ 63 ∨ mantissa.num > int64Max / 2 ^ binaryPower.toNat)
        (.overflowError "AMR Program coefficient exceeds exact int64 metadata")
      let numerator := mantissa.num * 2 ^ binaryPower.toNat
      Rational.create (if value < 0 then -numerator else numerator) 1
    else
      throwIf (-binaryPower ≥ 63)
        (.overflowError "AMR Program coefficient denominator exceeds exact int64 metadata")
      Rational.create (if value < 0 then -mantissa.num else mantissa.num) (2 ^ (-binaryPower).toNat)

variable {B F M : Type}

structure FluxExpressionTerm (B : Type) where
  basis : B
  coefficient : ExactPolynomial

/-- `FluxExpression`: the terms by the identity of their basis. -/
structure FluxExpression (B : Type) where
  terms : List (ℕ × FluxExpressionTerm B)
  ordered : terms.Pairwise fun left right => left.1 < right.1

namespace FluxExpression

/-- An empty map. -/
def empty : FluxExpression B := ⟨[], .nil⟩

def find (expression : FluxExpression B) (identity : ℕ) : Option (FluxExpressionTerm B) :=
  OrderedMap.find keyLess identity expression.terms

/-- `emplace` of a new identity, or an assignment to a known one. -/
def set (expression : FluxExpression B) (identity : ℕ) (term : FluxExpressionTerm B) : FluxExpression B :=
  ⟨OrderedMap.update keyLess identity (fun _ => term) expression.terms,
    OrderedMap.update_ordered keyLess_iff expression.ordered⟩

def erase (expression : FluxExpression B) (identity : ℕ) : FluxExpression B :=
  ⟨OrderedMap.erase keyLess identity expression.terms,
    expression.ordered.sublist (OrderedMap.erase_sublist keyLess identity expression.terms)⟩

/-- One turn of the loop of `scaled_flux_expression_`. -/
def scaleTerm (coefficient : ExactPolynomial) (result : FluxExpression B) (entry : ℕ × FluxExpressionTerm B) :
    Checked (FluxExpression B) := do
  let scaled ← entry.2.coefficient.multiply coefficient
  if scaled.terms = [] then return result else return result.set entry.1 ⟨entry.2.basis, scaled⟩

/-- `scaled_flux_expression_`. -/
def scaled (expression : FluxExpression B) (coefficient : ExactPolynomial) : Checked (FluxExpression B) :=
  if coefficient.terms = [] then .ok empty else expression.terms.foldlM (scaleTerm coefficient) empty

/-- One turn of the loop of `add_flux_expression_`. -/
def addTerm [DecidableEq B] (destination : FluxExpression B) (entry : ℕ × FluxExpressionTerm B) :
    Checked (FluxExpression B) :=
  match destination.find entry.1 with
  | none => .ok (destination.set entry.1 entry.2)
  | some known => do
    throwIf (known.basis ≠ entry.2.basis)
      (.logicError "AMR Program flux basis identity aliases another evaluation")
    let coefficient ← known.coefficient.add entry.2.coefficient
    if coefficient.terms = [] then return destination.erase entry.1
    else return destination.set entry.1 ⟨known.basis, coefficient⟩

/-- `add_flux_expression_`: the new destination. -/
def add [DecidableEq B] (destination source : FluxExpression B) : Checked (FluxExpression B) :=
  source.terms.foldlM addTerm destination

/-- No coefficient is empty or has a zero factor. -/
def Canonical (expression : FluxExpression B) : Prop :=
  ∀ entry ∈ expression.terms, entry.2.coefficient.terms ≠ [] ∧ entry.2.coefficient.Canonical

end FluxExpression

/-- What an active attempt of the context holds fixed: its `dt`, the block of a
basis, and the prepared bounds of the blocks. -/
structure FluxSettings (B : Type) where
  currentDt : ℚ
  runtimeBlock : B → ℕ
  rhsBasisBounds : List ℕ
  coefficientTermBounds : List ℕ

/-- One turn of the loop of `require_flux_expression_budget_`, with the counts
of the blocks. -/
def checkBudget (settings : FluxSettings B) (counts : ℕ → ℕ) (entry : ℕ × FluxExpressionTerm B) :
    Checked (ℕ → ℕ) :=
  let block := settings.runtimeBlock entry.2.basis
  match settings.rhsBasisBounds[block]?, settings.coefficientTermBounds[block]? with
  | some bases, some terms => do
    throwIf (counts block + 1 > bases ∨ entry.2.coefficient.terms.length > terms)
      (.lengthError "AMR Program flux expression exceeds its authenticated artifact budget")
    return Function.update counts block (counts block + 1)
  | _, _ => .error (.logicError "AMR Program flux expression has a foreign basis identity")

def requireFluxExpressionBudget (settings : FluxSettings B) (expression : FluxExpression B) : Checked Unit := do
  let _ ← expression.terms.foldlM (checkBudget settings) fun _ => 0

/-- The states of an attempt: `active_flux_expressions_`, where an absent
expression is empty, and the field data. -/
structure FluxStates (F B M : Type) where
  expressions : F → FluxExpression B
  data : F → M

/-- The operations on states. `commit` gives the pairs of a target and a source. -/
inductive FluxOperation (F : Type) where
  | axpy (destination : F) (factor : ℚ) (source : F)
  | exactAxpy (destination : F) (factor : ℚ) (source : F) (referenceDt : ℚ) (terms : List ExactCoefficientTerm)
  | lincomb (destination : F) (leftFactor : ℚ) (left : F) (rightFactor : ℚ) (right : F)
  | exactLincomb (destination : F) (leftFactor : ℚ) (left : F) (rightFactor : ℚ) (right : F) (referenceDt : ℚ)
      (leftTerms rightTerms : List ExactCoefficientTerm)
  | commit (commits : List (F × F))

variable [DecidableEq F] [DecidableEq B] [AddCommGroup M] [Module ℚ M]

def exactRuntimeAxpyCoefficient (settings : FluxSettings B) (states : FluxStates F B M) (factor : ℚ) (source : F) :
    Checked ExactPolynomial :=
  if (states.expressions source).terms = [] then .ok .empty
  else do
    throwIf (settings.currentDt ≤ 0) (.logicError "AMR Program flux axpy lacks its active dt")
    let quotient := factor / settings.currentDt
    throwIf (quotient * settings.currentDt ≠ factor)
      (.invalidArgument "AMR Program flux axpy factor has no exact symbolic dt coefficient")
    let coefficient ← exactBinaryRational quotient
    return .single 1 coefficient

def exactRuntimeCoefficient (factor : ℚ) : Checked ExactPolynomial := do
  let coefficient ← exactBinaryRational factor
  return .single 0 coefficient

/-- `prepare_active_axpy_flux_expression_`, the numerical operation and the publication. -/
def axpyWith (settings : FluxSettings B) (states : FluxStates F B M) (destination : F) (factor : ℚ) (source : F)
    (coefficient : ExactPolynomial) : Checked (FluxStates F B M) := do
  let scaled ← (states.expressions source).scaled coefficient
  let result ← (states.expressions destination).add scaled
  requireFluxExpressionBudget settings result
  return ⟨Function.update states.expressions destination result,
    Function.update states.data destination (states.data destination + factor • states.data source)⟩

/-- `prepare_active_lincomb_flux_expression_`, the numerical operation and the publication. -/
def lincombWith (settings : FluxSettings B) (states : FluxStates F B M) (destination : F) (leftFactor : ℚ) (left : F)
    (leftCoefficient : ExactPolynomial) (rightFactor : ℚ) (right : F) (rightCoefficient : ExactPolynomial) :
    Checked (FluxStates F B M) := do
  let scaledLeft ← (states.expressions left).scaled leftCoefficient
  let scaledRight ← (states.expressions right).scaled rightCoefficient
  let result ← scaledLeft.add scaledRight
  requireFluxExpressionBudget settings result
  return ⟨Function.update states.expressions destination result,
    Function.update states.data destination (leftFactor • states.data left + rightFactor • states.data right)⟩

/-- One operation. -/
def FluxOperation.run (settings : FluxSettings B) (states : FluxStates F B M) :
    FluxOperation F → Checked (FluxStates F B M)
  | axpy destination factor source => do
    let coefficient ← exactRuntimeAxpyCoefficient settings states factor source
    axpyWith settings states destination factor source coefficient
  | exactAxpy destination factor source referenceDt terms => do
    let coefficient ← exactCoefficient settings.currentDt factor referenceDt terms
    axpyWith settings states destination factor source coefficient
  | lincomb destination leftFactor left rightFactor right => do
    let leftCoefficient ← exactRuntimeCoefficient leftFactor
    let rightCoefficient ← exactRuntimeCoefficient rightFactor
    lincombWith settings states destination leftFactor left leftCoefficient rightFactor right rightCoefficient
  | exactLincomb destination leftFactor left rightFactor right referenceDt leftTerms rightTerms => do
    let leftCoefficient ← exactCoefficient settings.currentDt leftFactor referenceDt leftTerms
    let rightCoefficient ← exactCoefficient settings.currentDt rightFactor referenceDt rightTerms
    lincombWith settings states destination leftFactor left leftCoefficient rightFactor right rightCoefficient
  | commit commits => do
    throwIf (¬ (commits.map Prod.fst).Nodup)
      (.invalidArgument "AMR Program commit has null or duplicate storage")
    return ⟨commits.foldl (fun expressions pair => Function.update expressions pair.1 (states.expressions pair.2))
        states.expressions,
      commits.foldl (fun data pair => Function.update data pair.1 (states.data pair.2)) states.data⟩

/-- A run of operations. -/
def runFluxOperations (settings : FluxSettings B) (states : FluxStates F B M) (operations : List (FluxOperation F)) :
    Checked (FluxStates F B M) :=
  operations.foldlM (FluxOperation.run settings) states

end Pops
