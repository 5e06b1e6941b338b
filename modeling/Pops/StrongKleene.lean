import Mathlib.Data.List.Basic

/-!
Strong Kleene logic: three truth values, expressions over labelled atoms with
negation and connectives of any number of operands, and the order of information.
What an expression already decides no further knowledge of its atoms changes.
-/
namespace Pops.StrongKleene

inductive Truth
  | no
  | yes
  | unknown
  deriving DecidableEq, Repr

namespace Truth

def neg : Truth → Truth
  | no => yes
  | yes => no
  | unknown => unknown

def or : Truth → Truth → Truth
  | yes, _ => yes
  | _, yes => yes
  | no, no => no
  | _, _ => unknown

def and : Truth → Truth → Truth
  | no, _ => no
  | _, no => no
  | yes, yes => yes
  | _, _ => unknown

def any (values : List Truth) : Truth := values.foldr or no

def all (values : List Truth) : Truth := values.foldr and yes

/-- The first value knows nothing the second denies. -/
def Below (weak strong : Truth) : Prop := weak = unknown ∨ weak = strong

theorem any_eq (values : List Truth) :
    any values = if yes ∈ values then yes else if unknown ∈ values then unknown else no := by
  induction values with
  | nil => rfl
  | cons head values ih =>
    rw [any, List.foldr_cons, ← any, ih]
    cases head <;> by_cases some : yes ∈ values <;> by_cases open' : unknown ∈ values <;> simp [some, open', or]

theorem all_eq (values : List Truth) :
    all values = if no ∈ values then no else if unknown ∈ values then unknown else yes := by
  induction values with
  | nil => rfl
  | cons head values ih =>
    rw [all, List.foldr_cons, ← all, ih]
    cases head <;> by_cases some : no ∈ values <;> by_cases open' : unknown ∈ values <;> simp [some, open', and]

theorem neg_mono {weak strong : Truth} (below : Below weak strong) : Below weak.neg strong.neg := by
  rcases below with rfl | rfl
  · exact .inl rfl
  · exact .inr rfl

theorem or_mono {left right weak strong : Truth} (first : Below left weak) (second : Below right strong) :
    Below (left.or right) (weak.or strong) := by
  rcases first with rfl | rfl <;> rcases second with rfl | rfl
  · exact .inl rfl
  · cases right <;> cases weak <;> simp [or, Below]
  · cases left <;> cases strong <;> simp [or, Below]
  · exact .inr rfl

theorem and_mono {left right weak strong : Truth} (first : Below left weak) (second : Below right strong) :
    Below (left.and right) (weak.and strong) := by
  rcases first with rfl | rfl <;> rcases second with rfl | rfl
  · exact .inl rfl
  · cases right <;> cases weak <;> simp [and, Below]
  · cases left <;> cases strong <;> simp [and, Below]
  · exact .inr rfl

theorem any_mono {weak strong : List Truth} (below : List.Forall₂ Below weak strong) : Below (any weak) (any strong) := by
  induction below with
  | nil => exact .inr rfl
  | cons head _ ih => exact or_mono head ih

theorem all_mono {weak strong : List Truth} (below : List.Forall₂ Below weak strong) : Below (all weak) (all strong) := by
  induction below with
  | nil => exact .inr rfl
  | cons head _ ih => exact and_mono head ih

end Truth

open Truth

inductive Expression (ι : Type)
  | atom (label : ι)
  | negation (operand : Expression ι)
  | anyOf (operands : List (Expression ι))
  | allOf (operands : List (Expression ι))

variable {ι : Type}

mutual

def Expression.value (assignment : ι → Truth) : Expression ι → Truth
  | .atom label => assignment label
  | .negation operand => (operand.value assignment).neg
  | .anyOf operands => any (values assignment operands)
  | .allOf operands => all (values assignment operands)

def values (assignment : ι → Truth) : List (Expression ι) → List Truth
  | [] => []
  | operand :: operands => operand.value assignment :: values assignment operands

end

mutual

/-- The atoms of an expression, from left to right. -/
def Expression.labels : Expression ι → List ι
  | .atom label => [label]
  | .negation operand => operand.labels
  | .anyOf operands => labelsAll operands
  | .allOf operands => labelsAll operands

def labelsAll : List (Expression ι) → List ι
  | [] => []
  | operand :: operands => operand.labels ++ labelsAll operands

end

theorem values_eq_map (assignment : ι → Truth) (operands : List (Expression ι)) :
    values assignment operands = operands.map fun operand => operand.value assignment := by
  induction operands with
  | nil => rfl
  | cons operand operands ih => rw [values, ih, List.map_cons]

theorem labelsAll_append (front back : List (Expression ι)) :
    labelsAll (front ++ back) = labelsAll front ++ labelsAll back := by
  induction front with
  | nil => rfl
  | cons operand front ih => rw [List.cons_append, labelsAll, labelsAll, ih, List.append_assoc]

mutual

theorem value_mono {weak strong : ι → Truth} (below : ∀ label, Below (weak label) (strong label)) :
    ∀ expression : Expression ι, Below (expression.value weak) (expression.value strong)
  | .atom label => below label
  | .negation operand => neg_mono (value_mono below operand)
  | .anyOf operands => any_mono (values_mono below operands)
  | .allOf operands => all_mono (values_mono below operands)

theorem values_mono {weak strong : ι → Truth} (below : ∀ label, Below (weak label) (strong label)) :
    ∀ operands : List (Expression ι), List.Forall₂ Below (values weak operands) (values strong operands)
  | [] => .nil
  | operand :: operands => .cons (value_mono below operand) (values_mono below operands)

end

/-- A definite value stays what it is however the unknown atoms turn out. -/
theorem value_of_definite {assignment refined : ι → Truth} {expression : Expression ι}
    (definite : expression.value assignment ≠ unknown)
    (agree : ∀ label, assignment label ≠ unknown → refined label = assignment label) :
    expression.value refined = expression.value assignment := by
  have below (label : ι) : Below (assignment label) (refined label) := by
    by_cases known : assignment label = unknown
    · exact .inl known
    · exact .inr (agree label known).symm
  exact ((value_mono below expression).resolve_left definite).symm

end Pops.StrongKleene
