import Pops.Checked

/-!
Member functions of a mutable object that may throw: what the call returned or
threw, and the object it left behind. An exception keeps whatever was changed
before it, as in the source; that nothing was is something to prove.
-/
namespace Pops

/-- A call on an object of type `σ`. -/
def Member (σ α : Type) : Type := σ → Checked α × σ

namespace Member
variable {σ α β : Type}

instance : Monad (Member σ) where
  pure value := fun object => (.ok value, object)
  bind call next := fun object =>
    match call object with
    | (.ok value, changed) => next value changed
    | (.error exception, changed) => (.error exception, changed)

/-- The object as it is. -/
def get : Member σ σ := fun object => (.ok object, object)

/-- Change the object. -/
def modify (change : σ → σ) : Member σ Unit := fun object => (.ok (), change object)

/-- A computation that does not touch the object. -/
def lift (result : Checked α) : Member σ α := fun object => (result, object)

/-- `if (condition) throw exception;`. -/
def throwIf (condition : Prop) [Decidable condition] (exception : Exception) : Member σ Unit :=
  lift (Pops.throwIf condition exception)

variable {object : σ}

/-- Peel one step off a call that returned. -/
theorem bind_ok {call : Member σ α} {next : α → Member σ β} {result : β} {after : σ} :
    (call >>= next) object = (.ok result, after) ↔
      ∃ value middle, call object = (.ok value, middle) ∧ next value middle = (.ok result, after) := by
  show (match call object with
    | (.ok value, changed) => next value changed
    | (.error exception, changed) => (.error exception, changed)) = _ ↔ _
  generalize call object = called
  obtain ⟨outcome, changed⟩ := called
  cases outcome with
  | error exception => simp
  | ok value => simp

@[simp]
theorem pure_ok {value result : α} {after : σ} :
    (pure value : Member σ α) object = (.ok result, after) ↔ value = result ∧ object = after := by
  simp [pure]

@[simp]
theorem get_ok {result after : σ} : get object = (.ok result, after) ↔ object = result ∧ object = after := by
  simp [get]

@[simp]
theorem modify_ok {change : σ → σ} {result : Unit} {after : σ} :
    modify change object = (.ok result, after) ↔ change object = after := by
  simp [modify]

@[simp]
theorem lift_ok {outcome : Checked α} {result : α} {after : σ} :
    lift outcome object = (.ok result, after) ↔ outcome = .ok result ∧ object = after := by
  simp [lift]

@[simp]
theorem throwIf_ok {condition : Prop} [Decidable condition] {exception : Exception} {result : Unit}
    {after : σ} : throwIf condition exception object = (.ok result, after) ↔ ¬ condition ∧ object = after := by
  simp [throwIf]

/-- A call that throws leaves the object as it was. -/
def Safe (call : Member σ α) (object : σ) : Prop :=
  ∀ exception, (call object).1 = .error exception → (call object).2 = object

/-- A call that cannot throw is safe. -/
theorem Safe.returns {call : Member σ α} {result : α} (returned : (call object).1 = .ok result) :
    Safe call object := by
  intro exception thrown
  rw [returned] at thrown
  cases thrown

theorem Safe.get_bind {next : σ → Member σ β} (after : Safe (next object) object) :
    Safe (Member.get >>= next) object := after

/-- What follows a computation that leaves the object alone is safe when it is
safe alone. -/
theorem Safe.lift_bind {outcome : Checked α} {next : α → Member σ β}
    (after : ∀ value, outcome = .ok value → Safe (next value) object) :
    Safe (Member.lift outcome >>= next) object := by
  cases outcome with
  | error exception => exact fun _ _ => rfl
  | ok value => exact after value rfl

theorem Safe.throwIf_bind {condition : Prop} [Decidable condition] {exception : Exception}
    {next : Unit → Member σ β} (after : ¬ condition → Safe (next ()) object) :
    Safe (Member.throwIf condition exception >>= next) object :=
  .lift_bind fun _ passed => after (Pops.throwIf_ok.mp passed)

/-- A safe call may be followed by what cannot throw. -/
theorem Safe.bind_returns {call : Member σ α} {next : α → Member σ β} (safe : Safe call object)
    (returned : ∀ value changed, ∃ result, (next value changed).1 = .ok result) :
    Safe (call >>= next) object := by
  intro exception thrown
  have kept := safe exception
  change (match call object with
    | (.ok value, changed) => next value changed
    | (.error exception, changed) => (.error exception, changed)).1 = _ at thrown
  change (match call object with
    | (.ok value, changed) => next value changed
    | (.error exception, changed) => (.error exception, changed)).2 = _
  generalize call object = called at *
  obtain ⟨outcome, changed⟩ := called
  cases outcome with
  | error failure =>
    cases thrown
    exact kept rfl
  | ok value =>
    obtain ⟨result, ok⟩ := returned value changed
    rw [ok] at thrown
    cases thrown

theorem Safe.ite {condition : Prop} [Decidable condition] {call other : Member σ α}
    (yes : condition → Safe call object) (no : ¬ condition → Safe other object) :
    Safe (if condition then call else other) object := by
  split
  · exact yes ‹_›
  · exact no ‹_›

end Member

end Pops
