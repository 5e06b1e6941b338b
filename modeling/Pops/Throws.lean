import Pops.Checked

/-!
Which exceptions a checked computation can throw. A computation throws only what
its parts throw; a part after a step that returned may rely on what it returned.
-/
namespace Pops

variable {α β : Type}

/-- Whatever the computation throws satisfies the predicate. -/
def Throws (allowed : Exception → Prop) (x : Checked α) : Prop := ∀ exception, x = .error exception → allowed exception

namespace Throws
variable {allowed : Exception → Prop}

theorem ok (a : α) : Throws allowed (.ok a : Checked α) := fun _ thrown => nomatch thrown

theorem pure (a : α) : Throws allowed (Pure.pure a : Checked α) := ok a

theorem throwIf {condition : Prop} [Decidable condition] {exception : Exception}
    (may : condition → allowed exception) : Throws allowed (Pops.throwIf condition exception) := by
  intro thrown same
  unfold Pops.throwIf at same
  split at same
  · rename_i holds
    cases same
    exact may holds
  · cases same

theorem bind {x : Checked α} {f : α → Checked β} (first : Throws allowed x)
    (rest : ∀ a, x = .ok a → Throws allowed (f a)) : Throws allowed (x >>= f) := by
  intro thrown same
  cases ran : x with
  | error exception =>
    rw [ran] at same
    cases same
    exact first thrown ran
  | ok a =>
    rw [ran] at same
    exact rest a ran thrown same

theorem mono {other : Exception → Prop} {x : Checked α} (throws : Throws allowed x)
    (weaker : ∀ exception, allowed exception → other exception) : Throws other x :=
  fun exception thrown => weaker exception (throws exception thrown)

theorem foldlM {step : β → α → Checked β} (each : ∀ state item, Throws allowed (step state item)) (items : List α)
    (start : β) : Throws allowed (items.foldlM step start) := by
  induction items generalizing start with
  | nil => exact ok start
  | cons item items ih =>
    rw [List.foldlM_cons]
    exact bind (each start item) fun state _ => ih state

theorem mapM {f : α → Checked β} (each : ∀ item, Throws allowed (f item)) (items : List α) :
    Throws allowed (items.mapM f) := by
  induction items with
  | nil => exact ok []
  | cons item items ih =>
    rw [List.mapM_cons]
    exact bind (each item) fun _ _ => bind ih fun _ _ => pure _

theorem forM {f : α → Checked Unit} (each : ∀ item, Throws allowed (f item)) (items : List α) :
    Throws allowed (items.forM f) := by
  induction items with
  | nil => exact ok ()
  | cons item items ih =>
    exact bind (each item) fun _ _ => ih

theorem thrown {x : Checked α} (throws : Throws allowed x) (fails : ∀ a, x ≠ .ok a) :
    ∃ exception, x = .error exception ∧ allowed exception := by
  cases ran : x with
  | error exception => exact ⟨exception, rfl, throws exception ran⟩
  | ok a => exact absurd ran (fails a)

end Throws

end Pops
