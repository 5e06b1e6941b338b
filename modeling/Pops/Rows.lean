import Mathlib.Data.Set.Finite.Basic
import Pops.Checked

/-!
Rows that are checked one after the other, each next to those before it, and
relations that lead up from a row to one root. Nothing here models a particular
component.
-/
namespace Pops

section Checks
variable {ε α : Type} {check : List α → α → Except ε Unit} {each : α → Prop} {apart : α → α → Prop}

/-- A loop over rows that checks each of them next to those before it. -/
def checkEach (check : List α → α → Except ε Unit) : List α → List α → Except ε Unit
  | _, [] => .ok ()
  | seen, row :: rows => do
    check seen row
    checkEach check (seen ++ [row]) rows

theorem checkEach_after (checks : ∀ seen row, check seen row = .ok () ↔ each row ∧ ∀ known ∈ seen, apart known row)
    (seen rows : List α) : checkEach check seen rows = .ok () ↔
      (∀ row ∈ rows, each row) ∧ rows.Pairwise apart ∧ ∀ known ∈ seen, ∀ row ∈ rows, apart known row := by
  induction rows generalizing seen with
  | nil => simp [checkEach]
  | cons row rows ih =>
    simp only [checkEach, bind_ok, unit_exists, checks, ih, List.forall_mem_cons, List.pairwise_cons,
      List.forall_mem_append, List.mem_nil_iff, false_implies, implies_true, and_true]
    constructor
    · rintro ⟨⟨here, fresh⟩, later, pairs, before, after⟩
      exact ⟨⟨here, later⟩, ⟨after, pairs⟩, fun known listed => ⟨fresh known listed, before known listed⟩⟩
    · rintro ⟨⟨here, later⟩, ⟨after, pairs⟩, before⟩
      exact ⟨⟨here, fun known listed => (before known listed).1⟩, later, pairs,
        fun known listed => (before known listed).2, after⟩

theorem checkEach_ok (checks : ∀ seen row, check seen row = .ok () ↔ each row ∧ ∀ known ∈ seen, apart known row)
    {rows : List α} : checkEach check [] rows = .ok () ↔ (∀ row ∈ rows, each row) ∧ rows.Pairwise apart := by
  rw [checkEach_after checks]
  simp

end Checks

section Ascent
variable {α : Type} (above : α → α → Prop) (rank : α → ℤ)

theorem rank_of_transGen (falls : ∀ child parent, above child parent → rank parent ≤ rank child) {start stop : α}
    (way : Relation.TransGen above start stop) : rank stop ≤ rank start ∧
      (rank stop = rank start →
        Relation.TransGen (fun child parent => above child parent ∧ rank parent = rank child) start stop) := by
  induction way with
  | single step => exact ⟨falls _ _ step, fun same => .single ⟨step, same⟩⟩
  | tail way step ih =>
    have last := falls _ _ step
    obtain ⟨first, level⟩ := ih
    exact ⟨last.trans first, fun same => (level (by omega)).tail ⟨step, by omega⟩⟩

/-- Where every item of a finite set but the root has one above it in the set
and no way up returns, a property of the root that goes down holds of them all. -/
theorem ascent_induction {items : Set α} (finite : items.Finite) (root : α)
    (up : ∀ item ∈ items, item ≠ root → ∃ parent ∈ items, above item parent)
    (acyclic : ∀ item ∈ items, ¬ Relation.TransGen above item item) {holds : α → Prop} (atRoot : holds root)
    (down : ∀ item parent, item ∈ items → item ≠ root → above item parent → holds parent → holds item) :
    ∀ item ∈ items, holds item := by
  have : Finite items := finite
  let below (lower upper : items) : Prop := Relation.TransGen above upper.1 lower.1
  have transitive : IsTrans items below := ⟨fun _ _ _ first second => second.trans first⟩
  have irreflexive : Std.Irrefl below := ⟨fun item => acyclic item.1 item.2⟩
  have wellFounded : WellFounded below := Finite.wellFounded_of_trans_of_irrefl below
  intro item listed
  refine wellFounded.induction (C := fun item => holds item.1) ⟨item, listed⟩ ?_
  rintro ⟨item, listed⟩ ih
  by_cases root : item = root
  · exact root ▸ atRoot
  · obtain ⟨parent, known, step⟩ := up item listed root
    exact down item parent listed root step (ih ⟨parent, known⟩ (.single step))

end Ascent

end Pops
