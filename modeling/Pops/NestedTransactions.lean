import Mathlib.Data.List.Basic

/-!
Nested transactions that collect entries. A transaction closes into the one
around it, and only the outermost one publishes; abandoning a transaction drops
what it collected and nothing else. A store that keeps all collected entries in
one list needs a size for each open transaction to be able to do the same.
-/
namespace Pops

variable {α σ : Type}

/-- The open transactions, innermost first, with the entries each collected,
and the published entries. -/
structure NestedTransactions (α : Type) where
  frames : List (List α) := []
  published : List α := []

namespace NestedTransactions

/-- The collected entries of the open transactions, in order. -/
def pendingOf (frames : List (List α)) : List α := frames.reverse.flatten

def pending (state : NestedTransactions α) : List α := pendingOf state.frames

def opened (state : NestedTransactions α) : NestedTransactions α :=
  { state with frames := [] :: state.frames }

/-- Collect an entry in the innermost transaction. -/
def record (entry : α) (state : NestedTransactions α) : NestedTransactions α :=
  match state.frames with
  | [] => state
  | frame :: around => { state with frames := (frame ++ [entry]) :: around }

/-- Close the innermost transaction; the outermost one publishes. -/
def closed (publish : List α → List α → List α) (state : NestedTransactions α) : NestedTransactions α :=
  match state.frames with
  | [] => state
  | [frame] => { frames := [], published := publish state.published frame }
  | frame :: parent :: around => { state with frames := (parent ++ frame) :: around }

def abandoned (state : NestedTransactions α) : NestedTransactions α :=
  { state with frames := state.frames.tail }

@[simp]
theorem pendingOf_nil : pendingOf ([] : List (List α)) = [] := rfl

@[simp]
theorem pendingOf_cons (frame : List α) (around : List (List α)) :
    pendingOf (frame :: around) = pendingOf around ++ frame := by
  simp [pendingOf]

section
variable {state : NestedTransactions α} {entry : α} {frame parent : List α} {around : List (List α)}

@[simp]
theorem pending_opened : state.opened.pending = state.pending := by
  simp [opened, pending]

@[simp]
theorem published_record : (state.record entry).published = state.published := by
  unfold record
  split <;> rfl

theorem frames_record_ne_nil (active : state.frames ≠ []) : (state.record entry).frames ≠ [] := by
  unfold record
  split
  · contradiction
  · exact List.cons_ne_nil _ _

theorem pending_record (active : state.frames ≠ []) :
    (state.record entry).pending = state.pending ++ [entry] := by
  unfold record
  cases frames : state.frames with
  | nil => exact absurd frames active
  | cons frame around => simp [pending, frames]

theorem closed_nested {publish : List α → List α → List α} (frames : state.frames = frame :: parent :: around) :
    state.closed publish = { state with frames := (parent ++ frame) :: around } := by
  simp [closed, frames]

theorem closed_outermost {publish : List α → List α → List α} (frames : state.frames = [frame]) :
    state.closed publish = { frames := [], published := publish state.published frame } := by
  simp [closed, frames]

end

/-- The sizes taken when the open transactions started, innermost first. -/
inductive Marks (size : List α → σ) : List σ → List (List α) → Prop
  | nil : Marks size [] []
  | cons (frame : List α) {sizes : List σ} {around : List (List α)} (outer : Marks size sizes around) :
      Marks size (size (pendingOf around) :: sizes) (frame :: around)

namespace Marks
variable {size : List α → σ} {sizes : List σ} {frames : List (List α)}

theorem length_eq (marks : Marks size sizes frames) : sizes.length = frames.length := by
  induction marks with
  | nil => rfl
  | cons frame outer ih => simp [ih]

theorem replace {frame other : List α} {around : List (List α)} (marks : Marks size sizes (frame :: around)) :
    Marks size sizes (other :: around) := by
  cases marks with
  | cons _ outer => exact .cons other outer

theorem record {state : NestedTransactions α} {entry : α} (marks : Marks size sizes state.frames) :
    Marks size sizes (state.record entry).frames := by
  unfold NestedTransactions.record
  split
  · exact marks
  · rename_i frames
    rw [frames] at marks
    exact marks.replace

theorem drop {mark : σ} {frame : List α} (marks : Marks size (mark :: sizes) (frame :: frames)) :
    mark = size (pendingOf frames) ∧ Marks size sizes frames := by
  cases marks with
  | cons _ outer => exact ⟨rfl, outer⟩

end Marks

end NestedTransactions

end Pops
