import Mathlib.Algebra.BigOperators.Group.List.Basic
import Mathlib.Order.Lattice

/-!
Maps kept as sorted lists of keys, where two keys are the same when neither is
below the other.
-/
namespace Pops

variable {κ ν : Type}

namespace OrderedMap

/-- The value at a key. -/
def find (less : κ → κ → Bool) (key : κ) : List (κ × ν) → Option ν
  | [] => none
  | (other, value) :: rest =>
    if less key other then none else if less other key then find less key rest else some value

/-- Change the value at a key, which is added where it belongs. -/
def update (less : κ → κ → Bool) (key : κ) (change : Option ν → ν) : List (κ × ν) → List (κ × ν)
  | [] => [(key, change none)]
  | (other, value) :: rest =>
    if less key other then (key, change none) :: (other, value) :: rest
    else if less other key then (other, value) :: update less key change rest
    else (other, change (some value)) :: rest

/-- Remove a key. -/
def erase (less : κ → κ → Bool) (key : κ) : List (κ × ν) → List (κ × ν)
  | [] => []
  | (other, value) :: rest =>
    if less key other then (other, value) :: rest
    else if less other key then (other, value) :: erase less key rest
    else rest

theorem erase_sublist (less : κ → κ → Bool) (key : κ) (entries : List (κ × ν)) :
    (erase less key entries).Sublist entries := by
  induction entries with
  | nil => exact .slnil
  | cons head rest ih =>
    obtain ⟨other, value⟩ := head
    simp only [erase]
    split
    · exact .refl _
    · split
      · exact ih.cons_cons _
      · exact .cons _ (.refl _)

section
variable [LinearOrder κ] {less : κ → κ → Bool} (decides : ∀ left right, less left right = true ↔ left < right)
  {key : κ} {change : Option ν → ν} {entries : List (κ × ν)}
include decides

/-- What an update may add. -/
theorem update_mem {entry : κ × ν} (listed : entry ∈ update less key change entries) :
    (entry.1 = key ∧ ∃ old, entry.2 = change old) ∨ entry ∈ entries := by
  induction entries with
  | nil =>
    rw [List.mem_singleton.mp listed]
    exact .inl ⟨rfl, none, rfl⟩
  | cons head rest ih =>
    obtain ⟨other, value⟩ := head
    simp only [update, decides] at listed
    split at listed
    · rcases List.mem_cons.mp listed with rfl | later
      · exact .inl ⟨rfl, none, rfl⟩
      · exact .inr later
    · split at listed
      · rcases List.mem_cons.mp listed with rfl | later
        · exact .inr (by simp)
        · rcases ih later with added | known
          · exact .inl added
          · exact .inr (by simp [known])
      · rename_i notBelow notAbove
        have same : other = key := le_antisymm (not_lt.mp notBelow) (not_lt.mp notAbove)
        rcases List.mem_cons.mp listed with rfl | later
        · exact .inl ⟨same, some value, rfl⟩
        · exact .inr (by simp [later])

/-- An update keeps the keys in order. -/
theorem update_ordered (ordered : entries.Pairwise fun left right => left.1 < right.1) :
    (update less key change entries).Pairwise fun left right => left.1 < right.1 := by
  induction ordered with
  | nil => simp [update]
  | @cons head rest above tail ih =>
    obtain ⟨other, value⟩ := head
    simp only [update, decides]
    split
    · rename_i below
      refine List.pairwise_cons.mpr ⟨fun entry listed => ?_, List.pairwise_cons.mpr ⟨above, tail⟩⟩
      rcases List.mem_cons.mp listed with rfl | later
      · exact below
      · exact below.trans (above entry later)
    · split
      · rename_i under
        refine List.pairwise_cons.mpr ⟨fun entry listed => ?_, ih⟩
        rcases update_mem decides listed with added | later
        · rw [added.1]
          exact under
        · exact above entry later
      · exact List.pairwise_cons.mpr ⟨above, tail⟩

/-- A key above all others goes last. -/
theorem update_last (above : ∀ entry ∈ entries, entry.1 < key) :
    update less key change entries = entries ++ [(key, change none)] := by
  induction entries with
  | nil => rfl
  | cons head rest ih =>
    obtain ⟨other, value⟩ := head
    have under : other < key := above (other, value) (by simp)
    simp only [update, decides]
    rw [if_neg under.asymm, if_pos under, ih fun entry later => above entry (by simp [later])]
    rfl

theorem find_update_self : find less key (update less key change entries) = some (change (find less key entries)) := by
  have irreflexive : less key key = false := by
    rw [← Bool.not_eq_true, decides]
    exact lt_irrefl key
  induction entries with
  | nil => simp [find, update, irreflexive]
  | cons head rest ih =>
    obtain ⟨other, value⟩ := head
    simp only [update, find]
    by_cases below : less key other = true
    · simp [below, find, irreflexive]
    · by_cases above : less other key = true
      · simp [below, above, find, ih]
      · simp [below, above, find]

theorem find_update_ne {asked : κ} (different : asked ≠ key) :
    find less asked (update less key change entries) = find less asked entries := by
  induction entries with
  | nil =>
    simp only [update, find]
    split
    · rfl
    · rename_i notBelow
      rw [decides, not_lt] at notBelow
      rw [if_pos ((decides key asked).mpr (lt_of_le_of_ne notBelow (Ne.symm different)))]
  | cons head rest ih =>
    obtain ⟨other, value⟩ := head
    simp only [update]
    by_cases below : less key other = true
    · rw [if_pos below]
      rw [decides] at below
      simp only [find, decides]
      rcases lt_trichotomy asked key with lower | same | upper
      · rw [if_pos lower, if_pos (lower.trans below)]
      · exact absurd same different
      · rw [if_neg upper.asymm, if_pos upper]
    · rw [if_neg below]
      by_cases above : less other key = true
      · rw [if_pos above]
        simp only [find, ih]
      · rw [if_neg above]
        rw [decides, not_lt] at below above
        have same : other = key := le_antisymm below above
        subst same
        simp only [find, decides]
        rcases lt_or_gt_of_ne different with lower | upper
        · rw [if_pos lower, if_pos lower]
        · rw [if_neg upper.asymm, if_pos upper, if_neg upper.asymm, if_pos upper]

/-- Looking a key up finds its entry. -/
theorem find_eq_some {value : ν} (ordered : entries.Pairwise fun left right => left.1 < right.1) :
    find less key entries = some value ↔ (key, value) ∈ entries := by
  induction ordered with
  | nil => simp [find]
  | @cons head rest above tail ih =>
    obtain ⟨other, here⟩ := head
    simp only [find, decides, List.mem_cons, Prod.mk.injEq]
    split
    · rename_i below
      simp only [reduceCtorEq, false_iff, not_or, not_and]
      refine ⟨fun same => absurd same below.ne, fun listed => ?_⟩
      exact absurd (below.trans (above _ listed)) (lt_irrefl key)
    · rename_i notBelow
      split
      · rename_i upper
        rw [ih]
        exact ⟨.inr, fun found => found.resolve_left fun same => upper.ne same.1.symm⟩
      · rename_i notOver
        have same : key = other := le_antisymm (not_lt.mp notOver) (not_lt.mp notBelow)
        subst same
        rw [Option.some.injEq, eq_comm]
        refine ⟨fun found => .inl ⟨rfl, found⟩, fun found => ?_⟩
        rcases found with ⟨-, found⟩ | later
        · exact found
        · exact absurd (above _ later) (lt_irrefl key)

/-- A fresh key adds one entry. -/
theorem update_length (fresh : ∀ entry ∈ entries, entry.1 ≠ key) :
    (update less key change entries).length = entries.length + 1 := by
  induction entries with
  | nil => rfl
  | cons head rest ih =>
    obtain ⟨other, value⟩ := head
    have different : other ≠ key := fresh (other, value) (by simp)
    simp only [update, decides]
    split
    · rfl
    · rename_i notBelow
      rw [if_pos (lt_of_le_of_ne (not_lt.mp notBelow) different), List.length_cons, List.length_cons,
        ih fun entry later => fresh entry (by simp [later])]

/-- A fresh key adds its entry. -/
theorem update_perm (fresh : ∀ entry ∈ entries, entry.1 ≠ key) :
    (update less key change entries).Perm ((key, change none) :: entries) := by
  induction entries with
  | nil => exact .refl _
  | cons head rest ih =>
    obtain ⟨other, value⟩ := head
    have different : other ≠ key := fresh (other, value) (by simp)
    simp only [update, decides]
    split
    · exact .refl _
    · rename_i notBelow
      rw [if_pos (lt_of_le_of_ne (not_lt.mp notBelow) different)]
      exact ((ih fun entry later => fresh entry (by simp [later])).cons _).trans (.swap ..)

/-! Sums over the entries, in an additive commutative monoid. -/

variable {M : Type*} [AddCommMonoid M] (weight : κ → ν → M)

/-- An update replaces the weight of its key. -/
theorem sum_update :
    ((update less key change entries).map fun entry => weight entry.1 entry.2).sum +
        (find less key entries).elim 0 (weight key) =
      (entries.map fun entry => weight entry.1 entry.2).sum + weight key (change (find less key entries)) := by
  induction entries with
  | nil => simp [update, find]
  | cons head rest ih =>
    obtain ⟨other, value⟩ := head
    simp only [update, find]
    split
    · simp [add_comm]
    · split
      · rw [List.map_cons, List.sum_cons, List.map_cons, List.sum_cons, add_assoc, add_assoc, ih]
      · rename_i notBelow notAbove
        rw [decides, not_lt] at notBelow notAbove
        have same : other = key := le_antisymm notBelow notAbove
        subst same
        simp only [Option.elim_some, List.map_cons, List.sum_cons]
        rw [add_comm (weight other (change (some value))), add_comm (weight other value), add_right_comm]

/-- A removed key takes its weight away. -/
theorem sum_erase :
    ((erase less key entries).map fun entry => weight entry.1 entry.2).sum +
        (find less key entries).elim 0 (weight key) =
      (entries.map fun entry => weight entry.1 entry.2).sum := by
  induction entries with
  | nil => simp [erase, find]
  | cons head rest ih =>
    obtain ⟨other, value⟩ := head
    simp only [erase, find]
    split
    · simp
    · split
      · rw [List.map_cons, List.sum_cons, List.map_cons, List.sum_cons, add_assoc, ih]
      · rename_i notBelow notAbove
        rw [decides, not_lt] at notBelow notAbove
        have same : other = key := le_antisymm notBelow notAbove
        subst same
        simp only [Option.elim_some, List.map_cons, List.sum_cons]
        exact add_comm _ _

end

end OrderedMap

end Pops
