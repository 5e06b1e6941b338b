import Pops.BoxArray

/-!
`mesh/layout/rank_space.hpp` and `mesh/layout/distribution.hpp`: the Cartesian
process space and the ownership of patches over it. Both structures carry what
their constructors check.
-/
namespace Pops
open MixedRadix

/-- One axis of the first loop of `checked_size_`. -/
def RankSpace.checkAxis {d : ℕ} (origin : Index d) (extent : Extent d) (axis : Fin d) : Checked Unit := do
  throwIf (extent axis < 0) (.invalidArgument "RankSpace extents must be non-negative")
  throwIf (extent axis ≠ 0 ∧ extent axis - 1 > intMax - origin axis)
    (.overflowError "RankSpace coordinate extent exceeds signed indices")

/-- A half-open Cartesian process space. -/
structure RankSpace (d : ℕ) where
  origin : Index d
  extent : Extent d
  originFits : ∀ axis, FitsInt (origin axis)
  checked : ∀ axis, RankSpace.checkAxis origin extent axis = .ok ()
  deriving DecidableEq

namespace RankSpace
variable {d : ℕ}

/-- The process counts per axis, `static_cast<size_t>(extent_[axis])`. -/
def counts (space : RankSpace d) (axis : Fin d) : ℕ := (space.extent axis).toNat

/-- `size()`; a space with an empty axis has no process. -/
def size (space : RankSpace d) : ℕ := volume space.counts (List.finRange d)

def Contains (space : RankSpace d) (coordinate : Index d) : Prop :=
  space.size ≠ 0 ∧ ∀ axis, 0 ≤ coordinate axis - space.origin axis ∧
    coordinate axis - space.origin axis < space.extent axis

instance (space : RankSpace d) (coordinate : Index d) : Decidable (space.Contains coordinate) :=
  inferInstanceAs (Decidable (_ ∧ _))

/-- The offset of a coordinate from the origin. -/
def offset (space : RankSpace d) (coordinate : Index d) (axis : Fin d) : ℕ :=
  (coordinate axis - space.origin axis).toNat

def linearRank (space : RankSpace d) (coordinate : Index d) : Checked ℕ := do
  throwIf (¬ space.Contains coordinate)
    (.outOfRange "RankSpace coordinate is outside the process space")
  return strided space.counts (space.offset coordinate) (List.finRange d) 0 1

def coordinate (space : RankSpace d) (rank : ℕ) : Checked (Index d) := do
  throwIf (rank ≥ space.size) (.outOfRange "RankSpace linear rank is outside the process space")
  return fun axis => castInt
    (space.origin axis + (decode space.counts (List.finRange d) rank fun _ => 0).1 axis)

variable {space : RankSpace d} {rank : ℕ}

theorem fits_of_digit {axis : Fin d} {digit : ℕ} (within : digit < space.counts axis) :
    FitsInt (space.origin axis + digit) := by
  have checked := space.checked axis
  simp only [checkAxis, bind_ok, throwIf_ok, unit_exists, not_lt, not_and, ne_eq] at checked
  obtain ⟨-, room⟩ := checked
  have low := (space.originFits axis).1
  unfold counts at within
  have last := room (by omega)
  unfold FitsInt
  unfold intMin intMax at *
  omega

theorem coordinate_ok {result : Index d} (ran : space.coordinate rank = .ok result) :
    rank < space.size ∧ ∀ axis, result axis =
      space.origin axis + (decode space.counts (List.finRange d) rank fun _ => 0).1 axis := by
  simp only [coordinate, bind_ok, throwIf_ok, unit_exists, pure_ok, not_le] at ran
  obtain ⟨below, rfl⟩ := ran
  refine ⟨below, fun axis => castInt_of_fits (fits_of_digit ?_)⟩
  have positive (a : Fin d) : 0 < space.counts a := by
    apply Nat.pos_of_ne_zero
    intro zero
    have none : space.size = 0 := by
      rw [size, volume, List.prod_eq_zero_iff, List.mem_map]
      exact ⟨a, List.mem_finRange a, zero⟩
    omega
  exact decode_lt (fun a _ => positive a) (List.mem_finRange axis) _ _

theorem coordinate_linearRank {coordinate : Index d}
    (ranked : space.linearRank coordinate = .ok rank) {result : Index d}
    (ran : space.coordinate rank = .ok result) : result = coordinate := by
  simp only [linearRank, bind_ok, throwIf_ok, unit_exists, pure_ok, not_not, strided_eq_encode,
    zero_add, one_mul] at ranked
  obtain ⟨inside, rfl⟩ := ranked
  obtain ⟨-, digits⟩ := coordinate_ok ran
  have within (axis : Fin d) : space.offset coordinate axis < space.counts axis := by
    have := inside.2 axis
    unfold offset counts
    omega
  funext axis
  rw [digits axis, decode_encode (List.nodup_finRange d) (fun a _ => within a) _ (List.mem_finRange axis)]
  have := inside.2 axis
  unfold offset
  omega

theorem coordinate_injective {other : ℕ} {result : Index d} (ran : space.coordinate rank = .ok result)
    (otherRan : space.coordinate other = .ok result) : rank = other := by
  obtain ⟨bound, digits⟩ := coordinate_ok ran
  obtain ⟨otherBound, otherDigits⟩ := coordinate_ok otherRan
  refine decode_injective (List.nodup_finRange d) bound otherBound (fun _ => 0) fun axis _ => ?_
  have := (digits axis).symm.trans (otherDigits axis)
  omega

end RankSpace

inductive DistributionMode where
  | partitioned
  | replicated
  deriving DecidableEq

def Distribution.validate {d : ℕ} (layout : BoxArray d) (rankSpace : RankSpace d)
    (mode : DistributionMode) (owners : List (Index d)) : Checked Unit := do
  throwIf (layout.boxes ≠ [] ∧ rankSpace.size = 0)
    (.invalidArgument "a non-empty Distribution requires a non-empty rank space")
  match mode with
  | .replicated =>
    throwIf (owners ≠ [])
      (.invalidArgument "a replicated Distribution must not store unique owners")
  | .partitioned => do
    throwIf (owners.length ≠ layout.boxes.length)
      (.invalidArgument "Distribution owner count must equal its patch count")
    throwIf (∃ owner ∈ owners, ¬ rankSpace.Contains owner)
      (.outOfRange "Distribution owner is outside the process space")

/-- Ordered ownership of a patch layout. -/
structure Distribution (d : ℕ) where
  layout : BoxArray d
  rankSpace : RankSpace d
  mode : DistributionMode
  owners : List (Index d)
  valid : Distribution.validate layout rankSpace mode owners = .ok ()
  deriving DecidableEq

namespace Distribution
variable {d : ℕ}

/-- The checked constructor. -/
def create (layout : BoxArray d) (rankSpace : RankSpace d) (mode : DistributionMode)
    (owners : List (Index d)) : Checked (Distribution d) :=
  match ran : validate layout rankSpace mode owners with
  | .error exception => .error exception
  | .ok () => .ok ⟨layout, rankSpace, mode, owners, ran⟩

/-- The patch is visible on a rank: replicated, or owned there. -/
def IsLocal (distribution : Distribution d) (globalBox : ℕ) (rank : Index d) : Prop :=
  distribution.mode = .replicated ∨ distribution.owners[globalBox]? = some rank

instance (distribution : Distribution d) (globalBox : ℕ) (rank : Index d) :
    Decidable (distribution.IsLocal globalBox rank) := inferInstanceAs (Decidable (_ ∨ _))

theorem partitioned_owners {distribution : Distribution d} (mode : distribution.mode = .partitioned) :
    distribution.owners.length = distribution.layout.boxes.length ∧
      ∀ owner ∈ distribution.owners, distribution.rankSpace.Contains owner := by
  have valid := distribution.valid
  simp only [validate, mode, bind_ok, throwIf_ok, unit_exists] at valid
  obtain ⟨-, lengths, inside⟩ := valid
  push Not at lengths inside
  exact ⟨lengths, inside⟩

end Distribution

end Pops
