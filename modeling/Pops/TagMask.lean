import Pops.BoxTraversal
import Pops.LevelLayoutProofs

/-!
`amr/tagging/tag_mask.hpp`: one tag per cell of the patches a rank coordinate
sees, and the traversal of the cells of a region. The sizes of C++ objects
enter the identity budgets as parameters.
-/
namespace Pops
open MixedRadix

variable {d : ℕ}

/-- `sizeof` of the records the identity budgets count. -/
structure ObjectSizes where
  box : ℕ
  index : ℕ
  patchTagIdentity : ℕ
  tagShardIdentity : ℕ

/-- `TagMask::PatchTags`, and `PatchTagIdentity`, which has the same fields. -/
structure PatchTags (d : ℕ) where
  globalPatch : ℕ
  box : Box d
  tags : List Bool
  deriving DecidableEq

structure TagShardIdentity (d : ℕ) where
  localRank : Index d
  patches : List (PatchTags d)
  replicatedAlias : Bool
  deriving DecidableEq

/-- The tags of the patches one rank coordinate sees on a level. The
constructor rejects a rank outside the level's process space. -/
structure TagMask (d : ℕ) where
  level : LevelLayout d
  localRank : Index d
  rankKnown : level.distribution.rankSpace.Contains localRank
  patches : List (PatchTags d)
  deriving DecidableEq

namespace TagMask

def levelIdentity (mask : TagMask d) : LevelLayoutIdentity d := mask.level.exactIdentity

def linearIndex (box : Box d) (index : Index d) : Checked ℕ := do
  throwIf (¬ box.Contains index) (.outOfRange "TagMask cell is outside the selected patch")
  return box.linear index

/-- The cells of one patch that a region visits, each with its tag. -/
def forEachCellOf (region : Box d) (patch : PatchTags d) : Checked (List (Index d × Bool)) :=
  let overlap := patch.box.intersect region
  if overlap.Empty then .ok []
  else do
    let indices ← overlap.forEachIndex
    indices.mapM fun index => do
      let linear ← linearIndex patch.box index
      return (index, patch.tags.getD linear false)

def forEachCellIn (mask : TagMask d) (region : Box d) : Checked (List (Index d × Bool)) :=
  if region.Empty then .ok []
  else do
    let visited ← mask.patches.mapM (forEachCellOf region)
    return visited.flatten

def shardIdentity (mask : TagMask d) : TagShardIdentity d := ⟨mask.localRank, mask.patches, false⟩

/-- A tagged cell of the mask. -/
def Tagged (mask : TagMask d) (index : Index d) : Prop :=
  ∃ patch ∈ mask.patches, index ∈ patch.box.cells ∧
    patch.tags.getD (patch.box.linear index) false = true

end TagMask

namespace TagMask
variable {mask : TagMask d} {region : Box d} {index : Index d} {tag : Bool}

theorem linearIndex_ok {box : Box d} {linear : ℕ} :
    linearIndex box index = .ok linear ↔ index ∈ box.cells ∧ linear = box.linear index := by
  simp only [linearIndex, bind_ok, throwIf_ok, unit_exists, pure_ok, Box.contains_iff, not_not,
    eq_comm (b := linear)]

theorem mem_forEachCellOf {patch : PatchTags d} (patchFits : patch.box.Fits)
    {visited : List (Index d × Bool)} (ran : forEachCellOf region patch = .ok visited) :
    (index, tag) ∈ visited ↔ index ∈ patch.box.cells ∧ index ∈ region.cells ∧
      tag = patch.tags.getD (patch.box.linear index) false := by
  unfold forEachCellOf at ran
  simp only at ran
  split at ran
  · rename_i empty
    cases ran
    have apart := Box.intersect_empty_iff.mp empty
    simp only [List.not_mem_nil, false_iff, not_and]
    intro inPatch inRegion
    exact absurd inRegion (Finset.disjoint_left.mp apart inPatch)
  · rename_i nonempty
    simp only [bind_ok] at ran
    obtain ⟨indices, listed, mapped⟩ := ran
    have overlapFits : (patch.box.intersect region).Fits :=
      patchFits.subset nonempty (by rw [Box.cells_intersect]; exact Finset.inter_subset_left)
    have cells (i : Index d) : i ∈ indices ↔ i ∈ patch.box.cells ∧ i ∈ region.cells := by
      rw [Box.mem_forEachIndex overlapFits nonempty listed, Box.cells_intersect, Finset.mem_inter]
    constructor
    · intro member
      obtain ⟨i, known, found⟩ := mem_of_mapM_ok mapped member
      simp only [bind_ok, pure_ok, linearIndex_ok, Prod.mk.injEq] at found
      obtain ⟨_, ⟨-, rfl⟩, rfl, rfl⟩ := found
      exact ⟨((cells i).mp known).1, ((cells i).mp known).2, rfl⟩
    · rintro ⟨inPatch, inRegion, rfl⟩
      obtain ⟨pair, known, found⟩ := exists_of_mapM_ok mapped ((cells index).mpr ⟨inPatch, inRegion⟩)
      simp only [bind_ok, pure_ok, linearIndex_ok] at found
      obtain ⟨_, ⟨-, rfl⟩, rfl⟩ := found
      exact known

/-- `for_each_cell_in` visits exactly the cells of the region that some patch
of the mask has, with the tag of that patch. -/
theorem mem_forEachCellIn (patchFits : ∀ patch ∈ mask.patches, patch.box.Fits)
    {visited : List (Index d × Bool)} (ran : mask.forEachCellIn region = .ok visited) :
    (index, tag) ∈ visited ↔ index ∈ region.cells ∧ ∃ patch ∈ mask.patches, index ∈ patch.box.cells ∧
      tag = patch.tags.getD (patch.box.linear index) false := by
  unfold forEachCellIn at ran
  split at ran
  · rename_i empty
    cases ran
    rw [Box.empty_iff_cells.mp empty]
    simp
  · simp only [bind_ok, pure_ok] at ran
    obtain ⟨groups, mapped, rfl⟩ := ran
    rw [List.mem_flatten]
    constructor
    · rintro ⟨group, listed, member⟩
      obtain ⟨patch, known, visitedPatch⟩ := mem_of_mapM_ok mapped listed
      obtain ⟨inPatch, inRegion, tagged⟩ := (mem_forEachCellOf (patchFits patch known) visitedPatch).mp member
      exact ⟨inRegion, patch, known, inPatch, tagged⟩
    · rintro ⟨inRegion, patch, known, inPatch, tagged⟩
      obtain ⟨group, listed, visitedPatch⟩ := exists_of_mapM_ok mapped known
      refine ⟨group, listed, ?_⟩
      exact (mem_forEachCellOf (patchFits patch known) visitedPatch).mpr ⟨inPatch, inRegion, tagged⟩

end TagMask

end Pops
