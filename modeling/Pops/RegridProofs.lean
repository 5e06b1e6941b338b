import Pops.Regrid

/-!
Regridding composes clustering, refinement, ownership and the plan validator.
The boxes of a clustering lie each in one patch of their level, so their
refinements consist of complete parent cells, all of them covered; nothing but
an explicit budget stands between a prepared child level and the hierarchy.
-/
namespace Pops

variable {d : ℕ} {R : Type}

/-- What regridding relies on in a clustering of a level. -/
structure Clustered (parent : LevelLayout d) (result : ClusterResult d R) : Prop where
  provider : result.identity.provider ≠ ""
  source : result.identity.sourceLevel = parent.exactIdentity
  listed : result.identity.boxes = result.boxes.boxes
  packed : Packed Box.cells parent.domain.cells result.boxes.boxes
  inPatch : ∀ box ∈ result.boxes.boxes, ∃ patch ∈ parent.patches.boxes, box.cells ⊆ patch.cells

theorem clustered_of_cluster [LongDouble R] {sizes : ObjectSizes} {shards : List (TagMask d)}
    {options : ClusterOptions d R} {result : ClusterResult d R} {parent : LevelLayout d}
    (ran : BergerRigoutsos.cluster sizes shards options = .ok result)
    (onParent : ∃ shard ∈ shards, shard.level = parent) : Clustered parent result := by
  obtain ⟨shard, listed, rfl⟩ := onParent
  obtain ⟨nonempty, apart, inPatch, -⟩ := BergerRigoutsos.cluster_ok ran
  obtain ⟨provider, source, boxes⟩ := BergerRigoutsos.cluster_identity ran listed
  refine ⟨by rw [provider]; decide, source, boxes, ⟨fun box known => ?_, fun box known => ?_, apart⟩,
    inPatch shard listed⟩
  · rw [Ne, Finset.bot_eq_empty, ← Box.empty_iff_cells]
    exact nonempty box known
  · obtain ⟨patch, isPatch, inside⟩ := inPatch shard listed box known
    exact inside.trans (shard.level.packed.inside patch isPatch)

namespace Regrid

/-- The refinements of the boxes of a clustering. -/
def refinedBoxes (boxes : BoxArray d) (ratio : RefinementRatio d) : BoxArray d :=
  ⟨boxes.boxes.map fun box => box.refined ratio⟩

theorem affordable_refined {boxes : BoxArray d} {ratio : RefinementRatio d}
    {budget : BoxArrayValidationBudget} :
    (refinedBoxes boxes ratio).Affordable budget ↔ boxes.Affordable budget := by
  simp [BoxArray.Affordable, BoxArray.requireBudget, refinedBoxes]

section Source
variable {parent : LevelLayout d} {ratio : RefinementRatio d} {result : ClusterResult d R}
  {budget : RegridPreparationBudget}

variable {fine : FinePatches d}

theorem refineDomain_ok {patches : BoxArray d} :
    refineDomain parent ratio patches = .ok fine ↔
      (parent.domain.refined ratio).Fits ∧ fine.patches = patches ∧ fine.domain = parent.domain.refined ratio := by
  unfold refineDomain
  split
  · rename_i exception thrown
    simp only [reduceCtorEq, false_iff]
    rintro ⟨fits, -⟩
    rw [(refineBox_ok parent.nonempty_domain).mpr ⟨fits, rfl⟩] at thrown
    cases thrown
  · rename_i domain ran
    obtain ⟨fits, rfl⟩ := (refineBox_ok parent.nonempty_domain).mp ran
    cases fine with
    | mk others otherDomain otherFits =>
      simp only [Except.ok.injEq, FinePatches.mk.injEq]
      exact ⟨fun ⟨same, sameDomain⟩ => ⟨fits, same.symm, sameDomain.symm⟩,
        fun ⟨_, same, sameDomain⟩ => ⟨same.symm, sameDomain.symm⟩⟩

/-- The boxes of a clustering refine to a packing of the refined domain, as
soon as that domain has `int` coordinates. -/
theorem refinePatches_ok (clustered : Clustered parent result) :
    refinePatches parent ratio result.boxes budget = .ok fine ↔
      (parent.domain.refined ratio).Fits ∧ result.boxes.Affordable budget.fineLayout ∧
        fine.patches = refinedBoxes result.boxes ratio ∧ fine.domain = parent.domain.refined ratio := by
  have nonempty (box : Box d) (listed : box ∈ result.boxes.boxes) : ¬ box.Empty := by
    rw [Box.empty_iff_cells]
    exact clustered.packed.nonempty box listed
  have refines (refined : List (Box d)) :
      result.boxes.boxes.mapM (fun box => refineBox box ratio) = .ok refined ↔
        (∀ box ∈ result.boxes.boxes, (box.refined ratio).Fits) ∧
          refined = (refinedBoxes result.boxes ratio).boxes :=
    mapM_ok_map fun box listed _ => refineBox_ok (nonempty box listed)
  simp only [refinePatches, bind_ok, throwIf_ok, unit_exists, pure_ok, refines, refineDomain_ok]
  have packed := packed_refined ratio clustered.packed
  constructor
  · rintro ⟨_, ⟨-, rfl⟩, other, ⟨fits, patches, domain⟩, disjoint, checked, -, rfl⟩
    refine ⟨fits, ?_, patches, domain⟩
    rw [patches] at checked
    simp only [BoxArray.isDisjointWithin, bind_ok] at checked
    obtain ⟨_, affordable, -⟩ := checked
    exact affordable_refined.mp affordable
  · rintro ⟨fits, affordable, patches, domain⟩
    refine ⟨_, ⟨fun box listed => ?_, rfl⟩, fine, ⟨fits, patches, domain⟩, true, ?_, by simp, rfl⟩
    · exact refined_fits_of_subset (nonempty box listed) (clustered.packed.inside box listed) fits
    · rw [patches, domain]
      exact BoxArray.isDisjointWithin_of_packed (affordable_refined.mpr affordable) packed

theorem prepareSource_ok (clustered : Clustered parent result) {source : Option (FinePatches d)} :
    prepareSource parent ratio result budget = .ok source ↔
      ratio.RefinesAnyAxis ∧ result.boxes.Affordable budget.clusteredParentLayout ∧
        match source with
        | none => result.boxes.boxes = []
        | some fine => result.boxes.boxes ≠ [] ∧
          refinePatches parent ratio result.boxes budget = .ok fine := by
  have within : result.boxes.Affordable budget.clusteredParentLayout ↔
      result.boxes.isDisjointWithin parent.domain budget.clusteredParentLayout = .ok true := by
    constructor
    · exact fun affordable => BoxArray.isDisjointWithin_of_packed affordable clustered.packed
    · simp only [BoxArray.isDisjointWithin, bind_ok]
      rintro ⟨_, affordable, -⟩
      exact affordable
  have disjointOf (disjoint : Bool)
      (checked : result.boxes.isDisjointWithin parent.domain budget.clusteredParentLayout = .ok disjoint) :
      disjoint = true := (BoxArray.isDisjointWithin_ok checked).mpr clustered.packed
  simp only [prepareSource, bind_ok, throwIf_ok, unit_exists, not_not, not_or, ne_eq, within,
    clustered.source, clustered.listed, clustered.provider, not_false_eq_true, true_and, and_self]
  constructor
  · rintro ⟨refines, disjoint, checked, -, ran⟩
    obtain rfl := disjointOf disjoint checked
    refine ⟨refines, checked, ?_⟩
    split at ran
    · rename_i empty
      cases ran
      simpa using empty
    · rename_i filled
      simp only [bind_ok, pure_ok] at ran
      obtain ⟨fine, prepared, rfl⟩ := ran
      exact ⟨by simpa using filled, prepared⟩
  · rintro ⟨refines, checked, given⟩
    refine ⟨refines, true, checked, by simp, ?_⟩
    cases source with
    | none => simp [given]
    | some fine => simp [given.1, given.2]

theorem collectively_ok {α : Type} {lane : ExecutionLane} {failure : String} {prepared : Checked α}
    {value : α} : collectively lane failure prepared = .ok value ↔ prepared = .ok value := by
  cases prepared <;> simp [collectively]

end Source

/-- A child level as regridding builds it: the refined boxes of the clustering,
in the refined domain, each with an owner in the rank space of the parent. -/
structure IsChild (parent : LevelLayout d) (ratio : RefinementRatio d) (boxes : BoxArray d)
    (child : LevelLayout d) : Prop where
  level : child.level = parent.level + 1
  ratioFromParent : child.ratioFromParent = ratio
  domain : child.domain = parent.domain.refined ratio
  patches : child.patches = refinedBoxes boxes ratio
  packed : Packed Box.cells child.domain.cells child.patches.boxes
  rankSpace : child.distribution.rankSpace = parent.distribution.rankSpace
  owned : child.distribution.owners.length = child.patches.boxes.length ∧
    ∀ owner ∈ child.distribution.owners, child.distribution.rankSpace.Contains owner

/-- What regridding needs besides a clustering of the parent: a ratio that
refines, budgets for the clustered and refined boxes, a refined domain of `int`
coordinates, and a plan of its load balancer. -/
structure Preparable (parent : LevelLayout d) (ratio : RefinementRatio d) (boxes : BoxArray d)
    (loadBalance : PreparedLoadBalanceAuthority d) (budget : RegridPreparationBudget)
    (lane : ExecutionLane) : Prop where
  refines : ratio.RefinesAnyAxis
  affordable : boxes.Affordable budget.clusteredParentLayout
  fine : boxes.boxes ≠ [] → (parent.domain.refined ratio).Fits ∧ boxes.Affordable budget.fineLayout ∧
    ∃ ownership, loadBalance.prepare (refinedBoxes boxes ratio) parent.distribution.rankSpace
      budget.loadBalance [] lane = .ok ownership

section Child
variable {parent : LevelLayout d} {ratio : RefinementRatio d} {result : ClusterResult d R}
  {loadBalance : PreparedLoadBalanceAuthority d} {budget : RegridPreparationBudget} {lane : ExecutionLane}

theorem isChild_of_prepareFine (numbered : FitsInt (parent.level + 1))
    (patches : fine.patches = refinedBoxes result.boxes ratio) (domain : fine.domain = parent.domain.refined ratio)
    {prepared : OwnershipPlan d × LevelLayout d}
    (ran : prepareFine parent ratio loadBalance budget lane fine = .ok prepared) :
    IsChild parent ratio result.boxes prepared.2 := by
  simp only [prepareFine, bind_ok, pure_ok, collectively_ok] at ran
  obtain ⟨ownership, balanced, layout, created, rfl⟩ := ran
  obtain ⟨sameLayout, rankSpace, mode⟩ := PreparedLoadBalanceAuthority.prepare_ok balanced
  obtain ⟨level, childDomain, childPatches, distribution, childRatio⟩ := LevelLayout.create_ok created
  refine ⟨?_, childRatio, childDomain.trans domain, childPatches.trans patches, layout.packed, ?_, ?_⟩
  · rw [level, castInt_of_fits numbered]
  · rw [distribution, rankSpace]
  · have owners := Distribution.partitioned_owners mode
    rw [distribution, childPatches, ← sameLayout]
    exact owners

theorem prepareFine_of_packed (clustered : Clustered parent result) (refines : ratio.RefinesAnyAxis)
    (numbered : FitsInt (parent.level + 1)) (fineLevel : 0 ≤ parent.level) (filled : result.boxes.boxes ≠ [])
    (patches : fine.patches = refinedBoxes result.boxes ratio) (domain : fine.domain = parent.domain.refined ratio)
    (affordable : result.boxes.Affordable budget.fineLayout) {ownership : OwnershipPlan d}
    (balanced : loadBalance.prepare (refinedBoxes result.boxes ratio) parent.distribution.rankSpace budget.loadBalance [] lane = .ok ownership) :
    ∃ prepared, prepareFine parent ratio loadBalance budget lane fine = .ok prepared := by
  obtain ⟨sameLayout, -, -⟩ := PreparedLoadBalanceAuthority.prepare_ok balanced
  have disjoint : fine.patches.isDisjointWithin fine.domain budget.fineLayout = .ok true := by
    rw [patches, domain]
    exact BoxArray.isDisjointWithin_of_packed (affordable_refined.mpr affordable)
      (packed_refined ratio clustered.packed)
  have valid : LevelLayout.validate (castInt (parent.level + 1)) fine.domain fine.patches
      ownership.distribution ratio budget.fineLayout = .ok () := by
    rw [castInt_of_fits numbered, LevelLayout.validate]
    have positive : ¬ parent.level + 1 < 0 := by omega
    have notCoarsest : ¬ parent.level + 1 = 0 := by omega
    have whole : ¬ fine.domain.Empty := domain ▸ refined_nonempty parent.nonempty_domain
    have some : ¬ fine.patches.boxes = [] := by simpa [patches, refinedBoxes] using filled
    have same : ¬ ownership.distribution.layout ≠ fine.patches := by rw [sameLayout, patches]; simp
    simp only [throwIf_of_not positive, throwIf_of_not whole, throwIf_of_not some, throwIf_of_not same,
      if_neg notCoarsest, throwIf_of_not (not_not.mpr refines), disjoint, ok_bind]
    rfl
  obtain ⟨layout, created⟩ := LevelLayout.create_of_valid fine.domainFits valid
  refine ⟨(ownership, layout), ?_⟩
  rw [← patches] at balanced
  simp only [prepareFine, bind_ok, pure_ok, collectively_ok]
  exact ⟨ownership, balanced, layout, created, rfl⟩

theorem prepareRegrid_iff (clustered : Clustered parent result) (numbered : FitsInt (parent.level + 1))
    (fineLevel : 0 ≤ parent.level) :
    (∃ prepared, prepareRegrid parent ratio result loadBalance budget lane = .ok prepared) ↔
      Preparable parent ratio result.boxes loadBalance budget lane := by
  simp only [prepareRegrid, bind_ok, collectively_ok, prepareSource_ok clustered]
  constructor
  · rintro ⟨prepared, source, ⟨refines, affordable, given⟩, ran⟩
    refine ⟨refines, affordable, fun filled => ?_⟩
    cases source with
    | none => exact absurd given filled
    | some fine =>
      obtain ⟨fits, fineAffordable, patches, -⟩ := (refinePatches_ok clustered).mp given.2
      simp only [bind_ok, prepareFine] at ran
      obtain ⟨_, ⟨ownership, balanced, -⟩, -⟩ := ran
      exact ⟨fits, fineAffordable, ownership, patches ▸ balanced⟩
  · rintro ⟨refines, affordable, fine⟩
    by_cases empty : result.boxes.boxes = []
    · exact ⟨_, none, ⟨refines, affordable, empty⟩, rfl⟩
    · obtain ⟨fits, fineAffordable, ownership, balanced⟩ := fine empty
      have refined : refinePatches parent ratio result.boxes budget =
          .ok ⟨refinedBoxes result.boxes ratio, parent.domain.refined ratio, fits⟩ :=
        (refinePatches_ok clustered).mpr ⟨fits, fineAffordable, rfl, rfl⟩
      obtain ⟨prepared, ran⟩ := prepareFine_of_packed clustered refines numbered fineLevel empty
        (show FinePatches.patches ⟨refinedBoxes result.boxes ratio, parent.domain.refined ratio, fits⟩ =
          refinedBoxes result.boxes ratio from rfl) rfl fineAffordable balanced
      exact ⟨_, some _, ⟨refines, affordable, empty, refined⟩, by simp only [ran, ok_bind]; rfl⟩

theorem prepareRegrid_ok (clustered : Clustered parent result) (numbered : FitsInt (parent.level + 1))
    {prepared : PreparedRegrid d R}
    (ran : prepareRegrid parent ratio result loadBalance budget lane = .ok prepared) :
    (prepared.fineLayout = none ↔ result.boxes.boxes = []) ∧
      ∀ child, prepared.fineLayout = some child → IsChild parent ratio result.boxes child := by
  simp only [prepareRegrid, bind_ok, collectively_ok, prepareSource_ok clustered] at ran
  obtain ⟨source, ⟨-, -, given⟩, ran⟩ := ran
  cases source with
  | none =>
    cases ran
    exact ⟨iff_of_true rfl given, by simp⟩
  | some fine =>
    obtain ⟨filled, refined⟩ := given
    obtain ⟨-, -, patches, domain⟩ := (refinePatches_ok clustered).mp refined
    simp only [bind_ok] at ran
    obtain ⟨made, level, ran⟩ := ran
    cases ran
    refine ⟨iff_of_false (by simp) filled, fun child isChild => ?_⟩
    cases isChild
    exact isChild_of_prepareFine numbered patches domain level

end Child

open HierarchyPlan

section Accepted
variable {parent child : LevelLayout d} {ratio : RefinementRatio d} {result : ClusterResult d R}

/-- The explicit budgets of a plan allow a child above the level. -/
structure Room (levels : List (LevelLayout d)) (budget : HierarchyValidationBudget) (index : ℕ)
    (parent child : LevelLayout d) : Prop where
  levelBudget : index + 2 ≤ budget.levels
  pairCount : child.patches.boxes.length * parent.patches.boxes.length ≤ sizeMax
  pairBudget : patchPairs (extended levels index child) ≤ budget.parentChildPatchPairs

theorem coarsenBox_refined {box : Box d} (nonempty : ¬ box.Empty) :
    coarsenBox (box.refined ratio) ratio = box := by
  rw [coarsenBox_eq ratio (refined_nonempty nonempty)]
  cases box with
  | mk lo hi =>
    simp only [Box.refined]
    congr 1 <;> funext axis
    · exact Int.mul_ediv_cancel _ (ratio.pos axis).ne'
    · have positive := ratio.pos axis
      simp only [parentCell]
      rw [add_sub_assoc, add_comm, Int.add_mul_ediv_right _ _ positive.ne',
        Int.ediv_eq_zero_of_lt (by omega) (by omega), zero_add]

theorem admits_of_isChild (dimension : d ≤ 3) (clustered : Clustered parent result)
    (isChild : IsChild parent ratio result.boxes child) {index : ℕ} (numbered : parent.level = index)
    (fits : FitsInt (parent.level + 1))
    (pairs : child.patches.boxes.length * parent.patches.boxes.length ≤ sizeMax) :
    Admits (index + 1) parent child := by
  obtain ⟨level, rfl, domain, patches, -, rankSpace, -⟩ := isChild
  have boxOf {patch : Box d} (listed : patch ∈ child.patches.boxes) :
      ∃ box ∈ result.boxes.boxes, ¬ box.Empty ∧ box.refined child.ratioFromParent = patch := by
    rw [patches] at listed
    obtain ⟨box, known, same⟩ := List.mem_map.mp listed
    refine ⟨box, known, ?_, same⟩
    rw [Box.empty_iff_cells]
    exact clustered.packed.nonempty box known
  constructor
  · rw [level, numbered] at *
    rw [castInt_of_fits (by exact_mod_cast fits)]
    push_cast
    rfl
  · exact rankSpace
  · exact (refineBox_ok parent.nonempty_domain).mpr ⟨domain ▸ child.domainFits, domain⟩
  · exact pairs
  · intro patch listed cell inside sibling same
    obtain ⟨box, -, -, rfl⟩ := boxOf listed
    rw [mem_refined] at inside ⊢
    rwa [same]
  · intro patch listed
    obtain ⟨box, known, nonempty, rfl⟩ := boxOf listed
    rw [CountableFootprint, coarsenBox_refined nonempty]
    have subset := Finset.card_le_card (clustered.packed.inside box known)
    have whole := card_cells_le dimension parent.domainFits
    exact lt_of_le_of_lt (subset.trans whole) (by norm_num)
  · intro patch listed cell inside
    obtain ⟨box, known, -, rfl⟩ := boxOf listed
    obtain ⟨parentPatch, isPatch, covers⟩ := clustered.inPatch box known
    exact ⟨parentPatch, isPatch, covers (mem_refined.mp inside)⟩

variable {levels : List (LevelLayout d)} {budget : HierarchyValidationBudget} {index : ℕ}

/-- A list of levels with the child of a clustering on top is a plan exactly
when the explicit budgets allow it. -/
theorem validate_extend_iff (dimension : d ≤ 3) (valid : HierarchyPlan.validate levels budget = .ok ())
    (found : levels[index]? = some parent) (clustered : Clustered parent result)
    (isChild : IsChild parent ratio result.boxes child) (numbered : parent.level = index)
    (fits : FitsInt (parent.level + 1)) :
    HierarchyPlan.validate (extended levels index child) budget = .ok () ↔
      Room levels budget index parent child := by
  have acceptable := acceptable_of_validate valid
  constructor
  · intro accepted
    obtain ⟨admits, short, allPairs⟩ :=
      (acceptable_extended_iff acceptable found).mp (acceptable_of_validate accepted)
    exact ⟨short, admits.pairs, allPairs⟩
  · rintro ⟨short, pairs, allPairs⟩
    have admits := admits_of_isChild dimension clustered isChild numbered fits pairs
    exact validate_of_acceptable ((acceptable_extended_iff acceptable found).mpr ⟨admits, short, allPairs⟩)

/-- Regridding a level of a valid plan returns exactly when its ratio refines
and its own budgets, index type and load balancer allow it; an empty clustering
removes the finer levels, any other gives the refined child level, and neither
the plan nor a hierarchy with that plan rejects the child for anything but an
explicit level or pair budget. -/
theorem child_accepted_iff [LongDouble R] (dimension : d ≤ 3) {plan : HierarchyPlan d} {index : ℕ}
    (found : plan.levels[index]? = some parent) {sizes : ObjectSizes} {shards : List (TagMask d)}
    {options : ClusterOptions d R} (ran : BergerRigoutsos.cluster sizes shards options = .ok result)
    (onParent : ∃ shard ∈ shards, shard.level = parent) (ratio : RefinementRatio d)
    (loadBalance : PreparedLoadBalanceAuthority d) (budget : RegridPreparationBudget) (lane : ExecutionLane) :
    ((∃ prepared, prepareRegrid parent ratio result loadBalance budget lane = .ok prepared) ↔
        Preparable parent ratio result.boxes loadBalance budget lane) ∧
      ∀ prepared, prepareRegrid parent ratio result loadBalance budget lane = .ok prepared →
        (prepared.fineLayout = none ↔ result.boxes.boxes = []) ∧
        ∀ child, prepared.fineLayout = some child → IsChild parent ratio result.boxes child ∧
          ((∃ after, plan.withLevel child = .ok after) ↔ Room plan.levels plan.budget index parent child) ∧
          ∀ (hierarchy : AmrHierarchy d) (candidate : AmrLevelState d),
            hierarchy.layouts = plan.levels → hierarchy.budget = plan.budget → candidate.layout = child →
              hierarchy.SameContract candidate →
                ((∃ after, hierarchy.withLevel candidate = .ok after) ↔
                  Room plan.levels plan.budget index parent child) := by
  obtain ⟨bound, -⟩ := List.getElem?_eq_some_iff.mp found
  have clustered := clustered_of_cluster ran onParent
  obtain ⟨numbered, cells⟩ := level_number dimension (acceptable_of_validate plan.valid) found
  have small : index ≤ 96 := by
    apply (Nat.pow_le_pow_iff_right (show 1 < 2 by norm_num)).mp
    exact cells.trans (card_cells_le dimension parent.domainFits)
  have fits : FitsInt (parent.level + 1) := by
    unfold FitsInt intMin intMax
    omega
  refine ⟨prepareRegrid_iff clustered fits (by omega), fun prepared returned => ?_⟩
  obtain ⟨removes, isChildOf⟩ := prepareRegrid_ok clustered fits returned
  refine ⟨removes, fun child made => ?_⟩
  have isChild := isChildOf child made
  have level : child.level = index + 1 := by rw [isChild.level, numbered]
  have room := validate_extend_iff dimension plan.valid found clustered isChild numbered fits
  refine ⟨isChild, (HierarchyPlan.withLevel_iff bound level).trans room, ?_⟩
  rintro hierarchy candidate layouts budgets rfl contract
  have inside : index < hierarchy.levels.length := by
    have lengths : hierarchy.layouts.length = hierarchy.levels.length := List.length_map _
    rwa [← lengths, layouts]
  rw [AmrHierarchy.withLevel_iff contract inside level, layouts, budgets]
  exact room

end Accepted

section Line
open BergerRigoutsos

/-- A load balancer of one rank. -/
def oneOwner : PreparedLoadBalanceAuthority 1 where
  provider patches rankSpace _ _ := do
    let distribution ← Distribution.create patches rankSpace .partitioned
      (patches.boxes.map fun _ => rankSpace.origin)
    let weights ← patches.boxes.mapM Box.numPts
    return ⟨.roundRobin, distribution, weights, patches.boxes.map fun _ => 0, [weights.sum],
      List.range patches.boxes.length, weights.sum⟩

def lineBudget : RegridPreparationBudget := ⟨⟨4, 6⟩, ⟨4, 6⟩, ⟨4, 1, 8⟩⟩

def lineLane : ExecutionLane := ⟨"world", true, 1⟩

/-- Cluster the tags of the line, regrid it, and test the child. -/
def regridLine (accept : LevelLayout 1 → Bool) : Checked Bool := do
  let result ← cluster lineSizes [lineMask] lineOptions
  let prepared ← prepareRegrid lineLevel double result oneOwner lineBudget lineLane
  return prepared.fineLayout.any accept

theorem regridLine_ok {accept : LevelLayout 1 → Bool} (ran : regridLine accept = .ok true) :
    ∃ result prepared child, cluster lineSizes [lineMask] lineOptions = .ok result ∧
      prepareRegrid lineLevel double result oneOwner lineBudget lineLane = .ok prepared ∧
        prepared.fineLayout = some child ∧ accept child = true := by
  simp only [regridLine, bind_ok, pure_ok, Option.any_eq_true] at ran
  obtain ⟨result, clustered, prepared, regridded, child, made, accepted⟩ := ran
  exact ⟨result, prepared, child, clustered, regridded, made, accepted⟩

/-- The line with room for one level only. -/
def shortPlan : HierarchyPlan 1 := ⟨[lineLevel], ⟨1, 8⟩, by decide +kernel⟩

/-- A valid plan can reject the child level regridding prepared for it. -/
theorem child_rejected_line : ∃ result prepared child,
    cluster lineSizes [lineMask] lineOptions = .ok result ∧
      prepareRegrid lineLevel double result oneOwner lineBudget lineLane = .ok prepared ∧
        prepared.fineLayout = some child ∧ ¬ ∃ after, shortPlan.withLevel child = .ok after := by
  obtain ⟨result, prepared, child, clustered, regridded, made, rejected⟩ := regridLine_ok
    (show regridLine (fun child => !(shortPlan.withLevel child).isOk) = .ok true by decide +kernel)
  refine ⟨result, prepared, child, clustered, regridded, made, ?_⟩
  rintro ⟨after, accepted⟩
  rw [accepted] at rejected
  cases rejected

/-- The line with room for a child level. -/
def tallPlan : HierarchyPlan 1 := ⟨[lineLevel], ⟨2, 8⟩, by decide +kernel⟩

theorem child_accepted_line : ∃ result prepared child,
    cluster lineSizes [lineMask] lineOptions = .ok result ∧
      prepareRegrid lineLevel double result oneOwner lineBudget lineLane = .ok prepared ∧
        prepared.fineLayout = some child ∧ ∃ after, tallPlan.withLevel child = .ok after := by
  obtain ⟨result, prepared, child, clustered, regridded, made, room⟩ := regridLine_ok
    (show regridLine (fun child => child.patches.boxes.length = 4) = .ok true by decide +kernel)
  have found : tallPlan.levels[0]? = some lineLevel := rfl
  obtain ⟨-, accepted⟩ := child_accepted_iff (by decide) found clustered ⟨lineMask, by simp, rfl⟩
    double oneOwner lineBudget lineLane
  obtain ⟨-, ofChild⟩ := accepted prepared regridded
  obtain ⟨-, planned, -⟩ := ofChild child made
  refine ⟨result, prepared, child, clustered, regridded, made, planned.mpr ?_⟩
  simp only [decide_eq_true_eq] at room
  have pairs : child.patches.boxes.length * lineLevel.patches.boxes.length = 8 := by
    rw [room]
    rfl
  refine ⟨by decide, by rw [pairs]; decide, ?_⟩
  simp only [tallPlan, extended, List.take_succ_cons, List.take_zero, List.cons_append, List.nil_append,
    patchPairs, pairs]
  decide

end Line

end Regrid

end Pops
