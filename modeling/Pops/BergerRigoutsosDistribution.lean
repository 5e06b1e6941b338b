import Pops.BergerRigoutsosTermination
import Pops.Collective

/-!
The clustering does not depend on how the patches are distributed. Every patch is
clustered with one shard that holds its tags, and inside the patch all shards that
hold it visit the same cells with the same tags.
-/
namespace Pops

variable {d : ℕ}

namespace TagMask
variable {mask other : TagMask d} {region : Box d} {patch : PatchTags d}

/-- No two patches of the mask meet. -/
def PatchesApart (mask : TagMask d) : Prop :=
  mask.patches.Pairwise fun left right => Disjoint left.box.cells right.box.cells

theorem forEachCellOf_apart (apart : Disjoint patch.box.cells region.cells) :
    forEachCellOf region patch = .ok [] := by
  unfold forEachCellOf
  dsimp only
  rw [if_pos (Box.intersect_empty_iff.mpr apart)]

theorem forEachCellIn_patch (apart : mask.PatchesApart) (known : patch ∈ mask.patches)
    (inside : region.cells ⊆ patch.box.cells) : mask.forEachCellIn region = forEachCellOf region patch := by
  unfold forEachCellIn
  split
  · rename_i empty
    rw [forEachCellOf_apart]
    rw [Box.empty_iff_cells.mp empty]
    exact Finset.disjoint_empty_right _
  · have quiet (patches : List (PatchTags d))
        (away : ∀ other ∈ patches, Disjoint other.box.cells patch.box.cells) :
        patches.mapM (forEachCellOf region) = .ok (patches.map fun _ => []) := by
      induction patches with
      | nil => rfl
      | cons head tail ih =>
        have headAway := (away head List.mem_cons_self).mono_right inside
        rw [List.mapM_cons, forEachCellOf_apart headAway, ok_bind,
          ih fun other listed => away other (List.mem_cons_of_mem _ listed)]
        rfl
    obtain ⟨before, after, split⟩ := List.append_of_mem known
    unfold PatchesApart at apart
    rw [split] at apart ⊢
    obtain ⟨-, rest, crossed⟩ := List.pairwise_append.mp apart
    have beforeAway (other : PatchTags d) (listed : other ∈ before) : Disjoint other.box.cells patch.box.cells :=
      crossed other listed patch List.mem_cons_self
    have afterAway (other : PatchTags d) (listed : other ∈ after) : Disjoint other.box.cells patch.box.cells :=
      ((List.pairwise_cons.mp rest).1 other listed).symm
    rw [List.mapM_append, List.mapM_cons, quiet before beforeAway, quiet after afterAway]
    cases forEachCellOf region patch with
    | error exception => rfl
    | ok visited =>
      have silent (patches : List (PatchTags d)) :
          (patches.map fun _ => ([] : List (Index d × Bool))).flatten = [] := by simp
      simp only [ok_bind, pure, Except.pure, List.flatten_append, List.flatten_cons, silent, List.nil_append,
        List.append_nil]

end TagMask

namespace BergerRigoutsos
variable {R : Type} {shards canonical : List (TagMask d)} {source : LevelLayoutIdentity d}

/-- Which patches were seen when some patches have been authenticated. -/
structure SeenBy (source : LevelLayoutIdentity d) (done : List (PatchTags d)) (seen : List Bool) : Prop where
  length : seen.length = source.patches.length
  marked : ∀ index, seen[index]? = some true → ∃ patch ∈ done, patch.globalPatch = index
  kept : ∀ patch ∈ done, seen[patch.globalPatch]? = some true
  distinct : done.Pairwise fun left right => left.globalPatch ≠ right.globalPatch

theorem SeenBy.step {done : List (PatchTags d)} {seen after : List Bool} {patch : PatchTags d} {localRank : Index d}
    (before : SeenBy source done seen) (ran : authenticatePatch source localRank seen patch = .ok after) :
    SeenBy source (done ++ [patch]) after := by
  simp only [authenticatePatch, bind_ok, throwIf_ok, unit_exists, pure_ok, not_or, not_not, ne_eq,
    Bool.not_eq_true] at ran
  obtain ⟨found, ⟨-, unseen⟩, rfl⟩ := ran
  have below : patch.globalPatch < seen.length := by
    rw [before.length]
    exact (List.getElem?_eq_some_iff.mp found).1
  refine ⟨by rw [List.length_set, before.length], fun index flag => ?_, fun other listed => ?_, ?_⟩
  · by_cases same : patch.globalPatch = index
    · exact ⟨patch, by simp, same⟩
    · rw [List.getElem?_set_ne same] at flag
      obtain ⟨other, known, isIndex⟩ := before.marked index flag
      exact ⟨other, by simp [known], isIndex⟩
  · by_cases same : patch.globalPatch = other.globalPatch
    · rw [← same, List.getElem?_set_self below]
    · rw [List.getElem?_set_ne same]
      rcases List.mem_append.mp listed with earlier | last
      · exact before.kept other earlier
      · exact absurd (congrArg _ (List.mem_singleton.mp last).symm) same
  · refine List.pairwise_append.mpr ⟨before.distinct, List.pairwise_singleton _ _, fun other earlier last listed => ?_⟩
    obtain rfl := List.mem_singleton.mp listed
    intro same
    have flag := before.kept other earlier
    rw [same] at flag
    rw [List.getD_eq_getElem?_getD, flag] at unseen
    cases unseen

/-- Every patch of the level is in some shard, and in none twice. -/
structure Complete (canonical : List (TagMask d)) (source : LevelLayoutIdentity d) : Prop where
  total : ∀ index < source.patches.length, ∃ shard ∈ canonical, ∃ patch ∈ shard.patches, patch.globalPatch = index
  once : ∀ shard ∈ canonical, shard.patches.Pairwise fun left right => left.globalPatch ≠ right.globalPatch

theorem complete_partitioned {seen : List Bool}
    (ran : canonical.foldlM (fun seen (shard : TagMask d) =>
      shard.patches.foldlM (authenticatePatch source shard.localRank) seen)
      (List.replicate source.patches.length false) = .ok seen) (all : false ∉ seen) :
    Complete canonical source := by
  have start : SeenBy source [] (List.replicate source.patches.length false) := by
    refine ⟨List.length_replicate, fun index flag => ?_, by simp, .nil⟩
    have := List.eq_of_mem_replicate (List.mem_of_getElem? flag)
    cases this
  have known : SeenBy source (canonical.flatMap TagMask.patches) seen := by
    have each (done : List (TagMask d)) (shard : TagMask d) (before after : List Bool)
        (here : SeenBy source (done.flatMap TagMask.patches) before)
        (stepped : shard.patches.foldlM (authenticatePatch source shard.localRank) before = .ok after) :
        SeenBy source ((done ++ [shard]).flatMap TagMask.patches) after := by
      rw [List.flatMap_append, List.flatMap_singleton]
      exact foldlM_ok_invariant (SeenBy source) (fun _ _ _ _ => SeenBy.step) _ _ _ _ here stepped
    exact foldlM_ok_invariant (fun done seen => SeenBy source (done.flatMap TagMask.patches) seen) each
      _ _ _ [] start ran
  refine ⟨fun index below => ?_, (List.pairwise_flatMap.mp known.distinct).1⟩
  have inSeen : index < seen.length := known.length ▸ below
  have flag : seen[index]? = some true := by
    rw [List.getElem?_eq_getElem inSeen, Option.some_inj, ← Bool.not_eq_false]
    intro missed
    exact all (missed ▸ List.getElem_mem inSeen)
  obtain ⟨patch, listed, isIndex⟩ := known.marked index flag
  obtain ⟨shard, isShard, inShard⟩ := List.mem_flatMap.mp listed
  exact ⟨shard, isShard, patch, inShard, isIndex⟩

theorem complete_replicated {reference : List (PatchTags d)} (some : canonical ≠ [])
    (each : ∀ shard ∈ canonical, authenticateReplicated source reference shard = .ok ()) :
    Complete canonical source := by
  have positions (shard : TagMask d) (listed : shard ∈ canonical) : shard.patches.length = source.patches.length ∧
      ∀ position (below : position < shard.patches.length), shard.patches[position].globalPatch = position := by
    have checked := each shard listed
    simp only [authenticateReplicated, bind_ok, throwIf_ok, unit_exists, forM_ok, not_or, not_not, ne_eq] at checked
    obtain ⟨-, length, identities⟩ := checked
    refine ⟨length, fun position below => ?_⟩
    exact (identities (shard.patches[position], position)
      (List.mk_mem_zipIdx_iff_getElem?.mpr (List.getElem?_eq_getElem below))).1
  constructor
  · intro index below
    obtain ⟨shard, listed⟩ := List.exists_mem_of_ne_nil _ some
    obtain ⟨length, numbered⟩ := positions shard listed
    rw [← length] at below
    exact ⟨shard, listed, shard.patches[index], List.getElem_mem below, numbered index below⟩
  · intro shard listed
    obtain ⟨-, numbered⟩ := positions shard listed
    rw [List.pairwise_iff_getElem]
    intro first second firstBelow secondBelow earlier
    rw [numbered, numbered]
    exact earlier.ne

theorem authenticateShards_complete {options : ClusterOptions d R}
    (ran : authenticateShards shards options = .ok (source, canonical)) : Complete canonical source := by
  have authentic := authenticateShards_ok ran
  have some : canonical ≠ [] := fun none =>
    authentic.nonempty (List.nil_perm.mp (none ▸ authentic.perm))
  cases shards with
  | nil => cases ran
  | cons front later =>
    simp only [authenticateShards, bind_ok, throwIf_ok, unit_exists] at ran
    obtain ⟨-, -, -, sorted, -, -, -, -, ran⟩ := ran
    split at ran
    · simp only [bind_ok, unit_exists, pure_ok, Prod.mk.injEq] at ran
      obtain ⟨each, rfl, rfl⟩ := ran
      rw [forM_ok] at each
      exact complete_replicated some each
    · simp only [bind_ok, throwIf_ok, unit_exists, pure_ok, Prod.mk.injEq] at ran
      obtain ⟨seen, each, all, rfl, rfl⟩ := ran
      exact complete_partitioned each all

theorem Authentic.patchesApart (authentic : Authentic shards canonical source) (complete : Complete canonical source)
    {level : LevelLayout d} (isSource : level.exactIdentity = source) {mask : TagMask d} (listed : mask ∈ canonical) :
    mask.PatchesApart := by
  have patches : source.patches = level.patches.boxes := by
    rw [← isSource]
    rfl
  have disjoint := List.pairwise_iff_getElem.mp (patches ▸ level.packed.disjoint)
  refine (complete.once mask listed).imp_of_mem fun {left right} leftListed rightListed different => ?_
  obtain ⟨leftBelow, leftBox⟩ := List.getElem?_eq_some_iff.mp (authentic.boxes mask listed left leftListed)
  obtain ⟨rightBelow, rightBox⟩ := List.getElem?_eq_some_iff.mp (authentic.boxes mask listed right rightListed)
  rw [← leftBox, ← rightBox]
  rcases different.lt_or_gt with before | after
  · exact disjoint _ _ leftBelow rightBelow before
  · exact (disjoint _ _ rightBelow leftBelow after).symm

theorem owner_exists (authentic : Authentic shards canonical source) (complete : Complete canonical source) {index : ℕ}
    (below : index < source.patches.length) : ∃ owner, ownerForPatch canonical source index = .ok owner := by
  obtain ⟨shard, listed, patch, known, rfl⟩ := complete.total index below
  unfold ownerForPatch
  split
  · obtain ⟨front, rest, rfl⟩ := List.exists_cons_of_ne_nil (List.ne_nil_of_mem listed)
    exact ⟨front, at'_ok.mpr rfl⟩
  · rename_i mode
    have inside : source.rankSpace.Contains shard.localRank := by
      rw [← authentic.identity shard (authentic.perm.mem_iff.mp listed)]
      exact shard.rankKnown
    obtain ⟨rank, ranked, placed⟩ := RankSpace.linearRank_exists inside
    obtain ⟨position, found⟩ := List.mem_iff_getElem?.mp listed
    obtain rfl := RankSpace.coordinate_injective placed (authentic.coordinates position shard found)
    refine ⟨shard, ?_⟩
    rw [at'_ok.mpr (authentic.owners mode shard listed patch known), ok_bind, ranked, ok_bind]
    exact at'_ok.mpr found

section Recursion
variable [LongDouble R] {options : ClusterOptions d R} {mask other : TagMask d} {patch : Box d}

theorem clusterRec_congr (fits : PatchesFit mask)
    (same : ∀ region : Box d, region.cells ⊆ patch.cells → mask.forEachCellIn region = other.forEachCellIn region)
    {fuel : ℕ} {state : Work × List (Box d)} {candidate : Box d} (inside : candidate.cells ⊆ patch.cells) :
    clusterRec mask options fuel state candidate = clusterRec other options fuel state candidate := by
  induction fuel generalizing state candidate with
  | zero => rfl
  | succ fuel ih =>
    obtain ⟨work, output⟩ := state
    rw [clusterRec, clusterRec]
    refine bind_congr_ok fun nodes _ => ?_
    have scans : scanRegion mask candidate nodes = scanRegion other candidate nodes := by
      unfold scanRegion
      rw [same candidate inside]
    rw [← scans]
    refine bind_congr_ok fun scanResult scanned => ?_
    obtain ⟨scan, after⟩ := scanResult
    dsimp only
    split
    · rfl
    · rename_i tagged
      obtain ⟨nonempty, within, -⟩ := (scanRegion_ok fits scanned).2 tagged
      refine bind_congr_ok fun points _ => ?_
      split
      · rfl
      · have signs : signatures mask scan.bounds after = signatures other scan.bounds after := by
          unfold signatures
          rw [same scan.bounds (within.trans inside)]
        rw [← signs]
        refine bind_congr_ok fun signedResult _ => bind_congr_ok fun _ _ => bind_congr_ok fun children cut => ?_
        obtain ⟨packed, -⟩ := partitions_foldlM nonempty
          (selectCuts_different _ signedResult.1 options.minBoxSize) cut
        exact foldlM_congr_ok (fun _ => True)
          (fun child listed _ _ => ih ((packed.inside child listed).trans (within.trans inside)))
          (fun _ _ _ _ _ _ => trivial) trivial

end Recursion

/-- Two lists of shards of one level: the same patches with the same tags, whatever rank holds each. -/
structure SameTags (shards others : List (TagMask d)) : Prop where
  patches : ∀ shard ∈ shards, ∀ other ∈ others, shard.level.patches = other.level.patches
  tags : ∀ patch, (∃ shard ∈ shards, patch ∈ shard.patches) ↔ ∃ other ∈ others, patch ∈ other.patches

namespace SameTags
variable {others otherCanonical : List (TagMask d)} {otherSource : LevelLayoutIdentity d}

theorem owner_patch (same : SameTags shards others) (authentic : Authentic shards canonical source)
    (complete : Complete canonical source) (otherAuthentic : Authentic others otherCanonical otherSource)
    {index : ℕ} (below : index < source.patches.length) {owner otherOwner : TagMask d}
    (owns : ownerForPatch canonical source index = .ok owner)
    (otherOwns : ownerForPatch otherCanonical otherSource index = .ok otherOwner) :
    ∃ patch ∈ owner.patches, patch ∈ otherOwner.patches ∧ source.patches[index]? = some patch.box := by
  obtain ⟨shard, listed, patch, known, rfl⟩ := complete.total index below
  have inShards := authentic.perm.mem_iff.mp listed
  obtain ⟨other, otherListed, otherKnown⟩ := (same.tags patch).mp ⟨shard, inShards, known⟩
  exact ⟨patch, ownerForPatch_ok authentic inShards known owns,
    ownerForPatch_ok otherAuthentic otherListed otherKnown otherOwns, authentic.boxes shard listed patch known⟩

theorem sources (same : SameTags shards others) (authentic : Authentic shards canonical source)
    (otherAuthentic : Authentic others otherCanonical otherSource) : source.patches = otherSource.patches := by
  obtain ⟨shard, listed⟩ := List.exists_mem_of_ne_nil _ authentic.nonempty
  obtain ⟨other, otherListed⟩ := List.exists_mem_of_ne_nil _ otherAuthentic.nonempty
  rw [← authentic.identity shard listed, ← otherAuthentic.identity other otherListed]
  exact congrArg BoxArray.boxes (same.patches shard listed other otherListed)

variable [LongDouble R] {options : ClusterOptions d R}

theorem clusterPatch (same : SameTags shards others)
    (authenticated : authenticateShards shards options = .ok (source, canonical))
    (otherAuthenticated : authenticateShards others options = .ok (otherSource, otherCanonical))
    {patch : Box d × ℕ} (listed : patch ∈ source.patches.zipIdx) (state : Work × List (Box d)) :
    BergerRigoutsos.clusterPatch canonical source options state patch =
      BergerRigoutsos.clusterPatch otherCanonical otherSource options state patch := by
  obtain ⟨box, index⟩ := patch
  have found : source.patches[index]? = some box := List.mk_mem_zipIdx_iff_getElem?.mp listed
  have below := (List.getElem?_eq_some_iff.mp found).1
  have authentic := authenticateShards_ok authenticated
  have otherAuthentic := authenticateShards_ok otherAuthenticated
  have complete := authenticateShards_complete authenticated
  have otherComplete := authenticateShards_complete otherAuthenticated
  obtain ⟨owner, owns⟩ := owner_exists authentic complete below
  obtain ⟨otherOwner, otherOwns⟩ := owner_exists otherAuthentic otherComplete
    (same.sources authentic otherAuthentic ▸ below)
  obtain ⟨patch, known, otherKnown, isBox⟩ :=
    same.owner_patch authentic complete otherAuthentic below owns otherOwns
  obtain rfl : patch.box = box := Option.some.inj (isBox.symm.trans found)
  obtain ⟨shard, shardListed⟩ := List.exists_mem_of_ne_nil _ authentic.nonempty
  obtain ⟨other, otherListed⟩ := List.exists_mem_of_ne_nil _ otherAuthentic.nonempty
  have isSource := authentic.identity shard shardListed
  have isOtherSource := otherAuthentic.identity other otherListed
  have apart := authentic.patchesApart complete isSource (owner_listed owns)
  have otherApart := otherAuthentic.patchesApart otherComplete isOtherSource (owner_listed otherOwns)
  unfold BergerRigoutsos.clusterPatch
  refine bind_congr_ok fun _ _ => ?_
  rw [owns, otherOwns, ok_bind, ok_bind]
  refine clusterRec_congr (authentic.patchesFit isSource (owner_listed owns)) (fun region inside => ?_) subset_rfl
  rw [TagMask.forEachCellIn_patch apart known inside, TagMask.forEachCellIn_patch otherApart otherKnown inside]

theorem clusterPatches (same : SameTags shards others)
    (authenticated : authenticateShards shards options = .ok (source, canonical))
    (otherAuthenticated : authenticateShards others options = .ok (otherSource, otherCanonical))
    (state : Work × List (Box d)) :
    source.patches.zipIdx.foldlM (BergerRigoutsos.clusterPatch canonical source options) state =
      otherSource.patches.zipIdx.foldlM (BergerRigoutsos.clusterPatch otherCanonical otherSource options) state := by
  rw [← same.sources (authenticateShards_ok authenticated) (authenticateShards_ok otherAuthenticated)]
  exact foldlM_congr_ok (fun _ => True)
    (fun _ listed state _ => same.clusterPatch authenticated otherAuthenticated listed state)
    (fun _ _ _ _ _ _ => trivial) trivial

end SameTags

section Result
variable [LongDouble R] {others : List (TagMask d)} {options : ClusterOptions d R} {sizes : ObjectSizes}

theorem cluster_throws_identity (accepted : validateOptions options = .ok ())
    (authenticated : authenticateShards shards options = .ok (source, canonical)) {boxes : List (Box d)}
    (ran : clusterBoxes canonical source options = .ok boxes) :
    Throws IdentityRefused (cluster sizes shards options) := by
  simp only [clusterBoxes, bind_ok, pure_ok] at ran
  obtain ⟨⟨work, raw⟩, clustered, ⟨choppedWork, pieces⟩, chopped, -⟩ := ran
  rw [cluster, accepted, ok_bind, authenticated, ok_bind]
  dsimp only
  rw [clustered, ok_bind]
  dsimp only
  rw [chopped, ok_bind]
  exact .bind (requireIdentity_throws _ _) fun _ _ => .bind checkedProduct_throws fun _ _ =>
    .bind (requireIdentity_throws _ _) fun _ _ => .bind checkedProduct_throws fun _ _ =>
    .bind (requireIdentity_throws _ _) fun _ _ => .bind checkedProduct_throws fun _ _ =>
    .bind (requireIdentity_throws _ _) fun _ _ => .bind checkedProduct_throws fun _ _ =>
    .bind (requireIdentity_throws _ _) fun _ _ => .bind requireShards_throws fun _ _ => .pure _

theorem SameTags.clusterBoxes (same : SameTags shards others) {otherCanonical : List (TagMask d)}
    {otherSource : LevelLayoutIdentity d} (authenticated : authenticateShards shards options = .ok (source, canonical))
    (otherAuthenticated : authenticateShards others options = .ok (otherSource, otherCanonical)) :
    BergerRigoutsos.clusterBoxes canonical source options =
      BergerRigoutsos.clusterBoxes otherCanonical otherSource options := by
  unfold BergerRigoutsos.clusterBoxes
  rw [same.clusterPatches authenticated otherAuthenticated]

/-- The clustering does not depend on the distribution. Two lists of shards with the same patches and tags, of any
rank spaces and owners and in any order, get the same boxes whenever both are clustered; and where one list is
clustered, the other one is too as soon as its shards are authenticated, unless its identity is refused. -/
theorem cluster_independent (same : SameTags shards others) {result : ClusterResult d R}
    (ran : cluster sizes shards options = .ok result) :
    (∀ other, cluster sizes others options = .ok other → other.boxes = result.boxes) ∧
      ∀ source canonical, authenticateShards others options = .ok (source, canonical) →
        (∃ other, cluster sizes others options = .ok other ∧ other.boxes = result.boxes) ∨
          ∃ exception, cluster sizes others options = .error exception ∧ IdentityRefused exception := by
  obtain ⟨accepted, source, canonical, authenticated, boxes⟩ := clusterBoxes_of_cluster ran
  have agree (other : ClusterResult d R) (otherRan : cluster sizes others options = .ok other) :
      other.boxes = result.boxes := by
    obtain ⟨-, otherSource, otherCanonical, otherAuthenticated, otherBoxes⟩ := clusterBoxes_of_cluster otherRan
    rw [same.clusterBoxes authenticated otherAuthenticated, otherBoxes] at boxes
    exact congrArg BoxArray.mk (Except.ok.inj boxes)
  refine ⟨agree, fun otherSource otherCanonical otherAuthenticated => ?_⟩
  rw [same.clusterBoxes authenticated otherAuthenticated] at boxes
  have throws : Throws IdentityRefused (cluster sizes others options) :=
    cluster_throws_identity accepted otherAuthenticated boxes
  cases outcome : cluster sizes others options with
  | error exception => exact .inr ⟨exception, rfl, throws exception outcome⟩
  | ok other => exact .inl ⟨other, rfl, agree other outcome⟩

private theorem twoRanks_originFits : ∀ axis : Fin 1, FitsInt ((fun _ => 0 : Index 1) axis) := by decide

private theorem twoRanks_checked :
    ∀ axis, RankSpace.checkAxis (fun _ => 0 : Index 1) (fun _ => 2) axis = .ok () := fun _ => rfl

def twoRanks : RankSpace 1 := ⟨fun _ => 0, fun _ => 2, twoRanks_originFits, twoRanks_checked⟩

/-- Each patch of the line on its own rank. -/
def splitLevel : LevelLayout 1 where
  level := 0
  domain := segment 0 7
  domainFits := segment_fits
  patches := linePatches
  distribution := ⟨linePatches, twoRanks, .partitioned, [fun _ => 1, fun _ => 0], rfl⟩
  ratioFromParent := .identity
  validationBudget := ⟨2, 1⟩
  valid := rfl

def splitMasks : List (TagMask 1) :=
  [⟨splitLevel, fun _ => 1, by decide, [⟨0, segment 0 3, [true, false, false, true]⟩]⟩,
    ⟨splitLevel, fun _ => 0, by decide, [⟨1, segment 4 7, [true, true, false, false]⟩]⟩]

def splitOptions : ClusterOptions 1 ℚ := ⟨1, fun _ => 1, fun _ => 1, ⟨2, 10, 100, 10, 1000⟩⟩

theorem sameTags_split : SameTags [lineMask] splitMasks := by
  refine ⟨by decide, fun patch => ?_⟩
  simp [lineMask, splitMasks]

theorem cluster_independent_split : ∃ whole split, cluster lineSizes [lineMask] splitOptions = .ok whole ∧
    cluster lineSizes splitMasks splitOptions = .ok split ∧ split.boxes = whole.boxes := by
  obtain ⟨whole, ran⟩ := exists_of_isOk
    (show (cluster lineSizes [lineMask] splitOptions).isOk = true by decide +kernel)
  obtain ⟨split, splitRan⟩ := exists_of_isOk
    (show (cluster lineSizes splitMasks splitOptions).isOk = true by decide +kernel)
  exact ⟨whole, split, ran, splitRan, (cluster_independent sameTags_split ran).1 split splitRan⟩

/-- With room for one shard the line is clustered on one rank and refused on two. -/
theorem cluster_refuses_split : SameTags [lineMask] splitMasks ∧
    (∃ whole, cluster lineSizes [lineMask] lineOptions = .ok whole) ∧
      cluster lineSizes splitMasks lineOptions =
        .error (.lengthError "Berger-Rigoutsos exceeds its tag-shard budget") := by
  refine ⟨sameTags_split, exists_of_isOk ?_, ?_⟩
  · decide +kernel
  · have accepted : validateOptions lineOptions = .ok () := by decide +kernel
    rw [cluster, accepted]
    rfl

end Result

end BergerRigoutsos

end Pops
