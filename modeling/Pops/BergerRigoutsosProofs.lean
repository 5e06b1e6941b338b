import Pops.BergerRigoutsos

/-!
What the clustering returns. A call of the splitter packs its candidate with
boxes that cover every tagged cell of it; cutting a region packs and covers it
whatever axes and offsets were selected; chopping and sorting keep both. The
scores never matter.
-/
namespace Pops.BergerRigoutsos
open MixedRadix

variable {d : ℕ} {R : Type}

/-- The boxes of some list hold every cell. -/
def Covers (boxes : List (Box d)) (cells : Set (Index d)) : Prop :=
  ∀ cell ∈ cells, ∃ box ∈ boxes, cell ∈ box.cells

section Scans
variable {region : Box d}

/-- What a scan knows after some visits, all of them inside a region. -/
structure Scanned (region : Box d) (visits : List (Index d × Bool)) (scan : Scan d) : Prop where
  none : scan.tagged = 0 → ∀ visit ∈ visits, visit.2 = false
  some : scan.tagged ≠ 0 → ∃ visit ∈ visits, visit.2 = true
  holds : scan.tagged ≠ 0 → ∀ visit ∈ visits, visit.2 = true → visit.1 ∈ scan.bounds.cells
  within : scan.tagged ≠ 0 → ∀ axis,
    region.lo axis ≤ scan.bounds.lo axis ∧ scan.bounds.hi axis ≤ region.hi axis

theorem scanned_step {visits : List (Index d × Bool)} {scan : Scan d} {visit : Index d × Bool}
    (inside : visit.1 ∈ region.cells) (scanned : Scanned region visits scan) :
    Scanned region (visits ++ [visit]) (scanStep scan visit) := by
  obtain ⟨none, some, holds, within⟩ := scanned
  obtain ⟨cell, tag⟩ := visit
  have bounds := Box.mem_cells.mp inside
  unfold scanStep
  cases tag with
  | false =>
    simp only [if_true]
    refine ⟨fun zero v listed => ?_, fun found => ?_, fun found v listed tagged => ?_, within⟩
    · rcases List.mem_append.mp listed with earlier | last
      · exact none zero v earlier
      · rw [List.mem_singleton.mp last]
    · obtain ⟨v, listed, tagged⟩ := some found
      exact ⟨v, by simp [listed], tagged⟩
    · rcases List.mem_append.mp listed with earlier | last
      · exact holds found v earlier tagged
      · rw [List.mem_singleton.mp last] at tagged
        cases tagged
  | true =>
    simp only [Bool.true_eq_false, if_false]
    split
    · rename_i zero
      refine ⟨by simp, fun _ => ⟨(cell, true), by simp, rfl⟩, fun _ v listed tagged => ?_, fun _ => bounds⟩
      rcases List.mem_append.mp listed with earlier | last
      · rw [none zero v earlier] at tagged
        cases tagged
      · rw [List.mem_singleton.mp last]
        exact Box.mem_cells.mpr fun axis => ⟨le_rfl, le_rfl⟩
    · rename_i found
      refine ⟨by simp, fun _ => ⟨(cell, true), by simp, rfl⟩, fun _ v listed tagged => ?_, fun _ axis => ?_⟩
      · rw [Box.mem_cells]
        intro axis
        rcases List.mem_append.mp listed with earlier | last
        · have old := Box.mem_cells.mp (holds found v earlier tagged) axis
          exact ⟨(min_le_left _ _).trans old.1, old.2.trans (le_max_left _ _)⟩
        · rw [List.mem_singleton.mp last]
          exact ⟨min_le_right _ _, le_max_right _ _⟩
      · exact ⟨le_min (within found axis).1 (bounds axis).1, max_le (within found axis).2 (bounds axis).2⟩

theorem scanned_foldl {visits : List (Index d × Bool)} (inside : ∀ visit ∈ visits, visit.1 ∈ region.cells) :
    Scanned region visits (visits.foldl scanStep {}) := by
  have start : Scanned region ([] : List (Index d × Bool)) {} :=
    ⟨by simp, by simp, by simp, by simp⟩
  have all : ∀ done (rest : List (Index d × Bool)) scan, (∀ visit ∈ rest, visit.1 ∈ region.cells) →
      Scanned region done scan → Scanned region (done ++ rest) (rest.foldl scanStep scan) := by
    intro done rest
    induction rest generalizing done with
    | nil => exact fun scan _ scanned => by simpa using scanned
    | cons visit rest ih =>
      intro scan within scanned
      have stepped := scanned_step (within visit (by simp)) scanned
      simpa using ih (done ++ [visit]) _ (fun v listed => within v (by simp [listed])) stepped
  simpa using all [] visits {} inside start

variable {mask : TagMask d} {work after : Work} {scan : Scan d}

/-- The patches of the mask are boxes of `int` coordinates. -/
def PatchesFit (mask : TagMask d) : Prop := ∀ patch ∈ mask.patches, patch.box.Fits

/-- A scan finds nothing, or a box inside the region that holds every tagged
cell of the region. -/
theorem scanRegion_ok (fits : PatchesFit mask) (ran : scanRegion mask region work = .ok (scan, after)) :
    (scan.tagged = 0 → ∀ cell ∈ region.cells, ¬ mask.Tagged cell) ∧
      (scan.tagged ≠ 0 → ¬ scan.bounds.Empty ∧ scan.bounds.cells ⊆ region.cells ∧
        ∀ cell ∈ region.cells, mask.Tagged cell → cell ∈ scan.bounds.cells) := by
  simp only [scanRegion, bind_ok, pure_ok] at ran
  obtain ⟨count, -, visitedWork, -, visited, traversed, same⟩ := ran
  obtain ⟨rfl, -⟩ := Prod.mk.inj same
  have member {cell : Index d} {tag : Bool} : (cell, tag) ∈ visited ↔ cell ∈ region.cells ∧
      ∃ patch ∈ mask.patches, cell ∈ patch.box.cells ∧
        tag = patch.tags.getD (patch.box.linear cell) false :=
    TagMask.mem_forEachCellIn fits traversed
  have scanned : Scanned region visited (visited.foldl scanStep {}) :=
    scanned_foldl fun visit listed => (member.mp listed).1
  have tagVisited (cell : Index d) (inside : cell ∈ region.cells) (tagged : mask.Tagged cell) :
      (cell, true) ∈ visited := by
    obtain ⟨patch, known, inPatch, isTagged⟩ := tagged
    exact member.mpr ⟨inside, patch, known, inPatch, isTagged.symm⟩
  constructor
  · intro zero cell inside tagged
    have := scanned.none zero _ (tagVisited cell inside tagged)
    cases this
  · intro found
    obtain ⟨visit, listed, tagged⟩ := scanned.some found
    have holds := scanned.holds found visit listed tagged
    refine ⟨Box.nonempty_of_mem holds, fun cell inBounds => ?_, fun cell inside tagged =>
      scanned.holds found _ (tagVisited cell inside tagged) rfl⟩
    rw [Box.mem_cells] at inBounds ⊢
    intro axis
    have within := scanned.within found axis
    exact ⟨within.1.trans (inBounds axis).1, (inBounds axis).2.trans within.2⟩

end Scans

section Cuts
variable {region child : Box d} {axis : Fin d} {offset : ℤ}

theorem mem_lowered {bound : ℤ} (below : bound ≤ child.hi axis) {cell : Index d} :
    cell ∈ (⟨child.lo, Function.update child.hi axis bound⟩ : Box d).cells ↔
      cell ∈ child.cells ∧ cell axis ≤ bound := by
  simp only [Box.mem_cells]
  constructor
  · intro inside
    have here := inside axis
    rw [Function.update_self] at here
    refine ⟨fun other => ?_, here.2⟩
    by_cases same : other = axis
    · subst same
      omega
    · simpa [same] using inside other
  · rintro ⟨inside, under⟩ other
    by_cases same : other = axis
    · subst same
      rw [Function.update_self]
      exact ⟨(inside other).1, under⟩
    · simpa [same] using inside other

theorem mem_raised {bound : ℤ} (above : child.lo axis ≤ bound) {cell : Index d} :
    cell ∈ (⟨Function.update child.lo axis bound, child.hi⟩ : Box d).cells ↔
      cell ∈ child.cells ∧ bound ≤ cell axis := by
  simp only [Box.mem_cells]
  constructor
  · intro inside
    have here := inside axis
    rw [Function.update_self] at here
    refine ⟨fun other => ?_, here.1⟩
    by_cases same : other = axis
    · subst same
      omega
    · simpa [same] using inside other
  · rintro ⟨inside, beyond⟩ other
    by_cases same : other = axis
    · subst same
      rw [Function.update_self]
      exact ⟨beyond, (inside other).2⟩
    · simpa [same] using inside other

/-- A cut inside the region splits a child that spans the region along the
cut's axis into two packed halves that cover it. -/
theorem packed_halves (nonempty : ¬ child.Empty)
    (spans : child.lo axis = region.lo axis ∧ child.hi axis = region.hi axis)
    (strict : 0 < offset ∧ offset < region.hi axis - region.lo axis + 1) :
    Packed Box.cells child.cells [leftHalf region axis offset child, rightHalf region axis offset child] ∧
      Covers [leftHalf region axis offset child, rightHalf region axis offset child] child.cells := by
  have memLeft {cell : Index d} : cell ∈ (leftHalf region axis offset child).cells ↔
      cell ∈ child.cells ∧ cell axis ≤ region.lo axis + offset - 1 := mem_lowered (by omega)
  have memRight {cell : Index d} : cell ∈ (rightHalf region axis offset child).cells ↔
      cell ∈ child.cells ∧ region.lo axis + offset ≤ cell axis := mem_raised (by omega)
  have leftCorner : child.lo ∈ (leftHalf region axis offset child).cells :=
    memLeft.mpr ⟨Box.lo_mem nonempty, by omega⟩
  have rightCorner : child.hi ∈ (rightHalf region axis offset child).cells :=
    memRight.mpr ⟨Box.hi_mem nonempty, by omega⟩
  refine ⟨⟨?_, ?_, ?_⟩, fun cell inside => ?_⟩
  · intro half listed
    rcases List.mem_pair.mp listed with rfl | rfl
    · exact Finset.ne_empty_of_mem leftCorner
    · exact Finset.ne_empty_of_mem rightCorner
  · intro half listed cell inHalf
    rcases List.mem_pair.mp listed with rfl | rfl
    · exact (memLeft.mp inHalf).1
    · exact (memRight.mp inHalf).1
  · rw [List.pairwise_pair, Finset.disjoint_left]
    intro cell inLeft inRight
    have below := (memLeft.mp inLeft).2
    have above := (memRight.mp inRight).2
    omega
  · rcases lt_or_ge (cell axis) (region.lo axis + offset) with below | above
    · exact ⟨_, by simp, memLeft.mpr ⟨inside, by omega⟩⟩
    · exact ⟨_, by simp, memRight.mpr ⟨inside, above⟩⟩

/-- The children after some cuts: they pack and cover the region, and span it
along every axis that was not cut. -/
structure Partitions (region : Box d) (cutAxes : List (Fin d)) (children : List (Box d)) : Prop where
  packed : Packed Box.cells region.cells children
  covers : Covers children region.cells
  spans : ∀ child ∈ children, ∀ axis ∉ cutAxes,
    child.lo axis = region.lo axis ∧ child.hi axis = region.hi axis

theorem partitions_split {cutAxes : List (Fin d)} {children halves : List (Box d)} {cut : AxisCut d R}
    (nonempty : ¬ region.Empty) (fresh : cut.axis ∉ cutAxes)
    (partitions : Partitions region cutAxes children) (ran : splitAt region children cut = .ok halves) :
    Partitions region (cutAxes ++ [cut.axis]) halves := by
  simp only [splitAt, bind_ok, throwIf_ok, unit_exists, pure_ok, not_or, not_le,
    ge_iff_le, Box.length_of_nonempty nonempty] at ran
  obtain ⟨strict, rfl⟩ := ran
  obtain ⟨packed, covers, spans⟩ := partitions
  have childNonempty (child : Box d) (listed : child ∈ children) : ¬ child.Empty := by
    rw [Box.empty_iff_cells]
    exact packed.nonempty child listed
  have halved (child : Box d) (listed : child ∈ children) :=
    packed_halves (childNonempty child listed) (spans child listed cut.axis fresh) strict
  have order := List.map_append_flatMap_perm children (leftHalf region cut.axis cut.offset)
    fun child => [rightHalf region cut.axis cut.offset child]
  rw [← List.map_eq_flatMap] at order
  refine ⟨(packed.flatMap fun child listed => (halved child listed).1).perm order.symm, ?_, ?_⟩
  · intro cell inside
    obtain ⟨child, listed, inChild⟩ := covers cell inside
    obtain ⟨half, isHalf, inHalf⟩ := (halved child listed).2 cell inChild
    refine ⟨half, order.symm.subset ?_, inHalf⟩
    exact List.mem_flatMap.mpr ⟨child, listed, isHalf⟩
  · intro half listed axis uncut
    simp only [List.mem_append, List.mem_singleton, not_or] at uncut
    rcases List.mem_append.mp listed with left | right
    · obtain ⟨child, known, rfl⟩ := List.mem_map.mp left
      simpa [leftHalf, uncut.2] using spans child known axis uncut.1
    · obtain ⟨child, known, rfl⟩ := List.mem_map.mp right
      simpa [rightHalf, uncut.2] using spans child known axis uncut.1

theorem partitions_foldlM {cuts : List (AxisCut d R)} (nonempty : ¬ region.Empty)
    (different : cuts.Pairwise fun left right => left.axis ≠ right.axis) {children : List (Box d)}
    (ran : cuts.foldlM (splitAt region) [region] = .ok children) :
    Packed Box.cells region.cells children ∧ Covers children region.cells := by
  have general : ∀ (cuts : List (AxisCut d R)) cutAxes before,
      cuts.Pairwise (fun left right => left.axis ≠ right.axis) → (∀ cut ∈ cuts, cut.axis ∉ cutAxes) →
      Partitions region cutAxes before → cuts.foldlM (splitAt region) before = .ok children →
      Packed Box.cells region.cells children ∧ Covers children region.cells := by
    intro cuts
    induction cuts with
    | nil =>
      intro cutAxes before _ _ partitions done
      cases done
      exact ⟨partitions.packed, partitions.covers⟩
    | cons cut cuts ih =>
      intro cutAxes before different fresh partitions done
      obtain ⟨headDifferent, restDifferent⟩ := List.pairwise_cons.mp different
      rw [List.foldlM_cons, bind_ok] at done
      obtain ⟨middle, first, rest⟩ := done
      refine ih (cutAxes ++ [cut.axis]) middle restDifferent (fun other listed => ?_)
        (partitions_split nonempty (fresh cut (by simp)) partitions first) rest
      simp only [List.mem_append, List.mem_singleton, not_or]
      exact ⟨fresh other (by simp [listed]), (headDifferent other listed).symm⟩
  refine general cuts [] [region] different (by simp) ⟨?_, ?_, by simp⟩ ran
  · exact .singleton (Finset.ne_empty_of_mem (Box.lo_mem nonempty)) le_rfl
  · exact fun cell inside => ⟨region, by simp, inside⟩

variable (region) (signature : Fin d → List ℤ) (minBoxSize : Fin d → ℤ)

theorem cutPerAxis_different (best : Fin d → Option (ℤ × R)) :
    (cutPerAxis region minBoxSize best).Pairwise fun left right => left.axis ≠ right.axis := by
  unfold cutPerAxis
  refine List.Pairwise.filterMap _ (fun first second different => ?_) (List.nodup_finRange d)
  intro left isLeft right isRight
  have axisOf {axis : Fin d} {cut : AxisCut d R} (isCut : (if Splittable region minBoxSize axis then
      (best axis).map fun cut => (⟨axis, cut.1, region.length axis, cut.2⟩ : AxisCut d R)
      else none) = some cut) : cut.axis = axis := by
    split at isCut
    · obtain ⟨_, -, rfl⟩ := Option.map_eq_some_iff.mp isCut
      rfl
    · cases isCut
  rwa [axisOf isLeft, axisOf isRight]

theorem keepLike_different {same : AxisCut d R → AxisCut d R → Bool} {selected : Option (AxisCut d R)}
    {cuts : List (AxisCut d R)} (different : cuts.Pairwise fun left right => left.axis ≠ right.axis) :
    (keepLike same selected cuts).Pairwise fun left right => left.axis ≠ right.axis := by
  cases selected with
  | none => exact different
  | some item => exact different.filter _

theorem selectCuts_different [LongDouble R] :
    (selectCuts region signature minBoxSize : List (AxisCut d R)).Pairwise
      fun left right => left.axis ≠ right.axis := by
  unfold selectCuts
  simp only
  split
  · exact keepLike_different (cutPerAxis_different ..)
  · split
    · exact keepLike_different (cutPerAxis_different ..)
    · exact cutPerAxis_different ..

end Cuts

section Recursion
variable [LongDouble R] {mask : TagMask d} {options : ClusterOptions d R}

/-- The boxes a call adds for its candidate: packed in it, and covering its
tagged cells. -/
structure Clusters (mask : TagMask d) (candidate : Box d) (boxes : List (Box d)) : Prop where
  packed : Packed Box.cells candidate.cells boxes
  covers : Covers boxes { cell | cell ∈ candidate.cells ∧ mask.Tagged cell }

theorem clusters_children {region : Box d} {children : List (Box d)} {groups : List (List (Box d))}
    (packed : Packed Box.cells region.cells children) (covers : Covers children region.cells)
    (each : List.Forall₂ (Clusters mask) children groups) : Clusters mask region groups.flatten := by
  refine ⟨packed.flatten (each.imp fun _ _ clusters => clusters.packed), ?_⟩
  rintro cell ⟨inside, tagged⟩
  obtain ⟨child, listed, inChild⟩ := covers cell inside
  obtain ⟨group, isGroup, clusters⟩ := exists_of_forall₂_left each listed
  obtain ⟨box, isBox, inBox⟩ := clusters.covers cell ⟨inChild, tagged⟩
  exact ⟨box, List.mem_flatten.mpr ⟨group, isGroup, isBox⟩, inBox⟩

theorem clusters_within {candidate region : Box d} {boxes : List (Box d)}
    (clusters : Clusters mask region boxes) (inside : region.cells ⊆ candidate.cells)
    (holds : ∀ cell ∈ candidate.cells, mask.Tagged cell → cell ∈ region.cells) :
    Clusters mask candidate boxes := by
  refine ⟨clusters.packed.mono inside, ?_⟩
  rintro cell ⟨inCandidate, tagged⟩
  exact clusters.covers cell ⟨holds cell inCandidate tagged, tagged⟩

theorem clusterRec_ok (fits : PatchesFit mask) {fuel : ℕ} {candidate : Box d}
    {before after : Work × List (Box d)}
    (ran : clusterRec mask options fuel before candidate = .ok after) :
    ∃ boxes, after.2 = before.2 ++ boxes ∧ Clusters mask candidate boxes := by
  induction fuel generalizing candidate before after with
  | zero => cases ran
  | succ fuel ih =>
    obtain ⟨work, output⟩ := before
    simp only [clusterRec, bind_ok] at ran
    obtain ⟨nodes, -, ⟨scan, visited⟩, scanned, ran⟩ := ran
    obtain ⟨nothing, found⟩ := scanRegion_ok fits scanned
    split at ran
    · rename_i zero
      cases ran
      refine ⟨[], by simp, .nil, ?_⟩
      rintro cell ⟨inside, tagged⟩
      exact absurd tagged (nothing zero cell inside)
    · rename_i some
      obtain ⟨nonempty, inside, holds⟩ := found some
      simp only [bind_ok] at ran
      obtain ⟨points, -, ran⟩ := ran
      split at ran
      · simp only [bind_ok, throwIf_ok, unit_exists, pure_ok] at ran
        obtain ⟨-, rfl⟩ := ran
        refine ⟨[scan.bounds], rfl, clusters_within ⟨?_, ?_⟩ inside holds⟩
        · exact .singleton (Finset.ne_empty_of_mem (Box.lo_mem nonempty)) le_rfl
        · exact fun cell member => ⟨scan.bounds, by simp, member.1⟩
      · simp only [bind_ok, throwIf_ok, unit_exists] at ran
        obtain ⟨⟨signature, counted⟩, -, -, children, split, rest⟩ := ran
        obtain ⟨packed, covers⟩ := partitions_foldlM nonempty
          (selectCuts_different _ signature options.minBoxSize) split
        obtain ⟨groups, appended, each⟩ := foldlM_groups
          (fun child _ before after stepped => ih stepped) rest
        exact ⟨groups.flatten, appended, clusters_within (clusters_children packed covers each) inside holds⟩

/-- Every face of the box touches a marked cell. -/
def Tight (marked : Index d → Prop) (box : Box d) : Prop :=
  ∀ axis, (∃ cell, marked cell ∧ cell axis = box.lo axis) ∧ ∃ cell, marked cell ∧ cell axis = box.hi axis

theorem tight_foldl {marked : Index d → Prop} {visits : List (Index d × Bool)}
    (sound : ∀ visit ∈ visits, visit.2 = true → marked visit.1) {scan : Scan d}
    (tight : scan.tagged ≠ 0 → Tight marked scan.bounds) (found : (visits.foldl scanStep scan).tagged ≠ 0) :
    Tight marked (visits.foldl scanStep scan).bounds := by
  induction visits generalizing scan with
  | nil => exact tight found
  | cons visit visits ih =>
    refine ih (fun other listed => sound other (List.mem_cons_of_mem _ listed)) (fun some => ?_) found
    unfold scanStep at some ⊢
    split
    · rename_i untagged
      exact tight (by rwa [if_pos untagged] at some)
    · rename_i tagged
      have here := sound visit List.mem_cons_self (Bool.eq_true_of_not_eq_false tagged)
      split
      · exact fun axis => ⟨⟨_, here, rfl⟩, _, here, rfl⟩
      · rename_i before
        intro axis
        obtain ⟨⟨low, isLow, atLow⟩, high, isHigh, atHigh⟩ := tight before axis
        constructor
        · rcases min_choice (scan.bounds.lo axis) (visit.1 axis) with same | same
          · exact ⟨low, isLow, atLow.trans same.symm⟩
          · exact ⟨visit.1, here, same.symm⟩
        · rcases max_choice (scan.bounds.hi axis) (visit.1 axis) with same | same
          · exact ⟨high, isHigh, atHigh.trans same.symm⟩
          · exact ⟨visit.1, here, same.symm⟩

theorem scanRegion_tight (fits : PatchesFit mask) {region : Box d} {work next : Work} {scan : Scan d}
    (ran : scanRegion mask region work = .ok (scan, next)) (found : scan.tagged ≠ 0) :
    Tight (fun cell => cell ∈ scan.bounds.cells ∧ mask.Tagged cell) scan.bounds := by
  obtain ⟨-, -, holds⟩ := (scanRegion_ok fits ran).2 found
  simp only [scanRegion, bind_ok, pure_ok] at ran
  obtain ⟨_, -, _, -, visited, traversed, same⟩ := ran
  obtain ⟨rfl, -⟩ := Prod.mk.inj same
  refine tight_foldl (fun visit listed tagged => ?_) (fun some => absurd rfl some) found
  obtain ⟨inside, patch, known, inPatch, isTag⟩ := (TagMask.mem_forEachCellIn fits traversed).mp listed
  have isTagged : mask.Tagged visit.1 := ⟨patch, known, inPatch, isTag ▸ tagged⟩
  exact ⟨holds _ inside isTagged, isTagged⟩

/-- Every box the recursion puts out is the least box around its tags. -/
theorem clusterRec_tight (fits : PatchesFit mask) {fuel : ℕ} {candidate : Box d} {before after : Work × List (Box d)}
    (ran : clusterRec mask options fuel before candidate = .ok after) :
    ∃ boxes, after.2 = before.2 ++ boxes ∧
      ∀ box ∈ boxes, Tight (fun cell => cell ∈ box.cells ∧ mask.Tagged cell) box := by
  induction fuel generalizing candidate before after with
  | zero => cases ran
  | succ fuel ih =>
    simp only [clusterRec, bind_ok] at ran
    obtain ⟨_, -, ⟨scan, _⟩, scanned, ran⟩ := ran
    split at ran
    · cases ran
      exact ⟨[], by simp, by simp⟩
    · rename_i found
      simp only [bind_ok] at ran
      obtain ⟨_, -, ran⟩ := ran
      split at ran
      · simp only [bind_ok, throwIf_ok, unit_exists, pure_ok] at ran
        obtain ⟨-, rfl⟩ := ran
        exact ⟨[scan.bounds], rfl, by simpa using scanRegion_tight fits scanned found⟩
      · simp only [bind_ok, throwIf_ok, unit_exists] at ran
        obtain ⟨_, -, -, children, -, rest⟩ := ran
        obtain ⟨groups, appended, each⟩ := foldlM_groups (fun _ _ _ _ stepped => ih stepped) rest
        refine ⟨groups.flatten, appended, fun box listed => ?_⟩
        obtain ⟨group, isGroup, inGroup⟩ := List.mem_flatten.mp listed
        obtain ⟨_, -, tight⟩ := exists_of_forall₂ each isGroup
        exact tight box inGroup

end Recursion

section Shards
variable {shards canonical : List (TagMask d)} {options : ClusterOptions d R}
  {source : LevelLayoutIdentity d}

theorem sortShards_ok {rankSpace : RankSpace d} (ran : sortShards rankSpace shards = .ok canonical) :
    canonical.Perm shards := by
  simp only [sortShards, bind_ok, pure_ok] at ran
  obtain ⟨keyed, mapped, rfl⟩ := ran
  have same : keyed.map Prod.snd = shards.map id := by
    refine map_of_mapM_ok (fun shard pair keyedShard => ?_) mapped
    simp only [bind_ok, pure_ok] at keyedShard
    obtain ⟨_, -, rfl⟩ := keyedShard
    rfl
  rw [List.map_id] at same
  exact same ▸ (List.perm_insertionSort _ keyed).map Prod.snd

/-- What authentication establishes about the canonical shards. -/
structure Authentic (shards canonical : List (TagMask d)) (source : LevelLayoutIdentity d) : Prop where
  nonempty : shards ≠ []
  identity : ∀ shard ∈ shards, shard.levelIdentity = source
  perm : canonical.Perm shards
  coordinates : ∀ rank shard, canonical[rank]? = some shard →
    source.rankSpace.coordinate rank = .ok shard.localRank
  boxes : ∀ shard ∈ canonical, ∀ patch ∈ shard.patches,
    source.patches[patch.globalPatch]? = some patch.box
  owners : source.distributionMode = .partitioned → ∀ shard ∈ canonical, ∀ patch ∈ shard.patches,
    source.owners[patch.globalPatch]? = some shard.localRank
  copies : source.distributionMode = .replicated → ∀ shard ∈ canonical, ∀ other ∈ canonical,
    shard.patches = other.patches

private theorem authenticatePatches_ok {localRank : Index d} {patches : List (PatchTags d)}
    {before after : List Bool}
    (ran : patches.foldlM (authenticatePatch source localRank) before = .ok after) :
    ∀ patch ∈ patches, source.patches[patch.globalPatch]? = some patch.box ∧
      source.owners[patch.globalPatch]? = some localRank := by
  induction patches generalizing before with
  | nil => simp
  | cons patch patches ih =>
    rw [List.foldlM_cons, bind_ok] at ran
    obtain ⟨middle, first, rest⟩ := ran
    simp only [authenticatePatch, bind_ok, throwIf_ok, unit_exists, pure_ok, not_or, not_not, ne_eq] at first
    intro other listed
    rcases List.mem_cons.mp listed with rfl | later
    · exact ⟨first.1, first.2.1.1⟩
    · exact ih rest other later

private theorem authenticateOwned_ok {masks : List (TagMask d)} {before after : List Bool}
    (ran : masks.foldlM (fun seen (shard : TagMask d) =>
      shard.patches.foldlM (authenticatePatch source shard.localRank) seen) before = .ok after) :
    ∀ shard ∈ masks, ∀ patch ∈ shard.patches, source.patches[patch.globalPatch]? = some patch.box ∧
      source.owners[patch.globalPatch]? = some shard.localRank := by
  induction masks generalizing before with
  | nil => simp
  | cons mask masks ih =>
    rw [List.foldlM_cons, bind_ok] at ran
    obtain ⟨middle, first, rest⟩ := ran
    intro shard listed
    rcases List.mem_cons.mp listed with rfl | later
    · exact authenticatePatches_ok first
    · exact ih rest shard later

private theorem authenticateReplicated_ok {reference : List (PatchTags d)} {shard : TagMask d}
    (ran : authenticateReplicated source reference shard = .ok ()) :
    shard.patches = reference ∧ ∀ patch ∈ shard.patches,
      source.patches[patch.globalPatch]? = some patch.box := by
  simp only [authenticateReplicated, bind_ok, throwIf_ok, unit_exists, forM_ok, not_or, not_not,
    ne_eq] at ran
  obtain ⟨same, -, each⟩ := ran
  refine ⟨same, fun patch listed => ?_⟩
  obtain ⟨position, bound, rfl⟩ := List.mem_iff_getElem.mp listed
  have checked := each (shard.patches[position], position)
    (List.mk_mem_zipIdx_iff_getElem?.mpr (List.getElem?_eq_getElem bound))
  rw [checked.1]
  exact checked.2

theorem authenticateShards_ok (ran : authenticateShards shards options = .ok (source, canonical)) :
    Authentic shards canonical source := by
  cases shards with
  | nil => cases ran
  | cons front others =>
    simp only [authenticateShards, bind_ok, throwIf_ok, unit_exists] at ran
    obtain ⟨-, -, agree, sorted, ordered, -, -, covered, ran⟩ := ran
    push Not at agree
    rw [forM_ok] at covered
    have coordinates (rank : ℕ) (shard : TagMask d) (found : sorted[rank]? = some shard) :
        front.levelIdentity.rankSpace.coordinate rank = .ok shard.localRank := by
      have checked := covered (shard, rank) (List.mk_mem_zipIdx_iff_getElem?.mpr found)
      simp only [bind_ok, throwIf_ok, ne_eq, not_not] at checked
      obtain ⟨coordinate, ranked, same⟩ := checked
      rw [ranked, same]
    split at ran
    · rename_i mode
      simp only [bind_ok, unit_exists, pure_ok, Prod.mk.injEq] at ran
      obtain ⟨each, rfl, rfl⟩ := ran
      rw [forM_ok] at each
      refine ⟨by simp, agree, sortShards_ok ordered, coordinates, ?_, ?_, ?_⟩
      · exact fun shard listed => (authenticateReplicated_ok (each shard listed)).2
      · intro partitioned
        rw [mode] at partitioned
        cases partitioned
      · intro _ shard listed other otherListed
        exact (authenticateReplicated_ok (each shard listed)).1.trans
          (authenticateReplicated_ok (each other otherListed)).1.symm
    · rename_i mode
      simp only [bind_ok, throwIf_ok, unit_exists, pure_ok, Prod.mk.injEq] at ran
      obtain ⟨seen, each, -, rfl, rfl⟩ := ran
      have owned := authenticateOwned_ok each
      refine ⟨by simp, agree, sortShards_ok ordered, coordinates, ?_, ?_, ?_⟩
      · exact fun shard listed patch known => (owned shard listed patch known).1
      · exact fun _ shard listed patch known => (owned shard listed patch known).2
      · intro replicated
        rw [mode] at replicated
        cases replicated

theorem at'_ok {α : Type} {items : List α} {position : ℕ} {item : α} :
    at' items position = .ok item ↔ items[position]? = some item := by
  unfold at'
  split <;> simp_all

theorem owner_listed {position : ℕ} {owner : TagMask d} (owns : ownerForPatch canonical source position = .ok owner) :
    owner ∈ canonical := by
  unfold ownerForPatch at owns
  split at owns
  · exact List.mem_of_getElem? (at'_ok.mp owns)
  · simp only [bind_ok, at'_ok] at owns
    obtain ⟨_, -, _, -, found⟩ := owns
    exact List.mem_of_getElem? found

theorem Authentic.patchesFit (authentic : Authentic shards canonical source) {level : LevelLayout d}
    (isSource : level.exactIdentity = source) {mask : TagMask d} (listed : mask ∈ canonical) : PatchesFit mask := by
  have patches : source.patches = level.patches.boxes := by
    rw [← isSource]
    rfl
  exact fun patch known => level.patch_fits (patches ▸ List.mem_of_getElem? (authentic.boxes mask listed patch known))

theorem ownerForPatch_ok (authentic : Authentic shards canonical source) {shard owner : TagMask d}
    (listed : shard ∈ shards) {patch : PatchTags d} (known : patch ∈ shard.patches)
    (owns : ownerForPatch canonical source patch.globalPatch = .ok owner) : patch ∈ owner.patches := by
  have inCanonical := authentic.perm.mem_iff.mpr listed
  unfold ownerForPatch at owns
  split at owns
  · rename_i mode
    rw [authentic.copies mode owner (List.mem_of_getElem? (at'_ok.mp owns)) shard inCanonical]
    exact known
  · rename_i mode
    simp only [bind_ok, at'_ok] at owns
    obtain ⟨ownerRank, owned, rank, ranked, found⟩ := owns
    have same := authentic.owners mode shard inCanonical patch known
    obtain rfl : shard.localRank = ownerRank := Option.some.inj (same.symm.trans owned)
    obtain ⟨position, atPosition⟩ := List.mem_iff_getElem?.mp inCanonical
    have ownerCoordinate := authentic.coordinates rank owner found
    rw [RankSpace.coordinate_linearRank ranked ownerCoordinate] at ownerCoordinate
    -- two shards with one coordinate sit at one rank
    have one := RankSpace.coordinate_injective ownerCoordinate (authentic.coordinates position shard atPosition)
    rw [← one, found] at atPosition
    rwa [Option.some.inj atPosition]

end Shards

/-- The bounds the order compares, axis by axis. -/
def boundsOf (box : Box d) (axes : List (Fin d)) : List ℤ :=
  axes.flatMap fun axis => [box.lo axis, box.hi axis]

theorem lexicographicLessFrom_iff {left right : Box d} (axes : List (Fin d)) :
    lexicographicLessFrom left right axes = true ↔ boundsOf left axes < boundsOf right axes := by
  induction axes with
  | nil => simp [lexicographicLessFrom, boundsOf]
  | cons axis axes ih =>
    unfold lexicographicLessFrom
    simp only [boundsOf, List.flatMap_cons, List.cons_append, List.nil_append, List.cons_lt_cons_iff]
    split
    · rename_i different
      simp [different]
    · rename_i lower
      split
      · rename_i different
        simp [not_not.mp lower, different]
      · rename_i upper
        rw [ih]
        simp [not_not.mp lower, not_not.mp upper, boundsOf]

theorem boundsOf_injective {left right : Box d}
    (same : boundsOf left (List.finRange d) = boundsOf right (List.finRange d)) : left = right := by
  have each : ∀ axes : List (Fin d), boundsOf left axes = boundsOf right axes →
      ∀ axis ∈ axes, left.lo axis = right.lo axis ∧ left.hi axis = right.hi axis := by
    intro axes
    induction axes with
    | nil => simp
    | cons head axes ih =>
      intro same axis listed
      simp only [boundsOf, List.flatMap_cons, List.cons_append, List.nil_append, List.cons.injEq] at same
      rcases List.mem_cons.mp listed with rfl | later
      · exact ⟨same.1, same.2.1⟩
      · exact ih same.2.2 axis later
  cases left with
  | mk lo hi =>
    cases right with
    | mk otherLo otherHi =>
      congr 1 <;> funext axis
      · exact (each _ same axis (List.mem_finRange axis)).1
      · exact (each _ same axis (List.mem_finRange axis)).2

theorem notAfter_iff {left right : Box d} : NotAfter left right ↔
    boundsOf left (List.finRange d) ≤ boundsOf right (List.finRange d) := by
  rw [NotAfter, ← Bool.not_eq_true, lexicographicLess, lexicographicLessFrom_iff, not_lt]

instance : Std.Total (α := Box d) NotAfter :=
  ⟨fun _ _ => by rw [notAfter_iff, notAfter_iff]; exact le_total _ _⟩

instance : IsTrans (Box d) NotAfter :=
  ⟨fun _ _ _ first second => notAfter_iff.mpr ((notAfter_iff.mp first).trans (notAfter_iff.mp second))⟩

theorem pairwise_sorted {boxes : List (Box d)} (distinct : boxes.Nodup) :
    (boxes.insertionSort NotAfter).Pairwise fun left right => lexicographicLess left right = true := by
  have sorted := List.pairwise_insertionSort NotAfter boxes
  have different := (List.perm_insertionSort NotAfter boxes).nodup_iff.mpr distinct
  refine sorted.imp₂ (fun left right ordered apart => ?_) different
  rw [lexicographicLess, lexicographicLessFrom_iff]
  exact lt_of_le_of_ne (notAfter_iff.mp ordered) fun same => apart (boundsOf_injective same)

section Result
variable [LongDouble R] {shards : List (TagMask d)} {options : ClusterOptions d R}

/-- Chopped boxes pack and cover the raw box, within the maximum size. -/
structure Chopped (limits : Extent d) (box : Box d) (pieces : List (Box d)) : Prop where
  packed : Packed Box.cells box.cells pieces
  covers : Covers pieces box.cells
  short : ∀ piece ∈ pieces, ∀ axis, piece.length axis ≤ limits axis

omit [LongDouble R] in
theorem chop_ok {box : Box d} (fits : box.Fits) {before after : Work × List (Box d)}
    (ran : chop options before box = .ok after) :
    ∃ pieces, after.2 = before.2 ++ pieces ∧ Chopped options.maxBoxSize box pieces := by
  simp only [chop, bind_ok, pure_ok] at ran
  obtain ⟨_, -, _, -, pieces, tiled, rfl⟩ := ran
  obtain ⟨packed, covers, short⟩ := BoxArray.fromDomain_ok fits tiled
  exact ⟨pieces.boxes, rfl, packed, covers, short⟩

/-- What a source patch contributes, for the mask that owns it. -/
def PatchClusters (canonical : List (TagMask d)) (source : LevelLayoutIdentity d) (patch : Box d × ℕ)
    (boxes : List (Box d)) : Prop :=
  ∃ owner, ownerForPatch canonical source patch.2 = .ok owner ∧ Clusters owner patch.1 boxes

theorem raw_ok {canonical : List (TagMask d)} {source : LevelLayoutIdentity d}
    (authentic : Authentic shards canonical source) {level : LevelLayout d}
    (isSource : level.exactIdentity = source) {start after : Work × List (Box d)} (empty : start.2 = [])
    (ran : source.patches.zipIdx.foldlM (clusterPatch canonical source options) start = .ok after) :
    Packed Box.cells level.domain.cells after.2 ∧
      (∀ box ∈ after.2, ∃ patch ∈ level.patches.boxes, box.cells ⊆ patch.cells) ∧
        ∀ shard ∈ shards, Covers after.2 { cell | shard.Tagged cell } := by
  have patches : source.patches = level.patches.boxes := by
    rw [← isSource]
    rfl
  have appends : ∀ patch ∈ source.patches.zipIdx, ∀ before after,
      clusterPatch canonical source options before patch = .ok after →
        ∃ boxes, after.2 = before.2 ++ boxes ∧ PatchClusters canonical source patch boxes := by
    intro patch _ before after stepped
    simp only [clusterPatch, bind_ok, throwIf_ok, unit_exists] at stepped
    obtain ⟨-, owner, owns, ran⟩ := stepped
    obtain ⟨boxes, added, clusters⟩ := clusterRec_ok (authentic.patchesFit isSource (owner_listed owns)) ran
    exact ⟨boxes, added, owner, owns, clusters⟩
  obtain ⟨groups, appended, each⟩ := foldlM_groups appends ran
  rw [empty, List.nil_append] at appended
  rw [appended]
  have byPatch : List.Forall₂ (fun patch group => Packed Box.cells (Box.cells patch) group)
      level.patches.boxes groups := by
    rw [← patches, ← List.zipIdx_map_fst 0 source.patches, List.forall₂_map_left_iff]
    refine each.imp fun patch group clustered => ?_
    obtain ⟨_, _, clusters⟩ := clustered
    exact clusters.packed
  refine ⟨level.packed.flatten byPatch, fun box listed => ?_, fun shard listed cell tagged => ?_⟩
  · obtain ⟨group, isGroup, inGroup⟩ := List.mem_flatten.mp listed
    obtain ⟨patch, known, packed⟩ := exists_of_forall₂ byPatch isGroup
    exact ⟨patch, known, packed.inside box inGroup⟩
  · obtain ⟨patch, known, inPatch, isTagged⟩ := tagged
    have isBox := authentic.boxes shard (authentic.perm.mem_iff.mpr listed) patch known
    obtain ⟨group, isGroup, owner, owns, clusters⟩ := exists_of_forall₂_left each
      (List.mk_mem_zipIdx_iff_getElem?.mpr isBox)
    have ownerTagged : owner.Tagged cell :=
      ⟨patch, ownerForPatch_ok authentic listed known owns, inPatch, isTagged⟩
    obtain ⟨box, isMember, inBox⟩ := clusters.covers cell ⟨inPatch, ownerTagged⟩
    exact ⟨box, List.mem_flatten.mpr ⟨group, isGroup, isMember⟩, inBox⟩

theorem cluster_identity {sizes : ObjectSizes} {result : ClusterResult d R}
    (ran : cluster sizes shards options = .ok result) {shard : TagMask d} (listed : shard ∈ shards) :
    result.identity.provider = identity ∧ result.identity.sourceLevel = shard.level.exactIdentity ∧
      result.identity.boxes = result.boxes.boxes := by
  simp only [cluster, bind_ok, unit_exists, pure_ok] at ran
  obtain ⟨-, ⟨source, canonical⟩, authenticated, _, -, _, -, _, -, _, -, _, -, _, -, _, -, _, -, _, -, _, -,
    _, -, _, -, rfl⟩ := ran
  exact ⟨rfl, ((authenticateShards_ok authenticated).identity shard listed).symm, rfl⟩

/-- The boxes before the identity is built. -/
def clusterBoxes (canonical : List (TagMask d)) (source : LevelLayoutIdentity d) (options : ClusterOptions d R) :
    Checked (List (Box d)) := do
  let (work, raw) ← source.patches.zipIdx.foldlM (clusterPatch canonical source options)
    (⟨options.budget, 0, 0, 0, 0⟩, [])
  let (_, boxes) ← raw.foldlM (chop options) (work, [])
  return boxes.insertionSort NotAfter

theorem clusterBoxes_of_cluster {sizes : ObjectSizes} {result : ClusterResult d R}
    (ran : cluster sizes shards options = .ok result) :
    validateOptions options = .ok () ∧ ∃ source canonical, authenticateShards shards options = .ok (source, canonical) ∧
      clusterBoxes canonical source options = .ok result.boxes.boxes := by
  simp only [cluster, bind_ok, unit_exists, pure_ok] at ran
  obtain ⟨accepted, ⟨source, canonical⟩, authenticated, ⟨work, raw⟩, clustered, ⟨choppedWork, boxes⟩, chopped, _, -, _,
    -, _, -, _, -, _, -, _, -, _, -, _, -, _, -, _, -, rfl⟩ := ran
  refine ⟨accepted, source, canonical, authenticated, ?_⟩
  simp only [clusterBoxes, bind_ok, pure_ok]
  exact ⟨(work, raw), clustered, (choppedWork, boxes), chopped, rfl⟩

/-- The boxes of a clustering are non-empty, disjoint, each inside one source
patch, cover every tagged cell, keep the maximum size, and are sorted. -/
theorem cluster_ok {sizes : ObjectSizes} {result : ClusterResult d R}
    (ran : cluster sizes shards options = .ok result) :
    (∀ box ∈ result.boxes.boxes, ¬ box.Empty) ∧
      (result.boxes.boxes.Pairwise fun left right => Disjoint left.cells right.cells) ∧
      (∀ shard ∈ shards, ∀ box ∈ result.boxes.boxes,
        ∃ patch ∈ shard.level.patches.boxes, box.cells ⊆ patch.cells) ∧
      (∀ shard ∈ shards, ∀ cell, shard.Tagged cell → ∃ box ∈ result.boxes.boxes, cell ∈ box.cells) ∧
      (∀ box ∈ result.boxes.boxes, ∀ axis, box.length axis ≤ options.maxBoxSize axis) ∧
      result.boxes.boxes.Pairwise fun left right => lexicographicLess left right = true := by
  obtain ⟨-, source, canonical, authenticated, made⟩ := clusterBoxes_of_cluster ran
  simp only [clusterBoxes, bind_ok, pure_ok] at made
  obtain ⟨⟨clusteredWork, raw⟩, clustered, ⟨choppedWork, boxes⟩, chopped, sorted⟩ := made
  rw [← sorted]
  have authentic := authenticateShards_ok authenticated
  have rawOf (shard : TagMask d) (listed : shard ∈ shards) :=
    raw_ok authentic (authentic.identity shard listed) rfl clustered
  obtain ⟨first, firstListed⟩ := List.exists_mem_of_ne_nil _ authentic.nonempty
  obtain ⟨packed, inPatch, -⟩ := rawOf first firstListed
  have rawFits : ∀ box ∈ raw, box.Fits := BoxArray.fits_of_packed first.level.domainFits packed
  obtain ⟨groups, appended, each⟩ := foldlM_groups
    (fun box listed before after stepped => chop_ok (rawFits box listed) stepped) chopped
  obtain rfl : boxes = groups.flatten := appended
  have pieces := packed.flatten (each.imp fun _ _ cut => cut.packed)
  have order := List.perm_insertionSort NotAfter groups.flatten
  have sortedPacked := pieces.perm order.symm
  have ofRaw {piece : Box d} (listed : piece ∈ groups.flatten.insertionSort NotAfter) :
      ∃ box ∈ raw, piece.cells ⊆ box.cells ∧
        ∀ axis, piece.length axis ≤ options.maxBoxSize axis := by
    obtain ⟨group, isGroup, inGroup⟩ := List.mem_flatten.mp (order.subset listed)
    obtain ⟨box, known, cut⟩ := exists_of_forall₂ each isGroup
    exact ⟨box, known, cut.packed.inside piece inGroup, cut.short piece inGroup⟩
  refine ⟨?_, sortedPacked.disjoint, ?_, ?_, ?_, pairwise_sorted pieces.nodup⟩
  · intro piece listed
    rw [Box.empty_iff_cells]
    exact sortedPacked.nonempty piece listed
  · intro shard shardListed piece listed
    obtain ⟨box, known, inside, -⟩ := ofRaw listed
    obtain ⟨patch, isPatch, inPatch⟩ := (rawOf shard shardListed).2.1 box known
    exact ⟨patch, isPatch, inside.trans inPatch⟩
  · intro shard shardListed cell tagged
    obtain ⟨box, known, inBox⟩ := (rawOf shard shardListed).2.2 shard shardListed cell tagged
    obtain ⟨group, isGroup, cut⟩ := exists_of_forall₂_left each known
    obtain ⟨piece, inGroup, inPiece⟩ := cut.covers cell inBox
    exact ⟨piece, order.symm.subset (List.mem_flatten.mpr ⟨group, isGroup, inGroup⟩), inPiece⟩
  · intro piece listed
    obtain ⟨_, -, -, short⟩ := ofRaw listed
    exact short

end Result

/-- Exact arithmetic is one admissible `long double`. -/
instance exactArithmetic : LongDouble ℚ where
  ofInt value := value
  add := (· + ·)
  sub := (· - ·)
  mul := (· * ·)
  div := (· / ·)
  abs value := if value < 0 then -value else value
  less left right := left < right
  lessEq left right := left ≤ right
  equal left right := left = right
  isFinite _ := true

def linePatches : BoxArray 1 := ⟨[segment 0 3, segment 4 7]⟩

def lineLevel : LevelLayout 1 where
  level := 0
  domain := segment 0 7
  domainFits := segment_fits
  patches := linePatches
  distribution := ⟨linePatches, oneRank, .partitioned, [fun _ => 0, fun _ => 0], rfl⟩
  ratioFromParent := .identity
  validationBudget := ⟨2, 1⟩
  valid := rfl

/-- A hole in the first patch, and a tagged run longer than the maximum size
in the second. -/
def lineMask : TagMask 1 where
  level := lineLevel
  localRank _ := 0
  rankKnown := by decide
  patches :=
    [⟨0, segment 0 3, [true, false, false, true]⟩, ⟨1, segment 4 7, [true, true, false, false]⟩]

def lineOptions : ClusterOptions 1 ℚ := ⟨1, fun _ => 1, fun _ => 1, ⟨1, 10, 100, 10, 1000⟩⟩

def lineSizes : ObjectSizes := ⟨8, 4, 48, 40⟩

theorem cluster_ok_line : ∃ result, cluster lineSizes [lineMask] lineOptions = .ok result ∧
    (∀ cell, lineMask.Tagged cell → ∃ box ∈ result.boxes.boxes, cell ∈ box.cells) ∧
      result.boxes.boxes.Pairwise fun left right => lexicographicLess left right = true := by
  obtain ⟨result, ran⟩ := exists_of_isOk
    (show (cluster lineSizes [lineMask] lineOptions).isOk = true by decide +kernel)
  obtain ⟨-, -, -, covers, -, sorted⟩ := cluster_ok ran
  exact ⟨result, ran, covers lineMask (by simp), sorted⟩

theorem clusterRec_tight_line : ∃ after : Work × List (Box 1),
    clusterRec lineMask lineOptions 9 (⟨lineOptions.budget, 0, 0, 0, 0⟩, []) (segment 0 3) = .ok after ∧
      ∃ boxes, after.2 = [] ++ boxes ∧
        ∀ box ∈ boxes, Tight (fun cell => cell ∈ box.cells ∧ lineMask.Tagged cell) box := by
  obtain ⟨after, ran⟩ := exists_of_isOk (show (clusterRec lineMask lineOptions 9 (⟨lineOptions.budget, 0, 0, 0, 0⟩, [])
    (segment 0 3)).isOk = true by decide +kernel)
  exact ⟨after, ran, clusterRec_tight (by unfold PatchesFit; decide) ran⟩

end Pops.BergerRigoutsos
