import Pops.PatchTopology

/-!
The archived patches are accepted exactly when they list disjoint patches inside
their levels, level by level, and come back as they were. The owners go to the
patches of their level in order, and each is used once.
-/
namespace Pops.PatchTopology

variable {shape : List ℤ} {patches : List Patch} {patch : Patch} {dimension : ℕ} {boxes : List Patch}
  {owners : List ℤ} {cursor : ℤ → ℕ}

theorem cellCountLoop_bounds {count total : ℤ} (positive : 1 ≤ count)
    (counted : cellCountLoop count shape = .ok total) : ∀ extent ∈ shape, 1 ≤ extent ∧ extent ≤ maxsize := by
  induction shape generalizing count with
  | nil => simp
  | cons extent rest ih =>
    unfold cellCountLoop at counted
    split at counted
    · cases counted
    split at counted
    · cases counted
    rename_i extent_pos room
    have extent_ge : 1 ≤ extent := not_lt.mp extent_pos
    have product : count * extent ≤ maxsize := by
      have bound := Int.mul_le_of_le_ediv (by omega) (not_lt.mp room)
      exact bound
    have grows : extent ≤ count * extent := le_mul_of_one_le_left (by omega) positive
    intro other member
    rcases List.mem_cons.mp member with rfl | later
    · exact ⟨extent_ge, le_trans grows product⟩
    · exact ih (le_trans extent_ge grows) counted other later

theorem cellCountLoop_prod {count total : ℤ} (bounded : count ≤ maxsize)
    (counted : cellCountLoop count shape = .ok total) : total = count * shape.prod ∧ total ≤ maxsize := by
  induction shape generalizing count with
  | nil =>
    cases counted
    rw [List.prod_nil, mul_one]
    exact ⟨rfl, bounded⟩
  | cons extent rest ih =>
    unfold cellCountLoop at counted
    split at counted
    · cases counted
    split at counted
    · cases counted
    rename_i extent_pos room
    have product : count * extent ≤ maxsize := Int.mul_le_of_le_ediv (by omega) (not_lt.mp room)
    obtain ⟨total_eq, total_le⟩ := ih product counted
    rw [List.prod_cons, ← mul_assoc]
    exact ⟨total_eq, total_le⟩

theorem prod_pos {factors : List ℤ} (positive : ∀ factor ∈ factors, 1 ≤ factor) : 1 ≤ factors.prod := by
  induction factors with
  | nil => simp
  | cons factor rest ih =>
    have first := positive factor (List.mem_cons_self ..)
    have later := ih fun other member => positive other (List.mem_cons_of_mem _ member)
    rw [List.prod_cons]
    exact one_le_mul_of_one_le_of_one_le first later

theorem two_le_prod {factors : List ℤ} (positive : ∀ factor ∈ factors, 1 ≤ factor)
    (refines : ∃ factor ∈ factors, 1 < factor) : 2 ≤ factors.prod := by
  induction factors with
  | nil =>
    obtain ⟨factor, member, -⟩ := refines
    cases member
  | cons factor rest ih =>
    have first := positive factor (List.mem_cons_self ..)
    have rest_positive := fun other member => positive other (List.mem_cons_of_mem factor member)
    have later := prod_pos rest_positive
    rw [List.prod_cons]
    obtain ⟨refining, member, large⟩ := refines
    rcases List.mem_cons.mp member with rfl | here
    · nlinarith
    · have doubled := ih rest_positive ⟨refining, here, large⟩
      nlinarith

theorem refineShape_ok {shape ratio finer : List ℤ} (rank : ratio.length = shape.length)
    (refined : refineShape shape ratio = .ok finer) :
    finer.length = shape.length ∧ finer.prod = shape.prod * ratio.prod := by
  induction shape generalizing ratio finer with
  | nil =>
    obtain rfl := List.length_eq_zero_iff.mp rank
    cases refined
    exact ⟨rfl, rfl⟩
  | cons extent shape ih =>
    cases ratio with
    | nil => cases rank
    | cons factor ratio =>
      unfold refineShape at refined
      split at refined
      · cases refined
      split at refined
      · cases refined
      · rename_i rest refined_rest
        cases refined
        obtain ⟨length_eq, prod_eq⟩ := ih (Nat.succ.inj rank) refined_rest
        refine ⟨congrArg Nat.succ length_eq, ?_⟩
        rw [List.prod_cons, List.prod_cons, List.prod_cons, prod_eq]
        ring

theorem refineLevels_ok {shape finer : List ℤ} {ratios : List (List ℤ)} (positive : 1 ≤ shape.prod)
    (rank : ∀ ratio ∈ ratios, ratio.length = shape.length) (refines : ∀ ratio ∈ ratios, 2 ≤ ratio.prod)
    (refined : refineLevels shape ratios = .ok finer) :
    finer.length = shape.length ∧ ratios.length + shape.prod ≤ finer.prod := by
  induction ratios generalizing shape with
  | nil =>
    cases refined
    exact ⟨rfl, by simp⟩
  | cons ratio rest ih =>
    unfold refineLevels at refined
    split at refined
    · cases refined
    · rename_i coarse step
      obtain ⟨length_eq, prod_eq⟩ := refineShape_ok (rank ratio (List.mem_cons_self ..)) step
      have doubled := refines ratio (List.mem_cons_self ..)
      have grows : shape.prod + 1 ≤ coarse.prod := by
        rw [prod_eq]
        nlinarith
      obtain ⟨rest_length, rest_prod⟩ := ih (by omega)
        (fun other member => (rank other (List.mem_cons_of_mem _ member)).trans length_eq.symm)
        (fun other member => refines other (List.mem_cons_of_mem _ member)) refined
      refine ⟨rest_length.trans length_eq, ?_⟩
      rw [List.length_cons]
      push_cast
      omega

theorem shapeAtLevel_bounds {spatial : CheckpointSpatialContract} {level : ℤ}
    (domain : spatial.shapeAtLevel level = .ok shape) :
    shape.length = spatial.dimension ∧ (∀ extent ∈ shape, extent ≤ maxsize) ∧ level < maxsize := by
  unfold CheckpointSpatialContract.shapeAtLevel at domain
  split at domain
  · cases domain
  rename_i known
  split at domain
  · cases domain
  rename_i result refined
  split at domain
  · cases domain
  rename_i total counted
  cases domain
  obtain ⟨length_eq, prod_le⟩ := refineLevels_ok (prod_pos spatial.shape_pos)
    (fun ratio member => (spatial.ratio_length ratio (List.mem_of_mem_take member)).trans spatial.shape_length.symm)
    (fun ratio member => two_le_prod (spatial.ratio_pos ratio (List.mem_of_mem_take member))
      (spatial.ratio_refines ratio (List.mem_of_mem_take member))) refined
  unfold cellCount at counted
  split at counted
  · cases counted
  refine ⟨length_eq.trans spatial.shape_length, ?_, ?_⟩
  · intro extent member
    exact (cellCountLoop_bounds (le_refl 1) counted extent member).2
  · obtain ⟨total_eq, total_le⟩ := cellCountLoop_prod (by decide) counted
    have cells := prod_pos spatial.shape_pos
    rw [List.length_take, Nat.min_eq_left (by omega)] at prod_le
    omega

/-- A cell of the patch. -/
def Patch.Covers (patch : Patch) (cell : List ℤ) : Prop :=
  List.Forall₂ (· ≤ ·) patch.lower cell ∧ List.Forall₂ (· ≤ ·) cell patch.upper

/-- No cell lies in both. -/
def Patch.Disjoint (patch other : Patch) : Prop := ∀ cell, ¬ (patch.Covers cell ∧ other.Covers cell)

/-- The patch is a box of cells of the domain. -/
structure Patch.Inside (patch : Patch) (shape : List ℤ) : Prop where
  start : ∀ low ∈ patch.lower, 0 ≤ low
  proper : List.Forall₂ (· ≤ ·) patch.lower patch.upper
  stop : List.Forall₂ (· < ·) patch.upper shape

theorem outside_iff {lower upper shape : List ℤ} (level : ℤ) (bounds : lower.length = upper.length)
    (rank : lower.length = shape.length) :
    (⟨level, lower, upper⟩ : Patch).outside shape = false ↔ (⟨level, lower, upper⟩ : Patch).Inside shape := by
  induction lower generalizing upper shape with
  | nil =>
    obtain rfl := List.length_eq_zero_iff.mp bounds.symm
    obtain rfl := List.length_eq_zero_iff.mp rank.symm
    constructor
    · intro _
      exact ⟨by simp, .nil, .nil⟩
    · intro _
      rfl
  | cons low lower ih =>
    cases upper with
    | nil => cases bounds
    | cons high upper =>
      cases shape with
      | nil => cases rank
      | cons extent shape =>
        have rest := ih (Nat.succ.inj bounds) (Nat.succ.inj rank)
        have first : (⟨level, low :: lower, high :: upper⟩ : Patch).outside (extent :: shape) =
            ((low < 0 || high < low || high ≥ extent) || (⟨level, lower, upper⟩ : Patch).outside shape) := rfl
        rw [first, Bool.or_eq_false_iff, rest]
        simp only [ge_iff_le, Bool.or_eq_false_iff, decide_eq_false_iff_not, not_lt, not_le]
        constructor
        · rintro ⟨⟨⟨start, proper⟩, stop⟩, inside⟩
          refine ⟨?_, .cons proper inside.proper, .cons stop inside.stop⟩
          intro value member
          rcases List.mem_cons.mp member with rfl | later
          · exact start
          · exact inside.start value later
        · rintro ⟨start, proper, stop⟩
          obtain ⟨proper, proper_rest⟩ := List.forall₂_cons.mp proper
          obtain ⟨stop, stop_rest⟩ := List.forall₂_cons.mp stop
          refine ⟨⟨⟨start low (List.mem_cons_self ..), proper⟩, stop⟩, ?_, proper_rest, stop_rest⟩
          intro value member
          exact start value (List.mem_cons_of_mem _ member)

theorem overlaps_iff {lower upper otherLower otherUpper : List ℤ} (level otherLevel : ℤ)
    (bounds : lower.length = upper.length) (rank : lower.length = otherLower.length)
    (otherBounds : lower.length = otherUpper.length) :
    (⟨level, lower, upper⟩ : Patch).overlaps ⟨otherLevel, otherLower, otherUpper⟩ = true ↔
      List.Forall₂ (· ≤ ·) otherLower upper ∧ List.Forall₂ (· ≤ ·) lower otherUpper := by
  induction lower generalizing upper otherLower otherUpper with
  | nil =>
    obtain rfl := List.length_eq_zero_iff.mp bounds.symm
    obtain rfl := List.length_eq_zero_iff.mp rank.symm
    obtain rfl := List.length_eq_zero_iff.mp otherBounds.symm
    constructor
    · intro _
      exact ⟨.nil, .nil⟩
    · intro _
      rfl
  | cons low lower ih =>
    cases upper with
    | nil => cases bounds
    | cons high upper =>
      cases otherLower with
      | nil => cases rank
      | cons otherLow otherLower =>
        cases otherUpper with
        | nil => cases otherBounds
        | cons otherHigh otherUpper =>
          have rest := ih (Nat.succ.inj bounds) (Nat.succ.inj rank) (Nat.succ.inj otherBounds)
          have first : (⟨level, low :: lower, high :: upper⟩ : Patch).overlaps
                ⟨otherLevel, otherLow :: otherLower, otherHigh :: otherUpper⟩ =
              (!(high < otherLow || otherHigh < low) &&
                (⟨level, lower, upper⟩ : Patch).overlaps ⟨otherLevel, otherLower, otherUpper⟩) := rfl
          rw [first, Bool.and_eq_true, rest, List.forall₂_cons, List.forall₂_cons]
          simp only [Bool.not_eq_true', Bool.or_eq_false_iff, decide_eq_false_iff_not, not_lt]
          constructor
          · rintro ⟨⟨above, below⟩, aboveRest, belowRest⟩
            exact ⟨⟨above, aboveRest⟩, below, belowRest⟩
          · rintro ⟨⟨above, aboveRest⟩, below, belowRest⟩
            exact ⟨⟨above, below⟩, aboveRest, belowRest⟩

theorem forall₂_trans {first second third : List ℤ} (left : List.Forall₂ (· ≤ ·) first second)
    (right : List.Forall₂ (· ≤ ·) second third) : List.Forall₂ (· ≤ ·) first third := by
  induction left generalizing third with
  | nil => exact right
  | cons le _ ih =>
    cases right with
    | cons next later => exact .cons (le_trans le next) (ih later)

theorem common_cell {lower upper otherLower otherUpper : List ℤ} (proper : List.Forall₂ (· ≤ ·) lower upper)
    (otherProper : List.Forall₂ (· ≤ ·) otherLower otherUpper)
    (above : List.Forall₂ (· ≤ ·) otherLower upper) (below : List.Forall₂ (· ≤ ·) lower otherUpper) :
    ∃ cell, List.Forall₂ (· ≤ ·) lower cell ∧ List.Forall₂ (· ≤ ·) cell upper ∧
      List.Forall₂ (· ≤ ·) otherLower cell ∧ List.Forall₂ (· ≤ ·) cell otherUpper := by
  induction proper generalizing otherLower otherUpper with
  | nil =>
    cases above
    cases below
    exact ⟨[], .nil, .nil, .nil, .nil⟩
  | @cons low high _ _ le _ ih =>
    cases above with
    | @cons otherLow _ _ _ above aboveRest =>
      cases below with
      | @cons _ otherHigh _ _ below belowRest =>
        obtain ⟨otherLe, otherRest⟩ := List.forall₂_cons.mp otherProper
        obtain ⟨cell, first, second, third, fourth⟩ := ih otherRest aboveRest belowRest
        exact ⟨max low otherLow :: cell, .cons (le_max_left _ _) first, .cons (max_le le above) second,
          .cons (le_max_right _ _) third, .cons (max_le below otherLe) fourth⟩

theorem overlaps_eq_false_iff {patch other : Patch} (inside : patch.Inside shape)
    (otherInside : other.Inside shape) : patch.overlaps other = false ↔ other.Disjoint patch := by
  have bounds := inside.proper.length_eq
  have rank := inside.stop.length_eq
  have otherBounds := otherInside.proper.length_eq
  have otherRank := otherInside.stop.length_eq
  have overlap : patch.overlaps other = true ↔
      List.Forall₂ (· ≤ ·) other.lower patch.upper ∧ List.Forall₂ (· ≤ ·) patch.lower other.upper :=
    overlaps_iff patch.level other.level bounds (by omega) (by omega)
  constructor
  · intro apart cell ⟨otherCovers, covers⟩
    have meets := overlap.mpr ⟨forall₂_trans otherCovers.1 covers.2, forall₂_trans covers.1 otherCovers.2⟩
    rw [apart] at meets
    cases meets
  · intro disjoint
    by_contra meets
    rw [Bool.not_eq_false] at meets
    obtain ⟨above, below⟩ := overlap.mp meets
    obtain ⟨cell, first, second, third, fourth⟩ := common_cell inside.proper otherInside.proper above below
    exact disjoint cell ⟨⟨third, fourth⟩, first, second⟩

variable {spatial : CheckpointSpatialContract} {levelCount : ℕ}

/-- The patch is a box of the domain of its level. -/
def InDomain (spatial : CheckpointSpatialContract) (patch : Patch) : Prop :=
  ∃ shape, spatial.shapeAtLevel patch.level = .ok shape ∧ patch.Inside shape

/-- Fine patches level by level, inside their domains and disjoint within a level. -/
structure Listing (spatial : CheckpointSpatialContract) (levelCount : ℕ) (patches : List Patch) : Prop where
  fine : ∀ patch ∈ patches, 1 ≤ patch.level ∧ patch.level < levelCount
  ordered : patches.Pairwise fun patch next => patch.level ≤ next.level
  inside : ∀ patch ∈ patches, InDomain spatial patch
  disjoint : patches.Pairwise fun patch next => patch.level = next.level → patch.Disjoint next

theorem Listing.left {patches rest : List Patch} (listing : Listing spatial levelCount (patches ++ rest)) :
    Listing spatial levelCount patches where
  fine patch member := listing.fine patch (List.mem_append_left _ member)
  ordered := (List.pairwise_append.mp listing.ordered).1
  inside patch member := listing.inside patch (List.mem_append_left _ member)
  disjoint := (List.pairwise_append.mp listing.disjoint).1

theorem listing_snoc :
    Listing spatial levelCount (patches ++ [patch]) ↔
      Listing spatial levelCount patches ∧ (1 ≤ patch.level ∧ patch.level < levelCount) ∧
        (∀ other ∈ patches, other.level ≤ patch.level) ∧ InDomain spatial patch ∧
        ∀ other ∈ patches, other.level = patch.level → other.Disjoint patch := by
  have last : patch ∈ patches ++ [patch] := List.mem_append_right _ (List.mem_singleton_self patch)
  constructor
  · intro listing
    refine ⟨listing.left, listing.fine patch last, ?_, listing.inside patch last, ?_⟩
    · intro other member
      exact (List.pairwise_append.mp listing.ordered).2.2 other member patch (List.mem_singleton_self patch)
    · intro other member
      exact (List.pairwise_append.mp listing.disjoint).2.2 other member patch (List.mem_singleton_self patch)
  · rintro ⟨listing, fine, ordered, inside, disjoint⟩
    constructor
    · intro other member
      rcases List.mem_append.mp member with earlier | here
      · exact listing.fine other earlier
      · rw [List.mem_singleton.mp here]
        exact fine
    · refine List.pairwise_append.mpr ⟨listing.ordered, List.pairwise_singleton _ _, ?_⟩
      intro other member next here
      rw [List.mem_singleton.mp here]
      exact ordered other member
    · intro other member
      rcases List.mem_append.mp member with earlier | here
      · exact listing.inside other earlier
      · rw [List.mem_singleton.mp here]
        exact inside
    · refine List.pairwise_append.mpr ⟨listing.disjoint, List.pairwise_singleton _ _, ?_⟩
      intro other member next here
      rw [List.mem_singleton.mp here]
      exact disjoint other member

theorem InDomain.not_disjoint (inside : InDomain spatial patch) : ¬ patch.Disjoint patch := by
  obtain ⟨shape, -, within⟩ := inside
  intro disjoint
  have start : List.Forall₂ (· ≤ ·) patch.lower patch.lower := List.forall₂_refl _
  exact disjoint patch.lower ⟨⟨start, within.proper⟩, start, within.proper⟩

theorem Listing.nodup (listing : Listing spatial levelCount patches) : patches.Nodup := by
  induction patches using List.reverseRecOn with
  | nil => exact List.nodup_nil
  | append_singleton patches patch ih =>
    obtain ⟨before, -, -, inside, disjoint⟩ := listing_snoc.mp listing
    have fresh : patch ∉ patches := fun member => inside.not_disjoint (disjoint patch member rfl)
    refine List.nodup_append.mpr ⟨ih before, List.nodup_singleton patch, ?_⟩
    intro other member last here same
    rw [List.mem_singleton.mp here] at same
    exact fresh (same ▸ member)

/-- The level of the row before, as the loops keep it. -/
def previousLevel (patches : List Patch) : ℤ := (patches.getLast?.map Patch.level).getD 0

theorem previousLevel_snoc (patches : List Patch) (patch : Patch) :
    previousLevel (patches ++ [patch]) = patch.level := by
  rw [previousLevel, List.getLast?_concat]
  rfl

theorem previousLevel_le_iff (listing : Listing spatial levelCount patches) {level : ℤ}
    (fine : 1 ≤ level) : previousLevel patches ≤ level ↔ ∀ other ∈ patches, other.level ≤ level := by
  cases patches using List.reverseRecOn with
  | nil =>
    constructor
    · intro _ other member
      cases member
    · intro _
      exact le_trans (by decide) fine
  | append_singleton patches last =>
    rw [previousLevel_snoc]
    obtain ⟨-, -, ordered, -, -⟩ := listing_snoc.mp listing
    constructor
    · intro below other member
      rcases List.mem_append.mp member with earlier | here
      · exact le_trans (ordered other earlier) below
      · rw [List.mem_singleton.mp here]
        exact below
    · intro below
      exact below last (List.mem_append_right _ (List.mem_singleton_self last))

/-- The rank of a patch. -/
def Patch.Ranked (patch : Patch) (dimension : ℕ) : Prop :=
  patch.lower.length = dimension ∧ patch.upper.length = dimension

/-- A row is accepted exactly when it extends the listing. -/
theorem decodeObjection_none_iff (position : ℕ) (listing : Listing spatial levelCount patches)
    (ranked : patch.Ranked spatial.dimension) :
    decodeObjection levelCount spatial position (previousLevel patches) patches patch = none ↔
      Listing spatial levelCount (patches ++ [patch]) := by
  rw [listing_snoc]
  unfold decodeObjection
  split
  · rename_i outside
    constructor
    · intro refused
      cases refused
    · rintro ⟨-, fine, -⟩
      omega
  rename_i fine
  have fine : 1 ≤ patch.level ∧ patch.level < levelCount := by omega
  split
  · rename_i drift
    constructor
    · intro refused
      cases refused
    · rintro ⟨-, -, ordered, -, -⟩
      have kept := (previousLevel_le_iff listing fine.1).mpr ordered
      omega
  rename_i order
  have ordered := (previousLevel_le_iff listing fine.1).mp (not_lt.mp order)
  split
  · rename_i duplicate
    constructor
    · intro refused
      cases refused
    · rintro ⟨-, -, -, inside, disjoint⟩
      exact absurd (disjoint patch duplicate rfl) inside.not_disjoint
  split
  · rename_i raised unknown
    constructor
    · intro refused
      cases refused
    · rintro ⟨-, -, -, ⟨shape, domain, -⟩, -⟩
      rw [unknown] at domain
      cases domain
  rename_i shape domain
  have rank := (shapeAtLevel_bounds domain).1
  have same_rank : patch.lower.length = shape.length := ranked.1.trans rank.symm
  have same_bounds : patch.lower.length = patch.upper.length := ranked.1.trans ranked.2.symm
  have boxed : patch.outside shape = false ↔ patch.Inside shape := outside_iff patch.level same_bounds same_rank
  have domain_iff : InDomain spatial patch ↔ patch.Inside shape := by
    constructor
    · rintro ⟨other, known, inside⟩
      rw [domain] at known
      cases known
      exact inside
    · intro inside
      exact ⟨shape, domain, inside⟩
  split
  · rename_i outside
    constructor
    · intro refused
      cases refused
    · rintro ⟨-, -, -, inside, -⟩
      rw [boxed.mpr (domain_iff.mp inside)] at outside
      cases outside
  rename_i inside
  have inside := boxed.mp (Bool.eq_false_iff.mpr inside)
  rw [if_neg (by omega), if_neg (by omega)]
  have apart (other : Patch) (member : other ∈ patches) (level : other.level = patch.level) :
      patch.overlaps other = false ↔ other.Disjoint patch := by
    obtain ⟨otherShape, otherDomain, otherInside⟩ := listing.inside other member
    rw [level, domain] at otherDomain
    cases otherDomain
    exact overlaps_eq_false_iff inside otherInside
  split
  · rename_i other found
    constructor
    · intro refused
      cases refused
    · rintro ⟨-, -, -, -, disjoint⟩
      obtain ⟨member, level⟩ := List.mem_filter.mp (List.mem_of_find?_eq_some found)
      have level : other.level = patch.level := by simpa using level
      have meets := List.find?_some found
      rw [(apart other member level).mpr (disjoint other member level)] at meets
      cases meets
  · rename_i none_found
    constructor
    · intro _
      refine ⟨listing, fine, ordered, domain_iff.mpr inside, ?_⟩
      intro other member level
      apply (apart other member level).mp
      have listed : other ∈ perLevelBoxes patches patch.level := List.mem_filter.mpr ⟨member, by simpa using level⟩
      exact Bool.eq_false_iff.mpr (List.find?_eq_none.mp none_found other listed)
    · intro _
      rfl

theorem unpack_ranked {row : List ℤ} (width : row.length = 1 + 2 * dimension) :
    (unpack dimension row).Ranked dimension := by
  constructor
  · rw [unpack, List.length_take, List.length_drop]
    omega
  · rw [unpack, List.length_drop]
    omega

theorem decodeRows_iff {patches result : List Patch} {rows : List (List ℤ)} (position : ℕ)
    (width : ∀ row ∈ rows, row.length = 1 + 2 * spatial.dimension)
    (listing : Listing spatial levelCount patches) :
    decodeRows spatial.dimension levelCount spatial position (previousLevel patches) patches rows = .ok result ↔
      Listing spatial levelCount (patches ++ rows.map (unpack spatial.dimension)) ∧
        result = patches ++ rows.map (unpack spatial.dimension) := by
  induction rows generalizing patches position with
  | nil =>
    rw [List.map_nil, List.append_nil]
    constructor
    · intro decoded
      cases decoded
      exact ⟨listing, rfl⟩
    · rintro ⟨-, rfl⟩
      rfl
  | cons row rest ih =>
    have ranked := unpack_ranked (width row (List.mem_cons_self ..))
    have accepts := decodeObjection_none_iff position listing ranked
    have shape : patches ++ (row :: rest).map (unpack spatial.dimension) =
        (patches ++ [unpack spatial.dimension row]) ++ rest.map (unpack spatial.dimension) := by
      rw [List.map_cons, List.append_assoc, List.singleton_append]
    rw [shape, decodeRows]
    split
    · rename_i raised refused
      rw [refused] at accepts
      constructor
      · intro decoded
        cases decoded
      · rintro ⟨whole, -⟩
        cases accepts.mpr whole.left
    · rename_i accepted
      have extended := accepts.mp accepted
      rw [← previousLevel_snoc patches (unpack spatial.dimension row)]
      exact ih (position + 1) (fun other member => width other (List.mem_cons_of_mem _ member)) extended

theorem decode_iff {matrix : Int64Matrix} {result : List Patch} :
    decodeRankedPatchBoxes matrix spatial.dimension levelCount spatial = .ok result ↔
      1 ≤ levelCount ∧ matrix.width = 1 + 2 * spatial.dimension ∧
        Listing spatial levelCount (matrix.rows.map (unpack spatial.dimension)) ∧
        result = matrix.rows.map (unpack spatial.dimension) := by
  have positive := spatial.dimension_pos
  have empty : Listing spatial levelCount [] := ⟨by simp, .nil, by simp, .nil⟩
  unfold decodeRankedPatchBoxes
  rw [if_neg (by omega)]
  split
  · rename_i short
    constructor
    · intro decoded
      cases decoded
    · rintro ⟨levels, -⟩
      omega
  rename_i levels
  split
  · rename_i mismatch
    constructor
    · intro decoded
      cases decoded
    · rintro ⟨-, width, -⟩
      exact absurd width mismatch
  · rename_i width
    have width := not_not.mp width
    have rows : decodeRows spatial.dimension levelCount spatial 0 0 [] matrix.rows = .ok result ↔
        Listing spatial levelCount (matrix.rows.map (unpack spatial.dimension)) ∧
          result = matrix.rows.map (unpack spatial.dimension) :=
      decodeRows_iff 0 (fun row member => (matrix.rectangular row member).trans width) empty
    constructor
    · intro decoded
      exact ⟨by omega, width, rows.mp decoded⟩
    · rintro ⟨-, -, accepted⟩
      exact rows.mpr accepted

theorem Listing.ranked (listing : Listing spatial levelCount patches)
    (member : patch ∈ patches) : patch.Ranked spatial.dimension := by
  obtain ⟨shape, domain, inside⟩ := listing.inside patch member
  have rank := (shapeAtLevel_bounds domain).1
  have stop := inside.stop.length_eq.trans rank
  exact ⟨inside.proper.length_eq.trans stop, stop⟩

theorem encodeObjection_none (position : ℕ) (listing : Listing spatial levelCount (patches ++ [patch])) :
    encodeObjection spatial.dimension levelCount position (previousLevel patches) patches patch = none := by
  have ranked := listing.ranked (List.mem_append_right patches (List.mem_singleton_self patch))
  obtain ⟨before, fine, ordered, inside, disjoint⟩ := listing_snoc.mp listing
  have order := (previousLevel_le_iff before fine.1).mpr ordered
  have fresh : patch ∉ patches := fun member => inside.not_disjoint (disjoint patch member rfl)
  have rank : ¬ (patch.lower.length ≠ spatial.dimension ∨ patch.upper.length ≠ spatial.dimension) := by
    rintro (lower | upper)
    · exact lower ranked.1
    · exact upper ranked.2
  rw [encodeObjection, if_neg (by omega), if_neg rank, if_neg (not_lt.mpr order), if_neg fresh]

theorem encodeRows_listing {patches rows : List Patch} (position : ℕ)
    (listing : Listing spatial levelCount (patches ++ rows)) :
    encodeRows spatial.dimension levelCount position (previousLevel patches) patches rows = .ok (patches ++ rows) := by
  induction rows generalizing patches position with
  | nil => rw [List.append_nil, encodeRows]
  | cons row rest ih =>
    have shape : patches ++ row :: rest = (patches ++ [row]) ++ rest := by
      rw [List.append_assoc, List.singleton_append]
    rw [shape] at listing ⊢
    rw [encodeRows, encodeObjection_none position listing.left]
    simp only
    rw [← previousLevel_snoc patches row]
    exact ih (position + 1) listing

theorem encode_listing (levels : 1 ≤ levelCount) (listing : Listing spatial levelCount patches) :
    encodeRankedPatchBoxes patches spatial.dimension levelCount = .ok (patches, patches.map Patch.flatten) := by
  have positive := spatial.dimension_pos
  have ranked : encodeRows spatial.dimension levelCount 0 0 [] patches = .ok patches :=
    @encodeRows_listing spatial levelCount [] patches 0 listing
  rw [encodeRankedPatchBoxes, if_neg (by omega), if_neg (by omega), ranked]

theorem flatten_length (ranked : patch.Ranked dimension) :
    patch.flatten.length = 1 + 2 * dimension := by
  rw [Patch.flatten, List.length_cons, List.length_append, ranked.1, ranked.2]
  omega

theorem unpack_flatten (ranked : patch.Ranked dimension) :
    unpack dimension patch.flatten = patch := by
  have lower : ((patch.lower ++ patch.upper).take dimension) = patch.lower := List.take_left' ranked.1
  have upper : ((patch.lower ++ patch.upper).drop dimension) = patch.upper := List.drop_left' ranked.1
  rw [unpack, Patch.flatten, List.headD_cons, List.drop_one, List.tail_cons, lower, Nat.add_comm 1,
    List.drop_succ_cons, upper]

theorem related_of_mem {R : ℤ → ℤ → Prop} {first second : List ℤ} (related : List.Forall₂ R first second)
    {value : ℤ} (member : value ∈ first) : ∃ partner ∈ second, R value partner := by
  induction related with
  | nil => cases member
  | @cons head partner _ _ here _ ih =>
    rcases List.mem_cons.mp member with rfl | later
    · exact ⟨partner, List.mem_cons_self .., here⟩
    · obtain ⟨other, inside, holds⟩ := ih later
      exact ⟨other, List.mem_cons_of_mem _ inside, holds⟩

theorem flatten_fits (listing : Listing spatial levelCount patches)
    (member : patch ∈ patches) : ∀ value ∈ patch.flatten, FitsInt64 value := by
  obtain ⟨shape, domain, inside⟩ := listing.inside patch member
  obtain ⟨-, extents, level_bound⟩ := shapeAtLevel_bounds domain
  have fine := (listing.fine patch member).1
  have fits (value : ℤ) (nonneg : 0 ≤ value) (below : value ≤ maxsize) : FitsInt64 value :=
    ⟨le_trans (by decide) nonneg, below⟩
  have uppers : ∀ value ∈ patch.upper, value ≤ maxsize := by
    intro value here
    obtain ⟨extent, member, less⟩ := related_of_mem inside.stop here
    exact le_trans less.le (extents extent member)
  have lowers : ∀ value ∈ patch.lower, 0 ≤ value ∧ value ≤ maxsize := by
    intro value here
    obtain ⟨high, member, le⟩ := related_of_mem inside.proper here
    exact ⟨inside.start value here, le_trans le (uppers high member)⟩
  have starts : ∀ value ∈ patch.upper, 0 ≤ value := by
    intro value here
    obtain ⟨low, member, le⟩ := related_of_mem inside.proper.flip here
    exact le_trans (inside.start low member) le
  intro value here
  rcases List.mem_cons.mp here with rfl | bound
  · exact fits _ (by omega) (by omega)
  · rcases List.mem_append.mp bound with low | high
    · exact fits value (lowers value low).1 (lowers value low).2
    · exact fits value (starts value high) (uppers value high)

theorem archive_listing (listing : Listing spatial levelCount patches) :
    ∃ matrix, archive (patches.map Patch.flatten) (1 + 2 * spatial.dimension) = .ok matrix ∧
      matrix.width = 1 + 2 * spatial.dimension ∧ matrix.rows = patches.map Patch.flatten := by
  have widths : ∀ row ∈ patches.map Patch.flatten, row.length = 1 + 2 * spatial.dimension := by
    intro row member
    obtain ⟨patch, here, rfl⟩ := List.mem_map.mp member
    exact flatten_length (listing.ranked here)
  have width : rowWidth (patches.map Patch.flatten) (1 + 2 * spatial.dimension) = 1 + 2 * spatial.dimension := by
    cases patches with
    | nil => rfl
    | cons patch rest => exact widths patch.flatten (List.mem_cons_self ..)
  have rectangular : ∀ row ∈ patches.map Patch.flatten,
      row.length = rowWidth (patches.map Patch.flatten) (1 + 2 * spatial.dimension) := by
    intro row member
    rw [width]
    exact widths row member
  have fits : ∀ row ∈ patches.map Patch.flatten, ∀ value ∈ row, FitsInt64 value := by
    intro row member
    obtain ⟨patch, here, rfl⟩ := List.mem_map.mp member
    exact flatten_fits listing here
  refine ⟨⟨_, _, rectangular, fits⟩, ?_, width, rfl⟩
  rw [archive, dif_pos rectangular, dif_pos fits]

theorem decode_archive (levels : 1 ≤ levelCount) (listing : Listing spatial levelCount patches) :
    ∃ matrix, archive (patches.map Patch.flatten) (1 + 2 * spatial.dimension) = .ok matrix ∧
      decodeRankedPatchBoxes matrix spatial.dimension levelCount spatial = .ok patches := by
  obtain ⟨matrix, archived, width, rows⟩ := archive_listing listing
  have restored : matrix.rows.map (unpack spatial.dimension) = patches := by
    rw [rows, List.map_map]
    calc patches.map (unpack spatial.dimension ∘ Patch.flatten)
        = patches.map id := List.map_congr_left fun patch member => unpack_flatten (listing.ranked member)
      _ = patches := List.map_id patches
  refine ⟨matrix, archived, decode_iff.mpr ⟨levels, width, ?_, restored.symm⟩⟩
  rw [restored]
  exact listing

section Owners
variable {topology : RecordedRankTopology}

/-- The owner map of every fine level is what its patches need. -/
def Aligned (topology : RecordedRankTopology) (levelCount : ℕ) (boxes : List Patch) : Prop :=
  ∀ level : ℤ, 1 ≤ level → level < levelCount →
    (topology.ranks level).length =
      match topology.mode level with
      | .replicated => 0
      | .partitioned => (perLevelBoxes boxes level).length

/-- The owners that the patches of a level were given, in their order. -/
def ownersAt (boxes : List Patch) (owners : List ℤ) (level : ℤ) : List ℤ :=
  ((boxes.zip owners).filter fun pair => pair.1.level = level).map Prod.snd

/-- What the owners are after some patches: as many, and level by level a prefix of the recorded ones. -/
structure Progress (topology : RecordedRankTopology) (levelCount : ℕ) (boxes : List Patch) (owners : List ℤ)
    (cursor : ℤ → ℕ) : Prop where
  fine : ∀ box ∈ boxes, 1 ≤ box.level ∧ box.level < levelCount
  length : owners.length = boxes.length
  counted : ∀ level, topology.mode level = .partitioned → cursor level = (perLevelBoxes boxes level).length
  recorded : ∀ level, topology.mode level = .partitioned →
    cursor level ≤ (topology.ranks level).length ∧
      ownersAt boxes owners level = (topology.ranks level).take (cursor level)
  replicated : ∀ level, topology.mode level = .replicated →
    ownersAt boxes owners level = List.replicate (perLevelBoxes boxes level).length (-1)

theorem ownersAt_snoc (same : owners.length = boxes.length) (box : Patch) (owner level : ℤ) :
    ownersAt (boxes ++ [box]) (owners ++ [owner]) level =
      ownersAt boxes owners level ++ if box.level = level then [owner] else [] := by
  rw [ownersAt, List.zip_append same.symm, List.filter_append, List.map_append]
  by_cases here : box.level = level
  · simp [ownersAt, here]
  · simp [ownersAt, here]

theorem perLevelBoxes_snoc (boxes : List Patch) (box : Patch) (level : ℤ) :
    perLevelBoxes (boxes ++ [box]) level = perLevelBoxes boxes level ++ if box.level = level then [box] else [] := by
  rw [perLevelBoxes, List.filter_append]
  by_cases here : box.level = level
  · simp [perLevelBoxes, here]
  · simp [perLevelBoxes, here]

theorem Progress.replicate (progress : Progress topology levelCount boxes owners cursor) {box : Patch}
    (fine : 1 ≤ box.level ∧ box.level < levelCount) (mode : topology.mode box.level = .replicated) :
    Progress topology levelCount (boxes ++ [box]) (owners ++ [-1]) cursor where
  fine other member := by
    rcases List.mem_append.mp member with earlier | here
    · exact progress.fine other earlier
    · rw [List.mem_singleton.mp here]
      exact fine
  length := by rw [List.length_append, List.length_append, progress.length]; rfl
  counted level partitioned := by
    have other : box.level ≠ level := by
      rintro rfl
      rw [mode] at partitioned
      cases partitioned
    rw [perLevelBoxes_snoc, if_neg other, List.append_nil]
    exact progress.counted level partitioned
  recorded level partitioned := by
    have other : box.level ≠ level := by
      rintro rfl
      rw [mode] at partitioned
      cases partitioned
    rw [ownersAt_snoc progress.length, if_neg other, List.append_nil]
    exact progress.recorded level partitioned
  replicated level replicated := by
    rw [ownersAt_snoc progress.length, perLevelBoxes_snoc, progress.replicated level replicated]
    split
    · rw [List.length_append, List.length_singleton, List.replicate_succ']
    · rw [List.append_nil, List.append_nil]

theorem Progress.assign (progress : Progress topology levelCount boxes owners cursor) {box : Patch} {rank : ℤ}
    (fine : 1 ≤ box.level ∧ box.level < levelCount) (mode : topology.mode box.level = .partitioned)
    (found : (topology.ranks box.level)[cursor box.level]? = some rank) :
    Progress topology levelCount (boxes ++ [box]) (owners ++ [rank])
      (Function.update cursor box.level (cursor box.level + 1)) where
  fine other member := by
    rcases List.mem_append.mp member with earlier | here
    · exact progress.fine other earlier
    · rw [List.mem_singleton.mp here]
      exact fine
  length := by rw [List.length_append, List.length_append, progress.length]; rfl
  counted level partitioned := by
    rw [perLevelBoxes_snoc]
    by_cases here : box.level = level
    · subst here
      rw [Function.update_self, if_pos rfl, List.length_append, progress.counted box.level mode,
        List.length_singleton]
    · rw [Function.update_of_ne (Ne.symm here), if_neg here, List.append_nil]
      exact progress.counted level partitioned
  recorded level partitioned := by
    rw [ownersAt_snoc progress.length]
    obtain ⟨bound, recorded⟩ := progress.recorded level partitioned
    by_cases here : box.level = level
    · subst here
      obtain ⟨inside, value⟩ := List.getElem?_eq_some_iff.mp found
      rw [Function.update_self, if_pos rfl, recorded, List.take_add_one, found, Option.toList_some]
      exact ⟨inside, rfl⟩
    · rw [Function.update_of_ne (Ne.symm here), if_neg here, List.append_nil]
      exact ⟨bound, recorded⟩
  replicated level replicated := by
    have other : box.level ≠ level := by
      rintro rfl
      rw [mode] at replicated
      cases replicated
    rw [ownersAt_snoc progress.length, perLevelBoxes_snoc, if_neg other, if_neg other, List.append_nil,
      List.append_nil]
    exact progress.replicated level replicated

theorem progress_nil : Progress topology levelCount [] [] fun _ => 0 where
  fine box member := by cases member
  length := rfl
  counted _ _ := rfl
  recorded level _ := ⟨Nat.zero_le _, by rw [List.take_zero]; rfl⟩
  replicated _ _ := rfl

theorem snoc_append (boxes rest : List Patch) (box : Patch) : boxes ++ box :: rest = (boxes ++ [box]) ++ rest := by
  rw [List.append_assoc, List.singleton_append]

theorem alignBoxes_progress {boxes rest : List Patch} {owners owners' : List ℤ} {cursor cursor' : ℤ → ℕ}
    (progress : Progress topology levelCount boxes owners cursor)
    (aligned : alignBoxes topology levelCount cursor owners rest = .ok (owners', cursor')) :
    Progress topology levelCount (boxes ++ rest) owners' cursor' := by
  induction rest generalizing boxes owners cursor with
  | nil =>
    cases aligned
    rw [List.append_nil]
    exact progress
  | cons box rest ih =>
    rw [snoc_append]
    unfold alignBoxes at aligned
    split at aligned
    · cases aligned
    rename_i fine
    split at aligned
    · rename_i mode
      exact ih (progress.replicate (by omega) mode) aligned
    · rename_i mode
      split at aligned
      · cases aligned
      · rename_i rank found
        exact ih (progress.assign (by omega) mode found) aligned

theorem alignBoxes_ok {boxes rest : List Patch} (progress : Progress topology levelCount boxes owners cursor)
    (fine : ∀ box ∈ rest, 1 ≤ box.level ∧ box.level < levelCount)
    (enough : ∀ box ∈ rest, topology.mode box.level = .partitioned → (perLevelBoxes (boxes ++ rest) box.level).length ≤ (topology.ranks box.level).length) :
    ∃ result, alignBoxes topology levelCount cursor owners rest = .ok result := by
  induction rest generalizing boxes owners cursor with
  | nil => exact ⟨_, rfl⟩
  | cons box rest ih =>
    have here := fine box (List.mem_cons_self ..)
    have later := fun other member => fine other (List.mem_cons_of_mem box member)
    have enough_later : ∀ other ∈ rest, topology.mode other.level = .partitioned →
        (perLevelBoxes ((boxes ++ [box]) ++ rest) other.level).length ≤ (topology.ranks other.level).length := by
      intro other member mode
      rw [← snoc_append]
      exact enough other (List.mem_cons_of_mem box member) mode
    rw [alignBoxes, if_neg (by omega)]
    split
    · rename_i mode
      exact ih (progress.replicate here mode) later enough_later
    · rename_i mode
      have bound := enough box (List.mem_cons_self ..) mode
      rw [snoc_append, perLevelBoxes, List.filter_append, List.length_append] at bound
      have counted := progress.counted box.level mode
      have present : (perLevelBoxes (boxes ++ [box]) box.level).length = cursor box.level + 1 := by
        rw [perLevelBoxes_snoc, if_pos rfl, List.length_append, counted, List.length_singleton]
      have inside : cursor box.level < (topology.ranks box.level).length := by
        rw [perLevelBoxes] at present
        omega
      rw [List.getElem?_eq_getElem inside]
      exact ih (progress.assign here mode (List.getElem?_eq_getElem inside)) later enough_later

theorem mem_fineLevels {level : ℤ} : level ∈ fineLevels levelCount ↔ 1 ≤ level ∧ level < levelCount := by
  simp only [fineLevels, List.mem_map, List.mem_range]
  constructor
  · rintro ⟨offset, bound, rfl⟩
    omega
  · rintro ⟨fine, bound⟩
    exact ⟨(level - 1).toNat, by omega, by omega⟩

theorem leftover_none_iff (progress : Progress topology levelCount boxes owners cursor) (level : ℤ) :
    leftover topology cursor level = none ↔
      (topology.ranks level).length =
        match topology.mode level with
        | .replicated => 0
        | .partitioned => (perLevelBoxes boxes level).length := by
  cases mode : topology.mode level with
  | replicated => simp [leftover, mode]
  | partitioned =>
    have counted := progress.counted level mode
    simp only [leftover, mode, true_and, counted]
    constructor
    · intro nothing
      by_contra differ
      rw [if_pos (Ne.symm differ)] at nothing
      cases nothing
    · intro same
      rw [if_neg (not_not.mpr same.symm)]
      simp

/-- The patches of a partitioned level got its owners in order, the others none. -/
structure Owned (topology : RecordedRankTopology) (levelCount : ℕ) (boxes : List Patch) (owners : List ℤ) : Prop where
  length : owners.length = boxes.length
  partitioned : ∀ level : ℤ, 1 ≤ level → level < levelCount → topology.mode level = .partitioned →
    ownersAt boxes owners level = topology.ranks level
  replicated : ∀ level : ℤ, topology.mode level = .replicated →
    ownersAt boxes owners level = List.replicate (perLevelBoxes boxes level).length (-1)

/-- The topology has one mode and one owner map for every level. -/
def Covers (topology : RecordedRankTopology) (levelCount : ℕ) : Prop :=
  topology.levelOwnerRanks.length = levelCount ∧ topology.levelDistributionModes.length = levelCount

theorem owned_of_ok (returned : ownerRanksForBoxes topology boxes levelCount = .ok owners) :
    Aligned topology levelCount boxes ∧ Owned topology levelCount boxes owners := by
  unfold ownerRanksForBoxes at returned
  split at returned
  · cases returned
  split at returned
  · cases returned
  rename_i result cursor walked
  split at returned
  · cases returned
  rename_i nothing_left
  cases returned
  have progress : Progress topology levelCount boxes owners cursor := alignBoxes_progress progress_nil walked
  have aligned : Aligned topology levelCount boxes := by
    intro level fine bound
    have quiet := List.findSome?_eq_none_iff.mp nothing_left level (mem_fineLevels.mpr ⟨fine, bound⟩)
    exact (leftover_none_iff progress level).mp quiet
  refine ⟨aligned, progress.length, ?_, progress.replicated⟩
  intro level fine bound mode
  have count := aligned level fine bound
  rw [mode] at count
  rw [(progress.recorded level mode).2, progress.counted level mode, List.take_of_length_le (le_of_eq count)]

theorem ok_of_aligned (covers : Covers topology levelCount)
    (fine : ∀ box ∈ boxes, 1 ≤ box.level ∧ box.level < levelCount) (aligned : Aligned topology levelCount boxes) :
    ∃ owners, ownerRanksForBoxes topology boxes levelCount = .ok owners := by
  have enough : ∀ box ∈ boxes, topology.mode box.level = .partitioned →
      (perLevelBoxes ([] ++ boxes) box.level).length ≤ (topology.ranks box.level).length := by
    intro box member mode
    have count := aligned box.level (fine box member).1 (fine box member).2
    rw [mode] at count
    exact le_of_eq count.symm
  obtain ⟨⟨owners, cursor⟩, walked⟩ := alignBoxes_ok progress_nil fine enough
  have progress : Progress topology levelCount boxes owners cursor := alignBoxes_progress progress_nil walked
  have nothing_left : (fineLevels levelCount).findSome? (leftover topology cursor) = none := by
    apply List.findSome?_eq_none_iff.mpr
    intro level member
    obtain ⟨fine, bound⟩ := mem_fineLevels.mp member
    exact (leftover_none_iff progress level).mpr (aligned level fine bound)
  have depth : ¬ (levelCount ≠ topology.levelOwnerRanks.length ∨
      levelCount ≠ topology.levelDistributionModes.length) := by
    rintro (ranks | modes)
    · exact ranks covers.1.symm
    · exact modes covers.2.symm
  refine ⟨owners, ?_⟩
  rw [ownerRanksForBoxes, if_neg depth, walked]
  simp only [nothing_left]

end Owners

theorem error_of_not_ok {α : Type} {outcome : Except Raised α} (refused : ∀ value, outcome ≠ .ok value) :
    ∃ raised, outcome = .error raised := by
  cases outcome with
  | error raised => exact ⟨raised, rfl⟩
  | ok value => exact absurd rfl (refused value)

/-- Patches and owners come back from the archive as they were, and nothing else is accepted. -/
theorem patch_topology_round_trip (spatial : CheckpointSpatialContract) {levelCount : ℕ} (levels : 1 ≤ levelCount) :
    (∀ patches, Listing spatial levelCount patches →
      (∃ rows matrix, encodeRankedPatchBoxes patches spatial.dimension levelCount = .ok (patches, rows) ∧
        archive rows (1 + 2 * spatial.dimension) = .ok matrix ∧
        decodeRankedPatchBoxes matrix spatial.dimension levelCount spatial = .ok patches) ∧
      ∀ topology, Covers topology levelCount → Aligned topology levelCount patches →
        ∃ owners, ownerRanksForBoxes topology patches levelCount = .ok owners ∧
          Owned topology levelCount patches owners) ∧
    (∀ matrix, matrix.width ≠ 1 + 2 * spatial.dimension ∨
        ¬ (matrix.rows.map (unpack spatial.dimension)).Nodup ∨
        ¬ Listing spatial levelCount (matrix.rows.map (unpack spatial.dimension)) →
      ∃ raised, decodeRankedPatchBoxes matrix spatial.dimension levelCount spatial = .error raised) ∧
    ∀ topology patches, ¬ Aligned topology levelCount patches →
      ∃ raised, ownerRanksForBoxes topology patches levelCount = .error raised := by
  refine ⟨?_, ?_, ?_⟩
  · intro patches listing
    constructor
    · obtain ⟨matrix, archived, decoded⟩ := decode_archive levels listing
      exact ⟨_, matrix, encode_listing levels listing, archived, decoded⟩
    · intro topology covers aligned
      obtain ⟨owners, returned⟩ := ok_of_aligned covers listing.fine aligned
      exact ⟨owners, returned, (owned_of_ok returned).2⟩
  · intro matrix defect
    apply error_of_not_ok
    intro patches decoded
    obtain ⟨-, width, listing, -⟩ := decode_iff.mp decoded
    rcases defect with narrow | duplicate | malformed
    · exact narrow width
    · exact duplicate listing.nodup
    · exact malformed listing
  · intro topology patches misaligned
    apply error_of_not_ok
    intro owners returned
    exact misaligned (owned_of_ok returned).1

/-- A line of eight cells, refined twice. -/
def line : CheckpointSpatialContract where
  dimension := 1
  shape := [8]
  refinementRatios := [[2], [2]]
  dimension_pos := le_refl 1
  shape_length := rfl
  shape_pos := by decide
  ratio_length := by decide
  ratio_pos := by decide
  ratio_refines := by decide

theorem line_patches : Listing line 3 [⟨1, [0], [3]⟩, ⟨1, [4], [9]⟩, ⟨2, [8], [15]⟩] := by
  have first : (⟨1, [0], [3]⟩ : Patch).Inside [16] := (outside_iff 1 (by decide) (by decide)).mp (by decide)
  have second : (⟨1, [4], [9]⟩ : Patch).Inside [16] := (outside_iff 1 (by decide) (by decide)).mp (by decide)
  have third : (⟨2, [8], [15]⟩ : Patch).Inside [32] := (outside_iff 2 (by decide) (by decide)).mp (by decide)
  have apart : (⟨1, [0], [3]⟩ : Patch).Disjoint ⟨1, [4], [9]⟩ := (overlaps_eq_false_iff second first).mp (by decide)
  constructor
  · decide
  · decide
  · intro patch member
    simp only [List.mem_cons, List.not_mem_nil, or_false] at member
    rcases member with rfl | rfl | rfl
    · exact ⟨[16], rfl, first⟩
    · exact ⟨[16], rfl, second⟩
    · exact ⟨[32], rfl, third⟩
  · simp [apart]

/-- Two patches with their own owners under a replicated one. -/
theorem line_owners :
    ∃ owners, ownerRanksForBoxes ⟨[.replicated, .partitioned, .replicated], [[], [2, 0], []]⟩
        [⟨1, [0], [3]⟩, ⟨1, [4], [9]⟩, ⟨2, [8], [15]⟩] 3 = .ok owners ∧
      Owned ⟨[.replicated, .partitioned, .replicated], [[], [2, 0], []]⟩ 3
        [⟨1, [0], [3]⟩, ⟨1, [4], [9]⟩, ⟨2, [8], [15]⟩] owners := by
  apply ((patch_topology_round_trip line (by decide)).1 _ line_patches).2
  · exact ⟨rfl, rfl⟩
  · intro level fine bound
    have cases : level = 1 ∨ level = 2 := by omega
    rcases cases with rfl | rfl
    · rfl
    · rfl

end Pops.PatchTopology
