import Pops.BoxArrayTiling
import Pops.BoxHash

/-!
The hash lists a box in every bin between the bins of its corners, and a query
passes every bin between the bins of its own. Boxes that share a cell share the
bin of that cell, whatever the bins are, so no intersecting box is missed.
-/
namespace Pops.BoxHash

variable {d : ℕ} {binExtent : Extent d} {box : Box d} {key : Index d}

theorem binOf_mono (positive : ∀ axis, 0 < binExtent axis) {left right : Index d} {axis : Fin d}
    (ordered : left axis ≤ right axis) : binOf binExtent left axis ≤ binOf binExtent right axis := by
  rw [binOf, binOf, floorDiv_eq _ (positive axis), floorDiv_eq _ (positive axis)]
  exact Int.ediv_le_ediv (positive axis) ordered

theorem mem_binsOf (positive : ∀ axis, 0 < binExtent axis) (nonempty : ¬ box.Empty) :
    key ∈ binsOf binExtent box ↔
      ∀ axis, binOf binExtent box.lo axis ≤ key axis ∧ key axis ≤ binOf binExtent box.hi axis := by
  have corner : Odometer.Within (binOf binExtent box.lo) (binOf binExtent box.hi) (List.finRange d)
      (binOf binExtent box.lo) := fun axis _ =>
    ⟨le_rfl, binOf_mono positive (not_lt.mp fun below => nonempty ⟨axis, below⟩)⟩
  have passed : key ∈ Odometer.walk _ _ _ (binVisits binExtent box) _ ↔ _ :=
    Odometer.mem_walk (List.nodup_finRange d) corner (Nat.le_add_left _ _)
  rw [Odometer.rank_lower] at passed
  rw [binsOf, passed]
  constructor
  · rintro ⟨inside, -⟩ axis
    exact inside axis (List.mem_finRange axis)
  · intro inside
    exact ⟨fun axis _ => inside axis, fun axis absent => absurd (List.mem_finRange axis) absent, Nat.zero_le _⟩

theorem binOf_mem (positive : ∀ axis, 0 < binExtent axis) {cell : Index d} (member : cell ∈ box.cells) :
    binOf binExtent cell ∈ binsOf binExtent box := by
  rw [mem_binsOf positive (Box.nonempty_of_mem member)]
  intro axis
  have bounds := Box.mem_cells.mp member axis
  exact ⟨binOf_mono positive bounds.1, binOf_mono positive bounds.2⟩

theorem visits_eq (positive : ∀ axis, 0 < binExtent axis) (nonempty : ¬ box.Empty) :
    (fun axis => (binOf binExtent box.hi axis - binOf binExtent box.lo axis).toNat + 1) =
      Odometer.size (binOf binExtent box.lo) (binOf binExtent box.hi) := by
  funext axis
  have ordered : binOf binExtent box.lo axis ≤ binOf binExtent box.hi axis :=
    binOf_mono positive (not_lt.mp fun below => nonempty ⟨axis, below⟩)
  unfold Odometer.size
  omega

theorem checkedBinVisits_fits (positive : ∀ axis, 0 < binExtent axis) (nonempty : ¬ box.Empty)
    (fits : binVisits binExtent box ≤ sizeMax) :
    checkedBinVisits binExtent box = .ok (binVisits binExtent box) := by
  rw [checkedBinVisits, visits_eq positive nonempty]
  refine BoxArray.checkedVolume_fits (fun axis => ?_) fits
  rw [← visits_eq positive nonempty]
  exact Nat.succ_pos _

/-- The indices listed in a bin. -/
def listed (bins : List (Index d × List ℕ)) (key : Index d) : List ℕ := (find bins key).getD []

theorem listed_pushBack (bins : List (Index d × List ℕ)) (key other : Index d) (index : ℕ) :
    listed (pushBack key index bins) other = if other = key then listed bins key ++ [index] else listed bins other := by
  unfold listed
  induction bins with
  | nil =>
    by_cases same : other = key
    · simp [pushBack, find, same]
    · simp [pushBack, find, same, Ne.symm same]
  | cons entry bins ih =>
    obtain ⟨held, indices⟩ := entry
    rw [pushBack]
    split
    · rename_i here
      subst here
      by_cases same : other = held
      · simp [find, same]
      · simp [find, same, Ne.symm same]
    · rename_i elsewhere
      by_cases same : other = key
      · subst same
        simp only [if_true] at ih ⊢
        rw [find, if_neg elsewhere, find, if_neg elsewhere]
        exact ih
      · rw [if_neg same] at ih ⊢
        rw [find, find]
        split
        · rfl
        · exact ih

theorem mem_listed_foldl (keys : List (Index d)) (bins : List (Index d × List ℕ)) (other : Index d)
    (index candidate : ℕ) :
    candidate ∈ listed (keys.foldl (fun bins key => pushBack key index bins) bins) other ↔
      candidate ∈ listed bins other ∨ (candidate = index ∧ other ∈ keys) := by
  induction keys generalizing bins with
  | nil => simp
  | cons key keys ih =>
    rw [List.foldl_cons, ih, listed_pushBack]
    by_cases same : other = key
    · subst same
      simp only [if_true, List.mem_append, List.mem_cons, true_or, and_true]
      tauto
    · simp [same]

theorem mem_listed_fill (entries : List (Box d × ℕ)) (bins : List (Index d × List ℕ)) (key : Index d)
    (candidate : ℕ) :
    candidate ∈ listed (entries.foldl (fillStep binExtent) bins) key ↔
      candidate ∈ listed bins key ∨
        ∃ box, (box, candidate) ∈ entries ∧ ¬ box.Empty ∧ key ∈ binsOf binExtent box := by
  induction entries generalizing bins with
  | nil => simp
  | cons entry entries ih =>
    obtain ⟨box, index⟩ := entry
    rw [List.foldl_cons, ih, fillStep]
    split
    · rename_i empty
      refine or_congr_right ⟨fun ⟨other, known, rest⟩ => ⟨other, List.mem_cons_of_mem _ known, rest⟩, ?_⟩
      rintro ⟨other, known, nonempty, rest⟩
      rcases List.mem_cons.mp known with same | later
      · cases same
        exact absurd empty nonempty
      · exact ⟨other, later, nonempty, rest⟩
    · rename_i nonempty
      rw [mem_listed_foldl, or_assoc]
      refine or_congr_right ?_
      constructor
      · rintro (⟨rfl, meets⟩ | ⟨other, known, rest⟩)
        · exact ⟨box, List.mem_cons_self, nonempty, meets⟩
        · exact ⟨other, List.mem_cons_of_mem _ known, rest⟩
      · rintro ⟨other, known, rest⟩
        rcases List.mem_cons.mp known with same | later
        · cases same
          exact .inl ⟨rfl, rest.2⟩
        · exact .inr ⟨other, later, rest⟩

theorem pairwise_unique {values : List ℕ} (sorted : values.Pairwise (· ≤ ·)) :
    (unique values).Pairwise (· < ·) ∧ ∀ value, value ∈ unique values ↔ value ∈ values := by
  induction values with
  | nil => exact ⟨.nil, fun _ => Iff.rfl⟩
  | cons first values ih =>
    obtain ⟨least, rest⟩ := List.pairwise_cons.mp sorted
    obtain ⟨increasing, same⟩ := ih rest
    cases values with
    | nil => exact ⟨List.pairwise_singleton _ _, fun _ => Iff.rfl⟩
    | cons second later =>
      rw [unique]
      split
      · rename_i equal
        subst equal
        refine ⟨increasing, fun value => ?_⟩
        rw [same]
        simp
      · rename_i different
        refine ⟨List.pairwise_cons.mpr ⟨fun value known => ?_, increasing⟩, fun value => ?_⟩
        · have member := (same value).mp known
          have next := (List.pairwise_cons.mp rest).1
          have above := least second List.mem_cons_self
          rcases List.mem_cons.mp member with rfl | deeper
          · omega
          · have := next value deeper
            omega
        · rw [List.mem_cons, same]
          exact List.mem_cons.symm

variable {hash : BoxHash d} {state last : QueryState}

theorem queryStep_ok (ran : queryStep hash state key = .ok last) :
    last.candidates = state.candidates ++ listed hash.bins key := by
  unfold queryStep at ran
  unfold listed
  split at ran
  · rename_i absent
    cases ran
    rw [absent]
    exact (List.append_nil _).symm
  · rename_i held found
    simp only [bind_ok, throwIf_ok, unit_exists, pure_ok] at ran
    obtain ⟨-, cumulative, -, rfl⟩ := ran
    rw [found]
    rfl

theorem queryFold_ok {keys : List (Index d)} (ran : keys.foldlM (queryStep hash) state = .ok last) :
    last.candidates = state.candidates ++ keys.flatMap (listed hash.bins) := by
  induction keys generalizing state with
  | nil =>
    cases ran
    simp
  | cons key keys ih =>
    rw [List.foldlM_cons, bind_ok] at ran
    obtain ⟨next, first, rest⟩ := ran
    rw [ih rest, queryStep_ok first, List.flatMap_cons, List.append_assoc]

variable {queryBox : Box d} {cumulative : Option BoxHashQueryBudget}

theorem query_ok {cumulative left : Option BoxHashQueryBudget} {result : List ℕ}
    (ran : hash.query queryBox cumulative = .ok (result, left)) :
    result.Pairwise (· < ·) ∧ ∀ candidate, candidate ∈ result ↔
      ¬ queryBox.Empty ∧ ∃ key ∈ binsOf hash.binExtent queryBox, candidate ∈ listed hash.bins key := by
  unfold query at ran
  split at ran
  · rename_i empty
    cases ran
    exact ⟨.nil, fun candidate => ⟨fun known => absurd known List.not_mem_nil, fun shared => absurd empty shared.1⟩⟩
  · rename_i nonempty
    simp only [bind_ok, throwIf_ok, unit_exists, pure_ok, Prod.mk.injEq] at ran
    obtain ⟨-, -, -, charged, -, last, collected, rfl, -⟩ := ran
    obtain ⟨increasing, same⟩ := pairwise_unique
      (List.pairwise_insertionSort (· ≤ ·) last.candidates)
    refine ⟨increasing, fun candidate => ?_⟩
    rw [same, (List.perm_insertionSort _ _).mem_iff, queryFold_ok collected]
    simp [nonempty]

variable {boxes : BoxArray d} {budget : BoxHashBudget} {capacity : ℕ}

theorem create_ok (ran : create boxes binExtent budget capacity = .ok hash) :
    (∀ axis, 0 < binExtent axis) ∧
      hash = ⟨binExtent, budget, boxes.boxes.zipIdx.foldl (fillStep binExtent) []⟩ := by
  simp only [create, bind_ok, throwIf_ok, unit_exists, pure_ok, not_exists, not_le] at ran
  obtain ⟨positive, -, -, rfl⟩ := ran
  exact ⟨positive, rfl⟩

/-- A query of a hash that was built lists strictly increasing indices of boxes, among them
every box that shares a cell with it. -/
theorem query_complete {cumulative left : Option BoxHashQueryBudget} {result : List ℕ}
    (built : create boxes binExtent budget capacity = .ok hash)
    (ran : hash.query queryBox cumulative = .ok (result, left)) :
    result.Pairwise (· < ·) ∧ (∀ candidate ∈ result, ∃ box, boxes.boxes[candidate]? = some box ∧ ¬ box.Empty) ∧
      ∀ candidate box, boxes.boxes[candidate]? = some box → ¬ (box.intersect queryBox).Empty → candidate ∈ result := by
  obtain ⟨positive, rfl⟩ := create_ok built
  obtain ⟨increasing, members⟩ := query_ok ran
  refine ⟨increasing, fun candidate known => ?_, fun candidate box found meets => ?_⟩
  · obtain ⟨-, key, -, registered⟩ := (members candidate).mp known
    rw [mem_listed_fill] at registered
    rcases registered with none | ⟨box, entry, nonempty, -⟩
    · simp [listed, find] at none
    · exact ⟨box, List.mem_zipIdx_iff_getElem?.mp entry, nonempty⟩
  · rw [Box.intersect_empty_iff, Finset.not_disjoint_iff] at meets
    obtain ⟨cell, inBox, inQuery⟩ := meets
    refine (members candidate).mpr ⟨Box.nonempty_of_mem inQuery, binOf binExtent cell, binOf_mem positive inQuery, ?_⟩
    rw [mem_listed_fill]
    exact .inr ⟨box, List.mem_zipIdx_iff_getElem?.mpr found, Box.nonempty_of_mem inBox, binOf_mem positive inBox⟩

/-- The visits of the non-empty boxes. -/
def totalVisits (binExtent : Extent d) (boxes : List (Box d)) : ℕ :=
  (boxes.map fun box => if box.Empty then 0 else binVisits binExtent box).sum

theorem countFold_returns (positive : ∀ axis, 0 < binExtent axis) {boxes : List (Box d)} {visited : ℕ}
    (small : capacity ≤ sizeMax) (budgeted : visited + totalVisits binExtent boxes ≤ budget.buildBinVisits)
    (fits : visited + totalVisits binExtent boxes ≤ capacity) :
    ∃ total, boxes.foldlM (countStep binExtent budget capacity) visited = .ok total := by
  induction boxes generalizing visited with
  | nil => exact ⟨visited, rfl⟩
  | cons box boxes ih =>
    rw [totalVisits, List.map_cons, List.sum_cons] at budgeted fits
    rw [List.foldlM_cons, countStep]
    split
    · rename_i empty
      rw [if_pos empty, zero_add] at budgeted fits
      exact ih budgeted fits
    · rename_i nonempty
      rw [if_neg nonempty, ← add_assoc] at budgeted fits
      obtain ⟨total, rest⟩ := ih budgeted fits
      have held : ¬ (visited > budget.buildBinVisits ∨
          binVisits binExtent box > budget.buildBinVisits - visited ∨ visited > capacity ∨
          binVisits binExtent box > capacity - visited) := by omega
      rw [checkedBinVisits_fits positive nonempty (by omega), ok_bind, throwIf_of_not held, ok_bind]
      exact ⟨total, rest⟩

theorem create_returns (positive : ∀ axis, 0 < binExtent axis) (small : capacity ≤ sizeMax)
    (budgeted : totalVisits binExtent boxes.boxes ≤ budget.buildBinVisits)
    (fits : totalVisits binExtent boxes.boxes ≤ capacity) :
    ∃ hash, create boxes binExtent budget capacity = .ok hash := by
  have accepted : ¬ ∃ axis, binExtent axis ≤ 0 := by simpa using positive
  obtain ⟨total, counted⟩ : ∃ total, boxes.boxes.foldlM (countStep binExtent budget capacity) 0 = .ok total :=
    countFold_returns positive small (by rwa [zero_add]) (by rwa [zero_add])
  rw [create, throwIf_of_not accepted, ok_bind, counted, ok_bind]
  exact ⟨_, rfl⟩

/-- The references a query collects. -/
def totalReferences (hash : BoxHash d) (queryBox : Box d) : ℕ :=
  ((binsOf hash.binExtent queryBox).map fun key => (listed hash.bins key).length).sum

/-- A cumulative budget that admits so many bins and references. -/
def Admits (cumulative : Option BoxHashQueryBudget) (visits references : ℕ) : Prop :=
  ∀ left, cumulative = some left → visits ≤ left.binVisits ∧ references ≤ left.candidateReferences

theorem chargeReferences_returns {first rest : ℕ} (admits : Admits cumulative 0 (first + rest)) :
    ∃ left, chargeReferences cumulative first = .ok left ∧ Admits left 0 rest := by
  cases cumulative with
  | none => exact ⟨none, rfl, fun _ absent => nomatch absent⟩
  | some budget =>
    have room := (admits budget rfl).2
    have held : ¬ first > budget.candidateReferences := by omega
    refine ⟨some ⟨budget.binVisits, budget.candidateReferences - first⟩, ?_, ?_⟩
    · rw [chargeReferences, throwIf_of_not held, ok_bind]
      rfl
    · rintro _ ⟨⟩
      exact ⟨Nat.zero_le _, by dsimp only; omega⟩

theorem chargeVisits_returns {visits references : ℕ} (admits : Admits cumulative visits references) :
    ∃ left, chargeVisits cumulative visits = .ok left ∧ Admits left 0 references := by
  cases cumulative with
  | none => exact ⟨none, rfl, fun _ absent => nomatch absent⟩
  | some budget =>
    obtain ⟨room, references⟩ := admits budget rfl
    have held : ¬ visits > budget.binVisits := by omega
    refine ⟨some ⟨budget.binVisits - visits, budget.candidateReferences⟩, ?_, ?_⟩
    · rw [chargeVisits, throwIf_of_not held, ok_bind]
      rfl
    · rintro _ ⟨⟩
      exact ⟨Nat.zero_le _, references⟩

theorem queryFold_returns {keys : List (Index d)} (same : state.candidates.length = state.references)
    (admits : Admits state.cumulative 0 (keys.map fun key => (listed hash.bins key).length).sum)
    (budgeted : state.references + (keys.map fun key => (listed hash.bins key).length).sum ≤
      hash.budget.candidateReferences)
    (fits : state.references + (keys.map fun key => (listed hash.bins key).length).sum ≤ candidateMaxSize) :
    ∃ last, keys.foldlM (queryStep hash) state = .ok last := by
  induction keys generalizing state with
  | nil => exact ⟨state, rfl⟩
  | cons key keys ih =>
    rw [List.map_cons, List.sum_cons] at admits budgeted fits
    rw [List.foldlM_cons, queryStep]
    cases found : find hash.bins key with
    | none =>
      have none : (listed hash.bins key).length = 0 := by rw [listed, found, Option.getD_none, List.length_nil]
      rw [none, zero_add] at admits budgeted fits
      exact ih same admits budgeted fits
    | some held =>
      have some : listed hash.bins key = held := by rw [listed, found, Option.getD_some]
      rw [some] at admits budgeted fits
      obtain ⟨left, charged, rest⟩ := chargeReferences_returns admits
      have admitted : ¬ (state.references > hash.budget.candidateReferences ∨
          held.length > hash.budget.candidateReferences - state.references ∨
          state.candidates.length > candidateMaxSize - held.length) := by omega
      simp only [throwIf_of_not admitted, ok_bind, charged]
      refine ih ?_ rest ?_ ?_
      · dsimp only
        rw [List.length_append, same]
      · dsimp only
        omega
      · dsimp only
        omega

theorem query_returns (positive : ∀ axis, 0 < hash.binExtent axis)
    (fits : binVisits hash.binExtent queryBox ≤ sizeMax)
    (budgeted : binVisits hash.binExtent queryBox ≤ hash.budget.queryBinVisits)
    (referenced : totalReferences hash queryBox ≤ hash.budget.candidateReferences)
    (stored : totalReferences hash queryBox ≤ candidateMaxSize)
    (admits : Admits cumulative (binVisits hash.binExtent queryBox) (totalReferences hash queryBox)) :
    ∃ result left, hash.query queryBox cumulative = .ok (result, left) := by
  unfold query
  split
  · exact ⟨_, _, rfl⟩
  · rename_i nonempty
    have held : ¬ binVisits hash.binExtent queryBox > hash.budget.queryBinVisits := not_lt.mpr budgeted
    obtain ⟨left, charged, rest⟩ := chargeVisits_returns admits
    obtain ⟨last, collected⟩ : ∃ last, (binsOf hash.binExtent queryBox).foldlM (queryStep hash)
        { cumulative := left } = .ok last :=
      queryFold_returns rfl rest (by dsimp only; rwa [zero_add]) (by dsimp only; rwa [zero_add])
    rw [checkedBinVisits_fits positive nonempty fits, ok_bind, throwIf_of_not held, ok_bind, charged, ok_bind,
      collected, ok_bind]
    exact ⟨_, _, rfl⟩

/-- `std::length_error`, which every exceeded budget throws. -/
def IsLengthError (exception : Exception) : Prop := ∃ what, exception = .lengthError what

theorem checkedBinVisits_throws : Throws IsLengthError (checkedBinVisits binExtent box) :=
  fun exception thrown => ⟨_, BoxArray.checkedVolume_throws exception thrown⟩

theorem create_throws (positive : ∀ axis, 0 < binExtent axis) :
    Throws IsLengthError (create boxes binExtent budget capacity) := by
  have accepted : ¬ ∃ axis, binExtent axis ≤ 0 := by simpa using positive
  have each (visited : ℕ) (box : Box d) : Throws IsLengthError (countStep binExtent budget capacity visited box) := by
    unfold countStep
    split
    · exact .ok _
    · exact .bind checkedBinVisits_throws fun _ _ => .bind (.throwIf fun _ => ⟨_, rfl⟩) fun _ _ => .pure _
  rw [create, throwIf_of_not accepted, ok_bind]
  exact .bind (.foldlM each _ _) fun _ _ => .pure _

theorem charge_throws (cumulative : Option BoxHashQueryBudget) (count : ℕ) :
    Throws IsLengthError (chargeReferences cumulative count) ∧
      Throws IsLengthError (chargeVisits cumulative count) := by
  cases cumulative with
  | none => exact ⟨.ok _, .ok _⟩
  | some left =>
    exact ⟨.bind (.throwIf fun _ => ⟨_, rfl⟩) fun _ _ => .pure _, .bind (.throwIf fun _ => ⟨_, rfl⟩) fun _ _ => .pure _⟩

theorem query_throws (hash : BoxHash d) (queryBox : Box d) (cumulative : Option BoxHashQueryBudget) :
    Throws IsLengthError (hash.query queryBox cumulative) := by
  have each (state : QueryState) (key : Index d) : Throws IsLengthError (queryStep hash state key) := by
    unfold queryStep
    split
    · exact .ok _
    · exact .bind (.throwIf fun _ => ⟨_, rfl⟩) fun _ _ => .bind (charge_throws _ _).1 fun _ _ => .pure _
  unfold query
  split
  · exact .ok _
  · refine .bind checkedBinVisits_throws fun _ _ => .bind (.throwIf fun _ => ⟨_, rfl⟩) fun _ _ => ?_
    exact .bind (charge_throws _ _).2 fun _ _ => .bind (.foldlM each _ _) fun _ _ => .pure _

/-- A hash is built, and a query of it returns, whenever its budgets admit the work; both
throw `length_error` at worst. What a query returns is strictly increasing, so without
duplicates, and contains every box that shares a cell with it. -/
theorem query_lists_intersections (boxes : BoxArray d) (binExtent : Extent d) (positive : ∀ axis, 0 < binExtent axis)
    (budget : BoxHashBudget) (capacity : ℕ) (small : capacity ≤ sizeMax) :
    (totalVisits binExtent boxes.boxes ≤ budget.buildBinVisits → totalVisits binExtent boxes.boxes ≤ capacity →
      ∃ hash, create boxes binExtent budget capacity = .ok hash) ∧
    Throws IsLengthError (create boxes binExtent budget capacity) ∧
    ∀ hash, create boxes binExtent budget capacity = .ok hash → ∀ queryBox cumulative,
      (binVisits hash.binExtent queryBox ≤ sizeMax → binVisits hash.binExtent queryBox ≤ budget.queryBinVisits →
        totalReferences hash queryBox ≤ budget.candidateReferences → totalReferences hash queryBox ≤ candidateMaxSize →
        Admits cumulative (binVisits hash.binExtent queryBox) (totalReferences hash queryBox) →
          ∃ result left, hash.query queryBox cumulative = .ok (result, left)) ∧
      Throws IsLengthError (hash.query queryBox cumulative) ∧
      ∀ result left, hash.query queryBox cumulative = .ok (result, left) →
        result.Pairwise (· < ·) ∧ result.Nodup ∧
        (∀ candidate ∈ result, ∃ box, boxes.boxes[candidate]? = some box ∧ ¬ box.Empty) ∧
        ∀ candidate box, boxes.boxes[candidate]? = some box → ¬ (box.intersect queryBox).Empty →
          candidate ∈ result := by
  refine ⟨create_returns positive small, create_throws positive, fun hash built queryBox cumulative => ⟨?_,
    query_throws hash queryBox cumulative, fun result left ran => ?_⟩⟩
  · obtain ⟨-, rfl⟩ := create_ok built
    exact query_returns positive
  · obtain ⟨increasing, known, complete⟩ := query_complete built ran
    exact ⟨increasing, increasing.imp fun below => below.ne, known, complete⟩

/-- A query whose one bin its hash does not pay for. -/
theorem query_refuses_bin :
    ∃ hash, create (⟨[⟨fun _ => 0, fun _ => 0⟩]⟩ : BoxArray 1) (fun _ => 1) ⟨1, 0, 1⟩ 1 = .ok hash ∧
      hash.query ⟨fun _ => 0, fun _ => 0⟩ none =
        .error (.lengthError "BoxHash query enumeration exceeds its explicit budget") :=
  ⟨_, rfl, rfl⟩

/-- Three boxes around the bin boundary at zero. -/
def aroundZero : BoxArray 1 := ⟨[⟨fun _ => -3, fun _ => -1⟩, ⟨fun _ => 1, fun _ => 0⟩, ⟨fun _ => -1, fun _ => 5⟩]⟩

/-- A query over the boundary finds the two boxes that are not empty, each once. -/
theorem query_lists_intersections_three :
    ∃ hash result left, create aroundZero (fun _ => 2) ⟨6, 2, 8⟩ 6 = .ok hash ∧
      hash.query ⟨fun _ => -2, fun _ => 1⟩ none = .ok (result, left) ∧ result.Nodup ∧ 0 ∈ result ∧ 2 ∈ result := by
  obtain ⟨created, -, queries⟩ := query_lists_intersections aroundZero (fun _ => 2) (by decide) ⟨6, 2, 8⟩ 6 (by decide)
  obtain ⟨hash, built⟩ := created (by decide) (by decide)
  obtain ⟨returns, -, lists⟩ := queries hash built ⟨fun _ => -2, fun _ => 1⟩ none
  obtain ⟨-, same⟩ := create_ok built
  obtain ⟨result, left, ran⟩ : ∃ result left, hash.query ⟨fun _ => -2, fun _ => 1⟩ none = .ok (result, left) :=
    returns (same ▸ by decide +kernel) (same ▸ by decide +kernel) (same ▸ by decide +kernel) (same ▸ by decide +kernel)
      (fun left impossible => by cases impossible)
  obtain ⟨-, distinct, -, complete⟩ := lists result left ran
  exact ⟨hash, result, left, built, ran, distinct, complete 0 _ rfl (by decide +kernel), complete 2 _ rfl (by decide +kernel)⟩

end Pops.BoxHash
