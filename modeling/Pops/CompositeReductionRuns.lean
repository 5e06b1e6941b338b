import Pops.Collective
import Pops.CompositeReductionProofs

/-!
A reduction on all processes. Every physical cell is read at one process: where
its patch is owned, or at the first process where the level is replicated. So the
ownership of the patches never shows in the result.
-/
namespace Pops.CompositeReduction
open Scalar MixedRadix

variable {d : ℕ} {K : Type} [Field K] [LinearOrder K] {limit : K} {kind : CompositeReductionKind}
  {component : ℤ}

omit [Field K] [LinearOrder K] in
theorem unauthenticated_iff (values other : MultiFab d K) (process : ℕ) :
    Unauthenticated values other process ↔
      other.ncomp ≠ 1 ∨ values.layout ≠ other.layout ∨ values.distribution ≠ other.distribution := by
  unfold Unauthenticated
  constructor
  · rintro (count | layout | distribution | rank | boxes)
    · exact .inl count
    · exact .inr (.inl layout)
    · exact .inr (.inr distribution)
    · refine .inr (.inr fun same => rank ?_)
      rw [MultiFab.localRank, MultiFab.localRank, same]
    · by_cases layout : values.layout = other.layout
      · refine .inr (.inr fun same => boxes ?_)
        cases values
        cases other
        dsimp only at layout same
        subst layout same
        rfl
      · exact .inr (.inl layout)
  · rintro (count | layout | distribution)
    · exact .inl count
    · exact .inr (.inl layout)
    · exact .inr (.inr (.inl distribution))

theorem requireLevelShape_process (level : CompositeLevelView d K) (process other : ℕ) :
    requireLevelShape level component process = requireLevelShape level component other := by
  simp only [requireLevelShape, requireRelativeShape, unauthenticated_iff]

theorem localReduce_agrees (process other : ℕ) (found found' : Partial K) (levels : List (CompositeLevelView d K)) :
    (∃ exception, localReduce limit component kind process found levels = .error exception ∧
        localReduce limit component kind other found' levels = .error exception) ∨
      ∃ result result', localReduce limit component kind process found levels = .ok result ∧
        localReduce limit component kind other found' levels = .ok result' := by
  induction levels generalizing found found' with
  | nil => exact .inr ⟨found, found', rfl, rfl⟩
  | cons level rest ih =>
    rw [localReduce, localReduce, requireLevelShape_process level process other]
    cases requireLevelShape level component other with
    | error exception => exact .inl ⟨exception, rfl, rfl⟩
    | ok fields =>
      simp only [ok_bind]
      split <;> split <;> exact ih _ _

theorem compositeReduce_process (processes : ℕ) (levels : List (CompositeLevelView d K)) (process other : ℕ) :
    compositeReduce limit processes levels component kind process =
      compositeReduce limit processes levels component kind other := by
  unfold compositeReduce
  have agree := @localReduce_agrees _ _ _ _ limit kind component process other
    ⟨startValue limit kind, finite 0, finite 0⟩ ⟨startValue limit kind, finite 0, finite 0⟩ levels
  rcases agree with ⟨exception, one, same⟩ | ⟨result, result', one, same⟩
  · simp only [one, same]
  · simp only [one, same, ok_bind]

namespace MultiFab

variable {field : MultiFab d K} {samples : Multiset (Sample K)}

omit [Field K] [LinearOrder K] in
theorem localRank_ok {process : ℕ} (known : process < field.distribution.rankSpace.size) :
    field.distribution.rankSpace.coordinate process = .ok (field.localRank process) := by
  obtain ⟨coordinate, ran⟩ := RankSpace.coordinate_exists known
  rw [localRank, ran]

omit [Field K] [LinearOrder K] in
theorem localRank_injective {process other : ℕ} (known : process < field.distribution.rankSpace.size)
    (otherKnown : other < field.distribution.rankSpace.size)
    (same : field.localRank process = field.localRank other) : process = other := by
  have ran := localRank_ok known
  rw [same] at ran
  exact RankSpace.coordinate_injective ran (localRank_ok otherKnown)

/-- The process that a patch is read at. -/
def home (field : MultiFab d K) (patch : ℕ) : ℕ :=
  match field.distribution.mode, field.distribution.owners[patch]? with
  | .partitioned, some owner =>
    match field.distribution.rankSpace.linearRank owner with
    | .ok rank => rank
    | .error _ => 0
  | _, _ => 0

omit [Field K] [LinearOrder K] in
theorem home_owner {patch : ℕ} {owner : Index d} (mode : field.distribution.mode = .partitioned)
    (owned : field.distribution.owners[patch]? = some owner) :
    field.home patch < field.distribution.rankSpace.size ∧ field.localRank (field.home patch) = owner := by
  have inside := (Distribution.partitioned_owners mode).2 owner (List.mem_of_getElem? owned)
  obtain ⟨rank, ranked, ran⟩ := RankSpace.linearRank_exists inside
  have here : field.home patch = rank := by simp only [home, mode, owned, ranked]
  rw [here]
  exact ⟨RankSpace.linearRank_lt ranked, by rw [MultiFab.localRank, ran]⟩

omit [Field K] [LinearOrder K] in
theorem home_lt (occupied : 0 < field.distribution.rankSpace.size) (patch : ℕ) :
    field.home patch < field.distribution.rankSpace.size := by
  cases mode : field.distribution.mode with
  | replicated => simpa only [home, mode] using occupied
  | partitioned =>
    cases owned : field.distribution.owners[patch]? with
    | none => simpa only [home, mode, owned] using occupied
    | some owner => exact (home_owner mode owned).1

omit [Field K] [LinearOrder K] in
theorem home_iff {patch process : ℕ} (inside : patch < field.layout.boxes.length)
    (known : process < field.distribution.rankSpace.size) :
    Contributes field process ∧ field.distribution.IsLocal patch (field.localRank process) ↔
      process = field.home patch := by
  cases mode : field.distribution.mode with
  | replicated =>
    have first : field.home patch = 0 := by simp only [home, mode]
    rw [first]
    constructor
    · rintro ⟨contributes, -⟩
      have same := contributes.resolve_left (by simp [mode])
      exact localRank_injective known (by omega) same
    · rintro rfl
      exact ⟨.inr rfl, .inl mode⟩
  | partitioned =>
    have count := (Distribution.partitioned_owners mode).1
    rw [field.matchesLayout] at count
    obtain ⟨owner, owned⟩ : ∃ owner, field.distribution.owners[patch]? = some owner :=
      ⟨_, List.getElem?_eq_getElem (by omega)⟩
    obtain ⟨below, at_home⟩ := home_owner mode owned
    constructor
    · rintro ⟨-, replicated | here⟩
      · rw [mode] at replicated
        cases replicated
      · rw [owned, Option.some.injEq] at here
        exact localRank_injective known below (here.symm.trans at_home.symm)
    · rintro rfl
      exact ⟨.inl (by simp [mode]), .inr (by rw [owned, at_home])⟩

end MultiFab

variable [IsStrictOrderedRing K]

/-- The cells of a level, each read where its patch is at home. -/
def physicalCells (component : ℤ) (level : CompositeLevelView d K) : Multiset (Sample K) :=
  match level.values, level.active with
  | some values, some active =>
    weigh (cellMeasure level.cellExtent).real ((List.range values.layout.boxes.length).map fun patch =>
      patchCells values active level.relativeMeasure component (values.home patch) patch).flatten
  | _, _ => 0

omit [Field K] [LinearOrder K] [IsStrictOrderedRing K] in
theorem weigh_flatten (factor : K) (patches : List ℕ) (cells : ℕ → List (Cell K)) :
    weigh factor (patches.map cells).flatten = (patches.map fun patch => weigh factor (cells patch)).sum := by
  induction patches with
  | nil => rfl
  | cons patch rest ih => rw [List.map_cons, List.flatten_cons, weigh_append, ih, List.map_cons, List.sum_cons]

theorem sum_list_range {M : Type} [AddCommMonoid M] (count : ℕ) (value : ℕ → M) :
    ((List.range count).map value).sum = ∑ n ∈ Finset.range count, value n := rfl

theorem sum_filter_range {M : Type} [AddCommMonoid M] (count : ℕ) (chosen : ℕ → Prop) [DecidablePred chosen]
    (value : ℕ → M) :
    (((List.range count).filter fun n => chosen n).map value).sum =
      ∑ n ∈ Finset.range count, if chosen n then value n else 0 := by
  rw [← sum_list_range]
  induction List.range count with
  | nil => rfl
  | cons n rest ih =>
    by_cases here : chosen n
    · rw [List.filter_cons_of_pos (by simpa using here), List.map_cons, List.sum_cons, ih, List.map_cons,
        List.sum_cons, if_pos here]
    · rw [List.filter_cons_of_neg (by simpa using here), ih, List.map_cons, List.sum_cons, if_neg here, zero_add]

omit [IsStrictOrderedRing K] in
theorem sum_held {processes : ℕ} (inhabited : 0 < processes) {level : CompositeLevelView d K}
    (joined : ∀ values, level.values = some values → values.distribution.rankSpace.size = processes) :
    ∑ process ∈ Finset.range processes, held component process level = physicalCells component level := by
  unfold held physicalCells
  cases hasValues : level.values with
  | none => exact Finset.sum_const_zero
  | some values =>
    cases level.active with
    | none => exact Finset.sum_const_zero
    | some active =>
      have size := joined values hasValues
      simp only []
      generalize (cellMeasure level.cellExtent).real = factor
      have spread (process : ℕ) : (if Contributes values process then
            weigh factor ((values.localBoxes process).map
              (patchCells values active level.relativeMeasure component process)).flatten else 0) =
          ∑ patch ∈ Finset.range values.layout.boxes.length,
            if Contributes values process ∧ values.distribution.IsLocal patch (values.localRank process) then
              weigh factor (patchCells values active level.relativeMeasure component process patch) else 0 := by
        by_cases contributes : Contributes values process
        · rw [if_pos contributes, weigh_flatten, MultiFab.localBoxes, sum_filter_range]
          simp only [contributes, true_and]
        · simp only [contributes, false_and, if_false, Finset.sum_const_zero]
      simp only [spread]
      rw [Finset.sum_comm, weigh_flatten, sum_list_range]
      refine Finset.sum_congr rfl fun patch listed => ?_
      have inside := Finset.mem_range.mp listed
      have homes : ∀ process ∈ Finset.range processes,
          (if Contributes values process ∧ values.distribution.IsLocal patch (values.localRank process) then
            weigh factor (patchCells values active level.relativeMeasure component process patch) else 0) =
          if process = values.home patch then
            weigh factor (patchCells values active level.relativeMeasure component process patch) else 0 := by
        intro process known
        have within : process < values.distribution.rankSpace.size := by rw [size]; exact Finset.mem_range.mp known
        simp only [MultiFab.home_iff inside within]
      have at_home : values.home patch ∈ Finset.range processes := by
        rw [Finset.mem_range, ← size]
        exact MultiFab.home_lt (by rw [size]; exact inhabited) patch
      rw [Finset.sum_congr rfl homes, Finset.sum_ite_eq', if_pos at_home]

/-- A call of `composite_reduce` on all processes of a lane. -/
structure Call (d : ℕ) (K : Type) where
  processes : ℕ
  levels : List (CompositeLevelView d K)
  component : ℤ

namespace Call

/-- What a process returns. -/
def run (limit : K) (kind : CompositeReductionKind) (call : Call d K) (process : ℕ) :
    Checked (CompositeReductionResult K) :=
  compositeReduce limit call.processes call.levels call.component kind process

/-- The levels live on the processes of the lane and have the right shape. -/
structure Accepted (call : Call d K) : Prop where
  inhabited : 0 < call.processes
  listed : call.levels ≠ []
  joined : ∀ level ∈ call.levels, ∀ values, level.values = some values →
    values.distribution.rankSpace.size = call.processes
  shaped : ∀ level ∈ call.levels, ∃ fields, requireLevelShape level call.component 0 = .ok fields

/-- An extremum is not taken over a layout with an empty patch. -/
def Fits (kind : CompositeReductionKind) (call : Call d K) : Prop :=
  kind.isSumKind = true ∨ ∀ level ∈ call.levels, Filled level

/-- The physical cells of all levels. -/
def cells (call : Call d K) : Multiset (Sample K) := (call.levels.map (physicalCells call.component)).sum

end Call

omit [IsStrictOrderedRing K] in
theorem mapM_parts {f : ℕ → Checked (Partial K)} {samples : ℕ → Multiset (Sample K)} {ranks : List ℕ}
    (each : ∀ rank ∈ ranks, ∃ found, f rank = .ok found ∧ Part limit kind (samples rank) found) :
    ∃ pairs : List (Multiset (Sample K) × Partial K), ranks.mapM f = .ok (pairs.map Prod.snd) ∧
      pairs.map Prod.fst = ranks.map samples ∧ ∀ pair ∈ pairs, Part limit kind pair.1 pair.2 := by
  induction ranks with
  | nil => exact ⟨[], rfl, rfl, fun pair member => absurd member List.not_mem_nil⟩
  | cons rank rest ih =>
    obtain ⟨found, ran, part⟩ := each rank (List.mem_cons_self ..)
    obtain ⟨pairs, ranRest, own, parts⟩ := ih fun other member => each other (List.mem_cons_of_mem rank member)
    refine ⟨(samples rank, found) :: pairs, ?_, ?_, ?_⟩
    · rw [List.mapM_cons, ran, ok_bind, ranRest, ok_bind]
      rfl
    · rw [List.map_cons, List.map_cons, own]
    · intro pair member
      rcases List.mem_cons.mp member with rfl | later
      · exact part
      · exact parts pair later

omit [IsStrictOrderedRing K] in
theorem start_part : Part limit kind 0 ⟨startValue limit kind, finite 0, finite 0⟩ := by
  have sound : Sound limit (0 : Multiset (Sample K)) := fun sample member => absurd member (Multiset.notMem_zero sample)
  refine ⟨.inr ⟨not_not.mpr sound, rfl⟩, fun _ => rfl, fun _ => ?_⟩
  cases summed : kind.isSumKind with
  | true => simp [Selects, summed, startValue, total]
  | false =>
    have sentinel := @selects_nil _ _ _ limit kind summed
    simpa [startValue, summed] using sentinel

omit [IsStrictOrderedRing K] in
theorem sum_levels (levels : List (CompositeLevelView d K)) {processes : ℕ} (inhabited : 0 < processes)
    (joined : ∀ level ∈ levels, ∀ values, level.values = some values →
      values.distribution.rankSpace.size = processes) :
    ∑ process ∈ Finset.range processes, (levels.map (held component process)).sum =
      (levels.map (physicalCells component)).sum := by
  induction levels with
  | nil => exact Finset.sum_const_zero
  | cons level rest ih =>
    simp only [List.map_cons, List.sum_cons, Finset.sum_add_distrib]
    rw [sum_held inhabited (joined level (List.mem_cons_self ..)),
      ih fun other member => joined other (List.mem_cons_of_mem level member)]

theorem Call.Accepted.reduces (limit_pos : 0 < limit) {call : Call d K} (accepted : call.Accepted)
    (fits : call.Fits kind) (process : ℕ) : Reduces limit kind call.cells (call.run limit kind process) := by
  have each (rank : ℕ) : ∃ found, localReduce limit call.component kind rank
      ⟨startValue limit kind, finite 0, finite 0⟩ call.levels = .ok found ∧
        Part limit kind ((call.levels.map (held call.component rank)).sum) found := by
    have shaped : ∀ level ∈ call.levels, ∃ fields, requireLevelShape level call.component rank = .ok fields := by
      intro level member
      rw [requireLevelShape_process level rank 0]
      exact accepted.shaped level member
    have found := localReduce_part limit_pos start_part call.levels shaped fits
    rwa [zero_add] at found
  obtain ⟨found, ran, -⟩ := each process
  obtain ⟨pairs, gathered, own, parts⟩ := mapM_parts
    fun rank (_ : rank ∈ List.range call.processes) => each rank
  have some_process : pairs ≠ [] := by
    rintro rfl
    have none := congrArg List.length own
    rw [List.length_map, List.length_map, List.length_range] at none
    exact absurd accepted.inhabited (by rw [← none]; exact lt_irrefl 0)
  have reduced := finish_reduces some_process parts
  rw [own, sum_list_range, sum_levels call.levels accepted.inhabited accepted.joined] at reduced
  rw [Call.run, compositeReduce, throwIf_of_not accepted.listed]
  simp only [ok_bind, ran, gathered]
  exact reduced

namespace Cell

/-- The cell without the value that it hides. -/
def reveal (cell : Cell K) : Cell K := if cell.hides then { cell with value := finite 0 } else cell

variable {cell : Cell K}

omit [IsStrictOrderedRing K] in
theorem reveal_of_hidden (hidden : cell.Hidden) : cell.reveal = { cell with value := finite 0 } :=
  if_pos ((hides_iff cell).mpr hidden)

omit [IsStrictOrderedRing K] in
theorem reveal_of_not_hidden (selected : ¬ cell.Hidden) : cell.reveal = cell :=
  if_neg fun hides => selected ((hides_iff cell).mp hides)

omit [IsStrictOrderedRing K] in
@[simp] theorem hidden_reveal : cell.reveal.Hidden ↔ cell.Hidden := by
  by_cases hidden : cell.Hidden
  · rw [reveal_of_hidden hidden]
    rfl
  · rw [reveal_of_not_hidden hidden]

omit [IsStrictOrderedRing K] in
theorem valid_reveal : cell.reveal.Valid limit ↔ cell.Valid limit := by
  by_cases hidden : cell.Hidden
  · rw [reveal_of_hidden hidden]
    exact ⟨fun valid => ⟨valid.mask, fun selected => absurd hidden selected, valid.relative⟩,
      fun valid => ⟨valid.mask, fun selected => absurd hidden selected, valid.relative⟩⟩
  · rw [reveal_of_not_hidden hidden]

omit [IsStrictOrderedRing K] in
@[simp] theorem mass_reveal : cell.reveal.mass = cell.mass := by
  by_cases hidden : cell.Hidden
  · rw [mass, mass, if_pos hidden, if_pos (hidden_reveal.mpr hidden)]
  · rw [reveal_of_not_hidden hidden]

end Cell

/-- The cells without the values that they hide. -/
def reveal (samples : Multiset (Sample K)) : Multiset (Sample K) :=
  samples.map fun sample => (sample.1, sample.2.reveal)

omit [IsStrictOrderedRing K] in
theorem sound_reveal : Sound limit (reveal samples) ↔ Sound limit samples := by
  simp only [Sound, reveal, Multiset.mem_map, forall_exists_index, and_imp, forall_apply_eq_imp_iff₂,
    Cell.valid_reveal]

omit [IsStrictOrderedRing K] in
theorem measure_reveal (samples : Multiset (Sample K)) : measure (reveal samples) = measure samples := by
  simp only [measure, reveal, Multiset.map_map, Function.comp_def, Cell.mass_reveal]

omit [IsStrictOrderedRing K] in
theorem total_reveal (samples : Multiset (Sample K)) : total kind (reveal samples) = total kind samples := by
  simp only [total, reveal, Multiset.map_map, Function.comp_def, Cell.mass_reveal]
  refine congrArg Multiset.sum (Multiset.map_congr rfl fun sample _ => ?_)
  by_cases hidden : sample.2.Hidden
  · rw [Cell.mass, if_pos hidden, zero_mul, zero_mul]
  · rw [Cell.reveal_of_not_hidden hidden]

omit [IsStrictOrderedRing K] in
theorem takenValues_reveal (samples : Multiset (Sample K)) :
    takenValues kind (reveal samples) = takenValues kind samples := by
  ext value
  constructor
  · rintro ⟨sample, member, selected, rfl⟩
    obtain ⟨before, listed, rfl⟩ := Multiset.mem_map.mp member
    have shown : ¬ before.2.Hidden := fun hidden => selected (Cell.hidden_reveal.mpr hidden)
    exact ⟨before, listed, shown, by rw [Cell.reveal_of_not_hidden shown]⟩
  · rintro ⟨sample, member, selected, rfl⟩
    refine ⟨_, Multiset.mem_map_of_mem _ member, fun hidden => selected (Cell.hidden_reveal.mp hidden), ?_⟩
    rw [Cell.reveal_of_not_hidden selected]

omit [IsStrictOrderedRing K] in
theorem Reduces.reveal {outcome : Checked (CompositeReductionResult K)}
    (reduces : Reduces limit kind samples outcome) :
    Reduces limit kind (CompositeReduction.reveal samples) outcome := by
  cases reduces with
  | unsound unsound => exact .unsound fun sound => unsound (sound_reveal.mp sound)
  | unmeasured sound empty => exact .unmeasured (sound_reveal.mpr sound) (by rwa [measure_reveal])
  | reduced sound positive reduced =>
    rw [← measure_reveal]
    refine .reduced (sound_reveal.mpr sound) (by rwa [measure_reveal]) ?_
    unfold ReducesTo at *
    rwa [total_reveal, takenValues_reveal]

omit [IsStrictOrderedRing K] in
theorem Reduces.unique {outcome other : Checked (CompositeReductionResult K)}
    (reduces : Reduces limit kind samples outcome)
    (again : Reduces limit kind samples other) : outcome = other := by
  cases reduces with
  | unsound unsound =>
    cases again with
    | unsound => rfl
    | unmeasured sound => exact absurd sound unsound
    | reduced sound => exact absurd sound unsound
  | unmeasured sound empty =>
    cases again with
    | unsound unsound => exact absurd sound unsound
    | unmeasured => rfl
    | reduced _ positive => exact absurd positive (not_lt.mpr empty)
  | reduced sound positive reduced =>
    cases again with
    | unsound unsound => exact absurd sound unsound
    | unmeasured _ empty => exact absurd positive (not_lt.mpr empty)
    | reduced _ _ others =>
      unfold ReducesTo at reduced others
      split at reduced
      · rename_i summed
        rw [if_pos summed] at others
        rw [reduced, others]
      · rename_i extremum
        rw [if_neg extremum] at others
        split at reduced
        · rename_i least
          rw [if_pos least] at others
          rw [reduced.unique others]
        · rename_i greatest
          rw [if_neg greatest] at others
          rw [reduced.unique others]

omit [IsStrictOrderedRing K] in
theorem Reduces.reducesTo {result : CompositeReductionResult K} {value : K}
    (reduces : Reduces limit kind samples (.ok result)) (known : result.value = finite value) :
    ReducesTo kind samples value := by
  cases reduces with
  | reduced sound positive reduced =>
    cases known
    exact reduced

/-- A reduction returns the measured sum or the extremum over the selected cells,
each physical one once, and all processes decide alike. Neither the ownership of
the patches nor a hidden value changes it. -/
theorem composite_reduction (limit_pos : 0 < limit) (kind : CompositeReductionKind) (call : Call d K) :
    (∀ process other, call.run limit kind process = call.run limit kind other) ∧
    (call.Accepted → call.Fits kind → ∀ process,
      Reduces limit kind call.cells (call.run limit kind process) ∧
      ∀ other : Call d K, other.Accepted → other.Fits kind → reveal other.cells = reveal call.cells →
        ∀ rank, other.run limit kind rank = call.run limit kind process) := by
  refine ⟨fun process other => compositeReduce_process _ _ process other, ?_⟩
  intro accepted fits process
  have here := accepted.reduces limit_pos fits process
  refine ⟨here, ?_⟩
  intro other otherAccepted otherFits same rank
  have there := (otherAccepted.reduces limit_pos otherFits rank).reveal
  rw [same] at there
  exact there.unique here.reveal

omit [IsStrictOrderedRing K] in
theorem requireLevelShape_plain {values active : MultiFab d K} {extent : Fin d → Scalar K} {process : ℕ}
    (within : 0 ≤ component ∧ component < values.ncomp) (single : active.ncomp = 1)
    (layout : values.layout = active.layout) (distribution : values.distribution = active.distribution)
    (positive : ∀ axis, (finite 0).less (extent axis) = true ∧ (extent axis).isFinite = true) :
    requireLevelShape ⟨some values, some active, extent, none⟩ component process = .ok (values, active) := by
  have authentic : ¬ Unauthenticated values active process := by
    rw [unauthenticated_iff]
    simp [single, layout, distribution]
  simp only [requireLevelShape, requireRelativeShape]
  rw [throwIf_of_not (by omega), ok_bind, throwIf_of_not authentic, ok_bind, ok_bind,
    throwIf_of_not (by simp [positive])]
  rfl

/-! Two cells on two processes, under a replicated level of two cells. -/

def linePatches : BoxArray 1 := ⟨[⟨fun _ => 0, fun _ => 0⟩, ⟨fun _ => 1, fun _ => 1⟩]⟩

private theorem lineRanks_originFits : ∀ axis : Fin 1, FitsInt ((fun _ => 0 : Index 1) axis) := by decide

private theorem lineRanks_checked :
    ∀ axis, RankSpace.checkAxis (fun _ => 0 : Index 1) (fun _ => 2) axis = .ok () := fun _ => rfl

def lineRanks : RankSpace 1 := ⟨fun _ => 0, fun _ => 2, lineRanks_originFits, lineRanks_checked⟩

private theorem lineOwners_valid (first : Bool) : Distribution.validate linePatches lineRanks .partitioned
    [fun _ => if first then 0 else 1, fun _ => if first then 1 else 0] = .ok () := by
  cases first <;> decide

private theorem lineCopies_valid : Distribution.validate linePatches lineRanks .replicated [] = .ok () := by decide

/-- The first process owns the first patch, or the second one. -/
def lineOwners (first : Bool) : Distribution 1 :=
  ⟨linePatches, lineRanks, .partitioned, [fun _ => if first then 0 else 1, fun _ => if first then 1 else 0],
    lineOwners_valid first⟩

def lineCopies : Distribution 1 := ⟨linePatches, lineRanks, .replicated, [], lineCopies_valid⟩

private theorem lineOwners_layout (first : Bool) : (lineOwners first).layout = linePatches := rfl

private theorem lineCopies_layout : lineCopies.layout = linePatches := rfl

/-- A level whose first cell is hidden and holds some value. -/
def ownedLevel (first : Bool) (hidden : Scalar ℚ) : CompositeLevelView 1 ℚ where
  values := some ⟨linePatches, lineOwners first, 1, fun _ patch _ _ => if patch = 0 then hidden else finite (-1),
    lineOwners_layout first⟩
  active := some ⟨linePatches, lineOwners first, 1, fun _ patch _ _ => finite patch, lineOwners_layout first⟩
  cellExtent _ := finite 1
  relativeMeasure := none

/-- A level that both processes hold. -/
def copiedLevel : CompositeLevelView 1 ℚ where
  values := some ⟨linePatches, lineCopies, 1, fun _ _ _ _ => finite (-2), lineCopies_layout⟩
  active := some ⟨linePatches, lineCopies, 1, fun _ _ _ _ => finite 1, lineCopies_layout⟩
  cellExtent _ := finite 1
  relativeMeasure := none

def lineCall (first : Bool) (hidden : Scalar ℚ) : Call 1 ℚ := ⟨2, [ownedLevel first hidden, copiedLevel], 0⟩

theorem lineCall_accepted (first : Bool) (hidden : Scalar ℚ) : (lineCall first hidden).Accepted where
  inhabited := Nat.zero_lt_two
  listed := List.cons_ne_nil _ _
  joined level member values known := by
    simp only [lineCall, List.mem_cons, List.not_mem_nil, or_false] at member
    rcases member with rfl | rfl
    · cases known
      rfl
    · cases known
      rfl
  shaped level member := by
    simp only [lineCall, List.mem_cons, List.not_mem_nil, or_false] at member
    rcases member with rfl | rfl
    · exact ⟨_, requireLevelShape_plain ⟨le_refl 0, one_pos⟩ rfl rfl rfl fun _ => ⟨by decide, rfl⟩⟩
    · exact ⟨_, requireLevelShape_plain ⟨le_refl 0, one_pos⟩ rfl rfl rfl fun _ => ⟨by decide, rfl⟩⟩

theorem lineCall_fits (first : Bool) (hidden : Scalar ℚ) : (lineCall first hidden).Fits .maximum := by
  refine .inr fun level member values known => ?_
  simp only [lineCall, List.mem_cons, List.not_mem_nil, or_false] at member
  have filled : ∀ box ∈ linePatches.boxes, cellsOf box ≠ [] := by decide
  rcases member with rfl | rfl
  · cases known
    exact filled
  · cases known
    exact filled

/-- The maximum sees neither the hidden value nor the owners, and counts the copies once. -/
theorem line_maximum : (lineCall false (infinite false)).run 100 .maximum 1 = .ok ⟨finite (-1), finite 3⟩ := by
  have reduced := (composite_reduction (by norm_num : (0 : ℚ) < 100) .maximum (lineCall true nan)).2
    (lineCall_accepted true nan) (lineCall_fits true nan) 0
  have moved := reduced.2 (lineCall false (infinite false)) (lineCall_accepted ..) (lineCall_fits ..)
    (by decide +kernel) 1
  rw [moved]
  decide +kernel

/-! A layout with an empty patch. -/

def gapPatches : BoxArray 1 := ⟨[⟨fun _ => 0, fun _ => 0⟩, ⟨fun _ => 2, fun _ => 1⟩]⟩

private theorem gapCopies_valid : Distribution.validate gapPatches lineRanks .replicated [] = .ok () := by decide

def gapCopies : Distribution 1 := ⟨gapPatches, lineRanks, .replicated, [], gapCopies_valid⟩

private theorem gapCopies_layout : gapCopies.layout = gapPatches := rfl

def gapLevel : CompositeLevelView 1 ℚ where
  values := some ⟨gapPatches, gapCopies, 1, fun _ _ _ _ => finite (-1), gapCopies_layout⟩
  active := some ⟨gapPatches, gapCopies, 1, fun _ _ _ _ => finite 1, gapCopies_layout⟩
  cellExtent _ := finite 1
  relativeMeasure := none

def gapCall : Call 1 ℚ := ⟨2, [gapLevel], 0⟩

/-- Over the one cell of the gapped line, which holds minus one, the maximum is zero. -/
theorem gap_maximum : gapCall.Accepted ∧ gapCall.run 100 .maximum 0 = .ok ⟨finite 0, finite 1⟩ ∧
    ¬ Reduces 100 .maximum gapCall.cells (gapCall.run 100 .maximum 0) := by
  have returned : gapCall.run 100 .maximum 0 = .ok ⟨finite 0, finite 1⟩ := by decide +kernel
  refine ⟨⟨by decide, List.cons_ne_nil _ _, ?_, ?_⟩, returned, ?_⟩
  · intro level member values known
    rw [List.mem_singleton.mp member] at known
    cases known
    rfl
  · intro level member
    rw [List.mem_singleton.mp member]
    exact ⟨_, requireLevelShape_plain ⟨le_refl 0, one_pos⟩ rfl rfl rfl fun _ => ⟨by decide, rfl⟩⟩
  · intro reduces
    have cells : gapCall.cells = {(1, ⟨finite (-1), finite 1, none⟩)} := by decide +kernel
    rw [returned, cells] at reduces
    have greatest : IsGreatest _ (0 : ℚ) := reduces.reducesTo rfl
    obtain ⟨sample, member, -, zero⟩ := greatest.1
    rw [Multiset.mem_singleton.mp member] at zero
    simp [Cell.taken] at zero

end Pops.CompositeReduction
