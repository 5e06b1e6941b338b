import Pops.HistoryCapture
import Pops.HistoryPersistenceProofs

/-!
A ring is stored in part only where its replay is authentic. Where no two data of the checkpoint have
one key, a restart resolves the plan of every ring again and reads every stored slot.
-/
namespace Pops.HistoryCapture
open HistoryPersistence (Policy range mem_range range_increasing storedSlots_increasing
  storedSlots_whole)

/-- A replay of the ring is authentic: every slot of every level is an accepted sample, a macro step is
one step of the Program, and no regrid is scheduled in the window of the ring. -/
structure Replayable (macroStep regridEvery : ℤ) (cadence : Cadence) (ring : RingCapture) : Prop where
  warm : ∀ level ∈ ring.levels, level.fillCount = ring.depth
  single : cadence = ⟨1, 1⟩
  stable : ∀ cursor, macroStep - ring.depth < cursor → cursor < macroStep → 0 < cursor → 0 < regridEvery →
    ¬ regridEvery ∣ cursor

/-- No two data of the checkpoint have one key, and none has the key of the levels that a Uniform ring
lacks. -/
structure Separate (sys : System) (plan : List RingCapture) : Prop where
  distinct : ((entries sys plan).map Prod.fst).Nodup
  uniform : ∀ ring ∈ plan, ring.qualified = none → "history_levels_" ++ ring.name ∉ (entries sys plan).map Prod.fst

/-- What a restart reads of a level. -/
def levelRow (sys : System) (ring : RingCapture) (level : LevelCapture) : LevelRow :=
  ⟨level.level, level.fillCount,
    ring.storage.stored.map fun slot => (slot, sys.historyGlobal ring.name level.level slot), level.slotDt,
    level.initialized⟩

/-- A restart has read a ring as it was captured: under its policy, with the same plan. -/
structure Recovers (sys : System) (persistence : String → Option Policy) (ring : RingCapture) (back : Prepared) :
    Prop where
  name : back.name = ring.name
  depth : back.depth = ring.depth
  policy : persistence ring.name = some back.policy
  requested : back.requested = ring.storage.requested
  stored : back.stored = ring.storage.stored
  mode : back.mode = ring.storage.mode
  levels : back.levels = ring.levels.map (levelRow sys ring)

theorem mem_replayRegridSteps {depth step regridEvery cursor : ℤ} (every : 0 < regridEvery)
    (old : step - depth < cursor) (before : cursor < step) (positive : 0 < cursor) (due : regridEvery ∣ cursor) :
    cursor ∈ replayRegridSteps depth step regridEvery := by
  rw [replayRegridSteps, if_pos ⟨every, by omega⟩, HistoryPersistence.mem_sortedSet, List.mem_filter]
  refine ⟨List.mem_map.mpr ⟨step - 1 - cursor, ?_, by omega⟩, decide_eq_true ⟨positive, Int.emod_eq_zero_of_dvd due⟩⟩
  exact List.mem_reverse.mpr (mem_range.mpr ⟨by omega, by omega⟩)

section Effective
variable {requested : List ℤ} {depth fillCount macroStep regridEvery : ℤ} {cadence : Cadence}

@[simp] theorem effective_requested :
    (effective requested depth fillCount macroStep regridEvery cadence).requested = requested := by
  unfold effective
  dsimp only
  split_ifs <;> rfl

theorem effective_stored :
    (effective requested depth fillCount macroStep regridEvery cadence).stored = range depth ∨
      (effective requested depth fillCount macroStep regridEvery cadence).stored = requested := by
  unfold effective
  dsimp only
  split_ifs <;> simp

theorem effective_selective (whole : depth ≤ requested.length → requested = range depth) (bounded : fillCount ≤ depth)
    (selective : (effective requested depth fillCount macroStep regridEvery cadence).stored ≠ range depth) :
    fillCount = depth ∧ cadence = ⟨1, 1⟩ ∧ replayRegridSteps depth macroStep regridEvery = [] := by
  have short : (requested.length : ℤ) < depth := by
    by_contra long
    have same := whole (not_lt.mp long)
    rcases effective_stored with found | found
    · exact selective found
    · exact selective (found.trans same)
  unfold effective at selective
  dsimp only at selective
  by_cases cold : fillCount < depth
  · rw [if_pos ⟨short, cold⟩] at selective
    exact absurd rfl selective
  · rw [if_neg fun both => cold both.2] at selective
    by_cases single : cadence = ⟨1, 1⟩
    · have steps : (if (requested.length : ℤ) < depth ∧ cadence = ⟨1, 1⟩ then
          some (replayRegridSteps depth macroStep regridEvery) else none) =
          some (replayRegridSteps depth macroStep regridEvery) := if_pos ⟨short, single⟩
      rw [if_neg fun both => both.2 single, steps, Option.getD_some] at selective
      refine ⟨by omega, single, ?_⟩
      by_contra due
      rw [if_pos due] at selective
      exact absurd rfl selective
    · rw [if_pos ⟨short, single⟩] at selective
      exact absurd rfl selective

end Effective

variable {policy : Policy} {name : String} {sys : System} {key : String}

theorem resolveRingPolicy_ok {persisted : Option Policy} {depth : ℤ}
    (resolved : resolveRingPolicy persisted depth = .ok policy) : persisted = some policy := by
  cases persisted with
  | none => cases resolved
  | some found =>
    obtain ⟨_, _, returned⟩ := bind_ok.mp resolved
    cases returned
    rfl

theorem mapError_ok {ε ε' α : Type} {f : ε → ε'} {x : Except ε α} {r : α} (returned : x.mapError f = .ok r) : x = .ok r := by
  cases x with
  | error raised => cases returned
  | ok value =>
    cases returned
    rfl

theorem resolveHistoryStorage_ok {depth fillCount macroStep regridEvery : ℤ} {cadence : Cadence} {row : Storage}
    (resolved : resolveHistoryStorage (some policy) depth fillCount macroStep regridEvery cadence = .ok row) :
    0 ≤ fillCount ∧ fillCount ≤ depth ∧ ∃ requested, policy.storedSlots depth = .ok requested ∧
      row = effective requested depth fillCount macroStep regridEvery cadence := by
  obtain ⟨found, checked, rest⟩ := bind_ok.mp resolved
  cases resolveRingPolicy_ok checked
  split at rest
  · cases rest
  rename_i inside
  split at rest
  · cases rest
  obtain ⟨requested, slots, returned⟩ := bind_ok.mp rest
  refine ⟨by omega, by omega, requested, mapError_ok slots, ?_⟩
  cases returned
  rfl

theorem resolveHierarchyHistoryStorage_ok {rows : List Storage} {depth : ℤ} {storage : Storage}
    (resolved : resolveHierarchyHistoryStorage rows depth = .ok storage) :
    rows ≠ [] ∧ (∃ row ∈ rows, storage.requested = row.requested) ∧
      ((∀ row ∈ rows, row = storage) ∨ storage.stored = range depth) := by
  cases rows with
  | nil => cases resolved
  | cons first rest =>
    rw [resolveHierarchyHistoryStorage] at resolved
    split at resolved
    · rename_i same
      cases resolved
      exact ⟨List.cons_ne_nil _ _, ⟨_, List.mem_cons_self, rfl⟩, .inl (List.forall_mem_cons.mpr ⟨rfl, same⟩)⟩
    · split at resolved
      · cases resolved
      · cases resolved
        exact ⟨List.cons_ne_nil _ _, ⟨first, List.mem_cons_self, rfl⟩, .inr rfl⟩

theorem validateSlotDt_ok {ledger : Buffer} {depth fillCount : ℤ} {slotDt : List Number}
    (validated : validateSlotDt (some (.array ledger)) name depth fillCount = .ok slotDt) : slotDt = ledger.cells := by
  rw [validateSlotDt] at validated
  split_ifs at validated <;> cases validated <;> rfl

/-- What `prepare_history_capture` has checked of a level. -/
structure LevelChecked (sys : System) (policy : Policy) (macroStep regridEvery : ℤ) (name : String) (level : Option ℤ)
    (row : Storage × LevelCapture) : Prop where
  level : row.2.level = level
  initialized : row.2.initialized = decide (0 < row.2.fillCount)
  resolved : resolveHistoryStorage (some policy) (sys.historyDepth name) row.2.fillCount macroStep regridEvery
    sys.cadence = .ok row.1
  ledger : validateSlotDt (some (.array ⟨[row.2.slotDt.length], row.2.slotDt⟩)) name (sys.historyDepth name)
    row.2.fillCount = .ok row.2.slotDt

theorem prepareLevel_ok {macroStep regridEvery : ℤ} {level : Option ℤ} {row : Storage × LevelCapture}
    (prepared : prepareLevel sys policy macroStep regridEvery name level = .ok row) :
    LevelChecked sys policy macroStep regridEvery name level row := by
  rw [prepareLevel] at prepared
  dsimp only at prepared
  split at prepared
  · cases prepared
  rename_i consistent
  obtain ⟨storage, resolved, rest⟩ := bind_ok.mp prepared
  obtain ⟨slotDt, validated, returned⟩ := bind_ok.mp rest
  cases returned
  have same := validateSlotDt_ok validated
  dsimp only at same
  rw [← same] at validated
  exact ⟨rfl, not_not.mp consistent, resolved, validated⟩

/-- What `prepare_history_capture` has checked of a ring. -/
structure RingChecked (sys : System) (persistence : String → Option Policy) (macroStep regridEvery : ℤ) (name : String)
    (ring : RingCapture) (policy : Policy) (levels : List (Option ℤ)) (rows : List (Storage × LevelCapture)) : Prop where
  named : ring.name = name
  depth : ring.depth = sys.historyDepth name
  persisted : persistence name = some policy
  manifest : ring.policy = toManifest policy
  checked : ∃ refused, checkedLevels (sys.historyLevels name) refused = .ok levels
  each : List.Forall₂ (LevelChecked sys policy macroStep regridEvery name) levels rows
  resolved : resolveHierarchyHistoryStorage (rows.map Prod.fst) (sys.historyDepth name) = .ok ring.storage
  levels : ring.levels = rows.map Prod.snd

theorem prepareRing_ok {persistence : String → Option Policy} {macroStep regridEvery : ℤ} {ring : RingCapture}
    (prepared : prepareRing sys persistence macroStep regridEvery name = .ok ring) :
    ∃ policy levels rows, RingChecked sys persistence macroStep regridEvery name ring policy levels rows := by
  obtain ⟨policy, persisted, rest⟩ := bind_ok.mp prepared
  obtain ⟨levels, checked, rest⟩ := bind_ok.mp rest
  obtain ⟨rows, ran, rest⟩ := bind_ok.mp rest
  obtain ⟨storage, resolved, returned⟩ := bind_ok.mp rest
  cases returned
  exact ⟨policy, levels, rows, rfl, rfl, resolveRingPolicy_ok persisted, rfl, ⟨_, checked⟩,
    (mapM_ok.mp ran).imp fun _ _ found => prepareLevel_ok found, resolved, rfl⟩

section Ring
variable {sys : System} {persistence : String → Option Policy} {macroStep regridEvery : ℤ} {name : String}
  {ring : RingCapture} {policy : Policy} {levels : List (Option ℤ)} {rows : List (Storage × LevelCapture)}

theorem RingChecked.row (checked : RingChecked sys persistence macroStep regridEvery name ring policy levels rows)
    {row : Storage × LevelCapture} (listed : row ∈ rows) :
    ∃ level ∈ levels, LevelChecked sys policy macroStep regridEvery name level row := by
  obtain ⟨n, below, found⟩ := List.mem_iff_getElem.mp listed
  have same := checked.each.length_eq
  have inside : n < levels.length := by omega
  refine ⟨levels.get ⟨n, inside⟩, List.get_mem _ _, ?_⟩
  rw [← found]
  exact checked.each.get inside below

theorem RingChecked.selective (checked : RingChecked sys persistence macroStep regridEvery name ring policy levels rows) :
    Replayable macroStep regridEvery sys.cadence ring ∨ ring.storage.stored = range ring.depth := by
  obtain ⟨nonempty, -, agree | dense⟩ := resolveHierarchyHistoryStorage_ok checked.resolved
  swap
  · rw [checked.depth]
    exact .inr dense
  by_cases whole : ring.storage.stored = range ring.depth
  · exact .inr whole
  have each : ∀ row ∈ rows, row.2.fillCount = ring.depth ∧ sys.cadence = ⟨1, 1⟩ ∧
      replayRegridSteps ring.depth macroStep regridEvery = [] := by
    intro row listed
    obtain ⟨level, -, found⟩ := checked.row listed
    obtain ⟨-, bounded, requested, slots, same⟩ := resolveHistoryStorage_ok found.resolved
    rw [checked.depth] at whole ⊢
    refine effective_selective (storedSlots_whole slots) bounded ?_
    rw [← same, agree row.1 (List.mem_map_of_mem listed)]
    exact whole
  obtain ⟨first, listed⟩ := List.exists_mem_of_ne_nil _ nonempty
  obtain ⟨row, inside, -⟩ := List.mem_map.mp listed
  obtain ⟨-, single, calm⟩ := each row inside
  refine .inl ⟨fun level found => ?_, single, fun cursor old before positive every due => ?_⟩
  · rw [checked.levels] at found
    obtain ⟨row, inside, rfl⟩ := List.mem_map.mp found
    exact (each row inside).1
  · have listed := mem_replayRegridSteps every old before positive due
    rw [calm] at listed
    cases listed

end Ring

section Keys
variable {written : List (String × Value)} {out : Payload} {key : String} {value : Value}

theorem foldl_write_absent (absent : key ∉ written.map Prod.fst) : written.foldl write out key = out key := by
  induction written generalizing out with
  | nil => rfl
  | cons entry rest ih =>
    rw [List.map_cons, List.mem_cons, not_or] at absent
    rw [List.foldl_cons, ih absent.2, write, Function.update_of_ne absent.1]

theorem foldl_write_mem (distinct : (written.map Prod.fst).Nodup) (listed : (key, value) ∈ written) :
    written.foldl write out key = some value := by
  induction written generalizing out with
  | nil => cases listed
  | cons entry rest ih =>
    rw [List.map_cons, List.nodup_cons] at distinct
    rw [List.foldl_cons]
    rcases List.mem_cons.mp listed with rfl | deeper
    · rw [foldl_write_absent distinct.1, write, Function.update_self]
    · exact ih distinct.2 deeper

end Keys

/-- The first letter of a key of the histories. -/
def Historic (key : String) : Prop := key.toList.head? = some 'h'

instance (key : String) : Decidable (Historic key) := inferInstanceAs (Decidable (_ = _))

theorem Historic.append {start : String} (historic : Historic start) (rest : String) : Historic (start ++ rest) := by
  unfold Historic at historic ⊢
  rw [String.toList_append, List.head?_append, historic]
  rfl

theorem historyLevelKey_historic {start : String} (historic : Historic start) (name : String) (level : Option ℤ) :
    Historic (historyLevelKey start name level) := by
  cases level with
  | none => exact historic.append _
  | some level => exact ((historic.append _).append _).append _

theorem historySlotKey_historic (name : String) (level : Option ℤ) (slot : ℤ) :
    Historic (historySlotKey name level slot) := by
  have start : Historic "history_" := by decide
  cases level with
  | none => exact ((start.append _).append _).append _
  | some level => exact ((((start.append _).append _).append _).append _).append _

theorem entries_historic {plan : List RingCapture}
    (listed : key ∈ (entries sys plan).map Prod.fst) : Historic key := by
  simp only [entries, ringEntries, levelEntries, List.map_cons, List.mem_cons, List.mem_map, List.mem_flatMap,
    List.mem_append, List.not_mem_nil, or_false] at listed
  rcases listed with rfl | ⟨entry, ⟨ring, -, fixed | inner⟩, rfl⟩
  · decide
  · rcases fixed with ((rfl | rfl | rfl | rfl | rfl | rfl) | ⟨steps, -, rfl⟩) | ⟨levels, -, rfl⟩ <;>
      exact Historic.append (by decide) _
  · obtain ⟨level, -, (rfl | rfl | rfl) | ⟨slot, -, rfl⟩⟩ := inner
    · exact historyLevelKey_historic (by decide) _ _
    · exact historyLevelKey_historic (by decide) _ _
    · exact historyLevelKey_historic (by decide) _ _
    · exact historySlotKey_historic _ _ _

section Read
variable {sys : System} {plan : List RingCapture} {ring : RingCapture} {macroStep : ℤ} {regridEvery : Option ℤ}

theorem captured_header (other : ¬ Historic key) :
    captureHistories sys plan (header sys macroStep regridEvery) key = header sys macroStep regridEvery key :=
  foldl_write_absent fun listed => other (entries_historic listed)

theorem Separate.found (separate : Separate sys plan) (listed : ring ∈ plan) {value : Value}
    (written : (key, value) ∈ ringEntries sys ring) :
    captureHistories sys plan (header sys macroStep regridEvery) key = some value :=
  foldl_write_mem separate.distinct (List.mem_cons_of_mem _ (List.mem_flatMap.mpr ⟨ring, listed, written⟩))

theorem Separate.foundLevel (separate : Separate sys plan) (listed : ring ∈ plan) {level : LevelCapture}
    (inside : level ∈ ring.levels) {value : Value} (written : (key, value) ∈ levelEntries sys ring level) :
    captureHistories sys plan (header sys macroStep regridEvery) key = some value :=
  separate.found listed (List.mem_append_right _ (List.mem_flatMap.mpr ⟨level, inside, written⟩))

theorem captured_macroStep :
    integerOr (captureHistories sys plan (header sys macroStep regridEvery)) "macro_step" 0 = .ok macroStep := by
  rw [integerOr, captured_header (by decide)]
  rfl

theorem captured_regridEvery :
    integerOr (captureHistories sys plan (header sys macroStep regridEvery)) "regrid_every" 0 =
      .ok (regridEvery.getD 0) := by
  rw [integerOr, captured_header (by decide)]
  cases regridEvery <;> rfl

theorem captured_substeps :
    integerOr (captureHistories sys plan (header sys macroStep regridEvery)) "program_cadence_substeps" 1 =
      .ok sys.cadence.substeps := by
  rw [integerOr, captured_header (by decide)]
  rfl

theorem captured_stride :
    integerOr (captureHistories sys plan (header sys macroStep regridEvery)) "program_cadence_stride" 1 =
      .ok sys.cadence.stride := by
  rw [integerOr, captured_header (by decide)]
  rfl

end Read

theorem fromManifest_toManifest (policy : Policy) : fromManifest (toManifest policy) = .ok policy := by
  cases policy with
  | dense => rfl
  | interval k positive =>
    have read : fromManifest (toManifest (.interval k positive)) =
        if positive : 1 ≤ k then .ok (.interval k positive)
        else .error (.valueError "Interval persistence k must be >= 1") := rfl
    rw [read, dif_pos positive]
  | revolve snapshots least =>
    have read : fromManifest (toManifest (.revolve snapshots least)) =
        if least : 2 ≤ snapshots then .ok (.revolve snapshots least)
        else .error (.valueError "Revolve persistence snapshots must be >= 2") := rfl
    rw [read, dif_pos least]

section Restart
variable {sys : System} {persistence : String → Option Policy} {plan : List RingCapture} {ring : RingCapture}
  {macroStep : ℤ} {regridEvery : Option ℤ} {policy : Policy} {levels : List (Option ℤ)}
  {rows : List (Storage × LevelCapture)}

theorem restoreLevel_captured (separate : Separate sys plan) (listed : ring ∈ plan) {level : Option ℤ}
    {row : Storage × LevelCapture} (inside : row.2 ∈ ring.levels) (depth : ring.depth = sys.historyDepth ring.name)
    (checked : LevelChecked sys policy macroStep (regridEvery.getD 0) ring.name level row) :
    restoreLevel (captureHistories sys plan (header sys macroStep regridEvery)) policy ring.name ring.depth
      ring.storage.stored level = .ok (row.1, levelRow sys ring row.2) := by
  obtain ⟨rfl, initialized, resolved, ledger⟩ := checked
  obtain ⟨nonneg, bounded, -⟩ := resolveHistoryStorage_ok resolved
  rw [← depth] at resolved ledger bounded
  have fill : historyFillCountFromPayload (captureHistories sys plan (header sys macroStep regridEvery)) ring.name
      ring.depth row.2.initialized row.2.level = .ok row.2.fillCount := by
    rw [historyFillCountFromPayload, separate.foundLevel listed inside
      (List.mem_append_left _ (List.mem_cons_of_mem _ List.mem_cons_self))]
    dsimp only
    rw [asInteger, ok_bind, if_neg (by omega), if_neg (not_not.mpr initialized)]
    rfl
  have anchors : ring.storage.stored.mapM (fun slot => do
      let values ← item (captureHistories sys plan (header sys macroStep regridEvery))
        (historySlotKey ring.name row.2.level slot)
      let buffer ← asBuffer values
      return (slot, buffer)) =
      Except.ok (ring.storage.stored.map fun slot => (slot, sys.historyGlobal ring.name row.2.level slot)) := by
    refine mapM_ok.mpr (List.forall₂_map_right_iff.mpr (List.forall₂_same.mpr fun slot stored => ?_))
    rw [item, separate.foundLevel listed inside (List.mem_append_right _ (List.mem_map_of_mem stored))]
    rfl
  rw [restoreLevel, separate.foundLevel listed inside (List.mem_append_left _ List.mem_cons_self)]
  dsimp only
  rw [asBoolean, ok_bind, fill, ok_bind, captured_macroStep, ok_bind, captured_regridEvery, ok_bind, captured_substeps,
    ok_bind, captured_stride, ok_bind, resolved, ok_bind, anchors, ok_bind,
    separate.foundLevel listed inside
      (List.mem_append_left _ (List.mem_cons_of_mem _ (List.mem_cons_of_mem _ List.mem_cons_self))),
    ledger, ok_bind]
  rfl

theorem mapM_level {captured : List LevelCapture} {numbers : List ℤ}
    (same : captured.map LevelCapture.level = numbers.map some) : captured.mapM LevelCapture.level = some numbers := by
  induction captured generalizing numbers with
  | nil =>
    rw [List.map_eq_nil_iff.mp same.symm]
    rfl
  | cons first rest ih =>
    cases numbers with
    | nil => cases same
    | cons number numbers =>
      obtain ⟨head, tail⟩ := List.cons.inj same
      rw [List.mapM_cons, head, ih tail]
      rfl

theorem RingChecked.levels_eq
    (checked : RingChecked sys persistence macroStep (regridEvery.getD 0) ring.name ring policy levels rows) :
    ring.levels.map LevelCapture.level = levels := by
  rw [checked.levels, List.map_map]
  have each := checked.each
  clear checked
  induction each with
  | nil => rfl
  | cons found _ ih => rw [List.map_cons, ih, Function.comp_apply, found.level]

theorem restoreLevels_captured (separate : Separate sys plan) (listed : ring ∈ plan)
    (checked : RingChecked sys persistence macroStep (regridEvery.getD 0) ring.name ring policy levels rows) :
    restoreLevels sys.historyLevels (captureHistories sys plan (header sys macroStep regridEvery)) ring.name =
      .ok levels := by
  obtain ⟨refused, found⟩ := checked.checked
  have same := checked.levels_eq
  cases native : sys.historyLevels ring.name with
  | none =>
    rw [native] at found
    cases found
    have unqualified : ring.qualified = none := by
      obtain ⟨first, single, number⟩ := List.map_eq_singleton_iff.mp same
      rw [RingCapture.qualified, single, List.mapM_cons, number]
      rfl
    have absent : captureHistories sys plan (header sys macroStep regridEvery) ("history_levels_" ++ ring.name) = none := by
      have historic : Historic ("history_levels_" ++ ring.name) := Historic.append (by decide) _
      rw [captureHistories, foldl_write_absent (separate.uniform ring listed unqualified), header,
        if_neg fun clock => ?_, if_neg fun clock => ?_, if_neg fun clock => ?_, if_neg fun clock => ?_]
      all_goals
        rw [clock] at historic
        exact absurd historic (by decide)
    rw [restoreLevels, absent]
    rfl
  | some numbers =>
    rw [native, checkedLevels] at found
    split at found
    · cases found
    rename_i sorted
    cases found
    have written : ("history_levels_" ++ ring.name, Value.integers numbers) ∈ ringEntries sys ring := by
      refine List.mem_append_left _ (List.mem_append_right _ (List.mem_map.mpr ⟨numbers, ?_, rfl⟩))
      exact Option.mem_toList.mpr (mapM_level same)
    rw [restoreLevels, separate.found listed written]
    dsimp only
    rw [asIntegers, ok_bind, checkedLevels, if_neg sorted, ok_bind, native, if_neg (not_not.mpr rfl)]
    rfl

theorem RingChecked.sorted
    (checked : RingChecked sys persistence macroStep (regridEvery.getD 0) ring.name ring policy levels rows) :
    ring.storage.requested.Pairwise (· ≤ ·) ∧ ring.storage.stored.Pairwise (· ≤ ·) := by
  have each : ∀ row ∈ rows.map Prod.fst, row.requested.Pairwise (· ≤ ·) ∧ row.stored.Pairwise (· ≤ ·) := by
    intro storage found
    obtain ⟨row, inside, rfl⟩ := List.mem_map.mp found
    obtain ⟨level, -, valid⟩ := checked.row inside
    obtain ⟨-, -, requested, slots, same⟩ := resolveHistoryStorage_ok valid.resolved
    have ordered := (storedSlots_increasing slots).imp fun less => less.le
    rw [same, effective_requested]
    refine ⟨ordered, ?_⟩
    rcases effective_stored with dense | selective
    · rw [dense]
      exact (range_increasing _).imp fun less => less.le
    · rw [selective]
      exact ordered
  obtain ⟨-, ⟨first, listed, same⟩, agree | dense⟩ := resolveHierarchyHistoryStorage_ok checked.resolved
  · rw [← agree first listed]
    exact each first listed
  · rw [dense, same]
    exact ⟨(each first listed).1, (range_increasing _).imp fun less => less.le⟩

theorem restoreRing_captured (separate : Separate sys plan) (listed : ring ∈ plan)
    (checked : RingChecked sys persistence macroStep (regridEvery.getD 0) ring.name ring policy levels rows) :
    restoreRing sys.historyLevels (captureHistories sys plan (header sys macroStep regridEvery)) ring.name =
      .ok ⟨ring.name, ring.depth, policy, ring.storage.requested, ring.storage.stored, ring.storage.mode,
        ring.levels.map (levelRow sys ring)⟩ := by
  have fixed : ∀ {key value}, (key, value) ∈ [("history_depth_" ++ ring.name, Value.integer ring.depth),
      ("history_ncomp_" ++ ring.name, .integer ring.ncomp), ("history_policy_" ++ ring.name, .manifest ring.policy),
      ("history_requested_stored_slots_" ++ ring.name, .integers ring.storage.requested),
      ("history_stored_slots_" ++ ring.name, .integers ring.storage.stored),
      ("history_storage_mode_" ++ ring.name, .text ring.storage.mode)] →
      captureHistories sys plan (header sys macroStep regridEvery) key = some value := fun written =>
    separate.found listed (List.mem_append_left _ (List.mem_append_left _ (List.mem_append_left _ written)))
  have depth := fixed List.mem_cons_self
  have manifest := fixed (List.mem_cons_of_mem _ (List.mem_cons_of_mem _ List.mem_cons_self))
  have requested := fixed (List.mem_cons_of_mem _ (List.mem_cons_of_mem _ (List.mem_cons_of_mem _ List.mem_cons_self)))
  have stored := fixed (List.mem_cons_of_mem _ (List.mem_cons_of_mem _ (List.mem_cons_of_mem _
    (List.mem_cons_of_mem _ List.mem_cons_self))))
  have mode := fixed (List.mem_cons_of_mem _ (List.mem_cons_of_mem _ (List.mem_cons_of_mem _
    (List.mem_cons_of_mem _ (List.mem_cons_of_mem _ List.mem_cons_self)))))
  have ran : levels.mapM (restoreLevel (captureHistories sys plan (header sys macroStep regridEvery)) policy ring.name
      ring.depth ring.storage.stored) = .ok (rows.map fun row => (row.1, levelRow sys ring row.2)) := by
    refine mapM_ok.mpr (List.forall₂_map_right_iff.mpr ?_)
    refine List.forall₂_iff_get.mpr ⟨checked.each.length_eq, fun n below inside => ?_⟩
    refine restoreLevel_captured separate listed ?_ checked.depth (checked.each.get below inside)
    rw [checked.levels]
    exact List.mem_map_of_mem (List.get_mem _ _)
  have storages : (rows.map fun row => (row.1, levelRow sys ring row.2)).map Prod.fst = rows.map Prod.fst := by
    rw [List.map_map]
    rfl
  have levelRows : (rows.map fun row => (row.1, levelRow sys ring row.2)).map Prod.snd =
      ring.levels.map (levelRow sys ring) := by
    rw [checked.levels, List.map_map, List.map_map]
    rfl
  have resolved := checked.resolved
  rw [← checked.depth] at resolved
  obtain ⟨requestedOrder, storedOrder⟩ := checked.sorted
  rw [restoreRing, item, depth]
  dsimp only
  rw [ok_bind, asInteger, ok_bind, restoreLevels_captured separate listed checked, ok_bind, manifest]
  dsimp only
  rw [fromJson, checked.manifest, fromManifest_toManifest, ok_bind, requested, stored, mode]
  dsimp only
  rw [asIntegers, asIntegers, ok_bind, ok_bind, requestedOrder.insertionSort_eq, storedOrder.insertionSort_eq, ran,
    ok_bind, storages, resolved, ok_bind, if_neg (not_not.mpr rfl), asText, if_neg (by simp), levelRows]
  rfl

end Restart

/-- Every ring is stored whole unless its replay is authentic. Where no two data of the checkpoint have
one key, the restart reads every ring back and resolves the plan that it was captured under. -/
theorem histories_recovered {sys : System} {persistence : String → Option Policy} {macroStep : ℤ}
    {regridEvery : Option ℤ} {plan : List RingCapture}
    (captured : prepareHistoryCapture sys persistence macroStep (regridEvery.getD 0) = .ok plan) :
    (∀ ring ∈ plan, Replayable macroStep (regridEvery.getD 0) sys.cadence ring ∨
      ring.storage.stored = range ring.depth) ∧
    (Separate sys plan → ∃ back,
      restoreHistories sys.historyLevels (captureHistories sys plan (header sys macroStep regridEvery)) = .ok back ∧
        List.Forall₂ (Recovers sys persistence) plan back) := by
  rw [prepareHistoryCapture] at captured
  split at captured
  · cases captured
  rename_i distinct
  have each : ∀ ring ∈ plan, ∃ policy levels rows,
      RingChecked sys persistence macroStep (regridEvery.getD 0) ring.name ring policy levels rows := by
    intro ring listed
    obtain ⟨name, -, prepared⟩ := mem_of_mapM_ok captured listed
    obtain ⟨policy, levels, rows, checked⟩ := prepareRing_ok prepared
    obtain rfl := checked.named
    exact ⟨policy, levels, rows, checked⟩
  have names : plan.map RingCapture.name = sys.historyNames.map id :=
    map_of_mapM_ok (fun name ring prepared => by
      obtain ⟨policy, levels, rows, checked⟩ := prepareRing_ok prepared
      exact checked.named) captured
  rw [List.map_id] at names
  refine ⟨fun ring listed => ?_, fun separate => ?_⟩
  · obtain ⟨policy, levels, rows, checked⟩ := each ring listed
    exact checked.selective
  · have read : ∀ ring ∈ plan, ∃ back, restoreRing sys.historyLevels
        (captureHistories sys plan (header sys macroStep regridEvery)) ring.name = .ok back ∧
          Recovers sys persistence ring back := by
      intro ring listed
      obtain ⟨policy, levels, rows, checked⟩ := each ring listed
      exact ⟨_, restoreRing_captured separate listed checked, rfl, rfl, checked.persisted, rfl, rfl, rfl, rfl⟩
    have recorded : captureHistories sys plan (header sys macroStep regridEvery) "history_names" =
        some (.texts (plan.map RingCapture.name)) := foldl_write_mem separate.distinct List.mem_cons_self
    obtain ⟨back, ran⟩ : ∃ back, (plan.map RingCapture.name).mapM (restoreRing sys.historyLevels
        (captureHistories sys plan (header sys macroStep regridEvery))) = .ok back := by
      refine exists_mapM_ok fun name listed => ?_
      obtain ⟨ring, inside, rfl⟩ := List.mem_map.mp listed
      obtain ⟨found, same, -⟩ := read ring inside
      exact ⟨found, same⟩
    have paired := List.forall₂_map_left_iff.mp (mapM_ok.mp ran)
    refine ⟨back, ?_, List.forall₂_iff_get.mpr ⟨paired.length_eq, fun n below inside => ?_⟩⟩
    · rw [restoreHistories, item, recorded]
      dsimp only
      rw [ok_bind, asTexts, ok_bind, if_neg (by rwa [names]), ran]
    · obtain ⟨found, same, recovers⟩ := read _ (List.get_mem plan ⟨n, below⟩)
      have ranHere := paired.get below inside
      rw [same] at ranHere
      cases ranHere
      exact recovers

/-- A Uniform runtime of one step per macro step, whose rings are warm. -/
def warm (names : List String) (depth : ℤ) : System where
  historyNames := names
  historyDepth _ := depth
  historyNcomp _ := 1
  historyLevels _ := none
  historyInitialized _ _ := true
  historyFillCount _ _ := depth
  historySlotDt _ _ _ := some 1
  historyGlobal _ _ _ := ⟨[1, 2, 1], [some 3, some 5]⟩
  cadence := ⟨1, 1⟩

/-- A warm ring of three slots under `Interval(2)`. -/
def spaced (name : String) : RingCapture :=
  ⟨name, 3, 1, toManifest (.interval 2 (by decide)), ⟨[0, 2], [0, 2], "policy", some []⟩,
    [⟨none, true, 3, [some 1, some 1, some 1]⟩]⟩

/-- A ring that is stored in part is recovered. -/
theorem spaced_recovered :
    (∀ ring ∈ [spaced "density"], Replayable 4 0 ⟨1, 1⟩ ring ∨ ring.storage.stored = range ring.depth) ∧
    ∃ back, restoreHistories (warm ["density"] 3).historyLevels
      (captureHistories (warm ["density"] 3) [spaced "density"] (header (warm ["density"] 3) 4 none)) = .ok back ∧
        List.Forall₂ (Recovers (warm ["density"] 3) fun _ => some (.interval 2 (by decide))) [spaced "density"] back := by
  have captured : prepareHistoryCapture (warm ["density"] 3) (fun _ => some (.interval 2 (by decide))) 4
      ((none : Option ℤ).getD 0) = .ok [spaced "density"] := by decide +kernel
  have separate : Separate (warm ["density"] 3) [spaced "density"] := ⟨by decide +kernel, by decide +kernel⟩
  obtain ⟨whole, recovered⟩ := histories_recovered captured
  exact ⟨whole, recovered separate⟩

/-- The newest slot of one ring is written where another has its mark: the checkpoint is refused. -/
theorem mark_overwritten :
    ∃ plan, prepareHistoryCapture (warm ["foo_0", "init_foo"] 2) (fun _ => some .dense) 4 0 = .ok plan ∧
      restoreHistories (warm ["foo_0", "init_foo"] 2).historyLevels
        (captureHistories (warm ["foo_0", "init_foo"] 2) plan (header (warm ["foo_0", "init_foo"] 2) 4 none)) =
      .error (.valueError
        "The truth value of an array with more than one element is ambiguous. Use a.any() or a.all()") := by
  refine ⟨[⟨"foo_0", 2, 1, toManifest .dense, ⟨[0, 1], [0, 1], "policy", none⟩, [⟨none, true, 2, [some 1, some 1]⟩]⟩,
    ⟨"init_foo", 2, 1, toManifest .dense, ⟨[0, 1], [0, 1], "policy", none⟩, [⟨none, true, 2, [some 1, some 1]⟩]⟩], ?_, ?_⟩
  · decide +kernel
  · decide +kernel

end Pops.HistoryCapture
