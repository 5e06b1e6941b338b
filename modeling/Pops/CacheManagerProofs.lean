import Mathlib.Algebra.Ring.Int.Defs
import Pops.CacheManager

/-! Proofs about the cache of the scheduled nodes: effective steps add up to
the steps taken, and what a checkpoint carries over. -/
namespace Pops

variable {V K : Type}

namespace CacheManager

@[simp]
theorem find_fresh (node : ℤ) : (fresh : CacheManager V K).find node = none := rfl

theorem find_eq_some (manager : CacheManager V K) {node : ℤ} {slot : CacheSlot V K} :
    manager.find node = some slot ↔ (node, slot) ∈ manager.slots :=
  OrderedMap.find_eq_some nodeLess_iff manager.ordered

@[simp]
theorem accumulatedDt_fresh [Zero K] (node : ℤ) : (fresh : CacheManager V K).accumulatedDt node = 0 := rfl

section
variable [Zero K] [Inhabited V]

theorem find_modify_self (manager : CacheManager V K) (node : ℤ) (change : CacheSlot V K → CacheSlot V K) :
    (manager.modify node change).find node = some (change ((manager.find node).getD noSlot)) :=
  OrderedMap.find_update_self nodeLess_iff

theorem find_modify_ne (manager : CacheManager V K) {node asked : ℤ} (different : asked ≠ node)
    (change : CacheSlot V K → CacheSlot V K) : (manager.modify node change).find asked = manager.find asked :=
  OrderedMap.find_update_ne nodeLess_iff different

theorem accumulatedDt_eq (manager : CacheManager V K) (node : ℤ) :
    manager.accumulatedDt node = ((manager.find node).getD noSlot).accumulatedDt := by
  unfold accumulatedDt
  cases manager.find node <;> rfl

theorem accumulatedDt_modify (manager : CacheManager V K) (node asked : ℤ)
    (change : CacheSlot V K → CacheSlot V K) :
    (manager.modify node change).accumulatedDt asked =
      if asked = node then (change ((manager.find node).getD noSlot)).accumulatedDt
      else manager.accumulatedDt asked := by
  split
  · rename_i same
    subst same
    rw [accumulatedDt_eq, find_modify_self]
    rfl
  · rename_i different
    rw [accumulatedDt_eq, find_modify_ne _ different, accumulatedDt_eq]

end

section
variable [AddZeroClass K] [Inhabited V]

/-- The node of an event, and the step it takes. -/
def Event.step : Event V K → ℤ × K
  | .due node dt _ _ | .skipped node dt => (node, dt)

/-- Whether an event recomputes a node. -/
def Event.IsDue (node : ℤ) : Event V K → Prop
  | .due asked _ _ _ => asked = node
  | .skipped _ _ => False

theorem run_due (manager : CacheManager V K) (node : ℤ) (dt : K) (value : V) (macroStep : ℤ) :
    (Event.run manager (.due node dt value macroStep)).2 = some (node, dt + manager.accumulatedDt node) := rfl

theorem accumulatedDt_due (manager : CacheManager V K) (node asked : ℤ) (dt : K) (value : V) (macroStep : ℤ) :
    (Event.run manager (.due node dt value macroStep)).1.accumulatedDt asked =
      if asked = node then 0 else manager.accumulatedDt asked := by
  simp only [Event.run, effectiveDt, store, accumulatedDt_modify]
  split <;> rfl

theorem accumulatedDt_skipped (manager : CacheManager V K) (node asked : ℤ) (dt : K) :
    (Event.run manager (.skipped node dt)).1.accumulatedDt asked =
      if asked = node then manager.accumulatedDt node + dt else manager.accumulatedDt asked := by
  simp only [Event.run, accumulateDt, accumulatedDt_modify, accumulatedDt_eq manager node]

theorem run_append (manager : CacheManager V K) (first second : List (Event V K)) :
    run manager (first ++ second) =
      ((run (run manager first).1 second).1, (run manager first).2 ++ (run (run manager first).1 second).2) := by
  induction first generalizing manager with
  | nil => rfl
  | cons event rest ih => simp [run, ih]

end

/-- The effective steps that a run reports for a node. -/
def effectiveSteps (node : ℤ) (reports : List (Option (ℤ × K))) : List K :=
  reports.filterMap fun report => report.bind fun due => if due.1 = node then some due.2 else none

/-- The steps of a node, due or skipped. -/
def steps (node : ℤ) (events : List (Event V K)) : List K :=
  events.filterMap fun event => if event.step.1 = node then some event.step.2 else none

theorem effectiveSteps_append (node : ℤ) (first second : List (Option (ℤ × K))) :
    effectiveSteps node (first ++ second) = effectiveSteps node first ++ effectiveSteps node second :=
  List.filterMap_append

section
variable [AddCommMonoid K] [Inhabited V]

private theorem step_accounts (manager : CacheManager V K) (node : ℤ) (event : Event V K) :
    (effectiveSteps node [(event.run manager).2]).sum + (event.run manager).1.accumulatedDt node =
      manager.accumulatedDt node + (steps node [event]).sum := by
  cases event with
  | due asked dt value macroStep =>
    rw [run_due, accumulatedDt_due]
    by_cases same : asked = node
    · subst same
      simp [effectiveSteps, steps, Event.step, add_comm]
    · simp [effectiveSteps, steps, Event.step, same, Ne.symm same]
  | skipped asked dt =>
    rw [accumulatedDt_skipped]
    by_cases same : asked = node
    · subst same
      simp [effectiveSteps, steps, Event.step, Event.run]
    · simp [effectiveSteps, steps, Event.step, Event.run, same, Ne.symm same]

theorem run_accounts (manager : CacheManager V K) (node : ℤ) (events : List (Event V K)) :
    (effectiveSteps node (run manager events).2).sum + (run manager events).1.accumulatedDt node =
      manager.accumulatedDt node + (steps node events).sum := by
  induction events generalizing manager with
  | nil => simp [run, effectiveSteps, steps]
  | cons event rest ih =>
    have head := step_accounts manager node event
    have tail := ih (event.run manager).1
    have stepsSplit : (steps node (event :: rest)).sum = (steps node [event]).sum + (steps node rest).sum := by
      rw [← List.singleton_append, steps, List.filterMap_append, List.sum_append]
      rfl
    rw [run, ← List.singleton_append, effectiveSteps_append, List.sum_append, add_assoc, tail, ← add_assoc, head,
      stepsSplit, add_assoc]

theorem run_silent (manager : CacheManager V K) (node : ℤ) (events : List (Event V K))
    (silent : ∀ event ∈ events, ¬ event.IsDue node) : effectiveSteps node (run manager events).2 = [] := by
  induction events generalizing manager with
  | nil => rfl
  | cons event rest ih =>
    have tail := ih (event.run manager).1 fun later listed => silent later (by simp [listed])
    have head := silent event (by simp)
    rw [run, ← List.singleton_append, effectiveSteps_append, tail, List.append_nil]
    cases event with
    | due asked dt value macroStep => simpa [effectiveSteps, run_due, Event.IsDue] using head
    | skipped asked dt => rfl

theorem run_telescopes (node : ℤ) (dt : K) (value : V) (macroStep : ℤ) (before after : List (Event V K))
    (last : ∀ event ∈ after, ¬ event.IsDue node) :
    (effectiveSteps node (run fresh (before ++ .due node dt value macroStep :: after)).2).sum =
      (steps node (before ++ [.due node dt value macroStep])).sum := by
  have accounts := run_accounts fresh node (before ++ [.due node dt value macroStep])
  have empty : (run fresh (before ++ [.due node dt value macroStep])).1.accumulatedDt node = 0 := by
    rw [run_append, run, run, accumulatedDt_due, if_pos rfl]
  rw [empty, add_zero, accumulatedDt_fresh, zero_add] at accounts
  rw [← accounts, List.append_cons, run_append _ (before ++ _), effectiveSteps_append, run_silent _ _ _ last,
    List.append_nil]

end

theorem mem_nodeIds (manager : CacheManager V K) {node : ℤ} : node ∈ manager.nodeIds ↔ manager.valid node = true := by
  rw [nodeIds, List.mem_map, valid, Option.any_eq_true]
  constructor
  · rintro ⟨⟨asked, slot⟩, listed, rfl⟩
    rw [List.mem_filter] at listed
    exact ⟨slot, manager.find_eq_some.mpr listed.1, listed.2⟩
  · rintro ⟨slot, found, stored⟩
    exact ⟨(node, slot), List.mem_filter.mpr ⟨manager.find_eq_some.mp found, stored⟩, rfl⟩

theorem nodeIds_nodup (manager : CacheManager V K) : manager.nodeIds.Nodup := by
  rw [nodeIds, List.Nodup, List.pairwise_map]
  exact (manager.ordered.filter _).imp fun below => below.ne

/-- The slot that a checkpoint brings back. -/
def SavedSlot.slot (saved : SavedSlot V K) : CacheSlot V K :=
  ⟨saved.value, saved.lastUpdateStep, saved.accumulatedDt, true, saved.name⟩

section
variable [Zero K]

theorem saveSlot_ok (manager : CacheManager V K) {node : ℤ} {slot : CacheSlot V K}
    (found : manager.find node = some slot) :
    manager.saveSlot node =
      .ok ⟨node, slot.value, slot.lastUpdateStep, slot.accumulatedDt, manager.nameOf node⟩ := by
  unfold saveSlot valueOf lastUpdateStep accumulatedDt
  rw [found]
  rfl

theorem save_returns (manager : CacheManager V K) : ∃ saved, manager.save = .ok saved := by
  apply exists_mapM_ok
  intro node listed
  rw [mem_nodeIds, valid, Option.any_eq_true] at listed
  obtain ⟨slot, found, -⟩ := listed
  exact ⟨_, manager.saveSlot_ok found⟩

variable [Inhabited V]

variable {saved : List (SavedSlot V K)}

private theorem find_foldl_ne {node : ℤ} (absent : ∀ slot ∈ saved, node ≠ slot.node) (manager : CacheManager V K) :
    (saved.foldl (fun manager slot =>
      manager.restoreSlot slot.node slot.value slot.lastUpdateStep slot.accumulatedDt slot.name) manager).find node =
        manager.find node := by
  induction saved generalizing manager with
  | nil => rfl
  | cons slot rest ih =>
    rw [List.foldl_cons, ih fun later listed => absent later (by simp [listed]), restoreSlot,
      find_modify_ne _ (absent slot (by simp))]

private theorem find_foldl_mem (unique : (saved.map (·.node)).Nodup) {slot : SavedSlot V K} (listed : slot ∈ saved)
    (manager : CacheManager V K) :
    (saved.foldl (fun manager slot =>
      manager.restoreSlot slot.node slot.value slot.lastUpdateStep slot.accumulatedDt slot.name) manager).find
        slot.node = some slot.slot := by
  induction saved generalizing manager with
  | nil => simp at listed
  | cons head rest ih =>
    rw [List.map_cons, List.nodup_cons] at unique
    rw [List.foldl_cons]
    rcases List.mem_cons.mp listed with rfl | later
    · rw [find_foldl_ne, restoreSlot, find_modify_self]
      · rfl
      · intro other known same
        exact unique.1 (List.mem_map.mpr ⟨other, known, same.symm⟩)
    · exact ih unique.2 later _

theorem find_restore {manager : CacheManager V K} (wrote : manager.save = .ok saved) (node : ℤ) :
    (restore saved : CacheManager V K).find node =
      ((manager.find node).filter (·.valid)).map fun slot => { slot with name := manager.nameOf node } := by
  have nodes : saved.map (·.node) = manager.nodeIds := by
    have mapped : saved.map (·.node) = manager.nodeIds.map id := by
      refine map_of_mapM_ok (fun node slot read => ?_) wrote
      unfold saveSlot at read
      simp only [bind_ok, pure_ok] at read
      obtain ⟨_, -, rfl⟩ := read
      rfl
    rwa [List.map_id] at mapped
  by_cases stored : manager.valid node = true
  · have listed := manager.mem_nodeIds.mpr stored
    rw [valid, Option.any_eq_true] at stored
    obtain ⟨slot, found, isValid⟩ := stored
    obtain ⟨read, known, ran⟩ := exists_of_mapM_ok wrote listed
    rw [manager.saveSlot_ok found, Except.ok.injEq] at ran
    subst ran
    have restored := find_foldl_mem (by rw [nodes]; exact manager.nodeIds_nodup) known fresh
    rw [found, Option.filter_some, if_pos isValid]
    refine Eq.trans restored ?_
    rw [Option.map_some]
    simp [SavedSlot.slot, isValid]
  · have absent : ∀ slot ∈ saved, node ≠ slot.node := by
      rintro slot known rfl
      apply stored
      rw [← mem_nodeIds, ← nodes]
      exact List.mem_map_of_mem known
    rw [restore, find_foldl_ne absent, find_fresh]
    cases found : manager.find node with
    | none => rfl
    | some slot =>
      rw [valid, found, Option.any_some] at stored
      rw [Option.filter_some, if_neg stored]
      rfl

theorem accumulatedDt_restore {manager : CacheManager V K} (wrote : manager.save = .ok saved) (node : ℤ) :
    (restore saved : CacheManager V K).accumulatedDt node =
      if manager.valid node = true then manager.accumulatedDt node else 0 := by
  unfold accumulatedDt valid
  rw [find_restore wrote]
  cases manager.find node with
  | none => rfl
  | some slot =>
    rw [Option.filter_some, Option.any_some]
    cases slot.valid <;> rfl

theorem isDue_restore {manager : CacheManager V K} (wrote : manager.save = .ok saved) (node macroStep everyN : ℤ) :
    (restore saved : CacheManager V K).isDue node macroStep everyN = manager.isDue node macroStep everyN := by
  unfold isDue
  rw [find_restore wrote]
  cases manager.find node with
  | none => rfl
  | some slot =>
    obtain ⟨_, _, _, isValid, _⟩ := slot
    cases isValid <;> rfl

end

section
variable [AddCommGroup K] [Inhabited V]

theorem run_congr {first second : CacheManager V K}
    (same : ∀ node, first.accumulatedDt node = second.accumulatedDt node) (events : List (Event V K)) :
    (run first events).2 = (run second events).2 := by
  induction events generalizing first second with
  | nil => rfl
  | cons event rest ih =>
    have after : ∀ node, (event.run first).1.accumulatedDt node = (event.run second).1.accumulatedDt node := by
      intro node
      cases event with
      | due asked dt value macroStep => rw [accumulatedDt_due, accumulatedDt_due, same]
      | skipped asked dt => rw [accumulatedDt_skipped, accumulatedDt_skipped, same, same]
    have here : (event.run first).2 = (event.run second).2 := by
      cases event with
      | due asked dt value macroStep => rw [run_due, run_due, same]
      | skipped asked dt => rfl
    rw [run, run, here, ih after]

/-- A cut run reports the steps of the uninterrupted one exactly when no node
without a value had skipped a step. -/
theorem run_restore_iff {manager : CacheManager V K} (wrote : manager.save = .ok saved) :
    (∀ later, (run (restore saved) later).2 = (run manager later).2) ↔
      ∀ node, manager.valid node = false → manager.accumulatedDt node = 0 := by
  constructor
  · intro agrees node absent
    have once := agrees [.due node 0 default 0]
    simp only [run, run_due, List.cons.injEq, Option.some.injEq, Prod.mk.injEq, true_and] at once
    have same := add_left_cancel once.1
    rw [accumulatedDt_restore wrote, absent] at same
    exact same.symm
  · intro empty later
    refine run_congr (fun node => ?_) later
    rw [accumulatedDt_restore wrote]
    split
    · rfl
    · rename_i absent
      exact (empty node (Bool.eq_false_iff.mpr absent)).symm

/-- Effective steps telescope through the last due step, and a cut keeps every
later one exactly when each node that skipped a step since its last due one had
been stored. -/
theorem effective_steps_telescope :
    (∀ (node : ℤ) (dt : K) (value : V) (macroStep : ℤ) (before after : List (Event V K)),
      (∀ event ∈ after, ¬ event.IsDue node) →
        (effectiveSteps node (run fresh (before ++ .due node dt value macroStep :: after)).2).sum =
          (steps node (before ++ [.due node dt value macroStep])).sum) ∧
      ∀ before : List (Event V K), ∃ saved, (run fresh before).1.save = .ok saved ∧
        ((∀ later, (run (restore saved) later).2 = (run (run fresh before).1 later).2) ↔
          ∀ node, (run (fresh : CacheManager V K) before).1.valid node = false →
            (run (fresh : CacheManager V K) before).1.accumulatedDt node = 0) ∧
        ∀ node macroStep everyN,
          (restore saved : CacheManager V K).isDue node macroStep everyN =
            (run fresh before).1.isDue node macroStep everyN := by
  refine ⟨run_telescopes, fun before => ?_⟩
  obtain ⟨saved, wrote⟩ := (run fresh before).1.save_returns
  exact ⟨saved, wrote, run_restore_iff wrote, isDue_restore wrote⟩

/-- A node that skipped its first step loses that step in a cut. -/
theorem cold_skip_lost :
    ∃ saved, (run (fresh : CacheManager Unit ℤ) [.skipped 0 1]).1.save = .ok saved ∧
      (run (restore saved) [.due 0 1 () 1]).2 = [some (0, 1)] ∧
      (run (run (fresh : CacheManager Unit ℤ) [.skipped 0 1]).1 [.due 0 1 () 1]).2 = [some (0, 2)] :=
  ⟨[], rfl, rfl, rfl⟩

end

end CacheManager

end Pops
