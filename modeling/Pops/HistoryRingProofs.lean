import Pops.HistoryRing

/-!
What the slots of a history ring hold. A ring sees stores and rotations; the
samples a rotation accepts form its log. The pairing of samples with their time
steps and the fill count follow the log through every run. The order of the
slots follows it as long as no rotation comes without a store of its own.
-/
namespace Pops

variable {α : Type}

theorem swapAt_eq {items : List α} {left right : ℕ} (first : left < items.length) (second : right < items.length) :
    swapAt items left right = (items.set left items[right]).set right items[left] := by
  rw [swapAt, List.getElem?_eq_getElem first, List.getElem?_eq_getElem second]

@[simp]
theorem swapAt_length (items : List α) (left right : ℕ) : (swapAt items left right).length = items.length := by
  unfold swapAt
  split <;> simp

@[simp]
theorem swapDown_length (k : ℕ) (items : List α) : (swapDown k items).length = items.length := by
  induction k generalizing items with
  | zero => rfl
  | succ k ih => rw [swapDown, ih, swapAt_length]

theorem swapDown_get {k : ℕ} {items : List α} (inside : k < items.length) (slot : ℕ) :
    (swapDown k items)[slot]? =
      if slot = 0 then items[k]? else if slot ≤ k then items[slot - 1]? else items[slot]? := by
  induction k generalizing items with
  | zero =>
    rw [swapDown]
    split
    · subst slot; rfl
    · rw [if_neg (by omega)]
  | succ k ih =>
    have before : k < items.length := by omega
    rw [swapDown, ih (by simpa using before), swapAt_eq inside before]
    simp only [List.getElem?_set, List.length_set]
    split
    · simp
    · rename_i nonzero
      by_cases low : slot ≤ k
      · rw [if_pos low, if_neg (by omega), if_neg (by omega), if_pos (by omega)]
      · rw [if_neg low, if_neg (by omega)]
        by_cases last : slot = k + 1
        · subst last
          simp [before]
        · rw [if_neg (Ne.symm last), if_neg (by omega)]

/-- Where a rotation takes a slot from. -/
def sourceSlot (depth slot : ℕ) : ℕ := if slot = 0 then depth - 1 else slot - 1

theorem rotated_get {items : List α} {slot : ℕ} (inside : slot < items.length) :
    (swapDown (items.length - 1) items)[slot]? = items[sourceSlot items.length slot]? := by
  rw [swapDown_get (by omega), sourceSlot]
  split
  · rfl
  · rw [if_pos (by omega)]

/-- What a ring sees of a run. -/
inductive RingEvent (α : Type) where
  | store (sample : α)
  | rotate

/-- The samples of a ring: those rotations accepted, the latest first; the one
stored since the last rotation; and all that were stored, the latest first. -/
structure RingLog (α : Type) where
  accepted : List α := []
  pending : Option α := none
  stored : List α := []

def RingLog.record (log : RingLog α) : RingEvent α → RingLog α
  | .store sample => { log with pending := some sample, stored := sample :: log.stored }
  | .rotate => { log with accepted := log.pending.toList ++ log.accepted, pending := none }

/-- The log of a run. -/
def RingLog.ofEvents (events : List (RingEvent α)) : RingLog α := events.foldl RingLog.record {}

theorem RingLog.stored_foldl (events : List (RingEvent α)) (log : RingLog α)
    (kept : log.accepted ≠ [] ∨ log.pending ≠ none → log.stored ≠ []) :
    (events.foldl RingLog.record log).accepted ≠ [] ∨ (events.foldl RingLog.record log).pending ≠ none →
      (events.foldl RingLog.record log).stored ≠ [] := by
  induction events generalizing log with
  | nil => exact kept
  | cons event events ih =>
    refine ih _ ?_
    cases event with
    | store sample => exact fun _ => List.cons_ne_nil _ _
    | rotate =>
      rintro (accepted | pending)
      · refine kept ?_
        cases known : log.pending with
        | none =>
          simp only [RingLog.record, known, Option.toList_none, List.nil_append] at accepted
          exact .inl accepted
        | some sample => exact .inr (by simp)
      · exact absurd rfl pending

theorem RingLog.stored_of_accepted (events : List (RingEvent α)) (some : (ofEvents events).accepted ≠ []) :
    (ofEvents events).stored ≠ [] :=
  stored_foldl events {} (by simp) (.inl some)

/-- Every rotation follows a store since the rotation before it. -/
def RingLog.StoresFirst : RingLog α → List (RingEvent α) → Prop
  | _, [] => True
  | log, .store sample :: rest => (log.record (.store sample)).StoresFirst rest
  | log, .rotate :: rest => log.pending ≠ none ∧ (log.record .rotate).StoresFirst rest

variable {V T : Type}

namespace HistoryRing

/-- An event of a ring. -/
def step (ring : HistoryRing V T) : RingEvent (V × T) → HistoryRing V T
  | .store sample => ring.store sample.1 sample.2
  | .rotate => ring.rotate

/-- A slot holds a sample, with the time step of that sample. -/
def Holds (ring : HistoryRing V T) (slot : ℕ) (sample : V × T) : Prop :=
  ring.slots[slot]? = some sample.1 ∧ ring.slotDt[slot]? = some sample.2

/-- What holds after every run. -/
structure Follows (ring : HistoryRing V T) (log : RingLog (V × T)) : Prop where
  deep : 0 < ring.depth
  sized : ring.slots.length = ring.depth
  dated : ring.slotDt.length = ring.depth
  filled : ring.fillCount = min ring.depth log.accepted.length
  pending : ring.storePending = log.pending.isSome
  started : ring.initialized = true ↔ log.stored ≠ []
  paired : ∀ slot < ring.depth, ring.initialized = true → ∃ sample ∈ log.stored, ring.Holds slot sample

/-- What a slot of an initialized ring holds when no rotation came without a
store: the pending sample and the accepted ones, behind them the first sample. -/
structure InOrder (ring : HistoryRing V T) (log : RingLog (V × T)) : Prop where
  newest : ∀ sample, log.pending = some sample → ring.Holds 0 sample
  older : ∀ first, log.stored.getLast? = some first → ∀ slot, 1 ≤ slot → slot < ring.depth →
    ring.Holds slot (log.accepted.getD (slot - 1) first)
  recycled : ∀ first, log.stored.getLast? = some first → log.pending = none →
    ring.Holds 0 (log.accepted.getD (ring.depth - 1) first)

variable {ring : HistoryRing V T} {log : RingLog (V × T)}

theorem Follows.rotate_holds (follows : ring.Follows log) {slot : ℕ} (inside : slot < ring.depth) {sample : V × T} :
    ring.rotate.Holds slot sample ↔ ring.Holds (sourceSlot ring.depth slot) sample := by
  unfold Holds
  have values := @rotated_get _ ring.slots slot (by rw [follows.sized]; exact inside)
  have steps := @rotated_get _ ring.slotDt slot (by rw [follows.dated]; exact inside)
  rw [follows.sized] at values
  rw [follows.dated] at steps
  change (swapDown (ring.slots.length - 1) ring.slots)[slot]? = _ ∧
    (swapDown (ring.slotDt.length - 1) ring.slotDt)[slot]? = _ ↔ _
  rw [follows.sized, follows.dated, values, steps]

theorem sourceSlot_lt {depth slot : ℕ} (deep : 0 < depth) (inside : slot < depth) : sourceSlot depth slot < depth := by
  unfold sourceSlot
  split <;> omega

theorem Follows.rotate (follows : ring.Follows log) : ring.rotate.Follows (log.record .rotate) where
  deep := follows.deep
  sized := by simp [HistoryRing.rotate, follows.sized]
  dated := by simp [HistoryRing.rotate, follows.dated]
  filled := by
    simp only [HistoryRing.rotate, RingLog.record, swapDown_length, follows.pending, follows.filled, follows.sized]
    cases log.pending with
    | none => simp
    | some sample =>
      simp only [Option.isSome_some, if_true, Option.toList_some, List.singleton_append, List.length_cons]
      omega
  pending := rfl
  started := follows.started
  paired := by
    intro slot inside initialized
    obtain ⟨sample, listed, held⟩ :=
      follows.paired (sourceSlot ring.depth slot) (sourceSlot_lt follows.deep inside) initialized
    exact ⟨sample, listed, (follows.rotate_holds inside).mpr held⟩

theorem Follows.store_holds (follows : ring.Follows log) (sample : V × T) {slot : ℕ} (inside : slot < ring.depth) :
    if ring.initialized = true ∧ slot ≠ 0 then
      ∀ other, (ring.store sample.1 sample.2).Holds slot other ↔ ring.Holds slot other
    else (ring.store sample.1 sample.2).Holds slot sample := by
  have inSlots : slot < ring.slots.length := by rw [follows.sized]; exact inside
  have inSteps : slot < ring.slotDt.length := by rw [follows.dated]; exact inside
  split
  · rename_i later
    intro other
    simp only [Holds, store, later.1, if_true]
    rw [List.getElem?_set_ne (Ne.symm later.2), List.getElem?_set_ne (Ne.symm later.2)]
  · rename_i first
    rw [not_and, not_not] at first
    unfold Holds store
    by_cases initialized : ring.initialized = true
    · obtain rfl := first initialized
      simp [initialized, inSlots, inSteps]
    · simp [initialized, inSlots, inSteps]

theorem Follows.store (follows : ring.Follows log) (sample : V × T) :
    (ring.store sample.1 sample.2).Follows (log.record (.store sample)) where
  deep := follows.deep
  sized := by
    simp only [HistoryRing.store]
    split <;> simp [follows.sized]
  dated := by
    simp only [HistoryRing.store]
    split <;> simp [follows.dated]
  filled := follows.filled
  pending := rfl
  started := by simp [HistoryRing.store, RingLog.record]
  paired := by
    intro slot inside _
    have held := follows.store_holds sample inside
    split at held
    · rename_i later
      obtain ⟨other, listed, kept⟩ := follows.paired slot inside later.1
      exact ⟨other, List.mem_cons_of_mem _ listed, (held other).mpr kept⟩
    · exact ⟨sample, List.mem_cons_self, held⟩

theorem InOrder.store (ordered : ring.InOrder log) (follows : ring.Follows log)
    (empty : log.stored = [] → log.accepted = []) (sample : V × T) :
    (ring.store sample.1 sample.2).InOrder (log.record (.store sample)) where
  newest := by
    intro other same
    obtain rfl : sample = other := Option.some.inj same
    have held := follows.store_holds sample follows.deep
    rwa [if_neg (by simp)] at held
  older := by
    intro first oldest slot low inside
    have held := follows.store_holds sample inside
    split at held
    · rename_i later
      obtain ⟨_, rest, shape⟩ := List.exists_cons_of_ne_nil (follows.started.mp later.1)
      refine (held _).mpr (ordered.older first ?_ slot low inside)
      rwa [RingLog.record, shape, List.getLast?_cons_cons, ← shape] at oldest
    · rename_i cold
      have none : log.stored = [] := by
        by_contra some
        exact cold ⟨follows.started.mpr some, by omega⟩
      simp only [RingLog.record, none, List.getLast?_singleton, Option.some.injEq] at oldest
      rw [RingLog.record, empty none, List.getD_nil, ← oldest]
      exact held
  recycled := by
    intro _ _ missing
    cases missing

theorem InOrder.rotate (ordered : ring.InOrder log) (follows : ring.Follows log) {sample : V × T}
    (pending : log.pending = some sample) : ring.rotate.InOrder (log.record .rotate) := by
  have accepted : (log.record .rotate).accepted = sample :: log.accepted := by simp [RingLog.record, pending]
  have moved (first : V × T) (oldest : log.stored.getLast? = some first) {slot : ℕ} (inside : slot < ring.depth) :
      ring.Holds slot ((sample :: log.accepted).getD slot first) := by
    cases slot with
    | zero => exact ordered.newest sample pending
    | succ slot => exact ordered.older first oldest (slot + 1) (by omega) inside
  constructor
  · intro other missing
    cases missing
  · intro first oldest slot low inside
    rw [accepted, follows.rotate_holds inside, sourceSlot, if_neg (by omega)]
    exact moved first oldest (lt_of_le_of_lt (Nat.sub_le slot 1) inside)
  · intro first oldest _
    rw [accepted, follows.rotate_holds follows.deep, sourceSlot, if_pos rfl]
    exact moved first oldest (Nat.sub_lt follows.deep Nat.one_pos)

theorem follows_run (follows : ring.Follows log) (events : List (RingEvent (V × T))) :
    (events.foldl step ring).Follows (events.foldl RingLog.record log) := by
  induction events generalizing ring log with
  | nil => exact follows
  | cons event events ih =>
    cases event with
    | store sample => exact ih (follows.store sample)
    | rotate => exact ih follows.rotate

theorem inOrder_run (ordered : ring.InOrder log) (follows : ring.Follows log)
    (empty : log.stored = [] → log.accepted = [] ∧ log.pending = none) {events : List (RingEvent (V × T))}
    (first : log.StoresFirst events) : (events.foldl step ring).InOrder (events.foldl RingLog.record log) := by
  induction events generalizing ring log with
  | nil => exact ordered
  | cons event events ih =>
    cases event with
    | store sample =>
      refine ih (ordered.store follows (fun none => (empty none).1) sample) (follows.store sample) ?_ first
      intro none
      cases none
    | rotate =>
      obtain ⟨pending, later⟩ := first
      obtain ⟨sample, known⟩ := Option.ne_none_iff_exists'.mp pending
      refine ih (ordered.rotate follows known) follows.rotate (fun none => ?_) later
      exact absurd (empty none).2 pending

theorem follows_registered {depth : ℕ} (deep : 0 < depth) (identity : HistoryIdentity) (scratch : V) (zero : T) :
    Follows { slots := List.replicate depth scratch, depth := depth, identity := identity,
              slotDt := List.replicate depth zero } {} where
  deep := deep
  sized := List.length_replicate
  dated := List.length_replicate
  filled := by simp
  pending := rfl
  started := by simp
  paired := by simp

end HistoryRing

namespace HistoryRingManager

/-- The events of a ring in a call. -/
def eventsOf (name clock : String) : Operation V T → List (RingEvent (V × T))
  | .store stored value dt => if stored = name then [.store (value, dt)] else []
  | .rotate => [.rotate]
  | .rotateClock rotated => if rotated = clock then [.rotate] else []

/-- The events of a ring in a run. -/
def ringEvents (name clock : String) (operations : List (Operation V T)) : List (RingEvent (V × T)) :=
  operations.flatMap (eventsOf name clock)

variable [HistoryValue V T] {manager after : HistoryRingManager V T} {name : String} {ring : HistoryRing V T}

theorem perform_ring {operation : Operation V T} (ran : manager.perform operation = .ok after)
    (registered : manager name = some ring) :
    after name = some ((eventsOf name ring.identity.clockIdentity operation).foldl HistoryRing.step ring) := by
  cases operation with
  | store stored value dt =>
    simp only [perform, store, bind_ok] at ran
    obtain ⟨-, -, written⟩ := ran
    cases found : manager stored with
    | none => rw [found] at written; cases written
    | some old =>
      simp only [found, bind_ok, pure_ok] at written
      obtain ⟨-, -, -, -, rfl⟩ := written
      rw [eventsOf]
      by_cases same : stored = name
      · subst same
        obtain rfl := Option.some.inj (found.symm.trans registered)
        rw [if_pos rfl, Function.update_self]
        rfl
      · rw [if_neg same, Function.update_of_ne (Ne.symm same), registered]
        rfl
  | rotate =>
    cases ran
    simp [rotate, registered, eventsOf, HistoryRing.step]
  | rotateClock clock =>
    cases ran
    rw [eventsOf]
    by_cases same : clock = ring.identity.clockIdentity
    · subst same
      simp [rotateClock, registered, HistoryRing.step]
    · rw [if_neg same]
      simp [rotateClock, registered, Ne.symm same]

omit [HistoryValue V T] in
theorem events_identity (events : List (RingEvent (V × T))) (ring : HistoryRing V T) :
    (events.foldl HistoryRing.step ring).identity = ring.identity ∧
      (events.foldl HistoryRing.step ring).depth = ring.depth := by
  induction events generalizing ring with
  | nil => exact ⟨rfl, rfl⟩
  | cons event events ih => cases event <;> exact ih _

theorem run_ring {operations : List (Operation V T)} (ran : manager.run operations = .ok after)
    (registered : manager name = some ring) :
    after name = some ((ringEvents name ring.identity.clockIdentity operations).foldl HistoryRing.step ring) := by
  induction operations generalizing manager ring with
  | nil => cases ran; exact registered
  | cons operation operations ih =>
    simp only [run, List.foldlM_cons, bind_ok] at ran
    obtain ⟨middle, first, later⟩ := ran
    have stepped := perform_ring first registered
    rw [ih later stepped, (events_identity _ _).1, ringEvents, ringEvents, List.flatMap_cons, List.foldl_append]

theorem register_ring {registered : HistoryRingManager V T} {lag : ℤ} {identity : HistoryIdentity} {scratch : V}
    (fresh : manager name = none) (ran : manager.register name lag identity scratch = .ok registered) :
    1 ≤ lag ∧ registered name = some
      { slots := List.replicate (lag + 1).toNat scratch, depth := (lag + 1).toNat, identity := identity,
        slotDt := List.replicate (lag + 1).toNat (HistoryValue.zero V) } := by
  simp only [register, bind_ok, throwIf_ok, fresh, pure_ok, not_or] at ran
  obtain ⟨-, named, -, -, rfl⟩ := ran
  exact ⟨by omega, Function.update_self ..⟩

/-- After every run of stores and rotations, the fill count of a ring is the
number of accepted samples up to its depth, and each slot holds one stored
sample with its own time step. If every rotation follows a store since the
rotation before it, slot `k` holds the `k`-th latest accepted sample. -/
theorem ring_holds_samples {registered : HistoryRingManager V T} {lag : ℤ} {identity : HistoryIdentity} {scratch : V}
    {operations : List (Operation V T)} (fresh : manager name = none)
    (declared : manager.register name lag identity scratch = .ok registered)
    (ran : registered.run operations = .ok after) :
    ∃ ring, after name = some ring ∧ (ring.depth : ℤ) = lag + 1 ∧
      ring.fillCount =
        min ring.depth (RingLog.ofEvents (ringEvents name identity.clockIdentity operations)).accepted.length ∧
      (∀ slot < ring.depth, (RingLog.ofEvents (ringEvents name identity.clockIdentity operations)).stored ≠ [] →
        ∃ sample ∈ (RingLog.ofEvents (ringEvents name identity.clockIdentity operations)).stored,
          ring.Holds slot sample) ∧
      (RingLog.StoresFirst {} (ringEvents name identity.clockIdentity operations) →
        (∀ sample, (RingLog.ofEvents (ringEvents name identity.clockIdentity operations)).pending = some sample →
          ring.Holds 0 sample) ∧
        (∀ slot sample, 1 ≤ slot → slot < ring.depth →
          (RingLog.ofEvents (ringEvents name identity.clockIdentity operations)).accepted[slot - 1]? = some sample →
            ring.Holds slot sample) ∧
        (∀ slot first,
          (RingLog.ofEvents (ringEvents name identity.clockIdentity operations)).accepted.length < slot →
            slot < ring.depth →
              (RingLog.ofEvents (ringEvents name identity.clockIdentity operations)).stored.getLast? = some first →
                ring.Holds slot first)) := by
  obtain ⟨positive, known⟩ := register_ring fresh declared
  have final := run_ring ran known
  set events := ringEvents name identity.clockIdentity operations
  have start := HistoryRing.follows_registered (show 0 < (lag + 1).toNat by omega) identity scratch
    (HistoryValue.zero V : T)
  have follows := HistoryRing.follows_run start events
  refine ⟨_, final, ?_, follows.filled, ?_, fun storesFirst => ?_⟩
  · rw [(events_identity _ _).2]
    exact Int.toNat_of_nonneg (by omega)
  · intro slot inside stored
    exact follows.paired slot inside (follows.started.mpr stored)
  · have ordered := HistoryRing.inOrder_run (⟨by simp, by simp, by simp⟩ : HistoryRing.InOrder _ {}) start
      (fun _ => ⟨rfl, rfl⟩) storesFirst
    have oldest {slot : ℕ} {sample : V × T}
        (listed : (RingLog.ofEvents events).accepted[slot - 1]? = some sample) :
        (RingLog.ofEvents events).stored ≠ [] := by
      intro none
      have early : (RingLog.ofEvents events).accepted = [] := by
        by_contra some
        exact absurd none (RingLog.stored_of_accepted events some)
      simp [early] at listed
    refine ⟨ordered.newest, ?_, ?_⟩
    · intro slot sample low inside listed
      obtain ⟨first, last⟩ := List.getLast?_isSome.mpr (oldest listed) |> Option.isSome_iff_exists.mp
      have held := ordered.older first last slot low inside
      rwa [List.getD_eq_getElem?_getD, show (List.foldl RingLog.record {} events).accepted[slot - 1]? = some sample from
        listed, Option.getD_some] at held
    · intro slot first deep inside last
      have held := ordered.older first last slot (by omega) inside
      have beyond : (RingLog.ofEvents events).accepted.length ≤ slot - 1 := by omega
      rwa [List.getD_eq_getElem?_getD, show (List.foldl RingLog.record {} events).accepted[slot - 1]? = none from
        List.getElem?_eq_none beyond, Option.getD_none] at held

/-- Values that are numbers, of which no two differ in their contract. -/
instance numbered : HistoryValue ℕ ℕ where
  sameContract _ _ := true
  positive dt := decide (0 < dt)
  zero := 0

/-- An identity of the unknown's history. -/
def unknownHistory : HistoryIdentity := ⟨0, 1, "state", "cells", "clock", "linear"⟩

/-- Two stores, the second one not yet rotated. -/
theorem ring_holds_samples_two :
    ∃ after ring, HistoryRingManager.run (Function.update (fun _ => none) "u" (some
        { slots := [0, 0, 0], depth := 3, identity := unknownHistory, slotDt := [0, 0, 0] }))
        [.store "u" 5 1, .rotateClock "clock", .store "u" 7 2] = .ok after ∧ after "u" = some ring ∧
      ring.Holds 0 (7, 2) ∧ ring.Holds 1 (5, 1) ∧ ring.Holds 2 (5, 1) := by
  have ran : HistoryRingManager.run (Function.update (fun _ => none) "u" (some
      { slots := [0, 0, 0], depth := 3, identity := unknownHistory, slotDt := [0, 0, 0] }))
      [.store "u" 5 1, .rotateClock "clock", .store "u" 7 2] = .ok _ := rfl
  have fresh : (fun _ => none : HistoryRingManager ℕ ℕ) "u" = none := rfl
  have declared : register (fun _ => none) "u" 2 unknownHistory 0 = .ok (Function.update (fun _ => none) "u" (some
      { slots := [0, 0, 0], depth := 3, identity := unknownHistory, slotDt := [0, 0, 0] }) : HistoryRingManager ℕ ℕ) := rfl
  obtain ⟨ring, known, deep, _, _, order⟩ := ring_holds_samples fresh declared ran
  obtain ⟨newest, older, first⟩ := order (by simp [ringEvents, eventsOf, unknownHistory, RingLog.StoresFirst, RingLog.record])
  exact ⟨_, ring, ran, known, newest (7, 2) rfl, older 1 (5, 1) le_rfl (by omega) rfl,
    first 2 (5, 1) (by decide) (by omega) rfl⟩

/-- A rotation without a store of its own moves a recycled sample before the latest. -/
theorem ring_recycles : ¬∀ after ring, HistoryRingManager.run (Function.update (fun _ => none) "u" (some
        { slots := [0, 0, 0], depth := 3, identity := unknownHistory, slotDt := [0, 0, 0] }))
      [.store "u" 5 1, .rotate, .store "u" 7 2, .rotate, .rotate] = .ok after → after "u" = some ring →
    ∀ slot sample, 1 ≤ slot → slot < ring.depth →
      (RingLog.ofEvents (ringEvents "u" "clock" [.store "u" 5 1, .rotate, .store "u" 7 2, .rotate,
        .rotate])).accepted[slot - 1]? = some sample → ring.Holds slot sample := by
  intro holds
  have first := holds _ _ rfl rfl 1 (7, 2) le_rfl (by decide) rfl
  exact absurd first.1 (by decide)

end HistoryRingManager

end Pops
