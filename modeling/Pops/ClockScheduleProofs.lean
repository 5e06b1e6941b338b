import Pops.ClockSchedule

/-!
What the clocks of a nested run observe. A run is properly nested by its
syntax: the subcycles of one tick, and the ticks of one subcycle. Each tick of
a child is counted from the tick of its parent, so a run that subcycles every
child once in every tick of its parent counts each clock through.
-/
namespace Pops.ClockSchedule

mutual

/-- What runs in one tick of a clock: subcycles of its children. -/
inductive Body where
  | done
  | subcycle (child : String) (count : ℤ) (ticks : Ticks) (rest : Body)

/-- The ticks of one subcycle. -/
inductive Ticks where
  | finished
  | tick (body : Body) (later : Ticks)

end

mutual

/-- Run the subcycles of a tick of a clock, and list what each clock observed. -/
def Body.run (macroStep : ℤ) (clock : String) : Body → Member ClockSchedule (List (String × ℤ))
  | .done => pure []
  | .subcycle child count ticks rest => do
    let depth ← beginSubcycle clock child count
    let inside ← ticks.run macroStep child depth 0
    finish depth
    let after ← rest.run macroStep clock
    return inside ++ after

/-- Run the ticks of a subcycle; each observes its clock before what runs in it. -/
def Ticks.run (macroStep : ℤ) (clock : String) (depth : ℕ) (index : ℤ) :
    Ticks → Member ClockSchedule (List (String × ℤ))
  | .finished => pure []
  | .tick body later => do
    iteration depth index
    let schedule ← Member.get
    let tick ← Member.lift (schedule.coordinate .clockTick clock "" (-1) (-1) macroStep)
    let inside ← body.run macroStep clock
    let after ← later.run macroStep clock depth (index + 1)
    return (tick.toList.map fun tick => (clock, tick)) ++ inside ++ after

end

/-- Run macro steps from a given one on. -/
def runSteps (macroStep : ℤ) : List Body → Member ClockSchedule (List (String × ℤ))
  | [] => pure []
  | body :: later => do
    let schedule ← Member.get
    let observed ← body.run macroStep schedule.primary
    let after ← runSteps (macroStep + 1) later
    return observed ++ after

mutual

/-- What the clocks observe in a tick of their parent. -/
def Body.observed (tick : ℤ) : Body → List (String × ℤ)
  | .done => []
  | .subcycle child count ticks rest => ticks.observed child (tick * count) ++ rest.observed tick

/-- What the clocks observe in the ticks of a subcycle, from its first tick on. -/
def Ticks.observed (clock : String) (tick : ℤ) : Ticks → List (String × ℤ)
  | .finished => []
  | .tick body later => (clock, tick) :: (body.observed tick ++ later.observed clock (tick + 1))

end

/-- The number of ticks of a subcycle. -/
def Ticks.length : Ticks → ℕ
  | .finished => 0
  | .tick _ later => later.length + 1

/-- The children subcycled in a tick. -/
def Body.children : Body → List String
  | .done => []
  | .subcycle child _ _ rest => child :: rest.children

/-- A tick that subcycles every child of its clock once. -/
def Body.OnceEach (relations : List (String × ClockRelation)) (clock : String) (body : Body) : Prop :=
  body.children.Nodup ∧ ∀ child, child ∈ body.children ↔
    ∃ relation, relations.lookup child = some relation ∧ relation.parent = clock

mutual

/-- Every tick inside subcycles every child of its clock once. -/
def Body.Complete (relations : List (String × ClockRelation)) : Body → Prop
  | .done => True
  | .subcycle child _ ticks rest => ticks.Complete relations child ∧ rest.Complete relations

def Ticks.Complete (relations : List (String × ClockRelation)) (clock : String) : Ticks → Prop
  | .finished => True
  | .tick body later =>
    body.OnceEach relations clock ∧ body.Complete relations ∧ later.Complete relations clock

end

mutual

/-- Every subcycle is of the relation its child has, and has as many ticks. -/
def Body.Follows (relations : List (String × ClockRelation)) (clock : String) : Body → Prop
  | .done => True
  | .subcycle child count ticks rest =>
    relations.lookup child = some ⟨clock, count⟩ ∧ (ticks.length : ℤ) = count ∧
      ticks.Follows relations child ∧ rest.Follows relations clock

def Ticks.Follows (relations : List (String × ClockRelation)) (clock : String) : Ticks → Prop
  | .finished => True
  | .tick body later => body.Follows relations clock ∧ later.Follows relations clock

end

variable {schedule after : ClockSchedule} {u : Unit}

theorem checkedMultiply_ok {a b product : ℤ} (ran : checkedMultiply a b = .ok product) :
    0 ≤ a ∧ 0 < b ∧ product = a * b := by
  simp only [checkedMultiply, bind_ok, throwIf_ok, unit_exists, pure_ok, not_or, not_lt, not_le] at ran
  exact ⟨ran.1.1, ran.1.2.1, ran.2.symm⟩

theorem checkedAdd_ok {a b sum : ℤ} (ran : checkedAdd a b = .ok sum) : sum = a + b := by
  simp only [checkedAdd, bind_ok, throwIf_ok, unit_exists, pure_ok] at ran
  exact ran.2.symm

private theorem lookup_cons_ite (key other : String) (value : ClockRelation)
    (rest : List (String × ClockRelation)) :
    ((key, value) :: rest).lookup other = if key = other then some value else rest.lookup other := by
  rw [List.lookup_cons]
  by_cases same : key = other
  · simp [same]
  · rw [beq_eq_false_iff_ne.mpr (Ne.symm same), if_neg same]

variable {relations : List (String × ClockRelation)} {frame : ClockFrame} {around : List ClockFrame}
  {macroStep : ℤ} {clock : String}

theorem assign_lookup {child : String} {relation : ClockRelation}
    (known : relations.lookup child = some relation) : assign child relation relations = relations := by
  induction relations with
  | nil => cases known
  | cons entry rest ih =>
    obtain ⟨key, value⟩ := entry
    rw [lookup_cons_ite] at known
    unfold assign
    by_cases same : key = child
    · rw [if_pos same] at known ⊢
      rw [same, Option.some.inj known]
    · rw [if_neg same] at known ⊢
      rw [ih known]

theorem lookup_assign (child other : String) (relation : ClockRelation)
    (relations : List (String × ClockRelation)) :
    (assign child relation relations).lookup other =
      if child = other then some relation else relations.lookup other := by
  induction relations with
  | nil => exact lookup_cons_ite _ _ _ _
  | cons entry rest ih =>
    obtain ⟨key, value⟩ := entry
    unfold assign
    by_cases here : key = child
    · rw [if_pos here, lookup_cons_ite, lookup_cons_ite, here]
      split <;> rfl
    · rw [if_neg here, lookup_cons_ite, lookup_cons_ite, ih]
      by_cases same : key = other
      · rw [if_pos same, if_neg (fun differ => here (same.trans differ.symm)), if_pos same]
      · rw [if_neg same, if_neg same]

theorem declareRelation_ok {parent child : String} {count : ℤ}
    (ran : declareRelation parent child count schedule = (.ok u, after)) :
    child ≠ "" ∧ parent ≠ child ∧ 0 < count ∧
      (∀ known, schedule.relations.lookup child = some known → known = ⟨parent, count⟩) ∧
      after = { schedule with relations := assign child ⟨parent, count⟩ schedule.relations } ∧
      ∃ ticks, after.ticksPerMacro child = .ok ticks := by
  simp only [declareRelation, Member.bind_ok, Member.get_ok, Member.throwIf_ok, Member.modify_ok,
    Member.lift_ok, Member.pure_ok] at ran
  obtain ⟨_, _, ⟨rfl, rfl⟩, _, _, ⟨valid, rfl⟩, _, _, ⟨agree, rfl⟩, _, _, rfl, _, _, ⟨rfl, rfl⟩, ticks, _,
    ⟨reachable, rfl⟩, -, rfl⟩ := ran
  simp only [not_or, not_le] at valid
  refine ⟨valid.2.1, valid.2.2.1, valid.2.2.2, ?_, rfl, ticks, reachable⟩
  intro known found
  have same : ¬ (known.parent ≠ parent ∨ known.count ≠ count) := fun differ => agree ⟨known, found, differ⟩
  simp only [not_or, not_not] at same
  cases known
  simp_all

theorem beginSubcycle_ok {parent child : String} {count : ℤ} {depth : ℕ}
    (ran : beginSubcycle parent child count schedule = (.ok depth, after)) :
    depth = schedule.frames.length ∧ schedule.active = parent ∧
      (∀ known, schedule.relations.lookup child = some known → known = ⟨parent, count⟩) ∧
      after = { schedule with
        relations := assign child ⟨parent, count⟩ schedule.relations
        frames := schedule.frames ++ [⟨parent, child, count, 0⟩] } := by
  simp only [beginSubcycle, Member.bind_ok, Member.get_ok, Member.throwIf_ok, Member.modify_ok,
    Member.pure_ok] at ran
  obtain ⟨_, _, ⟨-, rfl⟩, _, declared, declaring, _, _, ⟨rfl, rfl⟩, _, _, ⟨nested, rfl⟩, _, _, rfl, rfl, rfl⟩ := ran
  obtain ⟨-, -, -, agree, rfl, -⟩ := declareRelation_ok declaring
  exact ⟨rfl, not_not.mp nested, agree, rfl⟩

theorem frame_ok {depth : ℕ} :
    schedule.frame depth = .ok frame ↔
      ∃ around, schedule.frames = around ++ [frame] ∧ depth = around.length := by
  unfold ClockSchedule.frame
  rcases List.eq_nil_or_concat schedule.frames with none | ⟨around, last, frames⟩
  · simp [none]
  · rw [List.concat_eq_append] at frames
    simp only [frames, List.getLast?_concat, List.length_append, List.length_singleton, Nat.add_right_cancel_iff]
    constructor
    · intro found
      split at found
      · cases found
        exact ⟨around, rfl, ‹_›⟩
      · cases found
    · rintro ⟨other, same, rfl⟩
      obtain ⟨rfl, lasts⟩ := List.append_inj' same rfl
      cases lasts
      rw [if_pos rfl]

theorem iteration_ok {depth : ℕ} {index : ℤ} (frames : schedule.frames = around ++ [frame])
    (ran : iteration depth index schedule = (.ok u, after)) :
    frame.next = index ∧ index < frame.count ∧
      after = { schedule with frames := around ++ [{ frame with next := index + 1 }] } := by
  simp only [iteration, Member.bind_ok, Member.get_ok, Member.throwIf_ok, Member.modify_ok, Member.lift_ok,
    frame_ok] at ran
  obtain ⟨_, _, ⟨rfl, rfl⟩, found, _, ⟨⟨other, same, -⟩, rfl⟩, _, _, ⟨sequential, rfl⟩, rfl⟩ := ran
  rw [frames] at same
  obtain ⟨-, lasts⟩ := List.append_inj' same rfl
  cases lasts
  simp only [not_or, not_not, not_le, ge_iff_le] at sequential
  obtain ⟨rfl, -, below⟩ := sequential
  refine ⟨rfl, below, ?_⟩
  rw [frames, List.dropLast_concat]

theorem finish_ok {depth : ℕ} (frames : schedule.frames = around ++ [frame])
    (ran : finish depth schedule = (.ok u, after)) :
    frame.next = frame.count ∧ after = { schedule with frames := around } := by
  simp only [finish, Member.bind_ok, Member.get_ok, Member.throwIf_ok, Member.modify_ok, Member.lift_ok,
    frame_ok] at ran
  obtain ⟨_, _, ⟨rfl, rfl⟩, found, _, ⟨⟨other, same, -⟩, rfl⟩, _, _, ⟨ended, rfl⟩, rfl⟩ := ran
  rw [frames] at same
  obtain ⟨-, lasts⟩ := List.append_inj' same rfl
  cases lasts
  refine ⟨not_not.mp ended, ?_⟩
  rw [frames, List.dropLast_concat]

/-- The frames of a schedule end at a clock that is in a given tick. -/
def At (schedule : ClockSchedule) (macroStep : ℤ) (clock : String) (tick : ℤ) : Prop :=
  schedule.cursor macroStep = .ok (clock, tick)

theorem at_append {tick : ℤ} {primary : String} {cursor : String × ℤ}
    (outer : At ⟨primary, relations, around⟩ macroStep clock tick)
    (inner : ClockSchedule.cursor ⟨primary, relations, around ++ [frame]⟩ macroStep = .ok cursor) :
    cursor = (frame.child, tick * frame.count + (frame.next - 1)) := by
  unfold At ClockSchedule.cursor at outer
  simp only at outer
  unfold ClockSchedule.cursor at inner
  simp only [List.foldlM_append, outer, ok_bind, List.foldlM_cons, List.foldlM_nil, bind_ok, pure_ok] at inner
  obtain ⟨_, stepped, rfl⟩ := inner
  simp only [cursorStep, bind_ok, throwIf_ok, unit_exists, pure_ok] at stepped
  obtain ⟨-, scaled, multiplied, sum, added, rfl⟩ := stepped
  rw [checkedAdd_ok added, (checkedMultiply_ok multiplied).2.2]

theorem coordinate_ok {tick : Option ℤ}
    (ran : schedule.coordinate .clockTick clock "" (-1) (-1) macroStep = .ok tick) :
    ∃ active number, schedule.cursor macroStep = .ok (active, number) ∧
      tick = if active ≠ clock then none else some number := by
  simp only [coordinate, activeTick, bind_ok, throwIf_ok, unit_exists, pure_ok] at ran
  obtain ⟨found, ⟨-, ⟨active, number⟩, cursor, rfl⟩, ran⟩ := ran
  refine ⟨active, number, cursor, ?_⟩
  by_cases other : active ≠ clock
  · rw [if_pos other] at ran ⊢
    exact (pure_ok.mp ran).symm
  · rw [if_neg other] at ran ⊢
    simp only [bind_ok, pure_ok] at ran
    obtain ⟨_, -, rfl⟩ := ran
    rfl

mutual

theorem Body.run_ok {relations : List (String × ClockRelation)} {macroStep tick : ℤ} {clock : String}
    {observed : List (String × ℤ)} (body : Body) {schedule after : ClockSchedule}
    (known : schedule.relations = relations)
    (declared : ∀ child ∈ body.children, ∃ relation, relations.lookup child = some relation)
    (complete : body.Complete relations) (here : At schedule macroStep clock tick)
    (ran : body.run macroStep clock schedule = (.ok observed, after)) :
    after = schedule ∧ observed = body.observed tick ∧ body.Follows relations clock :=
  match body with
  | .done => by
    simp only [Body.run, Member.pure_ok] at ran
    exact ⟨ran.2.symm, ran.1.symm, trivial⟩
  | .subcycle child count ticks rest => by
    simp only [Body.run, Member.bind_ok, Member.pure_ok] at ran
    obtain ⟨depth, opened, beginning, inside, ran, ticking, _, closed, finishing, later, _, resting, rfl, rfl⟩ := ran
    obtain ⟨-, -, agree, rfl⟩ := beginSubcycle_ok beginning
    obtain ⟨relation, found⟩ := declared child (by simp [Body.children])
    have relationIs := agree relation (known ▸ found)
    subst relationIs
    rw [known, assign_lookup found, ← known] at ticking
    obtain ⟨rfl, rfl, counted⟩ := ticks.run_ok known complete.1 here ticking
    obtain ⟨ended, rfl⟩ := finish_ok rfl finishing
    obtain ⟨rfl, rfl, follows⟩ := rest.run_ok known
      (fun other listed => declared other (by simp [Body.children, listed])) complete.2 here resting
    refine ⟨rfl, ?_, found, ?_, counted, follows⟩
    · rw [Body.observed, add_zero]
    · simpa using ended

theorem Ticks.run_ok {relations : List (String × ClockRelation)} {macroStep tick index count : ℤ}
    {parent clock : String} {depth : ℕ} {observed : List (String × ℤ)} (ticks : Ticks)
    {schedule after : ClockSchedule} (known : schedule.relations = relations)
    (complete : ticks.Complete relations clock) (here : At schedule macroStep parent tick)
    (ran : ticks.run macroStep clock depth index
      { schedule with frames := schedule.frames ++ [⟨parent, clock, count, index⟩] } = (.ok observed, after)) :
    after = { schedule with frames := schedule.frames ++ [⟨parent, clock, count, index + ticks.length⟩] } ∧
      observed = ticks.observed clock (tick * count + index) ∧ ticks.Follows relations clock :=
  match ticks with
  | .finished => by
    simp only [Ticks.run, Member.pure_ok] at ran
    refine ⟨?_, ran.1.symm, trivial⟩
    rw [← ran.2, Ticks.length, Nat.cast_zero, add_zero]
  | .tick body later => by
    simp only [Ticks.run, Member.bind_ok, Member.pure_ok, Member.get_ok, Member.lift_ok] at ran
    obtain ⟨_, moved, moving, _, _, ⟨rfl, rfl⟩, seen, _, ⟨coordinated, rfl⟩, inside, _, running, rest, _, resting,
      rfl, rfl⟩ := ran
    obtain ⟨-, -, rfl⟩ := iteration_ok rfl moving
    obtain ⟨active, number, cursor, rfl⟩ := coordinate_ok coordinated
    obtain ⟨rfl, rfl⟩ := Prod.mk.inj (at_append here cursor)
    have number : tick * count + (index + 1 - 1) = tick * count + index := by ring
    rw [number] at cursor
    have knownInside : ClockSchedule.relations { schedule with
        frames := schedule.frames ++ [⟨parent, active, count, index + 1⟩] } = relations := known
    obtain ⟨rfl, rfl, bodyFollows⟩ := body.run_ok knownInside
      (fun child listed => (complete.1.2 child).mp listed |>.imp fun _ found => found.1) complete.2.1 cursor running
    obtain ⟨rfl, rfl, laterFollows⟩ := later.run_ok known complete.2.2 here resting
    refine ⟨?_, ?_, bodyFollows, laterFollows⟩
    · rw [Ticks.length, Nat.cast_succ, add_assoc, add_comm (1 : ℤ)]
    · rw [Ticks.observed, number]
      simp [add_assoc]

end

/-- A clock below another, with the product of the ratios between them. -/
inductive Reach (relations : List (String × ClockRelation)) (top : String) : String → ℤ → Prop
  | here : Reach relations top top 1
  | under {child : String} {relation : ClockRelation} {ticks : ℤ}
      (known : relations.lookup child = some relation) (above : Reach relations top relation.parent ticks) :
      Reach relations top child (ticks * relation.count)

/-- Relations without a cycle, with positive ratios. -/
structure Acyclic (relations : List (String × ClockRelation)) (depth : String → ℕ) : Prop where
  deeper : ∀ child relation, relations.lookup child = some relation → depth child = depth relation.parent + 1
  positive : ∀ child relation, relations.lookup child = some relation → 0 < relation.count

namespace Reach
variable {relations : List (String × ClockRelation)} {depth : String → ℕ} {top clock : String} {ticks : ℤ}

theorem positive (acyclic : Acyclic relations depth) (reach : Reach relations top clock ticks) : 0 < ticks := by
  induction reach with
  | here => exact one_pos
  | under known above ih => exact mul_pos ih (acyclic.positive _ _ known)

theorem depth_le (acyclic : Acyclic relations depth) (reach : Reach relations top clock ticks) :
    (clock = top ∧ ticks = 1) ∨ depth top < depth clock := by
  induction reach with
  | here => exact .inl ⟨rfl, rfl⟩
  | under known above ih =>
    right
    rw [acyclic.deeper _ _ known]
    rcases ih with ⟨same, -⟩ | deeper
    · rw [same]
      exact Nat.lt_succ_self _
    · exact deeper.trans (Nat.lt_succ_self _)

theorem step {child : String} {relation : ClockRelation} (known : relations.lookup child = some relation)
    (reach : Reach relations child clock ticks) : Reach relations relation.parent clock (relation.count * ticks) := by
  induction reach with
  | here =>
    rw [mul_comm]
    exact .under known .here
  | under found above ih =>
    rw [← mul_assoc]
    exact .under found ih

theorem first (reach : Reach relations top clock ticks) :
    (clock = top ∧ ticks = 1) ∨ ∃ child relation rest, relations.lookup child = some relation ∧
      relation.parent = top ∧ Reach relations child clock rest ∧ ticks = relation.count * rest := by
  induction reach with
  | here => exact .inl ⟨rfl, rfl⟩
  | @under clock relation ticks known above ih =>
    right
    rcases ih with ⟨same, rfl⟩ | ⟨child, first, rest, found, parent, reach, rfl⟩
    · exact ⟨clock, relation, 1, known, same, .here, mul_comm _ _⟩
    · exact ⟨child, first, rest * relation.count, found, parent, .under known reach, mul_assoc _ _ _⟩

theorem unique (acyclic : Acyclic relations depth) {left right : String} {leftRelation rightRelation : ClockRelation}
    {other : ℤ} (leftKnown : relations.lookup left = some leftRelation)
    (rightKnown : relations.lookup right = some rightRelation)
    (siblings : leftRelation.parent = rightRelation.parent) (reach : Reach relations left clock ticks)
    (reachOther : Reach relations right clock other) : left = right := by
  have level : depth left = depth right := by
    rw [acyclic.deeper _ _ leftKnown, acyclic.deeper _ _ rightKnown, siblings]
  induction reach generalizing other with
  | here =>
    rcases reachOther.depth_le acyclic with ⟨same, -⟩ | deeper
    · exact same
    · omega
  | under known above ih =>
    cases reachOther with
    | here =>
      rcases (Reach.under known above).depth_le acyclic with ⟨same, -⟩ | deeper
      · exact same.symm
      · omega
    | under found aboveOther =>
      rw [known] at found
      cases found
      exact ih aboveOther

end Reach

/-- The numbers from the first one up to the last one, which is left out. -/
def interval (first last : ℤ) : List ℤ := (List.range (last - first).toNat).map fun offset : ℕ => first + (offset : ℤ)

theorem interval_self (point : ℤ) : interval point point = [] := by
  simp [interval]

theorem interval_succ (point : ℤ) : interval point (point + 1) = [point] := by
  simp [interval]

theorem interval_append {first middle last : ℤ} (lower : first ≤ middle) (upper : middle ≤ last) :
    interval first middle ++ interval middle last = interval first last := by
  have total : (last - first).toNat = (middle - first).toNat + (last - middle).toNat := by omega
  unfold interval
  rw [total, List.range_add, List.map_append, List.map_map]
  congr 1
  apply List.map_congr_left
  intro offset _
  have start : ((middle - first).toNat : ℤ) = middle - first := Int.toNat_of_nonneg (by omega)
  simp only [Function.comp_apply, Nat.cast_add, start]
  ring

/-- What one clock observed. -/
def observedBy (clock : String) (observed : List (String × ℤ)) : List ℤ :=
  (observed.filter fun observation => observation.1 = clock).map Prod.snd

@[simp]
theorem observedBy_append (clock : String) (first second : List (String × ℤ)) :
    observedBy clock (first ++ second) = observedBy clock first ++ observedBy clock second := by
  simp [observedBy]

theorem observedBy_cons (clock other : String) (tick : ℤ) (rest : List (String × ℤ)) :
    observedBy clock ((other, tick) :: rest) =
      if other = clock then tick :: observedBy clock rest else observedBy clock rest := by
  by_cases same : other = clock <;> simp [observedBy, same]

section
variable {relations : List (String × ClockRelation)} {depth : String → ℕ} {clock : String}

theorem Body.Follows.child {parent : String} {body : Body} (follows : body.Follows relations parent) {child : String}
    (listed : child ∈ body.children) : ∃ count, relations.lookup child = some ⟨parent, count⟩ :=
  match body with
  | .done => nomatch listed
  | .subcycle first count ticks rest => by
    obtain ⟨known, -, -, later⟩ := follows
    rcases List.mem_cons.mp listed with rfl | listed
    · exact ⟨count, known⟩
    · exact Body.Follows.child later listed

mutual

theorem Body.observedBy (acyclic : Acyclic relations depth) (body : Body) (tick : ℤ) {parent : String}
    (follows : body.Follows relations parent) (complete : body.Complete relations)
    (distinct : body.children.Nodup) :
    (∀ child ∈ body.children, ∀ relation ticks, relations.lookup child = some relation →
      Reach relations child clock ticks →
        ClockSchedule.observedBy clock (body.observed tick) =
          interval (tick * (relation.count * ticks)) ((tick + 1) * (relation.count * ticks))) ∧
    ((∀ child ∈ body.children, ∀ ticks, ¬ Reach relations child clock ticks) →
      ClockSchedule.observedBy clock (body.observed tick) = []) :=
  match body with
  | .done => ⟨fun _ listed => (nomatch listed), fun _ => rfl⟩
  | .subcycle first count ticks rest => by
    have whole := follows
    obtain ⟨known, counted, ticksFollow, restFollows⟩ := follows
    obtain ⟨fresh, restDistinct⟩ := List.nodup_cons.mp distinct
    obtain ⟨inside, insideNot⟩ := ticks.observedBy acyclic (tick * count) ticksFollow complete.1
    obtain ⟨later, laterNot⟩ := rest.observedBy acyclic tick restFollows complete.2 restDistinct
    -- the subcycles of the other children observe nothing of what is below one of them
    have alone : ∀ child ∈ (Body.subcycle first count ticks rest).children, ∀ ratio,
        Reach relations child clock ratio → ∀ other ∈ (Body.subcycle first count ticks rest).children, ∀ more,
          Reach relations other clock more → other = child := by
      intro child listed ratio reach other otherListed more reachOther
      obtain ⟨_, childKnown⟩ := Body.Follows.child whole listed
      obtain ⟨_, otherKnown⟩ := Body.Follows.child whole otherListed
      exact reachOther.unique acyclic otherKnown childKnown rfl reach
    have mine : first ∈ (Body.subcycle first count ticks rest).children := List.mem_cons_self
    refine ⟨?_, ?_⟩
    · intro child listed relation ratio found reach
      rw [Body.observed, observedBy_append]
      rcases List.mem_cons.mp listed with rfl | laterListed
      · rw [known] at found
        cases found
        have none : ∀ other ∈ rest.children, ∀ more, ¬ Reach relations other clock more := by
          intro other otherListed more reachOther
          have same := alone child mine ratio reach other (List.mem_cons_of_mem _ otherListed) more reachOther
          exact fresh (same ▸ otherListed)
        rw [inside ratio reach, laterNot none, List.append_nil, counted]
        congr 1 <;> ring
      · have none : ∀ more, ¬ Reach relations first clock more := by
          intro more reachFirst
          have same := alone child listed ratio reach first mine more reachFirst
          exact fresh (same ▸ laterListed)
        rw [insideNot none, later child laterListed relation ratio found reach, List.nil_append]
    · intro none
      rw [Body.observed, observedBy_append, insideNot (none first mine),
        laterNot fun child listed => none child (List.mem_cons_of_mem _ listed), List.nil_append]

theorem Ticks.observedBy (acyclic : Acyclic relations depth) (ticks : Ticks) (tick : ℤ) {top : String}
    (follows : ticks.Follows relations top) (complete : ticks.Complete relations top) :
    (∀ ratio, Reach relations top clock ratio →
      ClockSchedule.observedBy clock (ticks.observed top tick) =
        interval (tick * ratio) ((tick + ticks.length) * ratio)) ∧
    ((∀ ratio, ¬ Reach relations top clock ratio) →
      ClockSchedule.observedBy clock (ticks.observed top tick) = []) :=
  match ticks with
  | .finished => ⟨fun ratio _ => by simp [Ticks.observed, Ticks.length, interval_self, ClockSchedule.observedBy],
      fun _ => rfl⟩
  | .tick body later => by
    obtain ⟨here, hereNot⟩ := body.observedBy acyclic tick follows.1 complete.2.1 complete.1.1
    obtain ⟨rest, restNot⟩ := later.observedBy acyclic (tick + 1) follows.2 complete.2.2
    refine ⟨?_, ?_⟩
    · intro ratio reach
      have positive := reach.positive acyclic
      have spread : interval (tick * ratio) ((tick + 1) * ratio) ++
          interval ((tick + 1) * ratio) ((tick + 1 + later.length) * ratio) =
            interval (tick * ratio) ((tick + (Ticks.tick body later).length) * ratio) := by
        rw [interval_append (by nlinarith) (by nlinarith [Int.natCast_nonneg later.length])]
        congr 2
        rw [Ticks.length]
        push_cast
        ring
      rw [Ticks.observed, observedBy_cons, observedBy_append, rest ratio reach, ← spread]
      rcases reach.first with ⟨rfl, rfl⟩ | ⟨child, relation, ratio, known, rfl, below, rfl⟩
      · -- the clock itself: nothing runs below it that it could observe again
        have none : ∀ child ∈ body.children, ∀ more, ¬ Reach relations child clock more := by
          intro child listed more reachChild
          obtain ⟨relation, known, parent⟩ := (complete.1.2 child).mp listed
          rcases reachChild.depth_le acyclic with ⟨same, -⟩ | deeper
          · have loop := acyclic.deeper child relation known
            rw [parent, same] at loop
            omega
          · have above := acyclic.deeper child relation known
            rw [parent] at above
            omega
        simp only [mul_one, if_true, hereNot none, interval_succ]
        rfl
      · have listed := (complete.1.2 child).mpr ⟨relation, known, rfl⟩
        have differ : relation.parent ≠ clock := by
          intro same
          have above := acyclic.deeper child relation known
          rcases below.depth_le acyclic with ⟨rfl, -⟩ | deeper
          · rw [same] at above
            omega
          · rw [same] at above
            omega
        rw [if_neg differ, here child listed relation ratio known below]
    · intro none
      have differ : top ≠ clock := by
        rintro rfl
        exact none 1 .here
      have below : ∀ child ∈ body.children, ∀ more, ¬ Reach relations child clock more := by
        intro child listed more reach
        obtain ⟨relation, known, rfl⟩ := (complete.1.2 child).mp listed
        exact none _ (reach.step known)
      rw [Ticks.observed, observedBy_cons, if_neg differ, observedBy_append, hereNot below, restNot none,
        List.nil_append]

end

end

/-- `declare_relation` for each of a list of descriptors: parent, child, count. -/
def declareAll : List (String × String × ℤ) → Member ClockSchedule Unit
  | [] => pure ()
  | (parent, child, count) :: rest => do
    declareRelation parent child count
    declareAll rest

/-- A primary clock and its declarations. -/
def configure (primary : String) (declarations : List (String × String × ℤ)) : Member ClockSchedule Unit := do
  configurePrimaryClock primary
  declareAll declarations

/-- Every relation has a positive ratio and leads up to the primary clock. -/
structure Accepted (schedule : ClockSchedule) : Prop where
  configured : schedule.primary ≠ ""
  idle : schedule.frames = []
  positive : ∀ child relation, schedule.relations.lookup child = some relation → 0 < relation.count
  reachable : ∀ child relation, schedule.relations.lookup child = some relation →
    ∃ ticks, schedule.ticksPerMacro child = .ok ticks

theorem ticksPerMacroFrom_reach {fuel : ℕ} {visiting : List String} {ticks : ℤ}
    (ran : schedule.ticksPerMacroFrom fuel clock visiting = .ok ticks) :
    Reach schedule.relations schedule.primary clock ticks := by
  induction fuel generalizing clock visiting ticks with
  | zero => cases ran
  | succ fuel ih =>
    simp only [ticksPerMacroFrom, bind_ok, throwIf_ok, unit_exists] at ran
    obtain ⟨-, ran⟩ := ran
    split at ran
    · rename_i root
      cases ran
      rw [root]
      exact .here
    · simp only [bind_ok, throwIf_ok, unit_exists] at ran
      obtain ⟨-, ran⟩ := ran
      split at ran
      · cases ran
      · rename_i relation known
        simp only [bind_ok] at ran
        obtain ⟨above, found, multiplied⟩ := ran
        obtain ⟨-, -, rfl⟩ := checkedMultiply_ok multiplied
        exact .under known (ih found)

theorem ticksPerMacroFrom_mono {larger : ClockSchedule} {fuel more : ℕ} {visiting : List String} {ticks : ℤ}
    (ran : schedule.ticksPerMacroFrom fuel clock visiting = .ok ticks) (primary : larger.primary = schedule.primary)
    (extended : ∀ child relation, schedule.relations.lookup child = some relation → larger.relations.lookup child = some relation)
    (enough : fuel ≤ more) :
    larger.ticksPerMacroFrom more clock visiting = .ok ticks := by
  induction fuel generalizing more clock visiting ticks with
  | zero => cases ran
  | succ fuel ih =>
    obtain ⟨more, rfl⟩ := Nat.exists_eq_add_of_le' (Nat.one_le_of_lt enough)
    simp only [ticksPerMacroFrom, bind_ok, throwIf_ok, unit_exists, primary] at ran ⊢
    refine ⟨ran.1, ?_⟩
    obtain ⟨-, ran⟩ := ran
    split at ran
    · rename_i root
      rwa [if_pos root]
    · rename_i below
      rw [if_neg below]
      simp only [bind_ok, throwIf_ok, unit_exists] at ran ⊢
      refine ⟨ran.1, ?_⟩
      obtain ⟨-, ran⟩ := ran
      split at ran
      · cases ran
      · rename_i relation known
        rw [extended clock relation known]
        simp only [bind_ok] at ran ⊢
        obtain ⟨above, found, multiplied⟩ := ran
        exact ⟨above, ih found (by omega), multiplied⟩

theorem length_le_assign (child : String) (relation : ClockRelation) (relations : List (String × ClockRelation)) :
    relations.length ≤ (assign child relation relations).length := by
  induction relations with
  | nil => exact Nat.zero_le _
  | cons entry rest ih =>
    unfold assign
    split
    · exact le_rfl
    · exact Nat.succ_le_succ ih

namespace Accepted

theorem declareRelation {parent child : String} {count : ℤ} (accepted : schedule.Accepted)
    (ran : ClockSchedule.declareRelation parent child count schedule = (.ok u, after)) : after.Accepted := by
  obtain ⟨-, -, positive, agree, rfl, declared⟩ := declareRelation_ok ran
  have larger : ∀ other relation, schedule.relations.lookup other = some relation →
      (assign child ⟨parent, count⟩ schedule.relations).lookup other = some relation := by
    intro other relation known
    rw [lookup_assign]
    by_cases same : child = other
    · subst same
      rw [if_pos rfl, agree relation known]
    · rwa [if_neg same]
  refine ⟨accepted.configured, accepted.idle, ?_, ?_⟩
  · intro other relation known
    rw [lookup_assign] at known
    split at known
    · cases known
      exact positive
    · exact accepted.positive other relation known
  · intro other relation known
    rw [lookup_assign] at known
    split at known
    · rename_i same
      exact same ▸ declared
    · obtain ⟨ticks, reached⟩ := accepted.reachable other relation known
      have enough : schedule.relations.length + 1 ≤ (assign child ⟨parent, count⟩ schedule.relations).length + 1 :=
        Nat.succ_le_succ (length_le_assign _ _ _)
      refine ⟨ticks, ?_⟩
      unfold ticksPerMacro at reached ⊢
      exact ticksPerMacroFrom_mono reached rfl larger enough

theorem declareAll {declarations : List (String × String × ℤ)} (accepted : schedule.Accepted)
    (ran : ClockSchedule.declareAll declarations schedule = (.ok u, after)) : after.Accepted := by
  induction declarations generalizing schedule with
  | nil =>
    simp only [ClockSchedule.declareAll, Member.pure_ok] at ran
    exact ran.2 ▸ accepted
  | cons declaration rest ih =>
    obtain ⟨parent, child, count⟩ := declaration
    simp only [ClockSchedule.declareAll, Member.bind_ok] at ran
    obtain ⟨_, _, first, later⟩ := ran
    exact ih (accepted.declareRelation first) later

theorem configure {primary : String} {declarations : List (String × String × ℤ)}
    (ran : ClockSchedule.configure primary declarations {} = (.ok u, after)) : after.Accepted := by
  simp only [ClockSchedule.configure, configurePrimaryClock, Member.bind_ok, Member.get_ok, Member.throwIf_ok,
    Member.modify_ok] at ran
  obtain ⟨_, _, ⟨_, _, ⟨rfl, rfl⟩, _, _, ⟨named, rfl⟩, _, _, ⟨-, rfl⟩, rfl⟩, ran⟩ := ran
  exact declareAll ⟨named, rfl, fun _ _ known => (by cases known), fun _ _ known => (by cases known)⟩ ran

/-- How many relations a clock is below the primary one. -/
inductive Level (schedule : ClockSchedule) : String → ℕ → Prop
  | root : Level schedule schedule.primary 0
  | under {child : String} {relation : ClockRelation} {level : ℕ}
      (known : schedule.relations.lookup child = some relation) (above : Level schedule relation.parent level) :
      Level schedule child (level + 1)

theorem Level.unique (root : schedule.relations.lookup schedule.primary = none) {level other : ℕ}
    (first : Level schedule clock level) (second : Level schedule clock other) :
    level = other := by
  induction first generalizing other with
  | root =>
    cases second with
    | root => rfl
    | under known above =>
      rw [root] at known
      cases known
  | under known above ih =>
    cases second with
    | root =>
      rw [root] at known
      cases known
    | under found aboveOther =>
      rw [known] at found
      cases found
      rw [ih aboveOther]

theorem acyclic (accepted : schedule.Accepted) (root : schedule.relations.lookup schedule.primary = none) :
    ∃ depth, Acyclic schedule.relations depth := by
  classical
  have levels : ∀ clock ticks, Reach schedule.relations schedule.primary clock ticks →
      ∃ level, Level schedule clock level := by
    intro clock ticks reach
    induction reach with
    | here => exact ⟨0, .root⟩
    | under known above ih =>
      obtain ⟨level, above⟩ := ih
      exact ⟨level + 1, .under known above⟩
  let depth := fun clock => if known : ∃ level, Level schedule clock level then known.choose else 0
  have depthOf : ∀ clock level, Level schedule clock level → depth clock = level := by
    intro clock level found
    have known : ∃ level, Level schedule clock level := ⟨level, found⟩
    simp only [depth, dif_pos known]
    exact Level.unique root known.choose_spec found
  refine ⟨depth, ?_, accepted.positive⟩
  intro child relation known
  obtain ⟨ticks, reached⟩ := accepted.reachable child relation known
  obtain ⟨level, found⟩ := levels child ticks (ticksPerMacroFrom_reach reached)
  cases found with
  | root =>
    rw [root] at known
    cases known
  | under other above =>
    rw [known] at other
    cases other
    rw [depthOf _ _ (.under known above), depthOf _ _ above]

end Accepted

/-- Every macro step leaves the schedule as it was, and counts a child through
its ticks of that step. -/
theorem runSteps_ok {depth : String → ℕ} (acyclic : Acyclic schedule.relations depth) (idle : schedule.frames = [])
    {bodies : List Body} {observed : List (String × ℤ)}
    (complete : ∀ body ∈ bodies, body.OnceEach schedule.relations schedule.primary ∧ body.Complete schedule.relations)
    (ran : runSteps macroStep bodies schedule = (.ok observed, after)) :
    after = schedule ∧ ∀ clock ticks, clock ≠ schedule.primary →
      Reach schedule.relations schedule.primary clock ticks →
        observedBy clock observed = interval (macroStep * ticks) ((macroStep + bodies.length) * ticks) := by
  induction bodies generalizing macroStep observed with
  | nil =>
    simp only [runSteps, Member.pure_ok] at ran
    obtain ⟨rfl, rfl⟩ := ran
    refine ⟨rfl, fun clock ticks _ _ => ?_⟩
    simp [observedBy, interval_self]
  | cons body later ih =>
    simp only [runSteps, Member.bind_ok, Member.get_ok, Member.pure_ok] at ran
    obtain ⟨_, _, ⟨rfl, rfl⟩, first, _, running, rest, _, resting, rfl, rfl⟩ := ran
    obtain ⟨once, below⟩ := complete body (by simp)
    have here : At schedule macroStep schedule.primary macroStep := by
      simp [At, cursor, idle, pure, Except.pure]
    have declared : ∀ child ∈ body.children, ∃ relation, schedule.relations.lookup child = some relation :=
      fun child listed => ((once.2 child).mp listed).imp fun _ found => found.1
    obtain ⟨rfl, rfl, follows⟩ := body.run_ok rfl declared below here running
    obtain ⟨rfl, counted⟩ := ih (fun other listed => complete other (by simp [listed])) resting
    refine ⟨rfl, fun clock ticks child reach => ?_⟩
    have positive := reach.positive acyclic
    rcases reach.first with ⟨same, -⟩ | ⟨top, relation, ratio, known, parent, reachTop, rfl⟩
    · exact absurd same child
    · have listed := (once.2 top).mpr ⟨relation, known, parent⟩
      have counts := (body.observedBy acyclic macroStep follows below once.1).1 top listed relation ratio known
        reachTop
      rw [observedBy_append, counts, counted clock _ child reach, interval_append (by nlinarith) (by nlinarith [Int.natCast_nonneg later.length])]
      congr 2
      push_cast [List.length_cons]
      ring

theorem checkedMultiply_of_le {a b : ℤ} (nonnegative : 0 ≤ a) (positive : 0 < b) (fits : a * b ≤ int64Max) :
    checkedMultiply a b = .ok (a * b) := by
  simp only [checkedMultiply, bind_ok, throwIf_ok, unit_exists, pure_ok, not_or, not_and, not_lt, not_le, and_true]
  refine ⟨nonnegative, positive, fun nonzero => ?_⟩
  rw [Int.le_ediv_iff_mul_le (lt_of_le_of_ne nonnegative (Ne.symm nonzero)), mul_comm]
  exact fits

theorem acceptedTicks_ok {reported : List (String × ℤ)} (ran : schedule.acceptedTicks macroStep = .ok reported)
    {ticks : ℤ} (counted : schedule.ticksPerMacro clock = .ok ticks) :
    (clock = schedule.primary ∨ clock ∈ schedule.relations.map Prod.fst → (clock, macroStep * ticks) ∈ reported) ∧
      ∀ count, (clock, count) ∈ reported → count = macroStep * ticks := by
  simp only [acceptedTicks, bind_ok, throwIf_ok, unit_exists] at ran
  obtain ⟨-, ran⟩ := ran
  have entry : ∀ other result, (do
      let ticks ← schedule.ticksPerMacro other
      let accepted ← checkedMultiply macroStep ticks
      return (other, accepted) : Checked (String × ℤ)) = .ok result →
      ∃ found, schedule.ticksPerMacro other = .ok found ∧ result = (other, macroStep * found) := by
    intro other result returned
    simp only [bind_ok, pure_ok] at returned
    obtain ⟨found, reached, product, multiplied, rfl⟩ := returned
    exact ⟨found, reached, by rw [(checkedMultiply_ok multiplied).2.2]⟩
  refine ⟨?_, ?_⟩
  · intro listed
    obtain ⟨result, member, returned⟩ := exists_of_mapM_ok ran (List.mem_cons.mpr listed)
    obtain ⟨found, reached, rfl⟩ := entry _ _ returned
    rw [counted] at reached
    cases reached
    exact member
  · intro count member
    obtain ⟨other, -, returned⟩ := mem_of_mapM_ok ran member
    obtain ⟨found, reached, same⟩ := entry _ _ returned
    cases same
    rw [counted] at reached
    cases reached
    rfl

theorem lookup_of_mem
    (listed : clock ∈ relations.map Prod.fst) : ∃ relation, relations.lookup clock = some relation := by
  induction relations with
  | nil => cases listed
  | cons entry rest ih =>
    obtain ⟨key, value⟩ := entry
    rw [lookup_cons_ite]
    by_cases same : key = clock
    · exact ⟨value, if_pos same⟩
    · rw [if_neg same]
      exact ih ((List.mem_cons.mp listed).resolve_left (Ne.symm same))

theorem ticksPerMacro_primary (configured : schedule.primary ≠ "") :
    schedule.ticksPerMacro schedule.primary = .ok 1 := by
  simp [ticksPerMacro, ticksPerMacroFrom, throwIf, configured]

theorem acceptedTicks_returns {depth : String → ℕ} (accepted : schedule.Accepted)
    (acyclic : Acyclic schedule.relations depth) (nonnegative : 0 ≤ macroStep)
    (fits : ∀ clock ticks, schedule.ticksPerMacro clock = .ok ticks → macroStep * ticks ≤ int64Max) :
    ∃ reported, schedule.acceptedTicks macroStep = .ok reported := by
  have each : ∀ clock ∈ schedule.primary :: schedule.relations.map Prod.fst, ∃ result, (do
      let ticks ← schedule.ticksPerMacro clock
      let accepted ← checkedMultiply macroStep ticks
      return (clock, accepted) : Checked (String × ℤ)) = .ok result := by
    intro clock listed
    have counted : ∃ ticks, schedule.ticksPerMacro clock = .ok ticks := by
      rcases List.mem_cons.mp listed with rfl | child
      · exact ⟨1, ticksPerMacro_primary accepted.configured⟩
      · obtain ⟨relation, known⟩ := lookup_of_mem child
        exact accepted.reachable clock relation known
    obtain ⟨ticks, counted⟩ := counted
    have positive := (ticksPerMacroFrom_reach counted).positive acyclic
    refine ⟨(clock, macroStep * ticks), ?_⟩
    rw [counted, ok_bind, checkedMultiply_of_le nonnegative positive (fits clock ticks counted)]
    rfl
  obtain ⟨reported, ran⟩ := exists_mapM_ok each
  refine ⟨reported, ?_⟩
  rw [acceptedTicks, throwIf_of_not accepted.configured, ok_bind, ran]

/-- In a run of macro steps that subcycles every child once in every tick of its
parent, each child counts through all its ticks, and `accepted_ticks` reports
how many there were. -/
theorem clocks_count_through {primary : String} {declarations : List (String × String × ℤ)}
    (configured : configure primary declarations {} = (.ok (), schedule))
    (root : schedule.relations.lookup schedule.primary = none) {bodies : List Body}
    (complete : ∀ body ∈ bodies, body.OnceEach schedule.relations schedule.primary ∧
      body.Complete schedule.relations) {observed : List (String × ℤ)}
    (ran : runSteps 0 bodies schedule = (.ok observed, after)) :
    (∀ clock relation, schedule.relations.lookup clock = some relation →
      ∃ ticks, schedule.ticksPerMacro clock = .ok ticks ∧ Reach schedule.relations schedule.primary clock ticks ∧
        observedBy clock observed = interval 0 (bodies.length * ticks)) ∧
    (∀ reported, after.acceptedTicks bodies.length = .ok reported → ∀ clock ticks,
      after.ticksPerMacro clock = .ok ticks →
        (clock = after.primary ∨ clock ∈ after.relations.map Prod.fst → (clock, bodies.length * ticks) ∈ reported) ∧
        ∀ count, (clock, count) ∈ reported → count = bodies.length * ticks) ∧
    ((∀ clock ticks, after.ticksPerMacro clock = .ok ticks → bodies.length * ticks ≤ int64Max) →
      ∃ reported, after.acceptedTicks bodies.length = .ok reported) := by
  have accepted := Accepted.configure configured
  obtain ⟨depth, acyclic⟩ := accepted.acyclic root
  obtain ⟨rfl, counts⟩ := runSteps_ok acyclic accepted.idle complete ran
  refine ⟨?_, fun reported returned clock ticks counted => acceptedTicks_ok returned counted,
    acceptedTicks_returns accepted acyclic (Int.natCast_nonneg _)⟩
  intro clock relation known
  obtain ⟨ticks, counted⟩ := accepted.reachable clock relation known
  have reach := ticksPerMacroFrom_reach counted
  have child : clock ≠ after.primary := by
    rintro rfl
    rw [root] at known
    cases known
  refine ⟨ticks, counted, reach, ?_⟩
  have through := counts clock ticks child reach
  rwa [zero_mul, zero_add] at through

/-! A parent `p` with a child `c` of two ticks. -/

def twoTicks : Ticks := .tick .done (.tick .done .finished)

def twoTickSchedule : ClockSchedule := { primary := "p", relations := [("c", ⟨"p", 2⟩)] }

theorem twoTickSchedule_configured : configure "p" [("p", "c", 2)] {} = (.ok (), twoTickSchedule) := by
  decide +kernel

/-- Two macro steps, each with the subcycle of the child once. -/
theorem clocks_count_through_two :
    observedBy "c" [("c", 0), ("c", 1), ("c", 2), ("c", 3)] = interval 0 4 ∧
      twoTickSchedule.ticksPerMacro "c" = .ok 2 := by
  have complete : ∀ body ∈ [Body.subcycle "c" 2 twoTicks .done, .subcycle "c" 2 twoTicks .done],
      body.OnceEach twoTickSchedule.relations twoTickSchedule.primary ∧
        body.Complete twoTickSchedule.relations := by
    have children (child clock : String) : (∃ relation, twoTickSchedule.relations.lookup child = some relation ∧
        relation.parent = clock) ↔ child = "c" ∧ clock = "p" := by
      simp only [twoTickSchedule, lookup_cons_ite, List.lookup_nil]
      by_cases same : "c" = child
      · simp [same, eq_comm]
      · simp [same, Ne.symm same]
    have leaf : Body.done.OnceEach twoTickSchedule.relations "c" :=
      ⟨List.nodup_nil, fun child => by simp [Body.children, children]⟩
    have whole : (Body.subcycle "c" 2 twoTicks .done).OnceEach twoTickSchedule.relations "p" :=
      ⟨List.nodup_singleton _, fun child => by simp [Body.children, children]⟩
    intro body listed
    have same : body = .subcycle "c" 2 twoTicks .done := by simpa using listed
    rw [same]
    exact ⟨whole, ⟨leaf, trivial, leaf, trivial, trivial⟩, trivial⟩
  have ran : runSteps 0 [Body.subcycle "c" 2 twoTicks .done, .subcycle "c" 2 twoTicks .done] twoTickSchedule =
      (.ok [("c", 0), ("c", 1), ("c", 2), ("c", 3)], twoTickSchedule) := by
    decide +kernel
  obtain ⟨counts, -, -⟩ := clocks_count_through twoTickSchedule_configured rfl complete ran
  obtain ⟨ticks, counted, -, through⟩ := counts "c" ⟨"p", 2⟩ rfl
  have two : twoTickSchedule.ticksPerMacro "c" = .ok 2 := by decide +kernel
  rw [two] at counted
  cases counted
  exact ⟨through, two⟩

/-- The code accepts a run that subcycles a child twice in one tick, and
relations that lead from the primary clock back to it. -/
theorem clocks_repeat :
    runSteps 0 [.subcycle "c" 2 twoTicks (.subcycle "c" 2 twoTicks .done)] twoTickSchedule =
      (.ok [("c", 0), ("c", 1), ("c", 0), ("c", 1)], twoTickSchedule) ∧
    (configure "p" [("p", "c", 2), ("c", "p", 3)] {}).1 = .ok () := by
  decide +kernel

end Pops.ClockSchedule
