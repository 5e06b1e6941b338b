import Pops.ClockScheduleProofs

/-!
What a refused clock relation leaves behind. `declare_relation` stores the
relation before it counts the ticks that validate it, so a relation that is new
and refused stays in the map; every other refusal leaves the schedule alone.
-/
namespace Pops.ClockSchedule

/-- A request that changes the relations of a schedule. -/
inductive Request where
  | declare (parent child : String) (count : ℤ)
  | subcycle (parent child : String) (count : ℤ)

/-- A request, without the depth that a subcycle returns. -/
def Request.run : Request → Member ClockSchedule Unit
  | declare parent child count => declareRelation parent child count
  | subcycle parent child count => do
    let _depth ← beginSubcycle parent child count

/-- A descriptor that neither call looks up. -/
def Malformed (parent child : String) (count : ℤ) : Prop :=
  parent = "" ∨ child = "" ∨ parent = child ∨ count ≤ 0

/-- The schedule with one more relation. -/
def related (schedule : ClockSchedule) (parent child : String) (count : ℤ) : ClockSchedule :=
  { schedule with relations := assign child ⟨parent, count⟩ schedule.relations }

/-- With the relation added, the relations lead from the child to the primary
clock: every ancestor is declared, none twice, and their ratios multiply
without overflow. -/
def Connected (schedule : ClockSchedule) (parent child : String) (count : ℤ) : Prop :=
  ∃ ticks, (schedule.related parent child count).ticksPerMacro child = .ok ticks

/-- The requests whose refusal leaves nothing behind. -/
def Request.Clean (schedule : ClockSchedule) : Request → Prop
  | declare parent child count =>
    Malformed parent child count ∨ (∃ known, schedule.relations.lookup child = some known) ∨
      schedule.Connected parent child count
  | subcycle parent child count =>
    Malformed parent child count ∨ (∃ known, schedule.relations.lookup child = some known) ∨
      (schedule.Connected parent child count ∧ schedule.active = parent)

instance (parent child : String) (count : ℤ) : Decidable (Malformed parent child count) :=
  inferInstanceAs (Decidable (_ ∨ _))

variable {schedule : ClockSchedule} {parent child : String} {count : ℤ}

section
variable {σ α β : Type} {object : σ} {next : Unit → Member σ β} {exception : Exception}

private theorem throwIf_throws {condition : Prop} [Decidable condition] (holds : condition) :
    (Member.throwIf condition exception >>= next) object = (.error exception, object) := by
  have thrown : throwIf condition exception = .error exception := if_pos holds
  simp only [Member.throwIf, thrown]
  rfl

private theorem throwIf_passes {condition : Prop} [Decidable condition] (fails : ¬ condition) :
    (Member.throwIf condition exception >>= next) object = next () object := by
  simp only [Member.throwIf, throwIf_of_not fails]
  rfl

private theorem bind_throws {call : Member σ α} {next : α → Member σ β} {left : σ}
    (thrown : call object = (.error exception, left)) : (call >>= next) object = (.error exception, left) := by
  simp only [bind, thrown]

private theorem bind_returns {call : Member σ α} {next : α → Member σ β} {value : α} {changed : σ}
    (returned : call object = (.ok value, changed)) : (call >>= next) object = next value changed := by
  simp only [bind, returned]

end

theorem declareRelation_malformed (malformed : Malformed parent child count) :
    declareRelation parent child count schedule =
      (.error (.runtimeError "invalid logical-clock subcycle descriptor"), schedule) :=
  throwIf_throws malformed

theorem declareRelation_conflict (wellFormed : ¬ Malformed parent child count)
    (conflict : ∃ known ∈ schedule.relations.lookup child, known.parent ≠ parent ∨ known.count ≠ count) :
    declareRelation parent child count schedule =
      (.error (.runtimeError "logical child clock has conflicting parent/count declarations"), schedule) :=
  (throwIf_passes wellFormed).trans (throwIf_throws conflict)

/-- A relation that passes the guards is stored, whether or not its ticks can
be counted. -/
theorem declareRelation_stored (wellFormed : ¬ Malformed parent child count)
    (agrees : ¬ ∃ known ∈ schedule.relations.lookup child, known.parent ≠ parent ∨ known.count ≠ count) :
    declareRelation parent child count schedule =
      (((schedule.related parent child count).ticksPerMacro child).map fun _ => (),
        schedule.related parent child count) := by
  have stored : declareRelation parent child count schedule =
      (Member.lift ((schedule.related parent child count).ticksPerMacro child) >>= fun _ => pure ())
        (schedule.related parent child count) :=
    (throwIf_passes wellFormed).trans (throwIf_passes agrees)
  rw [stored]
  cases counted : (schedule.related parent child count).ticksPerMacro child <;> rfl

theorem related_ne (new : schedule.relations.lookup child = none) : schedule.related parent child count ≠ schedule := by
  intro same
  have looked : (schedule.related parent child count).relations.lookup child = some ⟨parent, count⟩ := by
    rw [related, lookup_assign, if_pos rfl]
  rw [same, new] at looked
  cases looked

theorem related_eq {known : ClockRelation} (there : schedule.relations.lookup child = some known)
    (agrees : ¬ ∃ known ∈ schedule.relations.lookup child, known.parent ≠ parent ∨ known.count ≠ count) :
    schedule.related parent child count = schedule := by
  have same : ¬ (known.parent ≠ parent ∨ known.count ≠ count) := fun differ => agrees ⟨known, there, differ⟩
  rw [not_or, not_not, not_not] at same
  obtain ⟨rfl, rfl⟩ := same
  rw [related, assign_lookup there]

/-- What one declaration does: it is refused at a guard, it finds its relation
already there, or it stores a new one before the ticks are counted. -/
inductive Declared (schedule : ClockSchedule) (parent child : String) (count : ℤ) : Prop where
  | malformed (malformed : Malformed parent child count)
  | known (wellFormed : ¬ Malformed parent child count)
      (there : ∃ known, schedule.relations.lookup child = some known) (outcome : Checked Unit)
      (kept : declareRelation parent child count schedule = (outcome, schedule))
  | stored (wellFormed : ¬ Malformed parent child count) (new : schedule.relations.lookup child = none)
      (stored : declareRelation parent child count schedule =
        (((schedule.related parent child count).ticksPerMacro child).map fun _ => (),
          schedule.related parent child count))

theorem declareRelation_cases (schedule : ClockSchedule) (parent child : String) (count : ℤ) :
    Declared schedule parent child count := by
  by_cases wellFormed : Malformed parent child count
  · exact .malformed wellFormed
  cases found : schedule.relations.lookup child with
  | none =>
    refine .stored wellFormed found (declareRelation_stored wellFormed ?_)
    rintro ⟨known, there, -⟩
    rw [found] at there
    cases there
  | some known =>
    by_cases conflict : ∃ known ∈ schedule.relations.lookup child, known.parent ≠ parent ∨ known.count ≠ count
    · exact .known wellFormed ⟨known, found⟩ _ (declareRelation_conflict wellFormed conflict)
    · have stored := declareRelation_stored wellFormed conflict
      rw [related_eq found conflict] at stored
      exact .known wellFormed ⟨known, found⟩ _ stored

theorem subcycle_malformed (malformed : Malformed parent child count) :
    (Request.subcycle parent child count).run schedule =
      (.error (.runtimeError "invalid logical-clock subcycle descriptor"), schedule) :=
  bind_throws (throwIf_throws malformed)

theorem subcycle_undeclared {exception : Exception} {left : ClockSchedule} (wellFormed : ¬ Malformed parent child count)
    (thrown : declareRelation parent child count schedule = (.error exception, left)) :
    (Request.subcycle parent child count).run schedule = (.error exception, left) :=
  bind_throws ((throwIf_passes wellFormed).trans (bind_throws thrown))

theorem subcycle_declared {declared : ClockSchedule} (wellFormed : ¬ Malformed parent child count)
    (returned : declareRelation parent child count schedule = (.ok (), declared)) :
    (Request.subcycle parent child count).run schedule =
      if declared.active = parent then
        (.ok (), { declared with frames := declared.frames ++ [⟨parent, child, count, 0⟩] })
      else (.error (.runtimeError "nested logical-clock subcycle parent does not match the active child clock"),
        declared) := by
  have opened : beginSubcycle parent child count schedule =
      (Member.throwIf (declared.active ≠ parent)
          (.runtimeError "nested logical-clock subcycle parent does not match the active child clock") >>= fun _ =>
        (Member.modify fun schedule : ClockSchedule =>
          { schedule with frames := schedule.frames ++ [⟨parent, child, count, 0⟩] }) >>= fun _ =>
        pure declared.frames.length) declared :=
    (throwIf_passes wellFormed).trans (bind_returns returned)
  split
  · rename_i active
    exact bind_returns (opened.trans (throwIf_passes (not_not.mpr active)))
  · rename_i inactive
    exact bind_throws (opened.trans (throwIf_throws inactive))

theorem safe_of_eq {call : Member ClockSchedule Unit} {outcome : Checked Unit} (kept : call schedule = (outcome, schedule)) :
    call.Safe schedule := by
  intro exception _
  rw [kept]

theorem not_safe {call : Member ClockSchedule Unit} {exception : Exception} {left : ClockSchedule}
    (thrown : call schedule = (.error exception, left)) (changed : left ≠ schedule) : ¬ call.Safe schedule := by
  intro safe
  have kept := safe exception
  rw [thrown] at kept
  exact changed (kept rfl)

theorem related_active (schedule : ClockSchedule) (parent child : String) (count : ℤ) :
    (schedule.related parent child count).active = schedule.active := rfl

/-- A declaration is refused without a trace exactly when it is malformed, its
child has a relation already, or the new relation is accepted. -/
theorem declare_safe_iff :
    (Request.declare parent child count).run.Safe schedule ↔
      (Request.declare parent child count).Clean schedule := by
  have run : (Request.declare parent child count).run = declareRelation parent child count := rfl
  rw [run, Request.Clean]
  cases declareRelation_cases schedule parent child count with
  | malformed malformed => exact iff_of_true (safe_of_eq (declareRelation_malformed malformed)) (.inl malformed)
  | known wellFormed there outcome kept => exact iff_of_true (safe_of_eq kept) (.inr (.inl there))
  | stored wellFormed new stored =>
    cases counted : (schedule.related parent child count).ticksPerMacro child with
    | error exception =>
      rw [counted] at stored
      refine iff_of_false (not_safe stored (related_ne new)) ?_
      rintro (malformed | ⟨known, there⟩ | ⟨ticks, connected⟩)
      · exact wellFormed malformed
      · rw [new] at there
        cases there
      · rw [counted] at connected
        cases connected
    | ok ticks =>
      rw [counted] at stored
      exact iff_of_true (.returns (congrArg Prod.fst stored)) (.inr (.inr ⟨ticks, counted⟩))

theorem subcycle_safe_iff :
    (Request.subcycle parent child count).run.Safe schedule ↔
      (Request.subcycle parent child count).Clean schedule := by
  rw [Request.Clean]
  cases declareRelation_cases schedule parent child count with
  | malformed malformed => exact iff_of_true (safe_of_eq (subcycle_malformed malformed)) (.inl malformed)
  | known wellFormed there outcome kept =>
    refine iff_of_true ?_ (.inr (.inl there))
    cases outcome with
    | error exception => exact safe_of_eq (subcycle_undeclared wellFormed kept)
    | ok u =>
      have opened := subcycle_declared wellFormed kept
      by_cases active : schedule.active = parent
      · rw [if_pos active] at opened
        exact .returns (congrArg Prod.fst opened)
      · rw [if_neg active] at opened
        exact safe_of_eq opened
  | stored wellFormed new stored =>
    have newly : ¬ ∃ known, schedule.relations.lookup child = some known := by
      rintro ⟨known, there⟩
      rw [new] at there
      cases there
    cases counted : (schedule.related parent child count).ticksPerMacro child with
    | error exception =>
      rw [counted] at stored
      refine iff_of_false (not_safe (subcycle_undeclared wellFormed stored) (related_ne new)) ?_
      rintro (malformed | there | ⟨⟨ticks, connected⟩, -⟩)
      · exact wellFormed malformed
      · exact newly there
      · rw [counted] at connected
        cases connected
    | ok ticks =>
      rw [counted] at stored
      have opened := subcycle_declared wellFormed stored
      rw [related_active] at opened
      by_cases active : schedule.active = parent
      · rw [if_pos active] at opened
        exact iff_of_true (.returns (congrArg Prod.fst opened)) (.inr (.inr ⟨⟨ticks, counted⟩, active⟩))
      · rw [if_neg active] at opened
        refine iff_of_false (not_safe opened (related_ne new)) ?_
        rintro (malformed | there | ⟨-, same⟩)
        · exact wellFormed malformed
        · exact newly there
        · exact active same

/-- A request is refused without a trace exactly when it is clean. -/
theorem refused_without_trace_iff (schedule : ClockSchedule) (request : Request) :
    request.run.Safe schedule ↔ request.Clean schedule := by
  cases request with
  | declare parent child count => exact declare_safe_iff
  | subcycle parent child count => exact subcycle_safe_iff

/-- A child of a clock that nobody declared is refused, and stays: the right
declaration of the child is refused from then on, and no tick can be read. -/
theorem orphan_remains :
    let schedule : ClockSchedule := { primary := "p" }
    let orphaned := (Request.declare "q" "c" 2).run schedule
    ¬ (Request.declare "q" "c" 2).run.Safe schedule ∧
      orphaned.1 = .error (.runtimeError "logical clock is absent from the installed relation graph") ∧
      orphaned.2 ≠ schedule ∧
      (declareRelation "p" "c" 2 schedule).1 = .ok () ∧
      (declareRelation "p" "c" 2 orphaned.2).1 =
        .error (.runtimeError "logical child clock has conflicting parent/count declarations") ∧
      schedule.acceptedTicks 1 = .ok [("p", 1)] ∧
      orphaned.2.acceptedTicks 1 =
        .error (.runtimeError "logical clock is absent from the installed relation graph") := by
  intro schedule orphaned
  have refused : orphaned =
      (.error (.runtimeError "logical clock is absent from the installed relation graph"),
        { primary := "p", relations := [("c", ⟨"q", 2⟩)] }) := by
    decide +kernel
  have changed : { primary := "p", relations := [("c", ⟨"q", 2⟩)] } ≠ schedule := by
    decide +kernel
  rw [refused]
  exact ⟨not_safe refused changed, rfl, changed, by decide +kernel⟩

end Pops.ClockSchedule
