import Pops.BoundaryRegionProofs

/-!
The fill of a patch in one pass: it writes every ghost that physical laws own once its source, which it
does not write, and the result is that of the sequential fill.
-/
namespace Pops.PhysicalBoundary

variable {d : ℕ} {K : Type} [Field K] [LinearOrder K]

/-- A ghost that physical laws own, none of them external. -/
structure Written (prepared : PreparedPhysicalBoundary d K) (cell : Index d) : Prop where
  crosses : ∃ axis, Crosses prepared cell axis
  native : ∀ axis, Crosses prepared cell axis → ((lawsOf prepared axis).law (cell axis)).kind ≠ .external

/-- The value that a ghost is given. -/
def target (prepared : PreparedPhysicalBoundary d K) (values : Values d K) (cell : Index d) (component : ℤ) : K :=
  (composed prepared cell).scale * values (composed prepared cell).source component + (composed prepared cell).offset

/-- Where a pass stands that has written some ghosts. -/
structure Progress (prepared : PreparedPhysicalBoundary d K) (first count : ℤ) (values current : Values d K)
    (done : Index d → Prop) : Prop where
  written : ∀ cell, done cell → Written prepared cell
  filled : ∀ cell component, done cell → first ≤ component → component < first + count →
    current cell component = target prepared values cell component
  kept : ∀ cell component, ¬ (done cell ∧ first ≤ component ∧ component < first + count) →
    current cell component = values cell component

variable {prepared : PreparedPhysicalBoundary d K} {cell : Index d}

theorem foldl_advance_source {axes : List (Fin d)} (distinct : axes.Nodup) (start : Composed d K) (axis : Fin d) :
    (axes.foldl (advance prepared cell) start).source axis =
      if axis ∈ axes ∧ Crosses prepared cell axis then ((lawsOf prepared axis).sampleAxis (cell axis)).source
      else start.source axis := by
  induction axes generalizing start with
  | nil => rw [List.foldl_nil, if_neg fun both => by cases both.1]
  | cons head axes ih =>
    obtain ⟨fresh, rest⟩ := List.nodup_cons.mp distinct
    rw [List.foldl_cons, ih rest]
    by_cases later : axis ∈ axes ∧ Crosses prepared cell axis
    · rw [if_pos later, if_pos ⟨List.mem_cons_of_mem _ later.1, later.2⟩]
    rw [if_neg later, advance]
    by_cases same : axis = head
    · subst same
      by_cases crosses : Crosses prepared cell axis
      · rw [if_pos crosses, if_pos ⟨List.mem_cons_self, crosses⟩, sampleStep]
        exact Function.update_self ..
      · rw [if_neg crosses, if_neg fun both => crosses both.2]
    · have absent : ¬ (axis ∈ head :: axes ∧ Crosses prepared cell axis) := by
        rintro ⟨listed, crosses⟩
        rcases List.mem_cons.mp listed with found | deeper
        · exact same found
        · exact later ⟨deeper, crosses⟩
      rw [if_neg absent]
      split
      · exact Function.update_of_ne same ..
      · rfl

theorem composed_source (axis : Fin d) : (composed prepared cell).source axis =
    if Crosses prepared cell axis then ((lawsOf prepared axis).sampleAxis (cell axis)).source else cell axis := by
  rw [composed, foldl_advance_source (List.nodup_finRange d)]
  simp [List.mem_finRange]

theorem source_valid (ordered : ∀ axis, prepared.domain.lo axis ≤ prepared.domain.hi axis) (axis : Fin d) :
    ¬ Crosses prepared (composed prepared cell).source axis := by
  intro crosses
  unfold Crosses at crosses
  rw [composed_source] at crosses
  by_cases crossed : Crosses prepared cell axis
  · rw [if_pos crossed] at crosses
    exact crosses.2 ((lawsOf prepared axis).sampleAxis_near (ordered axis) crossed.2).1
  · rw [if_neg crossed] at crosses
    exact crossed crosses

theorem source_grown {patch : Box d} (ordered : ∀ axis, prepared.domain.lo axis ≤ prepared.domain.hi axis)
    (inside : prepared.domain.ContainsBox patch) (listed : cell ∈ (grown patch prepared.ghosts).cells) :
    (composed prepared cell).source ∈ (grown patch prepared.ghosts).cells := by
  refine Box.mem_cells.mpr fun axis => ?_
  have here := Box.mem_cells.mp listed axis
  rw [composed_source]
  by_cases crossed : Crosses prepared cell axis
  · rw [if_pos crossed]
    obtain ⟨reached, low, high⟩ := (lawsOf prepared axis).sampleAxis_near (ordered axis) crossed.2
    have within := inside.2 axis
    have patchOrdered := Box.not_empty_iff.mp inside.1 axis
    have outside := crossed.2
    unfold AxisLaws.Inside lawsOf axisLaws at reached
    unfold AxisLaws.mirror at low high
    unfold lawsOf axisLaws at low high
    dsimp only [grown] at here reached low high ⊢
    by_cases below : cell axis < prepared.domain.lo axis
    · have near := low below
      rw [if_pos below] at near
      unfold lawsOf axisLaws
      omega
    · have near := high (by omega)
      rw [if_neg below] at near
      unfold lawsOf axisLaws
      omega
  · rw [if_neg crossed]
    exact here

section Region
variable {plan : BoundaryRegionPlan d} {slice : Fin d → AxisSlice d}

/-- A region of the schedule, by its slices. -/
structure Region (prepared : PreparedPhysicalBoundary d K) (plan : BoundaryRegionPlan d) (slice : Fin d → AxisSlice d) :
    Prop where
  sound : ∀ axis, SliceSound prepared.domain prepared.conditions.topology axis (slice axis)
  destination : plan.destination = ⟨fun axis => (slice axis).lower, fun axis => (slice axis).upper⟩
  operations : plan.operations = (List.finRange d).filterMap fun axis => (slice axis).operation

theorem Region.crossing (region : Region prepared plan slice) (listed : cell ∈ plan.destination.cells) (axis : Fin d) :
    (∃ operation, (slice axis).operation = some operation ∧ operation.kind = .physical) ↔ Crosses prepared cell axis := by
  rw [region.destination] at listed
  have within := Box.mem_cells.mp listed axis
  exact (region.sound axis).crossing (cell axis) within.1 within.2

theorem Region.compose (region : Region prepared plan slice) (listed : cell ∈ plan.destination.cells) :
    compose prepared plan cell = composed prepared cell := by
  rw [PhysicalBoundary.compose, composed, region.operations, List.foldl_filterMap]
  refine List.foldl_ext _ _ _ fun reached axis _ => ?_
  have crossing := region.crossing listed axis
  cases found : (slice axis).operation with
  | none =>
    rw [advance, if_neg]
    intro crosses
    obtain ⟨operation, some, -⟩ := crossing.mpr crosses
    rw [found] at some
    cases some
  | some operation =>
    dsimp only
    by_cases physical : operation.kind = .physical
    · rw [if_pos physical, advance, if_pos (crossing.mp ⟨operation, found, physical⟩),
        (region.sound axis).faced operation found]
    · rw [if_neg physical, advance, if_neg]
      intro crosses
      obtain ⟨other, some, kind⟩ := crossing.mpr crosses
      rw [found] at some
      cases some
      exact physical kind

theorem Region.mem_operations (region : Region prepared plan slice) {operation : BoundaryOperation d} :
    operation ∈ plan.operations ↔ ∃ axis, (slice axis).operation = some operation := by
  rw [region.operations, List.mem_filterMap]
  exact ⟨fun ⟨axis, _, found⟩ => ⟨axis, found⟩, fun ⟨axis, found⟩ => ⟨axis, List.mem_finRange axis, found⟩⟩

theorem Region.written_iff (region : Region prepared plan slice) (listed : cell ∈ plan.destination.cells) :
    ¬ (¬ HasPhysical plan ∨ ExternallyOwned prepared plan) ↔ Written prepared cell := by
  have law : ∀ axis operation, (slice axis).operation = some operation → operation.kind = .physical →
      (lawsOf prepared axis).law (cell axis) = prepared.conditions.faces operation.face := by
    intro axis operation found physical
    rw [region.destination] at listed
    have within := Box.mem_cells.mp listed axis
    have side := (region.sound axis).side operation found physical (cell axis) within.1 within.2
    have faced := (region.sound axis).faced operation found
    obtain ⟨⟨faceAxis, faceSide⟩, kind, shift⟩ := operation
    dsimp only at faced side ⊢
    subst faced
    rw [side]
    unfold AxisLaws.law lawsOf axisLaws
    dsimp only
    split <;> rfl
  rw [not_or, not_not]
  constructor
  · rintro ⟨⟨operation, inside, physical⟩, owned⟩
    obtain ⟨axis, found⟩ := region.mem_operations.mp inside
    refine ⟨⟨axis, (region.crossing listed axis).mp ⟨operation, found, physical⟩⟩, fun other crosses external => ?_⟩
    obtain ⟨crossed, crossedFound, crossedKind⟩ := (region.crossing listed other).mpr crosses
    refine owned ⟨crossed, region.mem_operations.mpr ⟨other, crossedFound⟩, crossedKind, ?_⟩
    rw [← law other crossed crossedFound crossedKind]
    exact external
  · rintro ⟨⟨axis, crosses⟩, native⟩
    constructor
    · obtain ⟨operation, found, physical⟩ := (region.crossing listed axis).mpr crosses
      exact ⟨operation, region.mem_operations.mpr ⟨axis, found⟩, physical⟩
    · rintro ⟨operation, inside, physical, external⟩
      obtain ⟨other, found⟩ := region.mem_operations.mp inside
      refine native other ((region.crossing listed other).mp ⟨operation, found, physical⟩) ?_
      rw [law other operation found physical]
      exact external

end Region

section Pass
variable {first count : ℤ} {values current : Values d K} {done : Index d → Prop}

theorem Progress.write (progress : Progress prepared first count values current done)
    (ordered : ∀ axis, prepared.domain.lo axis ≤ prepared.domain.hi axis) (written : Written prepared cell)
    {plan : BoundaryRegionPlan d} (agrees : compose prepared plan cell = composed prepared cell) :
    Progress prepared first count values (applyPhysicalRegion prepared plan first count current cell)
      (fun other => done other ∨ other = cell) := by
  have unread : ¬ done (composed prepared cell).source := by
    intro finished
    obtain ⟨axis, crosses⟩ := (progress.written _ finished).crosses
    exact source_valid ordered axis crosses
  unfold applyPhysicalRegion
  rw [agrees]
  dsimp only
  refine ⟨fun other either => ?_, fun other component either low high => ?_, fun other component neither => ?_⟩
  · rcases either with before | rfl
    · exact progress.written other before
    · exact written
  · by_cases same : other = cell
    · subst same
      rw [Function.update_self, if_pos ⟨low, high⟩, progress.kept _ _ fun both => unread both.1]
      rfl
    · rw [Function.update_of_ne same]
      exact progress.filled other component (either.resolve_right same) low high
  · by_cases same : other = cell
    · subst same
      rw [Function.update_self, if_neg fun selected => neither ⟨.inr rfl, selected⟩]
      exact progress.kept _ _ fun both => neither ⟨.inl both.1, both.2⟩
    · rw [Function.update_of_ne same]
      exact progress.kept _ _ fun both => neither ⟨.inl both.1, both.2⟩

theorem Progress.congr (progress : Progress prepared first count values current done) {other : Index d → Prop}
    (same : ∀ cell, done cell ↔ other cell) : Progress prepared first count values current other := by
  obtain rfl : done = other := funext fun cell => propext (same cell)
  exact progress

theorem Progress.writes (ordered : ∀ axis, prepared.domain.lo axis ≤ prepared.domain.hi axis)
    {plan : BoundaryRegionPlan d} {cells : List (Index d)}
    (each : ∀ cell ∈ cells, Written prepared cell ∧ compose prepared plan cell = composed prepared cell)
    (progress : Progress prepared first count values current done) :
    Progress prepared first count values (cells.foldl (applyPhysicalRegion prepared plan first count) current)
      (fun other => done other ∨ other ∈ cells) := by
  induction cells generalizing current done with
  | nil => exact progress.congr fun cell => by simp
  | cons head rest ih =>
    obtain ⟨written, agrees⟩ := each head List.mem_cons_self
    have later := ih (fun other listed => each other (List.mem_cons_of_mem _ listed))
      (progress.write ordered written agrees)
    exact later.congr fun cell => by rw [List.mem_cons, or_assoc]

variable {visit : Box d → List (Index d)} {patch : Box d}

/-- The ghosts that some regions write. -/
def WrittenBy (prepared : PreparedPhysicalBoundary d K) (patch : Box d) (plans : List (BoundaryRegionPlan d))
    (cell : Index d) : Prop :=
  ∃ plan ∈ plans, Written prepared cell ∧ cell ∈ (grown patch prepared.ghosts).cells ∧ cell ∈ plan.destination.cells

theorem Progress.regions (ordered : ∀ axis, prepared.domain.lo axis ≤ prepared.domain.hi axis)
    (visits : ∀ box cell, cell ∈ visit box ↔ cell ∈ box.cells) {plans : List (BoundaryRegionPlan d)}
    (regions : ∀ plan ∈ plans, ∃ slice, Region prepared plan slice)
    (progress : Progress prepared first count values current done) :
    Progress prepared first count values (plans.foldl (fillRegion prepared visit patch first count) current)
      (fun cell => done cell ∨ WrittenBy prepared patch plans cell) := by
  induction plans generalizing current done with
  | nil =>
    refine progress.congr fun cell => ⟨.inl, fun either => either.resolve_right ?_⟩
    rintro ⟨plan, listed, -⟩
    cases listed
  | cons plan plans ih =>
    obtain ⟨slice, region⟩ := regions plan List.mem_cons_self
    have later := fun {current done} => @ih current done fun other listed => regions other (List.mem_cons_of_mem _ listed)
    have split : ∀ cell, WrittenBy prepared patch (plan :: plans) cell ↔
        (Written prepared cell ∧ cell ∈ (grown patch prepared.ghosts).cells ∧ cell ∈ plan.destination.cells) ∨
          WrittenBy prepared patch plans cell := fun cell => by simp only [WrittenBy, List.mem_cons, exists_eq_or_imp]
    rw [List.foldl_cons, fillRegion]
    by_cases skipped : ¬ HasPhysical plan ∨ ExternallyOwned prepared plan
    · rw [if_pos skipped]
      refine (later progress).congr fun cell => ?_
      rw [split]
      have none : ¬ (Written prepared cell ∧ cell ∈ (grown patch prepared.ghosts).cells ∧ cell ∈ plan.destination.cells) :=
        fun both => (region.written_iff both.2.2).mpr both.1 skipped
      rw [iff_false_intro none, false_or]
    · rw [if_neg skipped]
      have member : ∀ cell, cell ∈ visit ((grown patch prepared.ghosts).intersect plan.destination) ↔
          cell ∈ (grown patch prepared.ghosts).cells ∧ cell ∈ plan.destination.cells := fun cell => by
        rw [visits, Box.cells_intersect, Finset.mem_inter]
      have each : ∀ cell ∈ visit ((grown patch prepared.ghosts).intersect plan.destination),
          Written prepared cell ∧ compose prepared plan cell = composed prepared cell := fun cell listed =>
        ⟨(region.written_iff ((member cell).mp listed).2).mp skipped, region.compose ((member cell).mp listed).2⟩
      have written := progress.writes ordered each
      refine (later written).congr fun cell => ?_
      rw [split, member, or_assoc]
      have owned : cell ∈ (grown patch prepared.ghosts).cells ∧ cell ∈ plan.destination.cells ↔
          Written prepared cell ∧ cell ∈ (grown patch prepared.ghosts).cells ∧ cell ∈ plan.destination.cells :=
        ⟨fun both => ⟨(region.written_iff both.2).mp skipped, both⟩, fun all => all.2⟩
      exact or_congr_right (or_congr_left owned)

end Pass

theorem preparePhysicalBoundary_ok {domain : Box d} {ghosts : Extent d} {conditions : PhysicalBoundaryConditions d K}
    {budget : ℕ} (ran : preparePhysicalBoundary domain ghosts conditions budget = .ok prepared) :
    Valid prepared ∧
      ScheduleSound prepared.domain prepared.ghosts prepared.conditions.topology prepared.entries := by
  obtain ⟨entries, scheduled, ran⟩ := bind_ok.mp ran
  obtain ⟨_, validated, returned⟩ := bind_ok.mp ran
  cases returned
  have schedule := prepareBoundarySchedule_ok scheduled
  refine ⟨⟨Box.not_empty_iff.mp schedule.nonempty, fun axis => ?_, fun cell axis owned => ?_⟩, schedule⟩
  · have each := forM_ok.mp conditions.valid axis (List.mem_finRange axis)
    obtain ⟨_, positive, -⟩ := bind_ok.mp each
    exact not_not.mp (throwIf_ok.mp positive)
  · have each := forM_ok.mp validated axis (List.mem_finRange axis)
    obtain ⟨crosses, deep, native⟩ := owned
    have outside := crosses.2
    unfold Deep at deep
    unfold AxisLaws.law lawsOf axisLaws at native
    dsimp only at outside deep native
    by_cases below : cell axis < domain.lo axis
    · rw [if_pos below] at native
      have layer := forM_ok.mp each (domain.lo axis - cell axis - 1).toNat (List.mem_range.mpr (by omega))
      obtain ⟨_, low, -⟩ := bind_ok.mp layer
      have index : domain.lo axis - (((domain.lo axis - cell axis - 1).toNat : ℤ) + 1) = cell axis := by omega
      rw [validateFace, if_neg native, index] at low
      exact low
    · rw [if_neg below] at native
      have layer := forM_ok.mp each (cell axis - domain.hi axis - 1).toNat (List.mem_range.mpr (by omega))
      obtain ⟨_, -, high⟩ := bind_ok.mp layer
      have index : domain.hi axis + (((cell axis - domain.hi axis - 1).toNat : ℤ) + 1) = cell axis := by omega
      rw [validateFace, if_neg native, index] at high
      exact high

/-- A fill of a patch: the ghosts that physical laws own hold what the fill axis by axis gives them, every
other value is kept, and what is read is in the grown patch and is not written. -/
structure Fills (prepared : PreparedPhysicalBoundary d K) (patch : Box d) (first count : ℤ)
    (values after : Values d K) : Prop where
  fillable : ∀ component, ∃ stages, Sequential prepared stages ∧ ∀ other, stages 0 other = values other component
  sequential : ∀ cell ∈ (grown patch prepared.ghosts).cells, Written prepared cell → ∀ component, first ≤ component →
    component < first + count → ∀ stages, Sequential prepared stages →
      (∀ other, stages 0 other = values other component) → after cell component = stages d cell
  kept : ∀ cell component, ¬ (Written prepared cell ∧ cell ∈ (grown patch prepared.ghosts).cells ∧ first ≤ component ∧
    component < first + count) → after cell component = values cell component
  reads : ∀ cell ∈ (grown patch prepared.ghosts).cells, Written prepared cell →
    (composed prepared cell).source ∈ (grown patch prepared.ghosts).cells ∧
      ¬ Written prepared (composed prepared cell).source
  ends : ∀ cell axis, Crosses prepared cell axis →
    (lawsOf prepared axis).Inside ((lawsOf prepared axis).sampleAxis (cell axis)).source
  divides : ∀ cell axis, Owned prepared cell axis → ((lawsOf prepared axis).law (cell axis)).kind = .robin →
    0 < (lawsOf prepared axis).distance (cell axis) ∧ (lawsOf prepared axis).denominator (cell axis) ≠ 0

variable [IsStrictOrderedRing K]

/-- The fill in one pass is the fill axis by axis, in whatever order the cells of a region are visited. -/
theorem fill_sequential {domain : Box d} {ghosts : Extent d} {conditions : PhysicalBoundaryConditions d K} {budget : ℕ}
    {visit : Box d → List (Index d)} {fields result : MultiFab d K} {first count : ℤ}
    (ran : preparePhysicalBoundary domain ghosts conditions budget = .ok prepared)
    (visits : ∀ box cell, cell ∈ visit box ↔ cell ∈ box.cells)
    (filled : fillPhysicalBoundary prepared visit fields first count = .ok result) :
    List.Forall₂ (fun fab after => after.1 = fab.1 ∧ Fills prepared fab.1 first count fab.2 after.2)
      fields.fabs result.fabs := by
  obtain ⟨valid, schedule⟩ := preparePhysicalBoundary_ok ran
  obtain ⟨_, -, filled⟩ := bind_ok.mp filled
  obtain ⟨_, contained, filled⟩ := bind_ok.mp filled
  obtain ⟨_, -, returned⟩ := bind_ok.mp filled
  cases returned
  refine List.forall₂_map_right_iff.mpr (List.forall₂_same.mpr fun fab listed => ⟨rfl, ?_⟩)
  have inside : prepared.domain.ContainsBox fab.1 := by
    by_contra outside
    exact throwIf_ok.mp contained ⟨fab.1, fields.located fab listed, outside⟩
  have regions : ∀ plan ∈ prepared.entries, ∃ slice, Region prepared plan slice := by
    intro plan found
    obtain ⟨slice, sound, destination, operations⟩ := schedule.regions plan found
    exact ⟨slice, sound, destination, operations⟩
  have start : Progress prepared first count fab.2 fab.2 fun _ => False :=
    ⟨fun _ none => none.elim, fun _ _ none => none.elim, fun _ _ _ => rfl⟩
  have progress : Progress prepared first count fab.2
      (prepared.entries.foldl (fillRegion prepared visit fab.1 first count) fab.2)
      fun cell => False ∨ WrittenBy prepared fab.1 prepared.entries cell :=
    start.regions valid.ordered visits regions
  have deep : ∀ cell ∈ (grown fab.1 prepared.ghosts).cells, ∀ axis, Deep prepared cell axis := by
    intro cell found axis
    have here := Box.mem_cells.mp found axis
    have within := inside.2 axis
    unfold Deep
    dsimp only [grown] at here
    omega
  have covered : ∀ cell ∈ (grown fab.1 prepared.ghosts).cells, Written prepared cell →
      WrittenBy prepared fab.1 prepared.entries cell := by
    intro cell found written
    obtain ⟨axis, crosses⟩ := written.crosses
    obtain ⟨plan, scheduled, reached⟩ := schedule.covers cell (deep cell found) ⟨axis, crosses.2⟩
    exact ⟨plan, scheduled, written, found, reached⟩
  refine ⟨fun component => ⟨_, fillAxes_sequential valid fun other => fab.2 other component, fun _ => rfl⟩,
    fun cell found written component low high stages sequential begins => ?_, fun cell component other => ?_,
    fun cell found written => ⟨source_grown valid.ordered inside found, fun again => ?_⟩, fun cell axis crosses => ?_,
    fun cell axis owned robin => ?_⟩
  · refine (progress.filled cell component (.inr (covered cell found written)) low high).trans ?_
    have stage := sequential.composed valid (deep cell found) written.native (le_refl d)
    rw [List.take_of_length_le (List.length_finRange.le), begins] at stage
    exact stage.symm
  · refine progress.kept cell component fun both => other ?_
    obtain ⟨plan, -, written, found, -⟩ := both.1.resolve_left id
    exact ⟨written, found, both.2⟩
  · obtain ⟨axis, crosses⟩ := again.crosses
    exact source_valid valid.ordered axis crosses
  · exact ((lawsOf prepared axis).sampleAxis_near (valid.ordered axis) crosses.2).1
  · have validated := valid.sampled cell axis owned
    obtain ⟨passes, number⟩ : ∃ passes, (lawsOf prepared axis).passes (cell axis) = passes + 1 :=
      Nat.exists_eq_succ_of_ne_zero fun none =>
        owned.crosses.2 ((lawsOf prepared axis).inside_of_passes none.le)
    rw [AxisLaws.validateAxisSample, number] at validated
    obtain ⟨-, rest⟩ := (lawsOf prepared axis).validateLoop_succ owned.crosses.2 validated
    exact (rest (by rw [robin]; decide)).1 robin

/-- The cells of a box of one dimension, in order. -/
def line (box : Box 1) : List (Index 1) :=
  (List.range (box.hi (Fin.last 0) - box.lo (Fin.last 0) + 1).toNat).map fun (n : ℕ) _ => box.lo (Fin.last 0) + (n : ℤ)

theorem mem_line (box : Box 1) (cell : Index 1) : cell ∈ line box ↔ cell ∈ box.cells := by
  rw [line, List.mem_map, Box.mem_cells]
  constructor
  · rintro ⟨n, below, rfl⟩ axis
    have inside := List.mem_range.mp below
    rw [Subsingleton.elim axis (Fin.last 0)]
    dsimp only
    omega
  · intro within
    have here := within (Fin.last 0)
    refine ⟨(cell (Fin.last 0) - box.lo (Fin.last 0)).toNat, List.mem_range.mpr (by omega), funext fun axis => ?_⟩
    rw [Subsingleton.elim axis (Fin.last 0)]
    omega

/-- Two cells. -/
def pair : Box 1 := ⟨fun _ => 0, fun _ => 1⟩

theorem walls_valid : validateConditions (BoundaryTopology.axisPeriodic fun _ : Fin 1 => false)
    (fun _ => (⟨.dirichlet, 3, 0, 1⟩ : PhysicalBoundaryFace ℚ)) (fun _ => 1) = .ok () := by decide +kernel

/-- The value 3 at both ends. -/
def walls : PhysicalBoundaryConditions 1 ℚ := ⟨_, _, _, walls_valid⟩

theorem pair_located : ∀ fab ∈ [(pair, fun (cell : Index 1) (_ : ℤ) => (cell (Fin.last 0) : ℚ))], fab.1 ∈ [pair] := by
  intro fab listed
  rw [List.mem_singleton.mp listed]
  exact List.mem_singleton.mpr rfl

/-- A field on the two cells, with ghosts as deep as three. -/
def ramp : MultiFab 1 ℚ := ⟨[pair], fun _ => 3, 1, _, pair_located⟩

/-- The ghosts of a domain that is shorter than they are deep. -/
theorem ramp_filled : ∃ prepared result, preparePhysicalBoundary pair (fun _ => 3) walls 2 = .ok prepared ∧
    fillPhysicalBoundary prepared line ramp 0 1 = .ok result ∧
      List.Forall₂ (fun fab after => after.1 = fab.1 ∧ Fills prepared fab.1 0 1 fab.2 after.2) ramp.fabs result.fabs := by
  have runs : (preparePhysicalBoundary pair (fun _ => 3) walls 2 >>= fun prepared =>
      fillPhysicalBoundary prepared line ramp 0 1).isOk = true := by decide +kernel
  obtain ⟨result, both⟩ := exists_of_isOk runs
  obtain ⟨prepared, ran, filled⟩ := bind_ok.mp both
  exact ⟨prepared, result, ran, filled, fill_sequential ran mem_line filled⟩

end Pops.PhysicalBoundary
