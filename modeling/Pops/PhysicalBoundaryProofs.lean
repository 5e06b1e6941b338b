import Pops.PhysicalBoundary

/-!
The fill of a patch gives every ghost that physical laws own the value of a fill axis by axis, each
ghost layer under its law against its mirror cell. It reads no cell that it writes.
-/
namespace Pops.PhysicalBoundary

variable {d : ℕ} {K : Type}

/-- A coordinate between the faces. -/
abbrev AxisLaws.Inside (laws : AxisLaws K) (current : ℤ) : Prop := laws.lo ≤ current ∧ current ≤ laws.hi

/-- The cell that a ghost is read with: the boundary cell of an extrapolation, else the mirror cell. -/
def AxisLaws.partner (laws : AxisLaws K) (current : ℤ) : ℤ :=
  if (laws.law current).kind = .constantExtrapolation then laws.boundary current else laws.mirror current

section Coordinates
variable {laws : AxisLaws K} {current : ℤ}

theorem AxisLaws.layer_pos (outside : ¬ laws.Inside current) : 1 ≤ laws.layer current := by
  unfold Inside at outside
  unfold layer
  split <;> omega

theorem AxisLaws.boundary_inside (ordered : laws.lo ≤ laws.hi) : laws.Inside (laws.boundary current) := by
  unfold Inside boundary
  split <;> omega

theorem AxisLaws.passes_mirror {passes : ℕ} (ordered : laws.lo ≤ laws.hi) (outside : ¬ laws.Inside current)
    (enough : laws.passes current ≤ passes + 1) : laws.passes (laws.mirror current) ≤ passes := by
  unfold Inside at outside
  unfold AxisLaws.passes at enough ⊢
  unfold mirror
  split <;> omega

theorem AxisLaws.inside_of_passes (enough : laws.passes current ≤ 0) : laws.Inside current := by
  unfold AxisLaws.passes at enough
  unfold Inside
  omega

end Coordinates

variable [Field K] [LinearOrder K]

/-- A ghost value satisfies a law against the value of the cell that it is read with. -/
def Satisfies (law : PhysicalBoundaryFace K) (distance ghost inner : K) : Prop :=
  match law.kind with
  | .external => True
  | .constantExtrapolation => ghost = inner
  | .dirichlet => (ghost + inner) / (2 : ℕ) = law.value
  | .neumann => (ghost - inner) / distance = law.value
  | .robin => law.alpha * ((ghost + inner) / (2 : ℕ)) + law.beta * ((ghost - inner) / distance) = law.value

section Sample
variable {laws : AxisLaws K} {current : ℤ}

variable [IsStrictOrderedRing K]

theorem AxisLaws.distance_pos (spacing : 0 < laws.spacing) (outside : ¬ laws.Inside current) :
    0 < laws.distance current := by
  have layer : (1 : K) ≤ laws.layer current := mod_cast laws.layer_pos outside
  rw [distance, Nat.cast_ofNat]
  exact mul_pos (by linarith) spacing

theorem AxisLaws.solved (spacing : 0 < laws.spacing) (outside : ¬ laws.Inside current)
    (native : (laws.law current).kind ≠ .external) (mirrored : (laws.law current).kind ≠ .constantExtrapolation)
    (regular : (laws.law current).kind = .robin → laws.denominator current ≠ 0) {ghost inner : K}
    (satisfied : Satisfies (laws.law current) (laws.distance current) ghost inner) :
    ghost = laws.faceScale current * inner + laws.faceOffset current := by
  have positive := laws.distance_pos spacing outside
  unfold Satisfies at satisfied
  unfold faceScale faceOffset
  simp only [Nat.cast_ofNat] at satisfied ⊢
  cases kind : (laws.law current).kind with
  | external => exact absurd kind native
  | constantExtrapolation => exact absurd kind mirrored
  | dirichlet =>
    rw [kind] at satisfied
    have sum := (div_eq_iff two_ne_zero).mp satisfied
    dsimp only
    linarith
  | neumann =>
    rw [kind] at satisfied
    have difference := (div_eq_iff positive.ne').mp satisfied
    dsimp only
    linarith
  | robin =>
    rw [kind] at satisfied
    have nonzero := regular kind
    have expanded : (laws.law current).value = ghost * laws.denominator current +
        inner * ((laws.law current).alpha / 2 - (laws.law current).beta / laws.distance current) := by
      rw [← satisfied, denominator, Nat.cast_ofNat]
      ring
    dsimp only
    rw [expanded]
    field_simp
    ring

omit [IsStrictOrderedRing K] in
theorem AxisLaws.validateLoop_succ {passes : ℕ} (outside : ¬ laws.Inside current)
    (validated : laws.validateLoop (passes + 1) current = .ok ()) :
    (laws.law current).kind ≠ .external ∧ ((laws.law current).kind ≠ .constantExtrapolation →
      ((laws.law current).kind = .robin → 0 < laws.distance current ∧ laws.denominator current ≠ 0) ∧
        laws.validateLoop passes (laws.mirror current) = .ok ()) := by
  rw [validateLoop, if_neg outside] at validated
  obtain ⟨_, native, rest⟩ := bind_ok.mp validated
  refine ⟨throwIf_ok.mp native, fun mirrored => ?_⟩
  rw [if_neg mirrored] at rest
  obtain ⟨_, regular, rest⟩ := bind_ok.mp rest
  refine ⟨fun robin => ?_, rest⟩
  have valid := throwIf_ok.mp regular
  exact ⟨by_contra fun bad => valid ⟨robin, .inl bad⟩, fun zero => valid ⟨robin, .inr zero⟩⟩

theorem AxisLaws.sampleLoop_affine (value inner : ℤ → K) (ghosts : ℤ) (ordered : laws.lo ≤ laws.hi)
    (spacing : 0 < laws.spacing) (kept : ∀ index, laws.Inside index → value index = inner index)
    (law : ∀ index, ¬ laws.Inside index → laws.lo - ghosts ≤ index → index ≤ laws.hi + ghosts →
      (laws.law index).kind ≠ .external →
        Satisfies (laws.law index) (laws.distance index) (value index) (value (laws.partner index)))
    {passes : ℕ} (enough : laws.passes current ≤ passes) (deepLow : laws.lo - ghosts ≤ current)
    (deepHigh : current ≤ laws.hi + ghosts) (validated : laws.validateLoop passes current = .ok ()) (scale offset : K) :
    laws.Inside (laws.sampleLoop passes current scale offset).source ∧
      scale * value current + offset = (laws.sampleLoop passes current scale offset).scale *
        inner (laws.sampleLoop passes current scale offset).source +
          (laws.sampleLoop passes current scale offset).offset := by
  induction passes generalizing current scale offset with
  | zero =>
    have inside := laws.inside_of_passes enough
    exact ⟨inside, by rw [sampleLoop, kept current inside]⟩
  | succ passes ih =>
    rw [sampleLoop]
    by_cases inside : laws.Inside current
    · rw [if_pos inside]
      exact ⟨inside, by rw [kept current inside]⟩
    rw [if_neg inside]
    obtain ⟨native, rest⟩ := laws.validateLoop_succ inside validated
    have satisfied := law current inside deepLow deepHigh native
    by_cases extrapolated : (laws.law current).kind = .constantExtrapolation
    · rw [if_pos extrapolated]
      have bounded : laws.Inside (laws.boundary current) := laws.boundary_inside ordered
      unfold Satisfies at satisfied
      rw [extrapolated, partner, if_pos extrapolated] at satisfied
      exact ⟨bounded, by rw [satisfied, kept _ bounded]⟩
    · rw [if_neg extrapolated]
      rw [partner, if_neg extrapolated] at satisfied
      obtain ⟨regular, validated⟩ := rest extrapolated
      have solved := laws.solved spacing inside native extrapolated (fun robin => (regular robin).2) satisfied
      have mirrorLow : laws.lo - ghosts ≤ laws.mirror current := by
        unfold Inside at inside
        unfold mirror
        split <;> omega
      have mirrorHigh : laws.mirror current ≤ laws.hi + ghosts := by
        unfold Inside at inside
        unfold mirror
        split <;> omega
      obtain ⟨reached, same⟩ := ih (laws.passes_mirror ordered inside enough) mirrorLow mirrorHigh validated
        (scale * laws.faceScale current) (offset + scale * laws.faceOffset current)
      refine ⟨reached, same ▸ ?_⟩
      rw [solved]
      ring

omit [LinearOrder K] [IsStrictOrderedRing K] in
theorem AxisLaws.sampleLoop_inside (ordered : laws.lo ≤ laws.hi) {passes : ℕ} (enough : laws.passes current ≤ passes)
    (scale offset : K) : laws.Inside (laws.sampleLoop passes current scale offset).source := by
  induction passes generalizing current scale offset with
  | zero => exact laws.inside_of_passes enough
  | succ passes ih =>
    rw [sampleLoop]
    by_cases inside : laws.Inside current
    · rw [if_pos inside]
      exact inside
    rw [if_neg inside]
    split
    · exact laws.boundary_inside ordered
    · exact ih (laws.passes_mirror ordered inside enough) _ _

omit [LinearOrder K] [IsStrictOrderedRing K] in
theorem AxisLaws.sampleLoop_of_inside (inside : laws.Inside current) (passes : ℕ) (scale offset : K) :
    laws.sampleLoop passes current scale offset = ⟨current, scale, offset⟩ := by
  cases passes with
  | zero => rfl
  | succ passes => rw [sampleLoop, if_pos inside]

omit [LinearOrder K] [IsStrictOrderedRing K] in
theorem AxisLaws.sampleAxis_near (ordered : laws.lo ≤ laws.hi) (outside : ¬ laws.Inside current) :
    laws.Inside (laws.sampleAxis current).source ∧
      (current < laws.lo → (laws.sampleAxis current).source ≤ laws.mirror current) ∧
        (laws.hi < current → laws.mirror current ≤ (laws.sampleAxis current).source) := by
  have reached : laws.Inside (laws.sampleAxis current).source :=
    laws.sampleLoop_inside ordered (le_refl (laws.passes current)) 1 0
  refine ⟨reached, ?_⟩
  by_cases mirrored : laws.Inside (laws.mirror current)
  · obtain ⟨passes, count⟩ : ∃ passes, laws.passes current = passes + 1 := by
      refine Nat.exists_eq_succ_of_ne_zero fun none => outside (laws.inside_of_passes none.le)
    by_cases extrapolated : (laws.law current).kind = .constantExtrapolation
    · have source : (laws.sampleAxis current).source = laws.boundary current := by
        rw [sampleAxis, count, sampleLoop, if_neg outside, if_pos extrapolated]
      rw [source]
      unfold Inside at mirrored
      unfold boundary
      constructor
      · intro below
        rw [if_pos below]
        exact mirrored.1
      · intro above
        rw [if_neg (by omega)]
        exact mirrored.2
    · have source : (laws.sampleAxis current).source = laws.mirror current := by
        rw [sampleAxis, count, sampleLoop, if_neg outside, if_neg extrapolated, laws.sampleLoop_of_inside mirrored]
      rw [source]
      exact ⟨fun _ => le_rfl, fun _ => le_rfl⟩
  · unfold Inside at mirrored reached
    unfold mirror at mirrored ⊢
    constructor
    · intro below
      rw [if_pos below] at mirrored ⊢
      omega
    · intro above
      rw [if_neg (by omega)] at mirrored ⊢
      omega

end Sample

variable (prepared : PreparedPhysicalBoundary d K)

/-- The laws of an axis of the prepared boundary. -/
abbrev lawsOf (axis : Fin d) : AxisLaws K := axisLaws prepared.conditions prepared.domain axis

/-- A cell is a physical ghost along an axis. -/
def Crosses (cell : Index d) (axis : Fin d) : Prop :=
  ¬ prepared.conditions.topology.IsPeriodic ⟨axis, .lower⟩ ∧
    ¬ (prepared.domain.lo axis ≤ cell axis ∧ cell axis ≤ prepared.domain.hi axis)

instance (cell : Index d) (axis : Fin d) : Decidable (Crosses prepared cell axis) :=
  inferInstanceAs (Decidable (_ ∧ _))

/-- A cell is no deeper than the ghosts along an axis. -/
def Deep (cell : Index d) (axis : Fin d) : Prop :=
  prepared.domain.lo axis - prepared.ghosts axis ≤ cell axis ∧ cell axis ≤ prepared.domain.hi axis + prepared.ghosts axis

/-- The fill of an axis owns the ghosts of its faces that have a law of their own. -/
structure Owned (cell : Index d) (axis : Fin d) : Prop where
  crosses : Crosses prepared cell axis
  deep : Deep prepared cell axis
  native : ((lawsOf prepared axis).law (cell axis)).kind ≠ .external

/-- The fill of an axis: every ghost that it owns satisfies its law, the other cells are kept. -/
structure AxisFilled (axis : Fin d) (earlier later : Index d → K) : Prop where
  kept : ∀ cell, ¬ Owned prepared cell axis → later cell = earlier cell
  law : ∀ cell, Owned prepared cell axis →
    Satisfies ((lawsOf prepared axis).law (cell axis)) ((lawsOf prepared axis).distance (cell axis)) (later cell)
      (later (Function.update cell axis ((lawsOf prepared axis).partner (cell axis))))

/-- The fields of a fill axis by axis, in increasing order. -/
def Sequential (stages : ℕ → Index d → K) : Prop :=
  ∀ axis : Fin d, AxisFilled prepared axis (stages axis) (stages (axis + 1))

/-- What the preparation has checked of the laws. -/
structure Valid : Prop where
  ordered : ∀ axis, prepared.domain.lo axis ≤ prepared.domain.hi axis
  spacing : ∀ axis, 0 < prepared.conditions.spacing axis
  sampled : ∀ cell axis, Owned prepared cell axis → (lawsOf prepared axis).validateAxisSample (cell axis) = .ok ()

/-- What a ghost has come to after an axis. -/
def advance (cell : Index d) (composed : Composed d K) (axis : Fin d) : Composed d K :=
  if Crosses prepared cell axis then sampleStep prepared cell axis composed else composed

/-- The source and the map of a ghost. -/
def composed (cell : Index d) : Composed d K := (List.finRange d).foldl (advance prepared cell) ⟨cell, 1, 0⟩

variable {prepared} {cell : Index d}

theorem advance_update {axis other : Fin d} (different : axis ≠ other) (coordinate : ℤ) (composed : Composed d K) :
    advance prepared (Function.update cell other coordinate)
      ⟨Function.update composed.source other coordinate, composed.scale, composed.offset⟩ axis =
    ⟨Function.update (advance prepared cell composed axis).source other coordinate,
      (advance prepared cell composed axis).scale, (advance prepared cell composed axis).offset⟩ := by
  have same : Crosses prepared (Function.update cell other coordinate) axis ↔ Crosses prepared cell axis := by
    unfold Crosses
    rw [Function.update_of_ne different]
  by_cases crosses : Crosses prepared cell axis
  · rw [advance, advance, if_pos (same.mpr crosses), if_pos crosses, sampleStep, sampleStep,
      Function.update_of_ne different]
    dsimp only
    rw [Function.update_comm different]
  · rw [advance, advance, if_neg (mt same.mp crosses), if_neg crosses]

theorem foldl_advance_update {axes : List (Fin d)} {other : Fin d} (absent : other ∉ axes) (coordinate : ℤ)
    (composed : Composed d K) :
    axes.foldl (advance prepared (Function.update cell other coordinate))
      ⟨Function.update composed.source other coordinate, composed.scale, composed.offset⟩ =
    ⟨Function.update (axes.foldl (advance prepared cell) composed).source other coordinate,
      (axes.foldl (advance prepared cell) composed).scale, (axes.foldl (advance prepared cell) composed).offset⟩ := by
  induction axes generalizing composed with
  | nil => rfl
  | cons axis axes ih =>
    rw [List.mem_cons, not_or] at absent
    rw [List.foldl_cons, List.foldl_cons, advance_update (Ne.symm absent.1), ih absent.2]

theorem not_mem_take {k : ℕ} (below : k < d) : (⟨k, below⟩ : Fin d) ∉ (List.finRange d).take k := by
  intro listed
  obtain ⟨n, inside, found⟩ := List.mem_iff_getElem.mp listed
  rw [List.getElem_take, List.getElem_finRange] at found
  have same := congrArg Fin.val found
  rw [List.length_take] at inside
  simp at same
  omega

variable [IsStrictOrderedRing K]

theorem AxisFilled.sampled {axis : Fin d} {earlier later : Index d → K} (filled : AxisFilled prepared axis earlier later)
    (valid : Valid prepared) (owned : Owned prepared cell axis) :
    (lawsOf prepared axis).Inside ((lawsOf prepared axis).sampleAxis (cell axis)).source ∧
      later cell = ((lawsOf prepared axis).sampleAxis (cell axis)).scale *
        earlier (Function.update cell axis ((lawsOf prepared axis).sampleAxis (cell axis)).source) +
          ((lawsOf prepared axis).sampleAxis (cell axis)).offset := by
  have affine := (lawsOf prepared axis).sampleLoop_affine (fun index => later (Function.update cell axis index))
    (fun index => earlier (Function.update cell axis index)) (prepared.ghosts axis) (valid.ordered axis) (valid.spacing axis)
    (fun index inside => filled.kept _ fun other => other.crosses.2 (by rwa [Function.update_self]))
    (fun index outside low high native => by
      have law := filled.law (Function.update cell axis index)
        ⟨⟨owned.crosses.1, by rwa [Function.update_self]⟩, by
          unfold Deep
          rw [Function.update_self]
          exact ⟨low, high⟩, by rwa [Function.update_self]⟩
      rwa [Function.update_self, Function.update_idem] at law)
    (le_refl _) owned.deep.1 owned.deep.2 (valid.sampled cell axis owned) 1 0
  refine ⟨affine.1, ?_⟩
  have same := affine.2
  rwa [Function.update_eq_self, one_mul, add_zero] at same

theorem Sequential.composed {stages : ℕ → Index d → K} (sequential : Sequential prepared stages) (valid : Valid prepared)
    (deep : ∀ axis, Deep prepared cell axis)
    (native : ∀ axis, Crosses prepared cell axis → ((lawsOf prepared axis).law (cell axis)).kind ≠ .external)
    {k : ℕ} (within : k ≤ d) :
    stages k cell = (((List.finRange d).take k).foldl (advance prepared cell) ⟨cell, 1, 0⟩).scale *
      stages 0 (((List.finRange d).take k).foldl (advance prepared cell) ⟨cell, 1, 0⟩).source +
        (((List.finRange d).take k).foldl (advance prepared cell) ⟨cell, 1, 0⟩).offset := by
  induction k generalizing cell with
  | zero => simp
  | succ k ih =>
    have below : k < d := within
    have filled := sequential ⟨k, below⟩
    have extended : (List.finRange d).take (k + 1) = (List.finRange d).take k ++ [⟨k, below⟩] := by
      rw [List.take_succ_eq_append_getElem (by simpa using below), List.getElem_finRange]
      rfl
    rw [extended, List.foldl_append, List.foldl_cons, List.foldl_nil]
    by_cases crosses : Crosses prepared cell ⟨k, below⟩
    · have owned : Owned prepared cell ⟨k, below⟩ := ⟨crosses, deep _, native _ crosses⟩
      obtain ⟨inside, affine⟩ := filled.sampled valid owned
      have moved := @ih (Function.update cell ⟨k, below⟩
        ((lawsOf prepared ⟨k, below⟩).sampleAxis (cell ⟨k, below⟩)).source) ?_ ?_ below.le
      · have folded := @foldl_advance_update d K _ _ prepared cell _ _ (not_mem_take below)
          ((lawsOf prepared ⟨k, below⟩).sampleAxis (cell ⟨k, below⟩)).source ⟨cell, 1, 0⟩
        dsimp only at folded
        rw [folded] at moved
        rw [affine, moved, advance, if_pos crosses, sampleStep]
        ring
      · intro axis
        by_cases same : axis = ⟨k, below⟩
        · subst same
          have reach := owned.deep
          have outside := crosses.2
          unfold AxisLaws.Inside lawsOf axisLaws at inside
          unfold Deep at reach ⊢
          rw [Function.update_self]
          unfold lawsOf axisLaws
          dsimp only at inside
          omega
        · unfold Deep
          rw [Function.update_of_ne same]
          exact deep axis
      · intro axis other
        unfold Crosses at other
        by_cases same : axis = ⟨k, below⟩
        · subst same
          rw [Function.update_self] at other
          exact absurd inside other.2
        · rw [Function.update_of_ne same] at other ⊢
          exact native axis other
    · have kept := filled.kept cell fun owned => crosses owned.crosses
      rw [kept, advance, if_neg crosses]
      exact ih deep native below.le

/-- The value of a ghost, solved from its mirror cells. -/
def AxisLaws.solve (laws : AxisLaws K) (inner : ℤ → K) : ℕ → ℤ → K
  | 0, index => inner index
  | passes + 1, index =>
    if laws.lo ≤ index ∧ index ≤ laws.hi then inner index
    else if (laws.law index).kind = .constantExtrapolation then inner (laws.boundary index)
    else laws.faceScale index * solve laws inner passes (laws.mirror index) + laws.faceOffset index

section Solve
variable {laws : AxisLaws K} {current : ℤ}

omit [LinearOrder K] [IsStrictOrderedRing K] in
theorem AxisLaws.solve_inside (inside : laws.Inside current) (inner : ℤ → K) (passes : ℕ) :
    laws.solve inner passes current = inner current := by
  cases passes with
  | zero => rfl
  | succ passes => rw [solve, if_pos inside]

omit [LinearOrder K] [IsStrictOrderedRing K] in
theorem AxisLaws.solve_enough (ordered : laws.lo ≤ laws.hi) (inner : ℤ → K) {passes more : ℕ}
    (enough : laws.passes current ≤ passes) (moreEnough : laws.passes current ≤ more) :
    laws.solve inner passes current = laws.solve inner more current := by
  induction passes generalizing current more with
  | zero =>
    have inside := laws.inside_of_passes enough
    rw [laws.solve_inside inside, laws.solve_inside inside]
  | succ passes ih =>
    by_cases inside : laws.Inside current
    · rw [laws.solve_inside inside, laws.solve_inside inside]
    cases more with
    | zero => exact absurd (laws.inside_of_passes moreEnough) inside
    | succ more =>
      rw [solve, solve, if_neg inside, if_neg inside,
        ih (laws.passes_mirror ordered inside enough) (laws.passes_mirror ordered inside moreEnough)]

theorem AxisLaws.satisfied (spacing : 0 < laws.spacing) (outside : ¬ laws.Inside current)
    (mirrored : (laws.law current).kind ≠ .constantExtrapolation)
    (regular : (laws.law current).kind = .robin → laws.denominator current ≠ 0) (inner : K) :
    Satisfies (laws.law current) (laws.distance current)
      (laws.faceScale current * inner + laws.faceOffset current) inner := by
  have positive := (laws.distance_pos spacing outside).ne'
  unfold Satisfies faceScale faceOffset
  simp only [Nat.cast_ofNat]
  cases kind : (laws.law current).kind with
  | external => trivial
  | constantExtrapolation => exact absurd kind mirrored
  | dirichlet =>
    dsimp only
    ring
  | neumann =>
    dsimp only
    rw [one_mul, add_sub_cancel_left, mul_div_cancel_right₀ _ positive]
  | robin =>
    have nonzero := regular kind
    dsimp only
    have split : ∀ ghost : K, (laws.law current).alpha * ((ghost + inner) / 2) +
        (laws.law current).beta * ((ghost - inner) / laws.distance current) = ghost * laws.denominator current +
          inner * ((laws.law current).alpha / 2 - (laws.law current).beta / laws.distance current) := by
      intro ghost
      rw [denominator, Nat.cast_ofNat]
      ring
    rw [split, add_mul, div_mul_cancel₀ _ nonzero, mul_right_comm, div_mul_cancel₀ _ nonzero]
    ring

end Solve

open Classical in
/-- The fill of an axis. -/
noncomputable def fillAxis (prepared : PreparedPhysicalBoundary d K) (axis : Fin d) (earlier : Index d → K) : Index d → K :=
  fun cell =>
    if Owned prepared cell axis then
      (lawsOf prepared axis).solve (fun index => earlier (Function.update cell axis index))
        ((lawsOf prepared axis).passes (cell axis)) (cell axis)
    else earlier cell

/-- The fields of the fill of every axis, one after the other. -/
noncomputable def fillAxes (prepared : PreparedPhysicalBoundary d K) (start : Index d → K) : ℕ → Index d → K
  | 0 => start
  | k + 1 => if below : k < d then fillAxis prepared ⟨k, below⟩ (fillAxes prepared start k) else fillAxes prepared start k

theorem fillAxis_filled (valid : Valid prepared) (axis : Fin d) (earlier : Index d → K) :
    AxisFilled prepared axis earlier (fillAxis prepared axis earlier) := by
  refine ⟨fun cell other => if_neg other, fun cell owned => ?_⟩
  have outside : ¬ (lawsOf prepared axis).Inside (cell axis) := owned.crosses.2
  obtain ⟨passes, count⟩ : ∃ passes, (lawsOf prepared axis).passes (cell axis) = passes + 1 :=
    Nat.exists_eq_succ_of_ne_zero fun none => outside ((lawsOf prepared axis).inside_of_passes none.le)
  have validated := valid.sampled cell axis owned
  rw [AxisLaws.validateAxisSample, count] at validated
  obtain ⟨-, rest⟩ := (lawsOf prepared axis).validateLoop_succ outside validated
  have here : fillAxis prepared axis earlier cell = (lawsOf prepared axis).solve
      (fun index => earlier (Function.update cell axis index)) (passes + 1) (cell axis) := by
    rw [fillAxis, if_pos owned, count]
  rw [here, AxisLaws.solve, if_neg outside, AxisLaws.partner]
  have bounded : ∀ index, (lawsOf prepared axis).Inside index →
      fillAxis prepared axis earlier (Function.update cell axis index) = earlier (Function.update cell axis index) :=
    fun index inside => if_neg fun again => again.crosses.2 (by rwa [Function.update_self])
  by_cases extrapolated : ((lawsOf prepared axis).law (cell axis)).kind = .constantExtrapolation
  · rw [if_pos extrapolated, if_pos extrapolated, bounded _ ((lawsOf prepared axis).boundary_inside (valid.ordered axis))]
    unfold Satisfies
    rw [extrapolated]
  · rw [if_neg extrapolated, if_neg extrapolated]
    obtain ⟨regular, validated⟩ := rest extrapolated
    have partner : fillAxis prepared axis earlier
        (Function.update cell axis ((lawsOf prepared axis).mirror (cell axis))) = (lawsOf prepared axis).solve
          (fun index => earlier (Function.update cell axis index)) passes ((lawsOf prepared axis).mirror (cell axis)) := by
      by_cases inside : (lawsOf prepared axis).Inside ((lawsOf prepared axis).mirror (cell axis))
      · rw [bounded _ inside, AxisLaws.solve_inside inside]
      · have shorter := (lawsOf prepared axis).passes_mirror (valid.ordered axis) outside count.le
        obtain ⟨fewer, number⟩ : ∃ fewer, passes = fewer + 1 :=
          Nat.exists_eq_succ_of_ne_zero fun none => inside
            ((lawsOf prepared axis).inside_of_passes (shorter.trans none.le))
        rw [number] at validated
        have native := ((lawsOf prepared axis).validateLoop_succ inside validated).1
        have deep : Deep prepared (Function.update cell axis ((lawsOf prepared axis).mirror (cell axis))) axis := by
          have reach := owned.deep
          unfold Deep at reach ⊢
          rw [Function.update_self]
          unfold AxisLaws.Inside at outside
          unfold AxisLaws.mirror
          unfold lawsOf axisLaws at outside ⊢
          dsimp only at outside ⊢
          have ordered := valid.ordered axis
          split <;> omega
        have again : Owned prepared (Function.update cell axis ((lawsOf prepared axis).mirror (cell axis))) axis :=
          ⟨⟨owned.crosses.1, by rwa [Function.update_self]⟩, deep, by rwa [Function.update_self]⟩
        rw [fillAxis, if_pos again]
        simp only [Function.update_self, Function.update_idem]
        exact AxisLaws.solve_enough (valid.ordered axis) _ le_rfl shorter
    rw [partner]
    exact AxisLaws.satisfied (valid.spacing axis) outside extrapolated (fun robin => (regular robin).2) _

theorem fillAxes_sequential (valid : Valid prepared) (start : Index d → K) :
    Sequential prepared (fillAxes prepared start) := by
  intro axis
  rw [fillAxes, dif_pos axis.isLt]
  exact fillAxis_filled valid axis _

end Pops.PhysicalBoundary
