import Pops.BergerRigoutsosProofs
import Pops.Throws

/-!
Every cut the splitter selects lies strictly inside the region it splits, so each
child is smaller than its parent and the recursion ends by itself, whatever the
budgets are. The scores never matter here either.
-/
namespace Pops.BergerRigoutsos

variable {d : ℕ} {R : Type}

theorem mem_cutsBetween {lower upper cut : ℤ} : cut ∈ cutsBetween lower upper ↔ lower ≤ cut ∧ cut ≤ upper := by
  simp only [cutsBetween, List.mem_map, bind, List.mem_flatMap, List.mem_range, pure, List.mem_singleton]
  constructor
  · rintro ⟨step, ⟨count, below, rfl⟩, rfl⟩
    omega
  · rintro ⟨above, below⟩
    exact ⟨cut - lower, ⟨(cut - lower).toNat, by omega, by omega⟩, by omega⟩

theorem foldl_best {β : Type} {step : ℤ × β → ℤ → ℤ × β}
    (each : ∀ best cut, step best cut = best ∨ (step best cut).1 = cut) (cuts : List ℤ) (start : ℤ × β) :
    (cuts.foldl step start).1 = start.1 ∨ (cuts.foldl step start).1 ∈ cuts := by
  induction cuts generalizing start with
  | nil => exact .inl rfl
  | cons cut cuts ih =>
    rw [List.foldl_cons]
    rcases ih (step start cut) with same | later
    · rcases each start cut with kept | taken
      · exact .inl (by rw [same, kept])
      · exact .inr (by rw [same, taken]; exact List.mem_cons_self)
    · exact .inr (List.mem_cons_of_mem _ later)

theorem bestHole_bounds {signature : List ℤ} {minimum : ℤ} (found : ¬ bestHole signature minimum < 0) :
    minimum ≤ bestHole signature minimum ∧ bestHole signature minimum ≤ signature.length - minimum := by
  unfold bestHole at *
  dsimp only at *
  rcases @foldl_best ℤ (fun (best : ℤ × ℤ) (cut : ℤ) =>
      if signature.getD cut.toNat 0 ≠ 0 then best
      else if |cut - (signature.length : ℤ) / 2| < best.2 ∨
          |cut - (signature.length : ℤ) / 2| = best.2 ∧ cut < best.1 then
        (cut, |cut - (signature.length : ℤ) / 2|) else best)
      (fun best cut => by split_ifs <;> simp) (cutsBetween minimum (signature.length - minimum)) (-1, intMax) with
    none | listed
  · exact absurd (none ▸ by norm_num) found
  · exact mem_cutsBetween.mp listed

theorem bestInflection_bounds [LongDouble R] {signature : List ℤ} {minimum : ℤ}
    (found : ¬ (bestInflection signature minimum : ℤ × R).1 < 0) :
    2 ≤ (bestInflection signature minimum : ℤ × R).1 ∧
      (bestInflection signature minimum : ℤ × R).1 ≤ signature.length - 2 := by
  unfold bestInflection at *
  dsimp only at *
  split at found
  · exact absurd (by norm_num) found
  · rename_i long
    rw [if_neg long]
    rcases @foldl_best R (fun (best : ℤ × R) (cut : ℤ) =>
        if LongDouble.less best.2 (LongDouble.abs (LongDouble.sub (laplacian signature cut)
          (laplacian signature (cut - 1)))) then
          (cut, LongDouble.abs (LongDouble.sub (laplacian signature cut) (laplacian signature (cut - 1)))) else best)
        (fun best cut => by split_ifs <;> simp)
        (cutsBetween (max minimum 2) (min (signature.length - minimum) (signature.length - 2)))
        (-1, LongDouble.ofInt 0) with none | listed
    · exact absurd (none ▸ by norm_num) found
    · have bounds := mem_cutsBetween.mp listed
      exact ⟨(le_max_right _ _).trans bounds.1, bounds.2.trans (min_le_right _ _)⟩

section Cuts
variable {region : Box d} {signature : Fin d → List ℤ} {minBoxSize : Fin d → ℤ}

theorem mem_cutPerAxis {best : Fin d → Option (ℤ × R)} {cut : AxisCut d R} :
    cut ∈ cutPerAxis region minBoxSize best ↔ Splittable region minBoxSize cut.axis ∧
      best cut.axis = some (cut.offset, cut.score) ∧ cut.length = region.length cut.axis := by
  unfold cutPerAxis
  rw [List.mem_filterMap]
  constructor
  · rintro ⟨axis, -, chosen⟩
    split at chosen
    · rename_i splits
      obtain ⟨pair, held, rfl⟩ := Option.map_eq_some_iff.mp chosen
      exact ⟨splits, held, rfl⟩
    · cases chosen
  · rintro ⟨splits, held, length⟩
    refine ⟨cut.axis, List.mem_finRange _, ?_⟩
    rw [if_pos splits, held, Option.map_some, ← length]

theorem mem_of_mem_keepLike {α : Type} {same : α → α → Bool} {selected : Option α} {items : List α} {item : α}
    (kept : item ∈ keepLike same selected items) : item ∈ items := by
  cases selected with
  | none => exact kept
  | some other => exact List.mem_of_mem_filter kept

theorem longest_splittable (positive : ∀ axis, 0 < minBoxSize axis) (some : ∃ axis, Splittable region minBoxSize axis) :
    ∃ axis, Splittable region minBoxSize axis ∧ region.length axis =
      (List.finRange d).foldl (fun longest axis =>
        if Splittable region minBoxSize axis then max longest (region.length axis) else longest) 0 := by
  have each : ∀ (axes : List (Fin d)) (start : ℤ),
      let found := axes.foldl (fun longest axis =>
        if Splittable region minBoxSize axis then max longest (region.length axis) else longest) start
      (found = start ∨ ∃ axis, Splittable region minBoxSize axis ∧ region.length axis = found) ∧ start ≤ found ∧
        ∀ axis ∈ axes, Splittable region minBoxSize axis → region.length axis ≤ found := by
    intro axes
    induction axes with
    | nil => exact fun start => ⟨.inl rfl, le_rfl, by simp⟩
    | cons axis axes ih =>
      intro start
      dsimp only
      rw [List.foldl_cons]
      by_cases splits : Splittable region minBoxSize axis
      · rw [if_pos splits]
        obtain ⟨origin, above, bound⟩ := ih (max start (region.length axis))
        refine ⟨?_, (le_max_left _ _).trans above, fun other listed otherSplits => ?_⟩
        · rcases origin with same | known
          · rw [same]
            rcases max_choice start (region.length axis) with first | second
            · exact .inl first
            · exact .inr ⟨axis, splits, second.symm⟩
          · exact .inr known
        · rcases List.mem_cons.mp listed with rfl | later
          · exact (le_max_right _ _).trans above
          · exact bound other later otherSplits
      · rw [if_neg splits]
        obtain ⟨origin, above, bound⟩ := ih start
        refine ⟨origin, above, fun other listed otherSplits => ?_⟩
        rcases List.mem_cons.mp listed with rfl | later
        · exact absurd otherSplits splits
        · exact bound other later otherSplits
  obtain ⟨origin, -, bound⟩ := each (List.finRange d) 0
  rcases origin with zero | found
  · obtain ⟨axis, splits⟩ := some
    have length := bound axis (List.mem_finRange axis) splits
    have minimum := positive axis
    unfold Splittable at splits
    omega
  · exact found

variable [LongDouble R]

theorem selectCuts_nonempty (positive : ∀ axis, 0 < minBoxSize axis)
    (some : ∃ axis, Splittable region minBoxSize axis) :
    (selectCuts region signature minBoxSize : List (AxisCut d R)).isEmpty = false := by
  unfold selectCuts
  dsimp only
  split
  · assumption
  · split
    · assumption
    · obtain ⟨axis, splits, longest⟩ := longest_splittable positive some
      have middle : (⟨axis, region.length axis / 2, region.length axis, LongDouble.ofInt 0⟩ : AxisCut d R) ∈
          midpointCuts region minBoxSize :=
        mem_cutPerAxis.mpr ⟨splits, if_pos longest, rfl⟩
      rw [List.isEmpty_eq_false_iff]
      exact List.ne_nil_of_mem middle

theorem selectCuts_strict (positive : ∀ axis, 0 < minBoxSize axis)
    (slices : ∀ axis, ((signature axis).length : ℤ) = region.length axis) {cut : AxisCut d R}
    (selected : cut ∈ selectCuts region signature minBoxSize) :
    Splittable region minBoxSize cut.axis ∧ 0 < cut.offset ∧ cut.offset < region.length cut.axis := by
  unfold selectCuts at selected
  dsimp only at selected
  have minimum := positive cut.axis
  have length := slices cut.axis
  split at selected
  · obtain ⟨splits, held, -⟩ := mem_cutPerAxis.mp (mem_of_mem_keepLike selected)
    dsimp only at held
    split at held
    · cases held
    · rename_i found
      have bounds := bestHole_bounds found
      obtain ⟨same, -⟩ := Prod.mk.inj (Option.some.inj held)
      exact ⟨splits, by omega, by omega⟩
  · split at selected
    · obtain ⟨splits, held, -⟩ := mem_cutPerAxis.mp (mem_of_mem_keepLike selected)
      dsimp only at held
      split at held
      · cases held
      · rename_i found
        have bounds := bestInflection_bounds found
        have same := congrArg Prod.fst (Option.some.inj held)
        dsimp only at same
        exact ⟨splits, by omega, by omega⟩
    · obtain ⟨splits, held, -⟩ := mem_cutPerAxis.mp selected
      split at held
      · obtain ⟨same, -⟩ := Prod.mk.inj (Option.some.inj held)
        have long := splits
        unfold Splittable at long
        exact ⟨splits, by omega, by omega⟩
      · cases held

end Cuts

section Children
variable {region child : Box d}

theorem foldlM_splitAt_returns {cuts : List (AxisCut d R)}
    (strict : ∀ cut ∈ cuts, 0 < cut.offset ∧ cut.offset < region.length cut.axis) (children : List (Box d)) :
    ∃ result, cuts.foldlM (splitAt region) children = .ok result ∧
      result.length = 2 ^ cuts.length * children.length := by
  induction cuts generalizing children with
  | nil => exact ⟨children, rfl, by simp⟩
  | cons cut cuts ih =>
    have bounds := strict cut List.mem_cons_self
    have accepted : ¬ (cut.offset ≤ 0 ∨ cut.offset ≥ region.length cut.axis) := by omega
    obtain ⟨result, ran, length⟩ := ih (fun other listed => strict other (List.mem_cons_of_mem _ listed))
      (children.map (leftHalf region cut.axis cut.offset) ++ children.map (rightHalf region cut.axis cut.offset))
    refine ⟨result, ?_, ?_⟩
    · rw [List.foldlM_cons, splitAt, throwIf_of_not accepted, ok_bind]
      exact ran
    · rw [length, List.length_append, List.length_map, List.length_map, List.length_cons, pow_succ]
      ring

theorem halves_smaller {axis : Fin d} {offset : ℤ} (nonempty : ¬ child.Empty)
    (spans : child.lo axis = region.lo axis ∧ child.hi axis = region.hi axis)
    (strict : 0 < offset ∧ offset < region.hi axis - region.lo axis + 1) :
    ∀ half ∈ [leftHalf region axis offset child, rightHalf region axis offset child],
      ¬ half.Empty ∧ half.cells ⊂ child.cells := by
  obtain ⟨packed, -⟩ := packed_halves nonempty spans strict
  intro half listed
  refine ⟨?_, packed.lt_region le_rfl listed⟩
  rw [Box.empty_iff_cells]
  exact packed.nonempty half listed

theorem children_smaller {cuts : List (AxisCut d R)} (nonempty : ¬ region.Empty) (some : cuts.isEmpty = false)
    (different : cuts.Pairwise fun left right => left.axis ≠ right.axis)
    (strict : ∀ cut ∈ cuts, 0 < cut.offset ∧ cut.offset < region.length cut.axis) {children : List (Box d)}
    (ran : cuts.foldlM (splitAt region) [region] = .ok children) :
    ∀ child ∈ children, ¬ child.Empty ∧ child.cells ⊂ region.cells := by
  obtain ⟨packed, -⟩ := partitions_foldlM nonempty different ran
  obtain ⟨result, again, length⟩ := foldlM_splitAt_returns strict [region]
  cases ran.symm.trans again
  have several : 2 ≤ children.length := by
    rw [length, List.length_singleton, mul_one]
    have count : 0 < cuts.length := List.length_pos_iff.mpr (List.isEmpty_eq_false_iff.mp some)
    calc 2 = 2 ^ 1 := rfl
      _ ≤ 2 ^ cuts.length := Nat.pow_le_pow_right (by norm_num) count
  intro child listed
  refine ⟨?_, packed.lt_region several listed⟩
  rw [Box.empty_iff_cells]
  exact packed.nonempty child listed

end Children

variable [LongDouble R] {mask : TagMask d} {options : ClusterOptions d R}

omit [LongDouble R] in
theorem signatures_length {region : Box d} {work after : Work} {signature : Fin d → List ℤ}
    (ran : signatures mask region work = .ok (signature, after)) (axis : Fin d) :
    (signature axis).length = (region.length axis).toNat := by
  have kept (visits : List (Index d × Bool)) (start : List ℤ) :
      (visits.foldl (signatureStep region axis) start).length = start.length := by
    induction visits generalizing start with
    | nil => rfl
    | cons visit visits ih =>
      rw [List.foldl_cons, ih, signatureStep]
      split
      · rfl
      · exact List.length_modify ..
  simp only [signatures, bind_ok, pure_ok, Prod.mk.injEq] at ran
  obtain ⟨_, -, _, -, visited, -, rfl, -⟩ := ran
  rw [kept, List.length_replicate]

/-- `cluster_rec_` with an arbitrary outcome where the fuel ends. -/
def clusterRecOr (stuck : Work × List (Box d) → Box d → Checked (Work × List (Box d))) (mask : TagMask d)
    (options : ClusterOptions d R) : ℕ → Work × List (Box d) → Box d → Checked (Work × List (Box d))
  | 0, state, candidate => stuck state candidate
  | fuel + 1, (work, output), candidate => do
    let work ← work.visitNode
    let (scan, work) ← scanRegion mask candidate work
    if scan.tagged = 0 then
      return (work, output)
    else
      let region := scan.bounds
      let points ← region.numPts
      let efficiency : R := LongDouble.div (LongDouble.ofInt scan.tagged) (LongDouble.ofInt points)
      if LongDouble.lessEq options.minEfficiency efficiency = true ∨
          ¬ ∃ axis, Splittable region options.minBoxSize axis then
        throwIf (output.length = options.budget.outputBoxes)
          (.lengthError "Berger-Rigoutsos exceeds its raw output-box budget")
        return (work, output ++ [region])
      else
        let (signature, work) ← signatures mask region work
        let cuts : List (AxisCut d R) := selectCuts region signature options.minBoxSize
        throwIf (cuts.isEmpty = true)
          (.logicError "Berger-Rigoutsos failed to select a deterministic split")
        let children ← cuts.foldlM (splitAt region) [region]
        children.foldlM (clusterRecOr stuck mask options fuel) (work, output)

theorem clusterRecOr_eq (fuel : ℕ) (state : Work × List (Box d)) (candidate : Box d) :
    clusterRecOr (fun _ _ => .error nodeBudgetExceeded) mask options fuel state candidate =
      clusterRec mask options fuel state candidate := by
  induction fuel generalizing state candidate with
  | zero => rfl
  | succ fuel ih =>
    have same : clusterRecOr (fun _ _ => .error nodeBudgetExceeded) mask options fuel =
        clusterRec mask options fuel := funext fun state => funext fun candidate => ih state candidate
    rw [clusterRecOr, clusterRec, same]

theorem split_facts (fits : PatchesFit mask) (positive : ∀ axis, 0 < options.minBoxSize axis)
    {candidate : Box d} {work after next : Work} {scan : Scan d} {signature : Fin d → List ℤ}
    (scanned : scanRegion mask candidate work = .ok (scan, after)) (tagged : scan.tagged ≠ 0)
    (split : ∃ axis, Splittable scan.bounds options.minBoxSize axis)
    (signed : signatures mask scan.bounds after = .ok (signature, next)) :
    ¬ scan.bounds.Empty ∧ scan.bounds.cells ⊆ candidate.cells ∧
      (selectCuts scan.bounds signature options.minBoxSize : List (AxisCut d R)).isEmpty = false ∧
      ∀ cut ∈ (selectCuts scan.bounds signature options.minBoxSize : List (AxisCut d R)),
        0 < cut.offset ∧ cut.offset < scan.bounds.length cut.axis := by
  obtain ⟨nonempty, inside, -⟩ := (scanRegion_ok fits scanned).2 tagged
  refine ⟨nonempty, inside, selectCuts_nonempty positive split, fun cut selected => ?_⟩
  refine (selectCuts_strict positive (fun axis => ?_) selected).2
  rw [signatures_length signed axis]
  exact Int.toNat_of_nonneg (Box.length_pos nonempty axis).le

/-- With fuel for the cells of the candidate the fuel never ends: each call of the recursion has a
candidate of fewer cells. -/
theorem clusterRecOr_ends (fits : PatchesFit mask) (positive : ∀ axis, 0 < options.minBoxSize axis)
    (stuck other : Work × List (Box d) → Box d → Checked (Work × List (Box d))) {fuel : ℕ} {candidate : Box d}
    (enough : candidate.cells.card < fuel) (state : Work × List (Box d)) :
    clusterRecOr stuck mask options fuel state candidate = clusterRecOr other mask options fuel state candidate := by
  induction fuel generalizing candidate state with
  | zero => omega
  | succ fuel ih =>
    obtain ⟨work, output⟩ := state
    rw [clusterRecOr, clusterRecOr]
    refine bind_congr_ok fun nodes _ => bind_congr_ok fun scanResult scanned => ?_
    obtain ⟨scan, after⟩ := scanResult
    dsimp only
    split
    · rfl
    · rename_i tagged
      refine bind_congr_ok fun points _ => ?_
      split
      · rfl
      · rename_i splits
        rw [not_or, not_not] at splits
        refine bind_congr_ok fun signedResult signed => ?_
        obtain ⟨signature, next⟩ := signedResult
        obtain ⟨nonempty, inside, some, strict⟩ := split_facts fits positive scanned tagged splits.2 signed
        refine bind_congr_ok fun _ _ => bind_congr_ok fun children cut => ?_
        have smaller := children_smaller nonempty some (selectCuts_different _ signature options.minBoxSize) strict cut
        refine foldlM_congr_ok (fun _ => True) (fun child listed before _ => ?_) (fun _ _ _ _ _ _ => trivial) trivial
        have fewer := Finset.card_lt_card (smaller child listed).2
        have whole := Finset.card_le_card inside
        exact ih (by omega) before

/-- Anything but a `logic_error`. -/
def NoLogicError (exception : Exception) : Prop := ∀ what, exception ≠ .logicError what

namespace NoLogicError

theorem invalidArgument (what : String) : NoLogicError (.invalidArgument what) := fun _ => by simp

theorem overflowError (what : String) : NoLogicError (.overflowError what) := fun _ => by simp

theorem lengthError (what : String) : NoLogicError (.lengthError what) := fun _ => by simp

theorem outOfRange (what : String) : NoLogicError (.outOfRange what) := fun _ => by simp

end NoLogicError

theorem numPts_throws {box : Box d} : Throws NoLogicError box.numPts := by
  unfold Box.numPts
  split
  · exact .ok _
  · refine .foldlM ?_ _ _
    intro count axis
    exact .bind (.throwIf fun _ => .overflowError _) fun _ _ => .pure _

theorem require_throws {used allowed count : ℕ} {what : String} :
    Throws NoLogicError (Work.require used allowed count (.lengthError what)) :=
  .bind (.throwIf fun _ => .lengthError _) fun _ _ => .pure _

theorem forEachCellIn_throws {region : Box d} : Throws NoLogicError (mask.forEachCellIn region) := by
  unfold TagMask.forEachCellIn
  split
  · exact .ok _
  · refine .bind (.mapM (fun patch => ?_) _) fun _ _ => .pure _
    unfold TagMask.forEachCellOf
    dsimp only
    split
    · exact .ok _
    · refine .bind (.bind numPts_throws fun _ _ => .pure _) fun _ _ => .mapM (fun index => ?_) _
      exact .bind (.bind (.throwIf fun _ => .outOfRange _) fun _ _ => .pure _) fun _ _ => .pure _

theorem clusterRec_throws (fits : PatchesFit mask) (positive : ∀ axis, 0 < options.minBoxSize axis) (fuel : ℕ)
    (state : Work × List (Box d)) (candidate : Box d) :
    Throws NoLogicError (clusterRec mask options fuel state candidate) := by
  induction fuel generalizing state candidate with
  | zero =>
    rintro _ ⟨⟩
    exact .lengthError _
  | succ fuel ih =>
    obtain ⟨work, output⟩ := state
    rw [clusterRec]
    refine .bind (.bind (.throwIf fun _ => .lengthError _) fun _ _ => .pure _) fun visitedWork _ => .bind
      (.bind numPts_throws fun _ _ => .bind (.bind require_throws fun _ _ => .pure _) fun _ _ =>
        .bind forEachCellIn_throws fun _ _ => .pure _) fun scanResult scanned => ?_
    obtain ⟨scan, after⟩ := scanResult
    dsimp only
    split
    · exact .pure _
    · rename_i tagged
      refine .bind numPts_throws fun points _ => ?_
      split
      · exact .bind (.throwIf fun _ => .lengthError _) fun _ _ => .pure _
      · rename_i splits
        rw [not_or, not_not] at splits
        refine .bind (.bind numPts_throws fun _ _ => .bind (.bind require_throws fun _ _ => .pure _) fun _ _ =>
          .bind forEachCellIn_throws fun _ _ => .pure _) fun signedResult signed => ?_
        obtain ⟨signature, next⟩ := signedResult
        obtain ⟨-, -, some, strict⟩ := split_facts fits positive scanned tagged splits.2 signed
        obtain ⟨children, made, -⟩ := foldlM_splitAt_returns strict [scan.bounds]
        refine .bind (.throwIf fun none => ?_) fun _ _ => ?_
        · rw [some] at none
          cases none
        · dsimp only
          rw [made, ok_bind]
          exact .foldlM (fun before child => ih before child) _ _

theorem invalid_throws {condition : Prop} [Decidable condition] {what : String} :
    Throws NoLogicError (throwIf condition (.invalidArgument what)) := .throwIf fun _ => .invalidArgument _

theorem axes_throws {α : Type} {allowed : Exception → Prop} {count : ℕ} {f : Fin count → Checked α}
    (each : ∀ axis, Throws allowed (f axis)) : Throws allowed (axes f) := by
  induction count with
  | zero => exact .ok _
  | succ count ih => exact .bind (each 0) fun _ _ => .bind (ih fun axis => each axis.succ) fun _ _ => .pure _

theorem validateOptions_throws : Throws NoLogicError (validateOptions options) := by
  refine .bind invalid_throws fun _ _ => .bind (axes_throws fun axis => ?_) fun _ _ =>
    .bind invalid_throws fun _ _ => invalid_throws
  exact .bind invalid_throws fun _ _ => invalid_throws

theorem validateOptions_ok (accepted : validateOptions options = .ok ()) (axis : Fin d) :
    0 < options.minBoxSize axis := by
  simp only [validateOptions, bind_ok, throwIf_ok, unit_exists] at accepted
  obtain ⟨-, checked, sizes, -⟩ := accepted
  have each := axes_ok.mp sizes axis
  simp only [bind_ok, throwIf_ok, unit_exists, not_or, not_le] at each
  exact each.1.1

theorem linearRank_throws {space : RankSpace d} {coordinate : Index d} :
    Throws NoLogicError (space.linearRank coordinate) :=
  .bind (.throwIf fun _ => .outOfRange _) fun _ _ => .pure _

variable {shards : List (TagMask d)}

omit [LongDouble R] in
theorem authenticateShards_throws : Throws NoLogicError (authenticateShards shards options) := by
  cases shards with
  | nil =>
    rintro _ ⟨⟩
    exact .invalidArgument _
  | cons front others =>
    rw [authenticateShards]
    refine .bind (.throwIf fun _ => .lengthError _) fun _ _ => .bind invalid_throws fun _ _ =>
      .bind invalid_throws fun _ _ => .bind (.bind (.mapM (fun shard => ?_) _) fun _ _ => .pure _)
        fun canonical _ => .bind invalid_throws fun _ _ => .bind invalid_throws fun _ _ =>
          .bind (.forM (fun entry => ?_) _) fun _ _ => ?_
    · exact .bind linearRank_throws fun _ _ => .pure _
    · exact .bind (.bind (.throwIf fun _ => .outOfRange _) fun _ _ => .pure _) fun _ _ => invalid_throws
    · cases front.levelIdentity.distributionMode with
      | replicated =>
        refine .bind (.forM (fun shard => ?_) _) fun _ _ => .pure _
        exact .bind invalid_throws fun _ _ => .bind invalid_throws fun _ _ =>
          .forM (fun entry => invalid_throws) _
      | partitioned =>
        refine .bind (.foldlM (fun seen shard => .foldlM (fun seen patch => ?_) _ _) _ _) fun _ _ =>
          .bind invalid_throws fun _ _ => .pure _
        exact .bind invalid_throws fun _ _ => .bind invalid_throws fun _ _ => .pure _

theorem at'_throws {α : Type} {items : List α} {position : ℕ} : Throws NoLogicError (at' items position) := by
  unfold at'
  split
  · rintro _ ⟨⟩
    exact .outOfRange _
  · exact .ok _

theorem ownerForPatch_throws {canonical : List (TagMask d)} {source : LevelLayoutIdentity d} {position : ℕ} :
    Throws NoLogicError (ownerForPatch canonical source position) := by
  unfold ownerForPatch
  cases source.distributionMode with
  | replicated => exact at'_throws
  | partitioned => exact .bind at'_throws fun _ _ => .bind linearRank_throws fun _ _ => at'_throws

omit [LongDouble R] in
theorem chop_throws (state : Work × List (Box d)) (box : Box d) : Throws NoLogicError (chop options state box) := by
  have volume {what : String} {extents : Fin d → ℕ} :
      Throws NoLogicError (checkedVolume (.lengthError what) extents) := by
    unfold checkedVolume
    refine .foldlM ?_ _ _
    intro product axis
    exact .bind (.throwIf fun _ => .lengthError _) fun _ _ => .pure _
  refine .bind volume fun _ _ => .bind (.bind require_throws fun _ _ => .pure _) fun _ _ => .bind ?_ fun _ _ => .pure _
  refine .bind invalid_throws fun _ _ => ?_
  split
  · exact .pure _
  · exact .bind volume fun _ _ => .bind (.throwIf fun _ => .lengthError _) fun _ _ => .pure _

/-- The refusals that depend on the number of shards and owners: the identity budget, and a count beyond it. -/
def IdentityRefused (exception : Exception) : Prop :=
  exception = .lengthError "Berger-Rigoutsos exceeds its identity-copy byte budget" ∨
    exception = .lengthError "Berger-Rigoutsos identity byte count exceeds size_t"

theorem requireIdentity_throws (work : Work) (count : ℕ) : Throws IdentityRefused (work.requireIdentity count) :=
  .bind (.bind (.throwIf fun _ => .inl rfl) fun _ _ => .pure _) fun _ _ => .pure _

theorem checkedProduct_throws {left right : ℕ} : Throws IdentityRefused (checkedProduct left right) :=
  .bind (.throwIf fun _ => .inr rfl) fun _ _ => .pure _

theorem requireShards_throws {sizes : ObjectSizes} {mode : DistributionMode} {canonical : List (TagMask d)}
    {work : Work} :
    Throws IdentityRefused (requireShards sizes mode canonical work) := by
  unfold requireShards
  refine .foldlM (fun work entry => ?_) _ _
  dsimp only
  split
  · exact .ok _
  · exact .bind checkedProduct_throws fun _ _ => .bind (requireIdentity_throws _ _) fun _ _ =>
      .foldlM (fun work patch => requireIdentity_throws work _) _ _

theorem IdentityRefused.noLogicError (exception : Exception) (refused : IdentityRefused exception) :
    NoLogicError exception := by
  rcases refused with rfl | rfl
  · exact .lengthError _
  · exact .lengthError _

theorem cluster_throws (sizes : ObjectSizes) (shards : List (TagMask d)) (options : ClusterOptions d R) :
    Throws NoLogicError (cluster sizes shards options) := by
  have identity (work : Work) (count : ℕ) : Throws NoLogicError (work.requireIdentity count) :=
    (requireIdentity_throws work count).mono IdentityRefused.noLogicError
  have product {left right : ℕ} : Throws NoLogicError (checkedProduct left right) :=
    checkedProduct_throws.mono IdentityRefused.noLogicError
  refine .bind validateOptions_throws fun _ accepted => .bind authenticateShards_throws
    fun authenticated authenticates => ?_
  obtain ⟨source, canonical⟩ := authenticated
  have authentic := authenticateShards_ok authenticates
  obtain ⟨first, firstListed⟩ := List.exists_mem_of_ne_nil _ authentic.nonempty
  have isSource : first.level.exactIdentity = source := authentic.identity first firstListed
  dsimp only
  refine .bind (.foldlM (fun state patch => ?_) _ _) fun clustered _ => ?_
  · refine .bind (.throwIf fun _ => .lengthError _) fun _ _ => .bind ownerForPatch_throws fun owner owns => ?_
    exact clusterRec_throws (authentic.patchesFit isSource (owner_listed owns)) (validateOptions_ok accepted) _ _ _
  · exact .bind (.foldlM chop_throws _ _) fun chopped _ => .bind (identity _ _) fun _ _ => .bind product fun _ _ =>
      .bind (identity _ _) fun _ _ => .bind product fun _ _ => .bind (identity _ _) fun _ _ => .bind product fun _ _ =>
        .bind (identity _ _) fun _ _ => .bind product fun _ _ => .bind (identity _ _) fun _ _ =>
          .bind (requireShards_throws.mono IdentityRefused.noLogicError) fun _ _ => .pure _

/-- The splitter terminates. Where some axis can be split a cut is selected, and every selected cut is strictly
inside the region, so both parts of whatever it halves are non-empty and smaller. The recursion ends by the cells
of its candidate, without its budgets: no outcome of missing fuel is ever seen. And neither the recursion nor the
clustering ever throws one of its internal errors. -/
theorem clustering_terminates (mask : TagMask d) (fits : PatchesFit mask) (options : ClusterOptions d R)
    (positive : ∀ axis, 0 < options.minBoxSize axis) :
    (∀ (region : Box d) (signature : Fin d → List ℤ), ¬ region.Empty →
      (∀ axis, ((signature axis).length : ℤ) = region.length axis) →
      (∃ axis, Splittable region options.minBoxSize axis) →
        (selectCuts region signature options.minBoxSize : List (AxisCut d R)) ≠ [] ∧
        ∀ cut ∈ (selectCuts region signature options.minBoxSize : List (AxisCut d R)),
          0 < cut.offset ∧ cut.offset < region.length cut.axis ∧
          ∀ child : Box d, ¬ child.Empty →
            child.lo cut.axis = region.lo cut.axis ∧ child.hi cut.axis = region.hi cut.axis →
            ∀ half ∈ [leftHalf region cut.axis cut.offset child, rightHalf region cut.axis cut.offset child],
              ¬ half.Empty ∧ half.cells ⊂ child.cells) ∧
    (∀ (candidate : Box d) (state : Work × List (Box d)) (fuel : ℕ), candidate.cells.card < fuel →
      ∀ stuck, clusterRecOr stuck mask options fuel state candidate = clusterRec mask options fuel state candidate) ∧
    (∀ (candidate : Box d) (state : Work × List (Box d)) (fuel : ℕ),
      Throws NoLogicError (clusterRec mask options fuel state candidate)) ∧
    ∀ (sizes : ObjectSizes) (shards : List (TagMask d)), Throws NoLogicError (cluster sizes shards options) := by
  refine ⟨fun region signature nonempty slices splits => ?_, fun candidate state fuel enough stuck => ?_,
    fun candidate state fuel => clusterRec_throws fits positive fuel state candidate,
    fun sizes shards => cluster_throws sizes shards options⟩
  · refine ⟨List.isEmpty_eq_false_iff.mp (selectCuts_nonempty positive splits), fun cut selected => ?_⟩
    obtain ⟨-, above, below⟩ := selectCuts_strict positive slices selected
    refine ⟨above, below, fun child childNonempty spans => ?_⟩
    rw [Box.length_of_nonempty nonempty] at below
    exact halves_smaller childNonempty spans ⟨above, below⟩
  · rw [← clusterRecOr_eq]
    exact clusterRecOr_ends fits positive _ _ enough state

/-- The two-patch line is split until it ends. -/
theorem clustering_terminates_line :
    Throws NoLogicError (cluster lineSizes [lineMask] lineOptions) :=
  (clustering_terminates lineMask (by unfold PatchesFit; decide) lineOptions (by decide)).2.2.2 lineSizes [lineMask]

end Pops.BergerRigoutsos
