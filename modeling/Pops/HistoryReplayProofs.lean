import Pops.HistoryReplay

/-!
A Program that the gate accepts for a selective ring steps the owner of the ring by a polynomial
in `dt`, so replaying from the anchors of a checkpoint rebuilds the slots between them.
-/
namespace Pops.HistoryReplay

/-- The coefficient as a polynomial. -/
noncomputable def CoeffPolynomial.polynomial (coeff : CoeffPolynomial) : Polynomial ℚ :=
  (coeff.map fun term => Polynomial.C term.2 * Polynomial.X ^ term.1).sum

theorem eval_polynomial (coeff : CoeffPolynomial) (dt : ℚ) :
    (CoeffPolynomial.polynomial coeff).eval dt = CoeffPolynomial.at coeff dt := by
  induction coeff with
  | nil => simp [CoeffPolynomial.polynomial, CoeffPolynomial.at]
  | cons term later ih =>
    simp only [CoeffPolynomial.polynomial, CoeffPolynomial.at, List.map_cons, List.sum_cons, Polynomial.eval_add] at ih ⊢
    rw [ih]
    simp

variable {program : Program} {owner : TimeState} {id : ℕ}

/-- In every step the value is one polynomial in `dt` times the owner state, whatever else the
image holds and the runtime does. -/
def OwnerAffine (program : Program) (state : String) (id : ℕ) : Prop :=
  ∃ p : Polynomial ℚ, ∀ (V W : Type) [AddCommGroup V] [Module ℚ V] (native : Native V W) (image : Image V W) (dt : ℚ)
    (bound : ℕ), id < bound → evaluate program native image dt bound id = p.eval dt • image.states state

theorem mem_inputs {value : ProgramValue} {input : ℕ} (member : input ∈ effectiveInputs value) : input ∈ value.inputs := by
  unfold effectiveInputs at member
  split at member
  · exact member
  · obtain ⟨term, kept, rfl⟩ := List.mem_map.mp member
    exact (List.of_mem_zip (List.mem_filter.mp kept).1).1

variable {state : String} {nesting : ℕ} {anchors : List ℕ}

theorem affine_terms (limit : ℕ) {terms : List (ℕ × CoeffPolynomial)} (earlier : ∀ term ∈ terms, term.1 < limit)
    (good : ∀ term ∈ terms, term.2.isEmpty = false → OwnerAffine program state term.1) :
    ∃ p : Polynomial ℚ, ∀ (V W : Type) [AddCommGroup V] [Module ℚ V] (native : Native V W) (image : Image V W) (dt : ℚ)
      (bound : ℕ), limit ≤ bound →
        (terms.map fun term => CoeffPolynomial.at term.2 dt • evaluate program native image dt bound term.1).sum =
          p.eval dt • image.states state := by
  induction terms with
  | nil => exact ⟨0, by simp⟩
  | cons term later ih =>
    obtain ⟨rest, sums⟩ := ih (fun other member => earlier other (List.mem_cons_of_mem _ member))
      (fun other member => good other (List.mem_cons_of_mem _ member))
    cases empty : term.2.isEmpty with
    | true =>
      refine ⟨rest, fun V W _ _ native image dt bound large => ?_⟩
      rw [List.map_cons, List.sum_cons, sums V W native image dt bound large, List.isEmpty_iff.mp empty]
      simp [CoeffPolynomial.at]
    | false =>
      obtain ⟨first, value⟩ := good term (List.mem_cons_self ..) empty
      refine ⟨CoeffPolynomial.polynomial term.2 * first + rest, fun V W _ _ native image dt bound large => ?_⟩
      have below : term.1 < bound := (earlier term (List.mem_cons_self ..)).trans_le large
      rw [List.map_cons, List.sum_cons, sums V W native image dt bound large, value V W native image dt bound below,
        Polynomial.eval_add, Polynomial.eval_mul, eval_polynomial, add_smul, mul_smul]

theorem combine_affine (combine : (program.value id).op = "linear_combine")
    (unscheduled : (program.value id).scheduled = false)
    (good : ∀ input ∈ effectiveInputs (program.value id), OwnerAffine program state input) : OwnerAffine program state id := by
  have kept : ∀ term ∈ (program.value id).inputs.zip (program.value id).coeffs, term.2.isEmpty = false →
      OwnerAffine program state term.1 := by
    intro term member weighted
    refine good term.1 ?_
    rw [effectiveInputs, if_neg (by simp [combine, program.aligned id combine])]
    exact List.mem_map.mpr ⟨term, List.mem_filter.mpr ⟨member, by simp [weighted]⟩, rfl⟩
  obtain ⟨p, sums⟩ := affine_terms id
    (fun term member => program.earlier id term.1 (List.of_mem_zip member).1) kept
  refine ⟨p, fun V W _ _ native image dt bound large => ?_⟩
  cases bound with
  | zero => exact absurd large (Nat.not_lt_zero _)
  | succ bound =>
    rw [evaluate]
    simpa [unscheduled, combine] using sums V W native image dt bound (Nat.lt_succ_iff.mp large)

theorem state_affine (reads : (program.value id).op = "state") (own : (program.value id).stateRef = some state)
    (unscheduled : (program.value id).scheduled = false) :
    OwnerAffine program state id := by
  refine ⟨1, fun V W _ _ native image dt bound large => ?_⟩
  cases bound with
  | zero => exact absurd large (Nat.not_lt_zero _)
  | succ bound =>
    rw [evaluate]
    simp [unscheduled, reads, own]

theorem visitAll_affine {bound limit : ℕ} {inputs seen after : List ℕ}
    (spec : ∀ {input : ℕ} {seen after : List ℕ}, input ∈ program.values →
      (∀ other ∈ seen, other ≤ input → OwnerAffine program owner.state other) →
      visit program owner bound input seen = (none, after) →
        OwnerAffine program owner.state input ∧ ∀ other ∈ after, other ∈ seen ∨ OwnerAffine program owner.state other)
    (earlier : ∀ input ∈ inputs, input < limit ∧ input ∈ program.values)
    (known : ∀ other ∈ seen, other < limit → OwnerAffine program owner.state other)
    (done : visitAll (visit program owner bound) inputs seen = (none, after)) :
    (∀ input ∈ inputs, OwnerAffine program owner.state input) ∧
      ∀ other ∈ after, other ∈ seen ∨ OwnerAffine program owner.state other := by
  induction inputs generalizing seen with
  | nil =>
    cases done
    exact ⟨fun _ impossible => absurd impossible List.not_mem_nil, fun _ member => .inl member⟩
  | cons input later ih =>
    obtain ⟨below, listed⟩ := earlier input (List.mem_cons_self ..)
    cases visited : visit program owner bound input seen with
    | mk reason middle =>
      simp only [visitAll, visited] at done
      cases reason with
      | some reason => cases done
      | none =>
        simp only at done
        obtain ⟨first, new⟩ := spec listed (fun other member small => known other member (by omega)) visited
        have kept : ∀ other ∈ middle, other < limit → OwnerAffine program owner.state other := fun other member small =>
          (new other member).elim (fun old => known other old small) (fun fresh => fresh)
        obtain ⟨others, grown⟩ := ih (fun other member => earlier other (List.mem_cons_of_mem _ member)) kept done
        refine ⟨List.forall_mem_cons.mpr ⟨first, others⟩, fun other member => ?_⟩
        exact (grown other member).elim (fun inside => new other inside) .inr

/-- What `visit` does not refuse is affine in the owner state, and so is everything it has seen on
the way. -/
theorem visit_affine (unscheduled : ∀ id ∈ program.values, (program.value id).scheduled = false) {bound : ℕ}
    {seen after : List ℕ} (listed : id ∈ program.values)
    (known : ∀ other ∈ seen, other ≤ id → OwnerAffine program owner.state other)
    (done : visit program owner bound id seen = (none, after)) :
    OwnerAffine program owner.state id ∧ ∀ other ∈ after, other ∈ seen ∨ OwnerAffine program owner.state other := by
  induction bound generalizing id seen after with
  | zero => cases done
  | succ bound ih =>
    simp only [visit] at done
    split at done
    · rename_i visited
      cases done
      exact ⟨known id visited le_rfl, fun other member => .inl member⟩
    · split at done
      · cases done
      · split at done
        · cases done
        · rename_i affineOp
          split at done
          · cases done
          · split at done
            · cases done
            · rename_i otherState
              have earlier : ∀ input ∈ effectiveInputs (program.value id), input < id ∧ input ∈ program.values :=
                fun input member => ⟨program.earlier id input (mem_inputs member),
                  program.listed id listed input (mem_inputs member)⟩
              have before : ∀ other ∈ id :: seen, other < id → OwnerAffine program owner.state other := by
                intro other member small
                rcases List.mem_cons.mp member with rfl | old
                · exact absurd small (lt_irrefl _)
                · exact known other old small.le
              obtain ⟨inputs, grown⟩ := visitAll_affine (fun listed known done => ih listed known done) earlier before done
              have good : OwnerAffine program owner.state id := by
                simp only [ownerAffineOps, List.mem_cons, List.not_mem_nil, or_false, not_not] at affineOp
                rcases affineOp with reads | combine
                · have own : (program.value id).stateRef = some owner.state := not_not.mp fun other => otherState ⟨reads, other⟩
                  exact state_affine reads own (unscheduled id listed)
                · exact combine_affine combine (unscheduled id listed) inputs
              refine ⟨good, fun other member => ?_⟩
              rcases grown other member with inside | fresh
              · rcases List.mem_cons.mp inside with rfl | old
                · exact .inr good
                · exact .inl old
              · exact .inr fresh

theorem mem_walkOps {values : List ℕ} (member : id ∈ values) : id ∈ walkOps program nesting values := by
  cases nesting with
  | zero => exact member
  | succ nesting => exact List.mem_flatMap.mpr ⟨id, member, List.mem_cons_self ..⟩

theorem unscheduled_of_context (context : programContextRefusal program nesting = none) :
    ∀ id ∈ program.values, (program.value id).scheduled = false := by
  intro id member
  have allowed := List.findSome?_eq_none_iff.mp context id (mem_walkOps member)
  simp only at allowed
  split at allowed
  · cases allowed
  · split at allowed
    · cases allowed
    · rename_i free
      simpa using free

/-- One step multiplies the owner state by the polynomial. -/
def StepsBy (program : Program) (state : String) (p : Polynomial ℚ) : Prop :=
  ∀ (V W : Type) [AddCommGroup V] [Module ℚ V] (native : Native V W) (image : Image V W) (dt : ℚ),
    (step program native image dt).states state = p.eval dt • image.states state

theorem exists_stepsBy (affine : ownerAffineRefusal program owner = none)
    (context : programContextRefusal program nesting = none) : ∃ p, StepsBy program owner.state p := by
  unfold ownerAffineRefusal at affine
  split at affine
  · cases affine
  · rename_i committed commits
    have visited : visit program owner (committed + 1) committed [] =
        (none, (visit program owner (committed + 1) committed []).2) := Prod.ext affine rfl
    obtain ⟨⟨p, value⟩, -⟩ := visit_affine (unscheduled_of_context context) (program.committed _ _ commits)
      (fun _ impossible => absurd impossible List.not_mem_nil) visited
    refine ⟨p, fun V W _ _ native image dt => ?_⟩
    simp only [step, commits]
    exact value V W native image dt (committed + 1) (Nat.lt_succ_self _)

theorem gate_ok {nesting depth : ℕ} {name : String} {policy : HistoryPersistence}
    (accepted : validateHistoryPersistence program nesting = []) (recorded : (name, depth, policy) ∈ program.persistence)
    (selective : policy.degenerateToDense depth = false) :
    ∃ owner, replayProvenance program name = some owner ∧ ownerAffineRefusal program owner = none ∧
      programContextRefusal program nesting = none := by
  have issues : policyIssues program nesting name depth policy = [] := by
    have all := (List.append_eq_nil_iff.mp accepted).2
    have mine := List.flatMap_eq_nil_iff.mp all (name, depth, policy) recorded
    exact List.map_eq_nil_iff.mp mine
  unfold policyIssues at issues
  split at issues
  · cases issues
  · split at issues
    · cases issues
    · simp only [selective, Bool.false_eq_true, if_false, List.append_eq_nil_iff] at issues
      obtain ⟨provenance, -⟩ := issues
      split at provenance
      · cases provenance
      · rename_i owner known
        simp only [List.append_eq_nil_iff] at provenance
        obtain ⟨⟨-, affine⟩, context⟩ := provenance
        refine ⟨owner, known, ?_, ?_⟩
        · cases reason : ownerAffineRefusal program owner with
          | none => rfl
          | some reason => simp [reason] at affine
        · cases reason : programContextRefusal program nesting with
          | none => rfl
          | some reason => simp [reason] at context

/-- The last store of the Program on a ring keeps the owner's current state, as `keep_history` does. -/
def KeepsOwner (program : Program) (name : String) (owner : TimeState) : Prop :=
  ∃ id input, (ringStores program name).getLast? = some id ∧ (program.value id).inputs = [input] ∧
    (program.value input).op = "state" ∧ (program.value input).stateRef = some owner.state

section Replay
variable {V W : Type} [AddCommGroup V] [Module ℚ V] (native : Native V W) {p : Polynomial ℚ} {depth steps : ℕ}
  {name : String}

omit [AddCommGroup V] [Module ℚ V] in
theorem store_deep {ring : Ring V} (started : ring.initialized = true) (value : V) (dt : ℚ) {k : ℕ} (deep : k ≠ 0) :
    (ring.store value dt).slot k = ring.slot k ∧ (ring.store value dt).slotDt k = ring.slotDt k := by
  simp [Ring.store, started, deep]

/-- The stores of a step leave the deeper slots of a ring that was filled before. -/
theorem stores_deep (image : Image V W) (dt : ℚ) (stores : List ℕ) {ring : Ring V} (started : ring.initialized = true)
    {k : ℕ} (deep : k ≠ 0) :
    let after := stores.foldl (fun ring id => ring.store (storedValue program native image dt id) dt) ring
    after.slot k = ring.slot k ∧ after.slotDt k = ring.slotDt k := by
  induction stores generalizing ring with
  | nil => exact ⟨rfl, rfl⟩
  | cons id later ih =>
    have first := store_deep started (storedValue program native image dt id) dt deep
    have rest := @ih (ring.store (storedValue program native image dt id) dt) rfl
    exact ⟨rest.1.trans first.1, rest.2.trans first.2⟩

theorem storeHistories_newest (unscheduled : ∀ id ∈ program.values, (program.value id).scheduled = false)
    (keeps : KeepsOwner program name owner) (image : Image V W) (dt : ℚ) (ring : Ring V) :
    ringStores program name ≠ [] ∧
      (storeHistories program native name image dt ring).slot 0 = image.states owner.state ∧
      (storeHistories program native name image dt ring).slotDt 0 = dt ∧
      (storeHistories program native name image dt ring).initialized = true := by
  obtain ⟨id, input, last, inputs, reads, own⟩ := keeps
  have listed : id ∈ program.values := (List.mem_filter.mp (List.mem_of_getLast? last)).1
  have known : input ∈ program.values := program.listed id listed input (by rw [inputs]; exact List.mem_singleton_self _)
  have value : storedValue program native image dt id = image.states owner.state := by
    rw [storedValue, inputs]
    simp only
    rw [evaluate]
    simp [unscheduled input known, reads, own]
  obtain ⟨front, stores⟩ := List.getLast?_eq_some_iff.mp last
  refine ⟨by rw [stores]; simp, ?_⟩
  rw [storeHistories, stores, List.foldl_append, List.foldl_cons, List.foldl_nil, value]
  exact ⟨rfl, rfl, rfl⟩

/-- What the slots of a ring that were stored since its steps are counted hold. -/
structure Recorded (p : Polynomial ℚ) (owner : TimeState) (depth steps : ℕ) (image : Image V W) (ring : Ring V) : Prop where
  started : 1 ≤ steps → ring.initialized = true
  current : 1 ≤ steps → image.states owner.state = p.eval (ring.slotDt 1) • ring.slot 1
  sample : ∀ j, 1 ≤ j → j + 1 < depth → j + 1 ≤ steps → ring.slot j = p.eval (ring.slotDt (j + 1)) • ring.slot (j + 1)
  positive : ∀ j, 1 ≤ j → j < depth → j ≤ steps → 0 < ring.slotDt j

section
variable (unscheduled : ∀ id ∈ program.values, (program.value id).scheduled = false)
  (keeps : KeepsOwner program name owner)
include unscheduled keeps

theorem acceptedStep_recorded (affine : StepsBy program owner.state p) {before : Image V W × Ring V} {dt : ℚ}
    (recorded : Recorded p owner depth steps before.1 before.2) (advances : 0 < dt) :
    Recorded p owner depth (steps + 1) (acceptedStep program native name depth before dt).1
      (acceptedStep program native name depth before dt).2 := by
  obtain ⟨stores, kept, interval, filled⟩ := storeHistories_newest native unscheduled keeps before.1 dt before.2
  have rotated : (acceptedStep program native name depth before dt).2 =
      (storeHistories program native name before.1 dt before.2).rotate depth :=
    if_neg (by simpa using stores)
  have shifted : ∀ j, 1 ≤ j → 1 ≤ steps →
      (acceptedStep program native name depth before dt).2.slot (j + 1) = before.2.slot j ∧
        (acceptedStep program native name depth before dt).2.slotDt (j + 1) = before.2.slotDt j := by
    intro j later some
    have deep : j ≠ 0 := by omega
    rw [rotated]
    simpa [Ring.rotate, storeHistories] using stores_deep native before.1 dt (ringStores program name) (recorded.started some) deep
  have newest : (acceptedStep program native name depth before dt).2.slot 1 = before.1.states owner.state ∧
      (acceptedStep program native name depth before dt).2.slotDt 1 = dt := by
    rw [rotated]
    exact ⟨kept, interval⟩
  refine ⟨fun _ => by rw [rotated]; exact filled, fun _ => ?_, fun j first inside counted => ?_,
    fun j first inside counted => ?_⟩
  · rw [newest.1, newest.2]
    exact affine V W native before.1 dt
  · obtain ⟨slot, interval⟩ := shifted j first (by omega)
    rw [slot, interval]
    cases j with
    | zero => exact absurd first (by omega)
    | succ j =>
      cases j with
      | zero =>
        rw [newest.1]
        exact recorded.current (by omega)
      | succ j =>
        rw [(shifted (j + 1) (by omega) (by omega)).1]
        exact recorded.sample (j + 1) (by omega) (by omega) (by omega)
  · cases j with
    | zero => exact absurd first (by omega)
    | succ j =>
      cases j with
      | zero =>
        rw [newest.2]
        exact advances
      | succ j =>
        rw [(shifted (j + 1) (by omega) (by omega)).2]
        exact recorded.positive (j + 1) (by omega) (by omega) (by omega)

theorem run_recorded (affine : StepsBy program owner.state p) {before : Image V W × Ring V} {dts : List ℚ}
    (recorded : Recorded p owner depth steps before.1 before.2) (advances : ∀ dt ∈ dts, 0 < dt) :
    Recorded p owner depth (steps + dts.length) (dts.foldl (acceptedStep program native name depth) before).1
      (dts.foldl (acceptedStep program native name depth) before).2 := by
  induction dts generalizing before steps with
  | nil => exact recorded
  | cons dt later ih =>
    have next := acceptedStep_recorded native unscheduled keeps affine recorded (advances dt (List.mem_cons_self ..))
    have all := ih next (fun other member => advances other (List.mem_cons_of_mem _ member))
    rw [List.length_cons, Nat.add_comm later.length, ← Nat.add_assoc]
    exact all

end

section Gaps
variable {live saved : Ring V}

theorem replayGap_slots {image : Image V W} (affine : StepsBy program owner.state p)
    (sample : ∀ j, 1 ≤ j → j + 1 < depth → live.slot j = p.eval (live.slotDt (j + 1)) • live.slot (j + 1))
    (intervals : ∀ j < depth, saved.slotDt j = live.slotDt j) (newer : ℕ) {older : ℕ} (inside : older < depth)
    (seeded : image.states owner.state = live.slot older) :
    (∀ entry ∈ replayGap program native owner saved.slotDt newer older image, entry.2 = live.slot entry.1) ∧
      ∀ j, newer < j → j < older → ∃ value, (j, value) ∈ replayGap program native owner saved.slotDt newer older image := by
  induction older generalizing image with
  | zero => exact ⟨fun _ impossible => absurd impossible List.not_mem_nil, fun j _ below => absurd below (Nat.not_lt_zero j)⟩
  | succ j ih =>
    by_cases between : newer < j
    · have stepped : (step program native image (saved.slotDt (j + 1))).states owner.state = live.slot j := by
        rw [affine V W native image, seeded, intervals (j + 1) inside, ← sample j (by omega) inside]
      obtain ⟨values, covered⟩ := ih (by omega) stepped
      simp only [replayGap, if_pos between]
      refine ⟨List.forall_mem_cons.mpr ⟨stepped, values⟩, fun k above below => ?_⟩
      rcases Nat.lt_succ_iff_lt_or_eq.mp below with less | rfl
      · obtain ⟨value, member⟩ := covered k above less
        exact ⟨value, List.mem_cons_of_mem _ member⟩
      · exact ⟨_, List.mem_cons_self ..⟩
    · simp only [replayGap, if_neg between]
      exact ⟨fun _ impossible => absurd impossible List.not_mem_nil, fun k above below => absurd above (by omega)⟩

theorem reconstructed_slots (image : Image V W) (affine : StepsBy program owner.state p)
    (sample : ∀ j, 1 ≤ j → j + 1 < depth → live.slot j = p.eval (live.slotDt (j + 1)) • live.slot (j + 1))
    (intervals : ∀ j < depth, saved.slotDt j = live.slotDt j) (inside : ∀ anchor ∈ anchors, anchor < depth)
    (stored : ∀ anchor ∈ anchors, saved.slot anchor = live.slot anchor) :
    (∀ entry ∈ reconstructed program native owner image saved anchors, entry.2 = live.slot entry.1) ∧
      ∀ first last, anchors.head? = some first → anchors.getLast? = some last → ∀ j, first ≤ j → j ≤ last →
        j ∈ anchors ∨ ∃ value, (j, value) ∈ reconstructed program native owner image saved anchors := by
  induction anchors with
  | nil => exact ⟨fun _ impossible => absurd impossible List.not_mem_nil, fun _ _ impossible => by cases impossible⟩
  | cons newer rest ih =>
    cases rest with
    | nil =>
      refine ⟨fun _ impossible => absurd impossible List.not_mem_nil, fun first last head final j above below => .inl ?_⟩
      cases head
      cases final
      exact List.mem_singleton.mpr (le_antisymm below above)
    | cons older later =>
      obtain ⟨values, covered⟩ := ih (fun anchor member => inside anchor (List.mem_cons_of_mem _ member))
        (fun anchor member => stored anchor (List.mem_cons_of_mem _ member))
      have member : older ∈ newer :: older :: later := List.mem_cons_of_mem _ (List.mem_cons_self ..)
      have seeded : ({ image with states := Function.update image.states owner.state (saved.slot older) } : Image V W).states
          owner.state = live.slot older := by
        show Function.update image.states owner.state (saved.slot older) owner.state = live.slot older
        rw [Function.update_self, stored older member]
      obtain ⟨gap, filled⟩ := replayGap_slots native affine sample intervals newer (inside older member) seeded
      simp only [reconstructed]
      refine ⟨fun entry inside => (List.mem_append.mp inside).elim (gap entry) (values entry), ?_⟩
      intro first last head final j above below
      cases head
      rcases Nat.lt_or_ge j older with early | late
      · rcases Nat.lt_or_eq_of_le above with between | rfl
        · obtain ⟨value, found⟩ := filled j between early
          exact .inr ⟨value, List.mem_append_left _ found⟩
        · exact .inl (List.mem_cons_self ..)
      · rcases covered older last rfl (by rwa [List.getLast?_cons_cons] at final) j late below with anchor | ⟨value, found⟩
        · exact .inl (List.mem_cons_of_mem _ anchor)
        · exact .inr ⟨value, List.mem_append_right _ found⟩

theorem omitted_between {j : ℕ} (member : j ∈ omitted anchors) : 1 ≤ j ∧ ∃ older ∈ anchors, j < older := by
  induction anchors with
  | nil => cases member
  | cons newer rest ih =>
    cases rest with
    | nil => cases member
    | cons older later =>
      rcases List.mem_append.mp member with gap | further
      · obtain ⟨below, above⟩ := List.mem_filter.mp gap
        have above : newer < j := of_decide_eq_true above
        exact ⟨by omega, older, List.mem_cons_of_mem _ (List.mem_cons_self ..), List.mem_range.mp below⟩
      · obtain ⟨first, anchor, known, below⟩ := ih further
        exact ⟨first, anchor, List.mem_cons_of_mem _ known, below⟩

/-- A checkpoint of a ring: the anchors and all the intervals are as they were. -/
structure Restored (live saved : Ring V) (depth : ℕ) (anchors : List ℕ) : Prop where
  stored : ∀ anchor ∈ anchors, saved.slot anchor = live.slot anchor
  intervals : ∀ j < depth, saved.slotDt j = live.slotDt j

theorem rebuild_slots {image : Image V W} (affine : StepsBy program owner.state p)
    (recorded : Recorded p owner depth steps image live) (filled : depth ≤ steps) {restart : Image V W}
    (increasing : anchors.Pairwise (· < ·)) (newest : anchors.head? = some 0)
    (oldest : anchors.getLast?.map (· + 1) = some depth) (restored : Restored live saved depth anchors) :
    ∃ rebuilt, rebuildHistorySlots program native owner depth restart saved anchors = some rebuilt ∧
      ∀ j < depth, rebuilt.slot j = live.slot j := by
  obtain ⟨last, final, rfl⟩ := Option.map_eq_some_iff.mp oldest
  have inside : ∀ anchor ∈ anchors, anchor < last + 1 := by
    obtain ⟨front, rfl⟩ := List.getLast?_eq_some_iff.mp final
    intro anchor member
    rcases List.mem_append.mp member with before | same
    · exact ((List.pairwise_append.mp increasing).2.2 anchor before last (List.mem_singleton_self _)).trans (Nat.lt_succ_self _)
    · rw [List.mem_singleton.mp same]
      exact Nat.lt_succ_self _
  have sample : ∀ j, 1 ≤ j → j + 1 < last + 1 → live.slot j = p.eval (live.slotDt (j + 1)) • live.slot (j + 1) :=
    fun j first below => recorded.sample j first below (by omega)
  obtain ⟨values, covered⟩ := reconstructed_slots native restart affine sample restored.intervals inside
    restored.stored
  have positive : ¬(omitted anchors).any fun j => saved.slotDt (j + 1) ≤ 0 := by
    intro some
    obtain ⟨j, member, flat⟩ := List.any_eq_true.mp some
    obtain ⟨first, older, anchor, below⟩ := omitted_between member
    have depthBound := inside older anchor
    have advanced := recorded.positive (j + 1) (by omega) (by omega) (by omega)
    rw [← restored.intervals (j + 1) (by omega)] at advanced
    exact absurd (of_decide_eq_true flat) (not_le.mpr advanced)
  have bounded : ¬(anchors.head? ≠ some 0 ∨ anchors.getLast?.map (· + 1) ≠ some (last + 1)) := by
    rw [newest, oldest]
    simp
  refine ⟨_, by rw [rebuildHistorySlots, if_neg bounded, if_neg positive], fun j below => ?_⟩
  show ((List.find? _ _).map Prod.snd).getD (saved.slot j) = live.slot j
  cases found : (reconstructed program native owner restart saved anchors).find? fun slot => slot.1 = j with
  | some entry =>
    have member := List.mem_of_find?_eq_some found
    have same : entry.1 = j := by simpa using List.find?_some found
    rw [← same]
    exact values entry member
  | none =>
    have missing := List.find?_eq_none.mp found
    rcases covered 0 last newest final j (Nat.zero_le _) (Nat.lt_succ_iff.mp below) with anchor | ⟨value, member⟩
    · exact restored.stored j anchor
    · exact absurd (decide_eq_true rfl) (missing (j, value) member)

end Gaps

end Replay

/-- Other values are zero, and nothing but the states is kept. -/
def silent : Native ℚ Unit := { other := fun _ _ _ => 0, rest := fun _ _ => () }

/-- The owner of the ring of the decay. -/
def decayOwner : TimeState := { block := "fluid", state := "U", clock := "primary" }

/-- Three steps of a decay from one, with an empty ring. -/
def decayRun (again : Bool) : Image ℚ Unit × Ring ℚ :=
  [1 / 2, 1 / 4, 1 / 8].foldl (acceptedStep (decay again) silent "fluid.U" 3)
    ({ states := fun _ => 1, rest := () }, { slot := fun _ => 0, slotDt := fun _ => 0, initialized := false })

end Pops.HistoryReplay
