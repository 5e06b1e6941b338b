import Mathlib
import Pops.FieldSolvePass
import Pops.ProgramPassesProofs

/-!
A dropped field solve repeats its representative, provided nothing between the two hides
a barrier in a sub-block. The scan itself only looks at the flat list.
-/
namespace Pops.ProgramPasses

variable {Data : Type} [DecidableEq Data] {V S F : Type}

/-- The operations that write a state in place and are not among the barriers of the scan. -/
def unlistedOps : List String := ["condensed_reconstruct", "condensed_energy"]

omit [DecidableEq Data] in
/-- The value changes what a solve sees and the scan does not notice: it writes a state in place and
is not listed, or a barrier or such an operation stands in a sub-block of it. -/
def Hides (v : ProgramValue Data) : Prop :=
  v.op ∈ unlistedOps ∨ ∃ inner ∈ attrNodes v.attrs, inner.op ∈ stateBarrierOps ++ unlistedOps

/-- Nothing that the scan calls a barrier, neither in the flat list nor in a sub-block. -/
def Quiet (commitIds : List ℕ) (v : ProgramValue Data) : Prop :=
  v.op ∉ stateBarrierOps ∧ v.id ∉ commitIds ∧ ¬Hides v

/-- What the operations do to the fields: quiet ones leave them, and a solve that is repeated
over what it left finds the same fields. -/
structure SolvesFields (commitIds : List ℕ) (exec : Execution Data V S) (view : S → F) : Prop where
  quiet : ∀ v read store, Quiet commitIds v → view (exec v read store).2 = view store
  repeated : ∀ v w : ProgramValue Data, v.op = "solve_fields" → w.op = "solve_fields" → v.attrs = w.attrs →
    ∀ read before store, view store = view (exec v read before).2 →
      exec w read store = ((exec v read before).1, store)

/-- A dropped solve and the one that replaces it, with what lies between them. -/
structure Dropped (p : Program Data) (between : List (ProgramValue Data)) (v w : ProgramValue Data) : Prop where
  placed : ∃ before after, p.values = before ++ v :: between ++ w :: after
  canon : (w.id, v.id) ∈ (scanSolves p).canon

/-- A solve is dropped only when the same fields were solved from the same states, with
nothing in between but such solves and quiet operations. -/
def OnlyRepeats (p : Program Data) : Prop :=
  ∀ between v w, Dropped p between v w → v.op = "solve_fields" ∧ w.op = "solve_fields" ∧ v.inputs = w.inputs ∧
    v.attrs = w.attrs ∧ ∀ u ∈ between, (u.id, v.id) ∈ (scanSolves p).canon ∨ Quiet (p.commits.map Prod.snd) u

/-- The two solves have the same attributes, and no operation between them hides a change. -/
def NothingHidden (p : Program Data) : Prop :=
  ∀ between v w, Dropped p between v w → v.attrs = w.attrs ∧ ∀ u ∈ between, u.op ≠ "solve_fields" → ¬Hides u

/-- References name earlier values. -/
def Ordered (p : Program Data) : Prop :=
  ∀ before v after, p.values = before ++ v :: after → ∀ id ∈ reads v, id ∉ (v :: after).map ProgramValue.id

/-- The rebuilt program has the effects of the whole one but for the solves dropped, and
commits the same values. -/
def Preserved (p : Program Data) (rebuilt : Rebuilt Data) (exec : Execution Data V S) (absent : V) (store : S) : Prop :=
  let whole := trace exec id absent store p.values
  let pruned := trace exec rebuilt.rewire absent store rebuilt.values
  pruned.store = whole.store ∧
    pruned.effects = whole.effects.filter (fun effect => rebuilt.values.any fun v => v.id == effect.1) ∧
    rebuilt.commits.map (fun commit => (commit.1, pruned.env commit.2)) =
      p.commits.map (fun commit => (commit.1, whole.env commit.2))

theorem scanStep_cases (commitIds : List ℕ) (scan : Scan Data) (v : ProgramValue Data) :
    (∃ r, v.op = "solve_fields" ∧ scan.active = some (signature v, r) ∧
      scanStep commitIds scan v = { scan with canon := (v.id, r) :: scan.canon }) ∨
    (v.op = "solve_fields" ∧ scanStep commitIds scan v = { scan with active := some (signature v, v.id) }) ∨
    (v.op ≠ "solve_fields" ∧ scanStep commitIds scan v = { scan with active := none }) ∨
    (v.op ≠ "solve_fields" ∧ v.op ∉ stateBarrierOps ∧ v.id ∉ commitIds ∧ scanStep commitIds scan v = scan) := by
  unfold scanStep
  by_cases solve : v.op = "solve_fields"
  · rw [if_pos solve]
    cases active : scan.active with
    | none => exact .inr (.inl ⟨solve, rfl⟩)
    | some reused =>
      obtain ⟨prior, r⟩ := reused
      by_cases same : prior = signature v
      · left
        exact ⟨r, solve, by rw [same], by simp [same]⟩
      · right
        left
        exact ⟨solve, by simp [same]⟩
  · rw [if_neg solve]
    by_cases barrier : (stateBarrierOps.contains v.op || commitIds.contains v.id) = true
    · rw [if_pos barrier]
      exact .inr (.inr (.inl ⟨solve, rfl⟩))
    · rw [if_neg barrier]
      simp only [List.contains_eq_mem, Bool.or_eq_true, decide_eq_true_eq, not_or] at barrier
      exact .inr (.inr (.inr ⟨solve, barrier.1, barrier.2, rfl⟩))

/-- The identifier a reference is rewired to. -/
def rewired (p : Program Data) (id : ℕ) : ℕ := ((scanSolves p).canon.lookup id).getD id

theorem lookup_cons_other {key other value : ℕ} (different : key ≠ other) (rest : List (ℕ × ℕ)) :
    List.lookup key ((other, value) :: rest) = rest.lookup key := by
  rw [List.lookup_cons, beq_eq_false_iff_ne.mpr different]

theorem lookup_later (commitIds : List ℕ) (rest : List (ProgramValue Data)) (scan : Scan Data) {id : ℕ}
    (absent : id ∉ rest.map ProgramValue.id) :
    (rest.foldl (scanStep commitIds) scan).canon.lookup id = scan.canon.lookup id := by
  induction rest generalizing scan with
  | nil => rfl
  | cons v rest ih =>
    rw [List.map_cons, List.mem_cons, not_or] at absent
    rw [List.foldl_cons, ih _ absent.2]
    rcases scanStep_cases commitIds scan v with ⟨r, _, _, next⟩ | ⟨_, next⟩ | ⟨_, next⟩ | ⟨_, _, _, next⟩
    · rw [next, lookup_cons_other absent.1]
    all_goals rw [next]

/-- The solve that may still be reused found what it left, and it stands unless something in
between was hidden. -/
def Reusable (exec : Execution Data V S) (view : S → F) (before : List (ProgramValue Data)) (scan : Scan Data)
    (whole : Trace V S) : Prop :=
  ∀ r sig, scan.active = some (sig, r) → ∃ earlier v between, before = earlier ++ v :: between ∧
    v.id = r ∧ v.op = "solve_fields" ∧ sig = signature v ∧ scan.canon.lookup r = none ∧
    ∃ prior, whole.env r = (exec v ((reads v).map whole.env) prior).1 ∧
      ((∀ u ∈ between, u.op ≠ "solve_fields" → ¬Hides u) →
        view whole.store = view (exec v ((reads v).map whole.env) prior).2)

/-- The runs of the whole and of the rebuilt program, part of the way through the list. -/
structure Follows (p : Program Data) (exec : Execution Data V S) (view : S → F)
    (before rest : List (ProgramValue Data)) (scan : Scan Data) (whole pruned : Trace V S) : Prop where
  split : p.values = before ++ rest
  scanned : rest.foldl (scanStep (p.commits.map Prod.snd)) scan = scanSolves p
  keys : ∀ entry ∈ scan.canon, entry.1 ∈ before.map ProgramValue.id ∧ entry.2 ∈ before.map ProgramValue.id
  env : ∀ id, id ∉ rest.map ProgramValue.id → pruned.env (rewired p id) = whole.env id
  store : pruned.store = whole.store
  effects : pruned.effects = whole.effects.filter fun effect => ((scanSolves p).canon.lookup effect.1).isNone
  active : Reusable exec view before scan whole

section Step
variable {p : Program Data} {exec : Execution Data V S} {view : S → F} {before rest : List (ProgramValue Data)}
  {scan : Scan Data} {whole pruned : Trace V S} {v : ProgramValue Data}

omit [DecidableEq Data] in
private theorem unique_split (split : p.values = before ++ v :: rest) :
    v.id ∉ before.map ProgramValue.id ∧ v.id ∉ rest.map ProgramValue.id := by
  have distinct := p.unique
  rw [split, List.map_append, List.map_cons, List.nodup_append] at distinct
  obtain ⟨_, later, apart⟩ := distinct
  exact ⟨fun listed => apart _ listed _ (by simp) rfl, (List.nodup_cons.mp later).1⟩

theorem Follows.lookup_here (follows : Follows p exec view before (v :: rest) scan whole pruned) :
    (scanSolves p).canon.lookup v.id = (scanStep (p.commits.map Prod.snd) scan v).canon.lookup v.id := by
  rw [← follows.scanned, List.foldl_cons, lookup_later _ _ _ (unique_split follows.split).2]

theorem Follows.fresh (follows : Follows p exec view before (v :: rest) scan whole pruned) :
    scan.canon.lookup v.id = none := by
  rw [List.lookup_eq_none_iff]
  intro entry listed
  have earlier := (follows.keys entry listed).1
  simp only [ne_eq, bne_iff_ne]
  intro same
  exact (unique_split follows.split).1 (same ▸ earlier)

theorem Follows.rewired_ne (follows : Follows p exec view before (v :: rest) scan whole pruned) {id : ℕ}
    (absent : id ∉ (v :: rest).map ProgramValue.id) : rewired p id ≠ v.id := by
  rw [rewired, ← follows.scanned, lookup_later _ _ _ absent]
  cases found : scan.canon.lookup id with
  | none =>
    rw [List.map_cons, List.mem_cons, not_or] at absent
    exact absent.1
  | some r =>
    obtain ⟨front, back, split, _⟩ := List.lookup_eq_some_iff.mp found
    have listed := (follows.keys (id, r) (by rw [split]; simp)).2
    intro same
    exact (unique_split follows.split).1 (same ▸ listed)

omit [DecidableEq Data] in
theorem reads_update (ordered : Ordered p) {earlier after : List (ProgramValue Data)} {u : ProgramValue Data}
    (split : p.values = earlier ++ u :: after) {name : ℕ} (listed : name ∈ (u :: after).map ProgramValue.id)
    (env : ℕ → V) (value : V) : (reads u).map (Function.update env name value) = (reads u).map env := by
  apply List.map_congr_left
  intro id used
  have absent := ordered earlier u after split id used
  rw [Function.update_of_ne]
  rintro rfl
  exact absent listed

theorem Follows.active_kept (follows : Follows p exec view before (v :: rest) scan whole pruned)
    (ordered : Ordered p) {next : Scan Data} (canon : ∀ r, r ≠ v.id → next.canon.lookup r = scan.canon.lookup r)
    (same : next.active = scan.active) {after : Trace V S} {value : V}
    (env : after.env = Function.update whole.env v.id value)
    (store : (v.op ≠ "solve_fields" → ¬Hides v) → view after.store = view whole.store) :
    Reusable exec view (before ++ [v]) next after := by
  intro r sig active
  rw [same] at active
  obtain ⟨earlier, u, between, split, rfl, solve, sig_eq, kept, prior, value_eq, view_eq⟩ :=
    follows.active r sig active
  have listed : u.id ∈ before.map ProgramValue.id := by rw [split]; simp
  have different : u.id ≠ v.id := fun same => (unique_split follows.split).1 (same ▸ listed)
  have whole_split : p.values = earlier ++ u :: (between ++ v :: rest) := by
    rw [follows.split, split]
    simp
  have later : v.id ∈ (u :: (between ++ v :: rest)).map ProgramValue.id := by simp
  have frame := reads_update ordered whole_split later whole.env value
  refine ⟨earlier, u, between ++ [v], by rw [split]; simp, rfl, solve, sig_eq,
    (canon u.id different).trans kept, prior, ?_, ?_⟩
  · rw [env, frame, Function.update_of_ne different, value_eq]
  · intro quiet
    rw [env, frame, store (fun other => quiet v (by simp) other)]
    exact view_eq fun w member other => quiet w (by simp [member]) other

theorem Follows.kept (follows : Follows p exec view before (v :: rest) scan whole pruned) (ordered : Ordered p)
    (stays : (scanSolves p).canon.lookup v.id = none) :
    (∀ name, name ∉ rest.map ProgramValue.id →
      (traceStep exec (rewired p) pruned v).env (rewired p name) = (traceStep exec id whole v).env name) ∧
    (traceStep exec (rewired p) pruned v).store = (traceStep exec id whole v).store ∧
    (traceStep exec (rewired p) pruned v).effects = (traceStep exec id whole v).effects.filter
      (fun effect => ((scanSolves p).canon.lookup effect.1).isNone) := by
  have read : (reads v).map (fun name => pruned.env (rewired p name)) = (reads v).map fun name => whole.env (id name) := by
    apply List.map_congr_left
    intro name listed
    exact follows.env name (ordered before v rest follows.split name listed)
  have here : rewired p v.id = v.id := by rw [rewired, stays, Option.getD_none]
  refine ⟨fun name absent => ?_, ?_, ?_⟩
  · simp only [traceStep, read, follows.store]
    by_cases same : name = v.id
    · rw [same, here, Function.update_self, Function.update_self]
    · have beyond : name ∉ (v :: rest).map ProgramValue.id := by
        rw [List.map_cons, List.mem_cons, not_or]
        exact ⟨same, absent⟩
      rw [Function.update_of_ne (follows.rewired_ne beyond), Function.update_of_ne same, follows.env name beyond]
  · simp only [traceStep, read, follows.store]
  · simp only [traceStep, read, follows.store, follows.effects, List.filter_append, List.filter_cons, stays,
      Option.isNone_none, if_true, List.filter_nil]

theorem Follows.keep (follows : Follows p exec view before (v :: rest) scan whole pruned) (ordered : Ordered p)
    {next : Scan Data} (scanned : scanStep (p.commits.map Prod.snd) scan v = next) (canon : next.canon = scan.canon)
    (active : Reusable exec view (before ++ [v]) next (traceStep exec id whole v)) :
    Follows p exec view (before ++ [v]) rest next (traceStep exec id whole v) (traceStep exec (rewired p) pruned v) := by
  have stays : (scanSolves p).canon.lookup v.id = none := by
    rw [follows.lookup_here, scanned, canon]
    exact follows.fresh
  obtain ⟨env, store, effects⟩ := follows.kept ordered stays
  constructor
  · rw [follows.split, List.append_assoc, List.singleton_append]
  · rw [← scanned, ← List.foldl_cons]
    exact follows.scanned
  · intro entry listed
    rw [canon] at listed
    obtain ⟨key, value⟩ := follows.keys entry listed
    rw [List.map_append]
    exact ⟨List.mem_append_left _ key, List.mem_append_left _ value⟩
  · exact env
  · exact store
  · exact effects
  · exact active

/-- A solve that is dropped would have changed nothing. -/
theorem Follows.drop (follows : Follows p exec view before (v :: rest) scan whole pruned) (ordered : Ordered p)
    (laws : SolvesFields (p.commits.map Prod.snd) exec view) (nothing : NothingHidden p) {r : ℕ}
    (solve : v.op = "solve_fields") (reused : scan.active = some (signature v, r))
    (scanned : scanStep (p.commits.map Prod.snd) scan v = { scan with canon := (v.id, r) :: scan.canon }) :
    Follows p exec view (before ++ [v]) rest { scan with canon := (v.id, r) :: scan.canon }
      (traceStep exec id whole v) pruned := by
  obtain ⟨earlier, u, between, split, rfl, first, same, kept, prior, value, fields⟩ := follows.active r _ reused
  have found : (scanSolves p).canon.lookup v.id = some u.id := by
    rw [follows.lookup_here, scanned, List.lookup_cons_self]
  have entry : (v.id, u.id) ∈ (scanSolves p).canon := by
    obtain ⟨front, back, at_entry, _⟩ := List.lookup_eq_some_iff.mp found
    rw [at_entry]
    simp
  have dropped : Dropped p between u v := ⟨⟨earlier, rest, by rw [follows.split, split]⟩, entry⟩
  obtain ⟨attrs, unhidden⟩ := nothing between u v dropped
  have inputs : v.inputs = u.inputs := congrArg Prod.fst same
  have read : (reads v).map (fun name => whole.env (id name)) = (reads u).map whole.env := by
    rw [reads, reads, subblockValueRefs, subblockValueRefs, inputs, attrs]
    rfl
  have again : exec v ((reads v).map fun name => whole.env (id name)) whole.store = (whole.env u.id, whole.store) := by
    rw [read, value]
    exact laws.repeated u v first solve attrs _ _ _ (fields unhidden)
  have listed : u.id ∈ before.map ProgramValue.id := by rw [split]; simp
  have next_env : (traceStep exec id whole v).env = Function.update whole.env v.id (whole.env u.id) := by
    rw [traceStep, again]
  have next_store : (traceStep exec id whole v).store = whole.store := by rw [traceStep, again]
  constructor
  · rw [follows.split, List.append_assoc, List.singleton_append]
  · rw [← scanned, ← List.foldl_cons]
    exact follows.scanned
  · intro other member
    rw [List.map_append, List.mem_append, List.mem_append]
    rcases List.mem_cons.mp member with rfl | member
    · exact ⟨.inr (by simp), .inl listed⟩
    · exact ⟨.inl (follows.keys other member).1, .inl (follows.keys other member).2⟩
  · intro name absent
    rw [next_env]
    by_cases here : name = v.id
    · have stands : (scanSolves p).canon.lookup u.id = none := by
        have distinct := p.unique
        rw [← follows.scanned, lookup_later, kept]
        rw [follows.split, List.map_append, List.nodup_append] at distinct
        exact fun late => distinct.2.2 _ listed _ late rfl
      have at_first : rewired p u.id = u.id := by rw [rewired, stands, Option.getD_none]
      have early : u.id ∉ (v :: rest).map ProgramValue.id := by
        have distinct := p.unique
        rw [follows.split, List.map_append, List.nodup_append] at distinct
        exact fun late => distinct.2.2 _ listed _ late rfl
      rw [here, Function.update_self, rewired, found, Option.getD_some, ← follows.env u.id early, at_first]
    · rw [Function.update_of_ne here]
      apply follows.env name
      rw [List.map_cons, List.mem_cons, not_or]
      exact ⟨here, absent⟩
  · rw [next_store, follows.store]
  · rw [follows.effects, traceStep, List.filter_append]
    simp [found]
  · apply follows.active_kept ordered ?_ ?_ next_env
    · intro _
      rw [next_store]
    · intro name different
      exact lookup_cons_other different _
    · rfl

theorem Follows.step (follows : Follows p exec view before (v :: rest) scan whole pruned) (ordered : Ordered p)
    (laws : SolvesFields (p.commits.map Prod.snd) exec view) (nothing : NothingHidden p) :
    Follows p exec view (before ++ [v]) rest (scanStep (p.commits.map Prod.snd) scan v) (traceStep exec id whole v)
      (if ((scanSolves p).canon.lookup v.id).isNone then traceStep exec (rewired p) pruned v else pruned) := by
  rcases scanStep_cases (p.commits.map Prod.snd) scan v with
    ⟨r, solve, reused, scanned⟩ | ⟨solve, scanned⟩ | ⟨other, scanned⟩ | ⟨other, flat, uncommitted, scanned⟩
  · rw [follows.lookup_here, scanned, List.lookup_cons_self]
    exact follows.drop ordered laws nothing solve reused scanned
  · rw [follows.lookup_here, scanned, follows.fresh]
    apply follows.keep ordered scanned rfl
    intro r sig active
    simp only [Option.some.injEq, Prod.mk.injEq] at active
    obtain ⟨rfl, rfl⟩ := active
    have frame := reads_update ordered follows.split (List.mem_cons_self : v.id ∈ v.id :: rest.map ProgramValue.id)
      whole.env (exec v ((reads v).map whole.env) whole.store).1
    refine ⟨before, v, [], rfl, rfl, solve, rfl, follows.fresh, whole.store, ?_⟩
    simp only [traceStep, id_eq, Function.update_self]
    rw [frame]
    exact ⟨rfl, fun _ => rfl⟩
  · rw [follows.lookup_here, scanned, follows.fresh]
    apply follows.keep ordered scanned rfl
    intro r sig active
    cases active
  · rw [follows.lookup_here, scanned, follows.fresh]
    apply follows.keep ordered scanned rfl
    apply follows.active_kept ordered (fun _ _ => rfl) rfl rfl
    intro unhidden
    exact laws.quiet v _ _ ⟨flat, uncommitted, unhidden other⟩

theorem Follows.run (ordered : Ordered p) (laws : SolvesFields (p.commits.map Prod.snd) exec view)
    (nothing : NothingHidden p) (rest : List (ProgramValue Data)) :
    ∀ (before : List (ProgramValue Data)) (scan : Scan Data) (whole pruned : Trace V S),
      Follows p exec view before rest scan whole pruned →
        Follows p exec view (before ++ rest) [] (scanSolves p) (rest.foldl (traceStep exec id) whole)
          ((rest.filter fun v => ((scanSolves p).canon.lookup v.id).isNone).foldl
            (traceStep exec (rewired p)) pruned) := by
  induction rest with
  | nil =>
    intro before scan whole pruned follows
    rw [List.append_nil, ← follows.scanned]
    exact follows
  | cons v rest ih =>
    intro before scan whole pruned follows
    have next := ih _ _ _ _ (follows.step ordered laws nothing)
    rw [List.append_assoc, List.singleton_append] at next
    rw [List.foldl_cons, List.filter_cons]
    by_cases stays : ((scanSolves p).canon.lookup v.id).isNone = true
    · rw [if_pos stays] at next
      rw [if_pos stays, List.foldl_cons]
      exact next
    · rw [if_neg stays] at next
      rw [if_neg stays]
      exact next

end Step

section Scanned
variable {p : Program Data}

/-- Between a solve and what it replaces, the flat list has only quiet operations and solves
that it replaces too. -/
def Covered (commitIds : List ℕ) (canon : List (ℕ × ℕ)) (r : ℕ) (between : List (ProgramValue Data)) : Prop :=
  ∀ u ∈ between, (u.id, r) ∈ canon ∨ u.op ∉ stateBarrierOps ∧ u.id ∉ commitIds

/-- What the scan has recorded, part of the way through the list. -/
structure Recorded (commitIds : List ℕ) (before : List (ProgramValue Data)) (scan : Scan Data) : Prop where
  canon : ∀ w r, (w, r) ∈ scan.canon → ∃ earlier v between x after, before = earlier ++ v :: (between ++ x :: after) ∧
    v.id = r ∧ x.id = w ∧ v.op = "solve_fields" ∧ x.op = "solve_fields" ∧ signature x = signature v ∧
    Covered commitIds scan.canon r between
  active : ∀ sig r, scan.active = some (sig, r) → ∃ earlier v between, before = earlier ++ v :: between ∧
    v.id = r ∧ v.op = "solve_fields" ∧ sig = signature v ∧ Covered commitIds scan.canon r between

variable {commitIds : List ℕ} {between : List (ProgramValue Data)} {before : List (ProgramValue Data)}
  {scan : Scan Data} {v w : ProgramValue Data} {values : List (ProgramValue Data)}

omit [DecidableEq Data] in
theorem Covered.mono {canon more : List (ℕ × ℕ)} {r : ℕ} (covered : Covered commitIds canon r between)
    (grows : ∀ entry ∈ canon, entry ∈ more) :
    Covered commitIds more r between := by
  intro u member
  rcases covered u member with replaced | flat
  · exact .inl (grows _ replaced)
  · exact .inr flat

omit [DecidableEq Data] in
theorem Covered.snoc {canon : List (ℕ × ℕ)} {r : ℕ} (covered : Covered commitIds canon r between)
    {v : ProgramValue Data} (last : (v.id, r) ∈ canon ∨ v.op ∉ stateBarrierOps ∧ v.id ∉ commitIds) :
    Covered commitIds canon r (between ++ [v]) := by
  intro u member
  rcases List.mem_append.mp member with member | member
  · exact covered u member
  · rw [List.mem_singleton] at member
    rw [member]
    exact last

omit [DecidableEq Data] in
theorem Recorded.canon_snoc (recorded : Recorded commitIds before scan) (v : ProgramValue Data)
    {more : List (ℕ × ℕ)} (grows : ∀ entry ∈ scan.canon, entry ∈ more) (w r : ℕ) (listed : (w, r) ∈ scan.canon) :
    ∃ earlier u between x after, before ++ [v] = earlier ++ u :: (between ++ x :: after) ∧ u.id = r ∧ x.id = w ∧
      u.op = "solve_fields" ∧ x.op = "solve_fields" ∧ signature x = signature u ∧ Covered commitIds more r between := by
  obtain ⟨earlier, u, between, x, after, split, first, last, solve, again, same, covered⟩ := recorded.canon w r listed
  refine ⟨earlier, u, between, x, after ++ [v], ?_, first, last, solve, again, same, covered.mono grows⟩
  rw [split]
  simp

theorem Recorded.step (recorded : Recorded commitIds before scan) (v : ProgramValue Data) :
    Recorded commitIds (before ++ [v]) (scanStep commitIds scan v) := by
  rcases scanStep_cases commitIds scan v with
    ⟨r, solve, reused, scanned⟩ | ⟨solve, scanned⟩ | ⟨other, scanned⟩ | ⟨other, flat, uncommitted, scanned⟩
  · rw [scanned]
    have grows : ∀ entry ∈ scan.canon, entry ∈ (v.id, r) :: scan.canon := fun _ => List.mem_cons_of_mem _
    obtain ⟨earlier, u, between, split, first, solved, same, covered⟩ := recorded.active _ r reused
    constructor
    · intro w at_r listed
      rcases List.mem_cons.mp listed with here | listed
      · obtain ⟨rfl, rfl⟩ := Prod.mk.inj here
        exact ⟨earlier, u, between, v, [], by rw [split]; simp, first, rfl, solved, solve, same, covered.mono grows⟩
      · exact recorded.canon_snoc v grows w at_r listed
    · intro sig at_r active
      obtain ⟨earlier, u, between, split, first, solved, same, covered⟩ := recorded.active sig at_r active
      have at_same : at_r = r := by
        rw [reused] at active
        exact (congrArg Prod.snd (Option.some.inj active)).symm
      refine ⟨earlier, u, between ++ [v], by rw [split]; simp, first, solved, same, ?_⟩
      exact (covered.mono grows).snoc (.inl (by rw [at_same]; simp))
  · rw [scanned]
    constructor
    · exact recorded.canon_snoc v fun _ listed => listed
    · intro sig r active
      obtain ⟨rfl, rfl⟩ := Prod.mk.inj (Option.some.inj active)
      exact ⟨before, v, [], rfl, rfl, solve, rfl, fun u member => absurd member List.not_mem_nil⟩
  · rw [scanned]
    constructor
    · exact recorded.canon_snoc v fun _ listed => listed
    · intro sig r active
      cases active
  · rw [scanned]
    constructor
    · exact recorded.canon_snoc v fun _ listed => listed
    · intro sig r active
      obtain ⟨earlier, u, between, split, first, solved, same, covered⟩ := recorded.active sig r active
      refine ⟨earlier, u, between ++ [v], by rw [split]; simp, first, solved, same, ?_⟩
      exact covered.snoc (.inr ⟨flat, uncommitted⟩)

theorem Recorded.run (commitIds : List ℕ) (rest : List (ProgramValue Data)) :
    ∀ (before : List (ProgramValue Data)) (scan : Scan Data), Recorded commitIds before scan →
      Recorded commitIds (before ++ rest) (rest.foldl (scanStep commitIds) scan) := by
  induction rest with
  | nil =>
    intro before scan recorded
    rw [List.append_nil]
    exact recorded
  | cons v rest ih =>
    intro before scan recorded
    have next := ih _ _ (recorded.step v)
    rw [List.append_assoc, List.singleton_append] at next
    exact next

theorem recorded (p : Program Data) : Recorded (p.commits.map Prod.snd) p.values (scanSolves p) := by
  apply Recorded.run _ p.values []
  constructor
  · intro w r listed
    cases listed
  · intro sig r active
    cases active

omit [DecidableEq Data] in
theorem place_unique {before front after back : List (ProgramValue Data)}
    (distinct : ((before ++ v :: after).map ProgramValue.id).Nodup)
    (same : before ++ v :: after = front ++ w :: back) (id : v.id = w.id) : v = w ∧ after = back := by
  induction before generalizing front with
  | nil =>
    cases front with
    | nil =>
      rw [List.nil_append, List.nil_append, List.cons.injEq] at same
      exact same
    | cons u front =>
      rw [List.nil_append, List.cons_append, List.cons.injEq] at same
      rw [List.nil_append, List.map_cons, List.nodup_cons, same.2, id] at distinct
      exact absurd (by simp) distinct.1
  | cons u before ih =>
    rw [List.cons_append, List.map_cons, List.nodup_cons] at distinct
    cases front with
    | nil =>
      rw [List.nil_append, List.cons_append, List.cons.injEq] at same
      rw [same.1, ← id] at distinct
      exact absurd (by simp) distinct.1
    | cons first front =>
      rw [List.cons_append, List.cons_append, List.cons.injEq] at same
      exact ih distinct.2 same.2

theorem Dropped.repeats (dropped : Dropped p between v w) :
    v.op = "solve_fields" ∧ w.op = "solve_fields" ∧ v.inputs = w.inputs ∧
      Covered (p.commits.map Prod.snd) (scanSolves p).canon v.id between := by
  obtain ⟨before, after, placed⟩ := dropped.placed
  rw [List.append_assoc, List.cons_append] at placed
  obtain ⟨earlier, u, reach, x, later, split, first, last, solved, again, same, covered⟩ :=
    (recorded p).canon w.id v.id dropped.canon
  have distinct := p.unique
  rw [placed] at distinct
  obtain ⟨rfl, tail⟩ := place_unique distinct (placed.symm.trans split) first.symm
  rw [List.map_append, List.map_cons] at distinct
  have inner := (List.nodup_cons.mp (List.nodup_append.mp distinct).2.1).2
  obtain ⟨rfl, rest⟩ := place_unique inner tail last.symm
  rw [rest] at tail
  have reached := List.append_cancel_right tail
  rw [reached]
  exact ⟨solved, again, (congrArg Prod.fst same).symm, covered⟩

/-- The scan looks at the flat list right, so what it drops is a repeat as soon as nothing
is hidden. -/
theorem onlyRepeats_of_nothingHidden (nothing : NothingHidden p) : OnlyRepeats p := by
  intro between v w dropped
  obtain ⟨first, again, inputs, covered⟩ := dropped.repeats
  obtain ⟨attrs, unhidden⟩ := nothing between v w dropped
  refine ⟨first, again, inputs, attrs, ?_⟩
  intro u member
  rcases covered u member with replaced | ⟨flat, uncommitted⟩
  · exact .inl replaced
  · right
    have other : u.op ≠ "solve_fields" := by
      intro solve
      rw [solve] at flat
      exact flat (by decide)
    exact ⟨flat, uncommitted, unhidden u member other⟩

theorem nothingHidden_of_onlyRepeats (only : OnlyRepeats p) : NothingHidden p := by
  intro between v w dropped
  obtain ⟨_, _, _, attrs, covered⟩ := only between v w dropped
  refine ⟨attrs, ?_⟩
  intro u member other
  rcases covered u member with replaced | quiet
  · obtain ⟨earlier, first, reach, x, later, split, _, here, _, solve, _⟩ := (recorded p).canon u.id v.id replaced
    obtain ⟨before, after, placed⟩ := dropped.placed
    obtain ⟨left, right, inside⟩ := List.append_of_mem member
    have distinct := p.unique
    have at_x : p.values = (earlier ++ first :: reach) ++ x :: later := by
      rw [split]
      simp
    have at_u : p.values = (before ++ v :: left) ++ u :: (right ++ w :: after) := by
      rw [placed, inside]
      simp
    rw [at_x] at distinct
    obtain ⟨same, _⟩ := place_unique distinct (at_x.symm.trans at_u) here
    rw [same] at solve
    exact absurd solve other
  · exact quiet.2.2

end Scanned

section Whole
variable {p : Program Data} {exec : Execution Data V S} {view : S → F} {absent : V} {store : S}

omit [DecidableEq Data] in
theorem trace_effects (exec : Execution Data V S) (rewire : ℕ → ℕ) (values : List (ProgramValue Data)) :
    ∀ run : Trace V S, (values.foldl (traceStep exec rewire) run).effects.map Prod.fst =
      run.effects.map Prod.fst ++ values.map ProgramValue.id := by
  induction values with
  | nil => simp
  | cons v rest ih =>
    intro run
    rw [List.foldl_cons, ih]
    simp [traceStep]

theorem contains_canon (canon : List (ℕ × ℕ)) (id : ℕ) :
    (!(canon.map Prod.fst).contains id) = (canon.lookup id).isNone := by
  cases found : canon.lookup id with
  | none =>
    rw [List.lookup_eq_none_iff] at found
    have absent : id ∉ canon.map Prod.fst := by
      intro listed
      obtain ⟨entry, member, rfl⟩ := List.mem_map.mp listed
      simpa using found entry member
    simpa using absent
  | some r =>
    obtain ⟨front, back, split, _⟩ := List.lookup_eq_some_iff.mp found
    have listed : id ∈ canon.map Prod.fst := by
      rw [split]
      simp
    simpa using listed

theorem preserved_of_nothingHidden {rebuilt : Rebuilt Data} (done : eliminateRedundantFieldSolves p = .ok rebuilt)
    (ordered : Ordered p) (laws : SolvesFields (p.commits.map Prod.snd) exec view) (nothing : NothingHidden p) :
    Preserved p rebuilt exec absent store := by
  unfold eliminateRedundantFieldSolves at done
  split at done
  case isFalse => cases done
  cases done
  have start : Follows p exec view [] p.values { active := none, canon := [] }
      { env := fun _ => absent, store := store, effects := [] }
      { env := fun _ => absent, store := store, effects := [] } := by
    constructor
    · rfl
    · rfl
    · intro entry listed
      cases listed
    · intro name _
      rfl
    · rfl
    · rfl
    · intro r sig active
      cases active
  have follows := Follows.run ordered laws nothing p.values [] _ _ _ start
  have kept : (p.values.filter fun v => !((scanSolves p).canon.map Prod.fst).contains v.id) =
      p.values.filter fun v => ((scanSolves p).canon.lookup v.id).isNone :=
    List.filter_congr fun v _ => contains_canon _ v.id
  simp only [Preserved, trace, kept]
  refine ⟨follows.store, ?_, ?_⟩
  · rw [show (fun id => ((scanSolves p).canon.lookup id).getD id) = rewired p from rfl, follows.effects]
    apply List.filter_congr
    intro effect listed
    have known : effect.1 ∈ p.values.map ProgramValue.id := by
      have ids := trace_effects exec id p.values { env := fun _ => absent, store := store, effects := [] }
      rw [List.map_nil, List.nil_append] at ids
      rw [← ids]
      exact List.mem_map_of_mem listed
    obtain ⟨v, member, at_v⟩ := List.mem_map.mp known
    rw [Bool.eq_iff_iff, List.any_eq_true]
    constructor
    · intro stays
      refine ⟨v, List.mem_filter.mpr ⟨member, by rw [at_v]; exact stays⟩, by rw [at_v, beq_self_eq_true]⟩
    · rintro ⟨u, survives, same⟩
      rw [← beq_iff_eq.mp same]
      exact (List.mem_filter.mp survives).2
  · rw [List.map_map]
    apply List.map_congr_left
    intro commit _
    have value := follows.env commit.2 List.not_mem_nil
    exact congrArg (Prod.mk commit.1) value

end Whole

section Emission
variable {p : Program Data}

/-- A solve, and the next one of the same signature with neither a barrier nor a committed value in
between but such solves. -/
structure Repeat (p : Program Data) (between : List (ProgramValue Data)) (v w : ProgramValue Data) : Prop where
  placed : ∃ before after, p.values = before ++ v :: (between ++ w :: after)
  first : v.op = "solve_fields"
  again : w.op = "solve_fields"
  same : signature w = signature v
  quiet : ∀ u ∈ between, (u.op = "solve_fields" ∧ signature u = signature v) ∨
    (u.op ∉ stateBarrierOps ∧ u.id ∉ p.commits.map Prod.snd)

theorem repeat_of_canon {w r : ℕ} (listed : (w, r) ∈ (scanSolves p).canon) : ∃ between v x, Repeat p between v x := by
  obtain ⟨earlier, v, between, x, after, split, rfl, rfl, first, again, same, covered⟩ := (recorded p).canon w r listed
  refine ⟨between, v, x, ⟨earlier, after, split⟩, first, again, same, fun u member => ?_⟩
  rcases covered u member with replaced | flat
  · obtain ⟨front, z, reach, y, back, places, owner, here, _, solve, alike, _⟩ := (recorded p).canon u.id v.id replaced
    have unique := List.inj_on_of_nodup_map p.unique
    obtain rfl : z = v := unique (by rw [places]; simp) (by rw [split]; simp) owner
    obtain rfl : y = u := unique (by rw [places]; simp) (by rw [split]; simp [member]) here
    exact .inl ⟨solve, alike⟩
  · exact .inr flat

theorem canon_grows (commitIds : List ℕ) (rest : List (ProgramValue Data)) (scan : Scan Data) :
    ∀ entry ∈ scan.canon, entry ∈ (rest.foldl (scanStep commitIds) scan).canon := by
  induction rest generalizing scan with
  | nil => exact fun _ listed => listed
  | cons v rest ih =>
    intro entry listed
    apply ih
    rcases scanStep_cases commitIds scan v with ⟨r, _, _, next⟩ | ⟨_, next⟩ | ⟨_, next⟩ | ⟨_, _, _, next⟩
    · rw [next]
      exact List.mem_cons_of_mem _ listed
    all_goals rwa [next]

theorem scan_solve (commitIds : List ℕ) (scan : Scan Data) {v : ProgramValue Data} (solve : v.op = "solve_fields") :
    ∃ r, (scanStep commitIds scan v).active = some (signature v, r) := by
  unfold scanStep
  rw [if_pos solve]
  split
  · rename_i prior r active
    split
    · rename_i same
      exact ⟨r, by rw [← same, ← active]⟩
    · exact ⟨v.id, rfl⟩
  · exact ⟨v.id, rfl⟩

theorem scan_quiet {sig : Signature Data} (between : List (ProgramValue Data))
    (quiet : ∀ u ∈ between, (u.op = "solve_fields" ∧ signature u = sig) ∨ (u.op ∉ stateBarrierOps ∧ u.id ∉ commitIds))
    {r : ℕ} (active : scan.active = some (sig, r)) :
    (between.foldl (scanStep commitIds) scan).active = some (sig, r) := by
  induction between generalizing scan with
  | nil => exact active
  | cons u rest ih =>
    apply ih fun other member => quiet other (List.mem_cons_of_mem u member)
    rcases quiet u List.mem_cons_self with ⟨solve, rfl⟩ | ⟨flat, uncommitted⟩
    · simp [scanStep, solve, active]
    · have other : u.op ≠ "solve_fields" := fun solve => flat (solve ▸ by decide)
      simp [scanStep, other, flat, uncommitted, active]

theorem Repeat.dropped (again : Repeat p between v w) :
    ∃ r, (w.id, r) ∈ (scanSolves p).canon := by
  obtain ⟨before, after, split⟩ := again.placed
  obtain ⟨r, started⟩ := scan_solve (p.commits.map Prod.snd)
    (before.foldl (scanStep (p.commits.map Prod.snd)) { active := none, canon := [] }) again.first
  have held := scan_quiet between again.quiet started
  refine ⟨r, ?_⟩
  rw [scanSolves, split, List.foldl_append, List.foldl_cons, List.foldl_append, List.foldl_cons]
  apply canon_grows
  rw [scanStep, if_pos again.again, held]
  simp [again.same]

/-- What replaces a solve is not replaced itself. -/
structure Representatives (before : List (ProgramValue Data)) (scan : Scan Data) : Prop where
  canon : ∀ entry ∈ scan.canon, entry.1 ∈ before.map ProgramValue.id ∧ entry.2 ∈ before.map ProgramValue.id ∧
    entry.2 ∉ scan.canon.map Prod.fst
  active : ∀ sig r, scan.active = some (sig, r) → r ∈ before.map ProgramValue.id ∧ r ∉ scan.canon.map Prod.fst

theorem Representatives.step (kept : Representatives before scan) {v : ProgramValue Data}
    (fresh : v.id ∉ before.map ProgramValue.id) :
    Representatives (before ++ [v]) (scanStep commitIds scan v) := by
  have grown {id : ℕ} (listed : id ∈ before.map ProgramValue.id) : id ∈ (before ++ [v]).map ProgramValue.id := by
    rw [List.map_append]
    exact List.mem_append_left _ listed
  have here : v.id ∈ (before ++ [v]).map ProgramValue.id := by simp
  have other {id : ℕ} (listed : id ∈ before.map ProgramValue.id) : id ≠ v.id := fun same => fresh (same ▸ listed)
  have unkeyed : v.id ∉ scan.canon.map Prod.fst := by
    intro listed
    obtain ⟨entry, member, same⟩ := List.mem_map.mp listed
    exact fresh (same ▸ (kept.canon entry member).1)
  have stay : ∀ entry ∈ scan.canon, entry.1 ∈ (before ++ [v]).map ProgramValue.id ∧
      entry.2 ∈ (before ++ [v]).map ProgramValue.id ∧ entry.2 ∉ scan.canon.map Prod.fst := fun entry member =>
    ⟨grown (kept.canon entry member).1, grown (kept.canon entry member).2.1, (kept.canon entry member).2.2⟩
  rcases scanStep_cases commitIds scan v with
    ⟨r, solve, reused, scanned⟩ | ⟨solve, scanned⟩ | ⟨_, scanned⟩ | ⟨_, _, _, scanned⟩
  · obtain ⟨known, free⟩ := kept.active _ r reused
    rw [scanned]
    constructor
    · intro entry member
      rw [List.map_cons, List.mem_cons, not_or]
      rcases List.mem_cons.mp member with rfl | member
      · exact ⟨here, grown known, other known, free⟩
      · obtain ⟨key, target, apart⟩ := kept.canon entry member
        exact ⟨grown key, grown target, other target, apart⟩
    · intro sig at_r active
      obtain ⟨listed, apart⟩ := kept.active sig at_r active
      rw [List.map_cons, List.mem_cons, not_or]
      exact ⟨grown listed, other listed, apart⟩
  · rw [scanned]
    refine ⟨stay, fun sig r active => ?_⟩
    obtain ⟨rfl, rfl⟩ := Prod.mk.inj (Option.some.inj active)
    exact ⟨here, unkeyed⟩
  · rw [scanned]
    exact ⟨stay, fun sig r active => by cases active⟩
  · rw [scanned]
    exact ⟨stay, fun sig r active => ⟨grown (kept.active sig r active).1, (kept.active sig r active).2⟩⟩

theorem Representatives.run (rest before : List (ProgramValue Data)) (kept : Representatives before scan)
    (distinct : ((before ++ rest).map ProgramValue.id).Nodup) :
    Representatives (before ++ rest) (rest.foldl (scanStep commitIds) scan) := by
  induction rest generalizing before scan with
  | nil => simpa using kept
  | cons v rest ih =>
    have fresh : v.id ∉ before.map ProgramValue.id := by
      rw [List.map_append, List.nodup_append] at distinct
      exact fun listed => distinct.2.2 _ listed _ (by simp) rfl
    rw [List.append_cons] at distinct ⊢
    exact ih (before ++ [v]) (kept.step fresh) distinct

theorem representatives (p : Program Data) : Representatives p.values (scanSolves p) :=
  Representatives.run p.values [] ⟨by simp, by simp⟩ p.unique

omit [DecidableEq Data] in
/-- A node of a program that is not in a sub-block of a solve outlives the solves. -/
theorem mem_programNodes {keep : ProgramValue Data → Bool} {node : ProgramValue Data}
    (listed : node ∈ programNodes values) (other : node.op ≠ "solve_fields")
    (flat : ∀ v ∈ values, keep v = false → v.op = "solve_fields" ∧ attrNodes v.attrs = []) :
    node ∈ programNodes (values.filter keep) := by
  obtain ⟨v, member, inside⟩ := List.mem_flatMap.mp listed
  have kept : keep v = true := by
    by_contra dropped
    obtain ⟨solve, bare⟩ := flat v member (Bool.eq_false_iff.mpr dropped)
    rw [bare, List.mem_singleton] at inside
    exact other (inside ▸ solve)
  exact List.mem_flatMap.mpr ⟨v, List.mem_filter.mpr ⟨member, kept⟩, inside⟩

/-- A solve has no sub-block. -/
def BareSolves (p : Program Data) : Prop := ∀ v ∈ p.values, v.op = "solve_fields" → attrNodes v.attrs = []

omit [DecidableEq Data] in
theorem exists_consumer {rewire : ℕ → ℕ} {id : ℕ} (once : consumed values rewire id = true) :
    ∃ node ∈ programNodes values, node.op = "solve_outcome" ∧ node.inputs.map rewire = [id] := by
  obtain ⟨node, only⟩ := List.length_eq_one_iff.mp (beq_iff_eq.mp once)
  have member : node ∈ (programNodes values).filter fun node =>
      node.op == "solve_outcome" && node.inputs.map rewire == [id] := only ▸ List.mem_singleton_self node
  obtain ⟨listed, reads⟩ := List.mem_filter.mp member
  simp only [Bool.and_eq_true, beq_iff_eq] at reads
  exact ⟨node, listed, reads⟩

omit [DecidableEq Data] in
theorem consumer_unique {rewire : ℕ → ℕ} {id : ℕ} (once : consumed values rewire id = true)
    {first second : ProgramValue Data} (one : first ∈ programNodes values) (two : second ∈ programNodes values)
    (first_op : first.op = "solve_outcome") (second_op : second.op = "solve_outcome")
    (first_reads : first.inputs.map rewire = [id])
    (second_reads : second.inputs.map rewire = [id]) : first = second := by
  obtain ⟨node, only⟩ := List.length_eq_one_iff.mp (beq_iff_eq.mp once)
  have listed : ∀ other ∈ programNodes values, other.op = "solve_outcome" → other.inputs.map rewire = [id] →
      other = node := by
    intro other member op reads
    apply List.mem_singleton.mp
    rw [← only]
    exact List.mem_filter.mpr ⟨member, by simp [op, reads]⟩
  exact (listed first one first_op first_reads).trans (listed second two second_op second_reads).symm

/-- The emitter takes the rebuilt program only when nothing was dropped: what replaces a solve would
be consumed twice. -/
theorem solvesConsumed_rebuilt {rebuilt : Rebuilt Data} (done : eliminateRedundantFieldSolves p = .ok rebuilt)
    (bare : BareSolves p) (taken : solvesConsumed p.values id = true) :
    solvesConsumed rebuilt.values rebuilt.rewire = true ↔ ¬ ∃ between v w, Repeat p between v w := by
  unfold eliminateRedundantFieldSolves at done
  split at done
  case isFalse => cases done
  cases done
  constructor
  · rintro emits ⟨between, v, w, again⟩
    obtain ⟨r, listed⟩ := again.dropped
    obtain ⟨found, replaced⟩ : ∃ found, (scanSolves p).canon.lookup w.id = some found := by
      cases search : (scanSolves p).canon.lookup w.id with
      | none =>
        have absent := List.lookup_eq_none_iff.mp search (w.id, r) listed
        simp at absent
      | some found => exact ⟨found, rfl⟩
    obtain ⟨front, back, at_entry, -⟩ := List.lookup_eq_some_iff.mp replaced
    have entry : (w.id, found) ∈ (scanSolves p).canon := by
      rw [at_entry]
      simp
    obtain ⟨earlier, u, reach, x, later, split, rfl, last, first, solve, -, -⟩ := (recorded p).canon w.id _ entry
    have free := ((representatives p).canon _ entry).2.2
    have u_listed : u ∈ p.values := by rw [split]; simp
    have x_listed : x ∈ p.values := by rw [split]; simp
    have stays : rewired p u.id = u.id := by
      rw [rewired, List.lookup_eq_none_iff.mpr, Option.getD_none]
      intro other member
      simp only [bne_iff_ne]
      exact fun same => free (same ▸ List.mem_map_of_mem member)
    have moves : rewired p w.id = u.id := by rw [rewired, replaced, Option.getD_some]
    have keyed : w.id ∈ (scanSolves p).canon.map Prod.fst := List.mem_map_of_mem entry
    have different : u.id ≠ w.id := fun same => free (same.symm ▸ keyed)
    have once (y : ProgramValue Data) (member : y ∈ p.values) (op : y.op = "solve_fields") :
        consumed p.values id y.id = true := by
      simpa [op] using List.all_eq_true.mp taken y member
    obtain ⟨one, one_listed, one_op, one_reads⟩ := exists_consumer (once u u_listed first)
    obtain ⟨two, two_listed, two_op, two_reads⟩ := exists_consumer (once x x_listed solve)
    rw [List.map_id] at one_reads two_reads
    have flat : ∀ y ∈ p.values, (!((scanSolves p).canon.map Prod.fst).contains y.id) = false →
        y.op = "solve_fields" ∧ attrNodes y.attrs = [] := by
      intro y member dropped
      simp only [Bool.not_eq_false', List.contains_eq_mem, decide_eq_true_eq] at dropped
      obtain ⟨⟨key, value⟩, inside, same⟩ := List.mem_map.mp dropped
      obtain ⟨front, z, reach, again, back, places, -, here, -, op, -, -⟩ := (recorded p).canon key value inside
      have again_listed : again ∈ p.values := by rw [places]; simp
      obtain rfl := List.inj_on_of_nodup_map p.unique again_listed member (here.trans same)
      exact ⟨op, bare again member op⟩
    have survives {node : ProgramValue Data} (listed : node ∈ programNodes p.values) (op : node.op = "solve_outcome") :
        node ∈ programNodes (p.values.filter fun v => !((scanSolves p).canon.map Prod.fst).contains v.id) :=
      mem_programNodes listed (by rw [op]; decide) flat
    have kept : u ∈ p.values.filter fun v => !((scanSolves p).canon.map Prod.fst).contains v.id :=
      List.mem_filter.mpr ⟨u_listed, by simpa using free⟩
    have emitted := List.all_eq_true.mp emits u kept
    simp only [first, bne_self_eq_false, Bool.false_or] at emitted
    have same := consumer_unique emitted (survives one_listed one_op) (survives two_listed two_op) one_op two_op
      (by rw [one_reads]; exact congrArg (fun id => [id]) stays)
      (by rw [two_reads, last]; exact congrArg (fun id => [id]) moves)
    rw [same, two_reads, last, List.cons.injEq] at one_reads
    exact different one_reads.1.symm
  · intro none
    have empty : (scanSolves p).canon = [] := by
      cases listed : (scanSolves p).canon with
      | nil => rfl
      | cons entry rest => exact absurd (repeat_of_canon (listed ▸ List.mem_cons_self)) none
    have whole : (p.values.filter fun v => !(([] : List (ℕ × ℕ)).map Prod.fst).contains v.id) = p.values := by simp
    simp only [empty]
    rw [whole]
    exact taken

end Emission

omit [DecidableEq Data] in
theorem ordered_of_tails {p : Program Data}
    (apart : ∀ tail ∈ p.values.tails, ∀ v ∈ tail.head?, ∀ id ∈ reads v, id ∉ tail.map ProgramValue.id) : Ordered p := by
  intro before v after split
  apply apart (v :: after) _ v rfl
  rw [List.mem_tails, split]
  exact List.suffix_append before _

omit [DecidableEq Data] in
/-- The fields as the state they were last solved from: what hides a change leaves others. -/
def lastSolved : Execution Data ℕ ℕ := fun v read store =>
  if v.op = "solve_fields" then (read.headD 0, read.headD 0)
  else if unlistedOps.contains v.op ||
      (attrNodes v.attrs).any fun inner => (stateBarrierOps ++ unlistedOps).contains inner.op then
    (read.headD 0, store + 1)
  else if v.op = "state" then (3, store)
  else (read.sum + store, store)

omit [DecidableEq Data] in
theorem lastSolved_solvesFields (commitIds : List ℕ) :
    SolvesFields commitIds (lastSolved : Execution Data ℕ ℕ) fun fields => fields := by
  constructor
  · intro v read store quiet
    obtain ⟨flat, _, unhidden⟩ := quiet
    have other : v.op ≠ "solve_fields" := by
      intro solve
      rw [solve] at flat
      exact flat (by decide)
    have clear : (unlistedOps.contains v.op ||
        (attrNodes v.attrs).any fun inner => (stateBarrierOps ++ unlistedOps).contains inner.op) = false := by
      rw [Bool.or_eq_false_iff, List.any_eq_false]
      refine ⟨by simpa using fun listed => unhidden (.inl listed), fun inner member barrier => ?_⟩
      exact unhidden (.inr ⟨inner, member, List.contains_iff_mem.mp barrier⟩)
    rw [lastSolved, if_neg other, clear, if_neg Bool.false_ne_true]
    by_cases state : v.op = "state"
    · rw [if_pos state]
    · rw [if_neg state]
  · intro v w solve again _ read before store same
    rw [lastSolved, if_pos solve] at same
    rw [lastSolved, lastSolved, if_pos solve, if_pos again, same]

/-- Two solves from the same state, with a rate read in between. -/
def twiceSolved : Program String where
  values := [.mk 0 "state" [] .none, .mk 1 "solve_fields" [0] (.data "field" "phi" .none), .mk 6 "solve_outcome" [1] .none,
    .mk 2 "rhs" [0, 6] .none, .mk 3 "solve_fields" [0] (.data "field" "phi" .none), .mk 7 "solve_outcome" [3] .none,
    .mk 4 "rhs" [0, 7] .none, .mk 5 "linear_combine" [0, 2, 4] .none]
  commits := [(0, 5)]
  unique := by decide

theorem twiceSolved_bare : BareSolves twiceSolved := by
  intro v listed _
  simp only [twiceSolved, List.mem_cons, List.not_mem_nil, or_false] at listed
  rcases listed with rfl | rfl | rfl | rfl | rfl | rfl | rfl | rfl <;> rfl

/-- A loop that solves again for each of its states, between two solves from the first. -/
def loopBetween : Program String where
  values := [.mk 0 "state" [] .none, .mk 1 "solve_fields" [0] (.data "field" "phi" .none), .mk 11 "solve_outcome" [1] .none,
    .mk 7 "while" [0]
      (.block .condBlock (.cons (.mk 2 "reduce" [0] .none) (.cons (.mk 3 "compare" [2] .none) .nil))
        (.ref .cond 3 (.block .bodyBlock
          (.cons (.mk 4 "solve_fields" [0] (.data "field" "phi" .none)) (.cons (.mk 12 "solve_outcome" [4] .none)
            (.cons (.mk 5 "rhs" [0, 12] .none) (.cons (.mk 6 "linear_combine" [0, 5] .none) .nil))))
          (.ref .body 6 .none)))),
    .mk 8 "solve_fields" [0] (.data "field" "phi" .none), .mk 13 "solve_outcome" [8] .none, .mk 9 "rhs" [0, 13] .none,
    .mk 10 "linear_combine" [7, 9] .none]
  commits := [(0, 10)]
  unique := by decide

end Pops.ProgramPasses
