import Pops.Authoring

/-!
A failing callback leaves nothing behind. The snapshot holds every container
that the attributes reach, however they are shared, and the callback cannot
make an object another: giving each container its contents back gives the
Program back.
-/
namespace Pops.Authoring

variable {heap current : Heap} {program : Program} {pending : List Ref} {state : AuthoringSnapshot}

/-- Objects keep their kind, and those that never change are kept. -/
def Kept (heap current : Heap) : Prop :=
  ∀ (ref : Ref) (object : Object), heap[ref]? = some object →
    ∃ now : Object, current[ref]? = some now ∧ now.kind = object.kind ∧ (object.kind = .fixed → now = object)

theorem Kept.refl (heap : Heap) : Kept heap heap := fun _ object found => ⟨object, found, rfl, fun _ => rfl⟩

theorem assign_get (heap : Heap) (container ref : Ref) (contents : Object) :
    (heap.assign container contents)[ref]? = heap[ref]?.map fun now =>
      if container = ref ∧ now.kind = contents.kind ∧ now.kind ≠ .fixed then contents else now := by
  rw [Heap.assign, List.getElem?_modify]
  by_cases same : container = ref
  · simp [same]
  · simp [same]

theorem Kept.assign (kept : Kept heap current) (container : Ref) (contents : Object) :
    Kept heap (current.assign container contents) := by
  intro ref object found
  obtain ⟨now, there, kind, fixed⟩ := kept ref object found
  refine ⟨_, by rw [assign_get, there]; rfl, ?_⟩
  dsimp only
  split
  · rename_i taken
    obtain ⟨-, sameKind, changes⟩ := taken
    exact ⟨sameKind.symm.trans kind, fun never => absurd (kind.trans never) changes⟩
  · exact ⟨kind, fixed⟩

theorem Kept.mutate (kept : Kept heap program.heap) (mutation : Mutation) :
    Kept heap (program.mutate mutation).heap := by
  cases mutation with
  | allocate object =>
    intro ref old found
    obtain ⟨now, there, same⟩ := kept ref old found
    refine ⟨now, ?_, same⟩
    have known := (List.getElem?_eq_some_iff.mp there).1
    rw [Program.mutate, List.getElem?_append_left known, there]
  | assign container contents => exact kept.assign container contents
  | rebind attributes => exact kept

theorem Kept.run (kept : Kept heap program.heap) (mutations : List Mutation) :
    Kept heap (mutations.foldl Program.mutate program).heap := by
  induction mutations generalizing program with
  | nil => exact kept
  | cons mutation later ih => exact ih (kept.mutate mutation)

/-- A value that holds others has been seen. -/
def Recorded (heap : Heap) (state : AuthoringSnapshot) (value : Ref) : Prop :=
  ∀ object, heap[value]? = some object → object.isContainer = true → value ∈ state.seen

/-- A visit has looked into what it has seen, but for what is pending. -/
structure Visited (heap : Heap) (pending : List Ref) (state : AuthoringSnapshot) : Prop where
  consistent : ∀ saved ∈ state.containers, heap[saved.1]? = some saved.2
  saved : ∀ value ∈ state.seen, ∀ object, heap[value]? = some object → object.kind ≠ .fixed →
    (value, object) ∈ state.containers
  closed : ∀ value ∈ state.seen, ∀ object, heap[value]? = some object → ∀ child ∈ object.items,
    child ∈ pending ∨ Recorded heap state child

theorem Visited.skip {value : Ref} (visited : Visited heap (value :: pending) state)
    (recorded : Recorded heap state value) : Visited heap pending state where
  consistent := visited.consistent
  saved := visited.saved
  closed := by
    intro parent listed object found child held
    rcases visited.closed parent listed object found child held with waiting | done
    · rcases List.mem_cons.mp waiting with rfl | later
      · exact .inr recorded
      · exact .inl later
    · exact .inr done

theorem Recorded.mono {later : AuthoringSnapshot} {value : Ref} (recorded : Recorded heap state value)
    (more : ∀ ref ∈ state.seen, ref ∈ later.seen) : Recorded heap later value :=
  fun object found container => more value (recorded object found container)

/-! The steps of a visit. -/

theorem visit_known {value : Ref} (known : value ∈ state.seen) :
    visit heap (value :: pending) state = visit heap pending state := by
  rw [visit, if_pos known]

theorem visit_plain {value : Ref} (fresh : value ∉ state.seen)
    (plain : ∀ object, heap[value]? = some object → object.isContainer = false) :
    visit heap (value :: pending) state = visit heap pending state := by
  rw [visit, if_neg fresh]
  split
  · rfl
  · rename_i object found
    rw [if_neg (by simp [plain object found])]

/-- What has been recorded once a container was looked into. -/
def record (state : AuthoringSnapshot) (value : Ref) (object : Object) : AuthoringSnapshot :=
  { state with
    seen := value :: state.seen
    containers := if object.kind = .fixed then state.containers else state.containers ++ [(value, object)] }

variable {object : Object}

theorem visit_container {value : Ref} (fresh : value ∉ state.seen) (found : heap[value]? = some object)
    (container : object.isContainer = true) :
    visit heap (value :: pending) state = visit heap (object.items ++ pending) (record state value object) := by
  rw [visit, if_neg fresh]
  split
  · simp_all
  · rename_i held same
    rw [found, Option.some.injEq] at same
    subst same
    rw [if_pos container, record]

theorem Visited.record {value : Ref} (visited : Visited heap (value :: pending) state)
    (found : heap[value]? = some object) :
    Visited heap (object.items ++ pending) (record state value object) where
  consistent := by
    intro saved listed
    simp only [Authoring.record] at listed
    split at listed
    · exact visited.consistent saved listed
    · rcases List.mem_append.mp listed with earlier | here
      · exact visited.consistent saved earlier
      · rw [List.mem_singleton.mp here]
        exact found
  saved := by
    intro seen listed held there changes
    simp only [Authoring.record]
    rcases List.mem_cons.mp listed with rfl | earlier
    · rw [found, Option.some.injEq] at there
      subst there
      rw [if_neg changes]
      exact List.mem_append_right _ (List.mem_singleton.mpr rfl)
    · have kept := visited.saved seen earlier held there changes
      split
      · exact kept
      · exact List.mem_append_left _ kept
  closed := by
    intro parent listed held there child inside
    rcases List.mem_cons.mp listed with rfl | earlier
    · rw [found, Option.some.injEq] at there
      subst there
      exact .inl (List.mem_append_left _ inside)
    · rcases visited.closed parent earlier held there child inside with waiting | done
      · rcases List.mem_cons.mp waiting with rfl | later
        · exact .inr fun _ _ _ => List.mem_cons_self
        · exact .inl (List.mem_append_right _ later)
      · exact .inr (done.mono fun ref seen => List.mem_cons_of_mem _ seen)

theorem visit_visited (heap : Heap) (pending : List Ref) (state : AuthoringSnapshot)
    (visited : Visited heap pending state) :
    Visited heap [] (visit heap pending state) ∧ (∀ ref ∈ state.seen, ref ∈ (visit heap pending state).seen) ∧
      (∀ value ∈ pending, Recorded heap (visit heap pending state) value) ∧
      (visit heap pending state).attributes = state.attributes := by
  induction pending, state using visit.induct heap with
  | case1 state =>
    rw [visit]
    exact ⟨visited, fun ref listed => listed, fun value listed => (nomatch listed), rfl⟩
  | case2 value later state known ih =>
    rw [visit_known known]
    obtain ⟨final, more, each, bindings⟩ := ih (visited.skip fun _ _ _ => known)
    exact ⟨final, more, List.forall_mem_cons.mpr ⟨fun _ _ _ => more value known, each⟩, bindings⟩
  | case3 value later state fresh missing ih =>
    rw [visit_plain fresh (by simp [missing])]
    have plain (any : AuthoringSnapshot) : Recorded heap any value := by
      intro object found
      rw [missing] at found
      cases found
    obtain ⟨final, more, each, bindings⟩ := ih (visited.skip (plain _))
    exact ⟨final, more, List.forall_mem_cons.mpr ⟨plain _, each⟩, bindings⟩
  | case4 value later state fresh object found container ih =>
    rw [visit_container fresh found container]
    obtain ⟨final, more, each, bindings⟩ := ih (visited.record found)
    refine ⟨final, fun ref listed => more ref (List.mem_cons_of_mem _ listed), List.forall_mem_cons.mpr ⟨?_, ?_⟩, bindings⟩
    · exact fun _ _ _ => more value List.mem_cons_self
    · exact fun other listed => each other (List.mem_append_right _ listed)
  | case5 value later state fresh object found notContainer ih =>
    have plain : ∀ held, heap[value]? = some held → held.isContainer = false := by
      intro held there
      rw [found, Option.some.injEq] at there
      rw [← there]
      exact Bool.not_eq_true _ ▸ notContainer
    rw [visit_plain fresh plain]
    have recorded (any : AuthoringSnapshot) : Recorded heap any value := by
      intro held there container
      rw [plain held there] at container
      cases container
    obtain ⟨final, more, each, bindings⟩ := ih (visited.skip (recorded _))
    exact ⟨final, more, List.forall_mem_cons.mpr ⟨recorded _, each⟩, bindings⟩

/-- What the attributes of a Program reach. -/
inductive Reachable (program : Program) : Ref → Prop where
  | bound {name : String} {value : Ref} (listed : (name, value) ∈ program.attributes) : Reachable program value
  | item {parent child : Ref} {object : Object} (reached : Reachable program parent)
      (found : program.heap[parent]? = some object) (held : child ∈ object.items) : Reachable program child

theorem isContainer_of_items {child : Ref} (held : child ∈ object.items) :
    object.isContainer = true := by
  cases object with
  | other => cases held
  | list | dict | set | tuple | frozenset => rfl

theorem start_visited (program : Program) :
    Visited program.heap (program.attributes.map Prod.snd) { attributes := program.attributes } :=
  ⟨fun _ listed => (nomatch listed), fun _ listed => (nomatch listed), fun _ listed => (nomatch listed)⟩

theorem reachable_recorded {value : Ref} (reached : Reachable program value) :
    Recorded program.heap (snapshot program) value := by
  obtain ⟨final, -, each, -⟩ := visit_visited program.heap _ _ (start_visited program)
  induction reached with
  | bound listed => exact each _ (List.mem_map_of_mem listed)
  | item parent found held ih =>
    rcases final.closed _ (ih _ found (isContainer_of_items held)) _ found _ held with waiting | done
    · cases waiting
    · exact done

theorem snapshot_saved (program : Program) :
    (∀ saved ∈ (snapshot program).containers, program.heap[saved.1]? = some saved.2) ∧
      ∀ value object, Reachable program value → program.heap[value]? = some object → object.kind ≠ .fixed →
        (value, object) ∈ (snapshot program).containers := by
  obtain ⟨final, -, -, -⟩ := visit_visited program.heap _ _ (start_visited program)
  refine ⟨final.consistent, fun value object reached found changes => ?_⟩
  have container : object.isContainer = true := by
    cases object with
    | other => exact absurd rfl changes
    | list | dict | set | tuple | frozenset => rfl
  exact final.saved value (reachable_recorded reached object found container) object found changes

theorem assign_back {saved : Ref × Object} (kept : Kept heap current) (found : heap[saved.1]? = some saved.2)
    {ref : Ref} (known : heap[ref]? = some object)
    (back : current[ref]? = some object ∨ (ref, object) = saved ∧ object.kind ≠ .fixed) :
    (current.assign saved.1 saved.2)[ref]? = some object := by
  rw [assign_get]
  rcases back with same | ⟨rfl, changes⟩
  · rw [same, Option.map_some]
    split
    · rename_i taken
      rw [taken.1, known, Option.some.injEq] at found
      rw [found]
    · rfl
  · obtain ⟨now, there, kind, -⟩ := kept ref object known
    rw [there, Option.map_some, if_pos ⟨rfl, kind, fun never => changes (kind ▸ never)⟩]

theorem restore_get {saved : List (Ref × Object)} (kept : Kept heap current)
    (consistent : ∀ entry ∈ saved, heap[entry.1]? = some entry.2) {ref : Ref} (known : heap[ref]? = some object)
    (back : current[ref]? = some object ∨ (ref, object) ∈ saved ∧ object.kind ≠ .fixed) :
    (saved.foldl (fun now entry => Heap.assign now entry.1 entry.2) current)[ref]? = some object := by
  induction saved generalizing current with
  | nil =>
    rcases back with same | ⟨listed, -⟩
    · exact same
    · cases listed
  | cons entry later ih =>
    have found := consistent entry (by simp)
    refine ih (kept.assign entry.1 entry.2) (fun other listed => consistent other (by simp [listed])) ?_
    rcases back with same | ⟨listed, changes⟩
    · exact .inl (assign_back kept found known (.inl same))
    · rcases List.mem_cons.mp listed with here | deeper
      · exact .inl (assign_back kept found known (.inr ⟨here, changes⟩))
      · exact .inr ⟨deeper, changes⟩

/-- A callback that raises leaves its Program as it was, whatever it did: the
attributes are bound to the same objects in the same order, and every object
that they reach holds what it held. -/
theorem authoring_rollback_exact {ε α : Type} (program : Program) (mutations : List Mutation) (raised : ε) :
    ∃ restored : Program,
      authoringTransaction program (⟨mutations, .error raised⟩ : Callback ε α) = (restored, .error raised) ∧
        restored.attributes = program.attributes ∧
        ∀ ref object, Reachable program ref → program.heap[ref]? = some object →
          restored.heap[ref]? = some object := by
  refine ⟨_, rfl, ?_, fun ref object reached known => ?_⟩
  · exact (visit_visited program.heap _ _ (start_visited program)).2.2.2
  · obtain ⟨consistent, saved⟩ := snapshot_saved program
    have kept := (Kept.refl program.heap).run mutations
    refine restore_get kept (fun entry listed => consistent entry (List.mem_reverse.mp listed)) known ?_
    by_cases changes : object.kind = .fixed
    · obtain ⟨now, there, -, fixed⟩ := kept ref object known
      rw [fixed changes] at there
      exact .inl there
    · exact .inr ⟨List.mem_reverse.mpr (saved ref object reached known changes), changes⟩

/-! A Program whose values hold themselves, and are shared by its commits. -/

def cyclicProgram : Program :=
  ⟨[.list [0, 1], .dict [(2, 0)], .other], [("_values", 0), ("_commits", 1)]⟩

theorem cyclic_program_restored :
    ∃ restored : Program,
      authoringTransaction cyclicProgram
          (⟨[.assign 0 (.list []), .allocate (.tuple [1]), .assign 1 (.dict [(2, 3)]), .rebind [("_values", 3)]],
            .error "failed"⟩ : Callback String Unit) = (restored, .error "failed") ∧
        restored.attributes = [("_values", 0), ("_commits", 1)] ∧
        restored.heap[0]? = some (.list [0, 1]) ∧ restored.heap[1]? = some (.dict [(2, 0)]) := by
  obtain ⟨restored, ran, attributes, same⟩ := authoring_rollback_exact (α := Unit) cyclicProgram
    [.assign 0 (.list []), .allocate (.tuple [1]), .assign 1 (.dict [(2, 3)]), .rebind [("_values", 3)]] "failed"
  have listed : ("_values", 0) ∈ cyclicProgram.attributes := by simp [cyclicProgram]
  have held : cyclicProgram.heap[0]? = some (.list [0, 1]) := rfl
  have values : Reachable cyclicProgram 0 := .bound listed
  exact ⟨restored, ran, attributes, same 0 _ values held, same 1 _ (values.item held (by simp [Object.items])) rfl⟩

end Pops.Authoring
