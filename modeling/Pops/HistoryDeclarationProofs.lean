import Pops.HistoryDeclaration

/-!
A rejected declaration leaves the Program as it was exactly where every registry that the call has
passed before it raises already held the ring.
-/
namespace Pops.HistoryDeclaration

/-- The history registries and the IR are those of the Program before. -/
structure Kept (before after : Program) : Prop where
  registries : after.registries = before.registries
  graph : after.graph = before.graph

/-- The three registries of a full-state ring hold the name. -/
structure RingHeld (program : Program) (name : String) : Prop where
  space : (program.registries.spaces.get name).isSome
  block : (program.registries.blocks.get name).isSome
  state : (program.registries.stateRefs.get name).isSome

/-- A space that the ring does not have. -/
def SpaceRefused (program : Program) (name : String) (space : Option Space) : Prop :=
  ∃ prior raised, program.registries.spaces.get name = some prior ∧
    requireCompatibleSpaces prior space ("history '" ++ name ++ "'") = .error raised

/-- A block that the ring does not have. -/
def BlockRefused (program : Program) (name : String) (block : Option Block) : Prop :=
  ∃ prior, program.registries.blocks.get name = some prior ∧ sameBlock prior block = false

/-- A state that no ring of this block can have, or that this ring does not have. -/
def StateRefused (program : Program) (name : String) (stateRef : Argument Handle) (block : Option Block) : Prop :=
  (∃ raised, stateHandle stateRef block = .error raised) ∨
    ∃ handle prior, stateHandle stateRef block = .ok handle ∧
      program.registries.stateRefs.get name = some prior ∧ prior.qualifiedId ≠ handle.qualifiedId

/-- The declarations meet what they refuse before a registry that does not hold the name. -/
def RingRefused (program : Program) (name : String) (space : Option Space) (block : Option Block)
    (stateRef : Argument Handle) : Prop :=
  SpaceRefused program name space ∨
    (program.registries.spaces.get name).isSome ∧ (BlockRefused program name block ∨
      (program.registries.blocks.get name).isSome ∧ StateRefused program name stateRef block)

/-- A block that `bind_program_block` refuses. -/
def Unbound (program : Program) (block : Option Block) : Prop :=
  ∃ given ∈ block, match given.authority with
    | .caseOwner name authority => ∃ bound ∈ program.caseOwner, bound ≠ (name, authority)
    | _ => True

/-- A full-state read that is refused where it has nothing new to register. -/
def FullReadSettled (program : Program) (name : String) (lag : ℤ) (space : Option Space) (block : Option Block)
    (stateRef : Argument Handle) (contract : Argument Contract) : Prop :=
  let space := program.ringSpace name space
  let block := program.ringBlock name block
  RingRefused program name space block stateRef ∨ RingHeld program name ∧
    ((∃ raised, checkContract program contract stateRef space block lag = .error raised) ∨
      (∃ raised, policyForHistoryRead program name (program.maxLag name lag + 1) = .error raised) ∨
      Unbound program block)

/-- A scalar read that is refused where it has nothing new to register. -/
def ScalarReadSettled (program : Program) (name : String) (lag : ℤ) (call : Read) : Prop :=
  ¬ (call.space = none ∧ call.stateRef = .absent ∧ call.ncomp = .given 1) ∨
    (∃ raised, policyForHistoryRead program name (program.maxLag name lag + 1) = .error raised) ∨
    (program.registries.blocks.get name).isSome

/-- A call of `history` or of `store_history`. -/
inductive Call where
  | read (call : Read)
  | store (call : Store)

def Call.run : Call → Method Unit
  | .read call => history call
  | .store call => storeHistory call

/-- What the call is refused for comes before anything that it would be the first to register. -/
def Call.Settled (program : Program) : Call → Prop
  | .read call => program.frozen = true ∨ match checkRead call with
    | .error _ => True
    | .ok (name, lag, block) =>
      if call.ncomp = .absent then FullReadSettled program name lag call.space block call.stateRef call.contract
      else ScalarReadSettled program name lag call
  | .store call => program.frozen = true ∨ match checkStore program call with
    | .error _ => True
    | .ok (name, value, _, _) =>
      value.fullState = true →
        RingHeld program name ∨ RingRefused program name value.space value.block (.ofOption value.stateRef)

theorem Kept.refl (program : Program) : Kept program program := ⟨rfl, rfl⟩

variable {before after : Program} {raised : Raised}

theorem of_bind_error {α β : Type} {first : Method α} {next : α → Method β}
    (run : (first >>= next) before = .error raised after) :
    first before = .error raised after ∨
      ∃ value between, first before = .ok value between ∧ next value between = .error raised after := by
  simp only [bind, EStateM.bind] at run
  cases outcome : first before with
  | ok value between =>
    rw [outcome] at run
    exact .inr ⟨value, between, rfl, run⟩
  | error other between =>
    rw [outcome] at run
    cases run
    exact .inl rfl

theorem of_bind_ok {α β : Type} {first : Method α} {next : α → Method β} {result : β}
    (run : (first >>= next) before = .ok result after) :
    ∃ value between, first before = .ok value between ∧ next value between = .ok result after := by
  simp only [bind, EStateM.bind] at run
  cases outcome : first before with
  | ok value between =>
    rw [outcome] at run
    exact ⟨value, between, rfl, run⟩
  | error other between =>
    rw [outcome] at run
    cases run

theorem get_bind {β : Type} (next : Program → Method β) (program : Program) :
    (get >>= next) program = next program program := rfl

theorem require_run (passes : Prop) [Decidable passes] (raised : Raised) (program : Program) :
    require passes raised program = if passes then .ok () program else .error raised program := by
  unfold require
  split <;> rfl

theorem lift_run {α : Type} (outcome : Except Raised α) (program : Program) :
    lift outcome program = match outcome with
      | .ok value => .ok value program
      | .error raised => .error raised program := by
  cases outcome <;> rfl

theorem of_lift_error {α : Type} {outcome : Except Raised α}
    (run : lift outcome before = .error raised after) : outcome = .error raised ∧ after = before := by
  rw [lift_run] at run
  cases outcome <;> simp_all

theorem of_lift_ok {α : Type} {outcome : Except Raised α} {value : α}
    (run : lift outcome before = .ok value after) : outcome = .ok value ∧ after = before := by
  rw [lift_run] at run
  cases outcome <;> simp_all

theorem of_require_error {passes : Prop} [Decidable passes] {raised other : Raised}
    (run : require passes raised before = .error other after) : ¬ passes ∧ after = before := by
  rw [require_run] at run
  split at run
  · cases run
  · cases run
    exact ⟨‹_›, rfl⟩

theorem of_require_ok {passes : Prop} [Decidable passes]
    (run : require passes raised before = .ok () after) : passes ∧ after = before := by
  rw [require_run] at run
  split at run
  · cases run
    exact ⟨‹_›, rfl⟩
  · cases run

theorem Dict.set_ne {α : Type} {name : String} {value : α} {dict : Dict α} (fresh : dict.get name = none) :
    dict.set name value ≠ dict := by
  suffices length : (dict.set name value).length = dict.length + 1 by
    intro same
    rw [same] at length
    omega
  induction dict with
  | nil => rfl
  | cons head rest ih =>
    obtain ⟨other, old⟩ := head
    rw [Dict.get, List.lookup_cons] at fresh
    by_cases same : name = other
    · simp [same] at fresh
    · have distinct : other ≠ name := fun equal => same equal.symm
      simp only [beq_eq_false_iff_ne.mpr same] at fresh
      simp only [Dict.set, if_neg distinct, List.length_cons, ih fresh]

section
variable {program after : Program} {name : String} {space : Option Space} {block : Option Block}
  {stateRef : Argument Handle} {raised : Raised}

theorem requireHistorySpace_error (run : requireHistorySpace name space program = .error raised after) :
    after = program ∧ SpaceRefused program name space := by
  rw [requireHistorySpace, get_bind] at run
  cases held : program.registries.spaces.get name with
  | none =>
    rw [held] at run
    cases run
  | some prior =>
    rw [held] at run
    obtain ⟨refused, rfl⟩ := of_lift_error run
    exact ⟨rfl, prior, raised, held, refused⟩

theorem requireHistorySpace_ok (run : requireHistorySpace name space program = .ok () after) :
    (program.registries.spaces.get name = none ∧ after = { program with
      registries := { program.registries with spaces := program.registries.spaces.set name space } }) ∨
    (after = program ∧ (program.registries.spaces.get name).isSome ∧ ¬ SpaceRefused program name space) := by
  rw [requireHistorySpace, get_bind] at run
  cases held : program.registries.spaces.get name with
  | none =>
    rw [held] at run
    cases run
    exact .inl ⟨rfl, rfl⟩
  | some prior =>
    rw [held] at run
    obtain ⟨agrees, rfl⟩ := of_lift_ok run
    refine .inr ⟨rfl, rfl, ?_⟩
    rintro ⟨other, refusal, same, refused⟩
    rw [held] at same
    cases same
    rw [agrees] at refused
    cases refused

theorem declareHistoryBlock_error (run : declareHistoryBlock name block program = .error raised after) :
    after = program ∧ BlockRefused program name block := by
  rw [declareHistoryBlock, get_bind] at run
  cases held : program.registries.blocks.get name with
  | none =>
    rw [held] at run
    cases run
  | some prior =>
    rw [held] at run
    obtain ⟨differs, rfl⟩ := of_require_error run
    exact ⟨rfl, prior, held, by simpa using differs⟩

theorem declareHistoryBlock_ok (run : declareHistoryBlock name block program = .ok () after) :
    (program.registries.blocks.get name = none ∧ after = { program with
      registries := { program.registries with blocks := program.registries.blocks.set name block } }) ∨
    (after = program ∧ (program.registries.blocks.get name).isSome ∧ ¬ BlockRefused program name block) := by
  rw [declareHistoryBlock, get_bind] at run
  cases held : program.registries.blocks.get name with
  | none =>
    rw [held] at run
    cases run
    exact .inl ⟨rfl, rfl⟩
  | some prior =>
    rw [held] at run
    obtain ⟨agrees, rfl⟩ := of_require_ok run
    refine .inr ⟨rfl, rfl, ?_⟩
    rintro ⟨other, same, differs⟩
    rw [held] at same
    cases same
    rw [agrees] at differs
    cases differs

theorem declareHistoryState_error (run : declareHistoryState name stateRef block program = .error raised after) :
    after = program ∧ StateRefused program name stateRef block := by
  rw [declareHistoryState] at run
  obtain invalid | ⟨handle, between, valid, rest⟩ := of_bind_error run
  · obtain ⟨refused, rfl⟩ := of_lift_error invalid
    exact ⟨rfl, .inl ⟨raised, refused⟩⟩
  · obtain ⟨accepted, rfl⟩ := of_lift_ok valid
    rw [get_bind] at rest
    cases held : between.registries.stateRefs.get name with
    | none =>
      rw [held] at rest
      cases rest
    | some prior =>
      rw [held] at rest
      obtain ⟨differs, rfl⟩ := of_require_error rest
      exact ⟨rfl, .inr ⟨handle, prior, accepted, held, differs⟩⟩

theorem declareHistoryState_ok (run : declareHistoryState name stateRef block program = .ok () after) :
    (program.registries.stateRefs.get name = none ∧ ∃ handle, after = { program with
      registries := { program.registries with stateRefs := program.registries.stateRefs.set name handle } }) ∨
    (after = program ∧ (program.registries.stateRefs.get name).isSome) := by
  rw [declareHistoryState] at run
  obtain ⟨handle, between, valid, rest⟩ := of_bind_ok run
  obtain ⟨accepted, rfl⟩ := of_lift_ok valid
  rw [get_bind] at rest
  cases held : between.registries.stateRefs.get name with
  | none =>
    rw [held] at rest
    cases rest
    exact .inl ⟨rfl, handle, rfl⟩
  | some prior =>
    rw [held] at rest
    obtain ⟨agrees, rfl⟩ := of_require_ok rest
    exact .inr ⟨rfl, rfl⟩

/-- Where the declarations raise, they have registered nothing exactly where each registry before
held the name. -/
theorem declareRing_error (run : declareRing name space block stateRef program = .error raised after) :
    (Kept program after ↔ RingRefused program name space block stateRef) ∧
      (RingHeld program name → RingRefused program name space block stateRef) := by
  rw [declareRing] at run
  obtain early | ⟨_, first, spaced, rest⟩ := of_bind_error run
  · obtain ⟨rfl, refused⟩ := requireHistorySpace_error early
    exact ⟨⟨fun _ => .inl refused, fun _ => .refl _⟩, fun _ => .inl refused⟩
  · obtain ⟨fresh, rfl⟩ | ⟨rfl, held, accepted⟩ := requireHistorySpace_ok spaced
    · -- The space stays registered, whatever comes after it.
      have never : ¬ RingRefused program name space block stateRef := by
        rintro (⟨prior, -, found, -⟩ | ⟨found, -⟩)
        · simp [fresh] at found
        · simp [fresh] at found
      have spaces : after.registries.spaces = program.registries.spaces.set name space := by
        obtain refused | ⟨_, second, blocked, last⟩ := of_bind_error rest
        · rw [(declareHistoryBlock_error refused).1]
        · rw [(declareHistoryState_error last).1]
          obtain ⟨-, rfl⟩ | ⟨rfl, -⟩ := declareHistoryBlock_ok blocked <;> rfl
      have changed : ¬ Kept program after := by
        rintro ⟨same, -⟩
        rw [same] at spaces
        exact Dict.set_ne fresh spaces.symm
      exact ⟨⟨fun kept => (changed kept).elim, fun refused => (never refused).elim⟩,
        fun all => absurd all.space (by simp [fresh])⟩
    · obtain refused | ⟨_, second, blocked, last⟩ := of_bind_error rest
      · obtain ⟨rfl, mixed⟩ := declareHistoryBlock_error refused
        exact ⟨⟨fun _ => .inr ⟨held, .inl mixed⟩, fun _ => .refl _⟩, fun _ => .inr ⟨held, .inl mixed⟩⟩
      · obtain ⟨rfl, invalid⟩ := declareHistoryState_error last
        obtain ⟨fresh, rfl⟩ | ⟨rfl, kept, agreed⟩ := declareHistoryBlock_ok blocked
        · refine ⟨⟨?_, ?_⟩, fun all => absurd all.block (by simp [fresh])⟩
          · rintro ⟨same, -⟩
            exact (Dict.set_ne fresh (congrArg Registries.blocks same)).elim
          · rintro (refused | ⟨-, ⟨prior, found, -⟩ | ⟨found, -⟩⟩)
            · exact (accepted refused).elim
            · simp [fresh] at found
            · simp [fresh] at found
        · exact ⟨⟨fun _ => .inr ⟨held, .inr ⟨kept, invalid⟩⟩, fun _ => .refl _⟩,
            fun _ => .inr ⟨held, .inr ⟨kept, invalid⟩⟩⟩

theorem declareRing_ok (run : declareRing name space block stateRef program = .ok () after) :
    ¬ RingRefused program name space block stateRef ∧ after.frozen = program.frozen ∧
      (after = program ∧ RingHeld program name ∨
        after.registries ≠ program.registries ∧ ¬ RingHeld program name) := by
  rw [declareRing] at run
  obtain ⟨_, first, spaced, rest⟩ := of_bind_ok run
  obtain ⟨_, second, blocked, last⟩ := of_bind_ok rest
  obtain ⟨fresh, rfl⟩ | ⟨rfl, held, accepted⟩ := requireHistorySpace_ok spaced
  · have spaces : after.registries.spaces = program.registries.spaces.set name space ∧ after.frozen = program.frozen := by
      obtain ⟨-, rfl⟩ | ⟨rfl, -⟩ := declareHistoryBlock_ok blocked <;>
        obtain ⟨-, handle, rfl⟩ | ⟨rfl, -⟩ := declareHistoryState_ok last <;> exact ⟨rfl, rfl⟩
    refine ⟨?_, spaces.2, .inr ⟨fun same => ?_, fun all => absurd all.space (by simp [fresh])⟩⟩
    · rintro (⟨prior, -, found, -⟩ | ⟨found, -⟩)
      · simp [fresh] at found
      · simp [fresh] at found
    · have same := spaces.1.symm.trans (congrArg Registries.spaces same)
      exact Dict.set_ne fresh same
  · obtain ⟨fresh, rfl⟩ | ⟨rfl, kept, agreed⟩ := declareHistoryBlock_ok blocked
    · have blocks : after.registries.blocks = first.registries.blocks.set name block ∧ after.frozen = first.frozen := by
        obtain ⟨-, handle, rfl⟩ | ⟨rfl, -⟩ := declareHistoryState_ok last <;> exact ⟨rfl, rfl⟩
      refine ⟨?_, blocks.2, .inr ⟨fun same => ?_, fun all => absurd all.block (by simp [fresh])⟩⟩
      · rintro (refused | ⟨-, ⟨prior, found, -⟩ | ⟨found, -⟩⟩)
        · exact accepted refused
        · simp [fresh] at found
        · simp [fresh] at found
      · have same := blocks.1.symm.trans (congrArg Registries.blocks same)
        exact Dict.set_ne fresh same
    · have valid : ¬ StateRefused second name stateRef block := by
        rintro (⟨raised, invalid⟩ | ⟨handle, prior, valid, found, differs⟩)
        all_goals
          rw [declareHistoryState] at last
          obtain ⟨given, between, passed, ending⟩ := of_bind_ok last
          obtain ⟨outcome, rfl⟩ := of_lift_ok passed
        · rw [invalid] at outcome
          cases outcome
        · rw [valid] at outcome
          cases outcome
          rw [get_bind, found] at ending
          exact differs (of_require_ok ending).1
      have accepted : ¬ RingRefused second name space block stateRef := by
        rintro (refused | ⟨-, mixed | ⟨-, invalid⟩⟩)
        · exact accepted refused
        · exact agreed mixed
        · exact valid invalid
      obtain ⟨fresh, handle, rfl⟩ | ⟨rfl, stated⟩ := declareHistoryState_ok last
      · refine ⟨accepted, rfl, .inr ⟨fun same => ?_, fun all => absurd all.state (by simp [fresh])⟩⟩
        exact Dict.set_ne fresh (congrArg Registries.stateRefs same)
      · exact ⟨accepted, rfl, .inl ⟨rfl, held, kept, stated⟩⟩

theorem bindProgramBlock_error {given : Block} {location : String}
    (run : bindProgramBlock given location program = .error raised after) :
    after = program ∧ Unbound program (some given) := by
  rw [bindProgramBlock] at run
  cases authority : given.authority with
  | detached =>
    rw [authority] at run
    cases run
    exact ⟨rfl, given, rfl, by rw [authority]; trivial⟩
  | refused other =>
    rw [authority] at run
    cases run
    exact ⟨rfl, given, rfl, by rw [authority]; trivial⟩
  | outside =>
    rw [authority] at run
    cases run
    exact ⟨rfl, given, rfl, by rw [authority]; trivial⟩
  | caseOwner owner token =>
    simp only [authority] at run
    rw [get_bind] at run
    cases bound : program.caseOwner with
    | none =>
      rw [bound] at run
      cases run
    | some other =>
      rw [bound] at run
      obtain ⟨differs, rfl⟩ := of_require_error run
      refine ⟨rfl, given, rfl, ?_⟩
      rw [authority]
      exact ⟨other, bound, differs⟩

theorem bindProgramBlock_ok {given : Block} {location : String}
    (run : bindProgramBlock given location program = .ok () after) :
    after.registries = program.registries ∧ after.graph = program.graph ∧ ¬ Unbound program (some given) := by
  rw [bindProgramBlock] at run
  cases authority : given.authority with
  | detached | refused | outside =>
    rw [authority] at run
    cases run
  | caseOwner owner token =>
    simp only [authority] at run
    rw [get_bind] at run
    cases bound : program.caseOwner with
    | none =>
      rw [bound] at run
      cases run
      refine ⟨rfl, rfl, ?_⟩
      rintro ⟨block, same, refused⟩
      cases same
      rw [authority] at refused
      obtain ⟨other, found, -⟩ := refused
      rw [bound] at found
      cases found
    | some other =>
      rw [bound] at run
      obtain ⟨agrees, rfl⟩ := of_require_ok run
      refine ⟨rfl, rfl, ?_⟩
      rintro ⟨block, same, refused⟩
      cases same
      rw [authority] at refused
      obtain ⟨last, found, differs⟩ := refused
      rw [bound] at found
      cases found
      exact differs agrees

theorem bindBlock_error {op : String} (run : bindBlock op block program = .error raised after) :
    after = program ∧ Unbound program block := by
  cases block with
  | none => cases run
  | some given => exact bindProgramBlock_error run

theorem bindBlock_ok {op : String} (run : bindBlock op block program = .ok () after) :
    after.registries = program.registries ∧ after.graph = program.graph ∧ ¬ Unbound program block := by
  cases block with
  | none =>
    cases run
    refine ⟨rfl, rfl, ?_⟩
    rintro ⟨given, found, -⟩
    cases found
  | some given => exact bindProgramBlock_ok run

theorem new_error {vtype op : String} {lag : Option ℤ} {handle : Option Handle} {inputs : List ℕ}
    (mutable : program.frozen = false) (run : new vtype op name lag block space handle inputs program = .error raised after) :
    after.registries = program.registries ∧
      (Unbound program block ∧ after.graph = program.graph ∨
        ¬ Unbound program block ∧ after.graph ≠ program.graph ∧ ∃ given ∈ space, given.immutable = false) := by
  rw [new] at run
  obtain refused | ⟨_, guarded, passed, rest⟩ := of_bind_error run
  · rw [guardMutable, get_bind] at refused
    exact absurd mutable (of_require_error refused).1
  · rw [guardMutable, get_bind] at passed
    obtain ⟨-, rfl⟩ := of_require_ok passed
    obtain refused | ⟨_, between, binds, numbered⟩ := of_bind_error rest
    · obtain ⟨rfl, unbound⟩ := bindBlock_error refused
      exact ⟨rfl, .inl ⟨unbound, rfl⟩⟩
    · obtain ⟨registries, graph, admitted⟩ := bindBlock_ok binds
      rw [get_bind] at numbered
      obtain refused | ⟨_, drawn, draws, checked⟩ := of_bind_error numbered
      · cases refused
      · cases draws
        obtain refused | ⟨_, last, accepted, appended⟩ := of_bind_error checked
        · obtain ⟨unsuited, rfl⟩ := of_require_error refused
          refine ⟨registries, .inr ⟨admitted, fun same => ?_, by simpa using unsuited⟩⟩
          have counted := congrArg Graph.nextId same
          rw [← graph] at counted
          exact absurd counted (Nat.succ_ne_self _)
        · cases appended

theorem guardMutable_error {operation : String} (run : guardMutable operation program = .error raised after) :
    program.frozen = true ∧ after = program := by
  rw [guardMutable, get_bind] at run
  obtain ⟨frozen, rfl⟩ := of_require_error run
  exact ⟨by simpa using frozen, rfl⟩

theorem guardMutable_ok {operation : String} (run : guardMutable operation program = .ok () after) :
    program.frozen = false ∧ after = program := by
  rw [guardMutable, get_bind] at run
  exact of_require_ok run

theorem kept_of_error {vtype op : String} {lag : Option ℤ} {handle : Option Handle} {inputs : List ℕ}
    (mutable : program.frozen = false) (run : new vtype op name lag block space handle inputs program = .error raised after) :
    after.registries = program.registries ∧ (Unbound program block → Kept program after) ∧
      ((∀ given ∈ space, given.immutable = true) ∨ Kept program after → Unbound program block) := by
  obtain ⟨registries, ⟨unbound, graph⟩ | ⟨bound, drawn, given, found, unsuited⟩⟩ := new_error mutable run
  · exact ⟨registries, fun _ => ⟨registries, graph⟩, fun _ => unbound⟩
  · refine ⟨registries, fun unbound => (bound unbound).elim, ?_⟩
    rintro (suited | kept)
    · rw [suited given found] at unsuited
      cases unsuited
    · exact (drawn kept.graph).elim

theorem fullHistory_error {lag : ℤ} {contract : Argument Contract} (mutable : program.frozen = false)
    (run : fullHistory name lag space block stateRef contract program = .error raised after) :
    Kept program after ↔ FullReadSettled program name lag space block stateRef contract := by
  rw [fullHistory, get_bind] at run
  obtain refused | ⟨_, declared, declares, rest⟩ := of_bind_error run
  · obtain ⟨iff, held⟩ := declareRing_error refused
    exact iff.trans ⟨.inl, fun settled => settled.elim id fun ring => held ring.1⟩
  · obtain ⟨accepted, frozen, ⟨rfl, held⟩ | ⟨changed, fresh⟩⟩ := declareRing_ok declares
    · obtain refused | ⟨_, checked, checks, unsettled⟩ := of_bind_error rest
      · obtain ⟨invalid, rfl⟩ := of_lift_error refused
        exact ⟨fun _ => .inr ⟨held, .inl ⟨raised, invalid⟩⟩, fun _ => .refl _⟩
      obtain ⟨valid, rfl⟩ := of_lift_ok checks
      obtain refused | ⟨policy, settled, settles, adding⟩ := of_bind_error unsettled
      · obtain ⟨invalid, rfl⟩ := of_lift_error refused
        exact ⟨fun _ => .inr ⟨held, .inr (.inl ⟨raised, invalid⟩)⟩, fun _ => .refl _⟩
      obtain ⟨suited, rfl⟩ := of_lift_ok settles
      obtain refused | ⟨_, added, adds, ending⟩ := of_bind_error adding
      · obtain ⟨-, kept, unbound⟩ := kept_of_error mutable refused
        refine ⟨fun same => .inr ⟨held, .inr (.inr (unbound (.inr same)))⟩, ?_⟩
        rintro (refused | ⟨-, ⟨other, invalid⟩ | ⟨other, invalid⟩ | unbound⟩)
        · exact (accepted refused).elim
        · rw [valid] at invalid
          cases invalid
        · rw [suited] at invalid
          cases invalid
        · exact kept unbound
      · cases ending
    · -- Nothing after the declarations gives the registries back.
      have registries : after.registries = declared.registries := by
        obtain refused | ⟨_, checked, checks, unsettled⟩ := of_bind_error rest
        · rw [(of_lift_error refused).2]
        obtain ⟨-, rfl⟩ := of_lift_ok checks
        obtain refused | ⟨policy, settled, settles, adding⟩ := of_bind_error unsettled
        · rw [(of_lift_error refused).2]
        obtain ⟨-, rfl⟩ := of_lift_ok settles
        obtain refused | ⟨_, added, adds, ending⟩ := of_bind_error adding
        · exact (kept_of_error (frozen.trans mutable) refused).1
        · cases ending
      constructor
      · rintro ⟨same, -⟩
        exact (changed (registries.symm.trans same)).elim
      · rintro (refused | ⟨held, -⟩)
        · exact (accepted refused).elim
        · exact (fresh held).elim

theorem scalarHistory_error {lag : ℤ} {call : Read} (mutable : program.frozen = false)
    (run : scalarHistory name lag call block program = .error raised after) :
    Kept program after ↔ ScalarReadSettled program name lag call := by
  rw [scalarHistory] at run
  obtain refused | ⟨_, first, provenance, rest⟩ := of_bind_error run
  · obtain ⟨given, rfl⟩ := of_require_error refused
    exact ⟨fun _ => .inl fun all => given ⟨all.1, all.2.1⟩, fun _ => .refl _⟩
  obtain ⟨ungiven, rfl⟩ := of_require_ok provenance
  obtain refused | ⟨_, second, components, unsettled⟩ := of_bind_error rest
  · obtain ⟨wide, rfl⟩ := of_require_error refused
    exact ⟨fun _ => .inl fun all => wide all.2.2, fun _ => .refl _⟩
  obtain ⟨narrow, rfl⟩ := of_require_ok components
  rw [get_bind] at unsettled
  obtain refused | ⟨policy, settled, settles, declaring⟩ := of_bind_error unsettled
  · obtain ⟨invalid, rfl⟩ := of_lift_error refused
    exact ⟨fun _ => .inr (.inl ⟨raised, invalid⟩), fun _ => .refl _⟩
  obtain ⟨suited, rfl⟩ := of_lift_ok settles
  have settled_iff : ScalarReadSettled settled name lag call ↔ (settled.registries.blocks.get name).isSome := by
    refine ⟨?_, fun held => .inr (.inr held)⟩
    rintro (refused | ⟨other, invalid⟩ | held)
    · exact (refused ⟨ungiven.1, ungiven.2, narrow⟩).elim
    · rw [suited] at invalid
      cases invalid
    · exact held
  rw [settled_iff]
  obtain refused | ⟨_, declared, declares, adding⟩ := of_bind_error declaring
  · obtain ⟨rfl, prior, held, -⟩ := declareHistoryBlock_error refused
    exact ⟨fun _ => by simp [held], fun _ => .refl _⟩
  obtain refused | ⟨_, added, adds, ending⟩ := of_bind_error adding
  · obtain ⟨fresh, rfl⟩ | ⟨rfl, held, -⟩ := declareHistoryBlock_ok declares
    · refine ⟨fun kept => ?_, fun held => by simp [fresh] at held⟩
      have same := (kept_of_error (by exact mutable) refused).1.symm.trans kept.registries
      exact (Dict.set_ne fresh (congrArg Registries.blocks same)).elim
    · obtain ⟨-, kept, unbound⟩ := kept_of_error mutable refused
      refine ⟨fun _ => held, fun _ => kept (unbound (.inl ?_))⟩
      rintro given found
      cases found
  · cases ending

theorem history_error {call : Read} (run : history call program = .error raised after) :
    Kept program after ↔ (Call.read call).Settled program := by
  rw [history] at run
  obtain refused | ⟨_, guarded, passed, rest⟩ := of_bind_error run
  · obtain ⟨frozen, rfl⟩ := guardMutable_error refused
    exact ⟨fun _ => .inl frozen, fun _ => .refl _⟩
  obtain ⟨mutable, rfl⟩ := guardMutable_ok passed
  have open_iff : (Call.read call).Settled guarded ↔ match checkRead call with
      | .error _ => True
      | .ok (name, lag, block) =>
        if call.ncomp = .absent then FullReadSettled guarded name lag call.space block call.stateRef call.contract
        else ScalarReadSettled guarded name lag call := by
    rw [Call.Settled, mutable]
    exact or_iff_right Bool.false_ne_true
  rw [open_iff]
  obtain refused | ⟨⟨name, lag, block⟩, checked, checks, reading⟩ := of_bind_error rest
  · obtain ⟨invalid, rfl⟩ := of_lift_error refused
    rw [invalid]
    exact ⟨fun _ => trivial, fun _ => .refl _⟩
  obtain ⟨valid, rfl⟩ := of_lift_ok checks
  rw [valid]
  cases components : call.ncomp with
  | absent =>
    simp only [components] at reading
    exact fullHistory_error mutable reading
  | foreign | given =>
    simp only [components] at reading
    exact scalarHistory_error mutable reading

theorem storeHistory_error {call : Store} (run : storeHistory call program = .error raised after) :
    Kept program after ↔ (Call.store call).Settled program := by
  rw [storeHistory] at run
  obtain refused | ⟨_, guarded, passed, rest⟩ := of_bind_error run
  · obtain ⟨frozen, rfl⟩ := guardMutable_error refused
    exact ⟨fun _ => .inl frozen, fun _ => .refl _⟩
  obtain ⟨mutable, rfl⟩ := guardMutable_ok passed
  rw [get_bind] at rest
  rw [Call.Settled, mutable, or_iff_right Bool.false_ne_true]
  obtain refused | ⟨⟨name, value, maxLag, policy⟩, checked, checks, declaring⟩ := of_bind_error rest
  · obtain ⟨invalid, rfl⟩ := of_lift_error refused
    rw [invalid]
    exact ⟨fun _ => trivial, fun _ => .refl _⟩
  obtain ⟨valid, rfl⟩ := of_lift_ok checks
  rw [valid]
  have suited : ∀ given ∈ value.space, given.immutable = true := value.immutable
  cases ring : value.fullState with
  | false =>
    simp only [ring] at declaring
    refine ⟨fun _ full => absurd (ring.symm.trans full) Bool.false_ne_true, fun _ => ?_⟩
    obtain refused | ⟨_, scalar, scalars, adding⟩ := of_bind_error declaring
    · obtain ⟨-, rfl⟩ := of_lift_error refused
      exact .refl _
    obtain ⟨-, rfl⟩ := of_lift_ok scalars
    obtain refused | ⟨_, added, adds, ending⟩ := of_bind_error adding
    · obtain ⟨-, kept, unbound⟩ := kept_of_error mutable refused
      exact kept (unbound (.inl suited))
    · cases ending
  | true =>
    simp only [ring] at declaring
    have full_iff : (value.fullState = true → RingHeld checked name ∨
        RingRefused checked name value.space value.block (.ofOption value.stateRef)) ↔
        RingHeld checked name ∨ RingRefused checked name value.space value.block (.ofOption value.stateRef) :=
      ⟨fun settled => settled ring, fun settled _ => settled⟩
    refine Iff.trans ?_ full_iff.symm
    obtain refused | ⟨_, declared, declares, adding⟩ := of_bind_error declaring
    · obtain ⟨iff, held⟩ := declareRing_error refused
      exact iff.trans ⟨.inr, fun settled => settled.elim held id⟩
    · obtain ⟨accepted, frozen, ⟨rfl, held⟩ | ⟨changed, fresh⟩⟩ := declareRing_ok declares
      · obtain refused | ⟨_, added, adds, ending⟩ := of_bind_error adding
        · obtain ⟨-, kept, unbound⟩ := kept_of_error mutable refused
          exact ⟨fun _ => .inl held, fun _ => kept (unbound (.inl suited))⟩
        · cases ending
      · obtain refused | ⟨_, added, adds, ending⟩ := of_bind_error adding
        · obtain ⟨registries, -, -⟩ := kept_of_error (frozen.trans mutable) refused
          constructor
          · rintro ⟨same, -⟩
            exact (changed (registries.symm.trans same)).elim
          · rintro (held | refused)
            · exact (fresh held).elim
            · exact (accepted refused).elim
        · cases ending

end

/-- A rejected call keeps the registries and the IR exactly where it is refused before anything that
it would be the first to register. -/
theorem rejected_kept_iff (program after : Program) (call : Call) (raised : Raised)
    (rejected : call.run program = .error raised after) : Kept program after ↔ call.Settled program := by
  cases call with
  | read call => exact history_error rejected
  | store call => exact storeHistory_error rejected

/-- A block of a Case. -/
def plasma : Block := ⟨1, "case/plasma", .caseOwner "case" 0⟩

/-- A Program without histories. -/
def noHistory : Program :=
  ⟨0, "step", "program", false, none, ⟨[], [], [], [], [], []⟩, ⟨0, [], none⟩⟩

/-- A Program after `history("u", ncomp=1, block=plasma)`. -/
def scalarRing : Program :=
  ⟨0, "step", "program", false, some ("case", 0),
    ⟨[("u", 1)], [], [("u", some plasma)], [], [("u", 1)], [("u", 2, .dense)]⟩,
    ⟨1, [.node 0 "scalar_field" "history" "u" "u" (some 1) (some plasma) none none [] []], none⟩⟩

/-- `history("u", space=U, block=plasma, state_ref=plasma[U], contract=object())`. -/
def foreignContract : Read :=
  ⟨.given "u", .given 1, .absent, some ⟨some "U", some "U", true⟩, .given plasma,
    .given ⟨2, "case/plasma/U", true, plasma⟩, .foreign⟩

/-- A Program after `history("u", space=U, block=plasma, state_ref=plasma[U])`. -/
def stateRing : Program :=
  ⟨0, "step", "program", false, some ("case", 0),
    ⟨[("u", 1)], [("u", foreignContract.space)], [("u", some plasma)], [("u", ⟨2, "case/plasma/U", true, plasma⟩)], [],
      [("u", 2, .dense)]⟩,
    ⟨1, [.node 0 "state" "history" "u" "u" (some 1) (some plasma) foreignContract.space
      (some ⟨2, "case/plasma/U", true, plasma⟩) [] []], none⟩⟩

/-- A contract that is refused on a ring that holds the name in every registry keeps everything. -/
theorem refused_contract_kept :
    history { foreignContract with contract := .absent } noHistory = .ok () stateRing ∧
      (Kept stateRing stateRing ↔ (Call.read foreignContract).Settled stateRing) :=
  ⟨rfl, rejected_kept_iff stateRing stateRing _ (.typeError "history: contract must be an exact HistoryContract") rfl⟩

/-- The ring of a scalar gets the state of a read that is refused, and is serialised with it. -/
theorem refused_read_registers_state :
    (history { foreignContract with ncomp := .given 1, space := none, stateRef := .absent } noHistory =
      .ok () scalarRing) ∧
    ∃ raised after, (Call.read foreignContract).run scalarRing = .error raised after ∧
      after.registries.rows ≠ scalarRing.registries.rows ∧ ¬ Kept scalarRing after := by
  refine ⟨rfl, _, _, rfl, ?_, ?_⟩
  · decide
  · rintro ⟨same, -⟩
    exact absurd (congrArg Registries.stateRefs same) (by decide)

end Pops.HistoryDeclaration
