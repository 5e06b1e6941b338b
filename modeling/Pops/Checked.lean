import Mathlib.Data.Int.Basic
import Mathlib.Data.List.Forall2

/-!
Results of source functions that may throw. A thrown standard exception is
`Except.error`, with the text the source gives it; nothing here models a
particular component.
-/
namespace Pops

/-- The standard exception types the modelled paths throw. -/
inductive Exception where
  | invalidArgument (what : String)
  | overflowError (what : String)
  | lengthError (what : String)
  | outOfRange (what : String)
  | runtimeError (what : String)
  | logicError (what : String)
  | badAlloc
  deriving DecidableEq, Repr

/-- `std::exception::what`. -/
def Exception.what : Exception → String
  | invalidArgument what | overflowError what | lengthError what | outOfRange what
  | runtimeError what | logicError what => what
  | badAlloc => "std::bad_alloc"

/-- `std::string`: any bytes, ordered as unsigned. -/
abbrev Bytes := List (Fin 256)

private theorem byte_lt (value : ℕ) : value % 256 < 256 := Nat.mod_lt value (by decide)

/-- The low byte of a number. -/
def byteOf (value : ℕ) : Fin 256 := ⟨value % 256, byte_lt value⟩

/-- The bytes of a string literal of the source. -/
def ascii (text : String) : Bytes := text.toList.map fun character => byteOf character.toNat

/-- The result of a function that either returns or throws. -/
abbrev Checked := Except Exception

/-- `if (condition) throw exception;`, the guard every validator is made of. -/
def throwIf (condition : Prop) [Decidable condition] (exception : Exception) : Checked Unit :=
  if condition then .error exception else .ok ()

/-- A guard passes exactly when its condition is false. -/
@[simp]
theorem throwIf_ok {condition : Prop} [Decidable condition] {exception : Exception} {u : Unit} :
    throwIf condition exception = .ok u ↔ ¬ condition := by
  unfold throwIf
  split <;> simp_all

theorem throwIf_of_not {condition : Prop} [Decidable condition] {exception : Exception}
    (passes : ¬ condition) : throwIf condition exception = .ok () :=
  if_neg passes

variable {ε α β σ : Type}

/-- Peel one step off a computation that returned. -/
theorem bind_ok {x : Except ε α} {f : α → Except ε β} {r : β} :
    (x >>= f) = .ok r ↔ ∃ a, x = .ok a ∧ f a = .ok r := by
  cases x <;> simp [bind, Except.bind]

/-- A computation that was tested to return has a result. -/
theorem exists_of_isOk {x : Except ε α} (returned : x.isOk = true) : ∃ r, x = .ok r := by
  cases x with
  | error e => cases returned
  | ok r => exact ⟨r, rfl⟩

/-- Continuations that agree on what a computation returned are interchangeable. -/
theorem bind_congr_ok {x : Except ε α} {f g : α → Except ε β} (same : ∀ a, x = .ok a → f a = g a) :
    (x >>= f) = (x >>= g) := by
  cases x with
  | error e => rfl
  | ok a => exact same a rfl

/-- A passed guard returns nothing to choose. -/
theorem unit_exists {p : Unit → Prop} : (∃ u, p u) ↔ p () :=
  ⟨fun ⟨_, holds⟩ => holds, fun holds => ⟨(), holds⟩⟩

@[simp]
theorem pure_ok {a r : α} : (pure a : Except ε α) = .ok r ↔ a = r := by
  simp [pure, Except.pure]

@[simp]
theorem ok_bind {a : α} {f : α → Except ε β} : ((Except.ok a : Except ε α) >>= f) = f a := rfl

@[simp]
theorem error_bind {e : ε} {f : α → Except ε β} :
    ((Except.error e : Except ε α) >>= f) = .error e := rfl

/-- A mapped loop returned exactly when each of its elements did. -/
theorem mapM_ok {f : α → Except ε β} {items : List α} {results : List β} :
    items.mapM f = .ok results ↔ List.Forall₂ (fun item result => f item = .ok result) items results := by
  induction items generalizing results with
  | nil => cases results <;> simp
  | cons item items ih =>
    rw [List.mapM_cons]
    cases results with
    | nil =>
      simp only [bind_ok, pure_ok, reduceCtorEq, and_false, exists_false, false_iff]
      exact fun related => nomatch related
    | cons result results =>
      rw [List.forall₂_cons, ← ih]
      simp only [bind_ok, pure_ok, List.cons.injEq]
      constructor
      · rintro ⟨_, first, _, rest, rfl, rfl⟩
        exact ⟨first, rest⟩
      · rintro ⟨first, rest⟩
        exact ⟨result, first, results, rest, rfl, rfl⟩

/-- Every item of related lists has its group ... -/
theorem exists_of_forall₂_left {α β : Type*} {relation : α → β → Prop} {items : List α} {groups : List β}
    (related : List.Forall₂ relation items groups) {item : α} (listed : item ∈ items) :
    ∃ group ∈ groups, relation item group := by
  induction related with
  | nil => simp at listed
  | cons head rest ih =>
    rcases List.mem_cons.mp listed with rfl | later
    · exact ⟨_, by simp, head⟩
    · obtain ⟨group, known, found⟩ := ih later
      exact ⟨group, by simp [known], found⟩

/-- ... and every group belongs to some item. -/
theorem exists_of_forall₂ {α β : Type*} {relation : α → β → Prop} {items : List α} {groups : List β}
    (related : List.Forall₂ relation items groups) {group : β} (listed : group ∈ groups) :
    ∃ item ∈ items, relation item group := by
  induction related with
  | nil => simp at listed
  | cons head rest ih =>
    rcases List.mem_cons.mp listed with rfl | later
    · exact ⟨_, by simp, head⟩
    · obtain ⟨item, known, found⟩ := ih later
      exact ⟨item, by simp [known], found⟩

/-- A mapped loop returns when each of its steps does. -/
theorem exists_mapM_ok {f : α → Except ε β} {items : List α} (each : ∀ item ∈ items, ∃ result, f item = .ok result) :
    ∃ results, items.mapM f = .ok results := by
  induction items with
  | nil => exact ⟨[], rfl⟩
  | cons item items ih =>
    obtain ⟨result, first⟩ := each item (by simp)
    obtain ⟨results, rest⟩ := ih fun other listed => each other (by simp [listed])
    refine ⟨result :: results, ?_⟩
    rw [List.mapM_cons, first, ok_bind, rest, ok_bind]
    rfl

/-- Every item of a mapped loop that returned has its result listed ... -/
theorem exists_of_mapM_ok {f : α → Except ε β} {items : List α} {results : List β}
    (ran : items.mapM f = .ok results) {item : α} (listed : item ∈ items) :
    ∃ result ∈ results, f item = .ok result :=
  exists_of_forall₂_left (mapM_ok.mp ran) listed

/-- ... and every result listed is that of an item. -/
theorem mem_of_mapM_ok {f : α → Except ε β} {items : List α} {results : List β} {result : β}
    (ran : items.mapM f = .ok results) (listed : result ∈ results) :
    ∃ item ∈ items, f item = .ok result :=
  exists_of_forall₂ (mapM_ok.mp ran) listed

/-- A projection of the results that is known from the items. -/
theorem map_of_mapM_ok {γ : Type} {f : α → Except ε β} {items : List α} {results : List β}
    {project : β → γ} {known : α → γ} (agrees : ∀ item result, f item = .ok result →
      project result = known item) (ran : items.mapM f = .ok results) :
    results.map project = items.map known := by
  have related := mapM_ok.mp ran
  clear ran
  induction related with
  | nil => rfl
  | cons first rest ih => rw [List.map_cons, List.map_cons, ih, agrees _ _ first]

/-- A mapped loop whose results are known from the items. -/
theorem mapM_ok_map {f : α → Except ε β} {g : α → β} {defined : α → Prop} {items : List α} {results : List β}
    (each : ∀ item ∈ items, ∀ result, f item = .ok result ↔ defined item ∧ result = g item) :
    items.mapM f = .ok results ↔ (∀ item ∈ items, defined item) ∧ results = items.map g := by
  induction items generalizing results with
  | nil => simp [pure, Except.pure, eq_comm]
  | cons item items ih =>
    have first := each item (by simp)
    have rest := fun results => @ih results fun other listed => each other (by simp [listed])
    simp only [List.mapM_cons, bind_ok, pure_ok, first, rest, List.mem_cons, List.map_cons]
    constructor
    · rintro ⟨_, ⟨here, rfl⟩, _, ⟨there, rfl⟩, rfl⟩
      refine ⟨?_, rfl⟩
      rintro other (rfl | later)
      · exact here
      · exact there other later
    · rintro ⟨all, rfl⟩
      exact ⟨_, ⟨all item (.inl rfl), rfl⟩, _, ⟨fun other later => all other (.inr later), rfl⟩, rfl⟩

/-- A loop of checks passed exactly when each of its checks did. -/
theorem forM_ok {check : α → Except ε Unit} {items : List α} {u : Unit} :
    items.forM check = .ok u ↔ ∀ item ∈ items, check item = .ok () := by
  rw [List.forM_eq_forM]
  induction items with
  | nil => simp
  | cons item items ih => simp [bind_ok, unit_exists, ih]

/-- A checked loop returns when each of its steps does. -/
theorem exists_foldlM_ok {step : σ → α → Except ε σ} {items : List α}
    (each : ∀ state, ∀ item ∈ items, ∃ next, step state item = .ok next) (state : σ) :
    ∃ last, items.foldlM step state = .ok last := by
  induction items generalizing state with
  | nil => exact ⟨state, rfl⟩
  | cons item items ih =>
    obtain ⟨next, first⟩ := each state item (by simp)
    rw [List.foldlM_cons, first, ok_bind]
    exact ih (fun state other listed => each state other (by simp [listed])) next

/-- A checked loop that returned keeps whatever each of its steps keeps. -/
theorem foldlM_ok_invariant {step : σ → α → Except ε σ} (invariant : List α → σ → Prop)
    (preserved : ∀ done a s s', invariant done s → step s a = .ok s' → invariant (done ++ [a]) s')
    (items : List α) (before after : σ) (done : List α) (start : invariant done before)
    (ran : items.foldlM step before = .ok after) : invariant (done ++ items) after := by
  induction items generalizing before done with
  | nil =>
    simp only [List.foldlM_nil, pure_ok] at ran
    subst ran
    simpa using start
  | cons head tail ih =>
    rw [List.foldlM_cons, bind_ok] at ran
    obtain ⟨middle, first, rest⟩ := ran
    have tailDone := ih middle (done ++ [head]) (preserved done head before middle start first) rest
    simpa using tailDone

/-- A checked loop whose steps each append a group of results appends the
groups of all its items. -/
theorem foldlM_groups {step : σ × List β → α → Except ε (σ × List β)} {group : α → List β → Prop}
    {items : List α}
    (appends : ∀ item ∈ items, ∀ s s', step s item = .ok s' →
      ∃ results, s'.2 = s.2 ++ results ∧ group item results)
    {before after : σ × List β} (ran : items.foldlM step before = .ok after) :
    ∃ groups, after.2 = before.2 ++ groups.flatten ∧ List.Forall₂ group items groups := by
  induction items generalizing before with
  | nil =>
    cases ran
    exact ⟨[], by simp, .nil⟩
  | cons item items ih =>
    rw [List.foldlM_cons, bind_ok] at ran
    obtain ⟨middle, first, rest⟩ := ran
    obtain ⟨results, appended, related⟩ := appends item (by simp) before middle first
    obtain ⟨groups, tail, relatedTail⟩ := ih (fun i listed => appends i (by simp [listed])) rest
    exact ⟨results :: groups, by rw [tail, appended]; simp, .cons related relatedTail⟩

/-- A checked loop whose steps each append a known group appends all of them. -/
theorem foldlM_append_ok {step : List β → α → Except ε (List β)} {group : α → List β} {items : List α}
    (appends : ∀ item ∈ items, ∀ before after, step before item = .ok after → after = before ++ group item)
    {before after : List β} (ran : items.foldlM step before = .ok after) :
    after = before ++ items.flatMap group := by
  induction items generalizing before with
  | nil =>
    cases ran
    simp
  | cons item items ih =>
    rw [List.foldlM_cons, bind_ok] at ran
    obtain ⟨middle, first, rest⟩ := ran
    rw [ih (fun other listed => appends other (by simp [listed])) rest, appends item (by simp) before middle first]
    simp

/-- Loops whose steps agree on the states they reach are interchangeable. -/
theorem foldlM_congr_ok {step other : σ → α → Except ε σ} (invariant : σ → Prop) {items : List α}
    (same : ∀ item ∈ items, ∀ s, invariant s → step s item = other s item)
    (kept : ∀ item ∈ items, ∀ s s', invariant s → step s item = .ok s' → invariant s') {before : σ}
    (start : invariant before) : items.foldlM step before = items.foldlM other before := by
  induction items generalizing before with
  | nil => rfl
  | cons item items ih =>
    rw [List.foldlM_cons, List.foldlM_cons, ← same item (by simp) before start]
    refine bind_congr_ok fun middle first => ?_
    exact ih (fun i listed => same i (by simp [listed])) (fun i listed => kept i (by simp [listed]))
      (kept item (by simp) before middle start first)

end Pops
