import Pops.MixedRadix

/-!
Counting through a product of integer intervals in place: the first axis that is
not at its upper end goes up by one, and the axes before it return to their lower
ends. Started at the lower corner, the count passes every combination once and
then stops. The library is about any axes and any intervals.
-/
namespace Pops.Odometer
open Function MixedRadix

variable {ι : Type*} [DecidableEq ι] (lower upper : ι → ℤ)

/-- The next combination, or none after the last. -/
def advance : List ι → (ι → ℤ) → Option (ι → ℤ)
  | [], _ => none
  | axis :: axes, current =>
    if current axis ≠ upper axis then some (update current axis (current axis + 1))
    else advance axes (update current axis (lower axis))

/-- The combinations from the current one on, at most as many as there is fuel. -/
def walk (axes : List ι) : ℕ → (ι → ℤ) → List (ι → ℤ)
  | 0, _ => []
  | fuel + 1, current =>
    current :: (advance lower upper axes current).elim [] (walk axes fuel)

/-- The number of values of an axis. -/
def size (axis : ι) : ℕ := (upper axis - lower axis + 1).toNat

/-- The digits of a combination. -/
def digits (current : ι → ℤ) (axis : ι) : ℕ := (current axis - lower axis).toNat

/-- How many combinations come before. -/
def rank (axes : List ι) (current : ι → ℤ) : ℕ := encode (size lower upper) axes (digits lower current)

/-- Inside the intervals along the listed axes. -/
def Within (axes : List ι) (current : ι → ℤ) : Prop :=
  ∀ axis ∈ axes, lower axis ≤ current axis ∧ current axis ≤ upper axis

variable {lower upper} {axes : List ι} {current next point : ι → ℤ}

omit [DecidableEq ι] in
theorem encode_congr {radix first second : ι → ℕ} (same : ∀ axis ∈ axes, first axis = second axis) :
    encode radix axes first = encode radix axes second := by
  induction axes with
  | nil => rfl
  | cons axis axes ih =>
    rw [encode, encode, same axis List.mem_cons_self, ih fun other listed => same other (List.mem_cons_of_mem _ listed)]

theorem rank_update {axis : ι} (fresh : axis ∉ axes) (value : ℤ) :
    rank lower upper axes (update current axis value) = rank lower upper axes current := by
  refine encode_congr fun other listed => ?_
  have apart : other ≠ axis := fun same => fresh (same ▸ listed)
  rw [digits, update_of_ne apart, digits]

theorem within_update {axis : ι} (fresh : axis ∉ axes) {value : ℤ} :
    Within lower upper axes (update current axis value) ↔ Within lower upper axes current := by
  refine forall₂_congr fun other listed => ?_
  have apart : other ≠ axis := fun same => fresh (same ▸ listed)
  rw [update_of_ne apart]

omit [DecidableEq ι] in
theorem rank_lt (within : Within lower upper axes current) :
    rank lower upper axes current < volume (size lower upper) axes := by
  refine encode_lt fun axis listed => ?_
  have := within axis listed
  unfold digits size
  omega

omit [DecidableEq ι] in
theorem rank_lower : rank lower upper axes lower = 0 := by
  unfold rank
  induction axes with
  | nil => rfl
  | cons axis axes ih => rw [encode, ih, digits, sub_self, Int.toNat_zero, mul_zero, add_zero]

theorem advance_some (distinct : axes.Nodup) (within : Within lower upper axes current)
    (stepped : advance lower upper axes current = some next) :
    Within lower upper axes next ∧ rank lower upper axes next = rank lower upper axes current + 1 ∧
      ∀ axis ∉ axes, next axis = current axis := by
  induction axes generalizing current with
  | nil => cases stepped
  | cons axis axes ih =>
    obtain ⟨fresh, rest⟩ := List.nodup_cons.mp distinct
    have bounds := within axis List.mem_cons_self
    have later : Within lower upper axes current := fun other listed => within other (List.mem_cons_of_mem _ listed)
    rw [advance] at stepped
    split at stepped
    · rename_i below
      cases stepped
      refine ⟨fun other listed => ?_, ?_, fun other absent => ?_⟩
      · by_cases same : other = axis
        · rw [same, update_self]
          omega
        · rw [update_of_ne same]
          exact within other listed
      · change digits lower (update current axis (current axis + 1)) axis + size lower upper axis *
            rank lower upper axes (update current axis (current axis + 1)) =
          digits lower current axis + size lower upper axis * rank lower upper axes current + 1
        rw [rank_update fresh, digits, update_self, digits]
        omega
      · exact update_of_ne (List.ne_of_not_mem_cons absent) _ _
    · rename_i atEnd
      rw [not_not] at atEnd
      obtain ⟨inside, counted, kept⟩ := ih rest ((within_update fresh).mpr later) stepped
      have reset : next axis = lower axis := by rw [kept axis fresh, update_self]
      refine ⟨fun other listed => ?_, ?_, fun other absent => ?_⟩
      · rcases List.mem_cons.mp listed with rfl | deeper
        · omega
        · exact inside other deeper
      · change digits lower next axis + size lower upper axis * rank lower upper axes next =
          digits lower current axis + size lower upper axis * rank lower upper axes current + 1
        rw [counted, rank_update fresh, digits, reset, digits, atEnd, mul_add]
        unfold size
        omega
      · rw [kept other fun listed => absent (List.mem_cons_of_mem _ listed),
          update_of_ne (List.ne_of_not_mem_cons absent)]

theorem advance_none (distinct : axes.Nodup) (within : Within lower upper axes current)
    (stopped : advance lower upper axes current = none) :
    rank lower upper axes current + 1 = volume (size lower upper) axes := by
  induction axes generalizing current with
  | nil => rfl
  | cons axis axes ih =>
    obtain ⟨fresh, rest⟩ := List.nodup_cons.mp distinct
    have bounds := within axis List.mem_cons_self
    have later : Within lower upper axes current := fun other listed => within other (List.mem_cons_of_mem _ listed)
    rw [advance] at stopped
    split at stopped
    · cases stopped
    · rename_i atEnd
      rw [not_not] at atEnd
      have counted := ih rest ((within_update fresh).mpr later) stopped
      rw [rank_update fresh] at counted
      change digits lower current axis + size lower upper axis * rank lower upper axes current + 1 = _
      rw [volume_cons, ← counted, digits, atEnd, mul_add]
      unfold size
      omega

theorem eq_of_rank_eq (distinct : axes.Nodup) (within : Within lower upper axes current)
    (pointWithin : Within lower upper axes point)
    (same : rank lower upper axes current = rank lower upper axes point) :
    ∀ axis ∈ axes, current axis = point axis := by
  intro axis listed
  have below (place : ι → ℤ) (inside : Within lower upper axes place) :
      ∀ other ∈ axes, digits lower place other < size lower upper other := by
    intro other known
    have := inside other known
    unfold digits size
    omega
  have digit : digits lower current axis = digits lower point axis := by
    rw [← decode_encode distinct (below current within) (fun _ => 0) listed,
      ← decode_encode distinct (below point pointWithin) (fun _ => 0) listed]
    exact congrArg (fun ordinal => (decode (size lower upper) axes ordinal fun _ => 0).1 axis) same
  have left := within axis listed
  have right := pointWithin axis listed
  unfold digits at digit
  omega

theorem mem_walk (distinct : axes.Nodup) {fuel : ℕ} (within : Within lower upper axes current)
    (enough : volume (size lower upper) axes ≤ rank lower upper axes current + fuel) :
    point ∈ walk lower upper axes fuel current ↔
      Within lower upper axes point ∧ (∀ axis ∉ axes, point axis = current axis) ∧
        rank lower upper axes current ≤ rank lower upper axes point := by
  induction fuel generalizing current with
  | zero =>
    have := rank_lt within
    omega
  | succ fuel ih =>
    rw [walk, List.mem_cons]
    have here : point = current ↔ Within lower upper axes point ∧ (∀ axis ∉ axes, point axis = current axis) ∧
        rank lower upper axes current = rank lower upper axes point := by
      constructor
      · rintro rfl
        exact ⟨within, fun _ _ => rfl, rfl⟩
      · rintro ⟨inside, kept, same⟩
        funext axis
        by_cases listed : axis ∈ axes
        · exact (eq_of_rank_eq distinct within inside same axis listed).symm
        · exact kept axis listed
    cases stepped : advance lower upper axes current with
    | none =>
      have last := advance_none distinct within stepped
      simp only [Option.elim_none, List.not_mem_nil, or_false]
      rw [here]
      constructor
      · rintro ⟨inside, kept, same⟩
        exact ⟨inside, kept, same.le⟩
      · rintro ⟨inside, kept, above⟩
        have below := rank_lt inside
        exact ⟨inside, kept, by omega⟩
    | some next =>
      obtain ⟨nextWithin, counted, unchanged⟩ := advance_some distinct within stepped
      simp only [Option.elim_some]
      rw [here, ih nextWithin (by omega), counted]
      constructor
      · rintro (⟨inside, kept, same⟩ | ⟨inside, kept, above⟩)
        · exact ⟨inside, kept, same.le⟩
        · exact ⟨inside, fun axis absent => (kept axis absent).trans (unchanged axis absent), by omega⟩
      · rintro ⟨inside, kept, above⟩
        rcases Nat.eq_or_lt_of_le above with same | later
        · exact .inl ⟨inside, kept, same⟩
        · exact .inr ⟨inside, fun axis absent => (kept axis absent).trans (unchanged axis absent).symm, by omega⟩

end Pops.Odometer
