import Pops.RationalProofs

/-!
`operator<` of the scheduler's rationals as it runs: the variables of its loop
turn by turn, without a bound on the turns. The left denominators decrease, so
the loop returns, and every variable stays a word.
-/
namespace Pops
namespace Rational

/-- The variables of the loop of `positive_less_`. -/
structure Comparison where
  an : ℕ
  ad : ℕ
  bn : ℕ
  bd : ℕ
  reversed : Bool

namespace Comparison

/-- One turn of the loop: it returns, or goes on with the reciprocals of the remainders. -/
def turn (state : Comparison) : Bool ⊕ Comparison :=
  let aq := state.an / state.ad
  let bq := state.bn / state.bd
  if aq ≠ bq then .inl (if state.reversed then aq > bq else aq < bq)
  else
    let ar := state.an % state.ad
    let br := state.bn % state.bd
    if ar = 0 ∨ br = 0 then
      if ar = br then .inl false
      else .inl (if state.reversed then br = 0 else ar = 0)
    else .inr ⟨state.ad, ar, state.bd, br, !state.reversed⟩

/-- The states the loop passes through, up to the one it returns from. -/
inductive Halts : Comparison → List Comparison → Bool → Prop
  | returns {state : Comparison} {result : Bool} (done : state.turn = .inl result) : Halts state [state] result
  | continues {state next : Comparison} {later : List Comparison} {result : Bool}
      (more : state.turn = .inr next) (rest : Halts next later result) : Halts state (state :: later) result

/-- Four `std::uint64_t`, of which the divisors are not zero. -/
structure InRange (state : Comparison) : Prop where
  an : state.an < 2 ^ 64
  ad : 0 < state.ad ∧ state.ad < 2 ^ 64
  bn : state.bn < 2 ^ 64
  bd : 0 < state.bd ∧ state.bd < 2 ^ 64

theorem Halts.unique {state : Comparison} {visited others : List Comparison} {result other : Bool}
    (halts : state.Halts visited result) (again : state.Halts others other) :
    others = visited ∧ other = result := by
  induction halts generalizing others other with
  | returns done =>
    cases again with
    | returns same =>
      obtain rfl := Sum.inl.inj (done.symm.trans same)
      exact ⟨rfl, rfl⟩
    | continues more => cases done.symm.trans more
  | continues more rest ih =>
    cases again with
    | returns done => cases more.symm.trans done
    | continues same restAgain =>
      obtain rfl := Sum.inr.inj (more.symm.trans same)
      obtain ⟨rfl, rfl⟩ := ih restAgain
      exact ⟨rfl, rfl⟩

theorem turn_next {state next : Comparison} (inRange : state.InRange) (more : state.turn = .inr next) :
    next.InRange ∧ next.ad < state.ad := by
  have aBound := Nat.mod_lt state.an inRange.ad.1
  have bBound := Nat.mod_lt state.bn inRange.bd.1
  simp only [turn] at more
  split at more
  · cases more
  · split at more
    · split at more <;> cases more
    · rename_i rests
      rw [not_or] at rests
      cases more
      have aWord := aBound.trans inRange.ad.2
      have bWord := bBound.trans inRange.bd.2
      exact ⟨⟨inRange.ad.2, ⟨Nat.pos_of_ne_zero rests.1, aWord⟩, inRange.bd.2,
        ⟨Nat.pos_of_ne_zero rests.2, bWord⟩⟩, aBound⟩

theorem positiveLess_returns {fuel : ℕ} {state : Comparison} {result : Bool} (done : state.turn = .inl result) :
    positiveLess (fuel + 1) state.an state.ad state.bn state.bd state.reversed = result := by
  rw [positiveLess]
  simp only [turn] at done
  split
  · rename_i different
    rw [if_pos different] at done
    rw [← Sum.inl.inj done]
  · rename_i same
    rw [if_neg same] at done
    split
    · rename_i whole
      rw [if_pos whole] at done
      split <;> rename_i both
      · rw [if_pos both] at done
        exact Sum.inl.inj done
      · rw [if_neg both] at done
        exact Sum.inl.inj done
    · rename_i rests
      rw [if_neg rests] at done
      cases done

theorem positiveLess_continues {fuel : ℕ} {state next : Comparison} (more : state.turn = .inr next) :
    positiveLess (fuel + 1) state.an state.ad state.bn state.bd state.reversed =
      positiveLess fuel next.an next.ad next.bn next.bd next.reversed := by
  rw [positiveLess]
  simp only [turn] at more
  split
  · rename_i different
    rw [if_pos different] at more
    cases more
  · rename_i same
    rw [if_neg same] at more
    split
    · rename_i whole
      rw [if_pos whole] at more
      split at more <;> cases more
    · rename_i rests
      rw [if_neg rests] at more
      cases more
      rfl

theorem halts {fuel : ℕ} {state : Comparison} (inRange : state.InRange) (enough : state.ad ≤ fuel) :
    ∃ visited, state.Halts visited
        (positiveLess fuel state.an state.ad state.bn state.bd state.reversed) ∧
      visited.length ≤ state.ad ∧ ∀ passed ∈ visited, passed.InRange := by
  induction fuel generalizing state with
  | zero =>
    have := inRange.ad.1
    omega
  | succ fuel ih =>
    cases taken : state.turn with
    | inl result =>
      rw [positiveLess_returns taken]
      refine ⟨[state], .returns taken, inRange.ad.1, ?_⟩
      intro passed listed
      rwa [List.mem_singleton.mp listed]
    | inr next =>
      rw [positiveLess_continues taken]
      obtain ⟨nextRange, smaller⟩ := turn_next inRange taken
      obtain ⟨later, rest, short, words⟩ := ih nextRange (by omega)
      refine ⟨state :: later, .continues taken rest, ?_, ?_⟩
      · rw [List.length_cons]
        omega
      · intro passed listed
        rcases List.mem_cons.mp listed with rfl | after
        · exact inRange
        · exact words passed after

end Comparison

/-- What `operator<` returns by the signs, or the variables it enters the loop with. -/
def comparison (a b : Rational) : Bool ⊕ Comparison :=
  if a.numerator < 0 ∧ b.numerator ≥ 0 then .inl true
  else if a.numerator ≥ 0 ∧ b.numerator < 0 then .inl false
  else if a.numerator < 0 then
    .inr ⟨magnitude b.numerator, b.denominator.toNat, magnitude a.numerator, a.denominator.toNat, false⟩
  else
    .inr ⟨magnitude a.numerator, a.denominator.toNat, magnitude b.numerator, b.denominator.toNat, false⟩

/-- `operator<` returns, having passed through these states of its loop. -/
inductive Compares (a b : Rational) : List Comparison → Bool → Prop
  | signs {result : Bool} (decided : comparison a b = .inl result) : Compares a b [] result
  | loop {start : Comparison} {visited : List Comparison} {result : Bool}
      (entered : comparison a b = .inr start) (halts : start.Halts visited result) : Compares a b visited result

theorem Compares.unique {a b : Rational} {visited others : List Comparison} {result other : Bool}
    (compares : Compares a b visited result) (again : Compares a b others other) :
    others = visited ∧ other = result := by
  cases compares with
  | signs decided =>
    cases again with
    | signs same => exact ⟨rfl, (Sum.inl.inj (decided.symm.trans same)).symm⟩
    | loop entered => cases decided.symm.trans entered
  | loop entered halts =>
    cases again with
    | signs decided => cases entered.symm.trans decided
    | loop same haltsAgain =>
      obtain rfl := Sum.inr.inj (entered.symm.trans same)
      exact halts.unique haltsAgain

theorem magnitude_word {value : ℤ} (fits : FitsInt64 value) :
    magnitude value < 2 ^ 64 ∧ (value < 0 → FitsInt64 (value + 1) ∧ FitsInt64 (-(value + 1))) := by
  unfold FitsInt64 int64Min int64Max at *
  rw [magnitude_eq]
  omega

theorem denominator_word (rational : Rational) :
    0 < rational.denominator.toNat ∧ rational.denominator.toNat < 2 ^ 64 := by
  have positive := rational.positive
  have fits := rational.denominatorFits
  unfold int64Max at fits
  omega

theorem compares (a b : Rational) :
    ∃ visited, Compares a b visited (a.less b) ∧ ∀ passed ∈ visited, passed.InRange := by
  have aWord := (magnitude_word a.numeratorFits).1
  have bWord := (magnitude_word b.numeratorFits).1
  have aDown := a.denominator_word
  have bDown := b.denominator_word
  by_cases negative : a.numerator < 0 ∧ b.numerator ≥ 0
  · have decided : comparison a b = .inl true := if_pos negative
    rw [less, if_pos negative]
    exact ⟨[], .signs decided, by simp⟩
  by_cases positive : a.numerator ≥ 0 ∧ b.numerator < 0
  · have decided : comparison a b = .inl false := by rw [comparison, if_neg negative, if_pos positive]
    rw [less, if_neg negative, if_pos positive]
    exact ⟨[], .signs decided, by simp⟩
  by_cases below : a.numerator < 0
  · obtain ⟨visited, halts, -, words⟩ := @Comparison.halts b.denominator.toNat
      ⟨magnitude b.numerator, b.denominator.toNat, magnitude a.numerator, a.denominator.toNat, false⟩
      ⟨bWord, bDown, aWord, aDown⟩ le_rfl
    rw [less, if_neg negative, if_neg positive, if_pos below]
    exact ⟨visited, .loop (by rw [comparison, if_neg negative, if_neg positive, if_pos below]) halts, words⟩
  · obtain ⟨visited, halts, -, words⟩ := @Comparison.halts a.denominator.toNat
      ⟨magnitude a.numerator, a.denominator.toNat, magnitude b.numerator, b.denominator.toNat, false⟩
      ⟨aWord, aDown, bWord, bDown⟩ le_rfl
    rw [less, if_neg negative, if_neg positive, if_neg below]
    exact ⟨visited, .loop (by rw [comparison, if_neg negative, if_neg positive, if_neg below]) halts, words⟩

/-- On any two canonical rationals `operator<` takes the signed negations of its
magnitudes without overflow, its loop returns after finitely many turns on words
with non-zero divisors, and the one result there is decides the order. -/
theorem less_returns_order (a b : Rational) :
    (∀ rational ∈ [a, b], rational.numerator < 0 →
      FitsInt64 (rational.numerator + 1) ∧ FitsInt64 (-(rational.numerator + 1))) ∧
    ∃ visited result, Compares a b visited result ∧ (∀ passed ∈ visited, passed.InRange) ∧
      (∀ others other, Compares a b others other → others = visited ∧ other = result) ∧
      a.less b = result ∧ (result = true ↔ a.value < b.value) := by
  refine ⟨fun rational _ => (magnitude_word rational.numeratorFits).2, ?_⟩
  obtain ⟨visited, ran, words⟩ := compares a b
  exact ⟨visited, a.less b, ran, words, fun _ _ => ran.unique, rfl, less_iff⟩

end Rational
end Pops
