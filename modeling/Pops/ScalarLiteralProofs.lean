import Mathlib.Tactic.FieldSimp
import Mathlib.Tactic.Ring
import Pops.ScalarLiteral

/-!
The decoder gives back an integer, a rational or a decimal of any size, as far as the interpreter
converts its digits, and no binary64: that is written under another key than the one that is read.
-/
namespace Pops.ScalarLiteral

/-- The runs of digits in the document of a literal. -/
def Literal.runs : Literal → List Text
  | integer payload => [digits payload.natAbs]
  | rational payload => [digits payload.num.natAbs, digits payload.den]
  | decimal payload =>
    [payload.intPart, payload.fracPart, if payload.scale = 0 then [] else digits payload.scale.natAbs]
  | binary64 _ _ => []

/-- The literal is a binary64. -/
def Literal.isBinary64 : Literal → Bool
  | binary64 _ _ => true
  | _ => false

/-- A text of digits. -/
def Spelled (text : Text) : Prop := ∀ character ∈ text, character.isDigit = true

theorem spelled_digits (n : ℕ) : Spelled (digits n) := fun _ listed =>
  Nat.isDigit_of_mem_toDigits (by decide) (by decide) listed

theorem digits_ne_nil (n : ℕ) : digits n ≠ [] := Nat.toDigits_ne_nil

@[simp] theorem number_digits (n : ℕ) : number (digits n) = n := Nat.ofDigitChars_ten_toDigits

theorem number_append (high low : Text) : number (high ++ low) = number high * 10 ^ low.length + number low := by
  rw [number, Nat.ofDigitChars_append, Nat.ofDigitChars_eq_ofDigitChars_zero, mul_comm]
  rfl

theorem number_zeros (count : ℕ) : number (List.replicate count '0') = 0 := by
  rw [number, Nat.ofDigitChars_replicate_zero, mul_zero]

theorem spelled_zeros (count : ℕ) : Spelled (List.replicate count '0') := by
  intro character listed
  rw [List.eq_of_mem_replicate listed]
  rfl

theorem Spelled.append {high low : Text} (first : Spelled high) (second : Spelled low) : Spelled (high ++ low) := by
  intro character listed
  exact (List.mem_append.mp listed).elim (first character) (second character)

/-- A text that does not go on with a digit. -/
def Stops (text : Text) : Prop := ∀ character ∈ text.head?, character.isDigit = false

theorem leading_append {text rest : Text} (spelled : Spelled text) (stops : Stops rest) :
    leading (text ++ rest) = text ∧ following (text ++ rest) = rest := by
  rw [leading, following, List.takeWhile_append_of_pos spelled, List.dropWhile_append_of_pos spelled]
  cases rest with
  | nil => simp
  | cons first later =>
    have stopped : first.isDigit = false := stops first rfl
    simp [stopped]

theorem natural_spelled {limit : ℕ} {text : Text} (nonempty : text ≠ []) (spelled : Spelled text) :
    natural limit text = if Convertible limit text then .ok (number text) else .error exceeds := by
  have all : text.all Char.isDigit = true := List.all_eq_true.mpr spelled
  rw [natural, if_neg (by simp [nonempty, all])]

theorem naturalOrZero_spelled {limit : ℕ} {text : Text} (spelled : Spelled text) :
    naturalOrZero limit text = if Convertible limit text then .ok (number text) else .error exceeds := by
  unfold naturalOrZero
  split
  · rename_i empty
    subst empty
    rw [if_pos (.inr (Nat.zero_le _))]
    rfl
  · exact natural_spelled ‹_› spelled

theorem splitSign_spelled {text rest : Text} (nonempty : text ≠ []) (spelled : Spelled text) :
    splitSign (text ++ rest) = (false, text ++ rest) := by
  cases text with
  | nil => exact absurd rfl nonempty
  | cons first later =>
    have digit := spelled first List.mem_cons_self
    rw [List.cons_append, splitSign]
    · rintro after equal
      cases equal
      cases digit
    · rintro after equal
      cases equal
      cases digit

theorem splitSign_minus {negative : Bool} {text rest : Text} (nonempty : text ≠ []) (spelled : Spelled text) :
    splitSign (minus negative ++ (text ++ rest)) = (negative, text ++ rest) := by
  cases negative with
  | true => rfl
  | false =>
    rw [show minus false = [] from rfl, List.nil_append]
    exact splitSign_spelled nonempty spelled

theorem integer_minus (limit : ℕ) (negative : Bool) (magnitude : ℕ) :
    integer limit (minus negative ++ digits magnitude) =
      if Convertible limit (digits magnitude) then .ok (if negative then -magnitude else magnitude)
      else .error exceeds := by
  have split : splitSign (minus negative ++ (digits magnitude ++ [])) =
      (negative, digits magnitude ++ []) :=
    splitSign_minus (digits_ne_nil magnitude) (spelled_digits magnitude)
  rw [List.append_nil] at split
  rw [integer, split, natural_spelled (digits_ne_nil _) (spelled_digits _)]
  split <;> simp [bind, Except.bind, pure, Except.pure]

theorem signed_natAbs (value : ℤ) : (if value < 0 then -(value.natAbs : ℤ) else value.natAbs) = value := by
  split <;> omega

theorem integer_strInteger {limit : ℕ} {value : ℤ} {text : Text} (written : strInteger limit value = .ok text) :
    integer limit text = .ok value := by
  rw [strInteger] at written
  split at written
  · rename_i convertible
    cases written
    rw [integer_minus, if_pos convertible]
    simpa using signed_natAbs value
  · cases written

theorem strInteger_eq (limit : ℕ) (value : ℤ) : strInteger limit value =
    if Convertible limit (digits value.natAbs) then .ok (minus (value < 0) ++ digits value.natAbs)
    else .error exceeds := rfl

section
variable (decimal : Decimal)

theorem spelled_intPart : Spelled decimal.intPart := by
  unfold Decimal.intPart
  dsimp only
  split
  · exact spelled_zeros 1
  split
  · exact (spelled_digits _).append (spelled_zeros _)
  · exact fun character listed => spelled_digits _ character (List.mem_of_mem_take listed)

theorem spelled_fracPart : Spelled decimal.fracPart := by
  unfold Decimal.fracPart
  dsimp only
  split
  · exact (spelled_zeros _).append (spelled_digits _)
  split
  · exact fun _ listed => by cases listed
  · exact fun character listed => spelled_digits _ character (List.mem_of_mem_drop listed)

theorem intPart_ne_nil : decimal.intPart ≠ [] := by
  unfold Decimal.intPart
  dsimp only
  split
  · exact List.cons_ne_nil _ _
  split
  · exact fun empty => digits_ne_nil _ (List.append_eq_nil_iff.mp empty).1
  · intro empty
    rcases List.take_eq_nil_iff.mp empty with none | none
    · omega
    · exact digits_ne_nil _ none

theorem parts_value :
    (number (decimal.intPart ++ decimal.fracPart) : ℚ) / (10 : ℚ) ^ decimal.fracPart.length * (10 : ℚ) ^ decimal.scale =
      decimal.coefficient * (10 : ℚ) ^ decimal.exponent := by
  have ten : (10 : ℚ) ≠ 0 := by norm_num
  have move (value : ℚ) (length : ℕ) (scale : ℤ) :
      value / (10 : ℚ) ^ length * (10 : ℚ) ^ scale = value * (10 : ℚ) ^ (scale - length) := by
    rw [div_mul_eq_mul_div, mul_div_assoc, zpow_sub₀ ten, zpow_natCast]
  rw [move]
  have length : decimal.leftDigits = decimal.exponent + (digits decimal.coefficient).length := rfl
  unfold Decimal.intPart Decimal.fracPart Decimal.scale
  by_cases low : decimal.dotPlace ≤ 0
  · rw [if_pos low, if_pos low]
    simp only [number_append, number_zeros, number_digits, List.length_append, List.length_replicate]
    rw [show number ['0'] = 0 from rfl]
    congr 2
    · simp
    · push_cast
      omega
  rw [if_neg low, if_neg low]
  by_cases high : decimal.dotPlace ≥ (digits decimal.coefficient).length
  · rw [if_pos high, if_pos high, List.append_nil, number_append, number_zeros, number_digits, List.length_replicate]
    have shift : decimal.exponent = (decimal.dotPlace - (digits decimal.coefficient).length).toNat +
        (decimal.leftDigits - decimal.dotPlace - ((([] : Text).length : ℕ) : ℤ)) := by
      simp only [List.length_nil]
      omega
    conv_rhs => rw [shift, zpow_add₀ ten, zpow_natCast]
    push_cast
    ring
  · rw [if_neg high, if_neg high, List.take_append_drop, number_digits, List.length_drop]
    congr 2
    omega

theorem stops_expPart : Stops decimal.expPart := by
  unfold Decimal.expPart
  split
  · intro _ listed
    cases listed
  · intro _ listed
    cases listed
    rfl

theorem decimalsOf_pointed : decimalsOf (pointed decimal.fracPart ++ decimal.expPart) =
    (decimal.fracPart, decimal.expPart) := by
  unfold pointed
  split
  · rename_i empty
    rw [empty, List.nil_append]
    unfold Decimal.expPart
    split <;> rfl
  · rw [List.cons_append, decimalsOf]
    rw [(leading_append (spelled_fracPart decimal) (stops_expPart decimal)).1,
      (leading_append (spelled_fracPart decimal) (stops_expPart decimal)).2]

theorem exponentOf_expPart (limit : ℕ) : exponentOf limit decimal.expPart =
    if Convertible limit (if decimal.scale = 0 then [] else digits decimal.scale.natAbs) then .ok decimal.scale
    else .error exceeds := by
  unfold Decimal.expPart
  by_cases none : decimal.leftDigits = decimal.dotPlace
  · have flat : decimal.scale = 0 := sub_eq_zero.mpr none
    rw [if_pos none, flat, if_pos rfl, if_pos (.inr (Nat.zero_le _))]
    rfl
  · have scaled : decimal.scale ≠ 0 := sub_ne_zero.mpr none
    have spelled : (digits decimal.scale.natAbs).all Char.isDigit = true :=
      List.all_eq_true.mpr (spelled_digits _)
    rw [if_neg none, if_neg scaled]
    by_cases below : decimal.scale < 0
    · rw [if_pos below]
      simp only [exponentOf, splitSign, spelled, digits_ne_nil, not_true_eq_false, or_self, if_false]
      have read := integer_minus limit true decimal.scale.natAbs
      rw [show minus true ++ digits decimal.scale.natAbs = '-' :: digits decimal.scale.natAbs from rfl] at read
      rw [read]
      congr 2
      simp only [if_true]
      omega
    · rw [if_neg below]
      simp only [exponentOf, splitSign, spelled, digits_ne_nil, not_true_eq_false, or_self, if_false]
      rw [integer]
      simp only [splitSign]
      rw [natural_spelled (digits_ne_nil _) (spelled_digits _)]
      split
      · simp only [bind, Except.bind, pure, Except.pure, Bool.false_eq_true, if_false, number_digits]
        congr 1
        omega
      · rfl

theorem fraction_str (limit : ℕ) : fraction limit decimal.str =
    if ∀ run ∈ (Literal.decimal decimal).runs, Convertible limit run then .ok decimal.value else .error exceeds := by
  have stops : Stops (pointed decimal.fracPart ++ decimal.expPart) := by
    unfold pointed
    split
    · exact stops_expPart decimal
    · intro _ listed
      cases listed
      rfl
  obtain ⟨whole, rest⟩ := leading_append (spelled_intPart decimal) stops
  rw [fraction, Decimal.str, splitSign_minus (intPart_ne_nil decimal) (spelled_intPart decimal)]
  simp only [rest, whole]
  have plain : ∀ after, pointed decimal.fracPart ++ decimal.expPart ≠ '/' :: after := by
    intro after
    unfold pointed Decimal.expPart
    split <;> split <;> simp
  refine Eq.trans (b := scientific limit decimal.negative decimal.intPart (pointed decimal.fracPart ++ decimal.expPart))
    (by split; exacts [absurd ‹_› (plain _), rfl]) ?_
  rw [scientific, decimalsOf_pointed]
  simp only [intPart_ne_nil, false_and, if_false]
  rw [naturalOrZero_spelled (spelled_intPart decimal), naturalOrZero_spelled (spelled_fracPart decimal),
    exponentOf_expPart]
  have value : signed decimal.negative
      ((number decimal.intPart * 10 ^ decimal.fracPart.length + number decimal.fracPart : ℕ) /
        (10 : ℚ) ^ decimal.fracPart.length * (10 : ℚ) ^ decimal.scale) = decimal.value := by
    rw [← number_append, parts_value, Decimal.value]
  simp only [Literal.runs, List.forall_mem_cons, List.not_mem_nil, false_implies, implies_true, and_true]
  by_cases first : Convertible limit decimal.intPart
  · by_cases second : Convertible limit decimal.fracPart
    · by_cases third : Convertible limit (if decimal.scale = 0 then [] else digits decimal.scale.natAbs)
      · rw [if_pos first, if_pos second, if_pos third, if_pos ⟨first, second, third⟩]
        exact congrArg Except.ok value
      · rw [if_pos first, if_pos second, if_neg third]
        exact (if_neg fun all => third (And.right (And.right all))).symm
    · rw [if_pos first, if_neg second]
      exact (if_neg fun all => second (And.left (And.right all))).symm
  · rw [if_neg first]
    exact (if_neg fun all => first (And.left all)).symm

end

section
variable (limit : ℕ) (fromHex : Text → Except Raised ℚ)

theorem decoded_integer (payload : ℤ) : (Literal.integer payload).decoded limit fromHex =
    if Convertible limit (digits payload.natAbs) then .ok (payload : ℚ) else .error exceeds := by
  by_cases convertible : Convertible limit (digits payload.natAbs)
  · obtain ⟨text, written⟩ : ∃ text, strInteger limit payload = .ok text := ⟨_, if_pos convertible⟩
    rw [if_pos convertible, Literal.decoded, Literal.toData, written]
    have read := integer_strInteger written
    simp [bind, Except.bind, pure, Except.pure, literal, unwrapped, item, List.lookup_cons, read]
  · have refused := (strInteger_eq limit payload).trans (if_neg convertible)
    rw [if_neg convertible, Literal.decoded, Literal.toData, refused]
    rfl

theorem decoded_rational (payload : ℚ) : (Literal.rational payload).decoded limit fromHex =
    if Convertible limit (digits payload.num.natAbs) ∧ Convertible limit (digits payload.den) then .ok payload
    else .error exceeds := by
  rw [Literal.decoded, Literal.toData]
  by_cases above : Convertible limit (digits payload.num.natAbs)
  · obtain ⟨upper, numerator⟩ : ∃ text, strInteger limit payload.num = .ok text := ⟨_, if_pos above⟩
    by_cases below : Convertible limit (digits payload.den)
    · obtain ⟨lower, denominator⟩ : ∃ text, strInteger limit payload.den = .ok text :=
        ⟨_, if_pos (by simpa using below)⟩
      rw [if_pos ⟨above, below⟩, numerator, denominator]
      have read := integer_strInteger numerator
      have readBelow := integer_strInteger denominator
      have divided : quotient payload.num payload.den = .ok payload := by
        rw [quotient, if_neg (by exact_mod_cast payload.den_nz)]
        exact congrArg Except.ok (by exact_mod_cast Rat.num_div_den payload)
      simp [bind, Except.bind, pure, Except.pure, literal, unwrapped, item, List.lookup_cons, read, readBelow, divided]
    · have refused := (strInteger_eq limit payload.den).trans (if_neg (by simpa using below))
      rw [if_neg fun both => below both.2, numerator, refused]
      rfl
  · have refused := (strInteger_eq limit payload.num).trans (if_neg above)
    rw [if_neg fun both => above both.1, refused]
    rfl

theorem decoded_decimal (payload : Decimal) : (Literal.decimal payload).decoded limit fromHex =
    if ∀ run ∈ (Literal.decimal payload).runs, Convertible limit run then .ok payload.value else .error exceeds := by
  rw [← fraction_str, Literal.decoded, Literal.toData]
  simp [bind, Except.bind, pure, Except.pure, literal, unwrapped, item, List.lookup_cons]

theorem decoded_binary64 (payload : Text) (value : ℚ) :
    (Literal.binary64 payload value).decoded limit fromHex = .error (.keyError "hex") := by
  rw [Literal.decoded, Literal.toData]
  simp [bind, Except.bind, pure, Except.pure, literal, unwrapped, item, List.lookup_cons]

/-- A literal comes back from its document exactly when it is no binary64 and the interpreter converts
its digits. -/
theorem decoded_iff (written : Literal) : written.decoded limit fromHex = .ok written.value ↔
    written.isBinary64 = false ∧ ∀ run ∈ written.runs, Convertible limit run := by
  cases written with
  | integer payload =>
    rw [decoded_integer]
    by_cases convertible : Convertible limit (digits payload.natAbs) <;>
      simp [convertible, Literal.value, Literal.isBinary64, Literal.runs]
  | rational payload =>
    rw [decoded_rational]
    by_cases convertible : Convertible limit (digits payload.num.natAbs) ∧ Convertible limit (digits payload.den) <;>
      simp [convertible, Literal.value, Literal.isBinary64, Literal.runs]
  | decimal payload =>
    rw [decoded_decimal]
    by_cases convertible : ∀ run ∈ (Literal.decimal payload).runs, Convertible limit run
    · rw [if_pos convertible]
      exact ⟨fun _ => ⟨rfl, convertible⟩, fun _ => rfl⟩
    · rw [if_neg convertible]
      exact ⟨fun equal => (by cases equal), fun both => absurd both.2 convertible⟩
  | binary64 payload value =>
    rw [decoded_binary64]
    exact ⟨fun equal => (by cases equal), fun both => (by cases both.1)⟩

end

/-- The literal of the float 0.5, in an interpreter with its default limit. -/
theorem half_not_decoded : ¬ ∀ (fromHex : Text → Except Raised ℚ) (written : Literal),
    written.decoded 4300 fromHex = .ok written.value := by
  intro decodes
  have decoded := decodes (fun _ => .ok (1 / 2)) (.binary64 "0x1.0000000000000p-1".toList (1 / 2))
  rw [decoded_binary64] at decoded
  cases decoded

end Pops.ScalarLiteral
