import Mathlib.Data.List.OfFn
import Mathlib.Tactic.Ring
import Mathlib.Tactic.NormNum
import Pops.Checked

/-!
Reading records from bytes, and the law that ties a reading to what was
written: it restores what a writer wrote and accepts nothing that does not fit.
A strict reading accepts only bytes that a writer wrote. A record is read field
by field, so its law is proved field by field: each rule below takes one piece
off the bytes and hands the value it stands for to the rest of the reading.
-/
namespace Pops

/-! ### Numbers as bytes -/

/-- The low `count` bytes of a number, the lowest first. -/
def littleEndian : ℕ → ℕ → Bytes
  | 0, _ => []
  | count + 1, value => byteOf value :: littleEndian count (value / 256)

/-- The number that bytes stand for. -/
def fromLittleEndian : Bytes → ℕ
  | [] => 0
  | byte :: rest => byte + 256 * fromLittleEndian rest

@[simp]
theorem littleEndian_length (count value : ℕ) : (littleEndian count value).length = count := by
  induction count generalizing value with
  | zero => rfl
  | succ count ih => rw [littleEndian, List.length_cons, ih]

theorem fromLittleEndian_lt (bytes : Bytes) : fromLittleEndian bytes < 256 ^ bytes.length := by
  induction bytes with
  | nil => simp [fromLittleEndian]
  | cons byte rest ih =>
    have small := byte.isLt
    rw [fromLittleEndian, List.length_cons, Nat.pow_succ]
    omega

theorem fromLittleEndian_littleEndian (count value : ℕ) :
    fromLittleEndian (littleEndian count value) = value % 256 ^ count := by
  induction count generalizing value with
  | zero => simp [littleEndian, fromLittleEndian, Nat.mod_one]
  | succ count ih =>
    rw [littleEndian, fromLittleEndian, ih, Nat.pow_succ, Nat.mul_comm (256 ^ count), Nat.mod_mul]
    rfl

theorem littleEndian_fromLittleEndian (bytes : Bytes) :
    littleEndian bytes.length (fromLittleEndian bytes) = bytes := by
  induction bytes with
  | nil => rfl
  | cons byte rest ih =>
    have small := byte.isLt
    have low : byteOf (byte + 256 * fromLittleEndian rest) = byte := by
      apply Fin.ext
      simp only [byteOf]
      omega
    have high : (byte + 256 * fromLittleEndian rest) / 256 = fromLittleEndian rest := by omega
    rw [List.length_cons, fromLittleEndian, littleEndian, low, high, ih]

/-- The 64-bit word of a signed number. -/
def toWord (value : ℤ) : ℕ := (value % 18446744073709551616).toNat

/-- The signed number of a 64-bit word. -/
def ofWord (word : ℕ) : ℤ :=
  if word < 9223372036854775808 then word else (word : ℤ) - 18446744073709551616

theorem toWord_lt (value : ℤ) : toWord value < 18446744073709551616 := by
  unfold toWord
  omega

theorem ofWord_toWord {value : ℤ} (low : -9223372036854775808 ≤ value) (high : value ≤ 9223372036854775807) :
    ofWord (toWord value) = value := by
  unfold ofWord toWord
  split <;> omega

theorem toWord_ofWord {word : ℕ} (small : word < 18446744073709551616) : toWord (ofWord word) = word := by
  unfold ofWord toWord
  split <;> omega

theorem ofWord_bounds {word : ℕ} (small : word < 18446744073709551616) :
    -9223372036854775808 ≤ ofWord word ∧ ofWord word ≤ 9223372036854775807 := by
  unfold ofWord
  split <;> omega

/-! ### Readings -/

/-- A reading of bytes: its value, and the bytes it leaves. -/
abbrev Reader := StateT Bytes Checked

variable {α β : Type}

namespace Reader

/-- A check that reads nothing. -/
def lift (check : Checked α) : Reader α := fun bytes => check.map fun value => (value, bytes)

/-- What is left to read. -/
def left : Reader Bytes := fun bytes => .ok (bytes, bytes)

/-- The next `count` bytes. -/
def take (count : ℕ) (truncated : Exception) : Reader Bytes := fun bytes =>
  if count > bytes.length then .error truncated else .ok (bytes.take count, bytes.drop count)

/-- Nothing but the bytes expected. -/
def expect (expected : Bytes) (truncated unexpected : Exception) : Reader Unit := fun bytes =>
  if expected.length > bytes.length then .error truncated
  else if bytes.take expected.length ≠ expected then .error unexpected
  else .ok ((), bytes.drop expected.length)

/-- The same reading, `count` times. -/
def times (read : Reader α) : ℕ → Reader (List α)
  | 0 => pure []
  | count + 1 => do
    let first ← read
    let later ← times read count
    return first :: later

/-- The same reading on every axis, axis 0 first. -/
def axes (read : Reader α) : (d : ℕ) → Reader (Fin d → α)
  | 0 => pure Fin.elim0
  | d + 1 => do
    let first ← read
    let later ← axes read d
    return Fin.cons first later

theorem pure_eq (value : α) (bytes : Bytes) : (pure value : Reader α) bytes = .ok (value, bytes) := rfl

theorem bind_eq (read : Reader α) (next : α → Reader β) (bytes : Bytes) :
    (read >>= next) bytes = read bytes >>= fun out => next out.1 out.2 := rfl

theorem bind_left (next : Bytes → Reader β) (bytes : Bytes) : (left >>= next) bytes = next bytes bytes := rfl

theorem lift_ok {check : Checked α} {bytes rest : Bytes} {value : α} :
    lift check bytes = .ok (value, rest) ↔ check = .ok value ∧ bytes = rest := by
  unfold lift
  cases check with
  | error exception => simp [Except.map]
  | ok found => simp [Except.map]

theorem bind_lift {check : Checked α} {value : α} (passed : check = .ok value) (next : α → Reader β)
    (bytes : Bytes) : (lift check >>= next) bytes = next value bytes := by
  rw [bind_eq, lift_ok.mpr ⟨passed, rfl⟩]
  rfl

end Reader

/-! ### The law of a reading -/

/-- A reading of the bytes `tail` writes, where `known` is what has been read
of the value already. It restores what was written of a value that fits; what
it accepts fits, and if it is strict, was written. -/
structure Completes (strict : Bool) (fits known : β → Prop) (tail : β → Bytes) (read : Reader β) : Prop where
  restores : ∀ {value} (rest : Bytes), fits value → known value → read (tail value ++ rest) = .ok (value, rest)
  accepts : ∀ {bytes value rest}, read bytes = .ok (value, rest) →
    fits value ∧ (strict = true → known value ∧ bytes = tail value ++ rest)

/-- A reading of whole values. -/
def Codes (strict : Bool) (fits : α → Prop) (write : α → Bytes) (read : Reader α) : Prop :=
  Completes strict fits (fun _ => True) write read

variable {strict : Bool} {fits : α → Prop} {write : α → Bytes} {read : Reader α}

theorem Codes.restores (codes : Codes strict fits write read) {value : α} (rest : Bytes) (holds : fits value) :
    read (write value ++ rest) = .ok (value, rest) :=
  Completes.restores codes rest holds trivial

theorem Codes.sound (codes : Codes strict fits write read) {bytes rest : Bytes} {value : α}
    (ran : read bytes = .ok (value, rest)) : fits value :=
  (Completes.accepts codes ran).1

theorem Codes.written (codes : Codes true fits write read) {bytes rest : Bytes} {value : α}
    (ran : read bytes = .ok (value, rest)) : bytes = write value ++ rest :=
  ((Completes.accepts codes ran).2 rfl).2

theorem Codes.intro (restores : ∀ value rest, fits value → read (write value ++ rest) = .ok (value, rest))
    (accepts : ∀ bytes value rest, read bytes = .ok (value, rest) →
      fits value ∧ (strict = true → bytes = write value ++ rest)) : Codes strict fits write read :=
  { restores := fun rest holds _ => restores _ rest holds
    accepts := fun {bytes value rest} ran =>
      ⟨(accepts bytes value rest ran).1, fun isStrict => ⟨trivial, (accepts bytes value rest ran).2 isStrict⟩⟩ }

/-! Readings that accept the same bytes, whatever they throw. -/

/-- They return the same. -/
def Reader.Agrees (left right : Reader α) : Prop := ∀ bytes out, left bytes = .ok out ↔ right bytes = .ok out

theorem Reader.Agrees.refl (read : Reader α) : read.Agrees read := fun _ _ => Iff.rfl

theorem Reader.Agrees.bind {left right : Reader α} {next other : α → Reader β} (first : left.Agrees right)
    (later : ∀ a, (next a).Agrees (other a)) : (left >>= next).Agrees (right >>= other) := by
  intro bytes out
  simp only [Reader.bind_eq, bind_ok]
  constructor
  · rintro ⟨found, here, there⟩
    exact ⟨found, (first bytes found).mp here, (later found.1 found.2 out).mp there⟩
  · rintro ⟨found, here, there⟩
    exact ⟨found, (first bytes found).mpr here, (later found.1 found.2 out).mpr there⟩

theorem Reader.agrees_take (count : ℕ) (left right : Exception) : (Reader.take count left).Agrees (take count right) := by
  intro bytes out
  unfold take
  split <;> simp

theorem Reader.agrees_throwIf (condition : Prop) [Decidable condition] (left right : Exception) :
    (Reader.lift (throwIf condition left)).Agrees (lift (throwIf condition right)) := by
  rintro bytes ⟨u, rest⟩
  rw [lift_ok, lift_ok, throwIf_ok, throwIf_ok]

theorem Codes.of_agrees {other : Reader α} (codes : Codes strict fits write read) (agrees : other.Agrees read) :
    Codes strict fits write other where
  restores := fun rest holds _ => (agrees _ _).mpr (codes.restores rest holds)
  accepts := fun ran => Completes.accepts codes ((agrees _ _).mp ran)

/-- The value a writer writes as, for a narrower kind of values. -/
theorem Codes.weaken {stronger : α → Prop} (codes : Codes strict fits write read)
    (same : ∀ value, fits value ↔ stronger value) : Codes strict stronger write read := by
  obtain rfl : fits = stronger := funext fun value => propext (same value)
  exact codes

namespace Completes

variable {whole known : β → Prop} {pieces : β → List Bytes} {tail : β → Bytes}

/-- Read one field, which the rest of the reading then knows. -/
theorem field (field : β → α) (part : Codes strict fits write read) {next : α → Reader β}
    (inside : ∀ value, whole value → known value → fits (field value))
    (later : ∀ a, fits a →
      Completes strict whole (fun value => field value = a ∧ known value) (fun value => (pieces value).flatten)
        (next a)) :
    Completes strict whole known (fun value => (write (field value) :: pieces value).flatten) (read >>= next) where
  restores := by
    intro value rest holds knows
    rw [List.flatten_cons, List.append_assoc, Reader.bind_eq, part.restores _ (inside value holds knows), ok_bind]
    exact (later _ (inside value holds knows)).restores rest holds ⟨rfl, knows⟩
  accepts := by
    intro bytes value rest ran
    rw [Reader.bind_eq, bind_ok] at ran
    obtain ⟨⟨a, middle⟩, first, second⟩ := ran
    obtain ⟨holds, strictly⟩ := (later a (part.sound first)).accepts second
    refine ⟨holds, fun isStrict => ?_⟩
    subst isStrict
    obtain ⟨⟨found, knows⟩, split⟩ := strictly rfl
    refine ⟨knows, ?_⟩
    dsimp only at split
    rw [part.written first, split, List.flatten_cons, found, List.append_assoc]

/-- A check of what has been read. -/
theorem check {test : Checked Unit} {next : Unit → Reader β}
    (passes : ∀ value, whole value → known value → test = .ok ())
    (later : test = .ok () → Completes strict whole known tail (next ())) :
    Completes strict whole known tail (Reader.lift test >>= next) where
  restores := by
    intro value rest holds knows
    have passed := passes value holds knows
    rw [Reader.bind_lift passed]
    exact (later passed).restores rest holds knows
  accepts := by
    intro bytes value rest ran
    rw [Reader.bind_eq, bind_ok] at ran
    obtain ⟨⟨a, middle⟩, first, second⟩ := ran
    obtain ⟨passed, rfl⟩ := Reader.lift_ok.mp first
    exact (later passed).accepts second

/-- The last step: the value that what has been read determines. -/
theorem last {result : Checked β} (determined : ∀ value, whole value → known value → result = .ok value)
    (holds : ∀ value, result = .ok value → whole value ∧ (strict = true → known value)) :
    Completes strict whole known (fun _ => []) (Reader.lift result) where
  restores := by
    intro value rest fine knows
    rw [List.nil_append, Reader.lift_ok]
    exact ⟨determined value fine knows, rfl⟩
  accepts := by
    intro bytes value rest ran
    obtain ⟨found, rfl⟩ := Reader.lift_ok.mp ran
    exact ⟨(holds value found).1, fun isStrict => ⟨(holds value found).2 isStrict, rfl⟩⟩

/-- The last step of a record whose fields have all been read. -/
theorem done (value : β) (holds : whole value) (knows : known value) (only : ∀ other, known other → other = value) :
    Completes strict whole known (fun _ => []) (pure value) where
  restores := by
    intro other rest _ known
    rw [only other known]
    rfl
  accepts := by
    intro bytes other rest ran
    cases ran
    exact ⟨holds, fun _ => ⟨knows, rfl⟩⟩

end Completes

/-! ### Bytes and repetitions -/

variable {truncated unexpected : Exception}

theorem Codes.take (count : ℕ) :
    Codes strict (fun bytes => bytes.length = count) (fun bytes => bytes) (Reader.take count truncated) := by
  refine Codes.intro (fun value rest width => ?_) (fun bytes value rest ran => ?_)
  · subst width
    rw [Reader.take, if_neg (by simp), List.take_left, List.drop_left]
  · unfold Reader.take at ran
    split at ran
    · cases ran
    · cases ran
      exact ⟨List.length_take_of_le (by omega), fun _ => (List.take_append_drop count bytes).symm⟩

theorem Codes.expect (expected : Bytes) :
    Codes strict (fun _ : Unit => True) (fun _ => expected) (Reader.expect expected truncated unexpected) := by
  refine Codes.intro (fun value rest _ => ?_) (fun bytes value rest ran => ?_)
  · rw [Reader.expect, if_neg (by simp), List.take_left, if_neg (by simp), List.drop_left]
  · unfold Reader.expect at ran
    split at ran
    · cases ran
    · split at ran
      · cases ran
      · rename_i same
        cases ran
        rw [ne_eq, not_not] at same
        refine ⟨trivial, fun _ => ?_⟩
        calc bytes = bytes.take expected.length ++ bytes.drop expected.length :=
              (List.take_append_drop expected.length bytes).symm
          _ = expected ++ bytes.drop expected.length := by rw [same]

theorem Codes.times (item : Codes strict fits write read) (count : ℕ) :
    Codes strict (fun items => items.length = count ∧ ∀ value ∈ items, fits value)
      (fun items => items.flatMap write) (read.times count) := by
  induction count with
  | zero =>
    refine Codes.intro (fun items rest holds => ?_) (fun bytes items rest ran => ?_)
    · rw [List.length_eq_zero_iff.mp holds.1]
      rfl
    · cases ran
      simp
  | succ count ih =>
    refine Codes.intro (fun items rest holds => ?_) (fun bytes items rest ran => ?_)
    · obtain ⟨width, each⟩ := holds
      cases items with
      | nil => cases width
      | cons first later =>
        rw [List.flatMap_cons, List.append_assoc, Reader.times, Reader.bind_eq,
          item.restores _ (each first (by simp)), ok_bind, Reader.bind_eq,
          ih.restores _ ⟨Nat.succ.inj width, fun value listed => each value (by simp [listed])⟩, ok_bind]
        rfl
    · simp only [Reader.times, Reader.bind_eq, bind_ok, Reader.pure_eq, Except.ok.injEq] at ran
      obtain ⟨⟨first, middle⟩, here, ⟨later, remaining⟩, there, same⟩ := ran
      cases same
      obtain ⟨width, each⟩ := ih.sound there
      refine ⟨⟨by rw [List.length_cons, width], ?_⟩, fun isStrict => ?_⟩
      · intro value listed
        rcases List.mem_cons.mp listed with rfl | deeper
        · exact item.sound here
        · exact each value deeper
      · subst isStrict
        have tail := ih.written there
        dsimp only at tail
        rw [item.written here, tail, List.flatMap_cons, List.append_assoc]

theorem Codes.axes (item : Codes strict fits write read) (d : ℕ) :
    Codes strict (fun values => ∀ axis, fits (values axis)) (fun values => (List.ofFn fun axis => write (values axis)).flatten)
      (read.axes d) := by
  induction d with
  | zero =>
    refine Codes.intro (fun values rest _ => ?_) (fun bytes values rest ran => ?_)
    · rw [Subsingleton.elim values Fin.elim0]
      rfl
    · cases ran
      exact ⟨fun axis => axis.elim0, fun _ => rfl⟩
  | succ d ih =>
    refine Codes.intro (fun values rest each => ?_) (fun bytes values rest ran => ?_)
    · rw [List.ofFn_succ, List.flatten_cons, List.append_assoc, Reader.axes, Reader.bind_eq,
        item.restores _ (each 0), ok_bind, Reader.bind_eq,
        @Codes.restores _ _ _ _ _ ih (fun axis => values axis.succ) _ (fun axis => each axis.succ), ok_bind,
        Reader.pure_eq, Except.ok.injEq, Prod.mk.injEq]
      exact ⟨Fin.cons_self_tail values, rfl⟩
    · simp only [Reader.axes, Reader.bind_eq, bind_ok, Reader.pure_eq, Except.ok.injEq] at ran
      obtain ⟨⟨first, middle⟩, here, ⟨later, remaining⟩, there, same⟩ := ran
      cases same
      refine ⟨fun axis => ?_, fun isStrict => ?_⟩
      · refine Fin.cases ?_ (fun axis => ?_) axis
        · exact item.sound here
        · rw [Fin.cons_succ]
          exact ih.sound there axis
      · subst isStrict
        have width := ih.written there
        dsimp only at width
        rw [item.written here, width, List.ofFn_succ, List.flatten_cons, List.append_assoc]
        simp only [Fin.cons_zero, Fin.cons_succ]

end Pops
