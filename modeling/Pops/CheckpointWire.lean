import Pops.ByteCodec
import Pops.Rational

/-!
The `Writer` and the `Reader` of `runtime/program/amr_program_checkpoint.hpp`:
64-bit little-endian words, and containers behind their size. What a writer
appends is a list of bytes here; the checks of the reader name the exception
they throw, and memory is not modelled.
-/
namespace Pops

/-- `double` with the bits that `memcpy` takes and gives. -/
class BitsDouble (T : Type) where
  toBits : T → ℕ
  ofBits : ℕ → T
  toBits_lt : ∀ value, toBits value < 18446744073709551616
  ofBits_toBits : ∀ value, ofBits (toBits value) = value
  toBits_ofBits : ∀ bits, bits < 18446744073709551616 → toBits (ofBits bits) = bits

namespace Checkpoint

def u64 (value : ℕ) : Bytes := littleEndian 8 value

/-- `i64`, and `i32` of a value that fits. -/
def i64 (value : ℤ) : Bytes := u64 (toWord value)

def real {T : Type} [BitsDouble T] (value : T) : Bytes := u64 (BitsDouble.toBits value)

/-- `string` and `bytes`. -/
def string (value : Bytes) : Bytes := [u64 value.length, value].flatten

/-- A container: its size and its elements. -/
def container {α : Type} (write : α → Bytes) (items : List α) : Bytes := [u64 items.length, items.flatMap write].flatten

/-- `fail_`. -/
def failure (reason : String) : Exception := .runtimeError ("invalid exact AMR Program checkpoint: " ++ reason)

/-- `require_` fails. -/
def truncatedPayload : Exception := failure "truncated payload"

/-- `u64`. -/
def readU64 : Reader ℕ := do
  let word ← Reader.take 8 truncatedPayload
  return fromLittleEndian word

/-- `i64`. -/
def readI64 : Reader ℤ := do
  let word ← readU64
  return ofWord word

/-- `i32`. -/
def readI32 : Reader ℤ := do
  let value ← readI64
  Reader.lift (throwIf (value < intMin ∨ value > intMax) (failure "integer is outside the native int range"))
  return value

/-- `real`. -/
def readReal {T : Type} [BitsDouble T] : Reader T := do
  let bits ← readU64
  return BitsDouble.ofBits bits

/-- `kMaxElements`. -/
def maxElements : ℕ := 1073741824

/-- `size`, next to what is left of the payload. -/
def readSize (elementBytes : ℕ) : Reader ℕ := do
  let value ← readU64
  let left ← Reader.left
  Reader.lift (throwIf (elementBytes = 0 ∨ value > maxElements ∨ value > left.length / elementBytes)
    (failure "container length is not credible for this payload"))
  return value

/-- `string` and `bytes`. -/
def readString : Reader Bytes := do
  let count ← readSize 1
  Reader.take count truncatedPayload

/-- A container of elements that take `elementBytes` at least. -/
def readContainer {α : Type} (elementBytes : ℕ) (read : Reader α) : Reader (List α) := do
  let count ← readSize elementBytes
  read.times count

variable {strict : Bool} {α β : Type}

@[simp]
theorem u64_length (value : ℕ) : (u64 value).length = 8 := littleEndian_length 8 value

@[simp]
theorem i64_length (value : ℤ) : (i64 value).length = 8 := u64_length _

@[simp]
theorem real_length {T : Type} [BitsDouble T] (value : T) : (real value).length = 8 := u64_length _

@[simp]
theorem string_length (value : Bytes) : (string value).length = 8 + value.length := by
  simp [string]

theorem codes_u64 : Codes strict (fun value => value < 18446744073709551616) u64 readU64 := by
  refine Codes.intro (fun value rest small => ?_) (fun bytes value rest ran => ?_)
  · rw [readU64, Reader.bind_eq, (Codes.take 8 : Codes strict _ _ _).restores rest (u64_length value), ok_bind,
      Reader.pure_eq, u64, fromLittleEndian_littleEndian, Nat.mod_eq_of_lt]
    exact small
  · rw [readU64, Reader.bind_eq, bind_ok] at ran
    obtain ⟨⟨word, middle⟩, taken, returned⟩ := ran
    rw [Reader.pure_eq, Except.ok.injEq, Prod.mk.injEq] at returned
    obtain ⟨rfl, rfl⟩ := returned
    have width : word.length = 8 := (Codes.take 8 : Codes true _ _ _).sound taken
    have small := fromLittleEndian_lt word
    have same := littleEndian_fromLittleEndian word
    rw [width] at small same
    refine ⟨small, fun _ => ?_⟩
    rw [u64, same]
    exact (Codes.take 8).written taken

private theorem codes_word {word : α → ℕ} {ofWord : ℕ → α} {fits : α → Prop}
    (small : ∀ value, fits value → word value < 18446744073709551616)
    (back : ∀ value, fits value → ofWord (word value) = value)
    (forth : ∀ bits, bits < 18446744073709551616 → fits (ofWord bits) ∧ word (ofWord bits) = bits) :
    Codes strict fits (fun value => u64 (word value)) (do let bits ← readU64; return ofWord bits) := by
  refine Codes.intro (fun value rest holds => ?_) (fun bytes value rest ran => ?_)
  · rw [Reader.bind_eq, (codes_u64 : Codes strict _ _ _).restores rest (small value holds), ok_bind, Reader.pure_eq,
      back value holds]
  · rw [Reader.bind_eq, bind_ok] at ran
    obtain ⟨⟨bits, middle⟩, taken, returned⟩ := ran
    rw [Reader.pure_eq, Except.ok.injEq, Prod.mk.injEq] at returned
    obtain ⟨rfl, rfl⟩ := returned
    obtain ⟨holds, same⟩ := forth bits ((codes_u64 : Codes true _ _ _).sound taken)
    refine ⟨holds, fun _ => ?_⟩
    rw [same]
    exact codes_u64.written taken

theorem codes_i64 : Codes strict FitsInt64 i64 readI64 := by
  refine codes_word (fun value _ => toWord_lt value) (fun value fits => ofWord_toWord fits.1 fits.2)
    (fun bits small => ⟨ofWord_bounds small, toWord_ofWord small⟩)

theorem codes_real {T : Type} [BitsDouble T] : Codes strict (fun _ : T => True) real readReal :=
  codes_word (fun value _ => BitsDouble.toBits_lt value) (fun value _ => BitsDouble.ofBits_toBits value)
    (fun bits small => ⟨trivial, BitsDouble.toBits_ofBits bits small⟩)

theorem codes_i32 : Codes strict FitsInt i64 readI32 := by
  refine Codes.intro (fun value rest fits => ?_) (fun bytes value rest ran => ?_)
  · have wide : FitsInt64 value := by
      unfold FitsInt intMin intMax at fits
      unfold FitsInt64 int64Min int64Max
      omega
    have passes : throwIf (value < intMin ∨ value > intMax) (failure "integer is outside the native int range") =
        .ok () := throwIf_of_not (by unfold FitsInt at fits; omega)
    rw [readI32, Reader.bind_eq, (codes_i64 : Codes strict _ _ _).restores rest wide, ok_bind,
      Reader.bind_lift passes, Reader.pure_eq]
  · rw [readI32, Reader.bind_eq, bind_ok] at ran
    obtain ⟨⟨found, middle⟩, taken, rest'⟩ := ran
    rw [Reader.bind_eq, bind_ok] at rest'
    obtain ⟨⟨_, after⟩, checked, returned⟩ := rest'
    obtain ⟨passed, rfl⟩ := Reader.lift_ok.mp checked
    rw [Reader.pure_eq, Except.ok.injEq, Prod.mk.injEq] at returned
    obtain ⟨rfl, rfl⟩ := returned
    rw [throwIf_ok] at passed
    exact ⟨by unfold FitsInt; omega, fun _ => codes_i64.written taken⟩

section
variable {whole known : β → Prop} {pieces : β → List Bytes}

theorem completes_size {elementBytes : ℕ} (count : β → ℕ) {next : ℕ → Reader β} (positive : 0 < elementBytes)
    (credible : ∀ value, whole value → count value ≤ maxElements)
    (wide : ∀ value, whole value → count value * elementBytes ≤ (pieces value).flatten.length)
    (later : ∀ n, n ≤ maxElements →
      Completes strict whole (fun value => count value = n ∧ known value) (fun value => (pieces value).flatten)
        (next n)) :
    Completes strict whole known (fun value => (u64 (count value) :: pieces value).flatten)
      (readSize elementBytes >>= next) where
  restores := by
    intro value rest holds knows
    have few := credible value holds
    have room : count value ≤ ((pieces value).flatten ++ rest).length / elementBytes := by
      rw [Nat.le_div_iff_mul_le positive, List.length_append]
      exact (wide value holds).trans (Nat.le_add_right _ _)
    have read : readSize elementBytes (u64 (count value) ++ ((pieces value).flatten ++ rest)) =
        .ok (count value, (pieces value).flatten ++ rest) := by
      rw [readSize, Reader.bind_eq, (codes_u64 : Codes strict _ _ _).restores _ (by unfold maxElements at few; omega),
        ok_bind, Reader.bind_left]
      dsimp only
      rw [Reader.bind_lift (throwIf_of_not (by omega)), Reader.pure_eq]
    rw [List.flatten_cons, List.append_assoc, Reader.bind_eq, read, ok_bind]
    exact (later _ few).restores rest holds ⟨rfl, knows⟩
  accepts := by
    intro bytes value rest ran
    rw [Reader.bind_eq, bind_ok] at ran
    obtain ⟨⟨n, middle⟩, first, second⟩ := ran
    rw [readSize, Reader.bind_eq, bind_ok] at first
    obtain ⟨⟨found, left⟩, taken, checked⟩ := first
    rw [Reader.bind_left, Reader.bind_eq, bind_ok] at checked
    obtain ⟨⟨_, after⟩, test, returned⟩ := checked
    obtain ⟨passed, rfl⟩ := Reader.lift_ok.mp test
    rw [Reader.pure_eq, Except.ok.injEq, Prod.mk.injEq] at returned
    obtain ⟨rfl, rfl⟩ := returned
    rw [throwIf_ok] at passed
    obtain ⟨holds, strictly⟩ := (later found (by omega)).accepts second
    refine ⟨holds, fun isStrict => ?_⟩
    obtain ⟨⟨same, knows⟩, split⟩ := strictly isStrict
    refine ⟨knows, ?_⟩
    dsimp only at split
    rw [codes_u64.written taken, split, List.flatten_cons, same, List.append_assoc]

end

theorem codes_string : Codes strict (fun value => value.length ≤ maxElements) string readString := by
  refine completes_size List.length Nat.one_pos (fun value holds => holds) (by simp) fun n few => ?_
  have bytes := (Codes.take n : Codes strict _ _ (Reader.take n truncatedPayload))
  refine ⟨fun rest _ knows => ?_, fun ran => ?_⟩
  · rw [List.flatten_cons, List.flatten_nil, List.append_nil]
    exact bytes.restores rest knows.1
  · refine ⟨(bytes.sound ran).trans_le few, fun isStrict => ⟨⟨bytes.sound ran, trivial⟩, ?_⟩⟩
    subst isStrict
    rw [List.flatten_cons, List.flatten_nil, List.append_nil]
    exact bytes.written ran

theorem flatMap_length_ge {write : α → Bytes} {elementBytes : ℕ} (wide : ∀ value, elementBytes ≤ (write value).length)
    (items : List α) : items.length * elementBytes ≤ (items.flatMap write).length := by
  induction items with
  | nil => simp
  | cons first later ih =>
    have here := wide first
    rw [List.length_cons, List.flatMap_cons, List.length_append, Nat.succ_mul]
    omega

theorem codes_container {fits : α → Prop} {write : α → Bytes} {read : Reader α} {elementBytes : ℕ}
    (item : Codes strict fits write read) (positive : 0 < elementBytes)
    (wide : ∀ value, elementBytes ≤ (write value).length) :
    Codes strict (fun items => items.length ≤ maxElements ∧ ∀ value ∈ items, fits value) (container write)
      (readContainer elementBytes read) := by
  refine completes_size List.length positive (fun items holds => holds.1) (fun items _ => ?_) fun n few => ?_
  · rw [List.flatten_cons, List.flatten_nil, List.append_nil]
    exact flatMap_length_ge wide items
  · have all := item.times n
    refine ⟨fun rest holds knows => ?_, fun ran => ?_⟩
    · rw [List.flatten_cons, List.flatten_nil, List.append_nil]
      exact all.restores rest ⟨knows.1, holds.2⟩
    · obtain ⟨width, each⟩ := all.sound ran
      refine ⟨⟨width.trans_le few, each⟩, fun isStrict => ⟨⟨width, trivial⟩, ?_⟩⟩
      subst isStrict
      rw [List.flatten_cons, List.flatten_nil, List.append_nil]
      exact all.written ran

end Checkpoint

end Pops
