import Mathlib
import Pops.CanonicalValueProofs
import Pops.ExactContract

/-!
An exact contract is read in one way only: two sequences of fields with the
same bytes are the same sequence. A frame shows where it ends, whatever its
payload is, so the first frames of equal bytes are equal, and so are the rests.
-/
namespace Pops
namespace ExactContract

open CanonicalValue (bigEndian bigEndian_length bigEndian_inj)

theorem appendIntegralPayload_eq (bytes : Bytes) (value : Integral) :
    appendIntegralPayload bytes value = bytes ++ appendIntegralPayload [] value := by
  cases value <;> simp [appendIntegralPayload, appendContractUnsigned]

theorem appendContractUnsigned_inj {count : ℕ} {left right : BitVec (8 * count)} {bytes : Bytes}
    (same : appendContractUnsigned bytes count left = appendContractUnsigned bytes count right) : left = right := by
  have small (value : BitVec (8 * count)) : value.toNat < 256 ^ count := by
    have bound := value.isLt
    rwa [Nat.pow_mul] at bound
  exact BitVec.eq_of_toNat_eq (bigEndian_inj (small left) (small right) (List.append_cancel_left same))

theorem Width.bytes_inj {left right : Width} (same : byteOf left.bytes = byteOf right.bytes) : left = right := by
  cases left <;> cases right <;> first | rfl | exact absurd same (by decide)

theorem appendIntegralPayload_inj {left right : Integral}
    (same : appendIntegralPayload [] left = appendIntegralPayload [] right) : left = right := by
  have tags := congrArg List.head? same
  cases left with
  | boolean value =>
    cases right with
    | boolean other => revert same; cases value <;> cases other <;> decide
    | signed => exact absurd tags (by simp [appendIntegralPayload, appendContractUnsigned, ascii, byteOf])
    | unsigned => exact absurd tags (by simp [appendIntegralPayload, appendContractUnsigned, ascii, byteOf])
  | signed width value =>
    cases right with
    | boolean => exact absurd tags (by simp [appendIntegralPayload, appendContractUnsigned, ascii, byteOf])
    | unsigned => exact absurd tags (by simp [appendIntegralPayload, appendContractUnsigned, ascii, byteOf])
    | signed otherWidth other =>
      have widths := congrArg (fun bytes => bytes.tail.head?) same
      obtain rfl := Width.bytes_inj (Option.some.inj widths)
      rw [appendContractUnsigned_inj same]
  | unsigned width value =>
    cases right with
    | boolean => exact absurd tags (by simp [appendIntegralPayload, appendContractUnsigned, ascii, byteOf])
    | signed => exact absurd tags (by simp [appendIntegralPayload, appendContractUnsigned, ascii, byteOf])
    | unsigned otherWidth other =>
      have widths := congrArg (fun bytes => bytes.tail.head?) same
      obtain rfl := Width.bytes_inj (Option.some.inj widths)
      rw [appendContractUnsigned_inj same]

/-- The tag a scalar starts with. -/
def Scalar.tag : Scalar → Fin 256
  | .enumerator _ => byteOf 'e'.toNat
  | .integral (.boolean _) => byteOf 'b'.toNat
  | .integral (.signed _ _) => byteOf 'i'.toNat
  | .integral (.unsigned _ _) => byteOf 'u'.toNat
  | .float _ => byteOf 'f'.toNat
  | .double _ => byteOf 'd'.toNat

theorem Scalar.tag_eq (value : Scalar) : (appendContractScalarPayload [] value).head? = some value.tag := by
  cases value with
  | enumerator value =>
    rw [appendContractScalarPayload, appendIntegralPayload_eq]
    rfl
  | integral value => cases value <;> rfl
  | float bits => rfl
  | double bits => rfl

theorem appendContractScalarPayload_inj {left right : Scalar}
    (same : appendContractScalarPayload [] left = appendContractScalarPayload [] right) : left = right := by
  have tags : left.tag = right.tag := by
    have heads := congrArg List.head? same
    rwa [Scalar.tag_eq, Scalar.tag_eq, Option.some.injEq] at heads
  cases left with
  | enumerator value =>
    cases right with
    | enumerator other =>
      rw [appendContractScalarPayload, appendContractScalarPayload, appendIntegralPayload_eq,
        appendIntegralPayload_eq _ other] at same
      rw [appendIntegralPayload_inj (List.append_cancel_left same)]
    | integral other => cases other <;> exact absurd tags (by simp [Scalar.tag, byteOf])
    | float => exact absurd tags (by simp [Scalar.tag, byteOf])
    | double => exact absurd tags (by simp [Scalar.tag, byteOf])
  | integral value =>
    cases right with
    | integral other => rw [appendIntegralPayload_inj same]
    | enumerator => cases value <;> exact absurd tags (by simp [Scalar.tag, byteOf])
    | float => cases value <;> exact absurd tags (by simp [Scalar.tag, byteOf])
    | double => cases value <;> exact absurd tags (by simp [Scalar.tag, byteOf])
  | float bits =>
    cases right with
    | float other => rw [@appendContractUnsigned_inj 4 bits other _ same]
    | enumerator => exact absurd tags (by simp [Scalar.tag, byteOf])
    | integral other => cases other <;> exact absurd tags (by simp [Scalar.tag, byteOf])
    | double => exact absurd tags (by simp [Scalar.tag, byteOf])
  | double bits =>
    cases right with
    | double other => rw [@appendContractUnsigned_inj 8 bits other _ same]
    | enumerator => exact absurd tags (by simp [Scalar.tag, byteOf])
    | integral other => cases other <;> exact absurd tags (by simp [Scalar.tag, byteOf])
    | float => exact absurd tags (by simp [Scalar.tag, byteOf])

/-- `kind | uint64-big-endian byte-count | payload`. -/
def frame (kind : Char) (payload : Bytes) : Bytes := byteOf kind.toNat :: bigEndian 8 payload.length ++ payload

theorem grown_ok {bytes result : Bytes} : grown bytes = .ok result ↔ bytes.length ≤ maxSize ∧ bytes = result := by
  rw [grown, bind_ok, unit_exists, throwIf_ok, pure_ok, not_lt]

theorem appendContractFrame_ok {destination payload result : Bytes} {kind : Char}
    (ran : appendContractFrame destination kind payload = .ok result) :
    payload.length ≤ maxSize ∧ result = destination ++ frame kind payload := by
  obtain ⟨fits, rfl⟩ := grown_ok.mp ran
  have short : payload.length ≤ maxSize := by
    rw [List.length_append] at fits
    omega
  have counted : (BitVec.ofNat 64 payload.length).toNat = payload.length := by
    rw [BitVec.toNat_ofNat]
    exact Nat.mod_eq_of_lt (lt_of_le_of_lt short (by decide))
  exact ⟨short, by simp [appendContractUnsigned, counted, frame]⟩

theorem frame_append_inj {kind otherKind : Char} {payload other rest otherRest : Bytes}
    (short : payload.length ≤ maxSize) (otherShort : other.length ≤ maxSize)
    (same : frame kind payload ++ rest = frame otherKind other ++ otherRest) :
    byteOf kind.toNat = byteOf otherKind.toNat ∧ payload = other ∧ rest = otherRest := by
  simp only [frame, List.cons_append, List.append_assoc, List.cons.injEq] at same
  obtain ⟨kinds, tails⟩ := same
  obtain ⟨counts, contents⟩ := List.append_inj tails (by rw [bigEndian_length, bigEndian_length])
  have lengths : payload.length = other.length :=
    bigEndian_inj (lt_of_le_of_lt short (by decide)) (lt_of_le_of_lt otherShort (by decide)) counts
  obtain ⟨payloads, rests⟩ := List.append_inj contents lengths
  exact ⟨kinds, payloads, rests⟩

/-- The kind of a field's frame. -/
def Field.kind : Field → Char
  | .scalar _ => 's'
  | .text _ => 't'
  | .bytes _ => 'x'
  | .presence _ => 'p'
  | .sequence _ => 'q'

/-- The payload of a field's frame. -/
def Field.payload : Field → Checked Bytes
  | .scalar value => .ok (appendContractScalarPayload [] value)
  | .text value => .ok value
  | .bytes value => .ok value
  | .presence present => .ok [byteOf (if present then 1 else 0)]
  | .sequence elements => do
    let encoded ← appendElements ([], 0) elements
    grown (appendContractUnsigned [] 8 (BitVec.ofNat 64 encoded.2) ++ encoded.1)

theorem Field.append_ok {built result : Bytes} {field : Field} (ran : field.append built = .ok result) :
    ∃ payload, field.payload = .ok payload ∧ payload.length ≤ maxSize ∧ result = built ++ frame field.kind payload := by
  cases field with
  | scalar value => exact ⟨_, rfl, appendContractFrame_ok ran⟩
  | text value => exact ⟨_, rfl, appendContractFrame_ok ran⟩
  | bytes value => exact ⟨_, rfl, appendContractFrame_ok ran⟩
  | presence present => exact ⟨_, rfl, appendContractFrame_ok ran⟩
  | sequence elements =>
    simp only [Field.append, bind_ok] at ran
    obtain ⟨encoded, each, payload, counted, framed⟩ := ran
    exact ⟨payload, by rw [Field.payload, each, ok_bind, counted], appendContractFrame_ok framed⟩

theorem appendAll_prefix {built result : Bytes} {fields : List Field} (ran : appendAll built fields = .ok result) :
    ∃ tail, result = built ++ tail := by
  induction fields generalizing built with
  | nil => cases ran; exact ⟨[], by simp⟩
  | cons field fields ih =>
    simp only [appendAll, bind_ok] at ran
    obtain ⟨next, first, later⟩ := ran
    obtain ⟨payload, -, -, rfl⟩ := Field.append_ok first
    obtain ⟨tail, rfl⟩ := ih later
    exact ⟨frame field.kind payload ++ tail, by rw [List.append_assoc]⟩

theorem appendElements_prefix {elements : List (List Field)} {encoded result : Bytes × ℕ}
    (ran : appendElements encoded elements = .ok result) : ∃ tail, result.1 = encoded.1 ++ tail := by
  induction elements generalizing encoded with
  | nil => simp only [appendElements, Except.ok.injEq] at ran; exact ⟨[], by simp [ran]⟩
  | cons element elements ih =>
    simp only [appendElements, bind_ok] at ran
    obtain ⟨-, -, view, -, framed, appended, later⟩ := ran
    obtain ⟨-, rfl⟩ := appendContractFrame_ok appended
    obtain ⟨tail, whole⟩ := ih later
    exact ⟨frame 'v' view ++ tail, by rw [whole, List.append_assoc]⟩

theorem Field.kind_inj {left right : Field} (same : byteOf left.kind.toNat = byteOf right.kind.toNat) :
    left.kind = right.kind := by
  cases left <;> cases right <;> first | rfl | exact absurd same (by simp [Field.kind, byteOf])

theorem append_split {built result : Bytes} {left right : Field} {middle other : Bytes} {later others : List Field}
    (first : left.append built = .ok middle) (last : appendAll middle later = .ok result)
    (first' : right.append built = .ok other) (last' : appendAll other others = .ok result) :
    left.kind = right.kind ∧ left.payload = right.payload ∧ (∃ payload, left.payload = .ok payload) ∧ middle = other := by
  obtain ⟨payload, known, short, rfl⟩ := Field.append_ok first
  obtain ⟨payload', known', short', rfl⟩ := Field.append_ok first'
  obtain ⟨tail, rfl⟩ := appendAll_prefix last
  obtain ⟨tail', same⟩ := appendAll_prefix last'
  rw [List.append_assoc, List.append_assoc, List.append_cancel_left_eq] at same
  obtain ⟨kinds, payloads, -⟩ := frame_append_inj short short' same
  exact ⟨Field.kind_inj kinds, by rw [known, known', payloads], ⟨payload, known⟩,
    by rw [Field.kind_inj kinds, payloads]⟩

mutual

theorem Field.payload_inj {payload : Bytes} : ∀ left right : Field, left.kind = right.kind →
    left.payload = .ok payload → right.payload = .ok payload → left = right
  | .scalar value, right, kinds, known, other => by
    cases right with
    | scalar value' =>
      simp only [Field.payload, Except.ok.injEq] at known other
      rw [appendContractScalarPayload_inj (known.trans other.symm)]
    | _ => exact absurd kinds (by simp [Field.kind])
  | .text value, right, kinds, known, other => by
    cases right with
    | text value' => rw [Except.ok.inj (known.trans other.symm)]
    | _ => exact absurd kinds (by simp [Field.kind])
  | .bytes value, right, kinds, known, other => by
    cases right with
    | bytes value' => rw [Except.ok.inj (known.trans other.symm)]
    | _ => exact absurd kinds (by simp [Field.kind])
  | .presence value, right, kinds, known, other => by
    cases right with
    | presence value' =>
      have same := Except.ok.inj (known.trans other.symm)
      revert same
      cases value <;> cases value' <;> simp [byteOf]
    | _ => exact absurd kinds (by simp [Field.kind])
  | .sequence elements, right, kinds, known, other => by
    cases right with
    | sequence others =>
      simp only [Field.payload, bind_ok] at known other
      obtain ⟨encoded, each, counted⟩ := known
      obtain ⟨encoded', each', counted'⟩ := other
      have same := (grown_ok.mp counted).2.trans (grown_ok.mp counted').2.symm
      have contents := (List.append_inj same (by simp [appendContractUnsigned, bigEndian_length])).2
      rw [appendElements_inj elements others each each' rfl contents]
    | _ => exact absurd kinds (by simp [Field.kind])

theorem appendAll_inj {built result : Bytes} : ∀ fields others : List Field,
    appendAll built fields = .ok result → appendAll built others = .ok result → fields = others
  | [], others, ran, ran' => by
    cases others with
    | nil => rfl
    | cons field later =>
      cases ran
      simp only [appendAll, bind_ok] at ran'
      obtain ⟨next, first, last⟩ := ran'
      obtain ⟨payload, -, -, rfl⟩ := Field.append_ok first
      obtain ⟨tail, same⟩ := appendAll_prefix last
      have lengths := congrArg List.length same
      simp [frame] at lengths
  | field :: later, others, ran, ran' => by
    cases others with
    | nil =>
      cases ran'
      simp only [appendAll, bind_ok] at ran
      obtain ⟨next, first, last⟩ := ran
      obtain ⟨payload, -, -, rfl⟩ := Field.append_ok first
      obtain ⟨tail, same⟩ := appendAll_prefix last
      have lengths := congrArg List.length same
      simp [frame] at lengths
    | cons other others =>
      simp only [appendAll, bind_ok] at ran ran'
      obtain ⟨middle, first, last⟩ := ran
      obtain ⟨middle', first', last'⟩ := ran'
      obtain ⟨kinds, payloads, ⟨payload, known⟩, rfl⟩ := append_split first last first' last'
      rw [Field.payload_inj field other kinds known (payloads ▸ known), appendAll_inj later others last last']

theorem appendElements_inj {encoded encoded' result result' : Bytes × ℕ} : ∀ elements others : List (List Field),
    appendElements encoded elements = .ok result → appendElements encoded' others = .ok result' →
      encoded.1 = encoded'.1 → result.1 = result'.1 → elements = others
  | [], others, ran, ran', starts, same => by
    cases others with
    | nil => rfl
    | cons element later =>
      cases ran
      simp only [appendElements, bind_ok] at ran'
      obtain ⟨-, -, view, -, framed, appended, last⟩ := ran'
      obtain ⟨-, rfl⟩ := appendContractFrame_ok appended
      obtain ⟨tail, whole⟩ := appendElements_prefix last
      rw [← same, starts] at whole
      have lengths := congrArg List.length whole
      simp [frame] at lengths
  | element :: later, others, ran, ran', starts, same => by
    cases others with
    | nil =>
      cases ran'
      simp only [appendElements, bind_ok] at ran
      obtain ⟨-, -, view, -, framed, appended, last⟩ := ran
      obtain ⟨-, rfl⟩ := appendContractFrame_ok appended
      obtain ⟨tail, whole⟩ := appendElements_prefix last
      rw [same, ← starts] at whole
      have lengths := congrArg List.length whole
      simp [frame] at lengths
    | cons other others =>
      simp only [appendElements, bind_ok] at ran ran'
      obtain ⟨-, -, view, viewed, framed, appended, last⟩ := ran
      obtain ⟨-, -, view', viewed', framed', appended', last'⟩ := ran'
      obtain ⟨short, rfl⟩ := appendContractFrame_ok appended
      obtain ⟨short', rfl⟩ := appendContractFrame_ok appended'
      obtain ⟨tail, whole⟩ := appendElements_prefix last
      obtain ⟨tail', whole'⟩ := appendElements_prefix last'
      have split : frame 'v' view ++ tail = frame 'v' view' ++ tail' := by
        rw [whole, whole', starts, List.append_assoc, List.append_assoc, List.append_cancel_left_eq] at same
        exact same
      obtain ⟨-, rfl, -⟩ := frame_append_inj short short' split
      rw [appendAll_inj element other viewed viewed',
        appendElements_inj later others last last' (by rw [starts]) same]

end

/-- The bytes of a contract determine the fields it was built from. -/
theorem build_injective {fields others : List Field} {bytes : Bytes} (built : build fields = .ok bytes)
    (same : build others = .ok bytes) : fields = others :=
  appendAll_inj fields others built same

theorem build_injective_pair :
    [Field.text [97], .sequence [[.presence true]]] = [Field.text [97], .sequence [[.presence true]]] :=
  @build_injective [.text [97], .sequence [[.presence true]]] [.text [97], .sequence [[.presence true]]]
    ([116, 0, 0, 0, 0, 0, 0, 0, 1, 97] ++ [113, 0, 0, 0, 0, 0, 0, 0, 27] ++ [0, 0, 0, 0, 0, 0, 0, 1] ++
      [118, 0, 0, 0, 0, 0, 0, 0, 10] ++ [112, 0, 0, 0, 0, 0, 0, 0, 1, 1]) (by rfl) (by rfl)

private theorem unsigned_inj {width : Width} {left right : BitVec (8 * width.bytes)}
    (same : Integral.unsigned width left = .unsigned width right) : left = right := by
  cases same
  rfl

theorem collectiveContract_injective {provider other : PreparedProvider} {bytes : Bytes}
    (built : collectiveContract provider = .ok bytes) (same : collectiveContract other = .ok bytes) :
    provider = other := by
  simp only [collectiveContract, bind_ok, throwIf_ok] at built same
  obtain ⟨-, -, -, -, -, callable, built⟩ := built
  obtain ⟨-, -, -, -, -, otherCallable, same⟩ := same
  have fields := appendAll_inj _ _ built same
  simp only [List.cons.injEq, Field.scalar.injEq, Field.text.injEq, Field.bytes.injEq, Scalar.integral.injEq,
    true_and, and_true] at fields
  have versions : provider.version = other.version := unsigned_inj fields.2.1
  rw [Bool.not_eq_false] at callable otherCallable
  cases provider
  cases other
  rw [PreparedProvider.mk.injEq]
  exact ⟨fields.1, versions, fields.2.2, callable.trans otherCallable.symm⟩

/-- The contract of a provider with a name, a version and parameters. -/
theorem collectiveContract_injective_small :
    ∃ bytes, collectiveContract ⟨ascii "advection", 3, ascii "limiter=mc", true⟩ = .ok bytes ∧
      ∀ other, collectiveContract other = .ok bytes →
        (⟨ascii "advection", 3, ascii "limiter=mc", true⟩ : PreparedProvider) = other := by
  obtain ⟨bytes, built⟩ := exists_of_isOk
    (show (collectiveContract ⟨ascii "advection", 3, ascii "limiter=mc", true⟩).isOk = true by decide +kernel)
  exact ⟨bytes, built, fun _ same => collectiveContract_injective built same⟩

end ExactContract

end Pops
