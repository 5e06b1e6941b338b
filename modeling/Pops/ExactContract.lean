import Pops.CanonicalValue

/-!
`core/identity/prepared_provider.hpp`: the bytes of an exact contract. A call
that appends to a builder is a field; the encoder of a sequence appends fields
of its own to a builder of its own. Integers and floats are their object bits.
-/
namespace Pops
namespace ExactContract

open CanonicalValue (bigEndian)

/-- `sizeof` an integral type. -/
inductive Width where
  | one | two | four | eight
  deriving DecidableEq

def Width.bytes : Width → ℕ
  | one => 1
  | two => 2
  | four => 4
  | eight => 8

/-- A value of an integral type. -/
inductive Integral where
  | boolean (value : Bool)
  | signed (width : Width) (value : BitVec (8 * width.bytes))
  | unsigned (width : Width) (value : BitVec (8 * width.bytes))
  deriving DecidableEq

/-- `ExactContractScalar`; an enumerator has the integral type below it. -/
inductive Scalar where
  | enumerator (value : Integral)
  | integral (value : Integral)
  | float (bits : BitVec 32)
  | double (bits : BitVec 64)
  deriving DecidableEq

/-- `append_contract_unsigned`: the highest byte first. -/
def appendContractUnsigned {width : ℕ} (bytes : Bytes) (count : ℕ) (value : BitVec width) : Bytes :=
  bytes ++ bigEndian count value.toNat

/-- `append_contract_scalar_payload` of an integral value. -/
def appendIntegralPayload (bytes : Bytes) : Integral → Bytes
  | .boolean value => bytes ++ ascii "b" ++ [byteOf (if value then 1 else 0)]
  | .signed width value => appendContractUnsigned (bytes ++ ascii "i" ++ [byteOf width.bytes]) width.bytes value
  | .unsigned width value => appendContractUnsigned (bytes ++ ascii "u" ++ [byteOf width.bytes]) width.bytes value

def appendContractScalarPayload (bytes : Bytes) : Scalar → Bytes
  | .enumerator value => appendIntegralPayload (bytes ++ ascii "e") value
  | .integral value => appendIntegralPayload bytes value
  | .float bits => appendContractUnsigned (bytes ++ ascii "f") 4 bits
  | .double bits => appendContractUnsigned (bytes ++ ascii "d") 8 bits

def maxSize : ℕ := 9223372036854775807

/-- A `std::string` takes no more bytes than that. -/
def grown (bytes : Bytes) : Checked Bytes := do
  throwIf (bytes.length > maxSize) (.lengthError "basic_string::append")
  return bytes

def appendContractFrame (destination : Bytes) (kind : Char) (payload : Bytes) : Checked Bytes :=
  grown (appendContractUnsigned (destination ++ [byteOf kind.toNat]) 8 (BitVec.ofNat 64 payload.length) ++ payload)

/-- A call that appends to an `ExactContractBuilder`. -/
inductive Field where
  | scalar (value : Scalar)
  | text (value : Bytes)
  | bytes (value : Bytes)
  | presence (present : Bool)
  | sequence (elements : List (List Field))

mutual

/-- One call, on the bytes of the builder. -/
def Field.append (built : Bytes) : Field → Checked Bytes
  | .scalar value => appendContractFrame built 's' (appendContractScalarPayload [] value)
  | .text value => appendContractFrame built 't' value
  | .bytes value => appendContractFrame built 'x' value
  | .presence present => appendContractFrame built 'p' [byteOf (if present then 1 else 0)]
  | .sequence elements => do
    let encoded ← appendElements ([], 0) elements
    let payload ← grown (appendContractUnsigned [] 8 (BitVec.ofNat 64 encoded.2) ++ encoded.1)
    appendContractFrame built 'q' payload

/-- The loop of `sequence`: the elements so far, and their `count`. -/
def appendElements : Bytes × ℕ → List (List Field) → Checked (Bytes × ℕ)
  | encoded, [] => .ok encoded
  | (elements, count), element :: rest => do
    throwIf (count = 18446744073709551615) (.lengthError "exact contract sequence has too many elements")
    let view ← appendAll [] element
    let elements ← appendContractFrame elements 'v' view
    appendElements (elements, count + 1) rest

/-- The calls on one builder, in order. -/
def appendAll (built : Bytes) : List Field → Checked Bytes
  | [] => .ok built
  | field :: rest => do
    let built ← field.append built
    appendAll built rest

end

/-- The bytes a new `ExactContractBuilder` has after the calls. -/
def build (fields : List Field) : Checked Bytes := appendAll [] fields

/-- What `initialize_` serializes of a `PreparedProvider`. -/
structure PreparedProvider where
  implementation : Bytes
  version : BitVec 64
  exactParameters : Bytes
  callable : Bool
  deriving DecidableEq

/-- `initialize_`: the collective contract. -/
def collectiveContract (provider : PreparedProvider) : Checked Bytes := do
  throwIf (provider.implementation = [])
    (.invalidArgument "prepared provider implementation identity must not be empty")
  throwIf (provider.version = 0) (.invalidArgument "prepared provider implementation version must be positive")
  throwIf (provider.callable = false) (.invalidArgument "prepared provider callable must not be empty")
  build [.text (ascii "pops.prepared-provider"), .scalar (.integral (.unsigned .four 2)),
    .text provider.implementation, .scalar (.integral (.unsigned .eight provider.version)),
    .bytes provider.exactParameters]

end ExactContract

end Pops
