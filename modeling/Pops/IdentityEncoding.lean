import Mathlib
import Pops.CanonicalValue

/-!
`identity/encoding.py`: the identity values of the Python side and their deterministic CBOR
bytes, and the `CanonicalValue` that stands for the same value on the other side. Values are
trees, so that no reference cycle is met; the paths that the error texts name are left out.
-/
namespace Pops.IdentityEncoding

/-- A code point of a `str`, surrogates included. -/
abbrev CodePoint := Fin 0x110000

/-- The values `_encode` supports. -/
inductive Value where
  | none
  | bool (value : Bool)
  | int (value : ℤ)
  | str (value : List CodePoint)
  | bytes (value : Bytes)
  | sequence (items : List Value)
  | dict (entries : List (List CodePoint × Value))
  | set (items : List Value)

/-! ### Text -/

def isSurrogate (point : CodePoint) : Bool := 0xd800 ≤ point.val && point.val ≤ 0xdfff

/-- The UTF-8 form of a code point; that of a surrogate is the one `surrogatepass` gives. -/
def utf8Point (point : CodePoint) : Bytes :=
  let code := point.val
  if code < 0x80 then [byteOf code]
  else if code < 0x800 then [byteOf (0xc0 + code / 64), byteOf (0x80 + code % 64)]
  else if code < 0x10000 then
    [byteOf (0xe0 + code / 4096), byteOf (0x80 + code / 64 % 64), byteOf (0x80 + code % 64)]
  else
    [byteOf (0xf0 + code / 262144), byteOf (0x80 + code / 4096 % 64), byteOf (0x80 + code / 64 % 64),
      byteOf (0x80 + code % 64)]

def utf8 (text : List CodePoint) : Bytes := text.flatMap utf8Point

/-- `value.encode("utf-8")`. -/
def encodeUtf8 (text : List CodePoint) : Checked Bytes := do
  throwIf (text.any isSurrogate = true) (.invalidArgument "canonical CBOR string is not valid Unicode")
  return utf8 text

/-! ### The encoding -/

/-- `argument.to_bytes(count, "big")`. -/
def toBytes (count argument : ℕ) : Bytes := CanonicalValue.bigEndian count argument

/-- `_head`. -/
def head (major argument : ℕ) : Checked Bytes :=
  let start := major * 32
  if argument < 24 then .ok [byteOf (start + argument)]
  else if argument ≤ 0xff then .ok [byteOf (start + 24), byteOf argument]
  else if argument ≤ 0xffff then .ok (byteOf (start + 25) :: toBytes 2 argument)
  else if argument ≤ 0xffffffff then .ok (byteOf (start + 26) :: toBytes 4 argument)
  else if argument ≤ 0xffffffffffffffff then .ok (byteOf (start + 27) :: toBytes 8 argument)
  else .error (.overflowError "canonical CBOR length or argument exceeds uint64")

/-- The key of both sorts: the length, then the bytes. -/
def sortsBefore (left right : Bytes) : Bool :=
  left.length < right.length || (left.length == right.length && left < right)

/-- `left == right for left, right in zip(items, items[1:])`. -/
def neighboursEqual (items : List Bytes) : Bool := (items.zip items.tail).any fun pair => pair.1 == pair.2

/-- `_SET_TAG`. -/
def setTag : Bytes := [byteOf 0xd9, byteOf 0x01, byteOf 0x02]

/-- The `int` branch of `_encode`. -/
def encodeInt (value : ℤ) : Checked Bytes := do
  throwIf (value < -9223372036854775808 ∨ value > 9223372036854775807)
    (.overflowError "canonical CBOR integer is outside signed int64")
  if value ≥ 0 then head 0 value.toNat else head 1 (-1 - value).toNat

/-- The `str` branch. -/
def encodeStr (value : List CodePoint) : Checked Bytes := do
  let encoded ← encodeUtf8 value
  let length ← head 3 encoded.length
  return length ++ encoded

/-- A list or a tuple, from the encodings of its items. -/
def encodeSequence (encoded : List (Checked Bytes)) : Checked Bytes := do
  let length ← head 4 encoded.length
  let items ← encoded.mapM id
  return length ++ items.flatten

/-- One entry of the loop of `_encode_dict`. -/
def encodeEntry (entry : List CodePoint × Checked Bytes) : Checked (Bytes × Bytes) := do
  let key ← encodeStr entry.1
  let item ← entry.2
  return (key, item)

/-- `_encode_dict`, from the keys and the encodings of the items. -/
def encodeDict (encoded : List (List CodePoint × Checked Bytes)) : Checked Bytes := do
  let entries ← encoded.mapM encodeEntry
  let sorted := entries.insertionSort fun left right => sortsBefore right.1 left.1 = false
  let length ← head 5 sorted.length
  return length ++ (sorted.map fun entry => entry.1 ++ entry.2).flatten

/-- `_encode_set`, from the encodings of the items. -/
def encodeSet (encoded : List (Checked Bytes)) : Checked Bytes := do
  let items ← encoded.mapM id
  let sorted := items.insertionSort fun left right => sortsBefore right left = false
  throwIf (neighboursEqual sorted = true) (.invalidArgument "canonical CBOR set contains duplicate canonical values")
  let length ← head 4 sorted.length
  return setTag ++ length ++ sorted.flatten

mutual
/-- `_encode`, and `canonical_bytes`. -/
def encode : Value → Checked Bytes
  | .none => .ok [byteOf 0xf6]
  | .bool value => .ok [byteOf (if value then 0xf5 else 0xf4)]
  | .int value => encodeInt value
  | .str value => encodeStr value
  | .bytes value => do
    let length ← head 2 value.length
    return length ++ value
  | .sequence items => encodeSequence (encodeItems items)
  | .dict entries => encodeDict (encodeEntries entries)
  | .set items => encodeSet (encodeItems items)

def encodeItems : List Value → List (Checked Bytes)
  | [] => []
  | item :: later => encode item :: encodeItems later

def encodeEntries : List (List CodePoint × Value) → List (List CodePoint × Checked Bytes)
  | [] => []
  | (key, item) :: later => (key, encode item) :: encodeEntries later
end

/-! ### The other side -/

mutual
/-- The value as the other side holds it, texts as their bytes. -/
def canonical : Value → CanonicalValue
  | .none => .null
  | .bool value => .bool value
  | .int value => .int value
  | .str value => .text (utf8 value)
  | .bytes value => .bytes value
  | .sequence items => .array (canonicalItems items)
  | .dict entries => .map (canonicalEntries entries)
  | .set items => .set (canonicalItems items)

def canonicalItems : List Value → List CanonicalValue
  | [] => []
  | item :: later => canonical item :: canonicalItems later

def canonicalEntries : List (List CodePoint × Value) → List (Bytes × CanonicalValue)
  | [] => []
  | (key, item) :: later => (utf8 key, canonical item) :: canonicalEntries later
end

mutual
/-- The keys of every `dict` are distinct. -/
def KeysDistinct : Value → Prop
  | .sequence items | .set items => KeysDistinctItems items
  | .dict entries => (entries.map Prod.fst).Nodup ∧ KeysDistinctEntries entries
  | _ => True

def KeysDistinctItems : List Value → Prop
  | [] => True
  | item :: later => KeysDistinct item ∧ KeysDistinctItems later

def KeysDistinctEntries : List (List CodePoint × Value) → Prop
  | [] => True
  | (_, item) :: later => KeysDistinct item ∧ KeysDistinctEntries later
end

end Pops.IdentityEncoding
