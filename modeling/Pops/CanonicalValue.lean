import Mathlib.Data.List.Sort
import Pops.ByteCodec

/-!
`core/identity/canonical_value.hpp`: identity values and their deterministic
CBOR bytes. A value that has no encoding (text that is not UTF-8, a key or an
element twice) throws.
-/
namespace Pops

/-- `CanonicalValue`. -/
inductive CanonicalValue where
  | null
  | bool (value : Bool)
  | int (value : ℤ)
  | text (value : Bytes)
  | bytes (value : Bytes)
  | array (items : List CanonicalValue)
  | map (entries : List (Bytes × CanonicalValue))
  | set (items : List CanonicalValue)

namespace CanonicalValue

/-! ### `valid_utf8` -/

/-- `(next & 0xc0) == 0x80`. -/
def isContinuation (next : Fin 256) : Bool := next.val / 64 = 2

/-- The code after one more byte. -/
def extend (code : ℕ) (next : Fin 256) : ℕ := code * 64 + next.val % 64

/-- The last check on a code. -/
def validCode (minimum code : ℕ) : Bool :=
  !(code < minimum || code > 0x10ffff || (0xd800 ≤ code && code ≤ 0xdfff))

/-- `valid_utf8`. -/
def validUtf8 : Bytes → Bool
  | [] => true
  | first :: rest =>
    if first.val ≤ 0x7f then validUtf8 rest
    else if 0xc2 ≤ first.val && first.val ≤ 0xdf then
      match rest with
      | a :: later => isContinuation a && validCode 0x80 (extend (first.val % 32) a) && validUtf8 later
      | _ => false
    else if 0xe0 ≤ first.val && first.val ≤ 0xef then
      match rest with
      | a :: b :: later => isContinuation a && isContinuation b &&
          validCode 0x800 (extend (extend (first.val % 16) a) b) && validUtf8 later
      | _ => false
    else if 0xf0 ≤ first.val && first.val ≤ 0xf4 then
      match rest with
      | a :: b :: c :: later => isContinuation a && isContinuation b && isContinuation c &&
          validCode 0x10000 (extend (extend (extend (first.val % 8) a) b) c) && validUtf8 later
      | _ => false
    else false

/-! ### The encoding -/

/-- The `count` low bytes of a number, the highest first. -/
def bigEndian (count value : ℕ) : Bytes := (littleEndian count value).reverse

/-- `append_uint`. -/
def appendUint (major value : ℕ) : Bytes :=
  if value < 24 then [byteOf (major * 32 + value)]
  else if value ≤ 0xff then byteOf (major * 32 + 24) :: bigEndian 1 value
  else if value ≤ 0xffff then byteOf (major * 32 + 25) :: bigEndian 2 value
  else if value ≤ 0xffffffff then byteOf (major * 32 + 26) :: bigEndian 4 value
  else byteOf (major * 32 + 27) :: bigEndian 8 value

/-- `length_first_less`. -/
def lengthFirstLess (left right : Bytes) : Bool :=
  if left.length ≠ right.length then left.length < right.length else left < right

/-- What `std::sort` leaves in order. -/
def NotAfter (left right : Bytes) : Prop := lengthFirstLess right left = false

instance (left right : Bytes) : Decidable (NotAfter left right) := inferInstanceAs (Decidable (_ = _))

/-- Two neighbours are the same. -/
def hasDuplicate : List Bytes → Bool
  | first :: second :: rest => first = second || hasDuplicate (second :: rest)
  | _ => false

/-- `append_text`. -/
def appendText (text : Bytes) : Checked Bytes := do
  throwIf (validUtf8 text = false) (.invalidArgument "canonical identity text is not valid UTF-8")
  return appendUint 3 text.length ++ text

/-- The bytes of an array, from those of its items. -/
def arrayBytes (encoded : List (Checked Bytes)) : Checked Bytes := do
  let items ← encoded.mapM id
  return appendUint 4 items.length ++ items.flatten

/-- The bytes of a set, from those of its items. -/
def setBytes (encoded : List (Checked Bytes)) : Checked Bytes := do
  let items ← encoded.mapM id
  let sorted := items.insertionSort NotAfter
  throwIf (hasDuplicate sorted = true) (.invalidArgument "canonical identity set has duplicate canonical elements")
  return appendUint 6 258 ++ appendUint 4 sorted.length ++ sorted.flatten

/-- The key of an entry, next to the encoding of its value. -/
def entryKey (entry : Bytes × Checked Bytes) : Checked (Bytes × Checked Bytes) := do
  let key ← appendText entry.1
  return (key, entry.2)

/-- The bytes of an entry. -/
def entryBytes (entry : Bytes × Checked Bytes) : Checked Bytes := do
  let value ← entry.2
  return entry.1 ++ value

/-- The bytes of a map, from its texts and the encodings of its values. -/
def mapBytes (encoded : List (Bytes × Checked Bytes)) : Checked Bytes := do
  let entries ← encoded.mapM entryKey
  let sorted := entries.insertionSort fun left right => NotAfter left.1 right.1
  throwIf (hasDuplicate (sorted.map Prod.fst) = true)
    (.invalidArgument "canonical identity map has a duplicate key")
  let body ← sorted.mapM entryBytes
  return appendUint 5 sorted.length ++ body.flatten

mutual
/-- `encode_into`, and `canonical_bytes`. -/
def encode : CanonicalValue → Checked Bytes
  | null => .ok [byteOf 0xf6]
  | bool value => .ok [byteOf (if value then 0xf5 else 0xf4)]
  | int value =>
    if value ≥ 0 then .ok (appendUint 0 value.toNat) else .ok (appendUint 1 (-(value + 1)).toNat)
  | text value => appendText value
  | bytes value => .ok (appendUint 2 value.length ++ value)
  | array items => arrayBytes (encodeItems items)
  | map entries => mapBytes (encodeEntries entries)
  | set items => setBytes (encodeItems items)

/-- The encodings of items. -/
def encodeItems : List CanonicalValue → List (Checked Bytes)
  | [] => []
  | item :: later => encode item :: encodeItems later

/-- The texts of entries, next to the encodings of their values. -/
def encodeEntries : List (Bytes × CanonicalValue) → List (Bytes × Checked Bytes)
  | [] => []
  | (key, value) :: later => (key, encode value) :: encodeEntries later
end

theorem encodeItems_eq (items : List CanonicalValue) : encodeItems items = items.map encode := by
  induction items with
  | nil => rfl
  | cons item later ih => rw [encodeItems, ih, List.map_cons]

theorem encodeEntries_eq (entries : List (Bytes × CanonicalValue)) :
    encodeEntries entries = entries.map fun entry => (entry.1, encode entry.2) := by
  induction entries with
  | nil => rfl
  | cons entry later ih => rw [encodeEntries, ih, List.map_cons]

/-! ### Equality up to order -/

mutual
/-- Equal up to the order of set elements and map entries, at every depth. -/
def Same : CanonicalValue → CanonicalValue → Prop
  | null, other => other = null
  | bool value, other => other = bool value
  | int value, other => other = int value
  | text value, other => other = text value
  | bytes value, other => other = bytes value
  | array items, other => ∃ others, other = array others ∧ SameItems items others
  | map entries, other => ∃ others reordered, other = map others ∧ reordered.Perm others ∧ SameEntries entries reordered
  | set items, other => ∃ others reordered, other = set others ∧ reordered.Perm others ∧ SameItems items reordered

def SameItems : List CanonicalValue → List CanonicalValue → Prop
  | [], others => others = []
  | item :: later, others => ∃ other rest, others = other :: rest ∧ Same item other ∧ SameItems later rest

def SameEntries : List (Bytes × CanonicalValue) → List (Bytes × CanonicalValue) → Prop
  | [], others => others = []
  | (key, value) :: later, others =>
    ∃ other rest, others = (key, other) :: rest ∧ Same value other ∧ SameEntries later rest
end

theorem sameItems_iff {items others : List CanonicalValue} : SameItems items others ↔ List.Forall₂ Same items others := by
  induction items generalizing others with
  | nil => simp [SameItems]
  | cons item later ih =>
    simp only [SameItems, ih, List.forall₂_cons_left_iff]
    constructor
    · rintro ⟨other, rest, rfl, same, sames⟩
      exact ⟨other, rest, same, sames, rfl⟩
    · rintro ⟨other, rest, same, sames, rfl⟩
      exact ⟨other, rest, rfl, same, sames⟩

theorem sameEntries_iff {entries others : List (Bytes × CanonicalValue)} :
    SameEntries entries others ↔
      List.Forall₂ (fun entry other => entry.1 = other.1 ∧ Same entry.2 other.2) entries others := by
  induction entries generalizing others with
  | nil => simp [SameEntries]
  | cons entry later ih =>
    obtain ⟨key, value⟩ := entry
    simp only [SameEntries, ih, List.forall₂_cons_left_iff]
    constructor
    · rintro ⟨other, rest, rfl, same, sames⟩
      exact ⟨(key, other), rest, ⟨rfl, same⟩, sames, rfl⟩
    · rintro ⟨⟨_, other⟩, rest, ⟨rfl, same⟩, sames, rfl⟩
      exact ⟨other, rest, rfl, same, sames⟩

/-! ### What a value of the source can be -/

mutual
/-- Integers are `std::int64_t`, and sizes are `std::size_t`. -/
def Fits : CanonicalValue → Prop
  | null => True
  | bool _ => True
  | int value => -9223372036854775808 ≤ value ∧ value ≤ 9223372036854775807
  | text value => value.length < 18446744073709551616
  | bytes value => value.length < 18446744073709551616
  | array items => items.length < 18446744073709551616 ∧ FitsItems items
  | map entries => entries.length < 18446744073709551616 ∧ FitsEntries entries
  | set items => items.length < 18446744073709551616 ∧ FitsItems items

def FitsItems : List CanonicalValue → Prop
  | [] => True
  | item :: later => Fits item ∧ FitsItems later

def FitsEntries : List (Bytes × CanonicalValue) → Prop
  | [] => True
  | (key, value) :: later => key.length < 18446744073709551616 ∧ Fits value ∧ FitsEntries later
end

theorem fitsItems_iff {items : List CanonicalValue} : FitsItems items ↔ ∀ item ∈ items, Fits item := by
  induction items with
  | nil => simp [FitsItems]
  | cons item later ih => simp [FitsItems, ih]

theorem fitsEntries_iff {entries : List (Bytes × CanonicalValue)} :
    FitsEntries entries ↔ ∀ entry ∈ entries, entry.1.length < 18446744073709551616 ∧ Fits entry.2 := by
  induction entries with
  | nil => simp [FitsEntries]
  | cons entry later ih =>
    obtain ⟨key, value⟩ := entry
    simp only [FitsEntries, ih, List.forall_mem_cons, and_assoc]

end CanonicalValue

end Pops
