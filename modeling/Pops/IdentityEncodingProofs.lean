import Pops.IdentityEncoding
import Pops.CanonicalValueProofs

/-!
Both encoders accept the same values and give them the same bytes: the Python encoder
accepts a value exactly when the other side can hold it and accepts it, too.
-/
namespace Pops.IdentityEncoding
open CanonicalValue (appendUint appendText validUtf8 NotAfter lengthFirstLess hasDuplicate Fits Encodes)

theorem byteOf_val {value : ℕ} (small : value < 256) : (byteOf value).val = value := Nat.mod_eq_of_lt small

theorem continues {next : Fin 256} {bits : ℕ} (value : next.val = 0x80 + bits % 64) (code : ℕ) :
    CanonicalValue.isContinuation next = true ∧ CanonicalValue.extend code next = code * 64 + bits % 64 := by
  constructor
  · simp only [CanonicalValue.isContinuation, value, decide_eq_true_eq]
    omega
  · rw [CanonicalValue.extend, value]
    omega

theorem validCode_iff {minimum code : ℕ} (low : minimum ≤ code) (high : code < 0x110000) :
    CanonicalValue.validCode minimum code = !(0xd800 ≤ code && code ≤ 0xdfff) := by
  simp [CanonicalValue.validCode, Nat.not_lt.mpr low, show ¬1114111 < code by omega]

theorem validUtf8_one {a : Fin 256} {rest : Bytes} (first : a.val < 0x80) : validUtf8 (a :: rest) = validUtf8 rest := by
  rw [CanonicalValue.validUtf8.eq_def]
  simp [show a.val ≤ 127 by omega]

theorem validUtf8_two {a b : Fin 256} (rest : Bytes) {code : ℕ} (first : a.val = 0xc0 + code / 64)
    (second : b.val = 0x80 + code % 64) (low : 0x80 ≤ code) (high : code < 0x800) :
    validUtf8 (a :: b :: rest) = validUtf8 rest := by
  obtain ⟨follows, back⟩ := continues second (a.val % 32)
  have whole : a.val % 32 * 64 + code % 64 = code := by omega
  have lead : ¬a.val ≤ 0x7f ∧ 0xc2 ≤ a.val ∧ a.val ≤ 0xdf := by omega
  have plain : (!(0xd800 ≤ code && code ≤ 0xdfff)) = true := by simp [show ¬55296 ≤ code by omega]
  rw [validUtf8, if_neg lead.1, if_pos (by simpa using lead.2), back, whole, follows,
    validCode_iff low (by omega), plain]
  simp

theorem validUtf8_three {a b c : Fin 256} {rest : Bytes} {code : ℕ} (first : a.val = 0xe0 + code / 4096)
    (second : b.val = 0x80 + code / 64 % 64) (third : c.val = 0x80 + code % 64) (low : 0x800 ≤ code) (high : code < 0x10000) :
    validUtf8 (a :: b :: c :: rest) = (!(0xd800 ≤ code && code ≤ 0xdfff) && validUtf8 rest) := by
  obtain ⟨followsB, backB⟩ := continues second (a.val % 16)
  obtain ⟨followsC, backC⟩ := continues third (a.val % 16 * 64 + code / 64 % 64)
  have whole : (a.val % 16 * 64 + code / 64 % 64) * 64 + code % 64 = code := by omega
  have lead : ¬a.val ≤ 0x7f ∧ ¬(0xc2 ≤ a.val ∧ a.val ≤ 0xdf) ∧ 0xe0 ≤ a.val ∧ a.val ≤ 0xef := by omega
  rw [validUtf8, if_neg lead.1, if_neg (by simpa using lead.2.1), if_pos (by simpa using lead.2.2)]
  dsimp only
  rw [backB, backC, whole, followsB, followsC, validCode_iff low (by omega)]
  simp

theorem validUtf8_four {a b c d : Fin 256} (rest : Bytes) {code : ℕ} (first : a.val = 0xf0 + code / 262144)
    (second : b.val = 0x80 + code / 4096 % 64) (third : c.val = 0x80 + code / 64 % 64) (fourth : d.val = 0x80 + code % 64)
    (low : 0x10000 ≤ code) (high : code < 0x110000) : validUtf8 (a :: b :: c :: d :: rest) = validUtf8 rest := by
  obtain ⟨followsB, backB⟩ := continues second (a.val % 8)
  obtain ⟨followsC, backC⟩ := continues third (a.val % 8 * 64 + code / 4096 % 64)
  obtain ⟨followsD, backD⟩ := continues fourth ((a.val % 8 * 64 + code / 4096 % 64) * 64 + code / 64 % 64)
  have whole : ((a.val % 8 * 64 + code / 4096 % 64) * 64 + code / 64 % 64) * 64 + code % 64 = code := by omega
  have lead : ¬a.val ≤ 0x7f ∧ ¬(0xc2 ≤ a.val ∧ a.val ≤ 0xdf) ∧ ¬(0xe0 ≤ a.val ∧ a.val ≤ 0xef) ∧
      0xf0 ≤ a.val ∧ a.val ≤ 0xf4 := by omega
  have plain : (!(0xd800 ≤ code && code ≤ 0xdfff)) = true := by simp [show ¬code ≤ 57343 by omega]
  rw [validUtf8, if_neg lead.1, if_neg (by simpa using lead.2.1), if_neg (by simpa using lead.2.2.1),
    if_pos (by simpa using lead.2.2.2)]
  dsimp only
  rw [backB, backC, backD, whole, followsB, followsC, followsD, validCode_iff low high, plain]
  simp

theorem validUtf8_point (point : CodePoint) (rest : Bytes) :
    validUtf8 (utf8Point point ++ rest) = (!isSurrogate point && validUtf8 rest) := by
  obtain ⟨code, small⟩ := point
  simp only [utf8Point, isSurrogate]
  split
  · rename_i one
    rw [List.singleton_append, validUtf8_one (by rw [byteOf_val (by omega)]; exact one)]
    simp [show ¬55296 ≤ code by omega]
  · rename_i one
    split
    · rename_i two
      have read := validUtf8_two rest (byteOf_val (show 0xc0 + code / 64 < 256 by omega))
        (byteOf_val (show 0x80 + code % 64 < 256 by omega)) (by omega) two
      rw [List.cons_append, List.singleton_append, read]
      simp [show ¬55296 ≤ code by omega]
    · rename_i two
      split
      · rename_i three
        exact validUtf8_three (byteOf_val (show 0xe0 + code / 4096 < 256 by omega))
          (byteOf_val (show 0x80 + code / 64 % 64 < 256 by omega)) (byteOf_val (show 0x80 + code % 64 < 256 by omega))
          (by omega) three
      · rename_i three
        have read := validUtf8_four rest (byteOf_val (show 0xf0 + code / 262144 < 256 by omega))
          (byteOf_val (show 0x80 + code / 4096 % 64 < 256 by omega)) (byteOf_val (show 0x80 + code / 64 % 64 < 256 by omega))
          (byteOf_val (show 0x80 + code % 64 < 256 by omega)) (by omega) small
        simp only [List.cons_append, List.nil_append, read]
        simp [show ¬code ≤ 57343 by omega]

theorem validUtf8_utf8 (text : List CodePoint) : validUtf8 (utf8 text) = !text.any isSurrogate := by
  induction text with
  | nil => rfl
  | cons point text ih =>
    have step := validUtf8_point point (utf8 text)
    simp only [utf8, List.flatMap_cons, List.any_cons, Bool.not_or] at step ih ⊢
    rw [step, ih]

/-- The number of the character in front, and what follows it. -/
def readPoint (bytes : Bytes) : ℕ × Bytes :=
  let byte index := (bytes.getD index (byteOf 0)).val
  if byte 0 < 0x80 then (byte 0, bytes.drop 1)
  else if byte 0 < 0xe0 then (byte 0 % 32 * 64 + byte 1 % 64, bytes.drop 2)
  else if byte 0 < 0xf0 then ((byte 0 % 16 * 64 + byte 1 % 64) * 64 + byte 2 % 64, bytes.drop 3)
  else (((byte 0 % 8 * 64 + byte 1 % 64) * 64 + byte 2 % 64) * 64 + byte 3 % 64, bytes.drop 4)

theorem readPoint_utf8Point (point : CodePoint) (rest : Bytes) : readPoint (utf8Point point ++ rest) = (point.val, rest) := by
  obtain ⟨code, small⟩ := point
  simp only [utf8Point]
  split
  · rename_i one
    have first : (byteOf code).val = code := byteOf_val (by omega)
    simp only [readPoint, List.singleton_append, List.getD_cons_zero, first, if_pos one, List.drop_succ_cons, List.drop_zero]
  · split
    · have first : (byteOf (0xc0 + code / 64)).val = 0xc0 + code / 64 := byteOf_val (by omega)
      have second : (byteOf (0x80 + code % 64)).val = 0x80 + code % 64 := byteOf_val (by omega)
      simp only [readPoint, List.cons_append, List.nil_append, List.getD_cons_zero, List.getD_cons_succ, first, second,
        List.drop_succ_cons, List.drop_zero]
      rw [if_neg (by omega), if_pos (by omega), Prod.mk.injEq]
      exact ⟨by omega, rfl⟩
    · split
      · have first : (byteOf (0xe0 + code / 4096)).val = 0xe0 + code / 4096 := byteOf_val (by omega)
        have second : (byteOf (0x80 + code / 64 % 64)).val = 0x80 + code / 64 % 64 := byteOf_val (by omega)
        have third : (byteOf (0x80 + code % 64)).val = 0x80 + code % 64 := byteOf_val (by omega)
        simp only [readPoint, List.cons_append, List.nil_append, List.getD_cons_zero, List.getD_cons_succ, first, second,
          third, List.drop_succ_cons, List.drop_zero]
        rw [if_neg (by omega), if_neg (by omega), if_pos (by omega), Prod.mk.injEq]
        exact ⟨by omega, rfl⟩
      · have first : (byteOf (0xf0 + code / 262144)).val = 0xf0 + code / 262144 := byteOf_val (by omega)
        have second : (byteOf (0x80 + code / 4096 % 64)).val = 0x80 + code / 4096 % 64 := byteOf_val (by omega)
        have third : (byteOf (0x80 + code / 64 % 64)).val = 0x80 + code / 64 % 64 := byteOf_val (by omega)
        have fourth : (byteOf (0x80 + code % 64)).val = 0x80 + code % 64 := byteOf_val (by omega)
        simp only [readPoint, List.cons_append, List.nil_append, List.getD_cons_zero, List.getD_cons_succ, first, second,
          third, fourth, List.drop_succ_cons, List.drop_zero]
        rw [if_neg (by omega), if_neg (by omega), if_neg (by omega), Prod.mk.injEq]
        exact ⟨by omega, rfl⟩

theorem utf8Point_inj {left right : CodePoint} {first second : Bytes}
    (same : utf8Point left ++ first = utf8Point right ++ second) : left = right ∧ first = second := by
  have read := congrArg readPoint same
  rw [readPoint_utf8Point, readPoint_utf8Point, Prod.mk.injEq] at read
  exact ⟨Fin.ext read.1, read.2⟩

theorem utf8Point_ne_nil (point : CodePoint) : utf8Point point ≠ [] := by
  simp only [utf8Point]
  split_ifs <;> exact List.cons_ne_nil _ _

theorem utf8_injective : Function.Injective utf8 := by
  intro left
  induction left with
  | nil =>
    intro right same
    cases right with
    | nil => rfl
    | cons point right =>
      simp only [utf8, List.flatMap_nil, List.flatMap_cons] at same
      exact absurd (List.append_eq_nil_iff.mp same.symm).1 (utf8Point_ne_nil point)
  | cons point left ih =>
    intro right same
    cases right with
    | nil =>
      simp only [utf8, List.flatMap_nil, List.flatMap_cons] at same
      exact absurd (List.append_eq_nil_iff.mp same).1 (utf8Point_ne_nil point)
    | cons other right =>
      simp only [utf8, List.flatMap_cons] at same
      obtain ⟨rfl, tails⟩ := utf8Point_inj same
      rw [ih tails]

variable {bytes : Bytes} {items : List Value} {entries : List (List CodePoint × Value)}
  {parts : List (Bytes × Bytes)}

theorem head_ok {major argument : ℕ} :
    head major argument = .ok bytes ↔ argument < 18446744073709551616 ∧ bytes = appendUint major argument := by
  have accepted {read : Bytes} (small : argument < 18446744073709551616) :
      (Except.ok read : Checked Bytes) = .ok bytes ↔ argument < 18446744073709551616 ∧ bytes = read := by
    rw [Except.ok.injEq, eq_comm]
    exact ⟨fun same => ⟨small, same⟩, fun held => held.2⟩
  simp only [head, appendUint, toBytes]
  split_ifs with one two three four five
  · exact accepted (by omega)
  · exact accepted (by omega)
  · exact accepted (by omega)
  · exact accepted (by omega)
  · exact accepted (by omega)
  · exact iff_of_false (by simp) (fun held => absurd held.1 (by omega))

theorem encodeInt_ok {value : ℤ} :
    encodeInt value = .ok bytes ↔ Fits (.int value) ∧ CanonicalValue.encode (.int value) = .ok bytes := by
  have range : ¬(value < -9223372036854775808 ∨ value > 9223372036854775807) ↔ Fits (.int value) := by
    simp only [Fits]
    omega
  simp only [encodeInt, bind_ok, unit_exists, throwIf_ok, range]
  refine and_congr_right fun fits => ?_
  simp only [Fits] at fits
  simp only [CanonicalValue.encode]
  split
  · rw [head_ok, Except.ok.injEq, eq_comm]
    exact ⟨fun held => held.2, fun same => ⟨by omega, same⟩⟩
  · have number : (-1 - value).toNat = (-(value + 1)).toNat := by omega
    rw [head_ok, Except.ok.injEq, eq_comm, number]
    exact ⟨fun held => held.2, fun same => ⟨by omega, same⟩⟩

theorem encodeStr_ok {text : List CodePoint} :
    encodeStr text = .ok bytes ↔ (utf8 text).length < 18446744073709551616 ∧ appendText (utf8 text) = .ok bytes := by
  simp only [encodeStr, encodeUtf8, bind_ok, unit_exists, throwIf_ok, pure_ok, head_ok, appendText, validUtf8_utf8]
  constructor
  · rintro ⟨_, ⟨plain, rfl⟩, _, ⟨small, rfl⟩, rfl⟩
    exact ⟨small, by simpa using plain, rfl⟩
  · rintro ⟨small, plain, rfl⟩
    exact ⟨_, ⟨by simpa using plain, rfl⟩, _, ⟨small, rfl⟩, rfl⟩

theorem sortsBefore_eq (left right : Bytes) : sortsBefore left right = lengthFirstLess left right := by
  simp only [sortsBefore, lengthFirstLess]
  by_cases same : left.length = right.length
  · simp [same]
  · simp [same]

theorem neighboursEqual_eq (items : List Bytes) : neighboursEqual items = hasDuplicate items := by
  induction items with
  | nil => rfl
  | cons first rest ih =>
    cases rest with
    | nil => rfl
    | cons second rest =>
      rw [hasDuplicate, ← ih]
      simp [neighboursEqual, beq_eq_decide]

theorem notBefore_iff (left right : Bytes) : (sortsBefore right left = false) = NotAfter left right := by
  rw [sortsBefore_eq, NotAfter]

theorem setTag_eq : setTag = appendUint 6 258 := by decide

theorem induct {motive : Value → Prop} (none : motive .none) (bool : ∀ value, motive (.bool value))
    (int : ∀ value, motive (.int value)) (str : ∀ value, motive (.str value)) (bytes : ∀ value, motive (.bytes value))
    (sequence : ∀ items, (∀ item ∈ items, motive item) → motive (.sequence items))
    (dict : ∀ entries, (∀ entry ∈ entries, motive entry.2) → motive (.dict entries))
    (set : ∀ items, (∀ item ∈ items, motive item) → motive (.set items)) (value : Value) : motive value := by
  refine @Value.rec motive (fun items => ∀ item ∈ items, motive item)
    (fun entries => ∀ entry ∈ entries, motive entry.2) (fun entry => motive entry.2) none bool int str bytes sequence dict
    set ?_ ?_ ?_ ?_ ?_ value
  · simp
  · intro item later here there
    exact List.forall_mem_cons.mpr ⟨here, there⟩
  · simp
  · intro entry later here there
    exact List.forall_mem_cons.mpr ⟨here, there⟩
  · exact fun _ _ holds => holds

/-- The two encoders agree on a value. -/
def Agree (value : Value) : Prop :=
  ∀ bytes, encode value = .ok bytes ↔ Fits (canonical value) ∧ CanonicalValue.encode (canonical value) = .ok bytes

theorem keysDistinctItems_iff : KeysDistinctItems items ↔ ∀ item ∈ items, KeysDistinct item := by
  induction items with
  | nil => simp [KeysDistinctItems]
  | cons item later ih => simp [KeysDistinctItems, ih]

theorem keysDistinctEntries_iff :
    KeysDistinctEntries entries ↔ ∀ entry ∈ entries, KeysDistinct entry.2 := by
  induction entries with
  | nil => simp [KeysDistinctEntries]
  | cons entry later ih =>
    obtain ⟨key, item⟩ := entry
    simp [KeysDistinctEntries, ih]

theorem canonicalItems_length (items : List Value) : (canonicalItems items).length = items.length := by
  induction items with
  | nil => rfl
  | cons item later ih => rw [canonicalItems, List.length_cons, List.length_cons, ih]

theorem canonicalEntries_eq (entries : List (List CodePoint × Value)) :
    canonicalEntries entries = entries.map fun entry => (utf8 entry.1, canonical entry.2) := by
  induction entries with
  | nil => rfl
  | cons entry later ih => rw [canonicalEntries, ih, List.map_cons]

theorem encodeItems_length (items : List Value) : (encodeItems items).length = items.length := by
  induction items with
  | nil => rfl
  | cons item later ih => rw [encodeItems, List.length_cons, List.length_cons, ih]

theorem items_ok (agree : ∀ item ∈ items, Agree item) {parts : List Bytes} :
    (encodeItems items).mapM id = .ok parts ↔
      CanonicalValue.FitsItems (canonicalItems items) ∧ Encodes (canonicalItems items) parts := by
  induction items generalizing parts with
  | nil =>
    simp only [encodeItems, canonicalItems, CanonicalValue.FitsItems, true_and, Encodes, List.forall₂_nil_left_iff,
      List.mapM_nil, pure_ok]
    exact eq_comm
  | cons item later ih =>
    obtain ⟨here, there⟩ := List.forall_mem_cons.mp agree
    simp only [encodeItems, canonicalItems, CanonicalValue.FitsItems, Encodes, List.mapM_cons, bind_ok, pure_ok, id_eq,
      here _, ih there, List.forall₂_cons_left_iff]
    constructor
    · rintro ⟨part, ⟨fits, ran⟩, rest, ⟨fitsLater, ranLater⟩, rfl⟩
      exact ⟨⟨fits, fitsLater⟩, part, rest, ran, ranLater, rfl⟩
    · rintro ⟨⟨fits, fitsLater⟩, part, rest, ran, ranLater, rfl⟩
      exact ⟨part, ⟨fits, ran⟩, rest, ⟨fitsLater, ranLater⟩, rfl⟩

theorem entries_ok (agree : ∀ entry ∈ entries, Agree entry.2) :
    (encodeEntries entries).mapM encodeEntry = .ok parts ↔
      CanonicalValue.FitsEntries (canonicalEntries entries) ∧
        CanonicalValue.EncodesEntries (canonicalEntries entries) parts := by
  induction entries generalizing parts with
  | nil =>
    simp only [encodeEntries, canonicalEntries, CanonicalValue.FitsEntries, true_and, CanonicalValue.EncodesEntries,
      List.forall₂_nil_left_iff, List.mapM_nil, pure_ok]
    exact eq_comm
  | cons entry later ih =>
    obtain ⟨key, item⟩ := entry
    obtain ⟨here, there⟩ := List.forall_mem_cons.mp agree
    simp only [encodeEntries, canonicalEntries, CanonicalValue.FitsEntries, CanonicalValue.EncodesEntries, List.mapM_cons,
      bind_ok, pure_ok, encodeEntry, encodeStr_ok, here _, ih there, List.forall₂_cons_left_iff]
    constructor
    · rintro ⟨_, ⟨text, ⟨short, keyRan⟩, body, ⟨fits, ran⟩, rfl⟩, rest, ⟨fitsLater, ranLater⟩, rfl⟩
      exact ⟨⟨short, fits, fitsLater⟩, _, rest, ⟨keyRan, ran⟩, ranLater, rfl⟩
    · rintro ⟨⟨short, fits, fitsLater⟩, ⟨text, body⟩, rest, ⟨keyRan, ran⟩, ranLater, rfl⟩
      exact ⟨_, ⟨text, ⟨short, keyRan⟩, body, ⟨fits, ran⟩, rfl⟩, rest, ⟨fitsLater, ranLater⟩, rfl⟩

theorem keys_distinct (distinct : (entries.map Prod.fst).Nodup)
    (fits : CanonicalValue.FitsEntries (canonicalEntries entries))
    (ran : CanonicalValue.EncodesEntries (canonicalEntries entries) parts) : (parts.map Prod.fst).Nodup := by
  induction entries generalizing parts with
  | nil =>
    cases ran
    exact List.nodup_nil
  | cons entry later ih =>
    obtain ⟨key, item⟩ := entry
    rw [canonicalEntries, CanonicalValue.FitsEntries] at fits
    rw [canonicalEntries] at ran
    cases ran with
    | @cons _ part _ rest first others =>
      rw [List.map_cons, List.nodup_cons] at distinct ⊢
      refine ⟨fun member => distinct.1 ?_, ih distinct.2 fits.2.2 others⟩
      obtain ⟨other, listed, same⟩ := List.mem_map.mp member
      obtain ⟨source, listedSource, otherRan, -⟩ := CanonicalValue.EncodesEntries.mem others listed
      have otherFits := (CanonicalValue.fitsEntries_iff.mp fits.2.2 source listedSource).1
      have equal := CanonicalValue.appendText_inj fits.1 otherFits first.1 (same ▸ otherRan)
      rw [canonicalEntries_eq] at listedSource
      obtain ⟨origin, listedOrigin, rfl⟩ := List.mem_map.mp listedSource
      exact List.mem_map.mpr ⟨origin, listedOrigin, (utf8_injective equal).symm⟩

theorem sorted_strict (distinct : (parts.map Prod.fst).Nodup) :
    CanonicalValue.Ordered Prod.fst (parts.insertionSort fun left right => NotAfter left.1 right.1) := by
  have weak := CanonicalValue.sorted_pairwise Prod.fst parts
  have same := List.perm_insertionSort (fun left right : Bytes × Bytes => NotAfter left.1 right.1) parts
  have apart : ((parts.insertionSort fun left right => NotAfter left.1 right.1).map Prod.fst).Nodup :=
    (same.map Prod.fst).nodup_iff.mpr distinct
  rw [List.nodup_iff_pairwise_ne, List.pairwise_map] at apart
  exact (weak.and apart).imp fun held => lt_of_le_of_ne held.1 fun equal => held.2 (CanonicalValue.rank_injective equal)

theorem agree_sequence (agree : ∀ item ∈ items, Agree item) : Agree (.sequence items) := by
  intro bytes
  simp only [encode, encodeSequence, bind_ok, pure_ok, head_ok, encodeItems_length, items_ok agree, canonical, Fits,
    canonicalItems_length, CanonicalValue.array_ok]
  constructor
  · rintro ⟨_, ⟨small, rfl⟩, parts, ⟨fits, ran⟩, rfl⟩
    have sized : items.length = parts.length := (canonicalItems_length items).symm.trans ran.length
    exact ⟨⟨small, fits⟩, parts, ran, by rw [sized]⟩
  · rintro ⟨⟨small, fits⟩, parts, ran, rfl⟩
    have sized : items.length = parts.length := (canonicalItems_length items).symm.trans ran.length
    exact ⟨_, ⟨small, rfl⟩, parts, ⟨fits, ran⟩, by rw [sized]⟩

theorem agree_dict (distinct : (entries.map Prod.fst).Nodup)
    (agree : ∀ entry ∈ entries, Agree entry.2) : Agree (.dict entries) := by
  intro bytes
  simp only [encode, encodeDict, bind_ok, pure_ok, head_ok, entries_ok agree, canonical, Fits, CanonicalValue.map_ok,
    notBefore_iff]
  have sized : (canonicalEntries entries).length = entries.length := by rw [canonicalEntries_eq, List.length_map]
  constructor
  · rintro ⟨parts, ⟨fits, ran⟩, _, ⟨small, rfl⟩, rfl⟩
    refine ⟨⟨?_, fits⟩, parts, _, ran, List.perm_insertionSort _ parts, sorted_strict (keys_distinct distinct fits ran), ?_⟩
    · rwa [List.length_insertionSort, ← ran.length] at small
    · rw [List.length_map]
      rfl
  · rintro ⟨⟨small, fits⟩, parts, ordered, ran, same, increasing, rfl⟩
    have sorted := CanonicalValue.insertionSort_eq Prod.fst increasing same
    refine ⟨parts, ⟨fits, ran⟩, _, ⟨?_, rfl⟩, ?_⟩
    · rwa [List.length_insertionSort, ← ran.length]
    · rw [sorted, List.length_map]
      rfl

theorem agree_set (agree : ∀ item ∈ items, Agree item) : Agree (.set items) := by
  intro bytes
  simp only [encode, encodeSet, bind_ok, pure_ok, head_ok, items_ok agree, canonical, Fits, CanonicalValue.set_ok,
    notBefore_iff, unit_exists, throwIf_ok, Bool.not_eq_true, neighboursEqual_eq]
  have strict (parts : List Bytes) := CanonicalValue.sorted_ordered id parts
  simp only [List.map_id_fun, id_eq] at strict
  constructor
  · rintro ⟨parts, ⟨fits, ran⟩, single, _, ⟨small, rfl⟩, rfl⟩
    refine ⟨⟨?_, fits⟩, parts, _, ran, List.perm_insertionSort _ parts, (strict parts).mp single, ?_⟩
    · rwa [List.length_insertionSort, ← ran.length] at small
    · rw [setTag_eq, List.append_assoc]
  · rintro ⟨⟨small, fits⟩, parts, ordered, ran, same, increasing, rfl⟩
    have sorted := CanonicalValue.insertionSort_eq id increasing same
    simp only [id_eq] at sorted
    refine ⟨parts, ⟨fits, ran⟩, ?_, _, ⟨?_, rfl⟩, ?_⟩
    · rw [strict, sorted]
      exact increasing
    · rwa [List.length_insertionSort, ← ran.length]
    · rw [sorted, setTag_eq, List.append_assoc]

/-- The Python encoder accepts a value exactly when the other side can hold it and accepts
it, with the same bytes. -/
theorem encode_ok_iff (value : Value) (distinct : KeysDistinct value) (bytes : Bytes) :
    encode value = .ok bytes ↔ Fits (canonical value) ∧ CanonicalValue.encode (canonical value) = .ok bytes := by
  suffices agree : Agree value from agree bytes
  induction value using induct with
  | none =>
    intro bytes
    simp [encode, canonical, Fits, CanonicalValue.encode]
  | bool value =>
    intro bytes
    simp [encode, canonical, Fits, CanonicalValue.encode]
  | int value =>
    intro bytes
    rw [encode, canonical]
    exact encodeInt_ok
  | str value =>
    intro bytes
    rw [encode, canonical, Fits, CanonicalValue.encode]
    exact encodeStr_ok
  | bytes value =>
    intro bytes
    simp only [encode, canonical, Fits, CanonicalValue.encode, bind_ok, head_ok, pure_ok, Except.ok.injEq]
    constructor
    · rintro ⟨_, ⟨small, rfl⟩, rfl⟩
      exact ⟨small, rfl⟩
    · rintro ⟨small, rfl⟩
      exact ⟨_, ⟨small, rfl⟩, rfl⟩
  | sequence items each =>
    rw [KeysDistinct, keysDistinctItems_iff] at distinct
    exact agree_sequence fun item listed => each item listed (distinct item listed)
  | dict entries each =>
    rw [KeysDistinct, keysDistinctEntries_iff] at distinct
    exact agree_dict distinct.1 fun entry listed => each entry listed (distinct.2 entry listed)
  | set items each =>
    rw [KeysDistinct, keysDistinctItems_iff] at distinct
    exact agree_set fun item listed => each item listed (distinct item listed)

/-- A map with a text that is not ASCII, and a set. -/
def sampleValue : Value := .dict [([⟨0x64, by omega⟩], .set [.int (-1), .bool true]), ([⟨0xe9, by omega⟩], .none)]

def sampleBytes : Bytes :=
  [0xa2, 0x61, 0x64, 0xd9, 0x01, 0x02, 0x82, 0x20, 0xf5, 0x62, 0xc3, 0xa9, 0xf6].map byteOf

theorem sample_encode_ok_iff :
    encode sampleValue = .ok sampleBytes ↔
      Fits (canonical sampleValue) ∧ CanonicalValue.encode (canonical sampleValue) = .ok sampleBytes :=
  encode_ok_iff sampleValue (by simp [sampleValue, KeysDistinct, KeysDistinctEntries, KeysDistinctItems]) sampleBytes

example : encode sampleValue = .ok sampleBytes := by decide +kernel

end Pops.IdentityEncoding
