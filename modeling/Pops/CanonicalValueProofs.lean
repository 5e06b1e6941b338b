import Mathlib.Data.List.Perm.Basic
import Mathlib.Data.List.Lex
import Mathlib.Data.Prod.Lex
import Pops.CanonicalValue

/-!
The encoding is self-delimiting, so bytes determine the value they encode up to
the order of set elements and map entries; and it sorts both by bytes that are
their own, so it forgets just that order.
-/
namespace Pops.CanonicalValue

theorem induct {motive : CanonicalValue → Prop} (null : motive null) (bool : ∀ value, motive (bool value))
    (int : ∀ value, motive (int value)) (text : ∀ value, motive (text value)) (bytes : ∀ value, motive (bytes value))
    (array : ∀ items, (∀ item ∈ items, motive item) → motive (array items))
    (map : ∀ entries, (∀ entry ∈ entries, motive entry.2) → motive (map entries))
    (set : ∀ items, (∀ item ∈ items, motive item) → motive (set items)) (value : CanonicalValue) : motive value := by
  refine @CanonicalValue.rec motive (fun items => ∀ item ∈ items, motive item)
    (fun entries => ∀ entry ∈ entries, motive entry.2) (fun entry => motive entry.2) null bool int text bytes array map
    set ?_ ?_ ?_ ?_ ?_ value
  · simp
  · intro item later here there other listed
    rcases List.mem_cons.mp listed with rfl | deeper
    · exact here
    · exact there other deeper
  · simp
  · intro entry later here there other listed
    rcases List.mem_cons.mp listed with rfl | deeper
    · exact here
    · exact there other deeper
  · exact fun _ _ holds => holds

/-- Whatever follows them, two strings of bytes can only go on alike when they are the same. -/
def Separate (left right : Bytes) : Prop := ∀ first second, left ++ first = right ++ second → left = right

theorem Separate.append {left right leftTail rightTail : Bytes} (front : Separate left right)
    (back : left = right → Separate leftTail rightTail) : Separate (left ++ leftTail) (right ++ rightTail) := by
  intro first second same
  rw [List.append_assoc, List.append_assoc] at same
  have frontSame := front _ _ same
  subst frontSame
  rw [back rfl first second (List.append_cancel_left same)]

theorem separate_of_length {left right : Bytes} (length : left.length = right.length) : Separate left right :=
  fun _ _ same => (List.append_inj same length).1

variable {first second : Bytes} {items : List CanonicalValue} {parts : List Bytes}

theorem flatten_inj {left right : List Bytes} (length : left.length = right.length)
    (each : ∀ a ∈ left, ∀ b ∈ right, Separate a b)
    (same : left.flatten ++ first = right.flatten ++ second) : left = right := by
  induction left generalizing right with
  | nil => rw [List.length_eq_zero_iff.mp length.symm]
  | cons a left ih =>
    cases right with
    | nil => cases length
    | cons b right =>
      rw [List.flatten_cons, List.flatten_cons, List.append_assoc, List.append_assoc] at same
      have head := each a (by simp) b (by simp) _ _ same
      subst head
      rw [ih (Nat.succ.inj length) (fun a listed b other => each a (by simp [listed]) b (by simp [other]))
        (List.append_cancel_left same)]

@[simp]
theorem bigEndian_length (count value : ℕ) : (bigEndian count value).length = count := by
  simp [bigEndian]

theorem bigEndian_inj {count left right : ℕ} (leftSmall : left < 256 ^ count) (rightSmall : right < 256 ^ count)
    (same : bigEndian count left = bigEndian count right) : left = right := by
  have reversed : littleEndian count left = littleEndian count right := List.reverse_injective same
  have numbers := congrArg fromLittleEndian reversed
  rwa [fromLittleEndian_littleEndian, fromLittleEndian_littleEndian, Nat.mod_eq_of_lt leftSmall,
    Nat.mod_eq_of_lt rightSmall] at numbers

/-- The low bits of the first byte of a header. -/
def info (value : ℕ) : ℕ :=
  if value < 24 then value else if value ≤ 0xff then 24 else if value ≤ 0xffff then 25
  else if value ≤ 0xffffffff then 26 else 27

/-- How many bytes follow the first one. -/
def width (value : ℕ) : ℕ :=
  if value < 24 then 0 else if value ≤ 0xff then 1 else if value ≤ 0xffff then 2
  else if value ≤ 0xffffffff then 4 else 8

theorem appendUint_eq (major value : ℕ) :
    appendUint major value = byteOf (major * 32 + info value) :: bigEndian (width value) value := by
  unfold appendUint info width
  split_ifs <;> rfl

theorem info_lt (value : ℕ) : info value < 32 := by
  unfold info
  split_ifs <;> omega

theorem of_info {left right : ℕ} (same : info left = info right) :
    width left = width right ∧ (width left = 0 → left = right) := by
  unfold info at same
  unfold width
  constructor
  · split_ifs at same ⊢ <;> omega
  · intro none
    split_ifs at same none <;> omega

theorem lt_width {value : ℕ} (small : value < 18446744073709551616) (some : width value ≠ 0) :
    value < 256 ^ width value := by
  unfold width at some ⊢
  split_ifs at some ⊢ <;> omega

theorem appendUint_inj {major other left right : ℕ} (majorSmall : major < 8) (otherSmall : other < 8)
    (leftSmall : left < 18446744073709551616) (rightSmall : right < 18446744073709551616)
    (same : appendUint major left ++ first = appendUint other right ++ second) :
    major = other ∧ left = right ∧ first = second := by
  rw [appendUint_eq, appendUint_eq, List.cons_append, List.cons_append, List.cons.injEq] at same
  obtain ⟨head, tail⟩ := same
  have leftInfo := info_lt left
  have rightInfo := info_lt right
  have firstByte : (major * 32 + info left) % 256 = (other * 32 + info right) % 256 := congrArg Fin.val head
  have sameInfo : info left = info right := by omega
  obtain ⟨sameWidth, short⟩ := of_info sameInfo
  obtain ⟨digits, rest⟩ := List.append_inj tail (by rw [bigEndian_length, bigEndian_length, sameWidth])
  refine ⟨by omega, ?_, rest⟩
  by_cases none : width left = 0
  · exact short none
  · rw [← sameWidth] at digits
    exact bigEndian_inj (lt_width leftSmall none) (sameWidth ▸ lt_width rightSmall (sameWidth ▸ none)) digits

theorem separate_header {major left right : ℕ} (majorSmall : major < 8) (leftSmall : left < 18446744073709551616)
    (rightSmall : right < 18446744073709551616) : Separate (appendUint major left) (appendUint major right) := by
  intro first second same
  rw [(appendUint_inj majorSmall majorSmall leftSmall rightSmall same).2.1]

theorem separate_sized {major : ℕ} {left right : Bytes} (majorSmall : major < 8)
    (leftSmall : left.length < 18446744073709551616) (rightSmall : right.length < 18446744073709551616) :
    Separate (appendUint major left.length ++ left) (appendUint major right.length ++ right) := by
  refine (separate_header majorSmall leftSmall rightSmall).append fun same => separate_of_length ?_
  have headers := congrArg (· ++ []) same
  exact (appendUint_inj majorSmall majorSmall leftSmall rightSmall headers).2.1

/-- What `length_first_less` compares. -/
def rank (bytes : Bytes) : ℕ ×ₗ Bytes := toLex (bytes.length, bytes)

theorem lengthFirstLess_iff {left right : Bytes} : lengthFirstLess left right = true ↔ rank left < rank right := by
  rw [rank, rank, Prod.Lex.toLex_lt_toLex, lengthFirstLess]
  split
  · rename_i different
    simp only [decide_eq_true_eq, different, false_and, or_false]
  · rename_i same
    rw [ne_eq, not_not] at same
    simp only [decide_eq_true_eq, same, lt_irrefl, true_and, false_or]

theorem notAfter_iff {left right : Bytes} : NotAfter left right ↔ rank left ≤ rank right := by
  rw [NotAfter, ← Bool.not_eq_true, lengthFirstLess_iff, not_lt]

theorem rank_injective : Function.Injective rank := by
  intro left right same
  exact congrArg Prod.snd (toLex.injective same)

theorem hasDuplicate_iff {sorted : List Bytes} (order : sorted.Pairwise fun left right => rank left ≤ rank right) :
    hasDuplicate sorted = false ↔ sorted.Pairwise fun left right => rank left < rank right := by
  induction sorted with
  | nil => simp [hasDuplicate]
  | cons first rest ih =>
    cases rest with
    | nil => simp [hasDuplicate]
    | cons second rest =>
      obtain ⟨head, tail⟩ := List.pairwise_cons.mp order
      rw [hasDuplicate, Bool.or_eq_false_iff, decide_eq_false_iff_not, ih tail, List.pairwise_cons (a := first)]
      constructor
      · rintro ⟨different, increasing⟩
        have below : rank first < rank second :=
          lt_of_le_of_ne (head second (by simp)) fun same => different (rank_injective same)
        refine ⟨fun other listed => ?_, increasing⟩
        rcases List.mem_cons.mp listed with rfl | later
        · exact below
        · exact below.trans ((List.pairwise_cons.mp increasing).1 other later)
      · rintro ⟨below, increasing⟩
        exact ⟨fun same => (below second (by simp)).ne (congrArg rank same), increasing⟩

section
variable {α : Type} (key : α → Bytes)

/-- The parts in the order of their keys. -/
def Ordered (ordered : List α) : Prop := ordered.Pairwise fun left right => rank (key left) < rank (key right)

theorem sorted_pairwise (parts : List α) :
    (parts.insertionSort fun left right => NotAfter (key left) (key right)).Pairwise
      fun left right => rank (key left) ≤ rank (key right) := by
  have : Std.Total fun left right => NotAfter (key left) (key right) :=
    ⟨fun left right => by
      rw [notAfter_iff, notAfter_iff]
      exact le_total _ _⟩
  have : IsTrans α fun left right => NotAfter (key left) (key right) :=
    ⟨fun left middle right first second => by
      rw [notAfter_iff] at *
      exact first.trans second⟩
  exact (List.pairwise_insertionSort _ parts).imp notAfter_iff.mp

theorem sorted_ordered (parts : List α) :
    hasDuplicate ((parts.insertionSort fun left right => NotAfter (key left) (key right)).map key) = false ↔
      Ordered key (parts.insertionSort fun left right => NotAfter (key left) (key right)) := by
  rw [hasDuplicate_iff (List.pairwise_map.mpr (sorted_pairwise key parts)), List.pairwise_map]
  rfl

theorem insertionSort_eq {parts ordered : List α} (order : Ordered key ordered) (same : ordered.Perm parts) :
    (parts.insertionSort fun left right => NotAfter (key left) (key right)) = ordered := by
  have distinct : (ordered.map key).Nodup := by
    rw [List.nodup_iff_pairwise_ne, List.pairwise_map]
    exact order.imp fun below equal => below.ne (congrArg rank equal)
  have sortedSame := (List.perm_insertionSort (fun left right => NotAfter (key left) (key right)) parts).trans same.symm
  refine List.Perm.eq_of_pairwise (fun left right leftListed rightListed below above => ?_) (sorted_pairwise key parts)
    (order.imp le_of_lt) sortedSame
  exact List.inj_on_of_nodup_map distinct (sortedSame.subset leftListed) rightListed
    (rank_injective (le_antisymm below above))

end

/-- The items of a composite value, next to their encodings. -/
def Encodes (items : List CanonicalValue) (parts : List Bytes) : Prop :=
  List.Forall₂ (fun item part => encode item = .ok part) items parts

theorem mapM_encodeItems_ok :
    (encodeItems items).mapM id = .ok parts ↔ Encodes items parts := by
  rw [encodeItems_eq, mapM_ok, List.forall₂_map_left_iff]
  rfl

theorem array_ok {bytes : Bytes} :
    encode (array items) = .ok bytes ↔
      ∃ parts, Encodes items parts ∧ bytes = appendUint 4 parts.length ++ parts.flatten := by
  simp only [encode, arrayBytes, bind_ok, mapM_encodeItems_ok, pure_ok, @eq_comm _ bytes]

theorem set_ok {bytes : Bytes} :
    encode (set items) = .ok bytes ↔
      ∃ parts ordered, Encodes items parts ∧ ordered.Perm parts ∧ Ordered id ordered ∧
        bytes = appendUint 6 258 ++ (appendUint 4 ordered.length ++ ordered.flatten) := by
  have distinct (parts : List Bytes) := sorted_ordered id parts
  simp only [List.map_id_fun, id_eq] at distinct
  simp only [encode, setBytes, bind_ok, mapM_encodeItems_ok, unit_exists, throwIf_ok, Bool.not_eq_true, pure_ok,
    distinct, List.append_assoc]
  constructor
  · rintro ⟨parts, encodes, ordered, rfl⟩
    exact ⟨parts, _, encodes, List.perm_insertionSort _ parts, ordered, rfl⟩
  · rintro ⟨parts, ordered, encodes, same, increasing, rfl⟩
    have sorted := insertionSort_eq id increasing same
    simp only [id_eq] at sorted
    refine ⟨parts, encodes, ?_⟩
    rw [sorted]
    exact ⟨increasing, rfl⟩

/-- The entries of a map, next to the encodings of their texts and values. -/
def EncodesEntries (entries : List (Bytes × CanonicalValue)) (parts : List (Bytes × Bytes)) : Prop :=
  List.Forall₂ (fun entry part => appendText entry.1 = .ok part.1 ∧ encode entry.2 = .ok part.2) entries parts

section
variable {α β γ : Type} {r : α → γ → Prop} {q : β → γ → Prop}

private theorem forall₂_perm {items : List α} {parts others : List γ} (related : List.Forall₂ r items parts)
    (same : parts.Perm others) : ∃ reordered, items.Perm reordered ∧ List.Forall₂ r reordered others := by
  have swapped : Relation.Comp (List.Forall₂ r) List.Perm items others := ⟨parts, related, same⟩
  rw [List.forall₂_comp_perm_eq_perm_comp_forall₂] at swapped
  exact swapped

private theorem forall₂_meet {meet : α → β → Prop} {left : List α} {right : List β} {common : List γ}
    (meets : ∀ a ∈ left, ∀ b ∈ right, ∀ c, r a c → q b c → meet a b) (first : List.Forall₂ r left common)
    (second : List.Forall₂ q right common) : List.Forall₂ meet left right := by
  induction first generalizing right with
  | nil =>
    cases second
    exact .nil
  | @cons a c left common here there ih =>
    cases second with
    | @cons b _ right _ here' there' =>
      refine .cons (meets a (by simp) b (by simp) c here here') (ih ?_ there')
      exact fun a listed b other => meets a (by simp [listed]) b (by simp [other])

end

/-- The bytes of an entry. -/
def joined (part : Bytes × Bytes) : Bytes := part.1 ++ part.2

/-- An entry of a map before its value is needed. -/
private def pending (part : Bytes × Bytes) : Bytes × Checked Bytes := (part.1, .ok part.2)

private theorem ordered_pending {ordered : List (Bytes × Bytes)} :
    Ordered Prod.fst (ordered.map pending) ↔ Ordered Prod.fst ordered := by
  rw [Ordered, List.pairwise_map]
  rfl

theorem map_ok {entries : List (Bytes × CanonicalValue)} {bytes : Bytes} :
    encode (map entries) = .ok bytes ↔
      ∃ parts ordered, EncodesEntries entries parts ∧ ordered.Perm parts ∧ Ordered Prod.fst ordered ∧
        bytes = appendUint 5 (ordered.map joined).length ++ (ordered.map joined).flatten := by
  have keyed (entries : List (Bytes × CanonicalValue)) (results : List (Bytes × Checked Bytes)) :
      (encodeEntries entries).mapM entryKey = .ok results ↔
        List.Forall₂ (fun entry result => appendText entry.1 = .ok result.1 ∧ encode entry.2 = result.2) entries
          results := by
    rw [encodeEntries_eq, mapM_ok, List.forall₂_map_left_iff]
    refine Iff.of_eq (congrArg (List.Forall₂ · entries results) ?_)
    funext entry ⟨key, value⟩
    simp only [entryKey, bind_ok, pure_ok, Prod.mk.injEq]
    refine propext ⟨?_, ?_⟩
    · rintro ⟨_, encoded, rfl, same⟩
      exact ⟨encoded, same⟩
    · rintro ⟨encoded, same⟩
      exact ⟨key, encoded, rfl, same⟩
  have body (ordered : List (Bytes × Bytes)) :
      (ordered.map pending).mapM entryBytes = .ok (ordered.map joined) := by
    rw [mapM_ok, List.forall₂_map_left_iff, List.forall₂_map_right_iff, List.forall₂_same]
    exact fun part _ => rfl
  simp only [encode, mapBytes, bind_ok, keyed, unit_exists, throwIf_ok, Bool.not_eq_true, pure_ok,
    sorted_ordered Prod.fst]
  constructor
  · rintro ⟨results, read, increasing, pieces, values, rfl⟩
    have sorted := List.perm_insertionSort (fun left right => NotAfter left.1 right.1) results
    generalize results.insertionSort (fun left right => NotAfter left.1 right.1) = inOrder at *
    obtain ⟨ordered, rfl⟩ : ∃ ordered : List (Bytes × Bytes), inOrder = ordered.map pending := by
      clear increasing sorted
      induction inOrder generalizing pieces with
      | nil => exact ⟨[], rfl⟩
      | cons result later ih =>
        obtain ⟨key, value⟩ := result
        rw [List.mapM_cons] at values
        simp only [bind_ok, entryBytes] at values
        obtain ⟨_, ⟨found, here, -⟩, laterPieces, there, -⟩ := values
        obtain ⟨ordered, rfl⟩ := ih laterPieces there
        exact ⟨(key, found) :: ordered, by rw [List.map_cons, pending, ← here]⟩
    rw [body, Except.ok.injEq] at values
    subst values
    have related : List.Forall₂ (fun part result => pending part = result) ordered (ordered.map pending) := by
      rw [List.forall₂_map_right_iff, List.forall₂_same]
      exact fun _ _ => rfl
    obtain ⟨parts, same, found⟩ := forall₂_perm related sorted
    refine ⟨parts, ordered, ?_, same, ordered_pending.mp increasing, by rw [List.length_map, List.length_map]⟩
    refine forall₂_meet (fun entry _ part _ result here there => ?_) read found
    subst there
    exact here
  · rintro ⟨parts, ordered, encodes, same, increasing, rfl⟩
    have sorted : ((parts.map pending).insertionSort fun left right => NotAfter left.1 right.1) = ordered.map pending :=
      insertionSort_eq Prod.fst (ordered_pending.mpr increasing) (same.map pending)
    refine ⟨parts.map pending, ?_, ?_⟩
    · rw [List.forall₂_map_right_iff]
      exact encodes
    · rw [sorted]
      exact ⟨ordered_pending.mpr increasing, _, body ordered, by rw [List.length_map, List.length_map]⟩

/-- The major type of an encoding. -/
def major : CanonicalValue → ℕ
  | null | bool _ => 7
  | int value => if value ≥ 0 then 0 else 1
  | text _ => 3
  | bytes _ => 2
  | array _ => 4
  | map _ => 5
  | set _ => 6

theorem major_int_le (number : ℤ) : major (int number) ≤ 1 := by
  simp only [major]
  split <;> norm_num

theorem major_lt (value : CanonicalValue) : major value < 8 := by
  cases value with
  | int number => exact (major_int_le number).trans_lt (by norm_num)
  | _ => simp [major]

/-! The kind that a major type stands for. -/

variable {value : CanonicalValue} {left right : CanonicalValue}
  {entries others : List (Bytes × CanonicalValue)}

theorem text_of_major (same : 3 = major value) : ∃ content, value = text content := by
  cases value with
  | text content => exact ⟨content, rfl⟩
  | int number => exact absurd (major_int_le number) (by omega)
  | _ => cases same

theorem bytes_of_major (same : 2 = major value) : ∃ content, value = bytes content := by
  cases value with
  | bytes content => exact ⟨content, rfl⟩
  | int number => exact absurd (major_int_le number) (by omega)
  | _ => cases same

theorem array_of_major (same : 4 = major value) : ∃ items, value = array items := by
  cases value with
  | array items => exact ⟨items, rfl⟩
  | int number => exact absurd (major_int_le number) (by omega)
  | _ => cases same

theorem map_of_major (same : 5 = major value) : ∃ entries, value = map entries := by
  cases value with
  | map entries => exact ⟨entries, rfl⟩
  | int number => exact absurd (major_int_le number) (by omega)
  | _ => cases same

theorem set_of_major (same : 6 = major value) : ∃ items, value = set items := by
  cases value with
  | set items => exact ⟨items, rfl⟩
  | int number => exact absurd (major_int_le number) (by omega)
  | _ => cases same

theorem simple_of_major (same : 7 = major value) :
    value = null ∨ ∃ flag, value = bool flag := by
  cases value with
  | null => exact .inl rfl
  | bool flag => exact .inr ⟨flag, rfl⟩
  | int number => exact absurd (major_int_le number) (by omega)
  | _ => cases same

theorem int_of_major {number : ℤ} (same : major (int number) = major value) :
    ∃ other, value = int other := by
  have small := major_int_le number
  rw [same] at small
  cases value with
  | int other => exact ⟨other, rfl⟩
  | _ => exact absurd small (by simp [major])

theorem appendText_ok {text encoded : Bytes} (ran : appendText text = .ok encoded) :
    encoded = appendUint 3 text.length ++ text := by
  simp only [appendText, bind_ok, unit_exists, throwIf_ok, pure_ok] at ran
  exact ran.2.symm

theorem int_ok {value : ℤ} : encode (int value) =
    .ok (appendUint (major (int value)) (if value ≥ 0 then value.toNat else (-(value + 1)).toNat)) := by
  simp only [encode, major]
  split_ifs <;> rfl

theorem encode_head {encoded : Bytes} (fits : Fits value) (ran : encode value = .ok encoded) :
    ∃ count body, count < 18446744073709551616 ∧ encoded = appendUint (major value) count ++ body := by
  cases value with
  | null =>
    cases ran
    exact ⟨22, [], by norm_num, rfl⟩
  | bool flag =>
    cases ran
    cases flag
    · exact ⟨20, [], by norm_num, rfl⟩
    · exact ⟨21, [], by norm_num, rfl⟩
  | int number =>
    rw [int_ok, Except.ok.injEq] at ran
    subst ran
    refine ⟨_, [], ?_, (List.append_nil _).symm⟩
    unfold Fits at fits
    split_ifs <;> omega
  | text content => exact ⟨_, content, fits, appendText_ok ran⟩
  | bytes content =>
    cases ran
    exact ⟨_, content, fits, rfl⟩
  | array items =>
    obtain ⟨parts, encodes, rfl⟩ := array_ok.mp ran
    exact ⟨_, _, encodes.length_eq ▸ fits.1, rfl⟩
  | map entries =>
    obtain ⟨parts, ordered, encodes, same, -, rfl⟩ := map_ok.mp ran
    refine ⟨_, _, ?_, rfl⟩
    rw [List.length_map, same.length_eq, ← encodes.length_eq]
    exact fits.1
  | set items =>
    obtain ⟨parts, ordered, -, -, -, rfl⟩ := set_ok.mp ran
    exact ⟨258, _, by norm_num, rfl⟩

theorem major_eq {x y first second : Bytes} (leftFits : Fits left) (rightFits : Fits right)
    (leftRan : encode left = .ok x) (rightRan : encode right = .ok y)
    (same : x ++ first = y ++ second) : major left = major right := by
  obtain ⟨leftCount, leftBody, leftSmall, rfl⟩ := encode_head leftFits leftRan
  obtain ⟨rightCount, rightBody, rightSmall, rfl⟩ := encode_head rightFits rightRan
  rw [List.append_assoc, List.append_assoc] at same
  exact (appendUint_inj (major_lt left) (major_lt right) leftSmall rightSmall same).1

theorem Encodes.mem (encodes : Encodes items parts) {part : Bytes}
    (listed : part ∈ parts) : ∃ item ∈ items, encode item = .ok part :=
  exists_of_forall₂ encodes listed

theorem Encodes.length (encodes : Encodes items parts) :
    items.length = parts.length :=
  encodes.length_eq

theorem EncodesEntries.mem {entries : List (Bytes × CanonicalValue)} {parts : List (Bytes × Bytes)}
    (encodes : EncodesEntries entries parts) {part : Bytes × Bytes} (listed : part ∈ parts) :
    ∃ entry ∈ entries, appendText entry.1 = .ok part.1 ∧ encode entry.2 = .ok part.2 :=
  exists_of_forall₂ encodes listed

theorem EncodesEntries.length {entries : List (Bytes × CanonicalValue)} {parts : List (Bytes × Bytes)}
    (encodes : EncodesEntries entries parts) : entries.length = parts.length :=
  encodes.length_eq

theorem separate_text {left right x y : Bytes} (leftFits : left.length < 18446744073709551616)
    (rightFits : right.length < 18446744073709551616) (leftRan : appendText left = .ok x)
    (rightRan : appendText right = .ok y) : Separate x y := by
  rw [appendText_ok leftRan, appendText_ok rightRan]
  exact separate_sized (by norm_num) leftFits rightFits

theorem counted_inj {major : ℕ} {left right : List Bytes} (majorSmall : major < 8)
    (leftSmall : left.length < 18446744073709551616) (rightSmall : right.length < 18446744073709551616)
    (each : ∀ a ∈ left, ∀ b ∈ right, Separate a b)
    (same : appendUint major left.length ++ left.flatten ++ first = appendUint major right.length ++ right.flatten ++ second) : left = right := by
  rw [List.append_assoc, List.append_assoc] at same
  obtain ⟨-, count, rest⟩ := appendUint_inj majorSmall majorSmall leftSmall rightSmall same
  exact flatten_inj count each rest

theorem separate_counted {major : ℕ} {left right : List Bytes} (majorSmall : major < 8)
    (leftSmall : left.length < 18446744073709551616) (rightSmall : right.length < 18446744073709551616)
    (each : ∀ a ∈ left, ∀ b ∈ right, Separate a b) :
    Separate (appendUint major left.length ++ left.flatten) (appendUint major right.length ++ right.flatten) := by
  intro first second same
  rw [counted_inj majorSmall leftSmall rightSmall each same]

theorem items_separate {items others : List CanonicalValue} {parts otherParts : List Bytes}
    (each : ∀ item ∈ items, Fits item → ∀ {right : CanonicalValue}, Fits right → ∀ {x y : Bytes},
      encode item = .ok x → encode right = .ok y → Separate x y)
    (fits : FitsItems items) (otherFits : FitsItems others) (encodes : Encodes items parts)
    (otherEncodes : Encodes others otherParts) : ∀ a ∈ parts, ∀ b ∈ otherParts, Separate a b := by
  intro a listed b otherListed
  obtain ⟨item, member, ran⟩ := encodes.mem listed
  obtain ⟨other, otherMember, otherRan⟩ := otherEncodes.mem otherListed
  exact each item member (fitsItems_iff.mp fits item member) (fitsItems_iff.mp otherFits other otherMember) ran otherRan

theorem entries_separate {parts otherParts : List (Bytes × Bytes)}
    (each : ∀ entry ∈ entries, Fits entry.2 → ∀ {right : CanonicalValue}, Fits right → ∀ {x y : Bytes}, encode entry.2 = .ok x → encode right = .ok y → Separate x y)
    (fits : FitsEntries entries) (otherFits : FitsEntries others) (encodes : EncodesEntries entries parts)
    (otherEncodes : EncodesEntries others otherParts) :
    ∀ a ∈ parts, ∀ b ∈ otherParts, Separate a.1 b.1 ∧ Separate (joined a) (joined b) := by
  intro a listed b otherListed
  obtain ⟨entry, member, key, value⟩ := encodes.mem listed
  obtain ⟨other, otherMember, otherKey, otherValue⟩ := otherEncodes.mem otherListed
  obtain ⟨keyFits, valueFits⟩ := fitsEntries_iff.mp fits entry member
  obtain ⟨otherKeyFits, otherValueFits⟩ := fitsEntries_iff.mp otherFits other otherMember
  have keys := separate_text keyFits otherKeyFits key otherKey
  exact ⟨keys, keys.append fun _ => each entry member valueFits otherValueFits value otherValue⟩

theorem simple_length {encoded : Bytes} (simple : value = null ∨ ∃ flag, value = bool flag)
    (ran : encode value = .ok encoded) : encoded.length = 1 := by
  rcases simple with rfl | ⟨flag, rfl⟩
  · cases ran
    rfl
  · cases ran
    rfl

theorem encode_separate {left : CanonicalValue} (leftFits : Fits left) {right : CanonicalValue} (rightFits : Fits right)
    {x y : Bytes} (leftRan : encode left = .ok x) (rightRan : encode right = .ok y) : Separate x y := by
  induction left using induct generalizing right x y with
  | null =>
    intro first second same
    have simple := simple_of_major (major_eq leftFits rightFits leftRan rightRan same)
    have length := (simple_length (.inl rfl) leftRan).trans (simple_length simple rightRan).symm
    exact separate_of_length length _ _ same
  | bool flag =>
    intro first second same
    have simple := simple_of_major (major_eq leftFits rightFits leftRan rightRan same)
    have length := (simple_length (.inr ⟨flag, rfl⟩) leftRan).trans (simple_length simple rightRan).symm
    exact separate_of_length length _ _ same
  | int number =>
    intro first second same
    have sameMajor := major_eq leftFits rightFits leftRan rightRan same
    obtain ⟨other, rfl⟩ := int_of_major sameMajor
    rw [int_ok, Except.ok.injEq] at leftRan rightRan
    subst leftRan rightRan
    rw [← sameMajor] at same ⊢
    unfold Fits at leftFits rightFits
    exact separate_header (major_lt _) (by split_ifs <;> omega) (by split_ifs <;> omega) _ _ same
  | text content =>
    intro first second same
    obtain ⟨other, rfl⟩ := text_of_major (major_eq leftFits rightFits leftRan rightRan same)
    exact separate_text leftFits rightFits leftRan rightRan _ _ same
  | bytes content =>
    intro first second same
    obtain ⟨other, rfl⟩ := bytes_of_major (major_eq leftFits rightFits leftRan rightRan same)
    cases leftRan
    cases rightRan
    exact separate_sized (by norm_num) leftFits rightFits _ _ same
  | array items ih =>
    intro first second same
    obtain ⟨others, rfl⟩ := array_of_major (major_eq leftFits rightFits leftRan rightRan same)
    obtain ⟨parts, encodes, rfl⟩ := array_ok.mp leftRan
    obtain ⟨otherParts, otherEncodes, rfl⟩ := array_ok.mp rightRan
    refine separate_counted (by norm_num) (encodes.length ▸ leftFits.1) (otherEncodes.length ▸ rightFits.1) ?_ _ _ same
    exact items_separate ih leftFits.2 rightFits.2 encodes otherEncodes
  | map entries ih =>
    intro first second same
    obtain ⟨others, rfl⟩ := map_of_major (major_eq leftFits rightFits leftRan rightRan same)
    obtain ⟨parts, ordered, encodes, perm, -, rfl⟩ := map_ok.mp leftRan
    obtain ⟨otherParts, otherOrdered, otherEncodes, otherPerm, -, rfl⟩ := map_ok.mp rightRan
    have apart := entries_separate ih leftFits.2 rightFits.2 encodes otherEncodes
    refine separate_counted (by norm_num) ?_ ?_ ?_ _ _ same
    · rw [List.length_map, perm.length_eq, ← encodes.length]
      exact leftFits.1
    · rw [List.length_map, otherPerm.length_eq, ← otherEncodes.length]
      exact rightFits.1
    · intro a listed b otherListed
      obtain ⟨part, member, rfl⟩ := List.mem_map.mp listed
      obtain ⟨otherPart, otherMember, rfl⟩ := List.mem_map.mp otherListed
      exact (apart part (perm.subset member) otherPart (otherPerm.subset otherMember)).2
  | set items ih =>
    intro first second same
    obtain ⟨others, rfl⟩ := set_of_major (major_eq leftFits rightFits leftRan rightRan same)
    obtain ⟨parts, ordered, encodes, perm, -, rfl⟩ := set_ok.mp leftRan
    obtain ⟨otherParts, otherOrdered, otherEncodes, otherPerm, -, rfl⟩ := set_ok.mp rightRan
    have apart := items_separate ih leftFits.2 rightFits.2 encodes otherEncodes
    refine Separate.append (separate_of_length rfl) (fun _ => ?_) first second same
    refine separate_counted (by norm_num) (perm.length_eq ▸ encodes.length ▸ leftFits.1)
      (otherPerm.length_eq ▸ otherEncodes.length ▸ rightFits.1) ?_
    exact fun a listed b other => apart a (perm.subset listed) b (otherPerm.subset other)

theorem appendText_inj {left right encoded : Bytes} (leftFits : left.length < 18446744073709551616)
    (rightFits : right.length < 18446744073709551616) (leftRan : appendText left = .ok encoded)
    (rightRan : appendText right = .ok encoded) : left = right := by
  have same : appendUint 3 left.length ++ left = appendUint 3 right.length ++ right :=
    (appendText_ok leftRan).symm.trans (appendText_ok rightRan)
  exact (appendUint_inj (by norm_num) (by norm_num) leftFits rightFits same).2.2

private theorem alike {encoded : Bytes} (leftFits : Fits left) (rightFits : Fits right)
    (leftRan : encode left = .ok encoded) (rightRan : encode right = .ok encoded) : major left = major right :=
  major_eq leftFits rightFits leftRan rightRan (rfl : encoded ++ [] = encoded ++ [])

private theorem items_apart {items others : List CanonicalValue} {parts otherParts : List Bytes}
    (fits : FitsItems items) (otherFits : FitsItems others) (encodes : Encodes items parts)
    (otherEncodes : Encodes others otherParts) : ∀ a ∈ parts, ∀ b ∈ otherParts, Separate a b :=
  items_separate (fun _ _ itemFits _ otherFits _ _ ran otherRan => encode_separate itemFits otherFits ran otherRan)
    fits otherFits encodes otherEncodes

private theorem entries_apart {parts otherParts : List (Bytes × Bytes)} (fits : FitsEntries entries)
    (otherFits : FitsEntries others) (encodes : EncodesEntries entries parts)
    (otherEncodes : EncodesEntries others otherParts) :
    ∀ a ∈ parts, ∀ b ∈ otherParts, Separate a.1 b.1 ∧ Separate (joined a) (joined b) :=
  entries_separate (fun _ _ valueFits _ otherFits _ _ ran otherRan => encode_separate valueFits otherFits ran otherRan)
    fits otherFits encodes otherEncodes

private theorem joined_inj {left right : List (Bytes × Bytes)} (keys : ∀ a ∈ left, ∀ b ∈ right, Separate a.1 b.1)
    (same : left.map joined = right.map joined) : left = right := by
  induction left generalizing right with
  | nil => exact (List.map_eq_nil_iff.mp same.symm).symm
  | cons a left ih =>
    cases right with
    | nil => cases same
    | cons b right =>
      rw [List.map_cons, List.map_cons, List.cons.injEq] at same
      obtain ⟨head, tail⟩ := same
      have key := keys a (by simp) b (by simp) _ _ head
      rw [joined, joined, key] at head
      rw [ih (fun a listed b other => keys a (by simp [listed]) b (by simp [other])) tail,
        Prod.ext key (List.append_cancel_left head)]

private theorem items_same {items others : List CanonicalValue}
    (each : ∀ item ∈ items, Fits item → ∀ {right : CanonicalValue}, Fits right → ∀ {encoded : Bytes}, encode item = .ok encoded → encode right = .ok encoded → Same item right)
    (fits : FitsItems items) (otherFits : FitsItems others) (encodes : Encodes items parts)
    (otherEncodes : Encodes others parts) : List.Forall₂ Same items others := by
  refine forall₂_meet ?_ encodes otherEncodes
  intro item listed other otherListed _ here there
  exact each item listed (fitsItems_iff.mp fits item listed) (fitsItems_iff.mp otherFits other otherListed) here there

theorem same_of_encode_eq {left : CanonicalValue} (leftFits : Fits left) {right : CanonicalValue}
    (rightFits : Fits right) {encoded : Bytes} (leftRan : encode left = .ok encoded)
    (rightRan : encode right = .ok encoded) : Same left right := by
  induction left using induct generalizing right encoded with
  | null =>
    have sameMajor := alike leftFits rightFits leftRan rightRan
    rcases simple_of_major sameMajor with rfl | ⟨flag, rfl⟩
    · rfl
    · cases leftRan
      cases flag <;> exact absurd rightRan (by decide)
  | bool flag =>
    have sameMajor := alike leftFits rightFits leftRan rightRan
    rcases simple_of_major sameMajor with rfl | ⟨other, rfl⟩
    · cases leftRan
      cases flag <;> exact absurd rightRan (by decide)
    · rw [← rightRan] at leftRan
      cases flag <;> cases other
      · rfl
      · exact absurd leftRan (by decide)
      · exact absurd leftRan (by decide)
      · rfl
  | int number =>
    have sameMajor := alike leftFits rightFits leftRan rightRan
    obtain ⟨other, rfl⟩ := int_of_major sameMajor
    rw [int_ok, Except.ok.injEq] at leftRan rightRan
    have headers := leftRan.trans rightRan.symm
    have counts := (appendUint_inj (major_lt _) (major_lt _) (by unfold Fits at leftFits; split_ifs <;> omega)
      (by unfold Fits at rightFits; split_ifs <;> omega) (congrArg (· ++ []) headers)).2.1
    simp only [major] at sameMajor
    rw [Same]
    split_ifs at sameMajor counts
    · exact congrArg int (by omega)
    · exact congrArg int (by omega)
  | text content =>
    have sameMajor := alike leftFits rightFits leftRan rightRan
    obtain ⟨other, rfl⟩ := text_of_major sameMajor
    rw [appendText_inj leftFits rightFits leftRan rightRan]
    rfl
  | bytes content =>
    have sameMajor := alike leftFits rightFits leftRan rightRan
    obtain ⟨other, rfl⟩ := bytes_of_major sameMajor
    cases leftRan
    rw [encode, Except.ok.injEq] at rightRan
    obtain ⟨-, -, content⟩ := appendUint_inj (by norm_num) (by norm_num) rightFits leftFits rightRan
    rw [content]
    rfl
  | array items ih =>
    have sameMajor := alike leftFits rightFits leftRan rightRan
    obtain ⟨others, rfl⟩ := array_of_major sameMajor
    obtain ⟨parts, encodes, rfl⟩ := array_ok.mp leftRan
    obtain ⟨otherParts, otherEncodes, same⟩ := array_ok.mp rightRan
    have parts := counted_inj (by norm_num) (encodes.length ▸ leftFits.1) (otherEncodes.length ▸ rightFits.1)
      (items_apart leftFits.2 rightFits.2 encodes otherEncodes) (congrArg (· ++ []) same)
    subst parts
    exact ⟨others, rfl, sameItems_iff.mpr (items_same ih leftFits.2 rightFits.2 encodes otherEncodes)⟩
  | map entries ih =>
    obtain ⟨others, rfl⟩ := map_of_major (alike leftFits rightFits leftRan rightRan)
    obtain ⟨parts, ordered, encodes, perm, -, rfl⟩ := map_ok.mp leftRan
    obtain ⟨otherParts, otherOrdered, otherEncodes, otherPerm, -, same⟩ := map_ok.mp rightRan
    have small : (ordered.map joined).length < 18446744073709551616 := by
      rw [List.length_map, perm.length_eq, ← encodes.length]
      exact leftFits.1
    have otherSmall : (otherOrdered.map joined).length < 18446744073709551616 := by
      rw [List.length_map, otherPerm.length_eq, ← otherEncodes.length]
      exact rightFits.1
    have apart := entries_apart leftFits.2 rightFits.2 encodes otherEncodes
    have pieces : ordered.map joined = otherOrdered.map joined := by
      refine counted_inj (by norm_num) small otherSmall ?_ (congrArg (· ++ []) same)
      intro a listed b otherListed
      obtain ⟨part, member, rfl⟩ := List.mem_map.mp listed
      obtain ⟨otherPart, otherMember, rfl⟩ := List.mem_map.mp otherListed
      exact (apart part (perm.subset member) otherPart (otherPerm.subset otherMember)).2
    -- a key and what follows it tell the pair
    have orderedSame : ordered = otherOrdered := joined_inj
      (fun part member other otherMember => (apart part (perm.subset member) other (otherPerm.subset otherMember)).1)
      pieces
    subst orderedSame
    obtain ⟨reordered, rearranged, reorderedEncodes⟩ := forall₂_perm otherEncodes (otherPerm.symm.trans perm)
    refine ⟨others, reordered, rfl, rearranged.symm, sameEntries_iff.mpr ?_⟩
    refine forall₂_meet (fun entry listed other otherListed part here there => ?_) encodes reorderedEncodes
    obtain ⟨keyFits, valueFits⟩ := fitsEntries_iff.mp leftFits.2 entry listed
    obtain ⟨otherKeyFits, otherValueFits⟩ := fitsEntries_iff.mp rightFits.2 other (rearranged.symm.subset otherListed)
    exact ⟨appendText_inj keyFits otherKeyFits here.1 there.1,
      ih entry listed valueFits otherValueFits here.2 there.2⟩
  | set items ih =>
    obtain ⟨others, rfl⟩ := set_of_major (alike leftFits rightFits leftRan rightRan)
    obtain ⟨parts, ordered, encodes, perm, -, rfl⟩ := set_ok.mp leftRan
    obtain ⟨otherParts, otherOrdered, otherEncodes, otherPerm, -, same⟩ := set_ok.mp rightRan
    have apart := items_apart leftFits.2 rightFits.2 encodes otherEncodes
    have orderedSame : ordered = otherOrdered := by
      refine counted_inj (by norm_num) (perm.length_eq ▸ encodes.length ▸ leftFits.1)
        (otherPerm.length_eq ▸ otherEncodes.length ▸ rightFits.1) ?_
        (congrArg (· ++ []) (List.append_cancel_left same))
      exact fun a listed b other => apart a (perm.subset listed) b (otherPerm.subset other)
    subst orderedSame
    obtain ⟨reordered, rearranged, reorderedEncodes⟩ := forall₂_perm otherEncodes (otherPerm.symm.trans perm)
    refine ⟨others, reordered, rfl, rearranged.symm, sameItems_iff.mpr ?_⟩
    refine items_same ih leftFits.2 (fitsItems_iff.mpr fun item listed => ?_) encodes reorderedEncodes
    exact fitsItems_iff.mp rightFits.2 item (rearranged.symm.subset listed)

private theorem encodes_of_same {items others : List CanonicalValue}
    (each : ∀ item ∈ items, ∀ {right : CanonicalValue} {encoded : Bytes}, Same item right → encode item = .ok encoded → encode right = .ok encoded)
    (sames : List.Forall₂ Same items others) (encodes : Encodes items parts) : Encodes others parts := by
  induction sames generalizing parts with
  | nil => exact encodes
  | cons same later ih =>
    cases encodes with
    | cons here there =>
      exact .cons (each _ (by simp) same here) (ih (fun item listed => each item (by simp [listed])) there)

private theorem encodesEntries_of_same {parts : List (Bytes × Bytes)}
    (each : ∀ entry ∈ entries, ∀ {right : CanonicalValue} {encoded : Bytes}, Same entry.2 right → encode entry.2 = .ok encoded → encode right = .ok encoded)
    (sames : List.Forall₂ (fun entry other => entry.1 = other.1 ∧ Same entry.2 other.2) entries others)
    (encodes : EncodesEntries entries parts) : EncodesEntries others parts := by
  induction sames generalizing parts with
  | nil => exact encodes
  | cons same later ih =>
    cases encodes with
    | cons here there =>
      refine .cons ⟨?_, each _ (by simp) same.2 here.2⟩ (ih (fun entry listed => each entry (by simp [listed])) there)
      rw [← same.1]
      exact here.1

theorem encode_of_same {encoded : Bytes} (same : Same left right)
    (ran : encode left = .ok encoded) : encode right = .ok encoded := by
  induction left using induct generalizing right encoded with
  | null =>
    rw [Same] at same
    exact same ▸ ran
  | bool flag =>
    rw [Same] at same
    exact same ▸ ran
  | int number =>
    rw [Same] at same
    exact same ▸ ran
  | text content =>
    rw [Same] at same
    exact same ▸ ran
  | bytes content =>
    rw [Same] at same
    exact same ▸ ran
  | array items ih =>
    obtain ⟨others, rfl, sames⟩ := same
    obtain ⟨parts, encodes, written⟩ := array_ok.mp ran
    exact array_ok.mpr ⟨parts, encodes_of_same (fun item listed => ih item listed) (sameItems_iff.mp sames) encodes,
      written⟩
  | map entries ih =>
    obtain ⟨others, reordered, rfl, rearranged, sames⟩ := same
    obtain ⟨parts, ordered, encodes, perm, increasing, written⟩ := map_ok.mp ran
    have matched := encodesEntries_of_same (fun entry listed => ih entry listed) (sameEntries_iff.mp sames) encodes
    obtain ⟨otherParts, moved, otherEncodes⟩ := forall₂_perm matched.flip rearranged
    exact map_ok.mpr ⟨otherParts, ordered, otherEncodes.flip, perm.trans moved, increasing, written⟩
  | set items ih =>
    obtain ⟨others, reordered, rfl, rearranged, sames⟩ := same
    obtain ⟨parts, ordered, encodes, perm, increasing, written⟩ := set_ok.mp ran
    have matched := encodes_of_same (fun item listed => ih item listed) (sameItems_iff.mp sames) encodes
    obtain ⟨otherParts, moved, otherEncodes⟩ := forall₂_perm matched.flip rearranged
    exact set_ok.mpr ⟨otherParts, ordered, otherEncodes.flip, perm.trans moved, increasing, written⟩

/-- A value is encoded as the bytes of another exactly when the two are equal up
to the order of set elements and map entries. -/
theorem canonical_bytes_eq_iff {a b : CanonicalValue} (aFits : Fits a) (bFits : Fits b) {encoded : Bytes}
    (ran : encode a = .ok encoded) : encode b = .ok encoded ↔ Same a b :=
  ⟨same_of_encode_eq aFits bFits ran, fun same => encode_of_same same ran⟩

/-! A map with a set and a text, and the same map in another order. -/

def sampleValue : CanonicalValue := map [(ascii "set", set [int 2, int (-1)]), (ascii "id", text (ascii "x"))]

def reorderedValue : CanonicalValue := map [(ascii "id", text (ascii "x")), (ascii "set", set [int (-1), int 2])]

theorem sample_bytes_eq_iff :
    ∃ encoded, encode sampleValue = .ok encoded ∧ encode reorderedValue = .ok encoded ∧
      Same sampleValue reorderedValue := by
  obtain ⟨encoded, ran⟩ := exists_of_isOk (x := encode sampleValue) (by decide +kernel)
  have same : encode reorderedValue = encode sampleValue := by decide +kernel
  have fits : Fits sampleValue ∧ Fits reorderedValue := by
    simp [sampleValue, reorderedValue, Fits, FitsEntries, FitsItems, ascii]
  exact ⟨encoded, ran, same.trans ran, (canonical_bytes_eq_iff fits.1 fits.2 ran).mp (same.trans ran)⟩

end Pops.CanonicalValue
