import Pops.Rounding

/-!
`pops/time/_history/persistence.py`: which slots of a history ring a checkpoint stores. The
positions of a `Revolve` policy are quotients in binary64, and a loop fills the gaps where two of
them fall together.
-/
namespace Pops.HistoryPersistence

/-- What the policies raise. -/
inductive Raised where
  | valueError (what : String)
  | overflowError (what : String)
  | diverges
  deriving DecidableEq

/-- `Dense`, `Interval` and `Revolve`, with the options that their constructors accept. -/
inductive Policy where
  | dense
  | interval (k : ℤ) (positive : 1 ≤ k)
  | revolve (snapshots : ℤ) (least : 2 ≤ snapshots)
  deriving DecidableEq

/-- The `name` of a policy. -/
def Policy.name : Policy → String
  | dense => "Dense"
  | interval _ _ => "Interval"
  | revolve _ _ => "Revolve"

/-- `range(stop)`. -/
def range (stop : ℤ) : List ℤ := (List.range stop.toNat).map Int.ofNat

/-- `sorted` of the set of these slots. -/
def sortedSet (slots : List ℤ) : List ℤ := slots.dedup.insertionSort (· ≤ ·)

/-- `_check_depth`. -/
def checkDepth (policy : Policy) (depth : ℤ) : Except Raised ℤ :=
  if depth < 1 then
    .error (.valueError (policy.name ++ ": ring depth must be a Python int >= 1 (got " ++ toString depth ++ ")"))
  else .ok depth

/-- The position `i * (depth - 1) / (snapshots - 1)`. -/
def quotient (depth snapshots i : ℤ) : ℚ := (i * (depth - 1) : ℤ) / (snapshots - 1 : ℤ)

/-- `round(i * (depth - 1) / (snapshots - 1))`, where the division gives a float. -/
def position (depth snapshots i : ℤ) : Except Raised ℤ :=
  if Rounding.isFinite (Rounding.binary64 (quotient depth snapshots i)) then
    .ok (Rounding.nearest (Rounding.binary64 (quotient depth snapshots i)))
  else .error (.overflowError "integer division result too large for a float")

/-- The neighbours among slots. -/
def neighbours (slots : List ℤ) : List (ℤ × ℤ) := slots.zip slots.tail

/-- The gap seen so far with its lower slot, and two neighbours: the first of the widest gaps wins. -/
def widen (widest : ℤ × ℤ) (pair : ℤ × ℤ) : ℤ × ℤ :=
  if pair.2 - pair.1 > widest.2 then (pair.1, pair.2 - pair.1) else widest

/-- `widest_lo` and `widest_gap`. -/
def widest (anchors : List ℤ) : ℤ × ℤ := (neighbours anchors).foldl widen (anchors.headD 0, -1)

/-- The slot that a pass of the loop adds. -/
def midpoint (anchors : List ℤ) : ℤ :=
  let low := (widest anchors).1
  let mid := low + (widest anchors).2 / 2
  if mid ∈ anchors ∨ mid = low then low + 1 else mid

/-- The loop that splits the widest gap until the count is met, for a number of passes. -/
def fill (snapshots : ℤ) : ℕ → List ℤ → Except Raised (List ℤ)
  | passes, anchors =>
    if anchors.length < snapshots then
      match passes with
      | 0 => .error .diverges
      | passes + 1 => fill snapshots passes (sortedSet (midpoint anchors :: anchors))
    else .ok anchors

/-- `_optimal_placement`. A loop that has not met its count after as many passes never does. -/
def optimalPlacement (depth snapshots : ℤ) : Except Raised (List ℤ) :=
  if snapshots ≥ depth then .ok (range depth)
  else if snapshots < 2 then
    .error (.valueError ("_optimal_placement requires snapshots >= 2 (got " ++ toString snapshots ++
      ") to bound a depth-" ++ toString depth ++ " ring"))
  else do
    let positions ← (range snapshots).mapM (position depth snapshots)
    fill snapshots snapshots.toNat (sortedSet positions)

/-- `stored_slots`. -/
def Policy.storedSlots (policy : Policy) (depth : ℤ) : Except Raised (List ℤ) := do
  let depth ← checkDepth policy depth
  match policy with
  | dense => return range depth
  | interval k _ => return sortedSet (0 :: (range depth).filter (· % k = 0))
  | revolve snapshots _ => optimalPlacement depth snapshots

/-- `validate_for`. -/
def Policy.validateFor (policy : Policy) (depth : ℤ) : Except Raised ℤ := do
  let depth ← checkDepth policy depth
  match policy with
  | dense => return depth
  | interval k _ =>
    if depth = 1 then return depth
    else if k ≥ depth then
      .error (.valueError ("Interval(k=" ++ toString k ++ ") invalid for ring depth " ++ toString depth ++
        ": k >= depth stores only the newest slot -- use Dense() to keep the whole ring"))
    else if (depth - 1) % k ≠ 0 then
      .error (.valueError ("Interval(k=" ++ toString k ++ ") does not store the oldest slot " ++ toString (depth - 1) ++
        " ((depth-1)=" ++ toString (depth - 1) ++ " % k=" ++ toString k ++
        " != 0); the oldest lag cannot be replayed -- choose k dividing depth-1, or Dense()"))
    else return depth
  | revolve snapshots _ =>
    if depth = 1 then return depth
    else if snapshots > depth then
      .error (.valueError ("Revolve(snapshots=" ++ toString snapshots ++ ") exceeds ring depth " ++ toString depth ++
        ": more budget than slots -- use Dense() to store the whole ring"))
    else return depth

/-! ### The slots of a set, in order -/

theorem mem_range {stop slot : ℤ} : slot ∈ range stop ↔ 0 ≤ slot ∧ slot < stop := by
  rw [range, List.mem_map]
  constructor
  · rintro ⟨index, below, rfl⟩
    have := List.mem_range.mp below
    simp only [Int.ofNat_eq_natCast]
    omega
  · rintro ⟨low, high⟩
    exact ⟨slot.toNat, List.mem_range.mpr (by omega), Int.toNat_of_nonneg low⟩

@[simp] theorem length_range (stop : ℤ) : (range stop).length = stop.toNat := by simp [range]

theorem range_increasing (stop : ℤ) : (range stop).Pairwise (· < ·) :=
  List.pairwise_map.mpr (List.pairwise_lt_range.imp fun less => Int.ofNat_lt.mpr less)

@[simp] theorem mem_sortedSet {slots : List ℤ} {slot : ℤ} : slot ∈ sortedSet slots ↔ slot ∈ slots := by
  rw [sortedSet, List.mem_insertionSort, List.mem_dedup]

theorem sortedSet_increasing (slots : List ℤ) : (sortedSet slots).Pairwise (· < ·) := by
  have sorted : (sortedSet slots).Pairwise (· ≤ ·) := List.pairwise_insertionSort _ _
  have distinct : (sortedSet slots).Nodup :=
    (List.perm_insertionSort _ _).nodup_iff.mpr (List.nodup_dedup slots)
  exact (sorted.and distinct).imp fun both => lt_of_le_of_ne both.1 both.2

/-- Slots in increasing order are their own set. -/
theorem sortedSet_eq {slots : List ℤ} (increasing : slots.Pairwise (· < ·)) : sortedSet slots = slots := by
  have distinct : slots.Nodup := increasing.imp fun less => less.ne
  rw [sortedSet, distinct.dedup]
  exact (increasing.imp fun less => less.le).insertionSort_eq

end Pops.HistoryPersistence
