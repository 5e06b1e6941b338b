import Pops.Rational

/-!
`runtime/_amr_checkpoint_v3.py`, `runtime/_amr_checkpoint_topology.py` and
`runtime/_checkpoint_spatial.py`: the fine patches of a hierarchy as the rows of
an archived matrix, and the owners that are put back on them. The values have
the types the code asks for.
-/
namespace Pops.PatchTopology

inductive Raised where
  | valueError (what : String)
  | overflowError (what : String)
  deriving DecidableEq

def maxsize : ℤ := int64Max

/-- What `CheckpointSpatialContract` checks of its shape and its ratios. -/
structure CheckpointSpatialContract where
  dimension : ℕ
  shape : List ℤ
  refinementRatios : List (List ℤ)
  dimension_pos : 1 ≤ dimension
  shape_length : shape.length = dimension
  shape_pos : ∀ extent ∈ shape, 1 ≤ extent
  ratio_length : ∀ ratio ∈ refinementRatios, ratio.length = dimension
  ratio_pos : ∀ ratio ∈ refinementRatios, ∀ factor ∈ ratio, 1 ≤ factor
  ratio_refines : ∀ ratio ∈ refinementRatios, ∃ factor ∈ ratio, 1 < factor

/-- The loop of `cell_count`. -/
def cellCountLoop : ℤ → List ℤ → Except Raised ℤ
  | count, [] => .ok count
  | count, extent :: rest =>
    if extent < 1 then .error (.valueError "checkpoint cell-count extents must be strictly positive")
    else if count > maxsize / extent then
      .error (.overflowError "checkpoint cell count exceeds the native addressable range")
    else cellCountLoop (count * extent) rest

def cellCount (shape : List ℤ) : Except Raised ℤ :=
  if shape = [] then .error (.valueError "checkpoint cell-count shape must be non-empty")
  else cellCountLoop 1 shape

/-- A shape refined by one ratio, axis by axis. -/
def refineShape : List ℤ → List ℤ → Except Raised (List ℤ)
  | extent :: shape, factor :: ratio =>
    if extent > maxsize / factor then
      .error (.overflowError "checkpoint refined shape exceeds the native addressable range")
    else
      match refineShape shape ratio with
      | .error raised => .error raised
      | .ok rest => .ok (extent * factor :: rest)
  | shape, _ => .ok shape

/-- The loop of `shape_at_level` over the ratios. -/
def refineLevels : List ℤ → List (List ℤ) → Except Raised (List ℤ)
  | shape, [] => .ok shape
  | shape, ratio :: rest =>
    match refineShape shape ratio with
    | .error raised => .error raised
    | .ok finer => refineLevels finer rest

def CheckpointSpatialContract.shapeAtLevel (spatial : CheckpointSpatialContract) (level : ℤ) :
    Except Raised (List ℤ) :=
  if level < 0 ∨ level > spatial.refinementRatios.length then
    .error (.valueError "checkpoint AMR level lies outside its refinement-ratio envelope")
  else
    match refineLevels spatial.shape (spatial.refinementRatios.take level.toNat) with
    | .error raised => .error raised
    | .ok result =>
      match cellCount result with
      | .error raised => .error raised
      | .ok _ => .ok result

/-- `(level, lower, upper)`, with inclusive bounds. -/
structure Patch where
  level : ℤ
  lower : List ℤ
  upper : List ℤ
  deriving DecidableEq

/-- A tuple of integers as `%r` prints it. -/
def tupleText : List ℤ → String
  | [value] => "(" ++ toString value ++ ",)"
  | values => "(" ++ ", ".intercalate (values.map toString) ++ ")"

def Patch.boundsText (patch : Patch) : String :=
  "(" ++ tupleText patch.lower ++ ", " ++ tupleText patch.upper ++ ")"

def Patch.text (patch : Patch) : String :=
  "(" ++ toString patch.level ++ ", " ++ tupleText patch.lower ++ ", " ++ tupleText patch.upper ++ ")"

/-- `(level, *lower, *upper)`. -/
def Patch.flatten (patch : Patch) : List ℤ := patch.level :: (patch.lower ++ patch.upper)

/-- What a row of the live listing is refused for. -/
def encodeObjection (dimension levelCount position : ℕ) (previousLevel : ℤ) (seen : List Patch) (row : Patch) :
    Option Raised :=
  if row.level < 1 ∨ row.level ≥ levelCount then
    some (.valueError ("checkpoint AMR patch-box level " ++ toString row.level ++ " is outside [1, " ++
      toString ((levelCount : ℤ) - 1) ++ "]"))
  else if row.lower.length ≠ dimension ∨ row.upper.length ≠ dimension then
    some (.valueError ("checkpoint AMR patch-box row " ++ toString position ++ " bounds must each have rank " ++
      toString dimension))
  else if row.level < previousLevel then
    some (.valueError ("checkpoint AMR patch_boxes level order drifted at row " ++ toString position))
  else if row ∈ seen then
    some (.valueError ("checkpoint AMR patch_boxes contain a duplicate row " ++ row.text))
  else none

/-- The loop of `_encode_ranked_patch_boxes`. The rows that were seen are the ranked ones. -/
def encodeRows (dimension levelCount : ℕ) : ℕ → ℤ → List Patch → List Patch → Except Raised (List Patch)
  | _, _, ranked, [] => .ok ranked
  | position, previousLevel, ranked, row :: rest =>
    match encodeObjection dimension levelCount position previousLevel ranked row with
    | some raised => .error raised
    | none => encodeRows dimension levelCount (position + 1) row.level (ranked ++ [row]) rest

/-- `_encode_ranked_patch_boxes`: the ranked rows and the flattened ones. -/
def encodeRankedPatchBoxes (rawBoxes : List Patch) (dimension levelCount : ℕ) :
    Except Raised (List Patch × List (List ℤ)) :=
  if dimension < 1 then .error (.valueError "checkpoint AMR patch-box dimension must be a positive exact integer")
  else if levelCount < 1 then
    .error (.valueError "checkpoint AMR patch-box level count must be a positive exact integer")
  else
    match encodeRows dimension levelCount 0 0 [] rawBoxes with
    | .error raised => .error raised
    | .ok ranked => .ok (ranked, ranked.map Patch.flatten)

/-- A matrix of type `int64`. -/
structure Int64Matrix where
  width : ℕ
  rows : List (List ℤ)
  rectangular : ∀ row ∈ rows, row.length = width
  fits : ∀ row ∈ rows, ∀ value ∈ row, FitsInt64 value

/-- The width that the rows give, or the one asked for where there is no row. -/
def rowWidth (rows : List (List ℤ)) (boxWidth : ℕ) : ℕ :=
  match rows with
  | [] => boxWidth
  | row :: _ => row.length

/-- The `patch_boxes` member of the payload, by `np.asarray` or, with no row, `np.empty`. -/
def archive (rows : List (List ℤ)) (boxWidth : ℕ) : Except Raised Int64Matrix :=
  if rectangular : ∀ row ∈ rows, row.length = rowWidth rows boxWidth then
    if fits : ∀ row ∈ rows, ∀ value ∈ row, FitsInt64 value then
      .ok ⟨rowWidth rows boxWidth, rows, rectangular, fits⟩
    else .error (.overflowError "Python int too large to convert to C long")
  else .error (.valueError "setting an array element with a sequence")

/-- The patch of an archived row. -/
def unpack (dimension : ℕ) (row : List ℤ) : Patch :=
  ⟨row.headD 0, (row.drop 1).take dimension, row.drop (1 + dimension)⟩

/-- `any(low < 0 or high < low or high >= extent …)`. -/
def Patch.outside (patch : Patch) (shape : List ℤ) : Bool :=
  ((patch.lower.zip patch.upper).zip shape).any fun ((low, high), extent) =>
    low < 0 || high < low || high ≥ extent

/-- `all(not (high < other_low or other_high < low) …)`. -/
def Patch.overlaps (patch other : Patch) : Bool :=
  ((patch.lower.zip patch.upper).zip (other.lower.zip other.upper)).all fun ((low, high), otherLow, otherHigh) =>
    !(high < otherLow || otherHigh < low)

/-- `per_level_boxes[level]`. -/
def perLevelBoxes (boxes : List Patch) (level : ℤ) : List Patch := boxes.filter fun other => other.level = level

/-- What a row of the archive is refused for. -/
def decodeObjection (levelCount : ℕ) (spatial : CheckpointSpatialContract) (position : ℕ) (previousLevel : ℤ)
    (boxes : List Patch) (patch : Patch) : Option Raised :=
  if patch.level < 1 ∨ patch.level ≥ levelCount then
    some (.valueError ("restart: fine patch level " ++ toString patch.level ++ " is outside [1, " ++
      toString ((levelCount : ℤ) - 1) ++ "]"))
  else if patch.level < previousLevel then
    some (.valueError ("restart: patch_boxes level order drifted at row " ++ toString position))
  else if patch ∈ boxes then
    some (.valueError ("restart: patch_boxes contain a duplicate row " ++ patch.text))
  else
    match spatial.shapeAtLevel patch.level with
    | .error raised => some raised
    | .ok shape =>
      if patch.outside shape then
        some (.valueError ("restart: invalid level-" ++ toString patch.level ++ " patch box " ++ patch.boundsText ++
          " for shape " ++ tupleText shape))
      else if shape.length < patch.lower.length then
        some (.valueError "zip() argument 3 is shorter than arguments 1-2")
      else if shape.length > patch.lower.length then
        some (.valueError "zip() argument 3 is longer than arguments 1-2")
      else
        match (perLevelBoxes boxes patch.level).find? fun other => patch.overlaps other with
        | some other =>
          some (.valueError ("restart: overlapping level-" ++ toString patch.level ++ " patch boxes " ++
            other.boundsText ++ " and " ++ patch.boundsText))
        | none => none

/-- The loop of `_decode_ranked_patch_boxes`. -/
def decodeRows (dimension levelCount : ℕ) (spatial : CheckpointSpatialContract) :
    ℕ → ℤ → List Patch → List (List ℤ) → Except Raised (List Patch)
  | _, _, boxes, [] => .ok boxes
  | position, previousLevel, boxes, row :: rest =>
    match decodeObjection levelCount spatial position previousLevel boxes (unpack dimension row) with
    | some raised => .error raised
    | none =>
      decodeRows dimension levelCount spatial (position + 1) (unpack dimension row).level
        (boxes ++ [unpack dimension row]) rest

def decodeRankedPatchBoxes (rawBoxes : Int64Matrix) (dimension levelCount : ℕ)
    (spatial : CheckpointSpatialContract) : Except Raised (List Patch) :=
  if dimension < 1 then .error (.valueError "restart: AMR patch-box dimension must be a positive exact integer")
  else if levelCount < 1 then
    .error (.valueError "restart: AMR patch-box level count must be a positive exact integer")
  else if rawBoxes.width ≠ 1 + 2 * dimension then
    .error (.valueError "restart: patch_boxes must contain level plus two bounds per spatial axis")
  else decodeRows dimension levelCount spatial 0 0 [] rawBoxes.rows

inductive Mode where
  | replicated
  | partitioned
  deriving DecidableEq

/-- The distribution of `RecordedRankTopology`. -/
structure RecordedRankTopology where
  levelDistributionModes : List Mode
  levelOwnerRanks : List (List ℤ)

/-- The mode of a level that the topology covers. -/
def RecordedRankTopology.mode (topology : RecordedRankTopology) (level : ℤ) : Mode :=
  topology.levelDistributionModes.getD level.toNat .replicated

/-- The owner map of a level that the topology covers. -/
def RecordedRankTopology.ranks (topology : RecordedRankTopology) (level : ℤ) : List ℤ :=
  topology.levelOwnerRanks.getD level.toNat []

/-- The loop of `owner_ranks_for_boxes` over the patches, with the cursor of every level. -/
def alignBoxes (topology : RecordedRankTopology) (levelCount : ℕ) :
    (ℤ → ℕ) → List ℤ → List Patch → Except Raised (List ℤ × (ℤ → ℕ))
  | cursor, owners, [] => .ok (owners, cursor)
  | cursor, owners, box :: rest =>
    if box.level < 1 ∨ box.level ≥ levelCount then
      .error (.valueError "restart: AMR patch has an invalid fine level for owner alignment")
    else
      match topology.mode box.level with
      | .replicated => alignBoxes topology levelCount cursor (owners ++ [-1]) rest
      | .partitioned =>
        match (topology.ranks box.level)[cursor box.level]? with
        | none =>
          .error (.valueError ("restart: owner-rank map for AMR level " ++ toString box.level ++ " is truncated"))
        | some rank =>
          alignBoxes topology levelCount (Function.update cursor box.level (cursor box.level + 1))
            (owners ++ [rank]) rest

/-- What the owner map of a level is refused for, after its cursor has stopped. -/
def leftover (topology : RecordedRankTopology) (cursor : ℤ → ℕ) (level : ℤ) : Option Raised :=
  if topology.mode level = .partitioned ∧ cursor level ≠ (topology.ranks level).length then
    some (.valueError ("restart: owner-rank map for AMR level " ++ toString level ++ " has surplus entries"))
  else if topology.mode level = .replicated ∧ topology.ranks level ≠ [] then
    some (.valueError ("restart: replicated AMR level " ++ toString level ++ " must have an empty owner map"))
  else none

/-- `range(1, level_count)`. -/
def fineLevels (levelCount : ℕ) : List ℤ := (List.range (levelCount - 1)).map fun offset : ℕ => (offset : ℤ) + 1

def ownerRanksForBoxes (topology : RecordedRankTopology) (boxes : List Patch) (levelCount : ℕ) :
    Except Raised (List ℤ) :=
  if levelCount ≠ topology.levelOwnerRanks.length ∨ levelCount ≠ topology.levelDistributionModes.length then
    .error (.valueError "restart: AMR recorded distribution topology has the wrong active depth")
  else
    match alignBoxes topology levelCount (fun _ => 0) [] boxes with
    | .error raised => .error raised
    | .ok (owners, cursor) =>
      match (fineLevels levelCount).findSome? (leftover topology cursor) with
      | some raised => .error raised
      | none => .ok owners

end Pops.PatchTopology
