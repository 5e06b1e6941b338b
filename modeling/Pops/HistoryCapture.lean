import Pops.HistoryPersistence

/-!
`pops/runtime/_system_io_history.py`: what a checkpoint stores of the history rings, and what a
restart reads back before it changes the runtime. The payload is one dictionary whose keys are built
from the names of the rings. The runtime exposes every history seam.
-/
namespace Pops.HistoryCapture
open HistoryPersistence (Policy range sortedSet)

/-- What the two sides raise. -/
inductive Raised where
  | typeError (what : String)
  | valueError (what : String)
  | runtimeError (what : String)
  | keyError (key : String)
  | indexError (what : String)
  | policy (raised : HistoryPersistence.Raised)
  deriving DecidableEq

/-- A float, or `none` where it is not finite. -/
abbrev Number := Option ℚ

/-! ### The manifest of a policy -/

/-- What the payload of a manifest holds under a key. -/
inductive Scalar where
  | text (value : String)
  | integer (value : ℤ)
  deriving DecidableEq

/-- A manifest envelope. -/
structure Manifest where
  protocol : String
  kind : String
  schemaVersion : ℤ
  payload : List (String × Scalar)
  deriving DecidableEq

/-- `to_manifest`. -/
def toManifest : Policy → Manifest
  | .dense => ⟨"pops.manifest", "history-persistence", 1, [("policy", .text "dense")]⟩
  | .interval k _ => ⟨"pops.manifest", "history-persistence", 1, [("policy", .text "interval"), ("k", .integer k)]⟩
  | .revolve snapshots _ =>
    ⟨"pops.manifest", "history-persistence", 1, [("policy", .text "revolve"), ("snapshots", .integer snapshots)]⟩

def quoted (text : String) : String := "'" ++ text ++ "'"

def listed (texts : List String) : String := "[" ++ ", ".intercalate texts ++ "]"

/-- `exact_mapping`, for keys in order. -/
def exactMapping (payload : List (String × Scalar)) (keys : List String) (location : String) : Except Raised Unit :=
  let missing := keys.filter fun key => (payload.lookup key).isNone
  let unknown := (payload.map Prod.fst).filter fun key => key ∉ keys
  if missing = [] ∧ unknown = [] then .ok ()
  else .error (.typeError (location ++ " requires exactly " ++ listed (keys.map quoted) ++ " (missing=" ++
    listed (missing.map quoted) ++ ", unknown=" ++ listed (unknown.map fun key => "\"" ++ quoted key ++ "\"") ++ ")"))

/-- `strict_int`, of what is under a key. -/
def strictInt (payload : List (String × Scalar)) (key location : String) : Except Raised ℤ :=
  match payload.lookup key with
  | some (.integer value) => .ok value
  | _ => .error (.typeError (location ++ " must be an integer"))

/-- `_from_manifest_payload` of the policy with this `kind`. -/
def factory (kind : String) (payload : List (String × Scalar)) : Except Raised Policy :=
  if kind = "dense" then do
    exactMapping payload ["policy"] "Dense persistence payload"
    return .dense
  else if kind = "interval" then do
    exactMapping payload ["k", "policy"] "Interval persistence payload"
    let k ← strictInt payload "k" "Interval persistence k"
    if positive : 1 ≤ k then return .interval k positive
    else .error (.valueError "Interval persistence k must be >= 1")
  else if kind = "revolve" then do
    exactMapping payload ["policy", "snapshots"] "Revolve persistence payload"
    let snapshots ← strictInt payload "snapshots" "Revolve persistence snapshots"
    if least : 2 ≤ snapshots then return .revolve snapshots least
    else .error (.valueError "Revolve persistence snapshots must be >= 2")
  else
    .error (.valueError ("history persistence kind " ++ quoted kind ++
      " unknown -- this checkpoint was written by a newer pops (known kinds: dense, interval, revolve)"))

/-- `from_manifest`. -/
def fromManifest (manifest : Manifest) : Except Raised Policy :=
  if manifest.protocol ≠ "pops.manifest" then
    .error (.valueError ("history persistence manifest protocol " ++ quoted manifest.protocol ++
      " is unsupported (expected 'pops.manifest')"))
  else if manifest.kind ≠ "history-persistence" then
    .error (.valueError ("history persistence manifest kind " ++ quoted manifest.kind ++
      " is unsupported (expected 'history-persistence')"))
  else if manifest.schemaVersion ≠ 1 then
    .error (.valueError ("unsupported history persistence manifest schema_version " ++
      toString manifest.schemaVersion ++ " (expected 1)"))
  else
    match manifest.payload.lookup "policy" with
    | none => .error (.typeError "history persistence manifest payload is missing required field 'policy'")
    | some (.text kind) =>
      if kind = "" then .error (.typeError "history persistence policy must be a non-empty string")
      else factory kind manifest.payload
    | some (.integer _) => .error (.typeError "history persistence policy must be a non-empty string")

/-! ### The storage of a ring -/

/-- A resolved storage plan. -/
structure Storage where
  requested : List ℤ
  stored : List ℤ
  mode : String
  regridSteps : Option (List ℤ)
  deriving DecidableEq

/-- `resolve_ring_policy`. -/
def resolveRingPolicy (policy : Option Policy) (depth : ℤ) : Except Raised Policy :=
  match policy with
  | none => .error (.runtimeError "checkpoint history ring has no explicit compiled persistence policy")
  | some policy => do
    let _ ← (policy.validateFor depth).mapError .policy
    return policy

/-- `replay_regrid_steps`. -/
def replayRegridSteps (depth step regridEvery : ℤ) : List ℤ :=
  if 0 < regridEvery ∧ 2 ≤ depth then
    sortedSet (((range (depth - 1)).reverse.map fun j => step - 1 - j).filter fun cursor =>
      0 < cursor ∧ cursor % regridEvery = 0)
  else []

/-- How many steps a macro step of the Program makes, and how many macro steps it skips. -/
structure Cadence where
  substeps : ℤ
  stride : ℤ
  deriving DecidableEq

/-- The plan of a ring whose metadata is valid, from the slots that its policy requests. -/
def effective (requested : List ℤ) (depth fillCount macroStep regridEvery : ℤ) (cadence : Cadence) : Storage :=
  let regridSteps :=
    if requested.length < depth ∧ cadence = ⟨1, 1⟩ then some (replayRegridSteps depth macroStep regridEvery) else none
  if requested.length < depth ∧ fillCount < depth then
    ⟨requested, range depth, "dense_cold_start_safety", regridSteps⟩
  else if requested.length < depth ∧ cadence ≠ ⟨1, 1⟩ then
    ⟨requested, range depth, "dense_cadence_safety", regridSteps⟩
  else if regridSteps.getD [] ≠ [] then ⟨requested, range depth, "dense_regrid_safety", regridSteps⟩
  else ⟨requested, requested, "policy", regridSteps⟩

/-- `resolve_history_storage`. -/
def resolveHistoryStorage (policy : Option Policy) (depth fillCount macroStep regridEvery : ℤ) (cadence : Cadence) :
    Except Raised Storage := do
  let policy ← resolveRingPolicy policy depth
  if fillCount < 0 ∨ depth < fillCount then
    .error (.valueError ("history fill count " ++ toString fillCount ++ " is outside [0, " ++ toString depth ++ "]"))
  else if cadence.substeps < 1 ∨ cadence.stride < 1 then
    .error (.valueError "history storage requires positive integer Program cadence")
  else do
    let requested ← (policy.storedSlots depth).mapError .policy
    return effective requested depth fillCount macroStep regridEvery cadence

/-- `resolve_hierarchy_history_storage`. -/
def resolveHierarchyHistoryStorage (rows : List Storage) (depth : ℤ) : Except Raised Storage :=
  match rows with
  | [] => .error (.indexError "list index out of range")
  | first :: rest =>
    if ∀ row ∈ rest, row = first then .ok first
    else if ∃ row ∈ rest, row.requested ≠ first.requested then
      .error (.runtimeError "checkpoint history policy differs between hierarchy levels")
    else
      .ok ⟨first.requested, range depth, "dense_hierarchy_level_safety",
        if ∃ row ∈ rows, row.regridSteps = none then none
        else some (sortedSet (rows.flatMap fun row => row.regridSteps.getD []))⟩

/-! ### Capture -/

/-- A float64 array, cell by cell. -/
structure Buffer where
  shape : List ℕ
  cells : List Number
  deriving DecidableEq

/-- What the payload holds under a key; a manifest is its JSON text. -/
inductive Value where
  | integer (value : ℤ)
  | boolean (value : Bool)
  | integers (values : List ℤ)
  | text (value : String)
  | texts (values : List String)
  | manifest (value : Manifest)
  | array (values : Buffer)

/-- The payload. -/
abbrev Payload := String → Option Value

/-- The native runtime. A Uniform runtime has no levels of a ring. -/
structure System where
  historyNames : List String
  historyDepth : String → ℤ
  historyNcomp : String → ℤ
  historyLevels : String → Option (List ℤ)
  historyInitialized : String → Option ℤ → Bool
  historyFillCount : String → Option ℤ → ℤ
  historySlotDt : String → Option ℤ → ℤ → Number
  historyGlobal : String → Option ℤ → ℤ → Buffer
  cadence : Cadence

/-- `HistoryLevelCapture`. -/
structure LevelCapture where
  level : Option ℤ
  initialized : Bool
  fillCount : ℤ
  slotDt : List Number
  deriving DecidableEq

/-- `HistoryRingCapture`. -/
structure RingCapture where
  name : String
  depth : ℤ
  ncomp : ℤ
  policy : Manifest
  storage : Storage
  levels : List LevelCapture
  deriving DecidableEq

/-- `validate_history_slot_dt_payload`, of what is under the key. -/
def validateSlotDt (value : Option Value) (name : String) (depth fillCount : ℤ) : Except Raised (List Number) :=
  match value with
  | none => .error (.valueError ("history '" ++ name ++ "' lacks its strict outgoing-dt ledger"))
  | some (.array ledger) =>
    if ledger.shape.length ≠ 1 ∨ (ledger.cells.length : ℤ) ≠ depth then
      .error (.typeError ("history '" ++ name ++ "' outgoing-dt ledger must be a length-" ++ toString depth ++
        " binary64 vector"))
    else if ∃ cell ∈ ledger.cells, cell = none then
      .error (.valueError ("history '" ++ name ++ "' outgoing-dt ledger must be finite"))
    else if fillCount = 0 then
      if ∃ cell ∈ ledger.cells, cell ≠ some 0 then
        .error (.valueError ("history '" ++ name ++ "' is uninitialized but its outgoing-dt ledger is nonzero"))
      else .ok ledger.cells
    else if ∃ cell ∈ ledger.cells, cell.getD 0 ≤ 0 then
      .error (.valueError ("history '" ++ name ++ "' initialized outgoing-dt ledger must be strictly positive"))
    else .ok ledger.cells
  | some _ =>
    .error (.typeError ("history '" ++ name ++ "' outgoing-dt ledger must be a length-" ++ toString depth ++
      " binary64 vector"))

/-- The levels of a ring, which must be non-empty, sorted and unique. -/
def checkedLevels (levels : Option (List ℤ)) (refused : Raised) : Except Raised (List (Option ℤ)) :=
  match levels with
  | none => .ok [none]
  | some levels => if levels = [] ∨ sortedSet levels ≠ levels then .error refused else .ok (levels.map some)

/-- The `%r` of a level. -/
def levelText : Option ℤ → String
  | none => "None"
  | some level => toString level

/-- A pass of the loop of `prepare_history_capture` over the levels of a ring. -/
def prepareLevel (sys : System) (policy : Policy) (macroStep regridEvery : ℤ) (name : String) (level : Option ℤ) :
    Except Raised (Storage × LevelCapture) := do
  let depth := sys.historyDepth name
  let initialized := sys.historyInitialized name level
  let fillCount := sys.historyFillCount name level
  if initialized ≠ decide (0 < fillCount) then
    .error (.runtimeError ("checkpoint history '" ++ name ++ "' level " ++ levelText level ++
      " has inconsistent initialized/fill-count metadata"))
  else do
    let row ← resolveHistoryStorage (some policy) depth fillCount macroStep regridEvery sys.cadence
    let ledger := (range depth).map (sys.historySlotDt name level)
    let slotDt ← validateSlotDt (some (.array ⟨[ledger.length], ledger⟩)) name depth fillCount
    return (row, ⟨level, initialized, fillCount, slotDt⟩)

/-- A pass of the loop of `prepare_history_capture` over the rings. -/
def prepareRing (sys : System) (persistence : String → Option Policy) (macroStep regridEvery : ℤ) (name : String) :
    Except Raised RingCapture := do
  let depth := sys.historyDepth name
  let policy ← resolveRingPolicy (persistence name) depth
  let levels ← checkedLevels (sys.historyLevels name)
    (.valueError "checkpoint history levels must be non-empty, sorted, and unique")
  let rows ← levels.mapM (prepareLevel sys policy macroStep regridEvery name)
  let storage ← resolveHierarchyHistoryStorage (rows.map Prod.fst) depth
  return ⟨name, depth, sys.historyNcomp name, toManifest policy, storage, rows.map Prod.snd⟩

/-- `prepare_history_capture`. -/
def prepareHistoryCapture (sys : System) (persistence : String → Option Policy) (macroStep regridEvery : ℤ) :
    Except Raised (List RingCapture) :=
  if ¬ sys.historyNames.Nodup then .error (.valueError "checkpoint history names must be unique")
  else sys.historyNames.mapM (prepareRing sys persistence macroStep regridEvery)

/-- `_history_level_key`. -/
def historyLevelKey (start name : String) : Option ℤ → String
  | none => start ++ name
  | some level => start ++ name ++ "_level_" ++ toString level

/-- `_history_slot_key`. -/
def historySlotKey (name : String) (level : Option ℤ) (slot : ℤ) : String :=
  match level with
  | none => "history_" ++ name ++ "_" ++ toString slot
  | some level => "history_" ++ name ++ "_level_" ++ toString level ++ "_" ++ toString slot

/-- What a level writes. -/
def levelEntries (sys : System) (ring : RingCapture) (level : LevelCapture) : List (String × Value) :=
  [(historyLevelKey "history_init_" ring.name level.level, .boolean level.initialized),
    (historyLevelKey "history_fill_count_" ring.name level.level, .integer level.fillCount),
    (historyLevelKey "history_slot_dt_" ring.name level.level, .array ⟨[level.slotDt.length], level.slotDt⟩)] ++
  ring.storage.stored.map fun slot =>
    (historySlotKey ring.name level.level slot, .array (sys.historyGlobal ring.name level.level slot))

/-- The levels of a hierarchy; a Uniform ring has one level, which has no number. -/
def RingCapture.qualified (ring : RingCapture) : Option (List ℤ) := ring.levels.mapM LevelCapture.level

/-- What a ring writes, in order. -/
def ringEntries (sys : System) (ring : RingCapture) : List (String × Value) :=
  [("history_depth_" ++ ring.name, .integer ring.depth),
    ("history_ncomp_" ++ ring.name, .integer ring.ncomp),
    ("history_policy_" ++ ring.name, .manifest ring.policy),
    ("history_requested_stored_slots_" ++ ring.name, .integers ring.storage.requested),
    ("history_stored_slots_" ++ ring.name, .integers ring.storage.stored),
    ("history_storage_mode_" ++ ring.name, .text ring.storage.mode)] ++
  (ring.storage.regridSteps.toList.map fun steps => ("history_regrid_steps_" ++ ring.name, .integers steps)) ++
  (ring.qualified.toList.map fun levels => ("history_levels_" ++ ring.name, .integers levels)) ++
  ring.levels.flatMap (levelEntries sys ring)

/-- What `capture_histories` writes, in order. -/
def entries (sys : System) (plan : List RingCapture) : List (String × Value) :=
  ("history_names", .texts (plan.map RingCapture.name)) :: plan.flatMap (ringEntries sys)

/-- `out[key] = value`. -/
def write (out : Payload) (entry : String × Value) : Payload := Function.update out entry.1 (some entry.2)

/-- `capture_histories`. -/
def captureHistories (sys : System) (plan : List RingCapture) (out : Payload) : Payload :=
  (entries sys plan).foldl write out

/-- What the checkpoint holds of the clock before the histories are captured; a Uniform one has no
`regrid_every`. -/
def header (sys : System) (macroStep : ℤ) (regridEvery : Option ℤ) : Payload := fun key =>
  if key = "macro_step" then some (.integer macroStep)
  else if key = "regrid_every" then regridEvery.map .integer
  else if key = "program_cadence_substeps" then some (.integer sys.cadence.substeps)
  else if key = "program_cadence_stride" then some (.integer sys.cadence.stride)
  else none

/-! ### Restart -/

/-- `d[key]`. -/
def item (payload : Payload) (key : String) : Except Raised Value :=
  match payload key with
  | none => .error (.keyError key)
  | some value => .ok value

/-- `int` of a float. -/
def truncate : Number → Except Raised ℤ
  | none => .error (.valueError "cannot convert a float that is not finite to integer")
  | some value => .ok (if 0 ≤ value then ⌊value⌋ else ⌈value⌉)

/-- `int` of a text. -/
def parseInteger (text : String) : Except Raised ℤ :=
  match text.toInt? with
  | some value => .ok value
  | none => .error (.valueError ("invalid literal for int() with base 10: " ++ quoted text))

/-- `int(value)`. -/
def asInteger : Value → Except Raised ℤ
  | .integer value => .ok value
  | .boolean value => .ok (if value then 1 else 0)
  | .integers [value] => .ok value
  | .text value | .texts [value] => parseInteger value
  | .array ⟨_, [cell]⟩ => truncate cell
  | .manifest _ => .error (.valueError "invalid literal for int() with base 10")
  | .integers _ | .texts _ | .array _ => .error (.typeError "only length-1 arrays can be converted to Python scalars")

/-- `bool(value)`. -/
def asBoolean : Value → Except Raised Bool
  | .integer value | .integers [value] => .ok (value ≠ 0)
  | .boolean value => .ok value
  | .text value | .texts [value] => .ok (value ≠ "")
  | .array ⟨_, [cell]⟩ => .ok (cell ≠ some 0)
  | .manifest _ => .ok true
  | .integers _ | .texts _ | .array _ =>
    .error (.valueError
      "The truth value of an array with more than one element is ambiguous. Use a.any() or a.all()")

/-- `tuple(int(row) for row in value)`. -/
def asIntegers : Value → Except Raised (List ℤ)
  | .integers values => .ok values
  | .texts values => values.mapM parseInteger
  | .array ⟨rows :: _, cells⟩ =>
    if cells.length = rows then cells.mapM truncate
    else .error (.typeError "only length-1 arrays can be converted to Python scalars")
  | .integer _ | .boolean _ => .error (.typeError "object is not iterable")
  | .text _ | .manifest _ | .array _ => .error (.typeError "iteration on a 0-d array")

/-- `str(value)` of a text. The text of no other value is a storage mode. -/
def asText : Value → String
  | .text value => value
  | _ => ""

/-- `np.asarray(value, dtype=np.float64)`. -/
def asBuffer : Value → Except Raised Buffer
  | .array values => .ok values
  | .integer value => .ok ⟨[], [some value]⟩
  | .boolean value => .ok ⟨[], [some (if value then 1 else 0)]⟩
  | .integers values => .ok ⟨[values.length], values.map fun value => some (value : ℚ)⟩
  | .text _ | .texts _ | .manifest _ => .error (.valueError "could not convert string to float")

/-- `HistoryPersistence.from_json`. -/
def fromJson : Value → Except Raised Policy
  | .manifest manifest => fromManifest manifest
  | _ => .error (.typeError "history persistence manifest must be a mapping")

/-- `history_fill_count_from_payload`. -/
def historyFillCountFromPayload (payload : Payload) (name : String) (depth : ℤ) (initialized : Bool)
    (level : Option ℤ) : Except Raised ℤ :=
  match payload (historyLevelKey "history_fill_count_" name level) with
  | none => .error (.valueError ("history '" ++ name ++ "' lacks strict fill-count metadata"))
  | some value => do
    let fillCount ← asInteger value
    if fillCount < 0 ∨ depth < fillCount then
      .error (.valueError ("history '" ++ name ++ "' fill count " ++ toString fillCount ++ " is outside [0, " ++
        toString depth ++ "]"))
    else if initialized ≠ decide (0 < fillCount) then
      .error (.valueError ("history '" ++ name ++ "' has inconsistent initialized/fill-count metadata"))
    else return fillCount

/-- A level that a restart has read. -/
structure LevelRow where
  level : Option ℤ
  fillCount : ℤ
  anchors : List (ℤ × Buffer)
  slotDt : List Number
  initialized : Bool
  deriving DecidableEq

/-- A ring that a restart has read. -/
structure Prepared where
  name : String
  depth : ℤ
  policy : Policy
  requested : List ℤ
  stored : List ℤ
  mode : String
  levels : List LevelRow
  deriving DecidableEq

/-- `int(d.get(key, default))`. -/
def integerOr (payload : Payload) (key : String) (otherwise : ℤ) : Except Raised ℤ :=
  match payload key with
  | none => .ok otherwise
  | some value => asInteger value

/-- A pass of the loop of `restore_histories` over the levels of a ring. -/
def restoreLevel (payload : Payload) (policy : Policy) (name : String) (depth : ℤ) (stored : List ℤ)
    (level : Option ℤ) : Except Raised (Storage × LevelRow) :=
  match payload (historyLevelKey "history_init_" name level) with
  | none =>
    .error (.valueError ("restart : history '" ++ name ++ "' level " ++ levelText level ++ " lacks initialized metadata"))
  | some value => do
    let initialized ← asBoolean value
    let fillCount ← historyFillCountFromPayload payload name depth initialized level
    let macroStep ← integerOr payload "macro_step" 0
    let regridEvery ← integerOr payload "regrid_every" 0
    let substeps ← integerOr payload "program_cadence_substeps" 1
    let stride ← integerOr payload "program_cadence_stride" 1
    let row ← resolveHistoryStorage (some policy) depth fillCount macroStep regridEvery ⟨substeps, stride⟩
    let anchors ← stored.mapM fun slot => do
      let values ← item payload (historySlotKey name level slot)
      let buffer ← asBuffer values
      return (slot, buffer)
    let slotDt ← validateSlotDt (payload (historyLevelKey "history_slot_dt_" name level)) name depth fillCount
    return (row, ⟨level, fillCount, anchors, slotDt, initialized⟩)

/-- The levels of a ring, which must be those of the runtime. -/
def restoreLevels (runtime : String → Option (List ℤ)) (payload : Payload) (name : String) :
    Except Raised (List (Option ℤ)) := do
  let refused := .valueError ("restart : history '" ++ name ++ "' levels must be non-empty, sorted, and unique")
  match payload ("history_levels_" ++ name) with
  | none => checkedLevels none refused
  | some value => do
    let numbers ← asIntegers value
    let levels ← checkedLevels (some numbers) refused
    if runtime name ≠ some numbers then
      .error (.runtimeError ("restart : history '" ++ name ++ "' hierarchy levels differ from the runtime"))
    else return levels

/-- The `%r` of a list of slots. -/
def slotsText (slots : List ℤ) : String := listed (slots.map toString)

/-- A pass of the loop of `restore_histories` over the rings. -/
def restoreRing (runtime : String → Option (List ℤ)) (payload : Payload) (name : String) : Except Raised Prepared := do
  let depth ← item payload ("history_depth_" ++ name) >>= asInteger
  let levels ← restoreLevels runtime payload name
  match payload ("history_policy_" ++ name) with
  | none => .error (.runtimeError ("restart : history '" ++ name ++ "' lacks its required persistence manifest"))
  | some manifest => do
    let policy ← fromJson manifest
    match payload ("history_requested_stored_slots_" ++ name), payload ("history_stored_slots_" ++ name),
        payload ("history_storage_mode_" ++ name) with
    | some requestedValue, some storedValue, some modeValue => do
      let requested ← asIntegers requestedValue
      let requested := requested.insertionSort (· ≤ ·)
      let stored ← asIntegers storedValue
      let stored := stored.insertionSort (· ≤ ·)
      let rows ← levels.mapM (restoreLevel payload policy name depth stored)
      let expected ← resolveHierarchyHistoryStorage (rows.map Prod.fst) depth
      if requested ≠ expected.requested then
        .error (.runtimeError ("restart : history '" ++ name ++ "' checkpoint requested slots " ++
          slotsText requested ++ " != policy " ++ policy.name ++ " expects " ++ slotsText expected.requested))
      else if stored ≠ expected.stored ∨ asText modeValue ≠ expected.mode then
        .error (.runtimeError ("restart : history '" ++ name ++ "' resolved storage plan (" ++ slotsText stored ++ ", " ++
          asText modeValue ++ ") != expected (" ++ slotsText expected.stored ++ ", " ++ expected.mode ++ ")"))
      else return ⟨name, depth, policy, requested, stored, expected.mode, rows.map Prod.snd⟩
    | _, _, _ => .error (.runtimeError ("restart : history '" ++ name ++ "' lacks its resolved storage plan"))

/-- The names of the rings, which are only ever written as texts. -/
def asTexts : Value → Except Raised (List String)
  | .texts values => .ok values
  | _ => .error (.typeError "history names must be texts")

/-- `restore_histories`, until the runtime is changed. -/
def restoreHistories (runtime : String → Option (List ℤ)) (payload : Payload) : Except Raised (List Prepared) := do
  let names ← item payload "history_names" >>= asTexts
  if ¬ names.Nodup then .error (.valueError "restart : checkpoint history names must be unique")
  else names.mapM (restoreRing runtime payload)

end Pops.HistoryCapture
