import Pops.HistoryPersistence

/-!
`pops/time/_program/history.py`: the declaration of history rings, by a read or by a store. A call
that raises keeps what it has registered until then.
-/
namespace Pops.HistoryDeclaration
open HistoryPersistence (Policy)

/-- What the calls raise. -/
inductive Raised where
  | typeError (what : String)
  | valueError (what : String)
  | runtimeError (what : String)
  | policy (raised : HistoryPersistence.Raised)
  deriving DecidableEq

/-- What a caller passes for an optional argument: nothing, an object of another type, or a value. -/
inductive Argument (α : Type) where
  | absent
  | foreign
  | given (value : α)
  deriving DecidableEq

/-- An object passed as a space: its `state_space_name`, its `state_space_key`, and whether it has
`__pops_ir_immutable__`. -/
structure Space where
  name : Option String
  key : Option String
  immutable : Bool
  deriving DecidableEq

/-- The Case registry of a block, as `bind_program_block` authenticates it. -/
inductive Authority where
  | detached
  | refused (raised : Raised)
  | outside
  | caseOwner (name : String) (authority : ℕ)
  deriving DecidableEq

/-- A `BlockHandle`: the object that it is, and the identity that `==` compares. -/
structure Block where
  object : ℕ
  qualifiedId : String
  authority : Authority
  deriving DecidableEq

/-- A `Handle`. -/
structure Handle where
  object : ℕ
  qualifiedId : String
  /-- Its `kind` is `"state"` and it `is_instance`. -/
  isState : Bool
  blockRef : Block
  deriving DecidableEq

/-- A `HistoryContract`. -/
structure Contract where
  owner : String
  state : Handle
  space : Option Space
  depth : ℤ
  clock : String
  deriving DecidableEq

/-- A node of the IR. `blocks` are the nodes of its sub-blocks, one block after another. -/
inductive Node where
  | node (id : ℕ) (vtype op name history : String) (lag : Option ℤ) (block : Option Block)
      (space : Option Space) (stateRef : Option Handle) (inputs : List ℕ) (blocks : List Node)

/-- A `ProgramValue` passed to `store_history`, with what its constructor has checked. -/
structure Value where
  id : ℕ
  prog : ℕ
  issued : Bool
  name : String
  vtype : String
  stateSpace : Bool
  region : ℕ
  block : Option Block
  space : Option Space
  stateRef : Option Handle
  immutable : ∀ given ∈ space, given.immutable = true
  qualified : ∀ handle ∈ stateRef, handle.isState = true ∧ block.map Block.object = some handle.blockRef.object

/-- A Python dict. -/
abbrev Dict (α : Type) := List (String × α)

def Dict.get {α : Type} (dict : Dict α) (name : String) : Option α := dict.lookup name

/-- `dict[name] = value`. -/
def Dict.set {α : Type} (name : String) (value : α) : Dict α → Dict α
  | [] => [(name, value)]
  | (other, old) :: rest =>
    if other = name then (other, value) :: rest else (other, old) :: Dict.set name value rest

/-- The history registries of a Program. -/
structure Registries where
  /-- `_histories`: the largest declared lag. -/
  histories : Dict ℤ
  spaces : Dict (Option Space)
  blocks : Dict (Option Block)
  stateRefs : Dict Handle
  ncomp : Dict ℤ
  persistence : Dict (ℤ × Policy)

/-- The IR of a Program: its nodes, and those of the sub-block that is recorded. -/
structure Graph where
  nextId : ℕ
  values : List Node
  recording : Option (List Node)

structure Program where
  object : ℕ
  name : String
  owner : String
  frozen : Bool
  caseOwner : Option (String × ℕ)
  registries : Registries
  graph : Graph

/-- A method of a Program: what it raises does not undo what it has done. -/
abbrev Method := EStateM Raised Program

/-- A check that raises. -/
def require (passes : Prop) [Decidable passes] (raised : Raised) : Method Unit :=
  if passes then pure () else throw raised

/-- A computation that reads nothing but its arguments. -/
def lift {α : Type} : Except Raised α → Method α
  | .ok value => pure value
  | .error raised => throw raised

def register (change : Registries → Registries) : Method Unit :=
  modify fun program => { program with registries := change program.registries }

def guardMutable (operation : String) : Method Unit := do
  let program ← get
  require (program.frozen = false)
    (.runtimeError ("pops.time.Program '" ++ program.name ++ "' is frozen: cannot " ++ operation))

def bindProgramBlock (block : Block) (location : String) : Method Unit := do
  match block.authority with
  | .detached =>
    throw (.valueError (location ++ ": block " ++ block.qualifiedId ++
      " is detached from its authoritative Case registry"))
  | .refused raised => throw raised
  | .outside => throw (.valueError (location ++ ": block owner must be a Case OwnerPath"))
  | .caseOwner name authority =>
    match (← get).caseOwner with
    | none => modify fun program => { program with caseOwner := some (name, authority) }
    | some bound =>
      require (bound = (name, authority))
        (.valueError (location ++ ": one Program cannot combine blocks from " ++
          (if bound.1 = name then "two distinct Case authoring authorities both named '" ++ name ++ "'"
           else "Case '" ++ bound.1 ++ "' and Case '" ++ name ++ "'") ++ "; build one Program per Case"))

/-- The block of a new value, where it has one. -/
def bindBlock (op : String) : Option Block → Method Unit
  | none => pure ()
  | some block => bindProgramBlock block ("IR op '" ++ op ++ "'")

/-- `_new`. A number is drawn before the constructor of the value looks at its space. -/
def new (vtype op name : String) (lag : Option ℤ) (block : Option Block) (space : Option Space)
    (stateRef : Option Handle) (inputs : List ℕ) : Method Unit := do
  guardMutable ("add IR node '" ++ op ++ "'")
  bindBlock op block
  let id := (← get).graph.nextId
  modify fun program => { program with graph := { program.graph with nextId := id + 1 } }
  require (∀ given ∈ space, given.immutable = true)
    (.typeError "ProgramValue space must be an immutable typed Space or None")
  let node : Node := .node id vtype op name name lag block space stateRef inputs []
  modify fun program => { program with
    graph := { program.graph with
      values := if program.graph.recording.isNone then program.graph.values ++ [node] else program.graph.values
      recording := program.graph.recording.map (· ++ [node]) } }

mutual

/-- The rings that a node stores, or the nodes of its sub-blocks. -/
def Node.stores : Node → List String
  | .node _ _ op _ history _ _ _ _ _ blocks =>
    (if op = "store_history" then [history] else []) ++ storesOf blocks

def storesOf : List Node → List String
  | [] => []
  | node :: rest => node.stores ++ storesOf rest

end

def Program.hasHistoryStore (program : Program) (name : String) : Bool := name ∈ storesOf program.graph.values

def validateFor (policy : Policy) (ringSlots : ℤ) : Except Raised Policy :=
  match policy.validateFor ringSlots with
  | .ok _ => .ok policy
  | .error raised => .error (.policy raised)

def resolveHistoryPersistence : Argument Policy → Except Raised Policy
  | .absent => .ok .dense
  | .given policy => .ok policy
  | .foreign =>
    .error (.typeError ("keep_history(checkpoint_policy): expected a pops.time history-persistence policy " ++
      "(Dense / Interval(k) / Revolve(snapshots)) or None; a bare object / string is not a typed policy"))

/-- `_snapshot_history_persistence`. The clone of a policy is equal to it. -/
def snapshotHistoryPersistence (checkpointPolicy : Argument Policy) (ringSlots : ℤ) : Except Raised Policy := do
  let policy ← resolveHistoryPersistence checkpointPolicy
  validateFor policy ringSlots

def policyForHistoryRead (program : Program) (name : String) (ringSlots : ℤ) : Except Raised Policy :=
  match program.registries.persistence.get name with
  | none => snapshotHistoryPersistence .absent ringSlots
  | some (_, policy) => validateFor policy ringSlots

def policyForHistoryStore (program : Program) (name : String) (ringSlots : ℤ)
    (checkpointPolicy : Argument Policy) : Except Raised Policy := do
  let requested ← snapshotHistoryPersistence checkpointPolicy ringSlots
  match program.registries.persistence.get name with
  | none => return requested
  | some (_, current) =>
    if current = requested then validateFor current ringSlots
    else if ¬ program.hasHistoryStore name ∧ current = .dense then return requested
    else
      .error (.valueError ("store_history: persistence policy for '" ++ name ++ "' is already " ++ current.name ++
        " and cannot change to " ++ requested.name))

/-- `require_compatible_spaces`, of a pair that is typed. -/
def requireCompatibleSpaces (left right : Option Space) (location : String) : Except Raised Unit :=
  match left, right with
  | none, none => .ok ()
  | some left, some right =>
    if left.name ≠ right.name then .error (.valueError (location ++ ": incompatible state spaces"))
    else if left.key.isSome ∧ right.key.isSome ∧ left.key ≠ right.key then
      .error (.valueError (location ++ ": state spaces have incompatible structures"))
    else .ok ()
  | _, _ => .error (.valueError (location ++ ": both state declarations must carry complete StateSpace provenance"))

def requireHistorySpace (name : String) (space : Option Space) : Method Unit := do
  match (← get).registries.spaces.get name with
  | none => register fun registries => { registries with spaces := registries.spaces.set name space }
  | some prior => lift (requireCompatibleSpaces prior space ("history '" ++ name ++ "'"))

/-- The `==` of two handles of blocks. -/
def sameBlock (left right : Option Block) : Bool := left.map Block.qualifiedId = right.map Block.qualifiedId

def declareHistoryBlock (name : String) (block : Option Block) : Method Unit := do
  match (← get).registries.blocks.get name with
  | none => register fun registries => { registries with blocks := registries.blocks.set name block }
  | some prior =>
    require (sameBlock prior block) (.valueError ("history '" ++ name ++ "' cannot mix block provenance"))

/-- The handle that `_declare_history_state` accepts for a block. -/
def stateHandle (stateRef : Argument Handle) (block : Option Block) : Except Raised Handle :=
  match stateRef with
  | .given handle =>
    if handle.isState = false then
      .error (.typeError "history: a full-state ring requires a block-qualified state Handle")
    else if block.map Block.object ≠ some handle.blockRef.object then
      .error (.valueError "history: state_ref belongs to a different block")
    else .ok handle
  | _ => .error (.typeError "history: a full-state ring requires a block-qualified state Handle")

def declareHistoryState (name : String) (stateRef : Argument Handle) (block : Option Block) : Method Unit := do
  let handle ← lift (stateHandle stateRef block)
  match (← get).registries.stateRefs.get name with
  | none => register fun registries => { registries with stateRefs := registries.stateRefs.set name handle }
  | some prior =>
    require (prior.qualifiedId = handle.qualifiedId)
      (.valueError ("history '" ++ name ++ "' cannot mix state declarations " ++ prior.qualifiedId ++ " and " ++
        handle.qualifiedId))

/-- The three declarations that a read and a store of a full-state ring make. -/
def declareRing (name : String) (space : Option Space) (block : Option Block) (stateRef : Argument Handle) :
    Method Unit := do
  requireHistorySpace name space
  declareHistoryBlock name block
  declareHistoryState name stateRef block

/-- The name that a call accepts. -/
def checkName (call : String) : Argument String → Except Raised String
  | .given name =>
    if name = "" then .error (.valueError (call ++ ": name must be a non-empty string")) else .ok name
  | _ => .error (.valueError (call ++ ": name must be a non-empty string"))

/-- An integer of at least one. -/
def checkPositive (what : String) : Argument ℤ → Except Raised ℤ
  | .given value => if value < 1 then .error (.valueError what) else .ok value
  | _ => .error (.valueError what)

/-- What the call of `history` passes. -/
structure Read where
  name : Argument String
  lag : Argument ℤ
  ncomp : Argument ℤ
  space : Option Space
  block : Argument Block
  stateRef : Argument Handle
  contract : Argument Contract

/-- The block that a read names. -/
def checkBlock : Argument Block → Except Raised (Option Block)
  | .absent => .ok none
  | .given block => .ok (some block)
  | .foreign => .error (.typeError "history: block must be a BlockHandle or None")

/-- The checks of a contract. -/
def checkContract (program : Program) (contract : Argument Contract) (stateRef : Argument Handle)
    (space : Option Space) (block : Option Block) (lag : ℤ) : Except Raised Unit :=
  match contract with
  | .absent => .ok ()
  | .foreign => .error (.typeError "history: contract must be an exact HistoryContract")
  | .given contract =>
    if contract.owner ≠ program.owner then .error (.valueError "history: contract belongs to a different Program")
    else if stateRef ≠ .given contract.state ∨ contract.space ≠ space then
      .error (.valueError "history: contract state/space does not match the history ring")
    else if some contract.state.blockRef.object ≠ block.map Block.object then
      .error (.valueError "history: contract state belongs to a different block")
    else if lag > contract.depth then
      .error (.valueError "history: requested lag exceeds the HistoryContract depth")
    else .ok ()

/-- The handle in an argument. -/
def Argument.toOption {α : Type} : Argument α → Option α
  | .given value => some value
  | _ => none

/-- `max(self._histories.get(name, 0), lag)`. -/
def Program.maxLag (program : Program) (name : String) (lag : ℤ) : ℤ :=
  max ((program.registries.histories.get name).getD 0) lag

/-- The space of a full-state read: that of the ring, where the call names none. -/
def Program.ringSpace (program : Program) (name : String) (space : Option Space) : Option Space :=
  if space.isNone then (program.registries.spaces.get name).getD none else space

/-- The block of a full-state read: that of the ring, where the call names none. -/
def Program.ringBlock (program : Program) (name : String) (block : Option Block) : Option Block :=
  if block.isNone then (program.registries.blocks.get name).getD none else block

/-- `history`, of a full state. -/
def fullHistory (name : String) (lag : ℤ) (space : Option Space) (block : Option Block)
    (stateRef : Argument Handle) (contract : Argument Contract) : Method Unit := do
  let program ← get
  let space := program.ringSpace name space
  let block := program.ringBlock name block
  declareRing name space block stateRef
  lift (checkContract program contract stateRef space block lag)
  let maxLag := program.maxLag name lag
  let policy ← lift (policyForHistoryRead program name (maxLag + 1))
  new "state" "history" name (some lag) block space stateRef.toOption []
  register fun registries => { registries with
    histories := registries.histories.set name maxLag
    persistence := registries.persistence.set name (maxLag + 1, policy) }

/-- `history`, of one scalar component. -/
def scalarHistory (name : String) (lag : ℤ) (call : Read) (block : Option Block) : Method Unit := do
  require (call.space = none ∧ call.stateRef = .absent)
    (.valueError "history: a narrow scalar ring has no StateSpace/state provenance")
  require (call.ncomp = .given 1)
    (.valueError "history: explicit ncomp must be 1; omit it for a full-state history")
  let program ← get
  let maxLag := program.maxLag name lag
  let policy ← lift (policyForHistoryRead program name (maxLag + 1))
  declareHistoryBlock name block
  new "scalar_field" "history" name (some lag) block none none []
  register fun registries => { registries with
    histories := registries.histories.set name maxLag
    ncomp := registries.ncomp.set name 1
    persistence := registries.persistence.set name (maxLag + 1, policy) }

/-- The name, the lag and the block of a read. -/
def checkRead (call : Read) : Except Raised (String × ℤ × Option Block) := do
  let name ← checkName "history" call.name
  let lag ← checkPositive "history: lag must be a Python int >= 1" call.lag
  let block ← checkBlock call.block
  return (name, lag, block)

def history (call : Read) : Method Unit := do
  guardMutable "declare a history read"
  let (name, lag, block) ← lift (checkRead call)
  match call.ncomp with
  | .absent => fullHistory name lag call.space block call.stateRef call.contract
  | _ => scalarHistory name lag call block

/-- What the call of `store_history` passes. -/
structure Store where
  name : Argument String
  value : Argument Value
  depth : Argument ℤ
  checkpointPolicy : Argument Policy

/-- The field of this Program's top level that a store names. -/
def checkValue (program : Program) : Argument Value → Except Raised Value
  | .given value =>
    if value.vtype ∉ ["state", "rhs", "scalar_field"] then
      .error (.valueError "store_history: value must be a State/RHS field")
    else if value.prog ≠ program.object then
      .error (.valueError ("store_history: value '" ++ value.name ++ "' belongs to a different Program"))
    else if value.issued = false then
      .error (.valueError ("store_history: value '" ++ value.name ++ "' was not authored by this Program"))
    else if value.region ≠ 0 then
      .error (.valueError ("store_history: sub-block value '" ++ value.name ++ "' cannot escape its authoring region"))
    else .ok value
  | _ => .error (.valueError "store_history: value must be a State/RHS field")

/-- The largest lag of the ring after a store. -/
def storeLag (program : Program) (name : String) (depth : Argument ℤ) (checkpointPolicy : Argument Policy) :
    Except Raised ℤ := do
  let declaredLag := (program.registries.histories.get name).getD 0
  match depth with
  | .absent =>
    let supplied ← resolveHistoryPersistence checkpointPolicy
    if declaredLag = 0 ∧ supplied ≠ .dense then
      .error (.valueError ("store_history: a non-Dense checkpoint_policy requires depth= when no " ++
        "history read has declared the final ring depth"))
    else return max declaredLag 1
  | depth =>
    let depth ← checkPositive "store_history: maximum history lag must be an int >= 1" depth
    if declaredLag > depth then
      .error (.valueError ("store_history: configured depth " ++ toString depth ++ " is smaller than declared lag " ++
        toString declaredLag ++ " for '" ++ name ++ "'"))
    else return depth

/-- What a store settles before it declares anything: the name, the value, the lag and the policy. -/
def checkStore (program : Program) (call : Store) : Except Raised (String × Value × ℤ × Policy) := do
  let name ← checkName "store_history" call.name
  let value ← checkValue program call.value
  let maxLag ← storeLag program name call.depth call.checkpointPolicy
  let policy ← policyForHistoryStore program name (maxLag + 1) call.checkpointPolicy
  return (name, value, maxLag, policy)

/-- Whether a value has a ring of full states. -/
def Value.fullState (value : Value) : Bool := value.vtype ∈ ["state", "rhs"] || value.stateSpace

/-- The state of a value, as it is passed on. -/
def Argument.ofOption {α : Type} : Option α → Argument α
  | some value => .given value
  | none => .absent

/-- The provenance that a scalar field may not break. -/
def checkScalarStore (program : Program) (name : String) (value : Value) : Except Raised Unit :=
  if (program.registries.spaces.get name).isSome then
    .error (.valueError "store_history: cannot store a scalar field in a full-state ring")
  else if (program.registries.blocks.get name).any fun prior => !sameBlock prior value.block then
    .error (.valueError "store_history: scalar history block provenance mismatch")
  else .ok ()

def storeHistory (call : Store) : Method Unit := do
  guardMutable "store history"
  let program ← get
  let (name, value, maxLag, policy) ← lift (checkStore program call)
  if value.fullState then
    declareRing name value.space value.block (.ofOption value.stateRef)
  else lift (checkScalarStore program name value)
  new "state" "store_history" name none value.block value.space value.stateRef [value.id]
  register fun registries => { registries with
    histories := registries.histories.set name maxLag
    persistence := registries.persistence.set name (maxLag + 1, policy) }

/-- A row of `histories`, sorted by name. -/
structure Row where
  name : String
  lag : ℤ
  ncomp : Option ℤ
  state : Option String
  deriving DecidableEq

/-- The rows of `histories` in the serialised form. -/
def Registries.rows (registries : Registries) : List Row :=
  (registries.histories.insertionSort fun left right => left.1 ≤ right.1).map fun entry =>
    { name := entry.1, lag := entry.2, ncomp := registries.ncomp.get entry.1,
      state := (registries.stateRefs.get entry.1).map Handle.qualifiedId }

end Pops.HistoryDeclaration
