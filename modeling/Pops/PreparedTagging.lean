import Pops.Clock
import Pops.FieldView
import Pops.StrongKleene

/-!
`runtime/amr/prepared_tagging_execution.hpp`: the checks that admit a tagging
program, and the kernel that runs its bytecode at a cell. The stack is the
fixed array of the kernel; an access outside it has no result. `Real` is
`double`, of whose rounding nothing is assumed.
-/
namespace Pops.PreparedTagging
open Function StrongKleene

/-- What the kernel needs of `double` besides arithmetic and order. -/
class TaggingReal (T : Type) extends Double T where
  sqrt : T → T
  absolute : T → T
  equal : T → T → Bool

variable {T : Type} {d : ℕ}

def above : ℤ := 1
def below : ℤ := 2
def magnitudeAbove : ℤ := 3
def gradientAbove : ℤ := 4
def gradientBelow : ℤ := 5
def anyOf : ℤ := 16
def allOf : ℤ := 17
def not : ℤ := 18

/-- `POPS_TAGGING_MAXIMUM_INSTRUCTION_COUNT_V1`. -/
def maximumInstructionCount : ℕ := 128

/-- `POPS_TAGGING_NO_STENCIL_V1`. -/
def noStencil : ℕ := 2 ^ 64 - 1

/-- `pops_tagging_opcode_is_leaf_v1`, and `is_leaf_opcode` of the kernel. -/
def isLeafOpcode (opcode : ℤ) : Bool :=
  opcode = above || opcode = below || opcode = magnitudeAbove || opcode = gradientAbove || opcode = gradientBelow

structure Leaf (T : Type) where
  stateIndex : ℕ
  component : ℕ
  opcode : ℤ
  threshold : T
  stencilIndex : ℕ

/-- The offsets and coefficients of a stencil on each axis. -/
abbrev Stencil (T : Type) (d : ℕ) := Fin d → List (ℤ × T)

/-- `PreparedTaggingProgram`, with the stencils as the device holds them. -/
structure Program (T : Type) (d : ℕ) where
  stencils : List (Stencil T d)
  leaves : List (Leaf T)
  refineOps : List ℤ
  refineArgs : List ℤ
  coarsenOps : List ℤ
  coarsenArgs : List ℤ

/-- The instruction loop of `validate_bytecode_`. -/
def validateInstructions (leaves : List (Leaf T)) : List (ℤ × ℤ) → ℤ → Checked ℤ
  | [], depth => .ok depth
  | (opcode, argument) :: later, depth =>
    if isLeafOpcode opcode then do
      throwIf (argument < 0 ∨ (leaves[argument.toNat]?.map Leaf.opcode) ≠ some opcode)
        (.invalidArgument "prepared AMR tagging bytecode has an invalid leaf")
      validateInstructions leaves later (depth + 1)
    else if opcode = not then do
      throwIf (argument ≠ 1 ∨ depth < 1) (.invalidArgument "prepared AMR tagging bytecode has an invalid NOT")
      validateInstructions leaves later depth
    else if opcode = anyOf ∨ opcode = allOf then do
      throwIf (argument < 2 ∨ depth < argument)
        (.invalidArgument "prepared AMR tagging bytecode has an invalid arity")
      validateInstructions leaves later (depth - (argument - 1))
    else .error (.invalidArgument "prepared AMR tagging bytecode has an unknown opcode")

def validateBytecode (leaves : List (Leaf T)) (ops args : List ℤ) (required : Bool) : Checked Unit :=
  if ops = [] then
    throwIf (required = true) (.invalidArgument "prepared AMR tagging has no refine root")
  else do
    throwIf (ops.length ≠ args.length) (.invalidArgument "prepared AMR tagging bytecode arrays differ in length")
    let depth ← validateInstructions leaves (ops.zip args) 0
    throwIf (depth ≠ 1) (.invalidArgument "prepared AMR tagging bytecode has an invalid final depth")

/-- The check of one leaf descriptor in `prepare_local_`. -/
def validateLeaf [Double T] (stencils : ℕ) (leaf : Leaf T) : Checked Unit :=
  let gradient : Prop := leaf.opcode = gradientAbove ∨ leaf.opcode = gradientBelow
  let hasStencil : Prop := leaf.stencilIndex ≠ noStencil
  throwIf (isLeafOpcode leaf.opcode = false ∨ Double.isFinite leaf.threshold = false ∨ ¬(gradient ↔ hasStencil) ∨
      (hasStencil ∧ leaf.stencilIndex ≥ stencils) ∨ (leaf.stateIndex : ℤ) > intMax ∨ (leaf.component : ℤ) > intMax)
    (.invalidArgument "prepared AMR tagging has an invalid leaf descriptor")

/-- The checks of `prepare_local_` on what the kernel runs: the counts, the two roots and the leaves. -/
def validateProgram [Double T] (program : Program T d) : Checked Unit := do
  throwIf (program.leaves = [] ∨ program.leaves.length > maximumInstructionCount ∨
      program.stencils.length > maximumInstructionCount ∨
      program.refineOps.length + program.coarsenOps.length > maximumInstructionCount)
    (.invalidArgument "prepared AMR tagging execution exceeds its authenticated ABI")
  validateBytecode program.leaves program.refineOps program.refineArgs true
  validateBytecode program.leaves program.coarsenOps program.coarsenArgs false
  program.leaves.forM fun leaf => validateLeaf program.stencils.length leaf

/-- `DeviceTagTruth`: `False`, `True` and `Unknown`. -/
abbrev DeviceTagTruth := Truth

/-- `PreparedTaggingPatchKernel`: a program, the field bound to each leaf, and the spacing. -/
structure PatchKernel (T : Type) (d : ℕ) where
  program : Program T d
  leafFields : ℕ → Index d → ℤ → T
  spacing : Fin d → T

/-- The running values of `evaluate`. -/
structure Frame where
  stack : ℤ → DeviceTagTruth
  depth : ℤ
  finite : Bool

variable [TaggingReal T]
open Double TaggingReal

namespace PatchKernel
variable (kernel : PatchKernel T d) (index : Index d)

/-- The derivative along one axis, with the finiteness of what it read. -/
def derivative (values : Index d → ℤ → T) (component : ℤ) (stencil : Stencil T d) (axis : Fin d) (finite : Bool) : T × Bool :=
  let (valueOnAxis, finite) := (stencil axis).foldl (fun (sum, finite) (offset, coefficient) =>
    let value := values (update index axis (index axis + offset)) component
    (add sum (mul coefficient value), finite && isFinite value)) (ofInt64 0, finite)
  let valueOnAxis := div valueOnAxis (kernel.spacing axis)
  (valueOnAxis, finite && isFinite valueOnAxis)

/-- The sample a leaf compares, or nothing when its stencil is missing. -/
def sample (leaf : Leaf T) (values : Index d → ℤ → T) (opcode : ℤ) (finite : Bool) : Option (T × Bool) :=
  if opcode = gradientAbove ∨ opcode = gradientBelow then do
    let stencil ← kernel.program.stencils[leaf.stencilIndex]?
    let (squaredNorm, finite) := (List.finRange d).foldl (fun (squared, finite) axis =>
      let (valueOnAxis, finite) := kernel.derivative index values leaf.component stencil axis finite
      (add squared (mul valueOnAxis valueOnAxis), finite)) (ofInt64 0, finite)
    let sample := sqrt squaredNorm
    return (sample, finite && isFinite sample)
  else
    let sample := values index leaf.component
    let finite := finite && isFinite sample
    some (if opcode = magnitudeAbove then absolute sample else sample, finite)

/-- What a leaf instruction pushes, and the finiteness flag after it. -/
def leafTruth (opcode argument : ℤ) (finite : Bool) : Option (DeviceTagTruth × Bool) := do
  let leaf ← if argument < 0 then none else kernel.program.leaves[argument.toNat]?
  let (sample, finite) ← kernel.sample index leaf (kernel.leafFields argument.toNat) opcode finite
  let greater := opcode = above ∨ opcode = magnitudeAbove ∨ opcode = gradientAbove
  let truth : DeviceTagTruth :=
    if finite = false then .no
    else if equal sample leaf.threshold then .unknown
    else if (if greater then less leaf.threshold sample else less sample leaf.threshold) then .yes else .no
  return (truth, finite)

/-- The array bounds of the kernel's stack. -/
def InStack (slot : ℤ) : Prop := 0 ≤ slot ∧ slot < maximumInstructionCount

instance (slot : ℤ) : Decidable (InStack slot) := inferInstanceAs (Decidable (_ ∧ _))

/-- One instruction, without a result when it leaves the stack or the leaf table. -/
def step (frame : Frame) : ℤ × ℤ → Option Frame
  | (opcode, argument) =>
    if isLeafOpcode opcode then do
      let (truth, finite) ← kernel.leafTruth index opcode argument frame.finite
      guard (InStack frame.depth)
      return ⟨update frame.stack frame.depth truth, frame.depth + 1, finite⟩
    else if opcode = not then do
      guard (InStack (frame.depth - 1))
      return { frame with stack := update frame.stack (frame.depth - 1) (frame.stack (frame.depth - 1)).neg }
    else do
      let begin := frame.depth - argument
      let children := (List.range argument.toNat).map fun child : ℕ => begin + (child : ℤ)
      guard (∀ child ∈ children, InStack child)
      let tags := children.map frame.stack
      guard (InStack begin)
      let unknown := tags.any (· == .unknown)
      let truth : DeviceTagTruth :=
        if opcode = anyOf then if tags.any (· == .yes) then .yes else if unknown then .unknown else .no
        else if tags.any (· == .no) then .no else if unknown then .unknown else .yes
      return { frame with stack := update frame.stack begin truth, depth := begin + 1 }

/-- The instruction loop of `evaluate`. -/
def run (frame : Frame) (code : List (ℤ × ℤ)) : Option Frame := code.foldlM (kernel.step index) frame

/-- `evaluate`, with the finiteness flag it leaves. -/
def evaluate (ops args : List ℤ) (finite : Bool) : Option (DeviceTagTruth × Bool) :=
  if ops.length = 0 then some (.no, finite)
  else do
    let frame ← kernel.run index ⟨fun _ => .no, 0, finite⟩ (ops.zip args)
    return (frame.stack 0, frame.finite)

end PatchKernel

end Pops.PreparedTagging
