import Mathlib
import Pops.ClockProofs
import Pops.PreparedTagging

/-!
What accepted tagging bytecode computes. The depth the validator counts is the
length of a forest of expressions whose postfix form is the code already read,
and the kernel's stack holds the values of that forest.
-/
namespace Pops.PreparedTagging
open Function StrongKleene

variable {T : Type} {d : ℕ} {leaves : List (Leaf T)}

mutual

/-- The bytecode of an expression over instruction positions. -/
def bytecode (instruction : ℕ → ℤ × ℤ) : Expression ℕ → List (ℤ × ℤ)
  | .atom position => [instruction position]
  | .negation operand => bytecode instruction operand ++ [(not, 1)]
  | .anyOf operands => bytecodes instruction operands ++ [(anyOf, (operands.length : ℤ))]
  | .allOf operands => bytecodes instruction operands ++ [(allOf, (operands.length : ℤ))]

def bytecodes (instruction : ℕ → ℤ × ℤ) : List (Expression ℕ) → List (ℤ × ℤ)
  | [] => []
  | operand :: operands => bytecode instruction operand ++ bytecodes instruction operands

end

theorem bytecodes_append (instruction : ℕ → ℤ × ℤ) (front back : List (Expression ℕ)) :
    bytecodes instruction (front ++ back) = bytecodes instruction front ++ bytecodes instruction back := by
  induction front with
  | nil => rfl
  | cons operand front ih => rw [List.cons_append, bytecodes, bytecodes, ih, List.append_assoc]

/-- The positions of the leaf instructions. -/
def leafPositions (code : List (ℤ × ℤ)) (start : ℕ) : List ℕ :=
  match code with
  | [] => []
  | instruction :: later =>
    if isLeafOpcode instruction.1 then start :: leafPositions later (start + 1) else leafPositions later (start + 1)

section Leaves
variable [TaggingReal T]

/-- The truths the leaf instructions push, and `no` at the others. -/
def truths (kernel : PatchKernel T d) (index : Index d) : List (ℤ × ℤ) → Bool → List DeviceTagTruth
  | [], _ => []
  | (opcode, argument) :: later, finite =>
    if isLeafOpcode opcode then
      let pushed := (kernel.leafTruth index opcode argument finite).getD (.no, finite)
      pushed.1 :: truths kernel index later pushed.2
    else .no :: truths kernel index later finite

/-- The truth of the leaf at a position. -/
def truthAt (kernel : PatchKernel T d) (index : Index d) (code : List (ℤ × ℤ)) (finite : Bool) (position : ℕ) :
    DeviceTagTruth :=
  (truths kernel index code finite).getD position .no


/-- A leaf descriptor the kernel can read. -/
def Readable (program : Program T d) (leaf : Leaf T) : Prop :=
  (leaf.opcode = gradientAbove ∨ leaf.opcode = gradientBelow) → leaf.stencilIndex < program.stencils.length

theorem leafTruth_exists (kernel : PatchKernel T d) (index : Index d) {opcode argument : ℤ} {leaf : Leaf T}
    (nonneg : ¬argument < 0) (listed : kernel.program.leaves[argument.toNat]? = some leaf) (same : leaf.opcode = opcode)
    (readable : Readable kernel.program leaf) (finite : Bool) :
    ∃ pushed, kernel.leafTruth index opcode argument finite = some pushed := by
  have sampled (values : Index d → ℤ → T) : ∃ sample, kernel.sample index leaf values opcode finite = some sample := by
    rw [PatchKernel.sample]
    split
    · rename_i gradient
      have inside := readable (by rwa [same])
      exact ⟨_, by rw [List.getElem?_eq_getElem inside]; rfl⟩
    · exact ⟨_, rfl⟩
  obtain ⟨sample, taken⟩ := sampled (kernel.leafFields argument.toNat)
  rw [PatchKernel.leafTruth, if_neg nonneg, listed]
  simp only [Option.bind_eq_bind, Option.bind_some, taken]
  exact ⟨_, rfl⟩

/-- The stack holds the values of a forest whose bytecode has been read. -/
structure Holds (assignment : ℕ → DeviceTagTruth) (instruction : ℕ → ℤ × ℤ) (done : List (ℤ × ℤ))
    (forest : List (Expression ℕ)) (frame : Frame) : Prop where
  depth : frame.depth = forest.length
  value : ∀ (slot : ℕ) tree, forest[slot]? = some tree → frame.stack slot = tree.value assignment
  code : bytecodes instruction forest = done
  small : forest.length ≤ done.length
  labels : labelsAll forest = leafPositions done 0

variable {assignment : ℕ → DeviceTagTruth} {instruction : ℕ → ℤ × ℤ} {done : List (ℤ × ℤ)} {frame : Frame}

omit [TaggingReal T] in
theorem leafPositions_append (front back : List (ℤ × ℤ)) (start : ℕ) :
    leafPositions (front ++ back) start = leafPositions front start ++ leafPositions back (start + front.length) := by
  induction front generalizing start with
  | nil => simp [leafPositions]
  | cons head front ih =>
    simp only [List.cons_append, leafPositions, ih, List.length_cons, Nat.add_assoc, Nat.add_comm 1]
    split <;> rfl

theorem Holds.push {front back : List (Expression ℕ)} (holds : Holds assignment instruction done (front ++ back) frame)
    {last : ℤ × ℤ} {tree : Expression ℕ} (code : bytecode instruction tree = bytecodes instruction back ++ [last])
    (labels : tree.labels = labelsAll back ++ leafPositions [last] done.length) (finite : Bool) :
    Holds assignment instruction (done ++ [last]) (front ++ [tree])
      ⟨update frame.stack front.length (tree.value assignment), front.length + 1, finite⟩ := by
  refine ⟨by simp, fun slot found listed => ?_, ?_, ?_, ?_⟩
  · rcases Nat.lt_trichotomy slot front.length with below | rfl | beyond
    · have before : (slot : ℤ) ≠ front.length := by omega
      rw [List.getElem?_append_left below] at listed
      exact (update_of_ne before ..).trans (holds.value slot found (by rwa [List.getElem?_append_left below]))
    · obtain rfl : tree = found := by simpa using listed
      exact update_self ..
    · rw [List.getElem?_eq_none (by simp; omega)] at listed
      cases listed
  · rw [bytecodes_append, ← holds.code, bytecodes_append, bytecodes, bytecodes, code, List.append_nil, List.append_assoc]
  · have := holds.small
    simp only [List.length_append, List.length_cons, List.length_nil] at this ⊢
    omega
  · rw [labelsAll_append, leafPositions_append, ← holds.labels, labelsAll_append, labelsAll, labelsAll, labels,
      List.append_nil, List.append_assoc, Nat.zero_add]

theorem Holds.operands {front back : List (Expression ℕ)} (holds : Holds assignment instruction done (front ++ back) frame) :
    ((List.range back.length).map fun child : ℕ => (front.length : ℤ) + (child : ℤ)).map frame.stack = values assignment back := by
  rw [values_eq_map, List.map_map]
  refine List.ext_getElem? fun child => ?_
  rw [List.getElem?_map, List.getElem?_map]
  by_cases inside : child < back.length
  · have listed : (front ++ back)[front.length + child]? = some back[child] := by
      rw [List.getElem?_append_right (by omega), Nat.add_sub_cancel_left, List.getElem?_eq_getElem inside]
    rw [List.getElem?_range inside, List.getElem?_eq_getElem inside]
    have held := holds.value _ _ listed
    push_cast at held
    simp [held]
  · rw [List.getElem?_eq_none (by simpa using inside), List.getElem?_eq_none (by omega)]
    rfl

theorem inStack_of_lt {slot : ℕ} (small : slot < maximumInstructionCount) : PatchKernel.InStack slot := by
  rw [PatchKernel.InStack]
  omega

omit [TaggingReal T] in
theorem any_of_loop (tags : List DeviceTagTruth) :
    (if tags.any (· == .yes) then Truth.yes else if tags.any (· == .unknown) then .unknown else .no) = Truth.any tags := by
  simp [Truth.any_eq]

omit [TaggingReal T] in
theorem all_of_loop (tags : List DeviceTagTruth) :
    (if tags.any (· == .no) then Truth.no else if tags.any (· == .unknown) then .unknown else .yes) = Truth.all tags := by
  simp [Truth.all_eq]

/-- One accepted instruction keeps the invariant and hands its truth to the leaf it may be. -/
theorem step_holds (kernel : PatchKernel T d) (index : Index d) (readable : ∀ leaf ∈ kernel.program.leaves,
    Readable kernel.program leaf) {forest : List (Expression ℕ)} (holds : Holds assignment instruction done forest frame)
    {last : ℤ × ℤ} {later : List (ℤ × ℤ)} {final : ℤ} (room : done.length < maximumInstructionCount)
    (validated : validateInstructions kernel.program.leaves (last :: later) frame.depth = .ok final)
    (here : instruction done.length = last)
    (assigned : ∀ offset, assignment (done.length + offset) =
      (truths kernel index (last :: later) frame.finite).getD offset .no) :
    ∃ next grown, kernel.step index frame last = some next ∧ Holds assignment instruction (done ++ [last]) grown next ∧
      validateInstructions kernel.program.leaves later next.depth = .ok final ∧
      ∀ offset, assignment ((done ++ [last]).length + offset) = (truths kernel index later next.finite).getD offset .no := by
  obtain ⟨opcode, argument⟩ := last
  have short := holds.small
  rw [validateInstructions] at validated
  rw [truths] at assigned
  rw [PatchKernel.step]
  by_cases isLeaf : isLeafOpcode opcode
  · simp only [isLeaf, if_true, bind_ok, throwIf_ok, unit_exists, not_or, not_not] at validated assigned ⊢
    obtain ⟨⟨nonneg, found⟩, validated⟩ := validated
    obtain ⟨leaf, listed, same⟩ := Option.map_eq_some_iff.mp found
    obtain ⟨⟨truth, finite⟩, pushed⟩ := leafTruth_exists kernel index nonneg listed same
      (readable leaf (List.mem_of_getElem? listed)) frame.finite
    simp only [pushed, Option.getD_some] at assigned
    have taken : assignment done.length = truth := by simpa using assigned 0
    rw [← List.append_nil forest] at holds
    have grown : Holds assignment instruction (done ++ [(opcode, argument)]) (forest ++ [.atom done.length]) _ :=
      holds.push (by simp [bytecode, bytecodes, here]) (by simp [Expression.labels, labelsAll, leafPositions, isLeaf]) finite
    have depth := holds.depth
    rw [List.append_nil] at depth
    refine ⟨_, _, ?_, grown, ?_, fun offset => ?_⟩
    · simp only [pushed, Option.bind_eq_bind, Option.bind_some, depth, inStack_of_lt (by omega : forest.length < _),
        guard, if_true, Expression.value, taken]
      rfl
    · rwa [depth] at validated
    · have next := assigned (offset + 1)
      rw [List.getD_cons_succ] at next
      rw [← next, List.length_append, List.length_singleton, Nat.add_assoc, Nat.add_comm 1]
  · -- an operator consumes the last trees and leaves the flag alone
    have operator (front back : List (Expression ℕ)) (tree : Expression ℕ) (split : forest = front ++ back)
        (code : bytecode instruction tree = bytecodes instruction back ++ [(opcode, argument)])
        (labels : tree.labels = labelsAll back) :
        Holds assignment instruction (done ++ [(opcode, argument)]) (front ++ [tree])
            ⟨update frame.stack front.length (tree.value assignment), front.length + 1, frame.finite⟩ ∧
          ∀ offset, assignment ((done ++ [(opcode, argument)]).length + offset) =
            (truths kernel index later frame.finite).getD offset .no := by
      subst split
      refine ⟨holds.push code (by simp [labels, leafPositions, isLeaf]) _, fun offset => ?_⟩
      have next := assigned (offset + 1)
      rw [if_neg isLeaf, List.getD_cons_succ] at next
      rw [← next, List.length_append, List.length_singleton, Nat.add_assoc, Nat.add_comm 1]
    have depth := holds.depth
    rw [if_neg isLeaf] at validated ⊢
    by_cases negated : opcode = not
    · simp only [negated, if_true, bind_ok, throwIf_ok, unit_exists, not_or, not_not, not_lt] at validated ⊢
      obtain ⟨⟨single, some⟩, validated⟩ := validated
      obtain rfl | ⟨front, tree, rfl⟩ := List.eq_nil_or_concat forest
      · simp at depth
        omega
      have bounded : frame.depth = front.length + 1 := by simp [depth]
      rw [bounded] at validated
      obtain ⟨grown, rest⟩ := operator front [tree] (.negation tree) List.concat_eq_append
        (by simp [bytecode, bytecodes, negated, single]) (by simp [Expression.labels, labelsAll])
      refine ⟨_, _, ?_, negated ▸ grown, validated, negated ▸ rest⟩
      have top := holds.value front.length tree (by simp)
      have inside : front.length < maximumInstructionCount := by simp at short; omega
      simp only [bounded, add_sub_cancel_right, inStack_of_lt inside, guard, if_true, top, Expression.value]
      rfl
    · rw [if_neg negated] at validated ⊢
      split at validated
      · rename_i connective
        simp only [bind_ok, throwIf_ok, unit_exists, not_or, not_lt] at validated
        obtain ⟨⟨several, deep⟩, validated⟩ := validated
        obtain ⟨front, back, rfl, count⟩ : ∃ front back, forest = front ++ back ∧ (back.length : ℤ) = argument :=
          ⟨_, _, (List.take_append_drop (forest.length - argument.toNat) forest).symm, by
            rw [List.length_drop]; omega⟩
        have low : frame.depth - argument = front.length := by
          rw [depth, List.length_append]
          omega
        have width : argument.toNat = back.length := by omega
        have size : frame.depth - (argument - 1) = front.length + 1 := by omega
        rw [size] at validated
        have inside : ∀ child ∈ (List.range back.length).map fun child : ℕ => (front.length : ℤ) + (child : ℤ),
            PatchKernel.InStack child := by
          simp only [List.mem_map, List.mem_range]
          rintro _ ⟨child, below, rfl⟩
          exact_mod_cast inStack_of_lt (by simp at short; omega : front.length + child < maximumInstructionCount)
        have start : PatchKernel.InStack front.length := inStack_of_lt (by simp at short; omega)
        rcases connective with rfl | rfl
        · obtain ⟨grown, rest⟩ := operator front back (.anyOf back) rfl (by rw [bytecode, count]) rfl
          refine ⟨_, _, ?_, grown, validated, rest⟩
          simp only [low, width, start, guard, if_pos inside, if_true, holds.operands, any_of_loop, Expression.value]
          rfl
        · obtain ⟨grown, rest⟩ := operator front back (.allOf back) rfl (by rw [bytecode, count]) rfl
          refine ⟨_, _, ?_, grown, validated, rest⟩
          have other : ¬allOf = anyOf := by decide
          simp only [low, width, start, guard, if_pos inside, if_true, holds.operands, if_neg other, all_of_loop,
            Expression.value]
          rfl
      · cases validated

theorem run_holds (kernel : PatchKernel T d) (index : Index d) (readable : ∀ leaf ∈ kernel.program.leaves,
    Readable kernel.program leaf) {later : List (ℤ × ℤ)} : ∀ {done : List (ℤ × ℤ)} {forest : List (Expression ℕ)} {frame : Frame},
    Holds assignment instruction done forest frame → done.length + later.length ≤ maximumInstructionCount →
    validateInstructions kernel.program.leaves later frame.depth = .ok 1 →
    (∀ offset (inside : offset < later.length), instruction (done.length + offset) = later[offset]) →
    (∀ offset, assignment (done.length + offset) = (truths kernel index later frame.finite).getD offset .no) →
    ∃ final tree, kernel.run index frame later = some final ∧
      Holds assignment instruction (done ++ later) [tree] final := by
  induction later with
  | nil =>
    intro done forest frame holds _ validated _ _
    have one : frame.depth = 1 := Except.ok.inj validated
    obtain ⟨tree, rfl⟩ := List.length_eq_one_iff.mp (by have := holds.depth; omega : forest.length = 1)
    exact ⟨frame, tree, rfl, by rwa [List.append_nil]⟩
  | cons last later ih =>
    intro done forest frame holds room validated code assigned
    rw [List.length_cons] at room
    obtain ⟨next, grown, stepped, held, validated, assigned⟩ := step_holds kernel index readable holds (by omega)
      validated (code 0 (Nat.succ_pos _)) assigned
    obtain ⟨final, tree, ran, holds⟩ := ih held (by simp; omega) validated (fun offset inside => by
      have at' := code (offset + 1) (by simpa using inside)
      rw [List.getElem_cons_succ] at at'
      rw [← at', List.length_append, List.length_singleton, Nat.add_assoc, Nat.add_comm 1]) assigned
    refine ⟨final, tree, ?_, by rwa [List.append_assoc, List.singleton_append] at holds⟩
    rw [PatchKernel.run, List.foldlM_cons, stepped]
    exact ran

/-- The expression a bytecode is the postfix form of: its atoms are the positions of the leaf
instructions, and no code at all is the empty disjunction. -/
def Denotes (ops args : List ℤ) (tree : Expression ℕ) : Prop :=
  bytecode (fun position => (ops.zip args).getD position (0, 0)) tree = ops.zip args ∧ ops.length = args.length ∧
      tree.labels = leafPositions (ops.zip args) 0 ∨ ops = [] ∧ tree = .anyOf []

theorem validateProgram_ok {program : Program T d} (validated : validateProgram program = .ok ()) :
    program.refineOps.length + program.coarsenOps.length ≤ maximumInstructionCount ∧
      validateBytecode program.leaves program.refineOps program.refineArgs true = .ok () ∧
      validateBytecode program.leaves program.coarsenOps program.coarsenArgs false = .ok () ∧
      ∀ leaf ∈ program.leaves, Readable program leaf := by
  simp only [validateProgram, bind_ok, throwIf_ok, unit_exists, not_or, not_lt] at validated
  obtain ⟨⟨-, -, -, count⟩, refine, coarsen, leaves⟩ := validated
  refine ⟨count, refine, coarsen, fun leaf listed gradient => ?_⟩
  have checked := forM_ok.mp leaves leaf listed
  simp only [validateLeaf, throwIf_ok, not_or, not_and, not_not, not_le] at checked
  exact checked.2.2.2.1 (checked.2.2.1.mp gradient)

/-- An accepted bytecode runs within its stack, ends with one value, and the value is its
expression's in strong Kleene logic; once definite it stays whatever the unknown leaves are. -/
theorem evaluate_validated {ops args : List ℤ} {required : Bool} (kernel : PatchKernel T d) (index : Index d)
    (readable : ∀ leaf ∈ kernel.program.leaves, Readable kernel.program leaf)
    (count : ops.length ≤ maximumInstructionCount)
    (validated : validateBytecode kernel.program.leaves ops args required = .ok ()) (finite : Bool) :
    ∃ tree result, Denotes ops args tree ∧ kernel.evaluate index ops args finite = some result ∧
      (ops ≠ [] → ∃ frame, kernel.run index ⟨fun _ => .no, 0, finite⟩ (ops.zip args) = some frame ∧ frame.depth = 1) ∧
      result.1 = tree.value (truthAt kernel index (ops.zip args) finite) ∧
      (result.1 ≠ .unknown → ∀ refined : ℕ → DeviceTagTruth,
        (∀ position, truthAt kernel index (ops.zip args) finite position ≠ .unknown →
          refined position = truthAt kernel index (ops.zip args) finite position) → tree.value refined = result.1) := by
  by_cases empty : ops = []
  · subst empty
    exact ⟨.anyOf [], (.no, finite), .inr ⟨rfl, rfl⟩, rfl, fun some => absurd rfl some, rfl, fun _ _ _ => rfl⟩
  · simp only [validateBytecode, if_neg empty, bind_ok, throwIf_ok, unit_exists, not_not] at validated
    obtain ⟨same, depth, validated, rfl⟩ := validated
    have start : Holds (truthAt kernel index (ops.zip args) finite) (fun position => (ops.zip args).getD position (0, 0)) []
        [] ⟨fun _ => .no, 0, finite⟩ :=
      ⟨rfl, fun _ _ listed => absurd listed (by simp), rfl, le_rfl, rfl⟩
    obtain ⟨frame, tree, ran, holds⟩ := run_holds kernel index readable start (by simpa using Or.inl count) validated
      (fun offset inside => by rw [List.length_nil, Nat.zero_add]; exact List.getD_eq_getElem _ _ inside)
      (fun offset => by rw [List.length_nil, Nat.zero_add]; rfl)
    have value := holds.value 0 tree rfl
    refine ⟨tree, (frame.stack 0, frame.finite), .inl ⟨?_, same, ?_⟩, ?_, fun _ => ⟨frame, ran, holds.depth⟩, value, ?_⟩
    · simpa [bytecodes] using holds.code
    · simpa [labelsAll] using holds.labels
    · have some : ¬ops.length = 0 := fun none => empty (List.length_eq_zero_iff.mp none)
      rw [PatchKernel.evaluate, if_neg some, ran]
      rfl
    · intro definite refined agree
      exact (value_of_definite (value ▸ definite) agree).trans value.symm

/-- Both roots of an admitted program. -/
theorem tagging_bytecode_sound (kernel : PatchKernel T d) (index : Index d) (finite : Bool)
    (validated : validateProgram kernel.program = .ok ()) :
    ∀ root ∈ [(kernel.program.refineOps, kernel.program.refineArgs), (kernel.program.coarsenOps, kernel.program.coarsenArgs)],
      ∃ tree result, Denotes root.1 root.2 tree ∧ kernel.evaluate index root.1 root.2 finite = some result ∧
        (root.1 ≠ [] → ∃ frame, kernel.run index ⟨fun _ => .no, 0, finite⟩ (root.1.zip root.2) = some frame ∧
          frame.depth = 1) ∧
        result.1 = tree.value (truthAt kernel index (root.1.zip root.2) finite) ∧
        (result.1 ≠ .unknown → ∀ refined : ℕ → DeviceTagTruth,
          (∀ position, truthAt kernel index (root.1.zip root.2) finite position ≠ .unknown →
            refined position = truthAt kernel index (root.1.zip root.2) finite position) → tree.value refined = result.1) := by
  obtain ⟨count, refine, coarsen, readable⟩ := validateProgram_ok validated
  intro root listed
  simp only [List.mem_cons, List.not_mem_nil, or_false] at listed
  rcases listed with rfl | rfl
  · exact evaluate_validated kernel index readable (by omega) refine finite
  · exact evaluate_validated kernel index readable (by omega) coarsen finite

end Leaves

instance : TaggingReal ℚ where
  sqrt value := value
  absolute value := |value|
  equal left right := decide (left = right)

/-- Refine where the field or its magnitude is above zero. -/
def eitherAbove : PatchKernel ℚ 1 where
  program :=
    { stencils := []
      leaves := [⟨0, 0, above, 0, noStencil⟩, ⟨0, 0, magnitudeAbove, 0, noStencil⟩]
      refineOps := [above, magnitudeAbove, anyOf]
      refineArgs := [0, 1, 2]
      coarsenOps := []
      coarsenArgs := [] }
  leafFields _ index _ := index ⟨0, Nat.zero_lt_one⟩
  spacing _ := 1

theorem tagging_bytecode_sound_either : validateProgram eitherAbove.program = .ok () ∧
    ∃ tree result, Denotes eitherAbove.program.refineOps eitherAbove.program.refineArgs tree ∧
      eitherAbove.evaluate (fun _ => -1) eitherAbove.program.refineOps eitherAbove.program.refineArgs true = some result ∧
      result.1 = tree.value (truthAt eitherAbove (fun _ => -1) [(above, 0), (magnitudeAbove, 1), (anyOf, 2)] true) := by
  have validated : validateProgram eitherAbove.program = .ok () := by decide
  obtain ⟨tree, result, denotes, evaluated, -, value, -⟩ :=
    tagging_bytecode_sound eitherAbove (fun _ => -1) true validated _ List.mem_cons_self
  exact ⟨validated, tree, result, denotes, evaluated, value⟩

end Pops.PreparedTagging
