import Mathlib.Data.Finset.Sort

/-!
`time/_authoring.py`: the snapshot of a Program that a failing authoring
callback is rolled back to. Objects are named by their identity, so that they
may be shared and contain themselves. A callback may do anything that Python
does to lists, dicts, sets and attributes; what it holds of the objects of
other types is not looked into, as in the source.
-/
namespace Pops.Authoring

/-- `id(value)`: the number of an object of the heap. -/
abbrev Ref := ℕ

/-- What an object holds. The keys of a dict are distinct, and come in their order. -/
inductive Object where
  | list (items : List Ref)
  | dict (items : List (Ref × Ref))
  | set (items : Finset Ref)
  | tuple (items : List Ref)
  | frozenset (items : Finset Ref)
  | other

/-- The kinds of containers that are restored, and the objects that never change. -/
inductive Kind where
  | list
  | dict
  | set
  | fixed
  deriving DecidableEq

namespace Object

def kind : Object → Kind
  | list _ => .list
  | dict _ => .dict
  | set _ => .set
  | tuple _ | frozenset _ | other => .fixed

/-- `_visit` goes on to what the object holds. -/
def isContainer : Object → Bool
  | other => false
  | _ => true

/-- What it goes on to, in its order; that of a set is any. -/
def items : Object → List Ref
  | list items | tuple items => items
  | dict items => items.flatMap fun item => [item.1, item.2]
  | set items | frozenset items => items.sort
  | other => []

end Object

/-- A heap, by the numbers of its objects. -/
abbrev Heap := List Object

/-- Give a container other contents of its kind: `container[:] = contents`, or
`clear` and `update`. -/
def Heap.assign (heap : Heap) (container : Ref) (contents : Object) : Heap :=
  heap.modify container fun current =>
    if current.kind = contents.kind ∧ current.kind ≠ .fixed then contents else current

/-- A Program: the objects there are, and `__dict__` in its order. -/
structure Program where
  heap : Heap
  attributes : List (String × Ref)

/-! ### What a callback does -/

/-- One step of a callback: a new object, other contents for a container, or
other attributes. -/
inductive Mutation where
  | allocate (object : Object)
  | assign (container : Ref) (contents : Object)
  | rebind (attributes : List (String × Ref))

def Program.mutate (program : Program) : Mutation → Program
  | .allocate object => { program with heap := program.heap ++ [object] }
  | .assign container contents => { program with heap := program.heap.assign container contents }
  | .rebind attributes => { program with attributes }

/-- A callback: what it does, and how it ends. -/
structure Callback (ε α : Type) where
  mutations : List Mutation
  outcome : Except ε α

/-! ### `_AuthoringSnapshot` -/

structure AuthoringSnapshot where
  attributes : List (String × Ref)
  containers : List (Ref × Object) := []
  seen : List Ref := []

/-- The objects that were not seen yet. -/
def unseen (heap : Heap) (seen : List Ref) : Finset Ref := Finset.range heap.length \ seen.toFinset

theorem unseen_lt {heap : Heap} {seen : List Ref} {value : Ref} {object : Object} (fresh : value ∉ seen)
    (found : heap[value]? = some object) : (unseen heap (value :: seen)).card < (unseen heap seen).card := by
  have known : value < heap.length := (List.getElem?_eq_some_iff.mp found).1
  apply Finset.card_lt_card
  rw [Finset.ssubset_iff_of_subset]
  · exact ⟨value, by simp [unseen, known, fresh], by simp [unseen]⟩
  · intro other
    simp only [unseen, List.toFinset_cons, Finset.mem_sdiff, Finset.mem_insert, not_or]
    exact fun ⟨there, _, different⟩ => ⟨there, different⟩

/-- `_visit`, of the values that its loops have still to visit. -/
def visit (heap : Heap) : List Ref → AuthoringSnapshot → AuthoringSnapshot
  | [], snapshot => snapshot
  | value :: later, snapshot =>
    if value ∈ snapshot.seen then visit heap later snapshot
    else
      match _found : heap[value]? with
      | none => visit heap later snapshot
      | some object =>
        if object.isContainer then
          visit heap (object.items ++ later) {
            snapshot with
            seen := value :: snapshot.seen
            containers :=
              if object.kind = .fixed then snapshot.containers else snapshot.containers ++ [(value, object)] }
        else visit heap later snapshot
termination_by pending snapshot => ((unseen heap snapshot.seen).card, pending.length)
decreasing_by
  all_goals simp_wf
  · exact .right _ (Nat.lt_succ_self _)
  · exact .right _ (Nat.lt_succ_self _)
  · exact .left _ _ (unseen_lt ‹_› ‹_›)
  · exact .right _ (Nat.lt_succ_self _)

/-- `_AuthoringSnapshot(program)`. -/
def snapshot (program : Program) : AuthoringSnapshot :=
  visit program.heap (program.attributes.map Prod.snd) { attributes := program.attributes }

/-- `restore`. -/
def AuthoringSnapshot.restore (snapshot : AuthoringSnapshot) (program : Program) : Program where
  heap := snapshot.containers.reverse.foldl (fun heap saved => heap.assign saved.1 saved.2) program.heap
  attributes := snapshot.attributes

/-- `authoring_transaction` around a callback. -/
def authoringTransaction {ε α : Type} (program : Program) (callback : Callback ε α) : Program × Except ε α :=
  let saved := snapshot program
  let after := callback.mutations.foldl Program.mutate program
  match callback.outcome with
  | .ok value => (after, .ok value)
  | .error raised => (saved.restore after, .error raised)

end Pops.Authoring
