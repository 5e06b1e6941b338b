import Pops.Box

/-!
`mesh/storage/field_view.hpp` and the view checks of
`amr/transfer/transfer_provider.hpp`: a non-owning strided window on memory,
and what the host validates before a transfer may read or write through it.
-/
namespace Pops

/-- `sizeof(Real)`. -/
def sizeofReal : ℕ := 8

/-- A non-owning view. `data` is the address of element zero, zero for a null
pointer; the index components are `int` values. -/
structure FieldView (d : ℕ) where
  data : ℕ
  origin : Index d
  originFits : ∀ axis, FitsInt (origin axis)
  extents : Extent d
  strides : Fin d → ℤ
  ncomp : ℤ
  componentStride : ℤ

/-- Component interval bound during preparation. -/
structure ComponentRange where
  sourceBegin : ℤ := 0
  destinationBegin : ℤ := 0
  count : ℤ := 1
  deriving DecidableEq

/-- What `validate_view` returns: the index box and the byte span. -/
structure ValidatedView (d : ℕ) where
  box : Box d
  first : ℤ
  last : ℤ

namespace FieldView
variable {d : ℕ}

/-- The element offset `operator()` computes. -/
def offset (view : FieldView d) (index : Index d) (component : ℤ) : ℤ :=
  component * view.componentStride +
    ∑ axis, (index axis - view.origin axis) * view.strides axis

/-- The address of an element. -/
def address (view : FieldView d) (index : Index d) (component : ℤ) : ℤ :=
  view.data + sizeofReal * view.offset index component

/-- The element `operator()` denotes, in a memory of `Real` cells by address. -/
def read {K : Type} (memory : ℤ → K) (view : FieldView d) (index : Index d) (component : ℤ) : K :=
  memory (view.data + sizeofReal * view.offset index component)

/-- The running spans of the axis loop of `validate_view`. -/
structure Span where
  maximumOffset : ℤ
  minimumStride : ℤ

/-- One axis of `validate_view`, with the upper bound it computes. -/
def validateAxis (view : FieldView d) (axis : Fin d) (span : Span) : Checked (ℤ × Span) := do
  let extent := view.extents axis
  let stride := view.strides axis
  throwIf (extent < 1 ∨ stride < span.minimumStride)
    (.invalidArgument "prepared ND transfer requires positive non-overlapping FieldView strides")
  throwIf (view.origin axis + (extent - 1) > int64Max)
    (.overflowError "prepared ND transfer FieldView index range exceeds int64_t")
  let upper ← checkedIndex (view.origin axis + (extent - 1))
    "prepared ND transfer FieldView index range exceeds signed coordinates"
  throwIf (extent - 1 > (int64Max - span.maximumOffset) / stride)
    (.overflowError "prepared ND transfer FieldView spatial span exceeds int64_t")
  throwIf (extent > int64Max / stride)
    (.overflowError "prepared ND transfer FieldView stride hierarchy exceeds int64_t")
  return (upper, ⟨span.maximumOffset + (extent - 1) * stride, extent * stride⟩)

/-- The axis loop of `validate_view` from axis `done` on. -/
def validateAxes (view : FieldView d) : List (Fin d) → Index d → Span → Checked (Index d × Span)
  | [], upper, span => .ok (upper, span)
  | axis :: later, upper, span => do
    let (hi, next) ← view.validateAxis axis span
    view.validateAxes later (Function.update upper axis hi) next

/-- `validate_view`. -/
def validate (view : FieldView d) : Checked (ValidatedView d) := do
  throwIf (view.data = 0 ∨ view.ncomp < 1 ∨ view.componentStride < 1)
    (.invalidArgument "prepared ND transfer requires a valid non-empty FieldView")
  let (upper, span) ← view.validateAxes (List.finRange d) (fun _ => -1) ⟨0, 1⟩
  throwIf (view.componentStride < span.minimumStride)
    (.invalidArgument "prepared ND transfer FieldView components overlap its spatial storage")
  throwIf (view.ncomp - 1 > (int64Max - span.maximumOffset) / view.componentStride)
    (.overflowError "prepared ND transfer FieldView component span exceeds int64_t")
  let maximumOffset := span.maximumOffset + (view.ncomp - 1) * view.componentStride
  throwIf (maximumOffset = int64Max)
    (.overflowError "prepared ND transfer FieldView element span exceeds int64_t")
  let elements := maximumOffset + 1
  throwIf (elements > sizeMax / sizeofReal)
    (.overflowError "prepared ND transfer FieldView byte span exceeds uintptr_t")
  let bytes := elements * sizeofReal
  throwIf (view.data > sizeMax - bytes)
    (.overflowError "prepared ND transfer FieldView address span wraps uintptr_t")
  return ⟨⟨view.origin, upper⟩, view.data, view.data + bytes⟩

/-- `validate_components`. -/
def validateComponents (source destination : FieldView d) (components : ComponentRange) :
    Checked Unit :=
  throwIf (components.sourceBegin < 0 ∨ components.destinationBegin < 0 ∨ components.count < 1 ∨
      components.sourceBegin > source.ncomp - components.count ∨
      components.destinationBegin > destination.ncomp - components.count)
    (.invalidArgument "prepared ND transfer component interval is outside its fields")

private theorem validateAxes_fits {view : FieldView d} (axes : List (Fin d)) (before after : Index d)
    (span final : Span) (ran : view.validateAxes axes before span = .ok (after, final)) :
    ∀ axis, axis ∈ axes ∨ FitsInt (before axis) → FitsInt (after axis) := by
  induction axes generalizing before span with
  | nil =>
    simp only [validateAxes, Except.ok.injEq, Prod.mk.injEq] at ran
    obtain ⟨rfl, rfl⟩ := ran
    intro axis known
    simpa using known
  | cons head axes ih =>
    simp only [validateAxes, bind_ok] at ran
    obtain ⟨⟨hi, next⟩, checked, rest⟩ := ran
    simp only [validateAxis, bind_ok, throwIf_ok, unit_exists, pure_ok, checkedIndex_ok, Prod.mk.injEq] at checked
    obtain ⟨-, -, upper, ⟨fits, rfl⟩, -, -, rfl, -⟩ := checked
    intro axis known
    refine ih _ _ rest axis ?_
    by_cases same : axis = head
    · subst same
      exact .inr (by simpa using fits)
    · rw [Function.update_of_ne same]
      rcases known with member | fits
      · exact .inl (by simpa [same] using member)
      · exact .inr fits

/-- A validated view has the indices of its origin and extents, all of them
`int` values. -/
theorem validate_box {view : FieldView d} {validated : ValidatedView d}
    (ran : view.validate = .ok validated) :
    ∀ axis, FitsInt (validated.box.lo axis) ∧ FitsInt (validated.box.hi axis) := by
  simp only [validate, bind_ok, throwIf_ok, unit_exists, pure_ok] at ran
  obtain ⟨-, ⟨upper, span⟩, checked, -, -, -, -, -, rfl⟩ := ran
  intro axis
  exact ⟨view.originFits axis, validateAxes_fits _ _ _ _ _ checked axis (.inl (by simp))⟩

end FieldView

end Pops
