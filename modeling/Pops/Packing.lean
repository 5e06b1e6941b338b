import Mathlib.Data.List.Pairwise
import Mathlib.Order.Disjoint
import Pops.Checked

/-!
Lists of pieces that lie inside a region and do not meet each other. Pieces
are anything with an extent in an order with a least element; the order is
inclusion and the least element is the empty extent. Packings compose: the
pieces of one may be packed again, joined with those of a disjoint region, and
listed in any order.
-/
namespace Pops

variable {β γ L : Type*} [PartialOrder L] [OrderBot L]

/-- The pieces are non-empty, inside the region, and pairwise disjoint. -/
structure Packed (extent : β → L) (region : L) (pieces : List β) : Prop where
  nonempty : ∀ piece ∈ pieces, extent piece ≠ ⊥
  inside : ∀ piece ∈ pieces, extent piece ≤ region
  disjoint : pieces.Pairwise fun left right => Disjoint (extent left) (extent right)

namespace Packed
variable {extent : β → L} {inner : γ → L} {region larger : L} {pieces others : List β}

theorem nil : Packed extent region [] :=
  ⟨by simp, by simp, .nil⟩

theorem singleton {piece : β} (nonempty : extent piece ≠ ⊥) (inside : extent piece ≤ region) :
    Packed extent region [piece] :=
  ⟨by simpa using nonempty, by simpa using inside, by simp⟩

theorem mono (packed : Packed extent region pieces) (within : region ≤ larger) :
    Packed extent larger pieces :=
  ⟨packed.nonempty, fun piece member => (packed.inside piece member).trans within, packed.disjoint⟩

theorem append {first second : L} (left : Packed extent first pieces)
    (right : Packed extent second others) (apart : Disjoint first second) (firstWithin : first ≤ region)
    (secondWithin : second ≤ region) : Packed extent region (pieces ++ others) := by
  constructor
  · intro piece member
    rcases List.mem_append.mp member with earlier | later
    · exact left.nonempty piece earlier
    · exact right.nonempty piece later
  · intro piece member
    rcases List.mem_append.mp member with earlier | later
    · exact (left.inside piece earlier).trans firstWithin
    · exact (right.inside piece later).trans secondWithin
  · apply List.pairwise_append.mpr
    refine ⟨left.disjoint, right.disjoint, fun piece earlier other later => ?_⟩
    exact apart.mono (left.inside piece earlier) (right.inside other later)

theorem flatten (packed : Packed extent region pieces) {groups : List (List γ)}
    (each : List.Forall₂ (fun piece group => Packed inner (extent piece) group) pieces groups) :
    Packed inner region groups.flatten := by
  induction each with
  | nil => exact nil
  | @cons piece group pieces groups head rest ih =>
    obtain ⟨nonempty, inside, apart⟩ := packed
    obtain ⟨headApart, restApart⟩ := List.pairwise_cons.mp apart
    have tail := ih ⟨fun p member => nonempty p (by simp [member]),
      fun p member => inside p (by simp [member]), restApart⟩
    have first := head.mono (inside piece (by simp))
    rw [List.flatten_cons]
    refine ⟨?_, ?_, List.pairwise_append.mpr ⟨head.disjoint, tail.disjoint, ?_⟩⟩
    · intro part member
      rcases List.mem_append.mp member with inHead | inTail
      · exact head.nonempty part inHead
      · exact tail.nonempty part inTail
    · intro part member
      rcases List.mem_append.mp member with inHead | inTail
      · exact first.inside part inHead
      · exact tail.inside part inTail
    · intro part inHead other inTail
      obtain ⟨otherGroup, listed, member⟩ := List.mem_flatten.mp inTail
      obtain ⟨otherPiece, known, packedOther⟩ := exists_of_forall₂ rest listed
      exact (headApart otherPiece known).mono (head.inside part inHead)
        (packedOther.inside other member)

theorem flatMap (packed : Packed extent region pieces) {cut : β → List γ}
    (each : ∀ piece ∈ pieces, Packed inner (extent piece) (cut piece)) :
    Packed inner region (pieces.flatMap cut) := by
  rw [List.flatMap_def]
  refine packed.flatten ?_
  rw [List.forall₂_map_right_iff]
  exact List.forall₂_same.mpr each

theorem map {L' : Type*} [PartialOrder L'] [OrderBot L'] {image : γ → L'} {imageRegion : L'} {f : β → γ}
    (packed : Packed extent region pieces)
    (nonempty : ∀ piece, extent piece ≠ ⊥ → image (f piece) ≠ ⊥)
    (inside : ∀ piece, extent piece ≤ region → image (f piece) ≤ imageRegion)
    (apart : ∀ left right, Disjoint (extent left) (extent right) → Disjoint (image (f left)) (image (f right))) :
    Packed image imageRegion (pieces.map f) := by
  constructor
  · intro piece member
    obtain ⟨source, listed, rfl⟩ := List.mem_map.mp member
    exact nonempty source (packed.nonempty source listed)
  · intro piece member
    obtain ⟨source, listed, rfl⟩ := List.mem_map.mp member
    exact inside source (packed.inside source listed)
  · rw [List.pairwise_map]
    exact packed.disjoint.imp fun {left right} known => apart left right known

theorem perm (packed : Packed extent region pieces) (same : pieces.Perm others) :
    Packed extent region others := by
  constructor
  · exact fun piece member => packed.nonempty piece (same.mem_iff.mpr member)
  · exact fun piece member => packed.inside piece (same.mem_iff.mpr member)
  · exact (same.pairwise_iff fun apart => apart.symm).mp packed.disjoint

theorem nodup (packed : Packed extent region pieces) : pieces.Nodup := by
  refine packed.disjoint.imp_of_mem fun {left right} member _ apart same => ?_
  subst same
  exact packed.nonempty left member (disjoint_self.mp apart)

theorem lt_region (packed : Packed extent region pieces) (several : 2 ≤ pieces.length) {piece : β}
    (member : piece ∈ pieces) : extent piece < region := by
  obtain ⟨other, otherMember, different⟩ : ∃ other ∈ pieces, other ≠ piece := by
    by_contra none
    push Not at none
    have alone := List.eq_replicate_of_mem none
    have distinct := packed.nodup
    rw [alone, List.nodup_replicate] at distinct
    omega
  refine lt_of_le_of_ne (packed.inside piece member) fun whole => packed.nonempty other otherMember ?_
  have symmetric : Std.Symm fun left right => Disjoint (extent left) (extent right) := ⟨fun _ _ known => known.symm⟩
  have apart := packed.disjoint.forall otherMember member different
  rw [whole] at apart
  exact disjoint_self.mp (apart.mono_right (packed.inside other otherMember))

end Packed

end Pops
