import Mathlib.Data.List.Pairwise
import Mathlib.Order.Lattice
import Pops.Checked

/-!
Lists of intervals that follow each other without a gap from one point of a
linear order to another. Tilings compose: each interval of one may be tiled
again, and the finer intervals then tile the whole.
-/
namespace Pops

variable {ι P : Type*} [LinearOrder P]

/-- The intervals run from the first point to the last one, each starting where
the one before it ended. -/
inductive Tiles (lo hi : ι → P) : P → List ι → P → Prop
  | nil (point : P) : Tiles lo hi point [] point
  | cons {item : ι} {items : List ι} {last : P} (forward : lo item < hi item)
      (rest : Tiles lo hi (hi item) items last) : Tiles lo hi (lo item) (item :: items) last

namespace Tiles
variable {lo hi : ι → P} {first middle last : P} {items others : List ι}

theorem singleton {item : ι} (forward : lo item < hi item) : Tiles lo hi (lo item) [item] (hi item) :=
  .cons forward (.nil _)

theorem lo_head {item : ι} (tiles : Tiles lo hi first (item :: items) last) : lo item = first := by
  generalize held : item :: items = listed at tiles
  cases tiles with
  | nil point => cases held
  | cons forward rest =>
    cases held
    rfl

theorem nil_eq (tiles : Tiles lo hi first ([] : List ι) last) : first = last := by
  generalize held : ([] : List ι) = listed at tiles
  cases tiles with
  | nil point => rfl
  | cons forward rest => cases held

theorem hi_getLast {item : ι} (tiles : Tiles lo hi first (items ++ [item]) last) : hi item = last := by
  induction items generalizing first with
  | nil =>
    generalize held : [] ++ [item] = listed at tiles
    cases tiles with
    | nil point => cases held
    | cons forward rest =>
      cases held
      exact rest.nil_eq
  | cons head items ih =>
    generalize held : head :: items ++ [item] = listed at tiles
    cases tiles with
    | nil point => cases held
    | cons forward rest =>
      cases held
      exact ih rest

theorem isChain (tiles : Tiles lo hi first items last) :
    items.IsChain fun earlier later => hi earlier = lo later := by
  induction tiles with
  | nil point => exact .nil
  | @cons item rest last forward tail ih =>
    cases rest with
    | nil => exact .singleton item
    | cons later rest => exact .cons_cons tail.lo_head.symm ih

theorem append (front : Tiles lo hi first items middle) (back : Tiles lo hi middle others last) :
    Tiles lo hi first (items ++ others) last := by
  induction front with
  | nil point => exact back
  | cons forward rest ih => exact .cons forward (ih back)

end Tiles

end Pops
