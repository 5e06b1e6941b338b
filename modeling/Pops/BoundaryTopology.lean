import Pops.Box

/-!
`mesh/topology/boundary_topology.hpp`: the faces of a Cartesian domain, each
physical or one side of a periodic pair. The partner of a periodic face is the
opposite face of its axis, so the kinds say everything.
-/
namespace Pops

inductive BoundarySide where
  | lower
  | upper
  deriving DecidableEq

/-- One oriented domain face. -/
structure Face (d : ℕ) where
  axis : Fin d
  side : BoundarySide
  deriving DecidableEq

inductive BoundaryFaceKind where
  | physical
  | periodic
  deriving DecidableEq

/-- Every face has a kind, and `assign_pair` makes both sides of an axis periodic. -/
structure BoundaryTopology (d : ℕ) where
  kind : Face d → BoundaryFaceKind
  paired : ∀ axis, kind ⟨axis, .lower⟩ = kind ⟨axis, .upper⟩

namespace BoundaryTopology
variable {d : ℕ}

def axisPeriodic (periodicAxes : Fin d → Bool) : BoundaryTopology d where
  kind face := if periodicAxes face.axis then .periodic else .physical
  paired _ := rfl

def IsPeriodic (topology : BoundaryTopology d) (face : Face d) : Prop := topology.kind face = .periodic

instance (topology : BoundaryTopology d) (face : Face d) : Decidable (topology.IsPeriodic face) :=
  inferInstanceAs (Decidable (_ = _))

/-- An axis wraps around when its lower face is periodic. -/
def Wraps (topology : BoundaryTopology d) (axis : Fin d) : Prop := topology.IsPeriodic ⟨axis, .lower⟩

instance (topology : BoundaryTopology d) (axis : Fin d) : Decidable (topology.Wraps axis) :=
  inferInstanceAs (Decidable (_ = _))

end BoundaryTopology

end Pops
