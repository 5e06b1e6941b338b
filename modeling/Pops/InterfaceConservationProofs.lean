import Mathlib.Data.Pi.Interval
import Pops.InterfaceApplicationProofs
import Pops.MetricRefluxProofs

/-!
A flux through an interface is conserved. The faces are numbered once, and
their numbers decode to the cells of either side one to one, across from each
other; what a face takes from its left cell it gives to its right one, and the
cells have the same measure over their normal spacing.
-/
namespace Pops.Multiblock

variable {n : ℕ} {K : Type} [Field K] [LinearOrder K]

/-- The cells of a block along one of its faces. -/
def OnFace (domain : Box (n + 1)) (axis : Fin (n + 1)) (side : InterfaceSide) (index : Index (n + 1)) : Prop :=
  index axis = boundaryIndex domain axis side ∧
    ∀ tangent, domain.lo (axis.succAbove tangent) ≤ index (axis.succAbove tangent) ∧
      index (axis.succAbove tangent) ≤ domain.hi (axis.succAbove tangent)

section Cells
variable {axis : Fin (n + 1)} {normal : ℤ} {mapped : Fin n → Fin n} {value : Fin n → ℤ}

theorem faceCell_normal :
    faceCell axis normal ((List.finRange n).map fun tangent => (axis.succAbove (mapped tangent), value tangent)) axis =
      normal := by
  rw [faceCell, Staging.store_of_not_mem, Function.update_self]
  intro write listed
  obtain ⟨tangent, -, rfl⟩ := List.mem_map.mp listed
  exact Fin.succAbove_ne axis _

theorem faceCell_tangent (injective : Function.Injective mapped) (tangent : Fin n) :
    faceCell axis normal ((List.finRange n).map fun tangent => (axis.succAbove (mapped tangent), value tangent))
      (axis.succAbove (mapped tangent)) = value tangent := by
  refine Staging.store_of_mem (List.mem_map.mpr ⟨tangent, List.mem_finRange tangent, rfl⟩) fun write listed same => ?_
  obtain ⟨other, -, rfl⟩ := List.mem_map.mp listed
  rw [injective (Fin.succAbove_right_injective same)]

end Cells

/-- Where a digit is along an axis, counted from its low or its high end. -/
def place (domain : Box (n + 1)) (axis : Fin (n + 1)) (sign : ℤ) (digit : ℕ) : ℤ :=
  if sign > 0 then domain.lo axis + digit else domain.hi axis - digit

/-- The digits of the faces count the cells of the face, whichever end each
axis is counted from and in whatever order the axes come. -/
theorem faces_bijOn {domain : Box (n + 1)} {axis : Fin (n + 1)} {side : InterfaceSide} {mapped : Fin n → Fin n}
    (bijective : Function.Bijective mapped) (sign : Fin n → ℤ) {radix : Fin n → ℕ}
    (counts : ∀ tangent, (radix tangent : ℤ) =
      domain.hi (axis.succAbove (mapped tangent)) - domain.lo (axis.succAbove (mapped tangent)) + 1)
    (positive : ∀ tangent, 0 < radix tangent) :
    Set.BijOn (fun face => faceCell axis (boundaryIndex domain axis side)
        ((List.finRange n).map fun tangent => (axis.succAbove (mapped tangent),
          place domain (axis.succAbove (mapped tangent)) (sign tangent)
            ((MixedRadix.decode radix (List.finRange n) face fun _ => 0).1 tangent))))
      (Set.Iio (MixedRadix.volume radix (List.finRange n))) {index | OnFace domain axis side index} := by
  refine ⟨fun face _ => ⟨faceCell_normal, fun tangent => ?_⟩, fun first firstBound second secondBound same => ?_,
    fun index inside => ?_⟩
  · obtain ⟨tangent, rfl⟩ := bijective.2 tangent
    have digit : (MixedRadix.decode radix (List.finRange n) face fun _ => 0).1 tangent < radix tangent :=
      MixedRadix.decode_lt (fun other _ => positive other) (List.mem_finRange tangent) face _
    have count := counts tangent
    dsimp only
    rw [faceCell_tangent bijective.1, place]
    split <;> omega
  · refine MixedRadix.decode_injective (List.nodup_finRange n) firstBound secondBound (fun _ => 0)
      fun tangent _ => ?_
    have values := congrFun same (axis.succAbove (mapped tangent))
    simp only [faceCell_tangent bijective.1] at values
    unfold place at values
    split at values <;> omega
  · obtain ⟨atSide, within⟩ := inside
    have digits (tangent : Fin n) : ∃ digit < radix tangent,
        place domain (axis.succAbove (mapped tangent)) (sign tangent) digit =
          index (axis.succAbove (mapped tangent)) := by
      have bounds := within (mapped tangent)
      have count := counts tangent
      unfold place
      split
      · exact ⟨(index (axis.succAbove (mapped tangent)) - domain.lo (axis.succAbove (mapped tangent))).toNat,
          by omega, by omega⟩
      · exact ⟨(domain.hi (axis.succAbove (mapped tangent)) - index (axis.succAbove (mapped tangent))).toNat,
          by omega, by omega⟩
    choose digit small placed using digits
    refine ⟨MixedRadix.encode radix (List.finRange n) digit, MixedRadix.encode_lt fun tangent _ => small tangent, ?_⟩
    funext other
    rcases Fin.eq_self_or_eq_succAbove axis other with rfl | ⟨tangent, rfl⟩
    · exact faceCell_normal.trans atSide.symm
    · obtain ⟨tangent, rfl⟩ := bijective.2 tangent
      dsimp only
      rw [faceCell_tangent bijective.1, MixedRadix.decode_encode (List.nodup_finRange n) (fun tangent _ => small tangent)
        _ (List.mem_finRange tangent), placed]

/-- The checks that a prepared route has passed. -/
structure Accepted (route : AxisAlignedInterface n K) (left right : Block n K)
    (prepared : PreparedInterface (n + 1) K) : Prop where
  blocks : route.leftBlock ≠ route.rightBlock
  bijective : Function.Bijective route.tangentialTransform.rightTangentForLeft
  sign : ∀ tangent, route.tangentialTransform.sign tangent = -1 ∨ route.tangentialTransform.sign tangent = 1
  components : route.rightComponentForLeft.Nodup ∧ (∀ component ∈ route.rightComponentForLeft, 0 ≤ component) ∧
    route.rightComponentForLeft.length = left.ncomp
  leftTiles : tilesDeclaredPhysicalFace (boundingBox left.layout) left.geometry route.leftAxis route.leftSide
  rightTiles : tilesDeclaredPhysicalFace (boundingBox right.layout) right.geometry route.rightAxis route.rightSide
  lengths : ∀ tangent, (boundingBox left.layout).length (route.leftAxis.succAbove tangent) ≠ 0
  faces : prepared.faceCount = MixedRadix.volume
    (fun tangent => ((boundingBox left.layout).length (route.leftAxis.succAbove tangent)).toNat) (List.finRange n)
  tangential : ∀ tangent,
    (boundingBox left.layout).length (route.leftAxis.succAbove tangent) =
        (boundingBox right.layout).length (route.rightTangent tangent) ∧
      left.geometry.spacing (route.leftAxis.succAbove tangent) = right.geometry.spacing (route.rightTangent tangent)
  coincident : validatePhysicalCoincidence route left.geometry right.geometry = .ok ()
  spacings : left.geometry.spacing route.leftAxis > 0 ∧
    left.geometry.spacing route.leftAxis = right.geometry.spacing route.rightAxis
  leftCells : boundaryCells left.layout prepared.faceCount (leftFaceIndex route (boundingBox left.layout)) =
    .ok prepared.left.cells
  rightCells : boundaryCells right.layout prepared.faceCount
    (rightFaceIndex route (boundingBox left.layout) (boundingBox right.layout)) = .ok prepared.right.cells
  fields : prepared.leftBlock = route.leftBlock ∧ prepared.rightBlock = route.rightBlock ∧
    prepared.left.owner = left.owner ∧ prepared.right.owner = right.owner ∧
    prepared.left.normalSpacing = left.geometry.spacing route.leftAxis ∧
    prepared.right.normalSpacing = right.geometry.spacing route.rightAxis ∧
    prepared.componentCount = left.ncomp ∧
    prepared.rightComponent = fun component => (route.rightComponentForLeft.getD component 0).toNat

omit [Field K] [LinearOrder K] in
theorem tangents_checked {transform : TangentialTransform n K} {seen : List (Fin n)}
    (ran : (List.finRange n).foldlM (validateTangent transform) [] = .ok seen) :
    Function.Injective transform.rightTangentForLeft ∧
      ∀ tangent, transform.sign tangent = -1 ∨ transform.sign tangent = 1 := by
  have checked := foldlM_ok_invariant (fun done seen => seen = (done.map transform.rightTangentForLeft).reverse ∧
      (done.map transform.rightTangentForLeft).Nodup ∧
      ∀ tangent ∈ done, transform.sign tangent = -1 ∨ transform.sign tangent = 1)
    (fun done tangent before after held ran => ?_) (List.finRange n) [] seen [] (by simp) ran
  · obtain ⟨-, distinct, signs⟩ := checked
    rw [List.nil_append] at distinct signs
    exact ⟨fun first second same =>
      List.inj_on_of_nodup_map distinct (List.mem_finRange first) (List.mem_finRange second) same,
      fun tangent => signs tangent (List.mem_finRange tangent)⟩
  · obtain ⟨rfl, distinct, signs⟩ := held
    simp only [validateTangent, bind_ok, unit_exists, throwIf_ok, pure_ok, List.mem_reverse, not_and, not_not,
      ne_eq] at ran
    obtain ⟨fresh, oneOfTwo, rfl⟩ := ran
    refine ⟨by simp, ?_, ?_⟩
    · rw [List.map_append, List.nodup_append]
      refine ⟨distinct, List.nodup_singleton _, ?_⟩
      rintro other listed last (here : last ∈ [transform.rightTangentForLeft tangent])
      rw [List.mem_singleton.mp here]
      rintro rfl
      exact fresh listed
    · intro other listed
      rcases List.mem_append.mp listed with earlier | here
      · exact signs other earlier
      · rw [List.mem_singleton.mp here]
        exact or_iff_not_imp_left.mpr oneOfTwo

theorem components_checked {components : ℕ} {listed seen : List ℤ}
    (ran : listed.foldlM (validateComponent components) [] = .ok seen) :
    listed.Nodup ∧ ∀ component ∈ listed, 0 ≤ component := by
  have checked := foldlM_ok_invariant (fun done seen => seen = done.reverse ∧ done.Nodup ∧
      ∀ component ∈ done, 0 ≤ component)
    (fun done component before after held ran => ?_) listed [] seen [] (by simp) ran
  · obtain ⟨-, distinct, bounds⟩ := checked
    rw [List.nil_append] at distinct bounds
    exact ⟨distinct, bounds⟩
  · obtain ⟨rfl, distinct, bounds⟩ := held
    simp only [validateComponent, bind_ok, unit_exists, throwIf_ok, pure_ok, List.mem_reverse, not_or, not_lt] at ran
    obtain ⟨⟨low, -, fresh⟩, rfl⟩ := ran
    refine ⟨by simp, ?_, ?_⟩
    · rw [List.nodup_append]
      refine ⟨distinct, List.nodup_singleton _, ?_⟩
      rintro other listed last (here : last ∈ [component])
      rw [List.mem_singleton.mp here]
      rintro rfl
      exact fresh listed
    · intro other listed
      rcases List.mem_append.mp listed with earlier | here
      · exact bounds other earlier
      · rw [List.mem_singleton.mp here]
        exact low

theorem faceCount_checked {domain : Box (n + 1)} {axis : Fin (n + 1)} {count : ℕ}
    (ran : checkFaceCount domain axis = .ok count) :
    count = MixedRadix.volume (fun tangent => (domain.length (axis.succAbove tangent)).toNat) (List.finRange n) ∧
      ∀ tangent, domain.length (axis.succAbove tangent) ≠ 0 := by
  have checked := foldlM_ok_invariant (fun done count =>
      count = MixedRadix.volume (fun tangent => (domain.length (axis.succAbove tangent)).toNat) done ∧
      ∀ tangent ∈ done, domain.length (axis.succAbove tangent) ≠ 0)
    (fun done tangent before after held ran => ?_) (List.finRange n) 1 count [] (by simp) ran
  · rw [List.nil_append] at checked
    exact ⟨checked.1, fun tangent => checked.2 tangent (List.mem_finRange tangent)⟩
  · obtain ⟨rfl, lengths⟩ := held
    simp only [bind_ok, unit_exists, throwIf_ok, pure_ok, not_or] at ran
    obtain ⟨⟨positive, -⟩, rfl⟩ := ran
    refine ⟨by simp [MixedRadix.volume], fun other listed => ?_⟩
    rcases List.mem_append.mp listed with earlier | here
    · exact lengths other earlier
    · rw [List.mem_singleton.mp here]
      exact positive

theorem install_accepted {installed : List (AxisAlignedInterface n K)} {route : AxisAlignedInterface n K}
    {left right : Block n K} {prepared : PreparedInterface (n + 1) K}
    (installs : install installed route left right = .ok prepared) : Accepted route left right prepared := by
  simp only [install, validateRouteStructure, validateComponentPermutation, validateTangentialDiscretization, bind_ok,
    unit_exists, throwIf_ok, pure_ok, not_or, not_exists, not_not, ne_eq] at installs
  obtain ⟨⟨structural, -, seen, tangents, -⟩, -, ⟨sizes, _, components⟩, -, -, tiles, faces, counted, -,
    tangential, coincident, spacings, leftCells, madeLeft, rightCells, madeRight, rfl⟩ := installs
  obtain ⟨count, lengths⟩ := faceCount_checked counted
  obtain ⟨injective, signs⟩ := tangents_checked tangents
  obtain ⟨distinct, bounds⟩ := components_checked components.1
  exact {
    blocks := structural.2.1
    bijective := Finite.injective_iff_bijective.mp injective
    sign := signs
    components := ⟨distinct, bounds, sizes.2.2⟩
    leftTiles := tiles.1
    rightTiles := tiles.2
    lengths
    faces := count
    tangential
    coincident
    spacings
    leftCells := madeLeft
    rightCells := madeRight
    fields := ⟨rfl, rfl, rfl, rfl, rfl, rfl, rfl, rfl⟩ }

namespace Accepted
variable {route : AxisAlignedInterface n K} {left right : Block n K} {prepared : PreparedInterface (n + 1) K}

theorem length_of_ne_zero {d : ℕ} {domain : Box d} {axis : Fin d} (occupied : domain.length axis ≠ 0) :
    domain.length axis = domain.hi axis - domain.lo axis + 1 ∧ 0 < domain.length axis := by
  unfold Box.length at *
  split at occupied
  · exact absurd rfl occupied
  · rename_i nonempty
    rw [if_neg nonempty]
    have bounds : ¬ domain.hi axis < domain.lo axis := fun empty => nonempty ⟨axis, empty⟩
    exact ⟨rfl, by omega⟩

theorem left_bijOn (accepted : Accepted route left right prepared) :
    Set.BijOn (leftFaceIndex route (boundingBox left.layout)) (Set.Iio prepared.faceCount)
      {index | OnFace (boundingBox left.layout) route.leftAxis route.leftSide index} := by
  rw [accepted.faces]
  refine faces_bijOn Function.bijective_id (fun _ => 1) (fun tangent => ?_) (fun tangent => ?_)
  · have extent := length_of_ne_zero (accepted.lengths tangent)
    dsimp only [id]
    omega
  · have extent := length_of_ne_zero (accepted.lengths tangent)
    omega

theorem right_bijOn (accepted : Accepted route left right prepared) :
    Set.BijOn (rightFaceIndex route (boundingBox left.layout) (boundingBox right.layout)) (Set.Iio prepared.faceCount)
      {index | OnFace (boundingBox right.layout) route.rightAxis route.rightSide index} := by
  rw [accepted.faces]
  refine faces_bijOn accepted.bijective route.tangentialTransform.sign (fun tangent => ?_) (fun tangent => ?_)
  · have occupied := accepted.lengths tangent
    have same := (accepted.tangential tangent).1
    have extent := length_of_ne_zero (same ▸ occupied)
    rw [same]
    unfold AxisAlignedInterface.rightTangent at *
    omega
  · have extent := length_of_ne_zero (accepted.lengths tangent)
    omega

end Accepted

variable [IsStrictOrderedRing K]

theorem coincident_of_ends {lower start stop spacing offset length : K} {sign : ℤ} (signs : sign = -1 ∨ sign = 1)
    (low : lower = (sign : K) * (if sign > 0 then start else stop) + offset)
    (extent : stop - start = length * spacing) (digit : K) :
    lower + (digit + 1 / (1 + 1)) * spacing =
      (sign : K) * (start + ((if sign > 0 then digit else length - 1 - digit) + 1 / (1 + 1)) * spacing) + offset := by
  rcases signs with rfl | rfl
  · rw [if_neg (by decide)] at low ⊢
    have ends : stop = start + length * spacing := by rw [← extent]; ring
    rw [low, ends]
    push_cast
    ring
  · rw [if_pos (by decide)] at low ⊢
    rw [low]
    push_cast
    ring

/-- A face of an interface lies between its two cells: the normal coordinates of
the two sides and the tangential coordinates of the two cells are the same under
the affine map of the route. -/
def Coincident (route : AxisAlignedInterface n K) (left right : Geometry (n + 1) K) (leftCell rightCell : Index (n + 1)) :
    Prop :=
  boundaryCoordinate left route.leftAxis route.leftSide =
      boundaryCoordinate right route.rightAxis route.rightSide + route.rightNormalTranslation ∧
    ∀ tangent, left.cellCoordinate (route.leftAxis.succAbove tangent) (leftCell (route.leftAxis.succAbove tangent)) =
      (route.tangentialTransform.sign tangent : K) *
          right.cellCoordinate (route.rightTangent tangent) (rightCell (route.rightTangent tangent)) +
        route.tangentialTransform.offset tangent

theorem extent_eq {d : ℕ} (geometry : Geometry d K) (axis : Fin d) :
    geometry.upper axis - geometry.lower axis =
        ((geometry.domain.hi axis - geometry.domain.lo axis + 1 : ℤ) : K) * geometry.spacing axis ∧
      0 < geometry.spacing axis := by
  have bounds : geometry.domain.lo axis ≤ geometry.domain.hi axis :=
    not_lt.mp fun empty => geometry.nonempty ⟨axis, empty⟩
  have extent : geometry.domain.length axis = geometry.domain.hi axis - geometry.domain.lo axis + 1 := by
    rw [Box.length, if_neg geometry.nonempty]
  have positive : (0 : K) < ((geometry.domain.hi axis - geometry.domain.lo axis + 1 : ℤ) : K) := by
    exact_mod_cast (by omega : 0 < geometry.domain.hi axis - geometry.domain.lo axis + 1)
  have nonzero := positive.ne'
  rw [Geometry.spacing, extent]
  refine ⟨by field_simp, ?_⟩
  exact mul_pos (sub_pos.mpr (geometry.increasing axis)) (one_div_pos.mpr positive)

namespace Accepted
variable {route : AxisAlignedInterface n K} {left right : Block n K} {prepared : PreparedInterface (n + 1) K}

theorem coincident_cells (accepted : Accepted route left right prepared) {face : ℕ} :
    Coincident route left.geometry right.geometry (leftFaceIndex route (boundingBox left.layout) face)
      (rightFaceIndex route (boundingBox left.layout) (boundingBox right.layout) face) := by
  have checks := accepted.coincident
  simp only [validatePhysicalCoincidence, bind_ok, unit_exists, throwIf_ok, not_not, ne_eq, not_exists, not_or] at checks
  obtain ⟨normal, ends⟩ := checks
  refine ⟨normal, fun tangent => ?_⟩
  obtain ⟨low, high⟩ := ends tangent
  have leftTile := accepted.leftTiles.2 _ (Fin.succAbove_ne route.leftAxis tangent)
  have rightTile := accepted.rightTiles.2 (route.rightTangent tangent) (Fin.succAbove_ne route.rightAxis _)
  have leftCell : leftFaceIndex route (boundingBox left.layout) face (route.leftAxis.succAbove tangent) =
      (boundingBox left.layout).lo (route.leftAxis.succAbove tangent) +
        decodeFace (boundingBox left.layout) route.leftAxis face tangent :=
    faceCell_tangent Function.injective_id tangent
  have rightCell : rightFaceIndex route (boundingBox left.layout) (boundingBox right.layout) face
      (route.rightTangent tangent) = _ := faceCell_tangent accepted.bijective.1 tangent
  have extent := (extent_eq right.geometry (route.rightTangent tangent)).1
  have across := coincident_of_ends (accepted.sign tangent) low extent
    (decodeFace (boundingBox left.layout) route.leftAxis face tangent : K)
  rw [Geometry.cellCoordinate, Geometry.cellCoordinate, leftCell, rightCell, leftTile.1, rightTile.1, rightTile.2,
    (accepted.tangential tangent).2]
  have leftDigit : ((left.geometry.domain.lo (route.leftAxis.succAbove tangent) +
      (decodeFace (boundingBox left.layout) route.leftAxis face tangent : ℤ) : ℤ) : K) -
        (left.geometry.domain.lo (route.leftAxis.succAbove tangent) : K) =
      (decodeFace (boundingBox left.layout) route.leftAxis face tangent : K) := by
    push_cast
    ring
  rw [leftDigit, across]
  congr 5
  split
  · push_cast
    ring
  · push_cast
    ring

end Accepted

section Scatter
variable {d : ℕ} {R : Type} [Semiring R]

theorem accumulate_eq {A : Type} [DecidableEq A] (field : A → R) (increments : List (A × R)) (address : A) :
    accumulate field increments address =
      field address + (increments.map fun step => if step.1 = address then step.2 else 0).sum := by
  induction increments generalizing field with
  | nil => simp [accumulate]
  | cons step increments ih =>
    have later : accumulate field (step :: increments) address =
        accumulate (Function.update field step.1 (field step.1 + step.2)) increments address := rfl
    rw [later, ih, List.map_cons, List.sum_cons]
    by_cases here : step.1 = address
    · rw [if_pos here, here, Function.update_self, add_assoc]
    · rw [if_neg here, Function.update_of_ne (Ne.symm here), zero_add]

variable {component : ℕ → ℕ} {matched : ℕ} {layout : List (Box d)}

theorem sum_components {count : ℕ}
    (injective : ∀ first < count, ∀ second < count, component first = component second → first = second)
    (known : matched < count) (cell : BoundaryCell d) (patch : ℕ) (index : Index d) (value : ℕ → R) :
    ((List.range count).map fun c =>
        if (cell.patch, cell.index, component c) = (patch, index, component matched) then value c else 0).sum =
      if (cell.patch, cell.index) = (patch, index) then value matched else 0 := by
  have summed (terms : ℕ → R) : ((List.range count).map terms).sum = ∑ c ∈ Finset.range count, terms c := rfl
  rw [summed]
  by_cases here : (cell.patch, cell.index) = (patch, index)
  · obtain ⟨rfl, rfl⟩ := Prod.mk.inj here
    rw [if_pos rfl, Finset.sum_eq_single_of_mem matched (Finset.mem_range.mpr known), if_pos rfl]
    intro other listed differs
    refine if_neg fun same => differs ?_
    exact injective other (Finset.mem_range.mp listed) matched known (Prod.mk.inj (Prod.mk.inj same).2).2
  · rw [if_neg here]
    refine Finset.sum_eq_zero fun c _ => if_neg fun same => here ?_
    obtain ⟨patches, rest⟩ := Prod.mk.inj same
    rw [patches, (Prod.mk.inj rest).1]

theorem scattered_sum (side : PreparedSide d R) {count : ℕ}
    (injective : ∀ first < count, ∀ second < count, component first = component second → first = second)
    (known : matched < count) (scale : R) (flux : ℕ → R) (patch : ℕ) (index : Index d) :
    ((side.scattered (side.owner patch) count component scale flux).map fun step =>
        if step.1 = (patch, index, component matched) then step.2 else 0).sum =
      (side.cells.map fun cell =>
        if (cell.patch, cell.index) = (patch, index) then scale * flux (cell.face * count + matched) else 0).sum := by
  unfold PreparedSide.scattered PreparedSide.localCells
  induction side.cells with
  | nil => rfl
  | cons cell cells ih =>
    rw [List.map_cons, List.sum_cons, ← ih, List.filter_cons]
    by_cases owned : side.owner cell.patch = side.owner patch
    · rw [if_pos (decide_eq_true owned), List.flatMap_cons, List.map_append, List.sum_append, List.map_map]
      congr 1
      exact sum_components injective known cell patch index fun c => scale * flux (cell.face * count + c)
    · rw [if_neg (by rw [decide_eq_true_eq]; exact owned)]
      have elsewhere : (cell.patch, cell.index) ≠ (patch, index) := fun same => owned (by rw [(Prod.mk.inj same).1])
      rw [if_neg elsewhere, zero_add]

/-- The sum over the cells of the patches of a layout. -/
noncomputable def sumCells (layout : List (Box d)) (value : ℕ → Index d → R) : R :=
  ∑ patch ∈ Finset.range layout.length,
    ∑ index ∈ Finset.Icc (layout.getD patch .default).lo (layout.getD patch .default).hi, value patch index

theorem sumCells_add (layout : List (Box d)) (first second : ℕ → Index d → R) :
    (sumCells layout fun patch index => first patch index + second patch index) =
      sumCells layout first + sumCells layout second := by
  simp only [sumCells, Finset.sum_add_distrib]

theorem sumCells_single {cell : BoundaryCell d} (listed : cell.patch < layout.length)
    (inside : (layout.getD cell.patch .default).Contains cell.index) (value : R) :
    (sumCells layout fun patch index => if (cell.patch, cell.index) = (patch, index) then value else 0) = value := by
  have within : cell.index ∈ Finset.Icc (layout.getD cell.patch .default).lo (layout.getD cell.patch .default).hi :=
    Finset.mem_Icc.mpr ⟨fun axis => (inside.2 axis).1, fun axis => (inside.2 axis).2⟩
  rw [sumCells, Finset.sum_eq_single_of_mem cell.patch (Finset.mem_range.mpr listed),
    Finset.sum_eq_single_of_mem cell.index within, if_pos rfl]
  · exact fun index _ differs => if_neg fun same => differs (Prod.mk.inj same).2.symm
  · exact fun patch _ differs => Finset.sum_eq_zero fun index _ => if_neg fun same => differs (Prod.mk.inj same).1.symm

theorem sumCells_cells {cells : List (BoundaryCell d)}
    (inside : ∀ cell ∈ cells, cell.patch < layout.length ∧ (layout.getD cell.patch .default).Contains cell.index)
    (value : BoundaryCell d → R) :
    (sumCells layout fun patch index =>
        (cells.map fun cell => if (cell.patch, cell.index) = (patch, index) then value cell else 0).sum) =
      (cells.map value).sum := by
  induction cells with
  | nil => simp [sumCells]
  | cons cell cells ih =>
    obtain ⟨listed, within⟩ := inside cell List.mem_cons_self
    simp only [List.map_cons, List.sum_cons]
    rw [sumCells_add, sumCells_single listed within, ih fun other later => inside other (List.mem_cons_of_mem _ later)]

theorem boundaryCells_ok {faceCount : ℕ} {makeIndex : ℕ → Index d} {cells : List (BoundaryCell d)}
    (made : boundaryCells layout faceCount makeIndex = .ok cells) :
    cells.map (·.face) = List.range faceCount ∧
      ∀ cell ∈ cells, cell.patch < layout.length ∧ (layout.getD cell.patch .default).Contains cell.index := by
  have one {index : Index d} {face : ℕ} {cell : BoundaryCell d} (ran : boundaryCell layout index face = .ok cell) :
      cell.face = face ∧ cell.patch < layout.length ∧ (layout.getD cell.patch .default).Contains cell.index := by
    unfold boundaryCell at ran
    split at ran
    · cases ran
    · rename_i patch alone
      cases ran
      have listed : patch ∈ (List.range layout.length).filter fun patch =>
          (layout.getD patch .default).Contains index := alone ▸ List.mem_singleton_self patch
      obtain ⟨known, contains⟩ := List.mem_filter.mp listed
      exact ⟨rfl, List.mem_range.mp known, of_decide_eq_true contains⟩
    · cases ran
  refine ⟨?_, fun cell listed => ?_⟩
  · rw [map_of_mapM_ok (fun face cell ran => (one ran).1) made, List.map_id']
  · obtain ⟨face, -, ran⟩ := mem_of_mapM_ok made listed
    exact (one ran).2

end Scatter

/-- The measure of a cell. -/
def Geometry.cellMeasure {d : ℕ} (geometry : Geometry d K) : K := ∏ axis, geometry.spacing axis

/-- What a block holds of a component: the sum over its cells of their measure
times the value that the rank which owns their patch has. -/
noncomputable def held (block : Block n K) (values : ℕ → FieldValues (n + 1) K) (component : ℕ) : K :=
  sumCells block.layout fun patch index =>
    block.geometry.cellMeasure * values (block.owner patch) (patch, index, component)

omit [IsStrictOrderedRing K] in
/-- What a block gains from one side of an interface: over all faces, the measure
of a cell times the scaled flux. -/
theorem held_scattered {block : Block n K} {faceCount : ℕ} {makeIndex : ℕ → Index (n + 1)}
    {side : PreparedSide (n + 1) K} (made : boundaryCells block.layout faceCount makeIndex = .ok side.cells)
    (owners : side.owner = block.owner) {count : ℕ}
    (injective : ∀ first < count, ∀ second < count, component first = component second → first = second)
    (known : matched < count) (scale : K) {fluxes : ℕ → ℕ → K} {flux : ℕ → K}
    (agreed : ∀ patch, ∀ value < faceCount * count, fluxes (block.owner patch) value = flux value)
    {before after : ℕ → FieldValues (n + 1) K}
    (scatters : ∀ patch, after (block.owner patch) = accumulate (before (block.owner patch)) (side.scattered (block.owner patch) count component scale (fluxes (block.owner patch)))) :
    held block after (component matched) = held block before (component matched) +
      block.geometry.cellMeasure * scale * ((List.range faceCount).map fun face => flux (face * count + matched)).sum := by
  obtain ⟨faces, inside⟩ := boundaryCells_ok made
  -- The contribution of a face is the same on whichever rank owns its patch.
  have contribution (patch : ℕ) (index : Index (n + 1)) :
      after (block.owner patch) (patch, index, component matched) =
        before (block.owner patch) (patch, index, component matched) +
          (side.cells.map fun cell =>
            if (cell.patch, cell.index) = (patch, index) then scale * flux (cell.face * count + matched) else 0).sum := by
    rw [scatters, accumulate_eq, ← owners, scattered_sum side injective known]
    congr 2
    refine List.map_congr_left fun cell listed => ?_
    have face : cell.face < faceCount := List.mem_range.mp (faces ▸ List.mem_map_of_mem listed)
    have value : cell.face * count + matched < faceCount * count :=
      calc cell.face * count + matched < cell.face * count + count := by omega
        _ = (cell.face + 1) * count := (Nat.succ_mul _ _).symm
        _ ≤ faceCount * count := Nat.mul_le_mul_right count face
    rw [owners, agreed patch _ value]
  have gained : (sumCells block.layout fun patch index => block.geometry.cellMeasure *
        (side.cells.map fun cell =>
          if (cell.patch, cell.index) = (patch, index) then scale * flux (cell.face * count + matched) else 0).sum) =
      block.geometry.cellMeasure * scale *
        ((List.range faceCount).map fun face => flux (face * count + matched)).sum := by
    simp only [sumCells, ← Finset.mul_sum]
    rw [mul_assoc]
    congr 1
    have cells := sumCells_cells inside fun cell => scale * flux (cell.face * count + matched)
    rw [sumCells] at cells
    rw [cells, ← faces, List.map_map, ← List.sum_map_mul_left]
    rfl
  unfold held
  rw [← gained, ← sumCells_add]
  congr 1
  funext patch index
  rw [contribution, mul_add]

namespace Accepted
variable {route : AxisAlignedInterface n K} {left right : Block n K} {prepared : PreparedInterface (n + 1) K}

omit [IsStrictOrderedRing K] in
theorem rightComponent_injective (accepted : Accepted route left right prepared) :
    ∀ first < prepared.componentCount, ∀ second < prepared.componentCount,
      prepared.rightComponent first = prepared.rightComponent second → first = second := by
  obtain ⟨distinct, bounds, sizes⟩ := accepted.components
  obtain ⟨-, -, -, -, -, -, count, matched⟩ := accepted.fields
  intro first firstKnown second secondKnown same
  rw [count, ← sizes] at firstKnown secondKnown
  rw [matched] at same
  dsimp only at same
  rw [List.getD_eq_getElem _ _ firstKnown, List.getD_eq_getElem _ _ secondKnown] at same
  have firstBound := bounds _ (List.getElem_mem firstKnown)
  have secondBound := bounds _ (List.getElem_mem secondKnown)
  exact (distinct.getElem_inj_iff).mp (by omega)

/-- What a face takes from its left cell it gives to its right one: their measures
over their normal spacings are the same. -/
theorem measures_cancel (accepted : Accepted route left right prepared) :
    left.geometry.cellMeasure * (-1 / prepared.left.normalSpacing) +
      right.geometry.cellMeasure * (1 / prepared.right.normalSpacing) = 0 := by
  obtain ⟨-, -, -, -, leftNormal, rightNormal, -, -⟩ := accepted.fields
  have tangential : ∏ tangent, left.geometry.spacing (route.leftAxis.succAbove tangent) =
      ∏ tangent, right.geometry.spacing (route.rightAxis.succAbove tangent) :=
    calc ∏ tangent, left.geometry.spacing (route.leftAxis.succAbove tangent)
        = ∏ tangent, right.geometry.spacing (route.rightTangent tangent) :=
          Finset.prod_congr rfl fun tangent _ => (accepted.tangential tangent).2
      _ = ∏ tangent, right.geometry.spacing (route.rightAxis.succAbove tangent) :=
          accepted.bijective.prod_comp fun tangent => right.geometry.spacing (route.rightAxis.succAbove tangent)
  have nonzero : right.geometry.spacing route.rightAxis ≠ 0 := (extent_eq right.geometry route.rightAxis).2.ne'
  rw [Geometry.cellMeasure, Geometry.cellMeasure, Fin.prod_univ_succAbove _ route.leftAxis,
    Fin.prod_univ_succAbove _ route.rightAxis, tangential, leftNormal, rightNormal, accepted.spacings.2]
  field_simp
  ring

/-- What crosses an interface: over all faces, the measure of a cell over its normal spacing times the flux. -/
def exchanged (block : Block n K) (prepared : PreparedInterface (n + 1) K) (flux : ℕ → K) (component : ℕ) : K :=
  block.geometry.cellMeasure / prepared.left.normalSpacing *
    ((List.range prepared.faceCount).map fun face => flux (face * prepared.componentCount + component)).sum

theorem conserves [MetricDouble K] (accepted : Accepted route left right prepared) {size : ℕ}
    (owners : ∀ patch, left.owner patch < size ∧ right.owner patch < size) {point : EvaluationPoint K}
    {publication : Option (FragmentPublication K)} {calls : ℕ → LocalCall (n + 1) K}
    {states after : ℕ → RankState (n + 1) K} (applied : Applied size prepared point publication calls states after) :
    ∃ flux : ℕ → K, (calls 0).evaluator (packedTraces size prepared states) = .ok flux ∧
      ∀ component < prepared.componentCount,
        held left (fun rank => (after rank).rhs route.leftBlock) component =
          held left (fun rank => (states rank).rhs route.leftBlock) component -
            exchanged left prepared flux component ∧
        held right (fun rank => (after rank).rhs route.rightBlock) (prepared.rightComponent component) =
          held right (fun rank => (states rank).rhs route.rightBlock) (prepared.rightComponent component) +
            exchanged left prepared flux component := by
  obtain ⟨-, flux, evaluated, agreed, scatters, -⟩ := applied
  obtain ⟨leftBlock, rightBlock, leftOwner, rightOwner, -⟩ := accepted.fields
  have leftScatters (patch : ℕ) : (after (left.owner patch)).rhs route.leftBlock =
      accumulate ((states (left.owner patch)).rhs route.leftBlock)
        (prepared.left.scattered (left.owner patch) prepared.componentCount id (-1 / prepared.left.normalSpacing)
          (flux (left.owner patch))) := by
    rw [(scatters _ (owners patch).1).2, PreparedInterface.scatter, leftBlock, rightBlock,
      Function.update_of_ne accepted.blocks, Function.update_self]
  have rightScatters (patch : ℕ) : (after (right.owner patch)).rhs route.rightBlock =
      accumulate ((states (right.owner patch)).rhs route.rightBlock)
        (prepared.right.scattered (right.owner patch) prepared.componentCount prepared.rightComponent
          (1 / prepared.right.normalSpacing) (flux (right.owner patch))) := by
    rw [(scatters _ (owners patch).2).2, PreparedInterface.scatter, leftBlock, rightBlock,
      Function.update_self, Function.update_of_ne accepted.blocks.symm]
  refine ⟨flux 0, evaluated 0 ((Nat.zero_le _).trans_lt (owners 0).1), fun component known => ?_⟩
  have leftHeld : held left (fun rank => (after rank).rhs route.leftBlock) (id component) =
      held left (fun rank => (states rank).rhs route.leftBlock) (id component) + _ := held_scattered accepted.leftCells leftOwner (fun _ _ _ _ same => same) known _
    (fun patch value inside => (agreed _ (owners patch).1 value inside).2) leftScatters
  have rightHeld : held right (fun rank => (after rank).rhs route.rightBlock) (prepared.rightComponent component) =
      held right (fun rank => (states rank).rhs route.rightBlock) (prepared.rightComponent component) + _ := held_scattered accepted.rightCells rightOwner accepted.rightComponent_injective known _
    (fun patch value inside => (agreed _ (owners patch).2 value inside).2) rightScatters
  rw [id] at leftHeld
  refine ⟨leftHeld.trans ?_, rightHeld.trans ?_⟩
  · rw [exchanged]
    ring
  · rw [exchanged]
    linear_combination
      (((List.range prepared.faceCount).map fun face => flux 0 (face * prepared.componentCount + component)).sum) *
        accepted.measures_cancel

end Accepted

/-! Two blocks of two cells, on one rank each, one of them upside down. -/

/-- Two cells, along the second axis. -/
def pairGeometry : Geometry 2 ℚ where
  domain := ⟨fun _ => 0, fun axis => axis.val⟩
  lower _ := 0
  upper axis := 1 + axis.val
  nonempty := by rintro ⟨axis, empty⟩; dsimp only at empty; omega
  increasing axis := by positivity

def pairBlock (rank : ℕ) : Block 1 ℚ := ⟨[pairGeometry.domain], fun _ => rank, 1, pairGeometry⟩

def mirroredRoute : AxisAlignedInterface 1 ℚ where
  identity := [byteOf 1]
  leftBlock := 0
  rightBlock := 1
  level := 0
  leftAxis := ⟨0, Nat.two_pos⟩
  rightAxis := ⟨0, Nat.two_pos⟩
  leftSide := .high
  rightSide := .low
  tangentialTransform := ⟨id, fun _ => -1, fun _ => 2⟩
  rightComponentForLeft := [0]
  leftTraceProjectionIdentity := [byteOf 1]
  rightTraceProjectionIdentity := [byteOf 1]
  leftTraceProviderIdentity := [byteOf 1]
  rightTraceProviderIdentity := [byteOf 1]
  leftTraceOperation := .cellAverage
  rightTraceOperation := .cellAverage
  leftTraceRequiredDepth := 1
  rightTraceRequiredDepth := 1
  affineMappingIdentity := [byteOf 1]
  rightNormalTranslation := 1

def pairPoint : EvaluationPoint ℚ := ⟨0, 1, [byteOf 1], [byteOf 1], [byteOf 1]⟩

/-- A flux that is the trace of the first cell. -/
def pairCall : LocalCall 2 ℚ := ⟨none, true, true, none, fun traces => .ok traces⟩

def pairState : RankState 2 ℚ := ⟨fun block _ => block + 1, fun _ _ => 0, ⟨0, ⟨0, 0, 0, []⟩, [], [], []⟩, fun _ => 0, fun _ => 0, []⟩

private theorem mirrored_applies : (match install [] mirroredRoute (pairBlock 0) (pairBlock 1) with
    | .error _ => false
    | .ok prepared => prepared.componentCount = 1 &&
        (applyOne 2 prepared pairPoint none (fun _ => pairCall) fun _ => pairState).isOk) = true := by
  decide +kernel

/-- An accepted route pairs the cells of the two faces one to one, across from
each other. An application of it takes of the left block, in every component,
the flux that was evaluated, and gives it to the right one, so that what they
hold together is as it was. A `Distribution` has no owner that is not a rank. -/
theorem interface_flux_conservative [MetricDouble K] {installed : List (AxisAlignedInterface n K)}
    {route : AxisAlignedInterface n K} {left right : Block n K} {prepared : PreparedInterface (n + 1) K}
    (installs : install installed route left right = .ok prepared) {size : ℕ}
    (owners : ∀ patch, left.owner patch < size ∧ right.owner patch < size) :
    Set.BijOn (leftFaceIndex route (boundingBox left.layout)) (Set.Iio prepared.faceCount)
        {index | OnFace (boundingBox left.layout) route.leftAxis route.leftSide index} ∧
      Set.BijOn (rightFaceIndex route (boundingBox left.layout) (boundingBox right.layout)) (Set.Iio prepared.faceCount)
        {index | OnFace (boundingBox right.layout) route.rightAxis route.rightSide index} ∧
      (∀ face < prepared.faceCount, Coincident route left.geometry right.geometry
        (leftFaceIndex route (boundingBox left.layout) face)
        (rightFaceIndex route (boundingBox left.layout) (boundingBox right.layout) face)) ∧
      ∀ point publication calls states after, applyOne size prepared point publication calls states = .ok after →
        ∃ flux : ℕ → K, (calls 0).evaluator (packedTraces size prepared states) = .ok flux ∧
          ∀ component < prepared.componentCount,
            held left (fun rank => (after rank).rhs route.leftBlock) component =
              held left (fun rank => (states rank).rhs route.leftBlock) component -
                Accepted.exchanged left prepared flux component ∧
            held right (fun rank => (after rank).rhs route.rightBlock) (prepared.rightComponent component) =
              held right (fun rank => (states rank).rhs route.rightBlock) (prepared.rightComponent component) +
                Accepted.exchanged left prepared flux component ∧
            held left (fun rank => (after rank).rhs route.leftBlock) component +
                held right (fun rank => (after rank).rhs route.rightBlock) (prepared.rightComponent component) =
              held left (fun rank => (states rank).rhs route.leftBlock) component +
                held right (fun rank => (states rank).rhs route.rightBlock) (prepared.rightComponent component) := by
  have accepted := install_accepted installs
  refine ⟨accepted.left_bijOn, accepted.right_bijOn, fun face _ => accepted.coincident_cells, ?_⟩
  intro point publication calls states after ran
  obtain ⟨flux, evaluated, exchanges⟩ := accepted.conserves owners (applyOne_accepted ran)
  refine ⟨flux, evaluated, fun component known => ?_⟩
  obtain ⟨leftHeld, rightHeld⟩ := exchanges component known
  refine ⟨leftHeld, rightHeld, ?_⟩
  rw [leftHeld, rightHeld]
  ring

/-- The mirrored route. -/
theorem mirrored_interface_conserves : ∃ prepared after,
    install [] mirroredRoute (pairBlock 0) (pairBlock 1) = .ok prepared ∧
      applyOne 2 prepared pairPoint none (fun _ => pairCall) (fun _ => pairState) = .ok after ∧
      held (pairBlock 0) (fun rank => (after rank).rhs 0) 0 +
          held (pairBlock 1) (fun rank => (after rank).rhs 1) (prepared.rightComponent 0) =
        held (pairBlock 0) (fun _ => pairState.rhs 0) 0 +
          held (pairBlock 1) (fun _ => pairState.rhs 1) (prepared.rightComponent 0) := by
  have applies := mirrored_applies
  split at applies
  · cases applies
  · rename_i prepared installs
    rw [Bool.and_eq_true, decide_eq_true_eq] at applies
    obtain ⟨components, applies⟩ := applies
    cases ran : applyOne 2 prepared pairPoint none (fun _ => pairCall) (fun _ => pairState) with
    | error rejection =>
      rw [ran] at applies
      cases applies
    | ok after =>
      obtain ⟨flux, -, conserved⟩ := (interface_flux_conservative installs
        (fun _ => ⟨Nat.zero_lt_two, Nat.one_lt_two⟩)).2.2.2 _ _ _ _ _ ran
      exact ⟨prepared, after, installs, ran, (conserved 0 (by rw [components]; exact Nat.one_pos)).2.2⟩

end Pops.Multiblock
