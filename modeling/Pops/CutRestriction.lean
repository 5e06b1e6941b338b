import Pops.CutMeasures
import Pops.FaceTransfer

/-!
The restriction of cut-cell fractions to a coarse cell. Its volume is the mean of
the children, for which it is one in the fluid; zero in the solid only where the
cube is cut, since the crossings of a segment or a square are floored.
-/
namespace Pops.CutGeometry
open EmbeddedTransport (clampUnitInterval half cutCellCrossingFraction below above)
open MixedRadix
open FaceTransfer (IndexMapping)

variable {d : ℕ} {K : Type} [Field K] [LinearOrder K]

def clampCutFraction (value thetaMin : K) : K :=
  if value < thetaMin then thetaMin else if 1 < value then 1 else value

structure CutCellFractions (d : ℕ) (K : Type) where
  lower : Fin d → K
  upper : Fin d → K
  faceLower : Fin d → K
  faceUpper : Fin d → K
  volumeFraction : K

def cutCellIndependentFaceAperture (center : K) (lowerSamples upperSamples : Fin d → K) (axis : Fin d)
    (upperFace : Bool) : K :=
  clampUnitInterval (reconstructedFaceAperture d center lowerSamples upperSamples axis upperFace)

def productVolume (thetaMin center : K) (lowerSamples upperSamples : Fin d → K) : K :=
  (List.finRange d).foldl (fun product axis => product *
    (half * (cutCellCrossingFraction thetaMin center (lowerSamples axis) +
      cutCellCrossingFraction thetaMin center (upperSamples axis)))) 1

def cutCellFractionsFromSamples (thetaMin center : K) (lowerSamples upperSamples : Fin d → K) :
    CutCellFractions d K where
  lower axis := cutCellCrossingFraction thetaMin center (lowerSamples axis)
  upper axis := cutCellCrossingFraction thetaMin center (upperSamples axis)
  faceLower axis := cutCellIndependentFaceAperture center lowerSamples upperSamples axis false
  faceUpper axis := cutCellIndependentFaceAperture center lowerSamples upperSamples axis true
  volumeFraction :=
    if d < 3 then productVolume thetaMin center lowerSamples upperSamples
    else if center < 0 then clampCutFraction (reconstructedVolumeFraction d center lowerSamples upperSamples) thetaMin
    else clampUnitInterval (reconstructedVolumeFraction d center lowerSamples upperSamples)

def cutCellFractionsFromPhiCell (thetaMin : K) (phi : Index d → K) (index : Index d) : CutCellFractions d K :=
  cutCellFractionsFromSamples thetaMin (phi index) (fun axis => phi (below axis index))
    (fun axis => phi (above axis index))

/-- The number of children. -/
def childCount (ratio : RefinementRatio d) : ℕ := volume (fun axis => (ratio axis).toNat) (List.finRange d)

/-- The position of a child in its coarse cell. -/
def childDigit (ratio : RefinementRatio d) (child : ℕ) : Fin d → ℕ :=
  (decode (fun axis => (ratio axis).toNat) (List.finRange d) child fun _ => 0).1

def fineChildIndex (coarse : Index d) (ratio : RefinementRatio d) (mapping : IndexMapping d) (child : ℕ) : Index d :=
  fun axis => castInt (mapping.fineOrigin axis + (coarse axis - mapping.coarseOrigin axis) * ratio axis +
    childDigit ratio child axis)

/-- One of the averages of `restrict_cut_cell_fractions`. -/
def average (fine : List (CutCellFractions d K)) (quantity : CutCellFractions d K → K) : K :=
  fine.foldl (fun sum child => sum + quantity child * (1 / (fine.length : K))) 0

/-- `restrict_cut_cell_fractions`; all averages of no children are zero. -/
def restrictCutCellFractions (fine : List (CutCellFractions d K)) : CutCellFractions d K where
  lower axis := average fine fun child => child.lower axis
  upper axis := average fine fun child => child.upper axis
  faceLower axis := average fine fun child => child.faceLower axis
  faceUpper axis := average fine fun child => child.faceUpper axis
  volumeFraction := average fine CutCellFractions.volumeFraction

/-- The coarse cell that the children make, as `RestrictCutCellVolumeKernel` restricts it. -/
structure Restriction (d : ℕ) (K : Type) where
  thetaMin : K
  phi : Index d → K
  coarse : Index d
  ratio : RefinementRatio d
  mapping : IndexMapping d

namespace Restriction
variable (restriction : Restriction d K)

def index (child : ℕ) : Index d := fineChildIndex restriction.coarse restriction.ratio restriction.mapping child

def fractions (child : ℕ) : CutCellFractions d K :=
  cutCellFractionsFromPhiCell restriction.thetaMin restriction.phi (restriction.index child)

def children : List ℕ := List.range (childCount restriction.ratio)

def restricted : CutCellFractions d K := restrictCutCellFractions (restriction.children.map restriction.fractions)

/-- The children on a coarse face, as `RefluxCutCellFaceKernel` selects them. -/
def covering (axis : Fin d) (upper : Bool) : List ℕ :=
  restriction.children.filter fun child =>
    childDigit restriction.ratio child axis = if upper then (restriction.ratio axis).toNat - 1 else 0

end Restriction

/-- The aperture of a face. -/
def CutCellFractions.face (fractions : CutCellFractions d K) (axis : Fin d) (upper : Bool) : K :=
  if upper then fractions.faceUpper axis else fractions.faceLower axis

/-- The arithmetic mean. -/
def mean (values : List K) : K := values.sum / (values.length : K)

variable [IsStrictOrderedRing K]

omit [LinearOrder K] [IsStrictOrderedRing K] in
theorem average_eq (fine : List (CutCellFractions d K)) (quantity : CutCellFractions d K → K) :
    average fine quantity = mean (fine.map quantity) := by
  have sums (rest : List (CutCellFractions d K)) (factor start : K) :
      rest.foldl (fun sum child => sum + quantity child * factor) start = start + (rest.map quantity).sum * factor := by
    induction rest generalizing start with
    | nil => simp
    | cons child rest ih =>
      rw [List.foldl_cons, ih, List.map_cons, List.sum_cons]
      ring
  rw [average, sums, mean, List.length_map, zero_add, mul_one_div]

theorem mean_const {values : List K} {value : K} (nonempty : values ≠ [])
    (same : ∀ other ∈ values, other = value) :
    mean values = value := by
  have count : (values.length : K) ≠ 0 := by
    rw [Nat.cast_ne_zero, ne_eq, List.length_eq_zero_iff]
    exact nonempty
  rw [mean, List.eq_replicate_of_mem same, List.sum_replicate, List.length_replicate, nsmul_eq_mul,
    mul_div_cancel_left₀ _ count]

theorem mean_pos {values : List K} (nonempty : values ≠ []) (positive : ∀ value ∈ values, 0 < value) :
    0 < mean values := by
  have count : 0 < (values.length : K) := by
    rw [Nat.cast_pos]
    exact List.length_pos_of_ne_nil nonempty
  exact div_pos (List.sum_pos values positive nonempty) count

variable {restriction : Restriction d K}

/-- The level set is negative at a cell and at its neighbours, and at the corners of the cube that they make. -/
structure Fluid (phi : Index d → K) (index : Index d) : Prop where
  center : phi index < 0
  lower : ∀ axis, phi (below axis index) < 0
  upper : ∀ axis, phi (above axis index) < 0
  corners : d = 3 → ∀ corner,
    cornerValue d (phi index) (fun axis => phi (below axis index)) (fun axis => phi (above axis index)) corner < 0

/-- The level set is not negative there. -/
structure Solid (phi : Index d → K) (index : Index d) : Prop where
  center : 0 ≤ phi index
  lower : ∀ axis, 0 ≤ phi (below axis index)
  upper : ∀ axis, 0 ≤ phi (above axis index)
  corners : d = 3 → ∀ corner,
    0 ≤ cornerValue d (phi index) (fun axis => phi (below axis index)) (fun axis => phi (above axis index)) corner

/-- No neighbour has the value of the cell. -/
structure Sloped (phi : Index d → K) (index : Index d) : Prop where
  lower : ∀ axis, phi (below axis index) ≠ phi index
  upper : ∀ axis, phi (above axis index) ≠ phi index

theorem crossing_pos {thetaMin center neighbor : K} (floor : 0 < thetaMin) :
    0 < cutCellCrossingFraction thetaMin center neighbor := by
  unfold cutCellCrossingFraction
  split
  · exact one_pos
  · simp only []
    split_ifs with low high high
    · exact one_pos
    · exact floor
    · exact one_pos
    · exact floor.trans_le (not_lt.mp low)

theorem productVolume_pos {thetaMin center : K} (floor : 0 < thetaMin) (lowerSamples upperSamples : Fin d → K) :
    0 < productVolume thetaMin center lowerSamples upperSamples := by
  have products (axes : List (Fin d)) (start : K) (positive : 0 < start) :
      0 < axes.foldl (fun product axis => product *
        (half * (cutCellCrossingFraction thetaMin center (lowerSamples axis) +
          cutCellCrossingFraction thetaMin center (upperSamples axis)))) start := by
    induction axes generalizing start with
    | nil => exact positive
    | cons axis rest ih =>
      exact ih _ (mul_pos positive (mul_pos half_pos (add_pos (crossing_pos floor) (crossing_pos floor))))
  exact products _ 1 one_pos

theorem productVolume_fluid {thetaMin center : K} {lowerSamples upperSamples : Fin d → K}
    (lower : ∀ axis, lowerSamples axis < 0) (upper : ∀ axis, upperSamples axis < 0) :
    productVolume thetaMin center lowerSamples upperSamples = 1 := by
  have one (axis : Fin d) : half * (cutCellCrossingFraction thetaMin center (lowerSamples axis) +
      cutCellCrossingFraction thetaMin center (upperSamples axis)) = 1 := by
    rw [cutCellCrossingFraction, cutCellCrossingFraction, if_pos (lower axis), if_pos (upper axis), mul_add, mul_one]
    exact half_add_half
  simp only [productVolume, one, mul_one]
  exact List.foldl_fixed _

theorem volume_of_signs {corners : Corner → K} :
    ((∀ corner, corners corner < 0) → cubeTriangulationVolume corners = 1) ∧
      ((∀ corner, 0 ≤ corners corner) → cubeTriangulationVolume corners = 0) := by
  constructor
  · intro negative
    have whole : tets.map (tetPart corners) = tets.map fun _ => ((6 : ℕ) : K)⁻¹ := by
      refine List.map_congr_left fun tet listed => ?_
      rw [← @tets_volume K _ _ _ corners tet listed]
      simp [tetPart, tetNegativeVolume, vertex, negative, tetNegativeVolumeOf]
    have six : (tets.map fun _ => ((6 : ℕ) : K)⁻¹).sum = 1 := by
      simp only [tets, List.map_cons, List.map_nil, List.sum_cons, List.sum_nil]
      field_simp
      norm_num
    rw [volume_eq_sum, whole, six]
    exact clamp_of_mem zero_le_one le_rfl
  · intro nonneg
    have none : tets.map (tetPart corners) = tets.map fun _ => (0 : K) := by
      refine List.map_congr_left fun tet listed => ?_
      have outside (corner : Corner) : ¬ corners corner < 0 := not_lt.mpr (nonneg corner)
      simp [tetPart, tetNegativeVolume, vertex, outside, tetNegativeVolumeOf]
    have zero : (tets.map fun _ => (0 : K)).sum = 0 := by simp
    rw [volume_eq_sum, none, zero]
    exact clamp_of_mem le_rfl zero_le_one

theorem volume_fluid {thetaMin : K} {phi : Index d → K} {index : Index d} (small : d ≤ 3) (ceiling : thetaMin ≤ 1)
    (fluid : Fluid phi index) : (cutCellFractionsFromPhiCell thetaMin phi index).volumeFraction = 1 := by
  simp only [cutCellFractionsFromPhiCell, cutCellFractionsFromSamples]
  rcases Nat.lt_or_ge d 3 with flat | cube
  · rw [if_pos flat]
    exact productVolume_fluid fluid.lower fluid.upper
  · obtain rfl : d = 3 := le_antisymm small cube
    have negative : ∀ corner, cubeCornerSamples (phi index) (fun axis => phi (below axis index))
        (fun axis => phi (above axis index)) corner < 0 := by
      rintro ⟨x, y, z⟩
      exact fluid.corners rfl ![x, y, z]
    rw [if_neg (lt_irrefl 3), if_pos fluid.center, reconstructedVolumeFraction, volume_of_signs.1 negative,
      clampCutFraction, if_neg (not_lt.mpr ceiling), if_neg (lt_irrefl 1)]

theorem volume_solid {thetaMin : K} {phi : Index d → K} {index : Index d} (cube : d = 3) (solid : Solid phi index) :
    (cutCellFractionsFromPhiCell thetaMin phi index).volumeFraction = 0 := by
  subst cube
  have nonneg : ∀ corner, 0 ≤ cubeCornerSamples (phi index) (fun axis => phi (below axis index))
      (fun axis => phi (above axis index)) corner := by
    rintro ⟨x, y, z⟩
    exact solid.corners rfl ![x, y, z]
  simp only [cutCellFractionsFromPhiCell, cutCellFractionsFromSamples]
  rw [if_neg (lt_irrefl 3), if_neg (not_lt.mpr solid.center), reconstructedVolumeFraction, volume_of_signs.2 nonneg]
  exact clamp_of_mem le_rfl zero_le_one

omit [Field K] [LinearOrder K] [IsStrictOrderedRing K] in
theorem children_ne_nil (restriction : Restriction d K) : restriction.children ≠ [] := by
  have positive : 0 < childCount restriction.ratio := by
    refine volume_pos fun axis _ => ?_
    have := restriction.ratio.positive axis
    omega
  rw [Restriction.children, ne_eq, List.range_eq_nil]
  omega

omit [IsStrictOrderedRing K] in
theorem average_children (restriction : Restriction d K) (quantity : CutCellFractions d K → K) :
    average (restriction.children.map restriction.fractions) quantity =
      mean (restriction.children.map fun child => quantity (restriction.fractions child)) := by
  rw [average_eq, List.map_map]
  rfl

omit [Field K] [LinearOrder K] [IsStrictOrderedRing K] in
theorem covering_eq {axis : Fin d} (kept : restriction.ratio axis = 1) (upper : Bool) :
    restriction.covering axis upper = restriction.children := by
  refine List.filter_eq_self.mpr fun child _ => decide_eq_true ?_
  have positive (a : Fin d) : 0 < (restriction.ratio a).toNat := by
    have := restriction.ratio.positive a
    omega
  have digit := decode_lt (fun a _ => positive a) (List.mem_finRange axis) child fun _ => 0
  simp only [kept, Int.toNat_one] at digit
  have first : childDigit restriction.ratio child axis = 0 := Nat.lt_one_iff.mp digit
  rw [first, kept]
  cases upper <;> rfl

/-- The restriction of a coarse cell against its children. -/
structure Restricts (restriction : Restriction d K) : Prop where
  aperture : ∀ axis, restriction.ratio axis = 1 → ∀ upper, restriction.restricted.face axis upper =
    mean ((restriction.covering axis upper).map fun child => (restriction.fractions child).face axis upper)
  volume : restriction.restricted.volumeFraction =
    mean (restriction.children.map fun child => (restriction.fractions child).volumeFraction)
  fluid : (∀ child ∈ restriction.children, Fluid restriction.phi (restriction.index child)) →
    restriction.restricted.volumeFraction = 1
  solid : d = 3 → (∀ child ∈ restriction.children, Solid restriction.phi (restriction.index child)) →
    restriction.restricted.volumeFraction = 0
  floored : d < 3 → (∀ child ∈ restriction.children, Sloped restriction.phi (restriction.index child)) →
    0 < restriction.restricted.volumeFraction

/-- The restricted volume is the mean of the children, one in the fluid; in the solid it is zero where the
cube is cut, and positive where the segment or the square is. -/
theorem cut_cell_restriction (small : d ≤ 3) (restriction : Restriction d K) (floor : 0 < restriction.thetaMin)
    (ceiling : restriction.thetaMin ≤ 1) : Restricts restriction := by
  have volume : restriction.restricted.volumeFraction =
      mean (restriction.children.map fun child => (restriction.fractions child).volumeFraction) :=
    average_children restriction CutCellFractions.volumeFraction
  have some_child (quantity : ℕ → K) : restriction.children.map quantity ≠ [] := by
    rw [ne_eq, List.map_eq_nil_iff]
    exact children_ne_nil restriction
  constructor
  · intro axis kept upper
    rw [covering_eq kept]
    cases upper with
    | false => exact average_children restriction fun child => child.faceLower axis
    | true => exact average_children restriction fun child => child.faceUpper axis
  · exact volume
  · intro fluid
    rw [volume]
    refine mean_const (some_child _) fun value member => ?_
    obtain ⟨child, listed, rfl⟩ := List.mem_map.mp member
    exact volume_fluid small ceiling (fluid child listed)
  · intro cube solid
    rw [volume]
    refine mean_const (some_child _) fun value member => ?_
    obtain ⟨child, listed, rfl⟩ := List.mem_map.mp member
    exact volume_solid cube (solid child listed)
  · intro flat _
    rw [volume]
    refine mean_pos (some_child _) fun value member => ?_
    obtain ⟨child, -, rfl⟩ := List.mem_map.mp member
    simp only [Restriction.fractions, cutCellFractionsFromPhiCell, cutCellFractionsFromSamples, if_pos flat]
    exact productVolume_pos floor _ _

private theorem pair_positive : ∀ axis : Fin 1, 1 ≤ (fun _ => 2 : Fin 1 → ℤ) axis := by decide

private theorem pair_bounded : ∀ axis : Fin 1, (fun _ => 2 : Fin 1 → ℤ) axis ≤ intMax := by decide

private theorem pair_childCountFits : ∏ axis, (fun _ => 2 : Fin 1 → ℤ) axis ≤ int64Max := by decide

/-- Two children, the cells one and two, of a level set that grows along the line. -/
def slope (shift : ℚ) : Restriction 1 ℚ where
  thetaMin := 1 / 1000
  phi index := index (Fin.last 0) + shift
  coarse _ := 0
  ratio := ⟨fun _ => 2, pair_positive, pair_bounded, pair_childCountFits⟩
  mapping := ⟨fun _ => 0, fun _ => 1⟩

/-- Four cells below the level set. -/
theorem slope_fluid : (slope (-10)).restricted.volumeFraction = 1 := by
  refine (cut_cell_restriction (by decide) (slope (-10)) (by decide +kernel) (by decide +kernel)).fluid ?_
  intro child listed
  refine ⟨?_, ?_, ?_, fun cube => absurd cube (by decide)⟩ <;> revert child <;> decide +kernel

/-- Four cells where the level set is not negative keep a positive volume. -/
theorem slope_solid : (∀ child ∈ (slope 0).children, Solid (slope 0).phi ((slope 0).index child)) ∧
    (slope 0).restricted.volumeFraction ≠ 0 := by
  constructor
  · intro child listed
    refine ⟨?_, ?_, ?_, fun cube => absurd cube (by decide)⟩ <;> revert child <;> decide +kernel
  · decide +kernel

end Pops.CutGeometry
