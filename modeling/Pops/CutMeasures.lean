import Pops.CutGeometryProofs
import Mathlib.Tactic.IntervalCases

/-!
Cut-cell measures are complementary: the reconstructed volume fraction and the
face apertures of some samples and of their opposites add up to one.
-/
namespace Pops.CutGeometry
open EmbeddedTransport (clampUnitInterval half)

variable {K : Type} [Field K] [LinearOrder K] [IsStrictOrderedRing K]

/-- Every bit of a corner is a bit of the other one. -/
def Below (corner other : Corner) : Prop :=
  (corner.1 = true → other.1 = true) ∧ (corner.2.1 = true → other.2.1 = true) ∧
    (corner.2.2 = true → other.2.2 = true)

instance (corner other : Corner) : Decidable (Below corner other) := inferInstanceAs (Decidable (_ ∧ _))

/-- The corner samples that the tetrahedra resolve. -/
structure CornersApart (corners : Corner → K) : Prop where
  nonzero : ∀ corner, corners corner ≠ 0
  clear : ∀ corner other, Below corner other →
    corners corner = corners other ∨ kEps < |corners corner - corners other|

variable {corners : Corner → K}

omit [IsStrictOrderedRing K] in
theorem CornersApart.apart (apart : CornersApart corners) {P : Type} {vertices : List (Vertex P K)}
    {chain : List Corner} (ordered : chain.Pairwise Below) (samples : vertices.map Prod.snd = chain.map corners) :
    Apart vertices where
  nonzero v listed := by
    have member : v.2 ∈ chain.map corners := by rw [← samples]; exact List.mem_map_of_mem listed
    obtain ⟨corner, -, same⟩ := List.mem_map.mp member
    rw [← same]
    exact apart.nonzero corner
  clear v listed w listed' differ := by
    have member : v.2 ∈ chain.map corners := by rw [← samples]; exact List.mem_map_of_mem listed
    have member' : w.2 ∈ chain.map corners := by rw [← samples]; exact List.mem_map_of_mem listed'
    obtain ⟨corner, inChain, same⟩ := List.mem_map.mp member
    obtain ⟨other, inChain', same'⟩ := List.mem_map.mp member'
    have resolved : ∀ a ∈ chain, ∀ b ∈ chain, corners a = corners b ∨ kEps < |corners a - corners b| := by
      refine List.Pairwise.forall_of_forall_of_flip (fun a _ => .inl rfl)
        (ordered.imp fun {a b} below => apart.clear a b below) (ordered.imp fun {a b} below => ?_)
      rcases apart.clear a b below with equal | far
      · exact .inl equal.symm
      · exact .inr (by rwa [abs_sub_comm])
    rw [← same, ← same'] at differ ⊢
    exact (resolved corner inChain other inChain').resolve_left differ

/-- The negative part of a tetrahedron of the cube. -/
def tetPart (corners : Corner → K) (tet : Corner × Corner) : K :=
  tetNegativeVolume (vertex corners (false, false, false)) (vertex corners tet.1) (vertex corners tet.2)
    (vertex corners (true, true, true))

theorem tets_ordered : ∀ tet ∈ tets, [(false, false, false), tet.1, tet.2, (true, true, true)].Pairwise Below := by
  decide

theorem tets_volume : ∀ tet ∈ tets, tetVolume (vertex corners (false, false, false)).1 (vertex corners tet.1).1
    (vertex corners tet.2).1 (vertex corners (true, true, true)).1 = ((6 : ℕ) : K)⁻¹ := by
  intro tet listed
  simp only [tets, List.mem_cons, List.not_mem_nil, or_false] at listed
  rcases listed with rfl | rfl | rfl | rfl | rfl | rfl <;> simp [tetVolume, vertex, bit]

omit [IsStrictOrderedRing K] in
theorem volume_eq_sum (corners : Corner → K) :
    cubeTriangulationVolume corners = clampUnitInterval (tets.map (tetPart corners)).sum := by
  rw [cubeTriangulationVolume]
  congr 1
  simp only [tets, List.foldl_cons, List.foldl_nil, List.map_cons, List.map_nil, List.sum_cons, List.sum_nil, tetPart]
  ring

theorem CornersApart.tet_add (apart : CornersApart corners) {tet : Corner × Corner} (listed : tet ∈ tets) :
    tetPart corners tet + tetPart (fun corner => -corners corner) tet = ((6 : ℕ) : K)⁻¹ := by
  rw [← tets_volume tet listed]
  exact tetNegativeVolume_add (apart.apart (tets_ordered tet listed) rfl)

theorem sum_tetPart_nonneg (corners : Corner → K) : 0 ≤ (tets.map (tetPart corners)).sum := by
  refine List.sum_nonneg fun part member => ?_
  obtain ⟨tet, -, rfl⟩ := List.mem_map.mp member
  exact tetNegativeVolume_nonneg ..

theorem CornersApart.sum_add (apart : CornersApart corners) :
    (tets.map (tetPart corners)).sum + (tets.map (tetPart fun corner => -corners corner)).sum = 1 := by
  have each : tets.map (fun tet => tetPart corners tet + tetPart (fun corner => -corners corner) tet) =
      tets.map fun _ => ((6 : ℕ) : K)⁻¹ := List.map_congr_left fun tet listed => apart.tet_add listed
  have six : (tets.map fun _ => ((6 : ℕ) : K)⁻¹).sum = 1 := by
    simp only [tets, List.map_cons, List.map_nil, List.sum_cons, List.sum_nil]
    field_simp
    norm_num
  rw [← List.sum_map_add, each, six]

theorem CornersApart.volume_add (apart : CornersApart corners) :
    cubeTriangulationVolume corners + cubeTriangulationVolume (fun corner => -corners corner) = 1 := by
  have sum := apart.sum_add
  have low := sum_tetPart_nonneg corners
  have low' := sum_tetPart_nonneg fun corner => -corners corner
  rw [volume_eq_sum, volume_eq_sum, clamp_of_mem low (by linarith), clamp_of_mem low' (by linarith)]
  exact sum

theorem CornersApart.volume_scale (apart : CornersApart corners) {factor : K} (positive : 0 < factor)
    (scaled : CornersApart fun corner => factor * corners corner) :
    cubeTriangulationVolume (fun corner => factor * corners corner) = cubeTriangulationVolume corners := by
  rw [volume_eq_sum, volume_eq_sum]
  congr 2
  refine List.map_congr_left fun tet listed => ?_
  have stretched : Apart [stretch factor (vertex corners (false, false, false)), stretch factor (vertex corners tet.1),
      stretch factor (vertex corners tet.2), stretch factor (vertex corners (true, true, true))] :=
    scaled.apart (tets_ordered tet listed) rfl
  have before : Apart [vertex corners (false, false, false), vertex corners tet.1, vertex corners tet.2,
      vertex corners (true, true, true)] := apart.apart (tets_ordered tet listed) rfl
  exact tetNegativeVolume_scale before positive stretched

theorem face_ordered : ∀ axis upper middle,
    [faceCorner axis upper false false, faceCorner axis upper middle !middle,
      faceCorner axis upper true true].Pairwise Below := by decide

theorem squareNegativeArea_nonneg (p00 p10 p01 p11 : K) : 0 ≤ squareNegativeArea p00 p10 p01 p11 :=
  add_nonneg (triangleNegativeArea_nonneg ..) (triangleNegativeArea_nonneg ..)

/-- The vertices of the two triangles of a face. -/
def faceTriangle (corners : Corner → K) (axis : Fin 3) (upper along : Bool) : List (Vertex (K × K) K) :=
  [((0, 0), corners (faceCorner axis upper false false)),
    ((bit along, bit !along), corners (faceCorner axis upper along !along)),
    ((1, 1), corners (faceCorner axis upper true true))]

omit [IsStrictOrderedRing K] in
theorem CornersApart.faceTriangle (apart : CornersApart corners) (axis : Fin 3) (upper along : Bool) :
    Apart (faceTriangle corners axis upper along) :=
  apart.apart (face_ordered axis upper along) rfl

/-- The negative part of a triangle of a face. -/
def facePart (corners : Corner → K) (axis : Fin 3) (upper along : Bool) : K :=
  triangleNegativeArea ((0, 0), corners (faceCorner axis upper false false))
    ((bit along, bit !along), corners (faceCorner axis upper along !along))
    ((1, 1), corners (faceCorner axis upper true true))

omit [IsStrictOrderedRing K] in
theorem face_eq_sum (corners : Corner → K) (axis : Fin 3) (upper : Bool) :
    cubeFaceNegativeArea corners axis upper = facePart corners axis upper true + facePart corners axis upper false :=
  rfl

theorem CornersApart.facePart_add (apart : CornersApart corners) (axis : Fin 3) (upper along : Bool) :
    facePart corners axis upper along + facePart (fun corner => -corners corner) axis upper along = half := by
  have area : triangleArea ((0 : K), (0 : K)) (bit along, bit !along) (1, 1) = half := by
    cases along <;> simp [triangleArea, bit]
  rw [← area]
  exact triangleNegativeArea_add (apart.faceTriangle axis upper along)

theorem CornersApart.face_add (apart : CornersApart corners) (axis : Fin 3) (upper : Bool) :
    cubeFaceNegativeArea corners axis upper + cubeFaceNegativeArea (fun corner => -corners corner) axis upper = 1 := by
  have first := apart.facePart_add axis upper true
  have second := apart.facePart_add axis upper false
  have whole := @half_add_half K _ _ _
  rw [face_eq_sum, face_eq_sum]
  linarith

theorem face_nonneg (corners : Corner → K) (axis : Fin 3) (upper : Bool) :
    0 ≤ cubeFaceNegativeArea corners axis upper :=
  squareNegativeArea_nonneg ..

theorem CornersApart.face_scale (apart : CornersApart corners) {factor : K} (positive : 0 < factor)
    (scaled : CornersApart fun corner => factor * corners corner) (axis : Fin 3) (upper : Bool) :
    cubeFaceNegativeArea (fun corner => factor * corners corner) axis upper =
      cubeFaceNegativeArea corners axis upper := by
  have same (along : Bool) :
      facePart (fun corner => factor * corners corner) axis upper along = facePart corners axis upper along :=
    triangleNegativeArea_scale (apart.faceTriangle axis upper along) positive (scaled.faceTriangle axis upper along)
  rw [face_eq_sum, face_eq_sum, same true, same false]

theorem inside_iff (point : Point K) :
    (∃ tet ∈ tets, Inside tet point) ↔
      (0 ≤ point.x ∧ point.x ≤ 1) ∧ (0 ≤ point.y ∧ point.y ≤ 1) ∧ 0 ≤ point.z ∧ point.z ≤ 1 := by
  constructor
  · rintro ⟨tet, listed, w0, w1, w2, w3, p0, p1, p2, p3, total, x, y, z⟩
    simp only [tets, List.mem_cons, List.not_mem_nil, or_false] at listed
    rcases listed with rfl | rfl | rfl | rfl | rfl | rfl <;>
      simp only [bit, if_true, Bool.false_eq_true, if_false, mul_one, mul_zero, zero_add, add_zero] at x y z <;>
      rw [x, y, z] <;> refine ⟨⟨?_, ?_⟩, ⟨?_, ?_⟩, ?_, ?_⟩ <;> linarith
  · rintro ⟨⟨x0, x1⟩, ⟨y0, y1⟩, z0, z1⟩
    -- the tetrahedron follows the order of the coordinates
    rcases le_total point.x point.y with xy | yx <;> rcases le_total point.y point.z with yz | zy <;>
      rcases le_total point.x point.z with xz | zx
    · refine ⟨((false, false, true), (false, true, true)), by decide, 1 - point.z, point.z - point.y,
        point.y - point.x, point.x, by linarith, by linarith, by linarith, x0, ?_, ?_, ?_, ?_⟩ <;> simp [bit]
    · refine ⟨((false, false, true), (false, true, true)), by decide, 1 - point.z, point.z - point.y,
        point.y - point.x, point.x, by linarith, by linarith, by linarith, x0, ?_, ?_, ?_, ?_⟩ <;> simp [bit]
    · refine ⟨((false, true, false), (false, true, true)), by decide, 1 - point.y, point.y - point.z,
        point.z - point.x, point.x, by linarith, by linarith, by linarith, x0, ?_, ?_, ?_, ?_⟩ <;> simp [bit]
    · refine ⟨((false, true, false), (true, true, false)), by decide, 1 - point.y, point.y - point.x,
        point.x - point.z, point.z, by linarith, by linarith, by linarith, z0, ?_, ?_, ?_, ?_⟩ <;> simp [bit]
    · refine ⟨((false, false, true), (true, false, true)), by decide, 1 - point.z, point.z - point.x,
        point.x - point.y, point.y, by linarith, by linarith, by linarith, y0, ?_, ?_, ?_, ?_⟩ <;> simp [bit]
    · refine ⟨((true, false, false), (true, false, true)), by decide, 1 - point.x, point.x - point.z,
        point.z - point.y, point.y, by linarith, by linarith, by linarith, y0, ?_, ?_, ?_, ?_⟩ <;> simp [bit]
    · refine ⟨((true, false, false), (true, true, false)), by decide, 1 - point.x, point.x - point.y,
        point.y - point.z, point.z, by linarith, by linarith, by linarith, z0, ?_, ?_, ?_, ?_⟩ <;> simp [bit]
    · refine ⟨((true, false, false), (true, true, false)), by decide, 1 - point.x, point.x - point.y,
        point.y - point.z, point.z, by linarith, by linarith, by linarith, z0, ?_, ?_, ?_, ?_⟩ <;> simp [bit]

theorem within_unique {tet other : Corner × Corner} (listed : tet ∈ tets) (listed' : other ∈ tets)
    {point : Point K} (within : Within tet point) (within' : Within other point) : tet = other := by
  obtain ⟨w0, w1, w2, w3, p0, p1, p2, p3, -, x, y, z⟩ := within
  obtain ⟨u0, u1, u2, u3, q0, q1, q2, q3, -, x', y', z'⟩ := within'
  simp only [tets, List.mem_cons, List.not_mem_nil, or_false] at listed listed'
  rcases listed with rfl | rfl | rfl | rfl | rfl | rfl <;> rcases listed' with rfl | rfl | rfl | rfl | rfl | rfl <;>
    first
    | rfl
    | simp only [bit, if_true, Bool.false_eq_true, if_false, mul_one, mul_zero, zero_add, add_zero] at x y z x' y' z'
      exfalso
      linarith

theorem reflect_eq (g : K) : reflect g = |g| := by
  unfold reflect
  split
  · rename_i negative
    rw [abs_of_neg negative]
  · rename_i nonneg
    rw [abs_of_nonneg (not_lt.mp nonneg)]

theorem reflected_eq (alpha : K) (gradient : List K) :
    reflected alpha gradient = alpha + (gradient.map fun g => (|g| - g) * half).sum := by
  rw [reflected]
  induction gradient generalizing alpha with
  | nil => simp
  | cons g rest ih =>
    rw [List.foldl_cons, ih, List.map_cons, List.sum_cons, ← add_assoc]
    congr 1
    split
    · rename_i negative
      rw [abs_of_neg negative]
      linear_combination g * @half_add_half K _ _ _
    · rename_i nonneg
      rw [abs_of_nonneg (not_lt.mp nonneg), sub_self, zero_mul, add_zero]

/-- A component of the gradient that the code does not lose. -/
def Kept (g : K) : Prop := g = 0 ∨ kEps < |g|

theorem Kept.clear {g : K} (kept : Kept g) : Clear |g| := kept.imp_left fun zero => by rw [zero, abs_zero]

theorem box_nonneg (gradient : List K) (intercept : K) : 0 ≤ unitBoxNegativeHalfspace gradient intercept := by
  unfold unitBoxNegativeHalfspace
  split
  · exact interval_nonneg _ _
  · exact square_nonneg _
  · exact le_refl 0

theorem line_add {g intercept : K} (kept : Kept g) (nonzero : intercept ≠ 0) :
    unitBoxNegativeHalfspace [g] intercept + unitBoxNegativeHalfspace [-g] (-intercept) = 1 := by
  have offset : reflected (- -intercept) [-g] = |g| - reflected (-intercept) [g] := by
    rw [reflected_eq, reflected_eq]
    simp only [List.map_cons, List.map_nil, List.sum_cons, List.sum_nil, abs_neg]
    linear_combination |g| * @half_add_half K _ _ _
  simp only [unitBoxNegativeHalfspace, reflect_eq, abs_neg]
  rw [offset]
  refine interval_complement kept.clear fun zero => ?_
  have none : g = 0 := abs_eq_zero.mp zero
  rw [reflected_eq, none]
  simpa using nonzero

theorem plane_add {g h intercept : K} (keptG : Kept g) (keptH : Kept h) (nonzero : intercept ≠ 0) :
    unitBoxNegativeHalfspace [g, h] intercept + unitBoxNegativeHalfspace [-g, -h] (-intercept) = 1 := by
  have offset : reflected (- -intercept) [-g, -h] = |g| + |h| - reflected (-intercept) [g, h] := by
    rw [reflected_eq, reflected_eq]
    simp only [List.map_cons, List.map_nil, List.sum_cons, List.sum_nil, abs_neg]
    linear_combination (|g| + |h|) * @half_add_half K _ _ _
  simp only [unitBoxNegativeHalfspace, reflect_eq, abs_neg]
  rw [offset]
  refine square_complement keptG.clear keptH.clear fun zero zero' => ?_
  have none : g = 0 := abs_eq_zero.mp zero
  have none' : h = 0 := abs_eq_zero.mp zero'
  rw [reflected_eq, none, none']
  simpa using nonzero

theorem line_scale {g intercept factor : K} (kept : Kept g) (positive : 0 < factor) (scaled : Kept (factor * g)) :
    unitBoxNegativeHalfspace [factor * g] (factor * intercept) = unitBoxNegativeHalfspace [g] intercept := by
  have size : |factor * g| = factor * |g| := by rw [abs_mul, abs_of_pos positive]
  have offset : reflected (-(factor * intercept)) [factor * g] = factor * reflected (-intercept) [g] := by
    rw [reflected_eq, reflected_eq]
    simp only [List.map_cons, List.map_nil, List.sum_cons, List.sum_nil, size]
    ring
  simp only [unitBoxNegativeHalfspace, reflect_eq]
  rw [offset, size]
  exact interval_scale kept.clear positive (by rw [← size]; exact scaled.clear)

theorem plane_scale {g h intercept factor : K} (keptG : Kept g) (keptH : Kept h) (positive : 0 < factor)
    (scaledG : Kept (factor * g)) (scaledH : Kept (factor * h)) :
    unitBoxNegativeHalfspace [factor * g, factor * h] (factor * intercept) =
      unitBoxNegativeHalfspace [g, h] intercept := by
  have size (n : K) : |factor * n| = factor * |n| := by rw [abs_mul, abs_of_pos positive]
  have offset : reflected (-(factor * intercept)) [factor * g, factor * h] =
      factor * reflected (-intercept) [g, h] := by
    rw [reflected_eq, reflected_eq]
    simp only [List.map_cons, List.map_nil, List.sum_cons, List.sum_nil, size]
    ring
  simp only [unitBoxNegativeHalfspace, reflect_eq]
  rw [offset, size, size]
  exact square_scale keptG.clear keptH.clear positive (by rw [← size]; exact scaledG.clear)
    (by rw [← size]; exact scaledH.clear)

section Samples
variable {d : ℕ} {center : K} {lowerSamples upperSamples : Fin d → K}

omit [LinearOrder K] [IsStrictOrderedRing K] in
theorem gradient_mul (factor : K) (axis : Fin d) :
    gradient (fun n => factor * lowerSamples n) (fun n => factor * upperSamples n) axis =
      factor * gradient lowerSamples upperSamples axis := by
  simp only [gradient]
  ring

omit [LinearOrder K] [IsStrictOrderedRing K] in
theorem gradient_neg (axis : Fin d) :
    gradient (fun n => -lowerSamples n) (fun n => -upperSamples n) axis = -gradient lowerSamples upperSamples axis := by
  simp only [gradient]
  ring

omit [LinearOrder K] [IsStrictOrderedRing K] in
theorem intercept_mul (factor : K) :
    intercept (factor * center) (fun n => factor * lowerSamples n) (fun n => factor * upperSamples n) =
      factor * intercept center lowerSamples upperSamples := by
  simp only [intercept]
  induction List.finRange d generalizing center with
  | nil => rfl
  | cons axis rest ih =>
    rw [List.foldl_cons, List.foldl_cons, ← ih, gradient_mul]
    congr 1
    ring

omit [LinearOrder K] [IsStrictOrderedRing K] in
theorem intercept_neg : intercept (-center) (fun n => -lowerSamples n) (fun n => -upperSamples n) =
    -intercept center lowerSamples upperSamples := by
  have scaled := @intercept_mul K _ d center lowerSamples upperSamples (-1)
  simpa only [neg_mul, one_mul] using scaled

end Samples

/-- The measures of some samples and of their opposites. -/
structure Complementary (d : ℕ) (center : K) (lowerSamples upperSamples : Fin d → K) : Prop where
  volume : reconstructedVolumeFraction d center lowerSamples upperSamples +
    reconstructedVolumeFraction d (-center) (fun axis => -lowerSamples axis) (fun axis => -upperSamples axis) = 1
  aperture : ∀ faceAxis upperFace, reconstructedFaceAperture d center lowerSamples upperSamples faceAxis upperFace +
    reconstructedFaceAperture d (-center) (fun axis => -lowerSamples axis) (fun axis => -upperSamples axis) faceAxis
      upperFace = 1
  volume_mem : 0 ≤ reconstructedVolumeFraction d center lowerSamples upperSamples ∧
    reconstructedVolumeFraction d center lowerSamples upperSamples ≤ 1
  aperture_mem : ∀ faceAxis upperFace,
    0 ≤ reconstructedFaceAperture d center lowerSamples upperSamples faceAxis upperFace ∧
      reconstructedFaceAperture d center lowerSamples upperSamples faceAxis upperFace ≤ 1
  scale : ∀ factor, 0 < factor →
    Resolved d (factor * center) (fun axis => factor * lowerSamples axis) (fun axis => factor * upperSamples axis) →
    reconstructedVolumeFraction d (factor * center) (fun axis => factor * lowerSamples axis)
        (fun axis => factor * upperSamples axis) = reconstructedVolumeFraction d center lowerSamples upperSamples ∧
      ∀ faceAxis upperFace,
        reconstructedFaceAperture d (factor * center) (fun axis => factor * lowerSamples axis)
          (fun axis => factor * upperSamples axis) faceAxis upperFace =
            reconstructedFaceAperture d center lowerSamples upperSamples faceAxis upperFace

omit [IsStrictOrderedRing K] in
theorem le_one_of_add [IsOrderedAddMonoid K] {part other : K} (sum : part + other = 1) (nonneg : 0 ≤ other) :
    part ≤ 1 := by
  rw [← sum]
  exact le_add_of_nonneg_right nonneg

theorem complementary_cube {center : K} {lowerSamples upperSamples : Fin 3 → K}
    (resolved : Resolved 3 center lowerSamples upperSamples) : Complementary 3 center lowerSamples upperSamples := by
  have apart {center : K} {lowerSamples upperSamples : Fin 3 → K}
      (resolved : Resolved 3 center lowerSamples upperSamples) :
      CornersApart (cubeCornerSamples center lowerSamples upperSamples) := by
    constructor
    · rintro ⟨x, y, z⟩
      exact resolved.corners ![x, y, z]
    · rintro ⟨x, y, z⟩ ⟨x', y', z'⟩ ⟨first, second, third⟩
      refine resolved.edges rfl ![x, y, z] ![x', y', z'] fun axis => ?_
      fin_cases axis
      · exact first
      · exact second
      · exact third
  have negated : cubeCornerSamples (-center) (fun axis => -lowerSamples axis) (fun axis => -upperSamples axis) =
      fun corner => -cubeCornerSamples center lowerSamples upperSamples corner := by
    funext ⟨x, y, z⟩
    simp only [cubeCornerSamples, face]
    split_ifs <;> ring
  have scaled (factor : K) : cubeCornerSamples (factor * center) (fun axis => factor * lowerSamples axis)
      (fun axis => factor * upperSamples axis) =
        fun corner => factor * cubeCornerSamples center lowerSamples upperSamples corner := by
    funext ⟨x, y, z⟩
    simp only [cubeCornerSamples, face]
    split_ifs <;> ring
  have volume := (apart resolved).volume_add
  have faces := (apart resolved).face_add
  constructor
  · simp only [reconstructedVolumeFraction, negated]
    exact volume
  · intro faceAxis upperFace
    simp only [reconstructedFaceAperture, negated]
    exact faces faceAxis upperFace
  · exact ⟨clamp_nonneg _, le_one_of_add volume (clamp_nonneg _)⟩
  · intro faceAxis upperFace
    exact ⟨face_nonneg .., le_one_of_add (faces faceAxis upperFace) (face_nonneg ..)⟩
  · intro factor positive still
    have after := apart still
    simp only [scaled] at after
    simp only [reconstructedVolumeFraction, reconstructedFaceAperture, scaled]
    exact ⟨(apart resolved).volume_scale positive after, (apart resolved).face_scale positive after⟩

/-- In the square a line cuts the cell and its sides. -/
theorem complementary_square {center : K} {lowerSamples upperSamples : Fin 2 → K}
    (resolved : Resolved 2 center lowerSamples upperSamples) : Complementary 2 center lowerSamples upperSamples := by
  have kept := resolved.gradients (by decide)
  have corner (x y : Bool) : intercept center lowerSamples upperSamples +
      (gradient lowerSamples upperSamples 0 * bit x + gradient lowerSamples upperSamples 1 * bit y) ≠ 0 := by
    have value := resolved.corners ![x, y]
    simp only [cornerValue, show List.finRange 2 = [0, 1] from rfl, List.map_cons, List.map_nil, List.sum_cons,
      List.sum_nil, add_zero] at value
    exact value
  have inner : intercept center lowerSamples upperSamples ≠ 0 := by
    have value := corner false false
    simpa only [bit, Bool.false_eq_true, if_false, mul_zero, add_zero] using value
  have left (upper : Bool) : intercept center lowerSamples upperSamples +
      gradient lowerSamples upperSamples 0 * bit upper ≠ 0 := by
    have value := corner upper false
    simpa only [bit, Bool.false_eq_true, if_false, mul_zero, add_zero] using value
  have below (upper : Bool) : intercept center lowerSamples upperSamples +
      gradient lowerSamples upperSamples 1 * bit upper ≠ 0 := by
    have value := corner false upper
    simpa only [bit, Bool.false_eq_true, if_false, mul_zero, zero_add] using value
  have whole (center : K) (lowerSamples upperSamples : Fin 2 → K) :
      reconstructedVolumeFraction 2 center lowerSamples upperSamples = unitBoxNegativeHalfspace
        [gradient lowerSamples upperSamples 0, gradient lowerSamples upperSamples 1]
        (intercept center lowerSamples upperSamples) := rfl
  have sideX (center : K) (lowerSamples upperSamples : Fin 2 → K) (upper : Bool) :
      reconstructedFaceAperture 2 center lowerSamples upperSamples 0 upper =
        unitBoxNegativeHalfspace [gradient lowerSamples upperSamples 1]
          (intercept center lowerSamples upperSamples + gradient lowerSamples upperSamples 0 * bit upper) := rfl
  have sideY (center : K) (lowerSamples upperSamples : Fin 2 → K) (upper : Bool) :
      reconstructedFaceAperture 2 center lowerSamples upperSamples 1 upper =
        unitBoxNegativeHalfspace [gradient lowerSamples upperSamples 0]
          (intercept center lowerSamples upperSamples + gradient lowerSamples upperSamples 1 * bit upper) := rfl
  have volume : reconstructedVolumeFraction 2 center lowerSamples upperSamples +
      reconstructedVolumeFraction 2 (-center) (fun axis => -lowerSamples axis)
        (fun axis => -upperSamples axis) = 1 := by
    rw [whole, whole, gradient_neg, gradient_neg, intercept_neg]
    exact plane_add (kept 0) (kept 1) inner
  have aperture : ∀ faceAxis upperFace,
      reconstructedFaceAperture 2 center lowerSamples upperSamples faceAxis upperFace +
      reconstructedFaceAperture 2 (-center) (fun axis => -lowerSamples axis) (fun axis => -upperSamples axis) faceAxis
        upperFace = 1 := by
    intro faceAxis upperFace
    fin_cases faceAxis
    · simp only [Fin.zero_eta, sideX, gradient_neg, intercept_neg, neg_mul, ← neg_add]
      exact line_add (kept 1) (left upperFace)
    · simp only [Fin.mk_one, sideY, gradient_neg, intercept_neg, neg_mul, ← neg_add]
      exact line_add (kept 0) (below upperFace)
  have nonneg (center : K) (lowerSamples upperSamples : Fin 2 → K) (faceAxis : Fin 2) (upperFace : Bool) :
      0 ≤ reconstructedFaceAperture 2 center lowerSamples upperSamples faceAxis upperFace := by
    fin_cases faceAxis
    · simp only [Fin.zero_eta, sideX]
      exact box_nonneg _ _
    · simp only [Fin.mk_one, sideY]
      exact box_nonneg _ _
  have part (center : K) (lowerSamples upperSamples : Fin 2 → K) :
      0 ≤ reconstructedVolumeFraction 2 center lowerSamples upperSamples := by
    rw [whole]
    exact box_nonneg _ _
  refine ⟨volume, aperture, ⟨part .., le_one_of_add volume (part ..)⟩, ?_, ?_⟩
  · intro faceAxis upperFace
    exact ⟨nonneg .., le_one_of_add (aperture faceAxis upperFace) (nonneg ..)⟩
  · intro factor positive still
    have after := still.gradients (by decide)
    simp only [gradient_mul] at after
    constructor
    · rw [whole, whole, gradient_mul, gradient_mul, intercept_mul]
      exact plane_scale (kept 0) (kept 1) positive (after 0) (after 1)
    · intro faceAxis upperFace
      fin_cases faceAxis
      · simp only [Fin.zero_eta, sideX, gradient_mul, intercept_mul, mul_assoc, ← mul_add]
        exact line_scale (kept 1) positive (after 1)
      · simp only [Fin.mk_one, sideY, gradient_mul, intercept_mul, mul_assoc, ← mul_add]
        exact line_scale (kept 0) positive (after 0)

omit [IsStrictOrderedRing K] in
theorem side_add [IsOrderedAddMonoid K] {value : K} (nonzero : value ≠ 0) :
    (if value < 0 then (1 : K) else 0) + (if -value < 0 then 1 else 0) = 1 := by
  rcases lt_or_gt_of_ne nonzero with negative | positive
  · rw [if_pos negative, if_neg (not_lt.mpr (neg_nonneg.mpr negative.le)), add_zero]
  · rw [if_neg (not_lt.mpr positive.le), if_pos (neg_neg_of_pos positive), zero_add]

theorem complementary_segment {center : K} {lowerSamples upperSamples : Fin 1 → K}
    (resolved : Resolved 1 center lowerSamples upperSamples) : Complementary 1 center lowerSamples upperSamples := by
  have kept := resolved.gradients (by decide)
  have end_ne (upper : Bool) : intercept center lowerSamples upperSamples +
      gradient lowerSamples upperSamples 0 * bit upper ≠ 0 := by
    have value := resolved.corners ![upper]
    simp only [cornerValue, show List.finRange 1 = [0] from rfl, List.map_cons, List.map_nil, List.sum_cons,
      List.sum_nil, add_zero] at value
    exact value
  have inner : intercept center lowerSamples upperSamples ≠ 0 := by
    have value := end_ne false
    simpa only [bit, Bool.false_eq_true, if_false, mul_zero, add_zero] using value
  have whole (center : K) (lowerSamples upperSamples : Fin 1 → K) :
      reconstructedVolumeFraction 1 center lowerSamples upperSamples = unitBoxNegativeHalfspace
        [gradient lowerSamples upperSamples 0] (intercept center lowerSamples upperSamples) := rfl
  have side (center : K) (lowerSamples upperSamples : Fin 1 → K) (faceAxis : Fin 1) (upper : Bool) :
      reconstructedFaceAperture 1 center lowerSamples upperSamples faceAxis upper =
        if intercept center lowerSamples upperSamples + gradient lowerSamples upperSamples 0 * bit upper < 0
        then 1 else 0 := by
    rw [Subsingleton.elim faceAxis 0]
    rfl
  have volume : reconstructedVolumeFraction 1 center lowerSamples upperSamples +
      reconstructedVolumeFraction 1 (-center) (fun axis => -lowerSamples axis)
        (fun axis => -upperSamples axis) = 1 := by
    rw [whole, whole, gradient_neg, intercept_neg]
    exact line_add (kept 0) inner
  have part (center : K) (lowerSamples upperSamples : Fin 1 → K) :
      0 ≤ reconstructedVolumeFraction 1 center lowerSamples upperSamples := by
    rw [whole]
    exact box_nonneg _ _
  refine ⟨volume, ?_, ⟨part .., le_one_of_add volume (part ..)⟩, ?_, ?_⟩
  · intro faceAxis upperFace
    rw [side, side, gradient_neg, intercept_neg, neg_mul, ← neg_add]
    exact side_add (end_ne upperFace)
  · intro faceAxis upperFace
    rw [side]
    split
    · exact ⟨zero_le_one, le_refl 1⟩
    · exact ⟨le_refl 0, zero_le_one⟩
  · intro factor positive still
    have after := still.gradients (by decide)
    simp only [gradient_mul] at after
    constructor
    · rw [whole, whole, gradient_mul, intercept_mul]
      exact line_scale (kept 0) positive (after 0)
    · intro faceAxis upperFace
      rw [side, side, gradient_mul, intercept_mul, mul_assoc, ← mul_add]
      simp only [mul_negative_iff positive]

/-- The six tetrahedra of a cube and their parts on both sides of a level set. -/
structure Tiled (K : Type) [Field K] [LinearOrder K] : Prop where
  cover : ∀ point : Point K, (∃ tet ∈ tets, Inside tet point) ↔
    (0 ≤ point.x ∧ point.x ≤ 1) ∧ (0 ≤ point.y ∧ point.y ≤ 1) ∧ 0 ≤ point.z ∧ point.z ≤ 1
  apart : ∀ tet ∈ tets, ∀ other ∈ tets, ∀ point : Point K,
    Within tet point → Within other point → tet = other
  parts : ∀ v0 v1 v2 v3 : Vertex (Point K) K, Apart [v0, v1, v2, v3] →
    tetNegativeVolume v0 v1 v2 v3 + tetNegativeVolume (flip v0) (flip v1) (flip v2) (flip v3) =
      tetVolume v0.1 v1.1 v2.1 v3.1

/-- Where the code resolves the samples, the measures of the two sides fill the cell and its faces,
lie in the unit interval and do not change with the scale of the samples. -/
theorem cut_measures_complementary :
    (∀ (d : ℕ) (center : K) (lowerSamples upperSamples : Fin d → K), 1 ≤ d → d ≤ 3 →
      Resolved d center lowerSamples upperSamples → Complementary d center lowerSamples upperSamples) ∧
    Tiled K := by
  refine ⟨?_, inside_iff, fun tet listed other listed' point => within_unique listed listed',
    fun v0 v1 v2 v3 => tetNegativeVolume_add⟩
  intro d center lowerSamples upperSamples positive small resolved
  interval_cases d
  · exact complementary_segment resolved
  · exact complementary_square resolved
  · exact complementary_cube resolved

/-- A plane with four corners of the cube on each side. -/
theorem corner_plane_complementary :
    reconstructedVolumeFraction 3 (-2 : ℚ) (fun _ => -3) (fun _ => 1) +
      reconstructedVolumeFraction 3 (2 : ℚ) (fun _ => 3) (fun _ => -1) = 1 := by
  have resolved : Resolved 3 (-2 : ℚ) (fun _ => -3) (fun _ => 1) := by
    refine ⟨by decide +kernel, fun small => absurd small (by decide), fun _ => by decide +kernel⟩
  have complementary := (@cut_measures_complementary ℚ _ _ _).1 3 (-2) (fun _ => -3) (fun _ => 1) (by decide)
    (by decide) resolved
  simpa using complementary.volume

end Pops.CutGeometry
