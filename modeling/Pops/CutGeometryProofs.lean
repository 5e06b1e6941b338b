import Pops.CutGeometry
import Mathlib

/-!
The part of a cell on one side of a level set and the part on the other fill the
cell: by the closed forms for a plane, and tetrahedron by tetrahedron in a cube.
-/
namespace Pops.CutGeometry
open EmbeddedTransport (clampUnitInterval half)

variable {K : Type} [Field K] [LinearOrder K] [IsStrictOrderedRing K]

theorem half_add_half : (half : K) + half = 1 := by
  rw [half]
  field_simp

theorem half_pos : 0 < (half : K) := by
  rw [half]
  positivity

theorem kEps_pos : 0 < (kEps : K) := by
  rw [kEps]
  positivity

theorem mul_negative_iff {factor value : K} (positive : 0 < factor) : factor * value < 0 ↔ value < 0 := by
  constructor
  · intro negative
    by_contra nonneg
    exact absurd negative (not_lt.mpr (mul_nonneg positive.le (not_lt.mp nonneg)))
  · exact mul_neg_of_pos_of_neg positive

omit [IsStrictOrderedRing K] in
theorem clamp_of_mem {value : K} (nonneg : 0 ≤ value) (small : value ≤ 1) : clampUnitInterval value = value := by
  rw [clampUnitInterval, if_neg (not_lt.mpr nonneg), if_neg (not_lt.mpr small)]

theorem clamp_nonneg (value : K) : 0 ≤ clampUnitInterval value := by
  unfold clampUnitInterval
  split
  · exact le_refl 0
  · rename_i nonneg
    split
    · exact zero_le_one
    · exact not_lt.mp nonneg

theorem clamp_complement (value : K) : clampUnitInterval value + clampUnitInterval (1 - value) = 1 := by
  unfold clampUnitInterval
  split_ifs <;> linarith

/-- A component that is zero, or that the code does not take for zero. -/
def Clear (n : K) : Prop := n = 0 ∨ kEps < n

theorem Clear.scale {n : K} (clear : Clear n) {factor : K} (positive : 0 < factor) (scaled : Clear (factor * n)) :
    n ≤ kEps ↔ factor * n ≤ kEps := by
  rcases clear with rfl | large
  · rw [mul_zero]
  · have n_pos : 0 < n := kEps_pos.trans large
    rcases scaled with zero | still
    · exact absurd zero (mul_pos positive n_pos).ne'
    · exact ⟨fun small => absurd large (not_lt.mpr small), fun small => absurd still (not_lt.mpr small)⟩

theorem interval_nonneg (n alpha : K) : 0 ≤ unitIntervalHalfspace n alpha := by
  unfold unitIntervalHalfspace
  split
  · split
    · exact zero_le_one
    · exact le_refl 0
  · exact clamp_nonneg _

theorem interval_complement {n alpha : K} (clear : Clear n) (nonzero : n = 0 → alpha ≠ 0) :
    unitIntervalHalfspace n alpha + unitIntervalHalfspace n (n - alpha) = 1 := by
  unfold unitIntervalHalfspace
  rcases clear with rfl | large
  · rw [if_pos kEps_pos.le, if_pos kEps_pos.le, zero_sub]
    rcases lt_or_gt_of_ne (nonzero rfl) with negative | positive
    · rw [if_neg (not_lt.mpr negative.le), if_pos (neg_pos.mpr negative), zero_add]
    · rw [if_pos positive, if_neg (not_lt.mpr (neg_nonpos.mpr positive.le)), add_zero]
  · have n_pos : 0 < n := kEps_pos.trans large
    rw [if_neg (not_le.mpr large), if_neg (not_le.mpr large), sub_div, div_self n_pos.ne']
    exact clamp_complement _

theorem interval_scale {n alpha factor : K} (clear : Clear n) (positive : 0 < factor) (scaled : Clear (factor * n)) :
    unitIntervalHalfspace (factor * n) (factor * alpha) = unitIntervalHalfspace n alpha := by
  unfold unitIntervalHalfspace
  simp only [mul_pos_iff_of_pos_left positive, mul_div_mul_left _ _ positive.ne', clear.scale positive scaled]

omit [IsStrictOrderedRing K] in
theorem square_area {nx ny alpha : K} (largeX : kEps < nx) (largeY : kEps < ny) (above : 0 < alpha)
    (below : alpha < nx + ny) :
    unitSquareHalfspace nx ny alpha = (alpha * alpha -
      (if nx < alpha then (alpha - nx) * (alpha - nx) else 0) -
      (if ny < alpha then (alpha - ny) * (alpha - ny) else 0)) / ((1 + 1) * nx * ny) := by
  rw [unitSquareHalfspace, if_neg (not_le.mpr largeX), if_neg (not_le.mpr largeY), if_neg (not_le.mpr above),
    if_neg (not_le.mpr below)]
  simp only [if_neg (not_lt.mpr below.le)]
  split_ifs <;> simp

theorem square_nonneg {nx ny : K} (alpha : K) : 0 ≤ unitSquareHalfspace nx ny alpha := by
  by_cases smallX : nx ≤ kEps
  · rw [unitSquareHalfspace, if_pos smallX]
    exact interval_nonneg _ _
  by_cases smallY : ny ≤ kEps
  · rw [unitSquareHalfspace, if_neg smallX, if_pos smallY]
    exact interval_nonneg _ _
  have largeX := not_le.mp smallX
  have largeY := not_le.mp smallY
  by_cases outside : alpha ≤ 0
  · rw [unitSquareHalfspace, if_neg smallX, if_neg smallY, if_pos outside]
  by_cases whole : nx + ny ≤ alpha
  · rw [unitSquareHalfspace, if_neg smallX, if_neg smallY, if_neg outside, if_pos whole]
    exact zero_le_one
  rw [square_area largeX largeY (not_le.mp outside) (not_le.mp whole)]
  have x_pos : 0 < nx := kEps_pos.trans largeX
  have y_pos : 0 < ny := kEps_pos.trans largeY
  have above := not_le.mp outside
  have below := not_le.mp whole
  refine div_nonneg ?_ (by positivity)
  split_ifs with beyondX beyondY beyondY
  · have rest : 0 ≤ nx + ny - alpha := by linarith
    have shortX : nx + ny - alpha ≤ nx := by linarith
    have shortY : nx + ny - alpha ≤ ny := by linarith
    have product : (nx + ny - alpha) * (nx + ny - alpha) ≤ nx * ny := mul_le_mul shortX shortY rest x_pos.le
    have positive : 0 < nx * ny := mul_pos x_pos y_pos
    nlinarith only [product, positive]
  · nlinarith only [mul_pos x_pos (sub_pos.mpr beyondX), mul_pos x_pos x_pos]
  · nlinarith only [mul_pos y_pos (sub_pos.mpr beyondY), mul_pos y_pos y_pos]
  · nlinarith only [mul_pos above above]

theorem square_complement {nx ny alpha : K} (clearX : Clear nx) (clearY : Clear ny)
    (nonzero : nx = 0 → ny = 0 → alpha ≠ 0) :
    unitSquareHalfspace nx ny alpha + unitSquareHalfspace nx ny (nx + ny - alpha) = 1 := by
  rcases clearX with rfl | largeX
  · rw [unitSquareHalfspace, unitSquareHalfspace, if_pos kEps_pos.le, if_pos kEps_pos.le, zero_add]
    exact interval_complement clearY fun zero => nonzero rfl zero
  rcases clearY with rfl | largeY
  · rw [unitSquareHalfspace, unitSquareHalfspace, if_neg (not_le.mpr largeX), if_neg (not_le.mpr largeX),
      if_pos kEps_pos.le, if_pos kEps_pos.le, add_zero]
    exact interval_complement (.inr largeX) fun zero => absurd largeX (by rw [zero]; exact not_lt.mpr kEps_pos.le)
  have x_pos : 0 < nx := kEps_pos.trans largeX
  have y_pos : 0 < ny := kEps_pos.trans largeY
  have reduce (beta : K) : unitSquareHalfspace nx ny beta = if beta ≤ 0 then 0 else if nx + ny ≤ beta then 1 else
      unitSquareHalfspace nx ny beta := by
    split_ifs with outside whole
    · rw [unitSquareHalfspace, if_neg (not_le.mpr largeX), if_neg (not_le.mpr largeY), if_pos outside]
    · rw [unitSquareHalfspace, if_neg (not_le.mpr largeX), if_neg (not_le.mpr largeY), if_neg outside, if_pos whole]
    · rfl
  by_cases outside : alpha ≤ 0
  · rw [reduce alpha, reduce (nx + ny - alpha), if_pos outside, if_neg (by linarith), if_pos (by linarith), zero_add]
  by_cases whole : nx + ny ≤ alpha
  · rw [reduce alpha, reduce (nx + ny - alpha), if_neg outside, if_pos whole, if_pos (by linarith), add_zero]
  have above := not_le.mp outside
  have below := not_le.mp whole
  rw [square_area largeX largeY above below, square_area largeX largeY (by linarith) (by linarith), ← add_div,
    div_eq_one_iff_eq (by positivity)]
  -- the two tails along an axis make one square
  have tail (near far : K) : (if near < alpha then (alpha - near) * (alpha - near) else 0) +
      (if far < near + far - alpha then (near + far - alpha - far) * (near + far - alpha - far) else 0) =
        (alpha - near) * (alpha - near) := by
    by_cases beyond : near < alpha
    · rw [if_pos beyond, if_neg (by linarith), add_zero]
    · rcases lt_or_eq_of_le (not_lt.mp beyond) with short | rfl
      · rw [if_neg beyond, if_pos (by linarith)]
        ring
      · simp
  have tailX := tail nx ny
  have tailY := tail ny nx
  rw [add_comm ny nx] at tailY
  linear_combination -tailX - tailY

theorem square_scale {nx ny alpha factor : K} (clearX : Clear nx) (clearY : Clear ny) (positive : 0 < factor)
    (scaledX : Clear (factor * nx)) (scaledY : Clear (factor * ny)) :
    unitSquareHalfspace (factor * nx) (factor * ny) (factor * alpha) = unitSquareHalfspace nx ny alpha := by
  have sameX := clearX.scale positive scaledX
  have sameY := clearY.scale positive scaledY
  by_cases smallX : nx ≤ kEps
  · rw [unitSquareHalfspace, unitSquareHalfspace, if_pos smallX, if_pos (sameX.mp smallX)]
    exact interval_scale clearY positive scaledY
  by_cases smallY : ny ≤ kEps
  · rw [unitSquareHalfspace, unitSquareHalfspace, if_neg smallX, if_neg (fun small => smallX (sameX.mpr small)),
      if_pos smallY, if_pos (sameY.mp smallY)]
    exact interval_scale clearX positive scaledX
  have largeX := not_le.mp smallX
  have largeY := not_le.mp smallY
  have largeX' : kEps < factor * nx := not_le.mp fun small => smallX (sameX.mpr small)
  have largeY' : kEps < factor * ny := not_le.mp fun small => smallY (sameY.mpr small)
  by_cases outside : alpha ≤ 0
  · have outside' : factor * alpha ≤ 0 := mul_nonpos_of_nonneg_of_nonpos positive.le outside
    rw [unitSquareHalfspace, unitSquareHalfspace, if_neg smallX, if_neg smallY, if_pos outside,
      if_neg (not_le.mpr largeX'), if_neg (not_le.mpr largeY'), if_pos outside']
  have above := not_le.mp outside
  have above' : 0 < factor * alpha := mul_pos positive above
  have sum_iff : factor * nx + factor * ny ≤ factor * alpha ↔ nx + ny ≤ alpha := by
    rw [← mul_add, mul_le_mul_iff_right₀ positive]
  by_cases whole : nx + ny ≤ alpha
  · rw [unitSquareHalfspace, unitSquareHalfspace, if_neg smallX, if_neg smallY, if_neg outside, if_pos whole,
      if_neg (not_le.mpr largeX'), if_neg (not_le.mpr largeY'), if_neg (not_le.mpr above'), if_pos (sum_iff.mpr whole)]
  have below := not_le.mp whole
  have below' : factor * alpha < factor * nx + factor * ny := not_le.mp fun large => whole (sum_iff.mp large)
  have x_pos : 0 < nx := kEps_pos.trans largeX
  have y_pos : 0 < ny := kEps_pos.trans largeY
  rw [square_area largeX largeY above below, square_area largeX' largeY' above' below']
  simp only [mul_lt_mul_iff_right₀ positive]
  rw [div_eq_div_iff (by positivity) (by positivity)]
  split_ifs <;> ring

/-- Two samples of opposite signs whose difference the code does not take for zero. -/
structure Crosses (a b : K) : Prop where
  opposite : a < 0 ∧ 0 < b ∨ 0 < a ∧ b < 0
  clear : kEps < |a - b|

variable {a b : K}

omit [IsStrictOrderedRing K] in
theorem Crosses.symm (crosses : Crosses a b) : Crosses b a where
  opposite := crosses.opposite.symm.imp And.symm And.symm
  clear := by rw [abs_sub_comm]; exact crosses.clear

theorem Crosses.neg (crosses : Crosses a b) : Crosses (-a) (-b) where
  opposite := crosses.opposite.symm.imp (fun signs => ⟨neg_neg_of_pos signs.1, neg_pos.mpr signs.2⟩)
    fun signs => ⟨neg_pos.mpr signs.1, neg_neg_of_pos signs.2⟩
  clear := by
    rw [neg_sub_neg, abs_sub_comm]
    exact crosses.clear

theorem Crosses.parameter (crosses : Crosses a b) :
    isoEdgeParameter a b = a / (a - b) ∧ 0 ≤ isoEdgeParameter a b ∧ isoEdgeParameter a b ≤ 1 := by
  have bounds : 0 ≤ a / (a - b) ∧ a / (a - b) ≤ 1 := by
    rcases crosses.opposite with ⟨negative, positive⟩ | ⟨positive, negative⟩
    · have below : a - b < 0 := by linarith
      exact ⟨div_nonneg_of_nonpos negative.le below.le, (div_le_one_of_neg below).mpr (by linarith)⟩
    · have above : 0 < a - b := by linarith
      exact ⟨div_nonneg positive.le above.le, (div_le_one₀ above).mpr (by linarith)⟩
  have value : isoEdgeParameter a b = a / (a - b) := by
    rw [isoEdgeParameter, if_neg (not_le.mpr crosses.clear), clamp_of_mem bounds.1 bounds.2]
  rw [value]
  exact ⟨rfl, bounds⟩

theorem Crosses.parameter_symm (crosses : Crosses a b) : isoEdgeParameter b a = 1 - isoEdgeParameter a b := by
  rw [crosses.symm.parameter.1, crosses.parameter.1]
  have apart : a - b ≠ 0 := by
    rcases crosses.opposite with ⟨negative, positive⟩ | ⟨positive, negative⟩
    · exact (by linarith : a - b < 0).ne
    · exact (by linarith : 0 < a - b).ne'
  have apart' : b - a ≠ 0 := by
    rw [← neg_sub]
    exact neg_ne_zero.mpr apart
  field_simp
  ring

theorem Crosses.parameter_neg (crosses : Crosses a b) : isoEdgeParameter (-a) (-b) = isoEdgeParameter a b := by
  rw [crosses.neg.parameter.1, crosses.parameter.1, neg_sub_neg, ← neg_sub a b, neg_div_neg_eq]

theorem Crosses.parameter_scale (crosses : Crosses a b) {factor : K} (positive : 0 < factor)
    (scaled : Crosses (factor * a) (factor * b)) :
    isoEdgeParameter (factor * a) (factor * b) = isoEdgeParameter a b := by
  rw [scaled.parameter.1, crosses.parameter.1, ← mul_sub, mul_div_mul_left _ _ positive.ne']

omit [LinearOrder K] [IsStrictOrderedRing K] in
/-- The determinant under `tet_volume`. -/
def tetDet (a b c d : Point K) : K :=
  (b.x - a.x) * ((c.y - a.y) * (d.z - a.z) - (c.z - a.z) * (d.y - a.y)) -
    (b.y - a.y) * ((c.x - a.x) * (d.z - a.z) - (c.z - a.z) * (d.x - a.x)) +
    (b.z - a.z) * ((c.x - a.x) * (d.y - a.y) - (c.y - a.y) * (d.x - a.x))

omit [IsStrictOrderedRing K] in
theorem tetVolume_eq (a b c d : Point K) : tetVolume a b c d = |tetDet a b c d| / ((6 : ℕ) : K) := rfl

theorem tetVolume_nonneg (a b c d : Point K) : 0 ≤ tetVolume a b c d := by
  rw [tetVolume_eq]
  positivity

theorem tetVolume_scale {p q r s p' q' r' s' : Point K} {factor : K} (nonneg : 0 ≤ factor)
    (det : tetDet p q r s = factor * tetDet p' q' r' s' ∨ tetDet p q r s = -(factor * tetDet p' q' r' s')) :
    tetVolume p q r s = factor * tetVolume p' q' r' s' := by
  rw [tetVolume_eq, tetVolume_eq, ← mul_div_assoc]
  rcases det with same | opposite
  · rw [same, abs_mul, abs_of_nonneg nonneg]
  · rw [opposite, abs_neg, abs_mul, abs_of_nonneg nonneg]

omit [IsStrictOrderedRing K] in
theorem tetVolume_swap_first (p q r s : Point K) : tetVolume q p r s = tetVolume p q r s := by
  rw [tetVolume_eq, tetVolume_eq, show tetDet q p r s = -tetDet p q r s by simp only [tetDet]; ring, abs_neg]

omit [IsStrictOrderedRing K] in
theorem tetVolume_swap_middle (p q r s : Point K) : tetVolume p r q s = tetVolume p q r s := by
  rw [tetVolume_eq, tetVolume_eq, show tetDet p r q s = -tetDet p q r s by simp only [tetDet]; ring, abs_neg]

omit [IsStrictOrderedRing K] in
theorem tetVolume_swap_last (p q r s : Point K) : tetVolume p q s r = tetVolume p q r s := by
  rw [tetVolume_eq, tetVolume_eq, show tetDet p q s r = -tetDet p q r s by simp only [tetDet]; ring, abs_neg]

theorem tetVolume_tip (p q r s : Point K) {t u v : K} (ht : 0 ≤ t) (hu : 0 ≤ u) (hv : 0 ≤ v) :
    tetVolume p (lerp3 p q t) (lerp3 p r u) (lerp3 p s v) = t * u * v * tetVolume p q r s := by
  refine tetVolume_scale (by positivity) (.inl ?_)
  simp only [tetDet, lerp3]
  ring

theorem tetVolume_prism (p q r s : Point K) {t u v w : K} (ht : 0 ≤ t ∧ t ≤ 1) (hu : 0 ≤ u ∧ u ≤ 1)
    (hv : 0 ≤ v) (hw : 0 ≤ w) :
    tetVolume p q (lerp3 p r t) (lerp3 p s u) + tetVolume q (lerp3 p r t) (lerp3 q r v) (lerp3 q s w) +
      tetVolume q (lerp3 p r t) (lerp3 p s u) (lerp3 q s w) =
        (t * u + (1 - t) * v * w + t * (1 - u) * w) * tetVolume p q r s := by
  have t_rest : 0 ≤ 1 - t := sub_nonneg.mpr ht.2
  have u_rest : 0 ≤ 1 - u := sub_nonneg.mpr hu.2
  have first : tetVolume p q (lerp3 p r t) (lerp3 p s u) = t * u * tetVolume p q r s := by
    refine tetVolume_scale (mul_nonneg ht.1 hu.1) (.inl ?_)
    simp only [tetDet, lerp3]
    ring
  have second : tetVolume q (lerp3 p r t) (lerp3 q r v) (lerp3 q s w) = (1 - t) * v * w * tetVolume p q r s := by
    refine tetVolume_scale (by positivity) (.inr ?_)
    simp only [tetDet, lerp3]
    ring
  have third : tetVolume q (lerp3 p r t) (lerp3 p s u) (lerp3 q s w) = t * (1 - u) * w * tetVolume p q r s := by
    refine tetVolume_scale (mul_nonneg (mul_nonneg ht.1 u_rest) hw) (.inl ?_)
    simp only [tetDet, lerp3]
    ring
  rw [first, second, third]
  ring

theorem remainder_add {full solid : K} (small : solid ≤ full) : remainder full solid = full - solid := by
  unfold remainder
  split
  · rfl
  · rename_i large
    linarith

/-- A vertex with the opposite sample. -/
def flip {P : Type} (v : Vertex P K) : Vertex P K := (v.1, -v.2)

/-- A vertex with its sample times a factor. -/
def stretch {P : Type} (factor : K) (v : Vertex P K) : Vertex P K := (v.1, factor * v.2)

/-- Inside and outside vertices whose edges all cross. -/
structure Sided {P : Type} (inside outside : List (Vertex P K)) : Prop where
  crosses : ∀ i ∈ inside, ∀ o ∈ outside, Crosses i.2 o.2

/-- The vertices of a tetrahedron in some order. -/
def volumeOf : List (Vertex (Point K) K) → K
  | [a, b, c, d] => tetVolume a.1 b.1 c.1 d.1
  | _ => 0

omit [LinearOrder K] [IsStrictOrderedRing K] in
@[simp] theorem stretch_fst {P : Type} (factor : K) (v : Vertex P K) : (stretch factor v).1 = v.1 := rfl

/-- How many of the four vertices lie on either side. -/
inductive Split4 {V : Type} : List V → List V → Prop
  | none (a b c d : V) : Split4 [] [a, b, c, d]
  | one (a b c d : V) : Split4 [a] [b, c, d]
  | two (a b c d : V) : Split4 [a, b] [c, d]
  | three (a b c d : V) : Split4 [a, b, c] [d]
  | four (a b c d : V) : Split4 [a, b, c, d] []

theorem Split4.of_length {V : Type} {inside outside : List V} (four : inside.length + outside.length = 4) :
    Split4 inside outside := by
  rcases inside with _ | ⟨a, _ | ⟨b, _ | ⟨c, _ | ⟨d, _ | ⟨e, inside⟩⟩⟩⟩⟩ <;>
    rcases outside with _ | ⟨o, _ | ⟨p, _ | ⟨q, _ | ⟨r, _ | ⟨t, outside⟩⟩⟩⟩⟩ <;>
    first
    | constructor
    | simp only [List.length_cons, List.length_nil] at four
      omega

theorem crossing3_flip {i o : Vertex (Point K) K} (crosses : Crosses i.2 o.2) :
    crossing3 (flip i) (flip o) = crossing3 i o := by
  simp only [crossing3, flip, crosses.parameter_neg]

theorem tip_le {i o0 o1 o2 : Vertex (Point K) K} (c0 : Crosses i.2 o0.2) (c1 : Crosses i.2 o1.2)
    (c2 : Crosses i.2 o2.2) :
    tetVolume i.1 (crossing3 i o0) (crossing3 i o1) (crossing3 i o2) ≤ tetVolume i.1 o0.1 o1.1 o2.1 := by
  obtain ⟨-, low0, high0⟩ := c0.parameter
  obtain ⟨-, low1, high1⟩ := c1.parameter
  obtain ⟨-, low2, high2⟩ := c2.parameter
  rw [crossing3, crossing3, crossing3, tetVolume_tip _ _ _ _ low0 low1 low2]
  have small := mul_le_one₀ (mul_le_one₀ high0 low1 high1) low2 high2
  exact mul_le_of_le_one_left (tetVolume_nonneg ..) small

theorem prisms_add {i0 i1 o0 o1 : Vertex (Point K) K} (c00 : Crosses i0.2 o0.2) (c01 : Crosses i0.2 o1.2)
    (c10 : Crosses i1.2 o0.2) (c11 : Crosses i1.2 o1.2) :
    tetNegativeVolumeOf 0 [i0, i1] [o0, o1] + tetNegativeVolumeOf 0 [flip o0, flip o1] [flip i0, flip i1] =
      tetVolume i0.1 i1.1 o0.1 o1.1 := by
  simp only [tetNegativeVolumeOf, crossing3_flip c00.symm, crossing3_flip c01.symm, crossing3_flip c10.symm,
    crossing3_flip c11.symm]
  have near := tetVolume_prism i0.1 i1.1 o0.1 o1.1 c00.parameter.2 c01.parameter.2 c10.parameter.2.1 c11.parameter.2.1
  have far := tetVolume_prism o0.1 o1.1 i0.1 i1.1 c00.symm.parameter.2 c10.symm.parameter.2 c01.symm.parameter.2.1
    c11.symm.parameter.2.1
  have turned : tetVolume o0.1 o1.1 i0.1 i1.1 = tetVolume i0.1 i1.1 o0.1 o1.1 := by
    simp only [tetVolume_swap_first, tetVolume_swap_middle, tetVolume_swap_last]
  rw [turned] at far
  simp only [crossing3, flip]
  rw [near, far, c00.parameter_symm, c01.parameter_symm, c10.parameter_symm, c11.parameter_symm]
  ring

theorem tetNegativeVolumeOf_nonneg {full : K} (whole : 0 ≤ full) (inside outside : List (Vertex (Point K) K)) :
    0 ≤ tetNegativeVolumeOf full inside outside := by
  unfold tetNegativeVolumeOf
  split
  · exact whole
  · exact tetVolume_nonneg ..
  · unfold remainder
    split
    · rename_i small
      exact sub_nonneg.mpr small.le
    · exact le_refl 0
  · exact add_nonneg (add_nonneg (tetVolume_nonneg ..) (tetVolume_nonneg ..)) (tetVolume_nonneg ..)
  · exact le_refl 0

theorem tetNegativeVolumeOf_add {inside outside : List (Vertex (Point K) K)} (sided : Sided inside outside)
    (four : inside.length + outside.length = 4) {full : K} (whole : volumeOf (inside ++ outside) = full) :
    tetNegativeVolumeOf full inside outside + tetNegativeVolumeOf full (outside.map flip) (inside.map flip) = full := by
  have crosses := sided.crosses
  cases Split4.of_length four with
  | none => exact zero_add full
  | one i o0 o1 o2 =>
    have c0 := crosses i (by simp) o0 (by simp)
    have c1 := crosses i (by simp) o1 (by simp)
    have c2 := crosses i (by simp) o2 (by simp)
    have small := tip_le c0 c1 c2
    rw [show tetVolume i.1 o0.1 o1.1 o2.1 = full from whole] at small
    simp only [tetNegativeVolumeOf, List.map, crossing3_flip c0, crossing3_flip c1, crossing3_flip c2]
    rw [show (flip i).1 = i.1 from rfl, remainder_add small]
    exact add_sub_cancel _ _
  | two i0 i1 o0 o1 =>
    have sides := prisms_add (crosses i0 (by simp) o0 (by simp)) (crosses i0 (by simp) o1 (by simp))
      (crosses i1 (by simp) o0 (by simp)) (crosses i1 (by simp) o1 (by simp))
    rw [show tetVolume i0.1 i1.1 o0.1 o1.1 = full from whole] at sides
    exact sides
  | three i0 i1 i2 o =>
    have c0 := (crosses i0 (by simp) o (by simp)).symm
    have c1 := (crosses i1 (by simp) o (by simp)).symm
    have c2 := (crosses i2 (by simp) o (by simp)).symm
    have small := tip_le c0 c1 c2
    have turned : tetVolume o.1 i0.1 i1.1 i2.1 = tetVolume i0.1 i1.1 i2.1 o.1 := by
      simp only [tetVolume_swap_first, tetVolume_swap_middle, tetVolume_swap_last]
    rw [turned, show tetVolume i0.1 i1.1 i2.1 o.1 = full from whole] at small
    simp only [tetNegativeVolumeOf, List.map, crossing3_flip c0, crossing3_flip c1, crossing3_flip c2]
    rw [show (flip o).1 = o.1 from rfl, remainder_add small]
    exact sub_add_cancel _ _
  | four => exact add_zero full

theorem tetNegativeVolumeOf_scale {inside outside : List (Vertex (Point K) K)} (sided : Sided inside outside)
    (four : inside.length + outside.length = 4) (full : K) {factor : K} (positive : 0 < factor)
    (scaled : Sided (inside.map (stretch factor)) (outside.map (stretch factor))) :
    tetNegativeVolumeOf full (inside.map (stretch factor)) (outside.map (stretch factor)) =
      tetNegativeVolumeOf full inside outside := by
  have same (i o : Vertex (Point K) K) (crosses : Crosses i.2 o.2) (stretched : Crosses (factor * i.2) (factor * o.2)) :
      crossing3 (stretch factor i) (stretch factor o) = crossing3 i o := by
    simp only [crossing3, stretch, crosses.parameter_scale positive stretched]
  have crosses (i : Vertex (Point K) K) (hi : i ∈ inside) (o : Vertex (Point K) K) (ho : o ∈ outside) :
      crossing3 (stretch factor i) (stretch factor o) = crossing3 i o ∧
        crossing3 (stretch factor o) (stretch factor i) = crossing3 o i := by
    have before := sided.crosses i hi o ho
    have after := scaled.crosses _ (List.mem_map_of_mem hi) _ (List.mem_map_of_mem ho)
    exact ⟨same i o before after, same o i before.symm after.symm⟩
  cases Split4.of_length four with
  | none => rfl
  | one i o0 o1 o2 =>
    simp only [tetNegativeVolumeOf, List.map, (crosses i (by simp) o0 (by simp)).1,
      (crosses i (by simp) o1 (by simp)).1, (crosses i (by simp) o2 (by simp)).1, stretch_fst]
  | two i0 i1 o0 o1 =>
    simp only [tetNegativeVolumeOf, List.map, (crosses i0 (by simp) o0 (by simp)).1,
      (crosses i0 (by simp) o1 (by simp)).1, (crosses i1 (by simp) o0 (by simp)).1,
      (crosses i1 (by simp) o1 (by simp)).1, stretch_fst]
  | three i0 i1 i2 o =>
    simp only [tetNegativeVolumeOf, List.map, (crosses i0 (by simp) o (by simp)).2,
      (crosses i1 (by simp) o (by simp)).2, (crosses i2 (by simp) o (by simp)).2, stretch_fst]
  | four => rfl

/-- No sample is zero, and different samples differ by more than the tolerance. -/
structure Apart {P : Type} (vertices : List (Vertex P K)) : Prop where
  nonzero : ∀ v ∈ vertices, v.2 ≠ 0
  clear : ∀ v ∈ vertices, ∀ w ∈ vertices, v.2 ≠ w.2 → kEps < |v.2 - w.2|

/-- The vertices inside. -/
def insideOf {P : Type} (vertices : List (Vertex P K)) : List (Vertex P K) := vertices.filter fun v => v.2 < 0

/-- The vertices outside. -/
def outsideOf {P : Type} (vertices : List (Vertex P K)) : List (Vertex P K) := vertices.filter fun v => ¬ v.2 < 0

section Sides
variable {P : Type} {vertices : List (Vertex P K)}

omit [IsStrictOrderedRing K] in
theorem Apart.sided (apart : Apart vertices) : Sided (insideOf vertices) (outsideOf vertices) where
  crosses i hi o ho := by
    obtain ⟨listed, negative⟩ := List.mem_filter.mp hi
    obtain ⟨listed', positive⟩ := List.mem_filter.mp ho
    have below : i.2 < 0 := of_decide_eq_true negative
    have above : 0 < o.2 := lt_of_le_of_ne (not_lt.mp (of_decide_eq_true positive)) (apart.nonzero o listed').symm
    exact ⟨.inl ⟨below, above⟩, apart.clear i listed o listed' (below.trans above).ne⟩

omit [IsStrictOrderedRing K] in
theorem length_sides (vertices : List (Vertex P K)) :
    (insideOf vertices).length + (outsideOf vertices).length = vertices.length := by
  induction vertices with
  | nil => rfl
  | cons v rest ih =>
    by_cases negative : v.2 < 0
    · simp only [insideOf, outsideOf, List.filter_cons, negative, decide_true, not_true, decide_false, if_true,
        Bool.false_eq_true, if_false, List.length_cons] at ih ⊢
      omega
    · simp only [insideOf, outsideOf, List.filter_cons, negative, decide_true, not_false_iff, decide_false, if_true,
        Bool.false_eq_true, if_false, List.length_cons] at ih ⊢
      omega

theorem Apart.flip_sides (apart : Apart vertices) :
    insideOf (vertices.map flip) = (outsideOf vertices).map flip ∧
      outsideOf (vertices.map flip) = (insideOf vertices).map flip := by
  have turned : ∀ v ∈ vertices, (flip v).2 < 0 ↔ ¬ v.2 < 0 := by
    intro v listed
    rw [flip, neg_lt_zero, not_lt]
    exact ⟨le_of_lt, fun nonneg => lt_of_le_of_ne nonneg (apart.nonzero v listed).symm⟩
  constructor
  · rw [insideOf, outsideOf, List.filter_map]
    refine congrArg _ (List.filter_congr fun v listed => ?_)
    exact decide_eq_decide.mpr (turned v listed)
  · rw [insideOf, outsideOf, List.filter_map]
    refine congrArg _ (List.filter_congr fun v listed => ?_)
    exact decide_eq_decide.mpr ((not_congr (turned v listed)).trans not_not)

theorem stretch_sides {factor : K} (positive : 0 < factor) :
    insideOf (vertices.map (stretch factor)) = (insideOf vertices).map (stretch factor) ∧
      outsideOf (vertices.map (stretch factor)) = (outsideOf vertices).map (stretch factor) := by
  have same (v : Vertex P K) : (stretch factor v).2 < 0 ↔ v.2 < 0 := mul_negative_iff positive
  constructor
  · rw [insideOf, insideOf, List.filter_map]
    exact congrArg _ (List.filter_congr fun v _ => decide_eq_decide.mpr (same v))
  · rw [outsideOf, outsideOf, List.filter_map]
    exact congrArg _ (List.filter_congr fun v _ => decide_eq_decide.mpr (not_congr (same v)))

end Sides

variable {v0 v1 v2 v3 : Vertex (Point K) K}

omit [IsStrictOrderedRing K] in
theorem volumeOf_sides : volumeOf (insideOf [v0, v1, v2, v3] ++ outsideOf [v0, v1, v2, v3]) =
    tetVolume v0.1 v1.1 v2.1 v3.1 := by
  by_cases h0 : v0.2 < 0 <;> by_cases h1 : v1.2 < 0 <;> by_cases h2 : v2.2 < 0 <;> by_cases h3 : v3.2 < 0 <;>
    simp only [insideOf, outsideOf, List.filter_cons, List.filter_nil, h0, h1, h2, h3, decide_true, decide_false,
      not_true, not_false_iff, if_true, Bool.false_eq_true, if_false, List.cons_append, List.nil_append, volumeOf,
      tetVolume_swap_first, tetVolume_swap_middle, tetVolume_swap_last]

theorem tetNegativeVolume_add (apart : Apart [v0, v1, v2, v3]) :
    tetNegativeVolume v0 v1 v2 v3 + tetNegativeVolume (flip v0) (flip v1) (flip v2) (flip v3) =
      tetVolume v0.1 v1.1 v2.1 v3.1 := by
  have turned := apart.flip_sides
  have sides := tetNegativeVolumeOf_add apart.sided (length_sides _) volumeOf_sides
  rw [← turned.1, ← turned.2] at sides
  exact sides

theorem tetNegativeVolume_nonneg (v0 v1 v2 v3 : Vertex (Point K) K) : 0 ≤ tetNegativeVolume v0 v1 v2 v3 :=
  tetNegativeVolumeOf_nonneg (tetVolume_nonneg ..) _ _

theorem tetNegativeVolume_scale (apart : Apart [v0, v1, v2, v3]) {factor : K} (positive : 0 < factor)
    (scaled : Apart [stretch factor v0, stretch factor v1, stretch factor v2, stretch factor v3]) :
    tetNegativeVolume (stretch factor v0) (stretch factor v1) (stretch factor v2) (stretch factor v3) =
      tetNegativeVolume v0 v1 v2 v3 := by
  have kept := @stretch_sides K _ _ _ _ [v0, v1, v2, v3] factor positive
  have after : Sided (insideOf ([v0, v1, v2, v3].map (stretch factor)))
      (outsideOf ([v0, v1, v2, v3].map (stretch factor))) := scaled.sided
  rw [kept.1, kept.2] at after
  have same := tetNegativeVolumeOf_scale apart.sided (length_sides _) (tetVolume v0.1 v1.1 v2.1 v3.1) positive after
  rw [← kept.1, ← kept.2] at same
  exact same

def triangleDet (a b c : K × K) : K := (b.1 - a.1) * (c.2 - a.2) - (c.1 - a.1) * (b.2 - a.2)

omit [IsStrictOrderedRing K] in
theorem triangleArea_eq (a b c : K × K) : triangleArea a b c = half * |triangleDet a b c| := rfl

theorem triangleArea_nonneg (a b c : K × K) : 0 ≤ triangleArea a b c :=
  mul_nonneg half_pos.le (abs_nonneg _)

omit [IsStrictOrderedRing K] in
theorem triangleArea_swap_first (p q r : K × K) : triangleArea q p r = triangleArea p q r := by
  rw [triangleArea_eq, triangleArea_eq, show triangleDet q p r = -triangleDet p q r by simp only [triangleDet]; ring,
    abs_neg]

omit [IsStrictOrderedRing K] in
theorem triangleArea_swap_last (p q r : K × K) : triangleArea p r q = triangleArea p q r := by
  rw [triangleArea_eq, triangleArea_eq, show triangleDet p r q = -triangleDet p q r by simp only [triangleDet]; ring,
    abs_neg]

theorem triangleArea_tip (p q r : K × K) {t u : K} (ht : 0 ≤ t) (hu : 0 ≤ u) :
    triangleArea p (lerp2 p q t) (lerp2 p r u) = t * u * triangleArea p q r := by
  have det : triangleDet p (lerp2 p q t) (lerp2 p r u) = t * u * triangleDet p q r := by
    simp only [triangleDet, lerp2]
    ring
  rw [triangleArea_eq, triangleArea_eq, det, abs_mul, abs_of_nonneg (mul_nonneg ht hu)]
  ring

theorem crossing2_flip {i o : Vertex (K × K) K} (crosses : Crosses i.2 o.2) :
    crossing2 (flip i) (flip o) = crossing2 i o := by
  simp only [crossing2, flip, crosses.parameter_neg]

theorem area_tip_le {i o0 o1 : Vertex (K × K) K} (c0 : Crosses i.2 o0.2) (c1 : Crosses i.2 o1.2) :
    triangleArea i.1 (crossing2 i o0) (crossing2 i o1) ≤ triangleArea i.1 o0.1 o1.1 := by
  obtain ⟨-, low0, high0⟩ := c0.parameter
  obtain ⟨-, low1, high1⟩ := c1.parameter
  rw [crossing2, crossing2, triangleArea_tip _ _ _ low0 low1]
  exact mul_le_of_le_one_left (triangleArea_nonneg ..) (mul_le_one₀ high0 low1 high1)

/-- The vertices of a triangle in some order. -/
def areaOf : List (Vertex (K × K) K) → K
  | [a, b, c] => triangleArea a.1 b.1 c.1
  | _ => 0

/-- How many of the three vertices lie on either side. -/
inductive Split3 {V : Type} : List V → List V → Prop
  | none (a b c : V) : Split3 [] [a, b, c]
  | one (a b c : V) : Split3 [a] [b, c]
  | two (a b c : V) : Split3 [a, b] [c]
  | three (a b c : V) : Split3 [a, b, c] []

theorem Split3.of_length {V : Type} {inside outside : List V} (three : inside.length + outside.length = 3) :
    Split3 inside outside := by
  rcases inside with _ | ⟨a, _ | ⟨b, _ | ⟨c, _ | ⟨d, inside⟩⟩⟩⟩ <;>
    rcases outside with _ | ⟨o, _ | ⟨p, _ | ⟨q, _ | ⟨r, outside⟩⟩⟩⟩ <;>
    first
    | constructor
    | simp only [List.length_cons, List.length_nil] at three
      omega

theorem triangleNegativeAreaOf_add {inside outside : List (Vertex (K × K) K)} (sided : Sided inside outside)
    (three : inside.length + outside.length = 3) {full : K} (whole : areaOf (inside ++ outside) = full) :
    triangleNegativeAreaOf full inside outside + triangleNegativeAreaOf full (outside.map flip) (inside.map flip) =
      full := by
  have crosses := sided.crosses
  cases Split3.of_length three with
  | none => exact zero_add full
  | one i o0 o1 =>
    have c0 := crosses i (by simp) o0 (by simp)
    have c1 := crosses i (by simp) o1 (by simp)
    have small := area_tip_le c0 c1
    rw [show triangleArea i.1 o0.1 o1.1 = full from whole] at small
    simp only [triangleNegativeAreaOf, List.map, crossing2_flip c0, crossing2_flip c1]
    rw [show (flip i).1 = i.1 from rfl, remainder_add small]
    exact add_sub_cancel _ _
  | two i0 i1 o =>
    have c0 := (crosses i0 (by simp) o (by simp)).symm
    have c1 := (crosses i1 (by simp) o (by simp)).symm
    have small := area_tip_le c0 c1
    have turned : triangleArea o.1 i0.1 i1.1 = triangleArea i0.1 i1.1 o.1 := by
      simp only [triangleArea_swap_first, triangleArea_swap_last]
    rw [turned, show triangleArea i0.1 i1.1 o.1 = full from whole] at small
    simp only [triangleNegativeAreaOf, List.map, crossing2_flip c0, crossing2_flip c1]
    rw [show (flip o).1 = o.1 from rfl, remainder_add small]
    exact sub_add_cancel _ _
  | three => exact add_zero full

theorem triangleNegativeAreaOf_scale {inside outside : List (Vertex (K × K) K)} (sided : Sided inside outside)
    (three : inside.length + outside.length = 3) (full : K) {factor : K} (positive : 0 < factor)
    (scaled : Sided (inside.map (stretch factor)) (outside.map (stretch factor))) :
    triangleNegativeAreaOf full (inside.map (stretch factor)) (outside.map (stretch factor)) =
      triangleNegativeAreaOf full inside outside := by
  have same (i o : Vertex (K × K) K) (crosses : Crosses i.2 o.2) (stretched : Crosses (factor * i.2) (factor * o.2)) :
      crossing2 (stretch factor i) (stretch factor o) = crossing2 i o := by
    simp only [crossing2, stretch, crosses.parameter_scale positive stretched]
  have crosses (i : Vertex (K × K) K) (hi : i ∈ inside) (o : Vertex (K × K) K) (ho : o ∈ outside) :
      crossing2 (stretch factor i) (stretch factor o) = crossing2 i o ∧
        crossing2 (stretch factor o) (stretch factor i) = crossing2 o i := by
    have before := sided.crosses i hi o ho
    have after := scaled.crosses _ (List.mem_map_of_mem hi) _ (List.mem_map_of_mem ho)
    exact ⟨same i o before after, same o i before.symm after.symm⟩
  cases Split3.of_length three with
  | none => rfl
  | one i o0 o1 =>
    simp only [triangleNegativeAreaOf, List.map, (crosses i (by simp) o0 (by simp)).1,
      (crosses i (by simp) o1 (by simp)).1, stretch_fst]
  | two i0 i1 o =>
    simp only [triangleNegativeAreaOf, List.map, (crosses i0 (by simp) o (by simp)).2,
      (crosses i1 (by simp) o (by simp)).2, stretch_fst]
  | three => rfl

theorem triangleNegativeArea_nonneg (v0 v1 v2 : Vertex (K × K) K) : 0 ≤ triangleNegativeArea v0 v1 v2 := by
  unfold triangleNegativeArea triangleNegativeAreaOf
  split
  · exact triangleArea_nonneg ..
  · exact triangleArea_nonneg ..
  · unfold remainder
    split
    · rename_i small
      exact sub_nonneg.mpr small.le
    · exact le_refl 0
  · exact le_refl 0

section Triangle
variable {v0 v1 v2 : Vertex (K × K) K}

omit [IsStrictOrderedRing K] in
theorem areaOf_sides : areaOf (insideOf [v0, v1, v2] ++ outsideOf [v0, v1, v2]) = triangleArea v0.1 v1.1 v2.1 := by
  by_cases h0 : v0.2 < 0 <;> by_cases h1 : v1.2 < 0 <;> by_cases h2 : v2.2 < 0 <;>
    simp only [insideOf, outsideOf, List.filter_cons, List.filter_nil, h0, h1, h2, decide_true, decide_false,
      not_true, not_false_iff, if_true, Bool.false_eq_true, if_false, List.cons_append, List.nil_append, areaOf,
      triangleArea_swap_first, triangleArea_swap_last]

theorem triangleNegativeArea_add (apart : Apart [v0, v1, v2]) :
    triangleNegativeArea v0 v1 v2 + triangleNegativeArea (flip v0) (flip v1) (flip v2) =
      triangleArea v0.1 v1.1 v2.1 := by
  have turned := apart.flip_sides
  have sides := triangleNegativeAreaOf_add apart.sided (length_sides _) areaOf_sides
  rw [← turned.1, ← turned.2] at sides
  exact sides

theorem triangleNegativeArea_scale (apart : Apart [v0, v1, v2]) {factor : K} (positive : 0 < factor)
    (scaled : Apart [stretch factor v0, stretch factor v1, stretch factor v2]) :
    triangleNegativeArea (stretch factor v0) (stretch factor v1) (stretch factor v2) =
      triangleNegativeArea v0 v1 v2 := by
  have kept := @stretch_sides K _ _ _ _ [v0, v1, v2] factor positive
  have after : Sided (insideOf ([v0, v1, v2].map (stretch factor)))
      (outsideOf ([v0, v1, v2].map (stretch factor))) := scaled.sided
  rw [kept.1, kept.2] at after
  have same := triangleNegativeAreaOf_scale apart.sided (length_sides _) (triangleArea v0.1 v1.1 v2.1) positive after
  rw [← kept.1, ← kept.2] at same
  exact same

end Triangle

end Pops.CutGeometry
