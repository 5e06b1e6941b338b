import Pops.EmbeddedTransport

/-!
`numerics/spatial/embedded_boundary/cut_geometry.hpp`: the part of a unit cell on
the negative side of a level set that is known at the centre and at the
neighbours. A plane cuts the segment and the square, marching tetrahedra the cube.
-/
namespace Pops.CutGeometry
open EmbeddedTransport (clampUnitInterval half)

variable {K : Type} [Field K] [LinearOrder K]

def kEps : K := ((10 ^ 14 : ℕ) : K)⁻¹

def unitIntervalHalfspace (n alpha : K) : K :=
  if n ≤ kEps then if 0 < alpha then 1 else 0
  else clampUnitInterval (alpha / n)

def unitSquareHalfspace (nx ny alpha : K) : K :=
  if nx ≤ kEps then unitIntervalHalfspace ny alpha
  else if ny ≤ kEps then unitIntervalHalfspace nx alpha
  else if alpha ≤ 0 then 0
  else if nx + ny ≤ alpha then 1
  else
    let area := alpha * alpha
    let area := if nx < alpha then area - (alpha - nx) * (alpha - nx) else area
    let area := if ny < alpha then area - (alpha - ny) * (alpha - ny) else area
    let area := if nx + ny < alpha then area + (alpha - nx - ny) * (alpha - nx - ny) else area
    area / ((1 + 1) * nx * ny)

/-- A gradient with the signs of its components dropped, as `unit_box_negative_halfspace` reflects them. -/
def reflect (g : K) : K := if g < 0 then -g else g

/-- What the reflections take from the offset. -/
def reflected (alpha : K) (gradient : List K) : K :=
  gradient.foldl (fun alpha g => if g < 0 then alpha - g else alpha) alpha

/-- `unit_box_negative_halfspace` of rank one and two; the cube is cut by tetrahedra instead. -/
def unitBoxNegativeHalfspace (gradient : List K) (intercept : K) : K :=
  let alpha := reflected (-intercept) gradient
  match gradient with
  | [gx] => unitIntervalHalfspace (reflect gx) alpha
  | [gx, gy] => unitSquareHalfspace (reflect gx) (reflect gy) alpha
  | _ => 0

/-- A point of the cube. -/
structure Point (K : Type) where
  x : K
  y : K
  z : K

def tetVolume (a b c d : Point K) : K :=
  let det := (b.x - a.x) * ((c.y - a.y) * (d.z - a.z) - (c.z - a.z) * (d.y - a.y)) -
    (b.y - a.y) * ((c.x - a.x) * (d.z - a.z) - (c.z - a.z) * (d.x - a.x)) +
    (b.z - a.z) * ((c.x - a.x) * (d.y - a.y) - (c.y - a.y) * (d.x - a.x))
  |det| / ((6 : ℕ) : K)

def triangleArea (a b c : K × K) : K :=
  half * |(b.1 - a.1) * (c.2 - a.2) - (c.1 - a.1) * (b.2 - a.2)|

def isoEdgeParameter (inside outside : K) : K :=
  if |inside - outside| ≤ kEps then if inside < 0 then 1 else 0
  else clampUnitInterval (inside / (inside - outside))

def lerp3 (a b : Point K) (t : K) : Point K :=
  ⟨a.x + t * (b.x - a.x), a.y + t * (b.y - a.y), a.z + t * (b.z - a.z)⟩

def lerp2 (a b : K × K) (t : K) : K × K := (a.1 + t * (b.1 - a.1), a.2 + t * (b.2 - a.2))

/-- A vertex with its sample. -/
abbrev Vertex (P K : Type) := P × K

/-- The point where the level set crosses an edge. -/
def crossing3 (a b : Vertex (Point K) K) : Point K := lerp3 a.1 b.1 (isoEdgeParameter a.2 b.2)

def crossing2 (a b : Vertex (K × K) K) : K × K := lerp2 a.1 b.1 (isoEdgeParameter a.2 b.2)

/-- What a solid corner leaves. -/
def remainder (full solid : K) : K := if solid < full then full - solid else 0

/-- `tet_negative_volume` by the vertices inside and outside. -/
def tetNegativeVolumeOf (full : K) : List (Vertex (Point K) K) → List (Vertex (Point K) K) → K
  | [_, _, _, _], [] => full
  | [i], [o0, o1, o2] => tetVolume i.1 (crossing3 i o0) (crossing3 i o1) (crossing3 i o2)
  | [i0, i1, i2], [o] =>
    remainder full (tetVolume o.1 (crossing3 o i0) (crossing3 o i1) (crossing3 o i2))
  | [i0, i1], [o0, o1] =>
    let a := crossing3 i0 o0
    let b := crossing3 i0 o1
    let c := crossing3 i1 o0
    let d := crossing3 i1 o1
    tetVolume i0.1 i1.1 a b + tetVolume i1.1 a c d + tetVolume i1.1 a b d
  | _, _ => 0

def tetNegativeVolume (v0 v1 v2 v3 : Vertex (Point K) K) : K :=
  tetNegativeVolumeOf (tetVolume v0.1 v1.1 v2.1 v3.1) ([v0, v1, v2, v3].filter fun v => v.2 < 0)
    ([v0, v1, v2, v3].filter fun v => ¬ v.2 < 0)

/-- `triangle_negative_area` by the vertices inside and outside. -/
def triangleNegativeAreaOf (full : K) : List (Vertex (K × K) K) → List (Vertex (K × K) K) → K
  | [_, _, _], [] => full
  | [i], [o0, o1] => triangleArea i.1 (crossing2 i o0) (crossing2 i o1)
  | [i0, i1], [o] => remainder full (triangleArea o.1 (crossing2 o i0) (crossing2 o i1))
  | _, _ => 0

def triangleNegativeArea (v0 v1 v2 : Vertex (K × K) K) : K :=
  triangleNegativeAreaOf (triangleArea v0.1 v1.1 v2.1) ([v0, v1, v2].filter fun v => v.2 < 0)
    ([v0, v1, v2].filter fun v => ¬ v.2 < 0)

def squareNegativeArea (p00 p10 p01 p11 : K) : K :=
  triangleNegativeArea ((0, 0), p00) ((1, 0), p10) ((1, 1), p11) +
    triangleNegativeArea ((0, 0), p00) ((0, 1), p01) ((1, 1), p11)

/-- A corner of the cube by the bits of its mask. -/
abbrev Corner := Bool × Bool × Bool

/-- The axes of a cube. -/
def axisX : Fin 3 := Fin.castSucc (Fin.castSucc (Fin.last 0))

def axisY : Fin 3 := Fin.castSucc (Fin.last 1)

def axisZ : Fin 3 := Fin.last 2

/-- The sample of a neighbour. -/
def face {d : ℕ} (lowerSamples upperSamples : Fin d → K) (axis : Fin d) (upper : Bool) : K :=
  if upper then upperSamples axis else lowerSamples axis

def cubeCornerSamples (center : K) (lowerSamples upperSamples : Fin 3 → K) (corner : Corner) : K :=
  half * (face lowerSamples upperSamples axisX corner.1 + face lowerSamples upperSamples axisY corner.2.1 +
    face lowerSamples upperSamples axisZ corner.2.2 - center)

/-- A bit as a coordinate. -/
def bit (upper : Bool) : K := if upper then 1 else 0

/-- A corner with its sample. -/
def vertex (corners : Corner → K) (corner : Corner) : Vertex (Point K) K :=
  (⟨bit corner.1, bit corner.2.1, bit corner.2.2⟩, corners corner)

/-- The two corners between `000` and `111` of each of the six tetrahedra: 1-3, 1-5, 2-3, 2-6, 4-5, 4-6. -/
def tets : List (Corner × Corner) :=
  [((true, false, false), (true, true, false)), ((true, false, false), (true, false, true)),
    ((false, true, false), (true, true, false)), ((false, true, false), (false, true, true)),
    ((false, false, true), (true, false, true)), ((false, false, true), (false, true, true))]

def cubeTriangulationVolume (corners : Corner → K) : K :=
  clampUnitInterval (tets.foldl (fun volume tet => volume +
    tetNegativeVolume (vertex corners (false, false, false)) (vertex corners tet.1) (vertex corners tet.2)
      (vertex corners (true, true, true))) 0)

/-- The corner of a face by its position along the two other axes. -/
def faceCorner (faceAxis : Fin 3) (upperFace u w : Bool) : Corner :=
  if faceAxis = axisX then (upperFace, u, w)
  else if faceAxis = axisY then (u, upperFace, w)
  else (u, w, upperFace)

def cubeFaceNegativeArea (corners : Corner → K) (faceAxis : Fin 3) (upperFace : Bool) : K :=
  squareNegativeArea (corners (faceCorner faceAxis upperFace false false))
    (corners (faceCorner faceAxis upperFace true false)) (corners (faceCorner faceAxis upperFace false true))
    (corners (faceCorner faceAxis upperFace true true))

variable {d : ℕ}

/-- A component of the gradient of `linear_level_set_from_samples`. -/
def gradient (lowerSamples upperSamples : Fin d → K) (axis : Fin d) : K :=
  half * (upperSamples axis - lowerSamples axis)

/-- The intercept of `linear_level_set_from_samples`. -/
def intercept (center : K) (lowerSamples upperSamples : Fin d → K) : K :=
  (List.finRange d).foldl (fun intercept axis => intercept - gradient lowerSamples upperSamples axis * half) center

def reconstructedVolumeFraction : (d : ℕ) → K → (Fin d → K) → (Fin d → K) → K
  | 3, center, lowerSamples, upperSamples =>
    cubeTriangulationVolume (cubeCornerSamples center lowerSamples upperSamples)
  | d, center, lowerSamples, upperSamples =>
    unitBoxNegativeHalfspace ((List.finRange d).map (gradient lowerSamples upperSamples))
      (intercept center lowerSamples upperSamples)

def reconstructedFaceAperture : (d : ℕ) → K → (Fin d → K) → (Fin d → K) → Fin d → Bool → K
  | 3, center, lowerSamples, upperSamples, faceAxis, upperFace =>
    cubeFaceNegativeArea (cubeCornerSamples center lowerSamples upperSamples) faceAxis upperFace
  | 1, center, lowerSamples, upperSamples, faceAxis, upperFace =>
    if intercept center lowerSamples upperSamples + gradient lowerSamples upperSamples faceAxis * bit upperFace < 0
    then 1 else 0
  | d, center, lowerSamples, upperSamples, faceAxis, upperFace =>
    unitBoxNegativeHalfspace
      (((List.finRange d).filter fun axis => axis ≠ faceAxis).map (gradient lowerSamples upperSamples))
      (intercept center lowerSamples upperSamples + gradient lowerSamples upperSamples faceAxis * bit upperFace)

/-- The reconstructed value at a corner of the cell. -/
def cornerValue : (d : ℕ) → K → (Fin d → K) → (Fin d → K) → (Fin d → Bool) → K
  | 3, center, lowerSamples, upperSamples, corner =>
    cubeCornerSamples center lowerSamples upperSamples (corner axisX, corner axisY, corner axisZ)
  | d, center, lowerSamples, upperSamples, corner =>
    intercept center lowerSamples upperSamples +
      ((List.finRange d).map fun axis => gradient lowerSamples upperSamples axis * bit (corner axis)).sum

/-- No corner value is zero, and no component of the gradient and no difference along an edge of the
tetrahedra is lost in the tolerance. -/
structure Resolved (d : ℕ) (center : K) (lowerSamples upperSamples : Fin d → K) : Prop where
  corners : ∀ corner, cornerValue d center lowerSamples upperSamples corner ≠ 0
  gradients : d < 3 → ∀ axis, gradient lowerSamples upperSamples axis = 0 ∨
    kEps < |gradient lowerSamples upperSamples axis|
  edges : d = 3 → ∀ corner other, (∀ axis, corner axis = true → other axis = true) →
    cornerValue d center lowerSamples upperSamples corner = cornerValue d center lowerSamples upperSamples other ∨
      kEps < |cornerValue d center lowerSamples upperSamples corner -
        cornerValue d center lowerSamples upperSamples other|

/-- A point is the combination of the corners of a tetrahedron with some weights. -/
structure Combines (tet : Corner × Corner) (point : Point K) (w0 w1 w2 w3 : K) : Prop where
  total : w0 + w1 + w2 + w3 = 1
  x : point.x = w1 * bit tet.1.1 + w2 * bit tet.2.1 + w3
  y : point.y = w1 * bit tet.1.2.1 + w2 * bit tet.2.2.1 + w3
  z : point.z = w1 * bit tet.1.2.2 + w2 * bit tet.2.2.2 + w3

/-- The points of a tetrahedron. -/
def Inside (tet : Corner × Corner) (point : Point K) : Prop :=
  ∃ w0 w1 w2 w3, 0 ≤ w0 ∧ 0 ≤ w1 ∧ 0 ≤ w2 ∧ 0 ≤ w3 ∧ Combines tet point w0 w1 w2 w3

/-- The points of a tetrahedron that are on none of its faces. -/
def Within (tet : Corner × Corner) (point : Point K) : Prop :=
  ∃ w0 w1 w2 w3, 0 < w0 ∧ 0 < w1 ∧ 0 < w2 ∧ 0 < w3 ∧ Combines tet point w0 w1 w2 w3

end Pops.CutGeometry
