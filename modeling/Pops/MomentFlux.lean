import Mathlib
import Pops.Checked

/-!
The generic moment-model builder. Its expressions are embedded by the value they take
in one cell, next to what the builder itself tells apart: plain numbers, constants of
the expression language, and all other expressions.
-/
namespace Pops.MomentFlux

/-- The Python exceptions of the builder. -/
inductive Refusal where
  | valueError (what : String)
  | typeError (what : String)
  | indexError (what : String)
  deriving DecidableEq, Repr

abbrev Authored := Except Refusal

/-- An operand of the symbolic algebra, with its value. -/
inductive Operand (K : Type) where
  | number (value : K)
  | const (value : K)
  | expr (value : K)

/-- An insertion ordered dictionary. -/
abbrev Dict (κ K : Type) := List (κ × Operand K)

/-- `dict[key] = value`. -/
def setItem {κ K : Type} [DecidableEq κ] (key : κ) (value : Operand K) : Dict κ K → Dict κ K
  | [] => [(key, value)]
  | (other, old) :: rest =>
    if other = key then (other, value) :: rest else (other, old) :: setItem key value rest

/-- An index pair of a moment, the power of `x` first. -/
abbrev Index := ℕ × ℕ

variable {K : Type}

/-- The value in the evaluated cell. -/
def Operand.value : Operand K → K
  | .number value | .const value | .expr value => value

/-- Arithmetic on two numbers is Python's own; anything else builds an expression. -/
def Operand.combine (operation : K → K → K) : Operand K → Operand K → Operand K
  | .number left, .number right => .number (operation left right)
  | left, right => .expr (operation left.value right.value)

/-- `dict.get(key)`. -/
def getItem {κ : Type} [DecidableEq κ] (dict : Dict κ K) (key : κ) : Option (Operand K) :=
  dict.lookup key

/-- The value a dictionary holds at a key that the loops have set. -/
def item {κ : Type} [DecidableEq κ] [Zero K] (dict : Dict κ K) (key : κ) : Operand K :=
  (getItem dict key).getD (.number 0)

section Algebra
variable [Field K]

instance : Add (Operand K) := ⟨Operand.combine (· + ·)⟩
instance : Sub (Operand K) := ⟨Operand.combine (· - ·)⟩
instance : Mul (Operand K) := ⟨Operand.combine (· * ·)⟩
instance : Div (Operand K) := ⟨Operand.combine (· / ·)⟩

/-- `_pow`, by repeated multiplication. -/
def pow (e : Operand K) : ℕ → Operand K
  | 0 => .number 1
  | 1 => e
  | k + 2 => pow e (k + 1) * e

/-- `_is_zero`: a numeric zero or a constant zero, not an expression that vanishes. -/
def isZero [DecidableEq K] : Operand K → Bool
  | .number value | .const value => value == 0
  | .expr _ => false

/-- `isinstance(central, float) and central == 1.0`. -/
def isUnit [DecidableEq K] : Operand K → Bool
  | .number value => value == 1
  | .const _ | .expr _ => false

/-- `expr = term if expr is None else expr + term`, over a whole loop. -/
def sumTerms (terms : List (Operand K)) : Option (Operand K) :=
  terms.foldl (fun expr term =>
    match expr with
    | none => some term
    | some expr => some (expr + term)) none

end Algebra

/-- `moment_indices`: `q` outer, `p` inner. -/
def momentIndices (order : ℕ) : List Index :=
  (List.range (order + 1)).flatMap fun q => (List.range (order + 1 - q)).map fun p => (p, q)

/-- `prefix%d%d`. -/
def indexed (letter : String) (index : Index) : String :=
  letter ++ toString index.1 ++ toString index.2

/-- What the builder asks of the model it writes to. -/
structure Author (K : Type) where
  primitive : String → Operand K → Operand K

/-- A closure: the order it declares, if any, and its evaluator. -/
structure Closure (K : Type) where
  order : Option ℕ
  evaluate : Dict String K → Dict String K

/-- `_closure_keys`. -/
def closureKeys (order : ℕ) : List String :=
  (List.range (order + 2)).map fun p => indexed "S" (p, order + 1 - p)

/-- `set(result) == wanted`. -/
def sameKeys (keys wanted : List String) : Bool :=
  keys.all (wanted.contains ·) && wanted.all (keys.contains ·)

def sorted (keys : List String) : List String :=
  keys.mergeSort fun left right => decide (left ≤ right)

/-- The text of a list of key names. -/
def keyTexts (keys : List String) : String :=
  "[" ++ ", ".intercalate (keys.map fun key => "'" ++ key ++ "'") ++ "]"

/-- `apply_local_closure`. -/
def applyLocalClosure (closure : Closure K) (order : ℕ) (standardized : Dict String K) :
    Authored (Dict String K) :=
  let result := closure.evaluate standardized
  let keys := result.map Prod.fst
  let wanted := closureKeys order
  let mismatched := closure.order.any (· != order)
  if mismatched then
    .error (.valueError ("moment closure declares order " ++ toString (closure.order.getD 0) ++
      " but the hierarchy has order " ++ toString order))
  else if sameKeys keys wanted then
    .ok ((sorted keys).filterMap fun key => (getItem result key).map fun value => (key, value))
  else
    .error (.typeError ("moment closure must return exactly the keys " ++
      keyTexts (sorted wanted.dedup) ++ " (got " ++ keyTexts (sorted keys) ++ ")"))

/-- `int(key[index])`. -/
def digitAt (key : String) (index : ℕ) : Authored ℕ :=
  match key.toList[index]? with
  | none => .error (.indexError "string index out of range")
  | some character =>
    if character.isDigit then .ok (character.toNat - '0'.toNat)
    else .error (.valueError ("invalid literal for int() with base 10: '" ++ character.toString ++ "'"))

/-- The indices of the central moments that are computed: by degree, then `q` increasing. -/
def centralIndices (order : ℕ) : List Index :=
  (List.range' 2 (order - 1)).flatMap fun degree =>
    (List.range (degree + 1)).map fun q => (degree - q, q)

section Builder
variable [Field K] [DecidableEq K] (author : Author K) (sqrt abs : K → K)

/-- The smooth floor `max(x, eps)` of the robust mode. -/
def floor (name : String) (x : Operand K) (eps : K) : Operand K :=
  author.primitive name
    ((x + .number eps + .expr (abs (x - .number eps).value)) / .number ((2 : ℕ) : K))

/-- The terms of a central moment, from the moments per unit density. -/
def centralTerms (u v : Operand K) (normalized : Dict Index K) (index : Index) : List (Operand K) :=
  (List.range (index.1 + 1)).flatMap fun i => (List.range (index.2 + 1)).map fun j =>
    let coefficient : K := (index.1.choose i * index.2.choose j : ℕ) * (-1) ^ (index.1 - i + (index.2 - j))
    let term := .number coefficient * pow u (index.1 - i) * pow v (index.2 - j)
    if (i, j) = (0, 0) then term else term * item normalized (i, j)

/-- The dictionary `C`. -/
def centralMoments (order : ℕ) (u v : Operand K) (normalized : Dict Index K) : Dict Index K :=
  (centralIndices order).foldl (fun central index =>
    setItem index (author.primitive (indexed "C" index)
      ((sumTerms (centralTerms u v normalized index)).getD (.number 0))) central)
    [((0, 0), .number 1), ((1, 0), .number 0), ((0, 1), .number 0)]

/-- One standardized moment; the two that scale it are exactly one. -/
def standardizeMoment (sx sy : Operand K) (standardized : Dict String K) (entry : Index × Operand K) :
    Dict String K :=
  let index := entry.1
  if 2 ≤ index.1 + index.2 ∧ index ≠ (2, 0) ∧ index ≠ (0, 2) then
    setItem (indexed "S" index) (author.primitive (indexed "S" index)
      (entry.2 / (pow sx index.1 * pow sy index.2))) standardized
  else standardized

/-- The dictionary of standardized moments a closure receives. -/
def standardizedMoments (sx sy : Operand K) (central : Dict Index K) : Dict String K :=
  central.foldl (standardizeMoment author sx sy) [("S20", .number 1), ("S02", .number 1)]

/-- One closed moment: its index is read back from the characters of its key. -/
def closeMoment (sx sy : Operand K) (closed : Dict Index K) (entry : String × Operand K) :
    Authored (Dict Index K) := do
  let p ← digitAt entry.1 1
  let q ← digitAt entry.1 2
  return setItem (p, q) (if isZero entry.2 then .number 0
    else author.primitive (indexed "C" (p, q)) (entry.2 * pow sx p * pow sy q)) closed

/-- The terms of a raw moment, less those whose central moment is a written zero. -/
def rawTerms (u v : Operand K) (closed : Dict Index K) (index : Index) : List (Operand K) :=
  (List.range (index.1 + 1)).flatMap fun i => (List.range (index.2 + 1)).filterMap fun j =>
    match getItem closed (i, j) with
    | none => none
    | some central =>
      if isZero central then none
      else
        let term := .number ((index.1.choose i * index.2.choose j : ℕ) : K) *
          pow u (index.1 - i) * pow v (index.2 - j)
        some (if isUnit central then term else term * central)

/-- One entry of the dictionary `highest`. -/
def highestMoment (m00 u v : Operand K) (closed : Dict Index K) (highest : Dict Index K) (index : Index) :
    Authored (Dict Index K) :=
  match sumTerms (rawTerms u v closed index) with
  | none => .error (.typeError "unsupported operand NoneType")
  | some expr => .ok (setItem index (author.primitive (indexed "M" index) (m00 * expr)) highest)

/-- `MomentFluxExpressions`. -/
structure MomentFluxExpressions (K : Type) where
  moments : Dict Index K
  x : List (Operand K)
  y : List (Operand K)

/-- What the builder knows before it closes the hierarchy. -/
structure Standardization (K : Type) where
  moments : Dict Index K
  m00 : Operand K
  u : Operand K
  v : Operand K
  central : Dict Index K
  sx : Operand K
  sy : Operand K

/-- From the supplied moments to the central ones and the two deviations. -/
def standardize (supplied : List (Operand K)) (order : ℕ) (robust : Bool) (epsM00 epsCov : K) :
    Standardization K :=
  let moments := (momentIndices order).zip supplied
  let m00 := if robust then floor author abs "M00f" (item moments (0, 0)) epsM00 else item moments (0, 0)
  let u := author.primitive "u" (item moments (1, 0) / m00)
  let v := author.primitive "v" (item moments (0, 1) / m00)
  let normalized := moments.map fun entry =>
    (entry.1, if entry.1 = (0, 0) then .number 1 else entry.2 / m00)
  let central := centralMoments author order u v normalized
  let c20 := if robust then floor author abs "C20f" (item central (2, 0)) epsCov else item central (2, 0)
  let c02 := if robust then floor author abs "C02f" (item central (0, 2)) epsCov else item central (0, 2)
  let sx := author.primitive "sx" (.expr (sqrt c20.value))
  let sy := author.primitive "sy" (.expr (sqrt c02.value))
  { moments, m00, u, v, central, sx, sy }

/-- `moment_flux_expressions`. -/
def momentFluxExpressions (supplied : List (Operand K)) (order : ℕ) (closure : Closure K)
    (robust : Bool) (epsM00 epsCov : K) : Authored (MomentFluxExpressions K) := do
  if order < 2 then
    throw (.valueError "moment_flux_expressions: order must be an int >= 2")
  let indices := momentIndices order
  if supplied.length ≠ indices.length then
    throw (.valueError ("moment_flux_expressions: order " ++ toString order ++ " requires " ++
      toString indices.length ++ " variables, got " ++ toString supplied.length))
  let s := standardize author sqrt abs supplied order robust epsM00 epsCov
  let top ← applyLocalClosure closure order (standardizedMoments author s.sx s.sy s.central)
  let closed ← top.foldlM (closeMoment author s.sx s.sy) s.central
  let highest ← ((List.range (order + 2)).map fun q => (order + 1 - q, q)).foldlM
    (highestMoment author s.m00 s.u s.v closed) []
  let raw := fun index => (getItem s.moments index).getD (item highest index)
  return {
    moments := s.moments
    x := indices.map fun index => raw (index.1 + 1, index.2)
    y := indices.map fun index => raw (index.1, index.2 + 1) }

end Builder

end Pops.MomentFlux
