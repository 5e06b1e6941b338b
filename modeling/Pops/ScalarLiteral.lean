import Mathlib.Algebra.Order.Field.Rat
import Pops.Checked

/-!
The scalar literals of `pops/identity/scalar.py`, the documents that they are written to, and the
decoder of the method certificates. A text is its characters; `limit` is the interpreter's limit on
the digits of an integer that is written or read in decimal, where 0 is none.
-/
namespace Pops.ScalarLiteral

abbrev Text := List Char

/-- What the encoder and the decoder raise. -/
inductive Raised where
  | keyError (key : String)
  | typeError
  | valueError (what : String)
  | zeroDivisionError
  deriving DecidableEq

/-- A finite `Decimal`: its sign, the integer of its digits, and its exponent. -/
structure Decimal where
  negative : Bool
  coefficient : ℕ
  exponent : ℤ
  deriving DecidableEq

/-- A `ScalarLiteral` without annotations. The payload of a binary64 is what `float.hex` gives for
its value. -/
inductive Literal where
  | integer (payload : ℤ)
  | rational (payload : ℚ)
  | decimal (payload : Decimal)
  | binary64 (payload : Text) (value : ℚ)
  deriving DecidableEq

/-- A document: a text, or a dict. -/
inductive Document where
  | text (text : Text)
  | dict (entries : List (String × Document))

/-- The value that a sign gives to a magnitude. -/
def signed (negative : Bool) (magnitude : ℚ) : ℚ := if negative then -magnitude else magnitude

def Decimal.value (decimal : Decimal) : ℚ :=
  signed decimal.negative (decimal.coefficient * (10 : ℚ) ^ decimal.exponent)

/-- The value of a literal. -/
def Literal.value : Literal → ℚ
  | integer payload => payload
  | rational payload => payload
  | decimal payload => payload.value
  | binary64 _ value => value

/-- The digits of a natural number. -/
def digits (n : ℕ) : Text := Nat.toDigits 10 n

/-- The number that digits spell. -/
def number (text : Text) : ℕ := Nat.ofDigitChars 10 text 0

/-- Digits that the interpreter converts. -/
def Convertible (limit : ℕ) (text : Text) : Prop := limit = 0 ∨ text.length ≤ limit

instance (limit : ℕ) (text : Text) : Decidable (Convertible limit text) := by
  unfold Convertible
  infer_instance

def exceeds : Raised := .valueError "Exceeds the limit for integer string conversion"

def minus (negative : Bool) : Text := if negative then ['-'] else []

/-- `str` of an integer. -/
def strInteger (limit : ℕ) (value : ℤ) : Except Raised Text :=
  if Convertible limit (digits value.natAbs) then .ok (minus (value < 0) ++ digits value.natAbs)
  else .error exceeds

/-- `int` of digits. -/
def natural (limit : ℕ) (text : Text) : Except Raised ℕ :=
  if text = [] ∨ ¬ text.all Char.isDigit then .error (.valueError "invalid literal for int() with base 10")
  else if Convertible limit text then .ok (number text)
  else .error exceeds

/-- A sign and what follows it. -/
def splitSign : Text → Bool × Text
  | '-' :: rest => (true, rest)
  | '+' :: rest => (false, rest)
  | rest => (false, rest)

/-- `int` of a text. -/
def integer (limit : ℕ) (text : Text) : Except Raised ℤ := do
  let magnitude ← natural limit (splitSign text).2
  return if (splitSign text).1 then -magnitude else magnitude

/-- The digits that a text starts with. -/
def leading (text : Text) : Text := text.takeWhile Char.isDigit

/-- What follows the digits that a text starts with. -/
def following (text : Text) : Text := text.dropWhile Char.isDigit

def Decimal.leftDigits (decimal : Decimal) : ℤ := decimal.exponent + (digits decimal.coefficient).length

def Decimal.dotPlace (decimal : Decimal) : ℤ :=
  if decimal.exponent ≤ 0 ∧ decimal.leftDigits > -6 then decimal.leftDigits else 1

def Decimal.intPart (decimal : Decimal) : Text :=
  let int := digits decimal.coefficient
  if decimal.dotPlace ≤ 0 then ['0']
  else if decimal.dotPlace ≥ int.length then int ++ List.replicate (decimal.dotPlace - int.length).toNat '0'
  else int.take decimal.dotPlace.toNat

/-- `fracpart`, less its point. -/
def Decimal.fracPart (decimal : Decimal) : Text :=
  let int := digits decimal.coefficient
  if decimal.dotPlace ≤ 0 then List.replicate (-decimal.dotPlace).toNat '0' ++ int
  else if decimal.dotPlace ≥ int.length then []
  else int.drop decimal.dotPlace.toNat

/-- The exponent that is written. -/
def Decimal.scale (decimal : Decimal) : ℤ := decimal.leftDigits - decimal.dotPlace

/-- `exp`. -/
def Decimal.expPart (decimal : Decimal) : Text :=
  if decimal.leftDigits = decimal.dotPlace then []
  else 'E' :: (if decimal.scale < 0 then '-' else '+') :: digits decimal.scale.natAbs

/-- The fraction with its point, where there is one. -/
def pointed (fraction : Text) : Text := if fraction = [] then [] else '.' :: fraction

def Decimal.str (decimal : Decimal) : Text :=
  minus decimal.negative ++ (decimal.intPart ++ (pointed decimal.fracPart ++ decimal.expPart))

/-- `Fraction(numerator, denominator)`. -/
def quotient (numerator : ℤ) (denominator : ℤ) : Except Raised ℚ :=
  if denominator = 0 then .error .zeroDivisionError else .ok (numerator / denominator)

/-- The exponent after its `E`: what is left of the text is nothing else. -/
def exponentOf (limit : ℕ) : Text → Except Raised ℤ
  | [] => .ok 0
  | 'E' :: rest | 'e' :: rest =>
    if (splitSign rest).2 = [] ∨ ¬ (splitSign rest).2.all Char.isDigit then
      .error (.valueError "Invalid literal for Fraction")
    else integer limit rest
  | _ => .error (.valueError "Invalid literal for Fraction")

/-- The decimals after a point, and the rest. -/
def decimalsOf : Text → Text × Text
  | '.' :: rest => (leading rest, following rest)
  | rest => ([], rest)

/-- `int` of digits that may be missing. -/
def naturalOrZero (limit : ℕ) (text : Text) : Except Raised ℕ := if text = [] then .ok 0 else natural limit text

/-- A number with decimals and an exponent. -/
def scientific (limit : ℕ) (negative : Bool) (whole rest : Text) : Except Raised ℚ := do
  let decimals := (decimalsOf rest).1
  if whole = [] ∧ decimals = [] then .error (.valueError "Invalid literal for Fraction")
  else
    let numerator ← naturalOrZero limit whole
    let fraction ← naturalOrZero limit decimals
    let exponent ← exponentOf limit (decimalsOf rest).2
    return signed negative
      ((numerator * 10 ^ decimals.length + fraction : ℕ) / (10 : ℚ) ^ decimals.length * (10 : ℚ) ^ exponent)

/-- `Fraction` of a text, without blanks and underscores. -/
def fraction (limit : ℕ) (text : Text) : Except Raised ℚ :=
  let (negative, body) := splitSign text
  match following body with
  | '/' :: rest => do
    let numerator ← natural limit (leading body)
    let denominator ← natural limit rest
    quotient (if negative then -numerator else numerator) denominator
  | rest => scientific limit negative (leading body) rest

def Literal.toData (limit : ℕ) : Literal → Except Raised Document
  | integer payload => do
    return .dict [("kind", .text "integer".toList), ("value", .text (← strInteger limit payload))]
  | rational payload => do
    return .dict [("kind", .text "rational".toList), ("numerator", .text (← strInteger limit payload.num)),
      ("denominator", .text (← strInteger limit payload.den))]
  | decimal payload => return .dict [("kind", .text "decimal".toList), ("value", .text payload.str)]
  | binary64 payload _ => return .dict [("kind", .text "binary64".toList), ("value", .text payload)]

/-- `data[key]`, of a text. -/
def item (entries : List (String × Document)) (key : String) : Except Raised Text :=
  match entries.lookup key with
  | some (.text text) => .ok text
  | some (.dict _) => .error .typeError
  | none => .error (.keyError key)

/-- The dict in a `{"scalar": data}`, or the document itself. -/
def unwrapped : Document → Document
  | .dict [("scalar", data)] => data
  | data => data

/-- `_literal`. `float.fromhex` is a parameter. -/
def literal (limit : ℕ) (fromHex : Text → Except Raised ℚ) (data : Document) : Except Raised ℚ :=
  match unwrapped data with
  | .text _ => .error (.valueError "unsupported canonical scalar literal")
  | .dict entries =>
    match entries.lookup "kind" with
    | some (.text kind) =>
      if kind = "integer".toList then do
        return ((← integer limit (← item entries "value") : ℤ) : ℚ)
      else if kind = "rational".toList then do
        quotient (← integer limit (← item entries "numerator")) (← integer limit (← item entries "denominator"))
      else if kind = "decimal".toList then do
        fraction limit (← item entries "value")
      else if kind = "binary64".toList then do
        fromHex (← item entries "hex")
      else .error (.valueError "unsupported canonical scalar literal")
    | _ => .error (.valueError "unsupported canonical scalar literal")

/-- The document of a literal, decoded. -/
def Literal.decoded (limit : ℕ) (fromHex : Text → Except Raised ℚ) (written : Literal) : Except Raised ℚ := do
  literal limit fromHex (← written.toData limit)

end Pops.ScalarLiteral
