import TypedScript.Numeral.Radix

/-! # Decimal numbers

A decimal number is a mantissa times a power of ten. Its written form is a run of digits with at most
one point in it and at least one digit, then perhaps an exponent with a sign and at least one digit.
The nearest double is the one that correct rounding gives.
-/

namespace TypedScript.Numeral

structure Decimal where
  mantissa : Nat
  exponent : Int
deriving DecidableEq, Repr

namespace Decimal

def isExponentMark (c : Char) : Bool :=
  c == 'e' || c == 'E'

/-- The exponent part that ends a number; without a mark there is none, and the exponent is zero. -/
def exponent? : List Char → Option Int
  | [] => some 0
  | mark :: rest =>
    if isExponentMark mark then
      let (negative, digits) :=
        match rest with
        | '-' :: digits => (true, digits)
        | '+' :: digits => (false, digits)
        | digits => (false, digits)
      if digits ≠ [] ∧ digits.all Text.isDecimal then
        let n : Int := Radix.decimal.value digits
        some (if negative then -n else n)
      else none
    else none

/-- Reads the written form, the whole text. -/
def ofText? (text : List Char) : Option Decimal :=
  let whole := text.takeWhile Text.isDecimal
  let rest := text.dropWhile Text.isDecimal
  let (fraction, rest) :=
    match rest with
    | '.' :: rest => (rest.takeWhile Text.isDecimal, rest.dropWhile Text.isDecimal)
    | rest => ([], rest)
  if whole = [] ∧ fraction = [] then none
  else
    (exponent? rest).map fun e =>
      ⟨Radix.decimal.value (whole ++ fraction), e - fraction.length⟩

def toFloat (d : Decimal) : Float :=
  Float.ofScientific d.mantissa (d.exponent < 0) d.exponent.natAbs

/-- The text without the exponent marks and signs it ends with. -/
def dropOpenExponent (text : List Char) : List Char :=
  (text.reverse.dropWhile fun c => isExponentMark c || c == '+' || c == '-').reverse

end Decimal

def notANumber : Float := Float.ofBits 0x7FF8000000000000

/-- The value of a float literal without separators. An exponent mark without digits is left out; a
text that is no number even then has no value. -/
def floatValue (text : List Char) : Float :=
  match (Decimal.ofText? text).or (Decimal.ofText? (Decimal.dropOpenExponent text)) with
  | some d => d.toFloat
  | none => notANumber

end TypedScript.Numeral
