import TypedScript.Diagnostic.Code
import TypedScript.Text.Character

/-! # Radices

The four radices of integer literals and the value of a digit in each.
-/

namespace TypedScript.Numeral

/-- The value of a hexadecimal digit in either case. -/
def hexValue? (c : Char) : Option Nat :=
  if Text.isDecimal c then some (c.toNat - '0'.toNat)
  else if 'a' ≤ c && c ≤ 'f' then some (c.toNat - 'a'.toNat + 10)
  else if 'A' ≤ c && c ≤ 'F' then some (c.toNat - 'A'.toNat + 10)
  else none

inductive Radix where
  | binary | octal | decimal | hexadecimal
deriving DecidableEq, Repr

namespace Radix

def base : Radix → Nat
  | .binary => 2
  | .octal => 8
  | .decimal => 10
  | .hexadecimal => 16

def digit? (r : Radix) (c : Char) : Option Nat :=
  (hexValue? c).filter (· < r.base)

/-- The radix a letter after a leading zero stands for. -/
def ofLetter? : Char → Option Radix
  | 'x' | 'X' => some .hexadecimal
  | 'b' | 'B' => some .binary
  | 'o' | 'O' => some .octal
  | _ => none

/-- What is reported where a digit is missing. -/
def missingDigit : Radix → Diagnostic.Code
  | .binary => .binaryDigitExpected
  | .octal => .octalDigitExpected
  | .decimal => .digitExpected
  | .hexadecimal => .hexDigitExpected

/-- The number a text denotes, characters that are no digits left out. -/
def value (r : Radix) (text : List Char) : Nat :=
  (text.filterMap r.digit?).foldl (fun n d => n * r.base + d) 0

end Radix

end TypedScript.Numeral
