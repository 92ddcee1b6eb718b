import TypedScript.Lexer.Reading
import TypedScript.Numeral.Decimal

/-! # Reading numbers

A run of digits may hold `_` between two digits. A `_` anywhere else is reported and passed over, and
so is one after a lone leading zero of a decimal number. The digits of an integer are taken one at a
time in 64 bits; one that does not fit keeps its low 64 bits.
-/

namespace TypedScript.Lexer

open Text Numeral

def checkedMul? (a b : UInt64) : Option UInt64 :=
  if a.toNat * b.toNat < UInt64.size then some (a * b) else none

def checkedAdd? (a b : UInt64) : Option UInt64 :=
  if a.toNat + b.toNat < UInt64.size then some (a + b) else none

/-- The low 64 bits of a number and whether there were more. -/
structure Digits where
  value : UInt64
  overflowed : Bool

/-- One more digit. Where it does not fit the value wraps around and the flag is set. -/
def Digits.push (r : Radix) (d : Digits) (digit : Nat) : Digits :=
  match (checkedMul? d.value (.ofNat r.base)).bind (checkedAdd? · (.ofNat digit)) with
  | some value => { d with value }
  | none => ⟨d.value * .ofNat r.base + .ofNat digit, true⟩

/-- How far a run of digits and separators has been read: the place, the character in front of it, the
end of the last separator, which is the start of the run before the first, and what was reported. -/
structure RunState where
  pos : Nat
  before : Option Char
  separatorEnd : Nat
  reports : List Report

namespace RunState

def new (start : Nat) : RunState :=
  ⟨start, none, start, []⟩

/-- What is wrong with a separator at the place. With `strictZero` it may not follow a lone zero. -/
def fault? (strictZero : Bool) (start : Nat) (s : RunState) : Option Diagnostic.Code :=
  if s.separatorEnd = s.pos then
    some (if s.separatorEnd = start then .separatorNotAllowed else .consecutiveSeparators)
  else if strictZero && s.pos = start + 1 && s.before = some '0' then some .separatorNotAllowed
  else none

def push (strictZero : Bool) (start : Nat) (s : RunState) (ch : Char) : RunState :=
  if ch = '_' then
    ⟨s.pos + 1, some ch, s.pos + 1,
      s.reports ++ ((s.fault? strictZero start).map (.point · s.pos)).toList⟩
  else { s with pos := s.pos + 1, before := some ch }

/-- Whether the run ends with a separator. -/
def isOpen (start : Nat) (s : RunState) : Bool :=
  s.pos ≠ start && s.separatorEnd = s.pos

def ending (start : Nat) (s : RunState) : List Report :=
  if s.isOpen start then [.point .separatorNotAllowed (s.separatorEnd - 1)] else []

end RunState

/-- Reads a run from `start` on for its separators. -/
def readRun (strictZero : Bool) (start : Nat) (run : List Char) : RunState :=
  run.foldl (RunState.push strictZero start) (.new start)

def isDigitOrSeparator (r : Radix) (c : Char) : Bool :=
  (r.digit? c).isSome || c == '_'

/-- Reads a run of digits and separators. A number too large is reported with the text of the literal
from `literal` on, except that a separator at the end of a run that is not hexadecimal is enough of
a report. -/
def readDigits (r : Radix) (literal c : Cursor) : Reading Digits :=
  let run := c.chars.takeWhile (isDigitOrSeparator r)
  let stop := c.skipChars (isDigitOrSeparator r)
  let digits := (run.filterMap r.digit?).foldl (Digits.push r) ⟨0, false⟩
  let last := readRun (r = .decimal) c.pos run
  let ending := if run = [] then [.point r.missingDigit c.pos] else last.ending c.pos
  let size :=
    if digits.overflowed && (r = .hexadecimal || !last.isOpen c.pos) then
      [⟨.literalDoesNotFit, literal.pos, stop.pos, [literal.textTo stop.pos]⟩]
    else []
  ⟨digits, stop, last.reports ++ ending ++ size⟩

/-- Whether the number at the cursor is an integer: it has the letter of a radix, or no point and no
exponent follows its digits. -/
def isInteger (c : Cursor) : Bool :=
  match c.chars with
  | '0' :: letter :: rest =>
    (Radix.ofLetter? letter).isSome || plain ('0' :: letter :: rest)
  | text => plain text
where
  plain (text : List Char) : Bool :=
    match text.dropWhile fun ch => isDecimal ch || ch == '_' with
    | [] => true
    | ch :: _ => !(ch == '.' || Decimal.isExponentMark ch)

/-- Reads an integer literal. A letter or a second digit after a leading zero only counts if the text
goes on after it. -/
def readInteger (c : Cursor) : Reading UInt64 :=
  let decimal :=
    let digits := readDigits .decimal c c
    ⟨digits.value.value, digits.stop, digits.reports⟩
  match c.chars with
  | '0' :: letter :: _ :: _ =>
    match Radix.ofLetter? letter with
    | some r =>
      let digits := readDigits r c (c.advance 2)
      ⟨digits.value.value, digits.stop, digits.reports⟩
    | none =>
      if isOctal letter then
        let digits := readDigits .octal c (c.advance 1)
        ⟨digits.value.value, digits.stop,
          digits.reports ++ [⟨.octalLiteral, c.pos, digits.stop.pos, []⟩]⟩
      else decimal
  | _ => decimal

def skipFloatRun (strictZero : Bool) (c : Cursor) : Reading Unit :=
  let isPart := fun ch => isDecimal ch || ch == '_'
  let last := readRun strictZero c.pos (c.chars.takeWhile isPart)
  ⟨(), c.skipChars isPart, last.reports ++ last.ending c.pos⟩

def skipFraction (c : Cursor) : Reading Unit :=
  if c.char? = some '.' then skipFloatRun false (c.advance 1) else ⟨(), c, []⟩

def skipExponent (c : Cursor) : Reading Unit :=
  if c.char?.any Decimal.isExponentMark then
    let c := c.advance 1
    let c := if c.char? = some '+' || c.char? = some '-' then c.advance 1 else c
    skipFloatRun false c
  else ⟨(), c, []⟩

def readFloat (c : Cursor) : Reading Float :=
  let whole := skipFloatRun true c
  let fraction := skipFraction whole.stop
  let exponent := skipExponent fraction.stop
  let text := (c.textTo exponent.stop.pos).toList.filter (· ≠ '_')
  ⟨floatValue text, exponent.stop, whole.reports ++ fraction.reports ++ exponent.reports⟩

def wordAfterNumber (c : Cursor) : List Report :=
  if c.char?.any isIdentifierStart then [.point .identifierAfterNumber c.pos] else []

theorem distance_readDigits_le (r : Radix) (literal c : Cursor) :
    (readDigits r literal c).stop.distance ≤ c.distance :=
  c.distance_skipChars_le _

end TypedScript.Lexer
