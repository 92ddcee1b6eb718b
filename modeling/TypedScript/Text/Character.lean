import TypedScript.Text.Unicode.Alphabetic
import TypedScript.Text.Unicode.Numeric

/-! # Character classes

The classes the lexer and the excerpts of diagnostics are built on. Line breaks and single-line
space are fixed lists; the characters of identifiers are an ASCII rule with the Unicode properties
beyond ASCII. Digits are ASCII digits only.
-/

namespace TypedScript.Text

def byteOrderMark : Char := '\uFEFF'

/-- What stands for a code that is no character. -/
def replacement : Char := '\uFFFD'

/-- Line feed, carriage return, line separator and paragraph separator. -/
def isLineBreak (c : Char) : Bool :=
  c == '\n' || c == '\r' || c == '\u2028' || c == '\u2029'

theorem isLineBreak_iff {c : Char} :
    isLineBreak c = true ↔ c ∈ ['\n', '\r', '\u2028', '\u2029'] := by
  simp [isLineBreak, or_assoc]

def isSpace (c : Char) : Bool :=
  c == ' ' || c == '\t' || c == '\x0B' || c == '\x0C' || c == '\u00A0' || c == '\u0085' ||
    c == '\u1680' || ('\u2000' ≤ c && c ≤ '\u200B') || c == '\u202F' || c == '\u205F' ||
    c == '\u3000' || c == byteOrderMark

def isDecimal (c : Char) : Bool :=
  '0' ≤ c && c ≤ '9'

def isOctal (c : Char) : Bool :=
  '0' ≤ c && c ≤ '7'

def isHexLetter (c : Char) : Bool :=
  ('a' ≤ c && c ≤ 'f') || ('A' ≤ c && c ≤ 'F')

def isAscii (c : Char) : Bool :=
  c.toNat < 0x80

def isAsciiLetter (c : Char) : Bool :=
  ('a' ≤ c && c ≤ 'z') || ('A' ≤ c && c ≤ 'Z')

def isIdentifierStart (c : Char) : Bool :=
  if isAscii c then isAsciiLetter c || c == '$' || c == '_'
  else Unicode.isAlphabetic c

/-- Beyond ASCII a zero-width joiner or non-joiner may stand inside an identifier. -/
def isIdentifierPart (c : Char) : Bool :=
  if isAscii c then isAsciiLetter c || isDecimal c || c == '$' || c == '_'
  else Unicode.isAlphabetic c || Unicode.isNumeric c || c == '\u200C' || c == '\u200D'

theorem isIdentifierPart_of_isIdentifierStart {c : Char} (h : isIdentifierStart c = true) :
    isIdentifierPart c = true := by
  unfold isIdentifierStart at h
  unfold isIdentifierPart
  split at h <;> simp_all only [Bool.or_eq_true, if_true, if_false, Bool.false_eq_true]
  · rcases h with (h | h) | h <;> simp [h]
  · simp

end TypedScript.Text
