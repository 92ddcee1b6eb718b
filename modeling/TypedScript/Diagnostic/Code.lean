/-! # Diagnostic codes

Each code has a number and a message with up to three places for arguments. Numbers below a thousand
belong to this compiler, the others follow the numbering of the language it accepts; the two groups
have a letter mark each.
-/

namespace TypedScript.Diagnostic

inductive Code where
  | notImplemented
  | invalidRegexpFlags
  | literalDoesNotFit
  | unterminatedString
  | identifierExpected
  | expected
  | unexpectedToken
  | octalLiteral
  | digitExpected
  | hexDigitExpected
  | unexpectedEnd
  | invalidCharacter
  | unterminatedRegexp
  | binaryDigitExpected
  | octalDigitExpected
  | escapeOutOfRange
  | unterminatedEscape
  | identifierAfterNumber
  | separatorNotAllowed
  | consecutiveSeparators
deriving DecidableEq, Repr, Inhabited

namespace Code

/-- All codes in the order of their numbers. -/
def all : List Code :=
  [.notImplemented, .invalidRegexpFlags, .literalDoesNotFit, .unterminatedString,
   .identifierExpected, .expected, .unexpectedToken, .octalLiteral, .digitExpected,
   .hexDigitExpected, .unexpectedEnd, .invalidCharacter, .unterminatedRegexp,
   .binaryDigitExpected, .octalDigitExpected, .escapeOutOfRange, .unterminatedEscape,
   .identifierAfterNumber, .separatorNotAllowed, .consecutiveSeparators]

def number : Code → Nat
  | .notImplemented => 100
  | .invalidRegexpFlags => 209
  | .literalDoesNotFit => 236
  | .unterminatedString => 1002
  | .identifierExpected => 1003
  | .expected => 1005
  | .unexpectedToken => 1012
  | .octalLiteral => 1121
  | .digitExpected => 1124
  | .hexDigitExpected => 1125
  | .unexpectedEnd => 1126
  | .invalidCharacter => 1127
  | .unterminatedRegexp => 1161
  | .binaryDigitExpected => 1177
  | .octalDigitExpected => 1178
  | .escapeOutOfRange => 1198
  | .unterminatedEscape => 1199
  | .identifierAfterNumber => 1351
  | .separatorNotAllowed => 6188
  | .consecutiveSeparators => 6189

def name : Code → String
  | .notImplemented => "NotImplemented"
  | .invalidRegexpFlags => "InvalidRegexpFlags"
  | .literalDoesNotFit => "LiteralDoesNotFitInt64"
  | .unterminatedString => "UnterminatedStringLiteral"
  | .identifierExpected => "IdentifierExpected"
  | .expected => "Expected"
  | .unexpectedToken => "UnexpectedToken"
  | .octalLiteral => "OctalLiteralsNotAllowed"
  | .digitExpected => "DigitExpected"
  | .hexDigitExpected => "HexDigitExpected"
  | .unexpectedEnd => "UnexpectedEndOfText"
  | .invalidCharacter => "InvalidCharacter"
  | .unterminatedRegexp => "UnterminatedRegexpLiteral"
  | .binaryDigitExpected => "BinaryDigitExpected"
  | .octalDigitExpected => "OctalDigitExpected"
  | .escapeOutOfRange => "ExtendedUnicodeEscapeOutOfRange"
  | .unterminatedEscape => "UnterminatedUnicodeEscape"
  | .identifierAfterNumber => "IdentifierAfterNumericLiteral"
  | .separatorNotAllowed => "NumericSeparatorNotAllowed"
  | .consecutiveSeparators => "ConsecutiveNumericSeparators"

def template : Code → String
  | .notImplemented => "Not implemented: \x7b0\x7d"
  | .invalidRegexpFlags => "Invalid regular expression flags."
  | .literalDoesNotFit => "Literal '\x7b0\x7d' does not fit into 'i64' or 'u64' types."
  | .unterminatedString => "Unterminated string literal."
  | .identifierExpected => "Identifier expected."
  | .expected => "'\x7b0\x7d' expected."
  | .unexpectedToken => "Unexpected token."
  | .octalLiteral => "Octal literals are not allowed in strict mode."
  | .digitExpected => "Digit expected."
  | .hexDigitExpected => "Hexadecimal digit expected."
  | .unexpectedEnd => "Unexpected end of text."
  | .invalidCharacter => "Invalid character."
  | .unterminatedRegexp => "Unterminated regular expression literal."
  | .binaryDigitExpected => "Binary digit expected."
  | .octalDigitExpected => "Octal digit expected."
  | .escapeOutOfRange =>
    "An extended Unicode escape value must be between 0x0 and 0x10FFFF inclusive."
  | .unterminatedEscape => "Unterminated Unicode escape sequence."
  | .identifierAfterNumber =>
    "An identifier or keyword cannot immediately follow a numeric literal."
  | .separatorNotAllowed => "Numeric separators are not allowed here."
  | .consecutiveSeparators => "Multiple consecutive numeric separators are not permitted."

/-- Whether the code belongs to this compiler alone. -/
def isInternal (c : Code) : Bool :=
  c.number < 1000

/-- The letters in front of the number. -/
def mark (c : Code) : String :=
  if c.isInternal then "AS" else "TS"

def ofNumber? (n : Nat) : Option Code :=
  all.find? (·.number == n)

end Code

end TypedScript.Diagnostic
