import TypedScript.Lexer.Numeral

/-! # Escape sequences

An escape is a backslash and what follows it. Its reading is the text it stands for: one character, or
nothing for a line continuation. A bad escape is reported and stands for nothing, or, in a tagged
template, stands for its own text.
-/

namespace TypedScript.Lexer

open Text Numeral

def charOfCode (n : Nat) : Char :=
  if n.isValidChar then Char.ofNat n else replacement

/-- The characters that a letter after the backslash stands for. -/
def letterEscape? : Char → Option Char
  | 'b' => some '\x08'
  | 't' => some '\t'
  | 'n' => some '\n'
  | 'v' => some '\x0B'
  | 'f' => some '\x0C'
  | 'r' => some '\r'
  | _ => none

inductive HexRow where
  | complete (value : Nat) (stop : Cursor)
  | badDigit (place : Cursor)
  | cutOff (place : Cursor)

/-- Reads `n` hexadecimal digits after a row with the value `value`. -/
def readHexRow : Nat → Nat → Cursor → HexRow
  | 0, value, c => .complete value c
  | n + 1, value, c =>
    match c.char? with
    | none => .cutOff c
    | some ch =>
      match hexValue? ch with
      | none => .badDigit c
      | some d => readHexRow n (value * 16 + d) (c.advance 1)

/-- The reading of an escape that begins at `start` and breaks off at `place`. -/
def badHexEscape (tagged : Bool) (start place : Cursor) (code : Diagnostic.Code) (stop : Cursor) :
    Reading String :=
  if tagged then ⟨start.textTo place.pos, place, []⟩
  else ⟨"", stop, [⟨code, place.pos, stop.pos, []⟩]⟩

def isHighSurrogate (unit : Nat) : Bool :=
  0xD800 ≤ unit && unit ≤ 0xDBFF

def isLowSurrogate (unit : Nat) : Bool :=
  0xDC00 ≤ unit && unit ≤ 0xDFFF

/-- The low surrogate that is written as an escape at the cursor. -/
def lowSurrogate? (c : Cursor) : Option Nat :=
  if ['\\', 'u'].isPrefixOf c.chars then
    match readHexRow 4 0 (c.advance 2) with
    | .complete unit _ => if isLowSurrogate unit then some unit else none
    | _ => none
  else none

/-- The character of a code unit before the cursor, a surrogate pair being completed there. -/
def readPair (unit : Nat) (c : Cursor) : Reading String :=
  match if isHighSurrogate unit then lowSurrogate? c else none with
  | some low =>
    let code := 0x10000 + (unit - 0xD800) * 0x400 + (low - 0xDC00)
    ⟨String.singleton (charOfCode code), c.advance 6, []⟩
  | none => ⟨String.singleton (charOfCode unit), c, []⟩

/-- Reads a row of `n` digits after the letter of an escape, and goes on with its value. -/
def readHexEscape (tagged : Bool) (start : Cursor) (n : Nat) (c : Cursor)
    (continue_ : Nat → Cursor → Reading String) : Reading String :=
  match readHexRow n 0 c with
  | .complete value stop => continue_ value stop
  | .badDigit place => badHexEscape tagged start place .hexDigitExpected place.skipChar
  | .cutOff place => badHexEscape tagged start place .unexpectedEnd place

/-- What is wrong with the digits from `c` on and with the brace that should close them. -/
def bracedFaults (c : Cursor) (digits : Reading Digits) : List Report :=
  let range :=
    if digits.value.overflowed || 0x10FFFF < digits.value.value then
      [⟨.escapeOutOfRange, c.pos, digits.stop.pos, []⟩]
    else []
  let closing :=
    if digits.stop.atEnd then [⟨.unexpectedEnd, c.pos, digits.stop.pos, []⟩]
    else if digits.stop.char? = some '\x7d' then []
    else [⟨.unterminatedEscape, c.pos, digits.stop.pos, []⟩]
  range ++ closing

def afterBrace (c : Cursor) : Cursor :=
  if c.char? = some '\x7d' then c.advance 1 else c

/-- Reads the digits and the closing brace of an escape whose opening brace is behind. The faults of
the digits themselves are reported in tagged templates too. -/
def readBracedEscape (tagged : Bool) (start c : Cursor) : Reading String :=
  let digits := readDigits .hexadecimal start c
  let faults := bracedFaults c digits
  let stop := afterBrace digits.stop
  if faults = [] then
    ⟨String.singleton (charOfCode digits.value.value.toNat), stop, digits.reports⟩
  else if tagged then ⟨start.textTo stop.pos, stop, digits.reports⟩
  else ⟨"", stop, digits.reports ++ faults⟩

/-- Reads what follows the backslash at `start`: the character `ch`, and the text at `c` after it. -/
def readEscapeAfter (tagged : Bool) (start : Cursor) (ch : Char) (c : Cursor) : Reading String :=
  match ch with
  | '0' =>
    if tagged && c.char?.any isDecimal then
      ⟨start.textTo (c.advance 1).pos, c.advance 1, []⟩
    else ⟨String.singleton '\x00', c, []⟩
  | 'u' =>
    if c.char? = some '\x7b' then readBracedEscape tagged start (c.advance 1)
    else readHexEscape tagged start 4 c readPair
  | 'x' =>
    readHexEscape tagged start 2 c fun value stop => ⟨String.singleton (charOfCode value), stop, []⟩
  | '\r' => ⟨"", if c.char? = some '\n' then c.advance 1 else c, []⟩
  | _ =>
    if isLineBreak ch then ⟨"", c, []⟩
    else ⟨String.singleton ((letterEscape? ch).getD ch), c, []⟩

/-- Reads the escape at the cursor, whose first byte is passed over as the backslash. -/
def readEscape (tagged : Bool) (c : Cursor) : Reading String :=
  let c' := c.advance 1
  match c'.char? with
  | none => ⟨"", c', [.point .unexpectedEnd c'.endPos]⟩
  | some ch => readEscapeAfter tagged c ch c'.skipChar

def HexRow.place : HexRow → Cursor
  | .complete _ stop => stop
  | .badDigit place => place
  | .cutOff place => place

theorem distance_readHexRow_le (n value : Nat) (c : Cursor) :
    (readHexRow n value c).place.distance ≤ c.distance := by
  induction n generalizing value c with
  | zero => exact Nat.le_refl _
  | succ n ih =>
    unfold readHexRow
    split
    · exact Nat.le_refl _
    · split
      · exact Nat.le_refl _
      · exact Nat.le_trans (ih _ _) (c.distance_advance_le 1)

theorem distance_badHexEscape_le (tagged : Bool) (start place : Cursor) (code : Diagnostic.Code)
    {stop : Cursor} (h : stop.distance ≤ place.distance) :
    (badHexEscape tagged start place code stop).stop.distance ≤ place.distance := by
  unfold badHexEscape
  split
  · exact Nat.le_refl _
  · exact h

theorem distance_readHexEscape_le (tagged : Bool) (start : Cursor) (n : Nat) (c : Cursor)
    {continue_ : Nat → Cursor → Reading String}
    (h : ∀ value stop, (continue_ value stop).stop.distance ≤ stop.distance) :
    (readHexEscape tagged start n c continue_).stop.distance ≤ c.distance := by
  have hrow := distance_readHexRow_le n 0 c
  unfold readHexEscape
  split <;> rename_i heq <;> rw [heq] at hrow
  · exact Nat.le_trans (h _ _) hrow
  · exact Nat.le_trans (distance_badHexEscape_le _ _ _ _ (Cursor.distance_skipChar_le _)) hrow
  · exact Nat.le_trans (distance_badHexEscape_le _ _ _ _ (Nat.le_refl _)) hrow

theorem distance_readPair_le (unit : Nat) (c : Cursor) :
    (readPair unit c).stop.distance ≤ c.distance := by
  unfold readPair
  split
  · exact c.distance_advance_le 6
  · exact Nat.le_refl _

theorem distance_afterBrace_le (c : Cursor) : (afterBrace c).distance ≤ c.distance := by
  unfold afterBrace
  split
  · exact c.distance_advance_le 1
  · exact Nat.le_refl _

theorem distance_readBracedEscape_le (tagged : Bool) (start c : Cursor) :
    (readBracedEscape tagged start c).stop.distance ≤ c.distance := by
  have h := Nat.le_trans (distance_afterBrace_le _) (distance_readDigits_le .hexadecimal start c)
  unfold readBracedEscape
  simp only
  split
  · exact h
  · split <;> exact h

theorem distance_readEscapeAfter_le (tagged : Bool) (start : Cursor) (ch : Char) (c : Cursor) :
    (readEscapeAfter tagged start ch c).stop.distance ≤ c.distance := by
  have hone := c.distance_advance_le 1
  unfold readEscapeAfter
  split
  · split
    · exact hone
    · exact Nat.le_refl _
  · split
    · exact Nat.le_trans (distance_readBracedEscape_le _ _ _) hone
    · exact distance_readHexEscape_le _ _ _ _ distance_readPair_le
  · exact distance_readHexEscape_le _ _ _ _ fun _ _ => Nat.le_refl _
  · simp only
    split
    · exact hone
    · exact Nat.le_refl _
  · split <;> exact Nat.le_refl _

theorem distance_readEscape_lt (tagged : Bool) {c : Cursor} (h : c.atEnd = false) :
    (readEscape tagged c).stop.distance < c.distance := by
  have hone := Cursor.distance_advance_lt h Nat.one_pos
  unfold readEscape
  simp only
  split
  · exact hone
  · exact Nat.lt_of_le_of_lt
      (Nat.le_trans (distance_readEscapeAfter_le _ _ _ _) (Cursor.distance_skipChar_le _)) hone

end TypedScript.Lexer
