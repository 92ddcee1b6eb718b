import TypedScript.Comment
import TypedScript.Lexer.Numeral
import TypedScript.Token

/-! # Scanning

Scanning finds the next token after a place and says what was skipped in front of it: space, comments,
and characters that begin no token. Keywords and punctuators are passed over, while a word or literal
that has a value to read is left for its reader. A limit on the length of punctuators also keeps a
limit of one from seeing comments and floats that begin with a point.
-/

namespace TypedScript.Lexer

open Text

/-- How words that spell a keyword are classified. -/
inductive WordHandling where
  /-- Keywords are keywords. -/
  | standard
  /-- Soft keywords are identifiers. -/
  | preferIdentifier
  /-- Every word is an identifier. -/
  | alwaysIdentifier
deriving DecidableEq, Repr

namespace WordHandling

def all : List WordHandling :=
  [.standard, .preferIdentifier, .alwaysIdentifier]

def name : WordHandling → String
  | .standard => "Default"
  | .preferIdentifier => "Prefer"
  | .alwaysIdentifier => "Always"

end WordHandling

/-- What is skipped in front of a token. -/
inductive Skipped where
  | blank (start stop : Nat)
  | comment (kind : CommentKind) (text : String) (start stop : Nat)
  /-- A block comment without an end, of which `stop` is the end of the text. -/
  | openComment (start stop : Nat)
  /-- A character that begins no token. -/
  | stray (start stop : Nat)
deriving DecidableEq, Repr

def Skipped.report? : Skipped → Option Report
  | .blank .. | .comment .. => none
  | .openComment _ stop => some ⟨.expected, stop, stop, ["*/"]⟩
  | .stray start stop => some ⟨.invalidCharacter, start, stop, []⟩

def Skipped.comment? (source : SourceId) : Skipped → Option Comment
  | .comment kind text start stop => some ⟨kind, text, ⟨source, start, stop⟩⟩
  | _ => none

/-- One step of a scan: something skipped, or a token, and where the scan goes on. -/
inductive Piece where
  | skipped (what : Skipped) (next : Cursor)
  | token (token : Token) (next : Cursor)

def Piece.next : Piece → Cursor
  | .skipped _ next => next
  | .token _ next => next

def wordAt (handling : WordHandling) (c : Cursor) : Piece :=
  let stop := c.skipChar.skipIdentifierRest
  match handling, Keyword.ofText? (c.textTo stop.pos) with
  | .standard, some word => .token (.keyword word) stop
  | .preferIdentifier, some word =>
    if word.isSoft then .token .identifier c else .token (.keyword word) stop
  | _, _ => .token .identifier c

/-- The comment at the cursor, which stands at `//`. -/
def lineCommentAt (c : Cursor) : Piece :=
  let kind := if ['/', '/', '/'].isPrefixOf c.chars then .triple else .line
  let line := (c.advance 2).skipLine
  let stop := line.advance 1
  .skipped (.comment kind (c.textTo stop.pos) c.pos stop.pos) stop

/-- The comment at the cursor, which stands at `/*`. -/
def blockCommentAt (c : Cursor) : Piece :=
  match (c.advance 2).skipBlockComment? with
  | some stop => .skipped (.comment .block (c.textTo stop.pos) c.pos stop.pos) stop
  | none => .skipped (.openComment c.pos c.endPos) c.toEnd

/-- The punctuator at the cursor, or the character that begins no token. -/
def punctuatorAt (limit : Nat) (c : Cursor) : Piece :=
  match Punctuator.read? limit c.chars with
  | some (mark, taken) => .token (.punctuator mark) (c.advance taken)
  | none => .skipped (.stray c.pos c.skipChar.pos) c.skipChar

def isPointFloat (c : Cursor) : Bool :=
  match c.chars with
  | '.' :: digit :: _ => isDecimal digit
  | _ => false

def pieceAt (handling : WordHandling) (limit : Nat) (c : Cursor) : Piece :=
  match c.char? with
  | none => .skipped (.stray c.pos c.skipChar.pos) c.skipChar
  | some ch =>
    if isIdentifierStart ch then wordAt handling c
    else if isSpace ch || isLineBreak ch then .skipped (.blank c.pos c.skipChar.pos) c.skipChar
    else if ch = '\x22' || ch = '\x27' then .token .string c
    else if ch = '\x60' then .token .template c
    else if isDecimal ch then .token (if isInteger c then .integer else .float) c
    else if 1 < limit && isPointFloat c then .token .float c
    else if 1 < limit && ['/', '/'].isPrefixOf c.chars then lineCommentAt c
    else if 1 < limit && ['/', '*'].isPrefixOf c.chars then blockCommentAt c
    else punctuatorAt limit c

theorem wordAt_ne_skipped (handling : WordHandling) (c : Cursor) (what : Skipped) (next : Cursor) :
    wordAt handling c ≠ .skipped what next := by
  unfold wordAt
  simp only
  split
  · simp
  · split <;> simp
  · simp

theorem distance_lineCommentAt_lt {c next : Cursor} {what : Skipped} (hc : c.atEnd = false)
    (h : lineCommentAt c = .skipped what next) : next.distance < c.distance := by
  injection h with _ h
  subst h
  exact Nat.lt_of_le_of_lt
    (Nat.le_trans (Cursor.distance_advance_le _ 1) (Cursor.distance_skipLine_le _))
    (Cursor.distance_advance_lt hc (by omega))

theorem distance_blockCommentAt_lt {c next : Cursor} {what : Skipped} (hc : c.atEnd = false)
    (h : blockCommentAt c = .skipped what next) : next.distance < c.distance := by
  unfold blockCommentAt at h
  split at h <;> injection h with _ h <;> subst h
  · exact Nat.lt_of_le_of_lt (Cursor.distance_skipBlockComment?_le ‹_›)
      (Cursor.distance_advance_lt hc (by omega))
  · exact Cursor.distance_toEnd_lt hc

theorem distance_punctuatorAt_lt {limit : Nat} {c next : Cursor} {what : Skipped}
    (hc : c.atEnd = false) (h : punctuatorAt limit c = .skipped what next) :
    next.distance < c.distance := by
  unfold punctuatorAt at h
  split at h
  · injection h
  · injection h with _ h
    subst h
    exact Cursor.distance_skipChar_lt hc

theorem distance_skipped_lt {handling : WordHandling} {limit : Nat} {c next : Cursor}
    {what : Skipped} (hc : c.atEnd = false)
    (h : pieceAt handling limit c = .skipped what next) : next.distance < c.distance := by
  have hchar := Cursor.distance_skipChar_lt hc
  unfold pieceAt at h
  repeat' split at h
  · injection h with _ h; subst h; exact hchar
  · exact absurd h (wordAt_ne_skipped _ _ _ _)
  · injection h with _ h; subst h; exact hchar
  · injection h
  · injection h
  · injection h
  · injection h
  · injection h
  · exact distance_lineCommentAt_lt hc h
  · exact distance_blockCommentAt_lt hc h
  · exact distance_punctuatorAt_lt hc h

/-- The next token, where it starts, where the scan stops, and what was skipped. -/
structure Scan where
  token : Token
  start : Cursor
  stop : Cursor
  skipped : List Skipped

/-- The scan from a cursor on, `skipped` being what was skipped before it, the last first. -/
def scanFrom (handling : WordHandling) (limit : Nat) (skipped : List Skipped) (c : Cursor) : Scan :=
  if hc : c.atEnd then ⟨.endOfText, c, c, skipped.reverse⟩
  else
    match h : pieceAt handling limit c with
    | .token token stop => ⟨token, c, stop, skipped.reverse⟩
    | .skipped what next =>
      have : next.distance < c.distance := distance_skipped_lt (by simpa using hc) h
      scanFrom handling limit (what :: skipped) next
termination_by c.distance

def scan (handling : WordHandling) (limit : Nat) (c : Cursor) : Scan :=
  scanFrom handling limit [] c

end TypedScript.Lexer
