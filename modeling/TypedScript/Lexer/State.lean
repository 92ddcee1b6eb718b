import TypedScript.Lexer.Quoted
import TypedScript.Lexer.Regexp
import TypedScript.Lexer.Scan

/-! # The lexer

A lexer stands at a place in the text of one source. It keeps the current token, one token of
lookahead, the place of the last quoted body, the comments it came across, and a log of diagnostics.
Scanning and reading are functions of the place alone; the lexer moves to where they stop and records
what they found, so a text that is scanned again brings its comments again, and its diagnostics only
once.
-/

namespace TypedScript

open Text Lexer

structure Lexer where
  source : SourceId
  cursor : Cursor
  token : Token
  tokenPos : Nat
  /-- The token found by the last look ahead, until the lexer moves. -/
  lookahead : Option Token
  lookaheadPos : Nat
  lookaheadOnNewLine : Bool
  /-- Whether the last quoted body ended where an interpolation begins. -/
  inTemplate : Bool
  bodyStart : Cursor
  bodyStop : Nat
  comments : Array Comment
  log : Diagnostic.Log

namespace Lexer

/-- A lexer after the preamble of a text, before its first token. -/
def new (source : SourceId) (text : String) (log : Diagnostic.Log) : Lexer where
  source
  cursor := (Cursor.start text.toList).skipPreamble
  token := .invalid
  tokenPos := 0
  lookahead := none
  lookaheadPos := 0
  lookaheadOnNewLine := false
  inTemplate := false
  bodyStart := .start text.toList
  bodyStop := 0
  comments := #[]
  log

def pos (l : Lexer) : Nat :=
  l.cursor.pos

def span (l : Lexer) : Span :=
  ⟨l.source, l.tokenPos, l.pos⟩

def record (l : Lexer) (reports : List Report) : Lexer :=
  let source := l.source
  { l with log := reports.foldl (fun log r => log.push (r.message source)) l.log }

def recordSkipped (l : Lexer) (skipped : List Skipped) : Lexer :=
  let l := l.record (skipped.filterMap Skipped.report?)
  let found := skipped.filterMap (Skipped.comment? l.source)
  { l with comments := found.foldl Array.push l.comments }

/-- Moves to where a reading stops, records its reports, and gives its value. -/
def take {α : Type} (l : Lexer) (r : Reading α) : α × Lexer :=
  (r.value, { l.record r.reports with cursor := r.stop })

structure Mark where
  cursor : Cursor
  token : Token
  tokenPos : Nat

def mark (l : Lexer) : Mark :=
  ⟨l.cursor, l.token, l.tokenPos⟩

def restore (l : Lexer) (m : Mark) : Lexer :=
  { l with cursor := m.cursor, token := m.token, tokenPos := m.tokenPos }

/-- Back to a mark, without lookahead. -/
def reset (l : Lexer) (m : Mark) : Lexer :=
  { l.restore m with lookahead := none }

/-- No limit on the length of punctuators; no punctuator is as long. -/
def noLimit : Nat := UInt32.size - 1

/-- Scans from the place of the lexer, moves to where the scan stops and gives its token. -/
def scanNext (l : Lexer) (handling : WordHandling) (limit : Nat) : Token × Lexer :=
  let s := scan handling limit l.cursor
  (s.token, { l.recordSkipped s.skipped with cursor := s.stop, tokenPos := s.start.pos })

def next (l : Lexer) (handling : WordHandling) : Token × Lexer :=
  let (token, l) := { l with lookahead := none }.scanNext handling noLimit
  (token, { l with token })

/-- The next token, found without moving. What was found stays the answer until the lexer moves on,
whatever is asked; whether a line break lies in front is noted only when the token is looked for. -/
def peek (l : Lexer) (noteNewLine : Bool) (handling : WordHandling) (limit : Nat) : Token × Lexer :=
  match l.lookahead with
  | some token => (token, l)
  | none =>
    let (token, after) := l.scanNext handling limit
    let onNewLine :=
      if noteNewLine then l.cursor.lineBreakBefore after.tokenPos else l.lookaheadOnNewLine
    (token,
      { after.restore l.mark with
        lookahead := some token
        lookaheadPos := after.tokenPos
        lookaheadOnNewLine := onNewLine })

/-- Moves past the next token if it is `token`. A closing `>` is looked for one character at a time, so
that `>>` closes two lists of type arguments. -/
def skip (l : Lexer) (token : Token) (handling : WordHandling) : Bool × Lexer :=
  let limit := if token = .punctuator .greater then 1 else noLimit
  let (found, after) := l.scanNext handling limit
  if found = token then (true, { after with token, lookahead := none })
  else (false, after.restore l.mark)

/-- Moves to the next token if it is an identifier, whose text is left to read. -/
def skipIdentifier (l : Lexer) (handling : WordHandling) : Bool × Lexer :=
  l.skip .identifier handling

def takeIdentifier (l : Lexer) : String × Lexer :=
  let stop := l.cursor.skipChar.skipIdentifierRest
  l.take ⟨l.cursor.textTo stop.pos, stop, []⟩

def takeString (l : Lexer) (quote? : Option UInt8) (tagged : Bool) : String × Lexer :=
  let (body, after) := l.take (readQuoted quote? tagged l.cursor)
  (body.text,
    { after with
      inTemplate := body.ending = .interpolation
      bodyStart := body.start
      bodyStop := body.stop })

def rawString (l : Lexer) : String :=
  l.bodyStart.textTo l.bodyStop

def takeEscape (l : Lexer) (tagged : Bool) : String × Lexer :=
  l.take (readEscape tagged l.cursor)

def atInteger (l : Lexer) : Bool :=
  isInteger l.cursor

def takeInteger (l : Lexer) : UInt64 × Lexer :=
  l.take (readInteger l.cursor)

def takeFloat (l : Lexer) : Float × Lexer :=
  l.take (readFloat l.cursor)

def checkAfterNumber (l : Lexer) : Lexer :=
  l.record (wordAfterNumber l.cursor)

def takePattern (l : Lexer) : String × Lexer :=
  l.take (readPattern l.cursor)

def takeRegexpFlags (l : Lexer) : String × Lexer :=
  l.take (readRegexpFlags l.cursor)

end Lexer

end TypedScript
