import TypedScript.Lexer.Template

/-! # Lexemes

A lexeme is a token with the value its reader gives. The lexemes of a whole text are taken one after the
other; where a brace closes an interpolation, the next segment of the template around it is read. How many
braces are open inside each template around a place decides which brace that is.
-/

namespace TypedScript

namespace Lexer

/-- The value of a token that has one to read. -/
inductive Value where
  | none
  | identifier (text : String)
  | string (text : String)
  | integer (value : UInt64)
  | float (value : Float)
  | template (segment : Segment)

structure Lexeme where
  token : Token
  start : Nat
  stop : Nat
  value : Value

/-- How the next token is looked for and read. -/
structure Choice where
  handling : WordHandling
  tagged : Bool
  /-- Whether a word right behind a number is looked for. -/
  checked : Bool

def leaveNumber (l : Lexer) (checked : Bool) : Lexer :=
  if checked then l.checkAfterNumber else l

/-- Calls the reader that matches the current token. Of a template it reads the first segment. -/
def readCurrent (l : Lexer) (choice : Choice) : Value × Lexer :=
  match l.token with
  | .identifier =>
    let (text, after) := l.takeIdentifier
    (.identifier text, after)
  | .string | .template =>
    let (text, after) := l.takeString none choice.tagged
    (.string text, after)
  | .integer =>
    let (value, after) := l.takeInteger
    (.integer value, after.leaveNumber choice.checked)
  | .float =>
    let (value, after) := l.takeFloat
    (.float value, after.leaveNumber choice.checked)
  | _ => (.none, l)

def readNext (l : Lexer) (choice : Choice) : Lexeme × Lexer :=
  let l := (l.next choice.handling).2
  let (value, after) := l.readCurrent choice
  (⟨l.token, l.tokenPos, after.pos, value⟩, after)

/-- A lexeme, or a segment read where an interpolation ends. -/
inductive Item where
  | lexeme (x : Lexeme)
  | segment (segment : Segment) (start stop : Nat)

/-- A template of which an interpolation is being read, and the number of braces open in it. -/
structure Pending where
  reader : Template
  depth : Nat

/-- A lexer with the templates around its place, the innermost first. -/
structure Nested where
  lexer : Lexer
  pending : List Pending

namespace Nested

/-- The templates around the place behind a segment, given those around its own. -/
def resume (outer : List Pending) (reader : Template) : List Pending :=
  if reader.finished then outer else ⟨reader, 0⟩ :: outer

/-- The next token, with the segment behind it if it begins a template or closes an interpolation. -/
def readNext (s : Nested) (choice : Choice) : List Item × Nested :=
  let l := (s.lexer.next choice.handling).2
  match l.token, s.pending with
  | .template, pending =>
    let (segment, reader, after) := (Template.new choice.tagged).takeSegment l
    ([.lexeme ⟨l.token, l.tokenPos, after.pos, .template segment⟩],
      ⟨after, resume pending reader⟩)
  | .punctuator .closeBrace, ⟨reader, 0⟩ :: outer =>
    let (segment, reader, after) := reader.takeSegment l
    ([.lexeme ⟨l.token, l.tokenPos, l.pos, .none⟩, .segment segment l.pos after.pos],
      ⟨after, resume outer reader⟩)
  | .punctuator .closeBrace, ⟨reader, depth + 1⟩ :: outer =>
    ([.lexeme ⟨l.token, l.tokenPos, l.pos, .none⟩], ⟨l, ⟨reader, depth⟩ :: outer⟩)
  | .punctuator .openBrace, ⟨reader, depth⟩ :: outer =>
    ([.lexeme ⟨l.token, l.tokenPos, l.pos, .none⟩], ⟨l, ⟨reader, depth + 1⟩ :: outer⟩)
  | _, pending =>
    let (value, after) := l.readCurrent choice
    ([.lexeme ⟨l.token, l.tokenPos, after.pos, value⟩], ⟨after, pending⟩)

/-- The items up to the end of the text, those of `fuel` tokens at most. -/
def takeItems (choice : Choice) : Nat → Nested → List Item × Nested
  | 0, s => ([], s)
  | fuel + 1, s =>
    let (items, next) := s.readNext choice
    if next.lexer.token = .endOfText then (items, next)
    else
      let (more, last) := takeItems choice fuel next
      (items ++ more, last)

end Nested

/-- All items from the place of the lexer on. A token before the end takes a byte at least, so there are
at most as many as there are bytes. -/
def takeAll (l : Lexer) (handling : WordHandling) (tagged : Bool) : List Item × Lexer :=
  let (items, last) := Nested.takeItems ⟨handling, tagged, true⟩ (l.cursor.distance + 1) ⟨l, []⟩
  (items, last.lexer)

end Lexer

end TypedScript
