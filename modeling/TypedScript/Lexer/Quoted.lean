import TypedScript.Lexer.Escape

/-! # Strings and segments of templates

The body of a quoted literal runs from its quote to the next one that is not escaped. A string also
ends at a line break and at the end of the text, which is reported; a segment of a template also ends
where an interpolation begins. The value of the body is put together from the runs that stand for
themselves and the escapes between them.
-/

namespace TypedScript.Lexer

open Text

def backtick : UInt8 := 0x60

inductive BodyEnd where
  | quote | interpolation | lineBreak | endOfText
deriving DecidableEq, Repr

def bodyEndAt? (quote : UInt8) (c : Cursor) : Option BodyEnd :=
  if c.atEnd then some .endOfText
  else if c.byte = quote then some .quote
  else if c.char? = some '\\' then none
  else if quote = backtick then
    if ['$', '\x7b'].isPrefixOf c.chars then some .interpolation else none
  else if c.char?.any isLineBreak then some .lineBreak
  else none

theorem atEnd_of_bodyEndAt? {quote : UInt8} {c : Cursor} (h : bodyEndAt? quote c = none) :
    c.atEnd = false := by
  unfold bodyEndAt? at h
  split at h
  · simp at h
  · simpa using ‹¬ c.atEnd = true›

/-- The pieces of a body, the last one first, and where and how it ends. -/
structure Body where
  pieces : List (Reading String)
  stop : Cursor
  ending : BodyEnd

def verbatim (start stop : Cursor) : Reading String :=
  ⟨start.textTo stop.pos, stop, []⟩

/-- Reads on at `c` in a body of which `pieces` are read; the run of plain characters from `run` to
`c` is not among them yet. -/
def readBody (quote : UInt8) (tagged : Bool) (pieces : List (Reading String)) (run c : Cursor) :
    Body :=
  match h : bodyEndAt? quote c with
  | some ending => ⟨verbatim run c :: pieces, c, ending⟩
  | none =>
    if c.char? = some '\\' then
      let escape := readEscape tagged c
      have : escape.stop.distance < c.distance :=
        distance_readEscape_lt tagged (atEnd_of_bodyEndAt? h)
      readBody quote tagged (escape :: verbatim run c :: pieces) escape.stop escape.stop
    else
      have : c.skipChar.distance < c.distance :=
        Cursor.distance_skipChar_lt (atEnd_of_bodyEndAt? h)
      readBody quote tagged pieces run c.skipChar
termination_by c.distance

/-- The value of a quoted literal, the place of its body, and what ended it. -/
structure Quoted where
  text : String
  start : Cursor
  stop : Nat
  ending : BodyEnd

def Body.text (b : Body) : String :=
  String.join (b.pieces.reverse.map (·.value))

def Body.reports (b : Body) : List Report :=
  b.pieces.reverse.flatMap (·.reports)

/-- Past the closing quote or the opening of an interpolation. -/
def Body.after (b : Body) : Cursor :=
  match b.ending with
  | .quote => b.stop.advance 1
  | .interpolation => b.stop.advance 2
  | .lineBreak | .endOfText => b.stop

/-- The report of a body that neither a quote nor an interpolation ends; it covers the quote before the
body too. -/
def Body.openReports (b : Body) (start : Nat) : List Report :=
  match b.ending with
  | .quote | .interpolation => []
  | .lineBreak | .endOfText => [⟨.unterminatedString, start - 1, b.stop.pos, []⟩]

/-- Reads the body at the cursor up to the given quote; without one, the byte at the cursor is the
quote and the body begins after it. -/
def readQuoted (quote? : Option UInt8) (tagged : Bool) (c : Cursor) : Reading Quoted :=
  let start := if quote?.isNone then c.advance 1 else c
  let body := readBody (quote?.getD c.byte) tagged [] start start
  ⟨⟨body.text, start, body.stop.pos, body.ending⟩, body.after,
    body.reports ++ body.openReports start.pos⟩

end TypedScript.Lexer
