import TypedScript.Lexer.State

/-! # Templates

A template literal is read segment by segment. Between two segments the caller reads the tokens of an
interpolation up to the brace that closes it; each nested template has a reader of its own.
-/

namespace TypedScript.Lexer

/-- A segment of a template: its value, its text as written, and whether an interpolation follows. -/
structure Segment where
  cooked : String
  raw : String
  interpolation : Bool
deriving DecidableEq, Repr

structure Template where
  tagged : Bool
  started : Bool
  finished : Bool
deriving DecidableEq, Repr

namespace Template

def new (tagged : Bool) : Template := ⟨tagged, false, false⟩

/-- Reads the next segment: the first begins with the quote, a later one right after a brace. -/
def takeSegment (t : Template) (l : Lexer) : Segment × Template × Lexer :=
  let (cooked, l) := l.takeString (if t.started then some backtick else none) t.tagged
  (⟨cooked, l.rawString, l.inTemplate⟩, { t with started := true, finished := !l.inTemplate }, l)

end Template

end TypedScript.Lexer
