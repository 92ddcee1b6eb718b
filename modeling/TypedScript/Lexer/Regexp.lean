import TypedScript.Lexer.Reading

/-! # Regular expression literals

The pattern runs up to the first `/` that is not escaped and has to end before the line does. The flags
are a word over `g`, `i` and `m` in which no letter comes twice.
-/

namespace TypedScript.Lexer

open Text

/-- Where the pattern ends in a text that begins at `pos`, and whether a `/` ends it. -/
def patternEnd (escaped : Bool) (pos : Nat) : List Char → Cursor × Bool
  | [] => (⟨pos, [], 0⟩, false)
  | c :: rest =>
    if !escaped && c = '/' then (⟨pos, c :: rest, 0⟩, true)
    else if isLineBreak c then (⟨pos, c :: rest, 0⟩, false)
    else patternEnd (!escaped && c = '\\') (pos + c.utf8Size) rest

/-- Reads the pattern after the opening `/` and leaves the closing one. -/
def readPattern (c : Cursor) : Reading String :=
  let (stop, closed) := patternEnd false c.toEdge.pos c.toEdge.rest
  ⟨c.textTo stop.pos, stop, if closed then [] else [⟨.unterminatedRegexp, c.pos, stop.pos, []⟩]⟩

def flagBit? : Char → Option UInt8
  | 'g' => some 1
  | 'i' => some 2
  | 'm' => some 4
  | _ => none

/-- What is kept of the flags so far: a bit for each that has occurred, and whether one of them is none
or has occurred before. -/
structure FlagState where
  seen : UInt8
  invalid : Bool

namespace FlagState

def start : FlagState :=
  ⟨0, false⟩

def push (s : FlagState) (ch : Char) : FlagState :=
  match flagBit? ch with
  | none => { s with invalid := true }
  | some bit => ⟨s.seen ||| bit, s.invalid || s.seen &&& bit != 0⟩

end FlagState

def readRegexpFlags (c : Cursor) : Reading String :=
  let word := c.chars.takeWhile isIdentifierPart
  let stop := c.skipChars isIdentifierPart
  let flags := word.foldl FlagState.push .start
  ⟨String.ofList word, stop,
    if flags.invalid then [⟨.invalidRegexpFlags, c.pos, stop.pos, []⟩] else []⟩

end TypedScript.Lexer
