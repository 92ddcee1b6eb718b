import TypedScript.Diagnostic.Severity
import TypedScript.Text.Bytes
import TypedScript.Text.Character

/-! # Excerpts

The line a span starts in, without its indentation, and a marker below the characters of the span. A
tab takes two columns and any other character one. The marker stops at the end of the line; an empty
span, or one that begins with a line break, is marked by a caret. An offset inside a character has no
line, so the whole text stands for it, and nothing is marked.
-/

namespace TypedScript.Diagnostic

structure Excerpt where
  /-- The text of the line from its first character that is no space. -/
  line : List Char
  /-- The part of the line in front of the span. -/
  indent : List Char
  /-- The characters of the span. -/
  marked : List Char
deriving DecidableEq, Repr

namespace Excerpt

/-- What follows the last line break. -/
def lastLine (text : List Char) : List Char :=
  (text.reverse.takeWhile fun c => !Text.isLineBreak c).reverse

def firstLine (text : List Char) : List Char :=
  text.takeWhile fun c => !Text.isLineBreak c

def trim (line : List Char) : List Char :=
  line.dropWhile Text.isSpace

/-- The excerpt for the span between two offsets. A start behind the text stands for its end. -/
def ofOffsets (text : List Char) (start stop : Nat) : Excerpt :=
  let start := min start (Text.byteSize text)
  match Text.takeBytes? start text, Text.dropBytes? start text with
  | some before, some after =>
    let lead := lastLine before
    ⟨trim (lead ++ firstLine after), trim lead, (Text.slice? text start stop).getD []⟩
  | _, _ => ⟨trim text, [], []⟩

/-- The columns of a character. -/
def width (c : Char) : Nat :=
  if c = '\t' then 2 else 1

def widthOf : List Char → Nat
  | [] => 0
  | c :: rest => width c + widthOf rest

def expandTabs (text : List Char) : List Char :=
  text.flatMap fun c => if c = '\t' then [' ', ' '] else [c]

def blanks (n : Nat) : List Char :=
  List.replicate n ' '

/-- The marks below the characters up to the first line break, and one below that. -/
def underline : List Char → List Char
  | [] => []
  | c :: rest =>
    if Text.isLineBreak c then ['~'] else List.replicate (width c) '~' ++ underline rest

def marker (isPoint : Bool) (marked : List Char) : List Char :=
  if isPoint || marked.head?.any Text.isLineBreak then ['^'] else underline marked

/-- The width of the column of line numbers. -/
def gutter (line : Nat) (widest : Option Nat) : Nat :=
  max (toString line).length ((widest.map fun n => (toString n).length).getD 0)

/-- The four rows that show an excerpt: a lead-in, the line behind its number, the marker, and the path. -/
def rows (e : Excerpt) (isPoint : Bool) (lineNumber gutter : Nat) (colors : Bool) (path : String) :
    List String :=
  let space := String.ofList (blanks gutter)
  let number := String.ofList (blanks (gutter - (toString lineNumber).length)) ++ toString lineNumber
  [space ++ "  :",
   " " ++ number ++ " │ " ++ String.ofList (expandTabs e.line),
   " " ++ space ++ " │ " ++ String.ofList (blanks (widthOf e.indent)) ++
     paint colors .error (String.ofList (marker isPoint e.marked)),
   " " ++ space ++ " └─ in " ++ path]

end Excerpt

end TypedScript.Diagnostic
