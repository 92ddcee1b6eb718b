import TypedScript.Diagnostic.Code
import TypedScript.Diagnostic.Severity
import TypedScript.Span

/-! # Messages

A message is a code with its template filled in, a severity, and the spans it is about. The places of
a template are filled one after the other, each at its first occurrence in the text built so far. Two
messages repeat each other if they differ at most in severity.
-/

namespace TypedScript.Diagnostic

structure Message where
  code : Code
  severity : Severity
  text : String
  span : Option Span := none
  related : Option Span := none
deriving DecidableEq, Repr, Inhabited

/-- Puts `argument` in the place of the first occurrence of `hole`. -/
def fillFirst (hole argument : List Char) : List Char → List Char
  | [] => []
  | c :: rest =>
    if hole.isPrefixOf (c :: rest) then argument ++ (c :: rest).drop hole.length
    else c :: fillFirst hole argument rest

/-- The written forms of the three places of a template. -/
def holes : List (List Char) :=
  ["\x7b0\x7d".toList, "\x7b1\x7d".toList, "\x7b2\x7d".toList]

def fill (template : String) (arguments : List String) : String :=
  String.ofList <| (holes.zip arguments).foldl
    (fun text (hole, argument) => fillFirst hole argument.toList text) template.toList

namespace Message

def create (code : Code) (severity : Severity) (arguments : List String)
    (span related : Option Span) : Message :=
  ⟨code, severity, fill code.template arguments, span, related⟩

def isError (m : Message) : Bool :=
  m.severity == .error

def isWarning (m : Message) : Bool :=
  m.severity == .warning

/-- Whether two messages agree in all but severity. -/
def repeats (a b : Message) : Bool :=
  a.code == b.code && a.span == b.span && a.related == b.related && a.text == b.text

/-- The message without its place. -/
def line (m : Message) : String :=
  s!"{m.severity.label} {m.code.number}: {m.text}"

end Message

end TypedScript.Diagnostic
