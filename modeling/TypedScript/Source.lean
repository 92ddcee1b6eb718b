import TypedScript.Path
import TypedScript.Syntax.Tree
import TypedScript.Text.Line

/-! # Sources

A source is a text with the path it was registered under, the two shorter forms of that path, and the
statements parsed from it. Places are answered for offsets below a fixed bound. A source remembers the
column of the last place whose line was asked for.
-/

namespace TypedScript

inductive SourceKind where
  | user | userEntry | library | libraryEntry
deriving DecidableEq, Repr, Inhabited

namespace SourceKind

def all : List SourceKind :=
  [.user, .userEntry, .library, .libraryEntry]

def name : SourceKind → String
  | .user => "User"
  | .userEntry => "UserEntry"
  | .library => "Library"
  | .libraryEntry => "LibraryEntry"

end SourceKind

/-- Why an offset has no place. -/
inductive PlaceError where
  | beyondBound (offset : Nat)
deriving DecidableEq, Repr

def PlaceError.message : PlaceError → String
  | .beyondBound offset => s!"position {offset} exceeds the 31-bit offset bound"

structure Source where
  id : SourceId
  kind : SourceKind
  path : String
  internalPath : String
  simplePath : String
  text : String
  statements : Array Syntax.Stmt
  column : Nat

namespace Source

def offsetBound : Nat := Text.lineSentinel

def new (id : SourceId) (kind : SourceKind) (path text : String) : Source :=
  let internalPath := Path.internal path
  ⟨id, kind, path, internalPath, Path.lastSegment internalPath, text, #[], 1⟩

/-- The size of the text in bytes. -/
def length (s : Source) : Nat :=
  Text.byteSize s.text.toList

def isEmpty (s : Source) : Bool :=
  s.text.isEmpty

/-- The span of the whole text. -/
def span (s : Source) : Span :=
  ⟨s.id, 0, s.length⟩

/-- The registered path and text of the source of built-in code. -/
def nativePath : String := "~lib/native.ts"

def nativeText : String := "[native code]"

def isNative (s : Source) : Bool :=
  s.internalPath == Path.internal nativePath

def isLibrary (s : Source) : Bool :=
  s.kind == .library || s.kind == .libraryEntry

def pushStmt (s : Source) (stmt : Syntax.Stmt) : Source :=
  { s with statements := s.statements.push stmt }

def place (s : Source) (offset : Nat) : Except PlaceError Text.Place :=
  if offset < offsetBound then .ok (Text.place s.text.toList offset) else .error (.beyondBound offset)

/-- The line of an offset; its column is remembered. -/
def lineAt (s : Source) (offset : Nat) : Except PlaceError (Nat × Source) := do
  let p ← s.place offset
  return (p.line, { s with column := p.column })

def lineStart? (s : Source) (line : Nat) : Option Nat :=
  Text.lineStart? s.text.toList line

/-- The text between two offsets, empty where there is none. -/
def slice (s : Source) (start stop : Nat) : String :=
  Text.slice s.text.toList start stop

end Source

end TypedScript
