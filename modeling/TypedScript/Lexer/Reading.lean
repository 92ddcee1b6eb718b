import TypedScript.Diagnostic.Log
import TypedScript.Text.Cursor

/-! # Readings

A reader is a function of a cursor. It gives a value, the cursor where it stops, and what it has to
report about the text in between.
-/

namespace TypedScript.Lexer

open Text

structure Report where
  code : Diagnostic.Code
  start : Nat
  stop : Nat
  arguments : List String := []
deriving DecidableEq, Repr

def Report.point (code : Diagnostic.Code) (pos : Nat) : Report :=
  ⟨code, pos, pos, []⟩

def Report.message (source : SourceId) (r : Report) : Diagnostic.Message :=
  .create r.code .error r.arguments (some ⟨source, r.start, r.stop⟩) none

structure Reading (α : Type) where
  value : α
  stop : Cursor
  reports : List Report := []

end TypedScript.Lexer
