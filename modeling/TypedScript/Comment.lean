import TypedScript.Span

/-! # Comments

A comment keeps its whole text, the marks around it included; a line comment keeps the line feed that
ends it.
-/

namespace TypedScript

inductive CommentKind where
  | line | triple | block
deriving DecidableEq, Repr

def CommentKind.name : CommentKind → String
  | .line => "Line"
  | .triple => "Triple"
  | .block => "Block"

structure Comment where
  kind : CommentKind
  text : String
  span : Span
deriving DecidableEq, Repr

end TypedScript
