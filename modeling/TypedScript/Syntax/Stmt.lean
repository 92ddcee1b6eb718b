import TypedScript.Syntax.Declaration
import TypedScript.Syntax.Expr

/-! # Statements

Kinds and spans of statements, and the declarations among them.
-/

namespace TypedScript.Syntax

namespace Stmt

def declaration? : Stmt → Option Declaration
  | .class_ d => some (.class_ d)
  | .enum d => some (.enum d)
  | .field d => some (.field d)
  | .function d => some (.function d)
  | .namespace_ d => some (.namespace_ d)
  | .typeAlias d => some (.typeAlias d)
  | _ => none

/-- Changes the head of a declaration; any other statement stays as it is. -/
def mapHead (f : Head → Head) : Stmt → Stmt
  | .class_ d => .class_ { d with head := f d.head }
  | .enum d => .enum { d with head := f d.head }
  | .field d => .field { d with head := f d.head }
  | .function d => .function { d with head := f d.head }
  | .namespace_ d => .namespace_ { d with head := f d.head }
  | .typeAlias d => .typeAlias { d with head := f d.head }
  | stmt => stmt

def isEmpty : Stmt → Bool
  | .empty _ => true
  | _ => false

def kind : Stmt → NodeKind
  | .block .. => .block
  | .break_ .. => .break_
  | .continue_ .. => .continue_
  | .do_ .. => .do_
  | .empty .. => .empty
  | .export_ .. => .export_
  | .exportDefault .. => .exportDefault
  | .exportImport .. => .exportImport
  | .expression .. => .expression
  | .for_ .. => .for_
  | .forOf .. => .forOf
  | .if_ .. => .if_
  | .import_ .. => .import_
  | .return_ .. => .return_
  | .switch .. => .switch
  | .throw .. => .throw
  | .try_ .. => .try_
  | .variable_ .. => .variable_
  | .void .. => .void
  | .while_ .. => .while_
  | .module_ .. => .module_
  | .class_ d => (Declaration.class_ d).kind
  | .enum d => (Declaration.enum d).kind
  | .field d => (Declaration.field d).kind
  | .function d => (Declaration.function d).kind
  | .namespace_ d => (Declaration.namespace_ d).kind
  | .typeAlias d => (Declaration.typeAlias d).kind

def span : Stmt → Span
  | .export_ e => e.span
  | .import_ i => i.span
  | .expression e => e.span
  | .block _ s | .break_ _ s | .continue_ _ s | .do_ _ _ s | .empty s | .exportDefault _ s
  | .exportImport _ _ s | .for_ _ _ _ _ s | .forOf _ _ _ s | .if_ _ _ _ s | .return_ _ s
  | .switch _ _ s | .throw _ s | .try_ _ _ _ _ s | .variable_ _ _ s | .void _ s | .while_ _ _ s
  | .module_ _ _ s => s
  | .class_ d => d.head.span
  | .enum d => d.head.span
  | .field d => d.head.span
  | .function d => d.head.span
  | .namespace_ d => d.head.span
  | .typeAlias d => d.head.span

end Stmt

end TypedScript.Syntax
